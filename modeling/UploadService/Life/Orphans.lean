import UploadService.Life.SupportDeletes

/-!
# Orphaned policies

`deleteRelease` collects the policies of the release before its row goes, and deletes
those without an association after it. Nothing else of the delete writes rules or
associations, so what is collected and what is checked speak of the same associations.

Main results:

- `orphaned_iff`: a rule that is collected and found without an association is an orphan
  of the release, and the other way round;
- `deleteRelease_orphans`: a delete that succeeds removes the orphans of its release, and
  the associations of that release.
-/

namespace UploadService

open Prog ReleaseService

variable {env : UploadEnv}

/-- A policy, other than the default rule, of this release and of no other. -/
structure OrphanOf (db : UploadDb) (c : String) (rule : Rule) : Prop where
  policy : rule.type = .policy
  notDefault : rule.id ≠ defaultRuleId
  associated : ⟨rule.id, c⟩ ∈ db.ruleReleases
  noOther : ∀ a ∈ db.ruleReleases, a.ruleId = rule.id → a.releaseCatalogId = c

theorem orphanOf_iff (db : UploadDb) (c : String) (rule : Rule) :
    OrphanOf db c rule ↔ rule.type = .policy ∧ rule.id ≠ defaultRuleId ∧
      ⟨rule.id, c⟩ ∈ db.ruleReleases ∧
      ∀ a ∈ db.ruleReleases, a.ruleId = rule.id → a.releaseCatalogId = c :=
  ⟨fun h => ⟨h.policy, h.notDefault, h.associated, h.noOther⟩,
    fun h => ⟨h.1, h.2.1, h.2.2.1, h.2.2.2⟩⟩

instance (db : UploadDb) (c : String) (rule : Rule) : Decidable (OrphanOf db c rule) :=
  decidable_of_iff _ (orphanOf_iff db c rule).symm

/-- The rules and their releases. -/
def UploadDb.ruleTables (db : UploadDb) : List Rule × List RuleRelease := (db.rules, db.ruleReleases)

theorem ruleTables_sees : SeesStandings UploadDb.ruleTables :=
  fun _ _ _ _ _ _ _ _ _ _ => rfl

/-- The delete of the contents of a release leaves rules and associations as they are. -/
theorem deleteContents_ruleTables (p : ℕ) (v : String) (loaded : LoadedRelease) :
    Frames UploadDb.ruleTables (deleteContents env p v loaded) := by
  intro observed
  refine Keeps.bind (Keeps.gets _) fun statuses => Keeps.bind ?_ fun _ => ?_
  · refine Keeps.forEach fun s _ => keeps_logged ?_
    exact deleteVersionRegulationStatus_frames (fun _ _ => rfl) p v _ observed
  · refine Keeps.forEach fun a _ => keeps_logged ?_
    exact ruleTables_sees.deleteReleaseArtifact p v _ _ observed

section Collected

variable {db : UploadDb} {c : String} {rule : Rule}

/-- The policies that are collected are those of the release. -/
theorem mem_policyRuleIdsOf (hrules : Rows.KeysDistinct Rule.id db.rules) (hrule : rule ∈ db.rules) :
    rule.id ∈ policyRuleIdsOf db c ↔
      rule.type = .policy ∧ rule.id ≠ defaultRuleId ∧ ⟨rule.id, c⟩ ∈ db.ruleReleases := by
  unfold policyRuleIdsOf
  rw [List.mem_map]
  constructor
  · rintro ⟨x, hx, hid⟩
    obtain ⟨a, ha, hfound⟩ := List.mem_filterMap.mp hx
    obtain ⟨ha, hof⟩ := List.mem_filter.mp ha
    obtain ⟨hfind, hpolicy⟩ := Option.filter_eq_some_iff.mp hfound
    obtain ⟨hmem, hkey⟩ := Rows.findKey_some hfind
    obtain rfl : x = rule := hrules.eq_of_mem hmem hrule hid
    rw [Bool.and_eq_true, beq_iff_eq, bne_iff_ne] at hpolicy
    refine ⟨hpolicy.1, hpolicy.2, ?_⟩
    rw [hkey, ← beq_iff_eq.mp hof]
    exact ha
  · rintro ⟨htype, hdefault, hassociated⟩
    refine ⟨rule, List.mem_filterMap.mpr ⟨⟨rule.id, c⟩, ?_, ?_⟩, rfl⟩
    · exact List.mem_filter.mpr ⟨hassociated, beq_self_eq_true c⟩
    · rw [Rows.findKey_unique hrules hrule, Option.filter_some_pos]
      simp [htype, hdefault]

/-- **Main lemma.** What was collected before the delete and has no association after it are
the orphans of the release. -/
theorem orphaned_iff (hrules : Rows.KeysDistinct Rule.id db.rules) (hrule : rule ∈ db.rules) :
    (rule.id ∈ policyRuleIdsOf db c ∧ ∀ a ∈ (withoutRelease c db).ruleReleases, a.ruleId ≠ rule.id) ↔
      OrphanOf db c rule := by
  rw [mem_policyRuleIdsOf hrules hrule, orphanOf_iff]
  have hremaining : (∀ a ∈ (withoutRelease c db).ruleReleases, a.ruleId ≠ rule.id) ↔
      ∀ a ∈ db.ruleReleases, a.ruleId = rule.id → a.releaseCatalogId = c := by
    constructor
    · intro h a ha hid
      by_contra hother
      exact h a (Rows.mem_deleteWhere.mpr ⟨ha, by simpa using hother⟩) hid
    · intro h a ha hid
      obtain ⟨hmem, hother⟩ := Rows.mem_deleteWhere.mp ha
      rw [h a hmem hid] at hother
      simp at hother
  rw [hremaining]
  tauto

/-- The rules that the clean-up leaves. -/
theorem deleteOrphanedPolicies_rules (hrules : Rows.KeysDistinct Rule.id db.rules) :
    (deleteOrphanedPolicies (policyRuleIdsOf db c) (withoutRelease c db)).rules =
      db.rules.filter fun rule => ¬ OrphanOf db c rule := by
  apply List.filter_congr
  intro rule hrule
  have hcontains : ((policyRuleIdsOf db c).filter fun id =>
      !(withoutRelease c db).ruleReleases.any fun a => a.ruleId == id).contains rule.id =
        decide (OrphanOf db c rule) := by
    rw [Bool.eq_iff_iff, List.contains_iff_mem, List.mem_filter, decide_eq_true_eq,
      ← orphaned_iff hrules hrule]
    simp
  rw [decide_not]
  exact congrArg not hcontains

end Collected

/-! ### The delete -/

/-- What `deleteRelease` leaves of rules and associations, where it succeeds. -/
theorem deleteRelease_ruleTables {projectIdentifier : Option Identifier} {p q : ℕ} {v : String}
    {db db' : UploadDb} (hrules : Rows.KeysDistinct Rule.id db.rules)
    (hrun : deleteRelease env ⟨projectIdentifier, p, v⟩ db = (.ok q, db')) :
    namedProject db projectIdentifier p = some q ∧ ∃ r, db.findRelease q v = some r ∧
      db'.rules = (db.rules.filter fun rule => ¬ OrphanOf db r.catalogId rule) ∧
      db'.ruleReleases = db.ruleReleases.filter fun a => a.releaseCatalogId != r.catalogId := by
  by_cases h : ∃ q loaded, namedProject db projectIdentifier p = some q ∧
      db.getReleaseEntity q v = some loaded ∧ loaded.dependentReleases = []
  · obtain ⟨q', loaded, hname, hload, hdeps⟩ := h
    rw [deleteRelease_run env hname hload hdeps] at hrun
    obtain ⟨hfind, -⟩ := UploadDb.getReleaseEntity_some hload
    have htables := (@deleteContents_ruleTables env q' v loaded).eq db
    have hok := @deleteContents_ok env q' v loaded db
    rcases hcontents : deleteContents env q' v loaded db with ⟨result, db₁⟩
    rw [hcontents] at htables hok
    obtain ⟨hsame, hassociations⟩ := Prod.mk.inj htables
    obtain rfl : result = .ok () := hok
    rw [bind_run_ok hcontents, gets_bind_run] at hrun
    obtain ⟨_, db₂, hrow, hrest⟩ := bind_ok_inv hrun
    obtain ⟨hq, hdb'⟩ := Prod.mk.inj hrest
    have hgone : db₂ = withoutRelease loaded.release.catalogId db₁ := by
      unfold deleteReleaseRow at hrow
      split at hrow
      · cases (Prod.mk.inj hrow).1
      · exact (Prod.mk.inj hrow).2.symm
    obtain rfl := Except.ok.inj hq
    have hrules₁ : Rows.KeysDistinct Rule.id db₁.rules := by
      rw [hsame]
      exact hrules
    refine ⟨hname, loaded.release, hfind, ?_, ?_⟩
    · rw [← hdb', hgone, deleteOrphanedPolicies_rules hrules₁, hsame]
      apply List.filter_congr
      intro rule _
      rw [decide_eq_decide, orphanOf_iff, orphanOf_iff, hassociations]
    · rw [← hdb', hgone, ← hassociations]
      rfl
  · obtain ⟨e, hrefused⟩ := @deleteRelease_refused p db env projectIdentifier v
      fun q loaded hname hload hdeps => h ⟨q, loaded, hname, hload, hdeps⟩
    rw [hrefused] at hrun
    cases (Prod.mk.inj hrun).1

/-- **Main result.** A delete that succeeds removes exactly the orphans of its release: every
other rule stays, and so does every association of another release. -/
theorem deleteRelease_orphans (env : UploadEnv) (projectIdentifier : Option Identifier) (p : ℕ)
    (v : String) (db db' : UploadDb) (hrules : Rows.KeysDistinct Rule.id db.rules)
    (hrun : (GuardedBody.deleteRelease v).handle env projectIdentifier p db = (.ok (), db')) :
    ∃ q r, namedProject db projectIdentifier p = some q ∧ db.findRelease q v = some r ∧
      db'.rules = (db.rules.filter fun rule => ¬ OrphanOf db r.catalogId rule) ∧
      db'.ruleReleases = db.ruleReleases.filter fun a => a.releaseCatalogId != r.catalogId := by
  obtain ⟨q, db₁, hdelete, hlatest⟩ := bind_ok_inv hrun
  obtain ⟨-, rfl⟩ := Prod.mk.inj hlatest
  obtain ⟨hname, r, hfind, hleft⟩ := deleteRelease_ruleTables hrules hdelete
  exact ⟨q, r, hname, hfind, hleft⟩

/-! ### A small database -/

def plainRule (id : String) (type : RuleType) : Rule where
  id := id
  name := id
  description := none
  type := type
  version := 1
  isActive := true
  isPush := false
  rule := .null
  createdAt := 0
  updatedAt := 0

/-- Two releases under the default rule: a policy of the first, a policy of both, and a
restriction. -/
def sharedPolicies : UploadDb :=
  { oneProject with
    releases := [draftOf 1 "one@1.0", { draftOf 1 "one@2.0" with version := "2.0" }]
    rules := [plainRule defaultRuleId .policy, plainRule "own" .policy, plainRule "shared" .policy,
      plainRule "device" .restriction]
    ruleReleases := [⟨defaultRuleId, "one@1.0"⟩, ⟨"own", "one@1.0"⟩, ⟨"shared", "one@1.0"⟩,
      ⟨"shared", "one@2.0"⟩, ⟨"device", "one@1.0"⟩] }

/-- The database after the delete of the first release. -/
def sharedPoliciesCleaned : UploadDb :=
  ((GuardedBody.deleteRelease "1.0").handle plainUploadEnv none 1 sharedPolicies).2

theorem sharedPolicies_cleaned :
    ∃ q r, namedProject sharedPolicies none 1 = some q ∧ sharedPolicies.findRelease q "1.0" = some r ∧
      sharedPoliciesCleaned.rules =
        (sharedPolicies.rules.filter fun rule => ¬ OrphanOf sharedPolicies r.catalogId rule) ∧
      sharedPoliciesCleaned.ruleReleases =
        sharedPolicies.ruleReleases.filter fun a => a.releaseCatalogId != r.catalogId :=
  deleteRelease_orphans plainUploadEnv none 1 "1.0" sharedPolicies sharedPoliciesCleaned (by decide)
    (Prod.ext (by decide) rfl)

example : sharedPoliciesCleaned.rules.map (·.id) = [defaultRuleId, "shared", "device"] ∧
    sharedPoliciesCleaned.ruleReleases = [⟨"shared", "one@2.0"⟩] := by decide

end UploadService
