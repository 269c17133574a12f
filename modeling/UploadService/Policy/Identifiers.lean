import UploadService.Lib.Matching
import UploadService.Policy.Admission
import UploadService.Policy.Targets

/-!
# Releases by their identifications

A request names releases by a project id or a project name and a version. The entries are
deduplicated under a text, looked up by the number that their id starts with, and counted.

Main results:

- `releasesFound_iff`: the look-up succeeds where every kept entry finds a release of its own;
- `releases_exact_iff`: the release part of the associations is exact, where all entries denote
  a release exactly when the kept ones denote each of these once, and else exactly when the
  look-up does not succeed by accident.
-/

namespace UploadService

open Prog RuleService

/-- The unique indexes and the column types behind releases and projects. -/
structure RuleDb.ReleaseIndexes (db : RuleDb) : Prop where
  catalogIds : Rows.KeysDistinct Release.catalogId db.releases
  versions : ∀ r ∈ db.releases, ∀ r' ∈ db.releases, r.projectId = r'.projectId →
    r.version = r'.version → r = r'
  names : Rows.KeysDistinct Project.name db.projects
  columns : ∀ r ∈ db.releases, r.projectId ≤ 2147483647

/-- The entry denotes the release: its id, trimmed, is the decimal id of the project, or without
an id its name is the name of the project; and the version is the same. -/
def Denotes (db : RuleDb) (e : ReleaseIdentifierDto) (r : Release) : Prop :=
  e.version = some r.version ∧
    match usedProjectId e with
    | some id => trim id = toString r.projectId
    | none => ∃ p ∈ db.projects, p.id = r.projectId ∧ truthy e.projectName = some p.name

instance (db : RuleDb) (e : ReleaseIdentifierDto) (r : Release) : Decidable (Denotes db e r) := by
  unfold Denotes
  cases usedProjectId e <;> infer_instance

/-- Every entry denotes a release that is there. -/
def AllDenoted (db : RuleDb) (entries : List ReleaseIdentifierDto) : Prop :=
  ∀ e ∈ entries, ∃ r ∈ db.releases, Denotes db e r

/-- Of the entries that the deduplication keeps no two denote one release, and each release that
some entry denotes is denoted by a kept one. -/
structure KeptExact (db : RuleDb) (entries : List ReleaseIdentifierDto) : Prop where
  apart : (uniqueReleases entries).Pairwise fun e f =>
    ∀ r ∈ db.releases, ¬ (Denotes db e r ∧ Denotes db f r)
  all : ∀ e ∈ entries, ∀ r ∈ db.releases, Denotes db e r →
    ∃ u ∈ uniqueReleases entries, Denotes db u r

/-- Every kept entry finds a release, by the number its id starts with, and no two the same. -/
def LooselyFound (db : RuleDb) (entries : List ReleaseIdentifierDto) : Prop :=
  (∀ e ∈ uniqueReleases entries, ∃ r ∈ db.releases, entryMatches db e r = true) ∧
    Matching.Apart (entryMatches db) db.releases (uniqueReleases entries)

/-- The release part of `createAssociations` is exact: it succeeds where every entry denotes a
release, and then adds one row for each release denoted. -/
structure ReleasesExact (ruleId : String) (db : RuleDb) (entries : List ReleaseIdentifierDto) :
    Prop where
  succeeds : (∃ db', associateSome (associateReleases ruleId) (some entries) db = (.ok (), db')) ↔
    AllDenoted db entries
  rows : ∀ db', associateSome (associateReleases ruleId) (some entries) db = (.ok (), db') →
    ∃ added, db'.ruleReleases = db.ruleReleases ++ added ∧ added.Nodup ∧
      ∀ row, row ∈ added ↔
        ∃ e ∈ entries, ∃ r ∈ db.releases, Denotes db e r ∧ row = ⟨ruleId, r.catalogId⟩

/-! ### The kept entries -/

/-- The map of the deduplication, filled with some entries. -/
structure Deduplicated (entries : List ReleaseIdentifierDto)
    (m : List (String × ReleaseIdentifierDto)) : Prop where
  keys : ∀ x ∈ m, x.1 = releaseKey x.2
  entries : ∀ x ∈ m, x.2 ∈ entries
  nodup : (ObjectMap.keys m).Nodup

theorem deduplicated_run (entries : List ReleaseIdentifierDto) :
    Deduplicated entries (entries.foldl (fun m r => ObjectMap.set m (releaseKey r) r) []) := by
  have hrun : ∀ (rest : List ReleaseIdentifierDto) (m : List (String × ReleaseIdentifierDto)),
      rest ⊆ entries → Deduplicated entries m →
      Deduplicated entries (rest.foldl (fun m r => ObjectMap.set m (releaseKey r) r) m) := by
    intro rest
    induction rest with
    | nil => exact fun m _ hm => hm
    | cons e rest ih =>
        intro m hsub hm
        obtain ⟨he, hrest⟩ := List.cons_subset.mp hsub
        refine ih _ hrest ⟨fun x hx => ?_, fun x hx => ?_, ObjectMap.keys_set_nodup hm.nodup _ _⟩
        · rcases ObjectMap.mem_set hx with rfl | hx
          · rfl
          · exact hm.keys x hx
        · rcases ObjectMap.mem_set hx with rfl | hx
          · exact he
          · exact hm.entries x hx
  exact hrun entries [] (List.Subset.refl _)
    ⟨List.forall_mem_nil _, List.forall_mem_nil _, List.nodup_nil⟩

theorem uniqueReleases_subset (entries : List ReleaseIdentifierDto) :
    uniqueReleases entries ⊆ entries := by
  intro e he
  obtain ⟨x, hx, rfl⟩ := List.mem_map.mp he
  exact (deduplicated_run entries).entries x hx

/-! ### One entry -/

/-- A release that an entry denotes is one that its look-up finds. -/
theorem entryMatches_of_denotes {db : RuleDb} {e : ReleaseIdentifierDto} {r : Release}
    (h : Denotes db e r) : entryMatches db e r = true := by
  obtain ⟨hversion, hproject⟩ := h
  unfold entryMatches releaseCondition
  cases hid : usedProjectId e with
  | some id =>
      rw [hid] at hproject
      show ReleaseCondition.matches db.projects ⟨.id (parseInt? id), e.version⟩ r = true
      unfold ReleaseCondition.matches
      rw [hversion, parseInt?_of_trim hproject]
      simp
  | none =>
      rw [hid] at hproject
      obtain ⟨p, hp, hpid, hname⟩ := hproject
      rw [hname]
      show ReleaseCondition.matches db.projects ⟨.name p.name, e.version⟩ r = true
      unfold ReleaseCondition.matches
      rw [hversion, Bool.and_eq_true, List.any_eq_true]
      exact ⟨⟨p, hp, by simp [hpid]⟩, by simp⟩

/-- The condition of an entry that finds a release, and what it compares. -/
theorem entryMatches_cases {db : RuleDb} {e : ReleaseIdentifierDto} {r : Release}
    (hversion : e.version ≠ none) (h : entryMatches db e r = true) :
    e.version = some r.version ∧
      ((∃ id, usedProjectId e = some id ∧ parseInt? id = some (r.projectId : ℤ)) ∨
        usedProjectId e = none ∧
          ∃ p ∈ db.projects, p.id = r.projectId ∧ truthy e.projectName = some p.name) := by
  obtain ⟨v, hv⟩ := Option.ne_none_iff_exists'.mp hversion
  unfold entryMatches releaseCondition at h
  cases hid : usedProjectId e with
  | some id =>
      rw [hid] at h
      have h : ReleaseCondition.matches db.projects ⟨.id (parseInt? id), e.version⟩ r = true := h
      unfold ReleaseCondition.matches at h
      rw [hv, Bool.and_eq_true] at h
      have hid' : parseInt? id = some (r.projectId : ℤ) := by simpa using h.1
      have hv' : r.version = v := by simpa using h.2
      exact ⟨hv.trans (congrArg some hv'.symm), .inl ⟨id, rfl, hid'⟩⟩
  | none =>
      rw [hid] at h
      cases hname : truthy e.projectName with
      | none =>
          rw [hname] at h
          cases h
      | some name =>
          rw [hname] at h
          have h : ReleaseCondition.matches db.projects ⟨.name name, e.version⟩ r = true := h
          unfold ReleaseCondition.matches at h
          rw [hv, Bool.and_eq_true, List.any_eq_true] at h
          obtain ⟨⟨p, hp, hproject⟩, hversion⟩ := h
          have hv' : r.version = v := by simpa using hversion
          obtain ⟨hpid, hpname⟩ : p.id = r.projectId ∧ p.name = name := by simpa using hproject
          exact ⟨hv.trans (congrArg some hv'.symm), .inr ⟨rfl, p, hp, hpid, congrArg some hpname.symm⟩⟩

/-- **Spec.** With its version an entry finds at most one release. -/
theorem entryMatches_unique {db : RuleDb} (hdb : db.ReleaseIndexes) {e : ReleaseIdentifierDto}
    (hversion : e.version ≠ none) {r r' : Release} (hr : r ∈ db.releases) (hr' : r' ∈ db.releases)
    (h : entryMatches db e r = true) (h' : entryMatches db e r' = true) : r = r' := by
  obtain ⟨hv, hproject⟩ := entryMatches_cases hversion h
  obtain ⟨hv', hproject'⟩ := entryMatches_cases hversion h'
  have hversions : r.version = r'.version := Option.some.inj (hv.symm.trans hv')
  apply hdb.versions r hr r' hr' ?_ hversions
  rcases hproject with ⟨id, hid, hparse⟩ | ⟨hid, p, hp, hpid, hname⟩
  · rcases hproject' with ⟨id', hid', hparse'⟩ | ⟨hid', -⟩
    · rw [hid] at hid'
      obtain rfl := Option.some.inj hid'
      have hsame := Option.some.inj (hparse.symm.trans hparse')
      omega
    · rw [hid] at hid'
      cases hid'
  · rcases hproject' with ⟨id', hid', -⟩ | ⟨-, p', hp', hpid', hname'⟩
    · rw [hid] at hid'
      cases hid'
    · have heq : p = p' := hdb.names.eq_of_mem hp hp' (Option.some.inj (hname.symm.trans hname'))
      rw [← hpid, ← hpid', heq]

/-! ### The look-up -/

section Lookup

variable {db : RuleDb} {entries : List ReleaseIdentifierDto}

/-- **Main lemma.** The look-up succeeds where every kept entry finds a release of its own. -/
theorem releasesFound_iff (hdb : db.ReleaseIndexes) (hversions : ∀ e ∈ entries, e.version ≠ none) :
    ReleasesFound db entries ↔ LooselyFound db entries := by
  have hone : ∀ e ∈ uniqueReleases entries, ∀ r ∈ db.releases, ∀ r' ∈ db.releases,
      entryMatches db e r = true → entryMatches db e r' = true → r = r' :=
    fun e he r hr r' hr' => entryMatches_unique hdb
      (hversions e (uniqueReleases_subset entries he)) hr hr'
  have hcount := @Matching.length_filter_any_iff _ _ (entryMatches db) _ _
    (List.Nodup.of_map _ hdb.catalogIds) hone
  have hsame : requestedReleases db entries =
      db.releases.filter fun r => (uniqueReleases entries).any fun e => entryMatches db e r := by
    apply List.filter_congr
    intro r hr
    rw [Bool.eq_iff_iff]
    have hmem := @mem_requestedReleases db entries r
    unfold requestedReleases at hmem
    rw [List.mem_filter, and_congr_right_iff] at hmem
    rw [hmem hr, List.any_eq_true]
  unfold ReleasesFound LooselyFound
  rw [hsame, hcount]
  constructor
  · exact fun h => h.2.2
  · intro h
    refine ⟨fun e he hnone => ?_, fun c hc => ?_, h⟩
    · obtain ⟨r, -, hmatch⟩ := h.1 e he
      unfold entryMatches at hmatch
      rw [hnone] at hmatch
      cases hmatch
    · obtain ⟨e, he, hcond⟩ := List.mem_filterMap.mp hc
      obtain ⟨r, hr, hmatch⟩ := h.1 e he
      have hcolumn := hdb.columns r hr
      unfold releaseCondition at hcond
      rcases (entryMatches_cases (hversions e (uniqueReleases_subset entries he)) hmatch).2 with
        ⟨id, hid, hparse⟩ | ⟨hid, p, -, -, hname⟩
      · rw [hid] at hcond
        obtain rfl := Option.some.inj hcond
        unfold ReleaseCondition.wellTyped
        simp only [hparse, Bool.and_eq_true, decide_eq_true_eq]
        omega
      · rw [hid, hname] at hcond
        obtain rfl := Option.some.inj hcond
        rfl

theorem releasesPart_succeeds (ruleId : String) :
    (∃ db', associateSome (associateReleases ruleId) (some entries) db = (.ok (), db')) ↔
      ReleasesFound db entries := by
  constructor
  · rintro ⟨db', hrun⟩
    by_contra hmissing
    have hpart : ¬ ReleasesFound db ((some entries).getD []) := hmissing
    obtain ⟨e, herror⟩ := associateSome_missing (ReleasesFound db) (releasesFound_nil db)
      (fun xs hxs => associateReleases_missing ruleId hxs) hpart
    rw [herror] at hrun
    cases hrun
  · intro h
    exact ⟨_, releasesPart_run ruleId (a := ⟨some entries, none, none, none⟩) h⟩

end Lookup

/-! ### Exactness -/

section Exact

variable {db : RuleDb} {entries : List ReleaseIdentifierDto}

theorem denotes_of_matches (hdb : db.ReleaseIndexes) {e : ReleaseIdentifierDto} {r r' : Release}
    (hr : r ∈ db.releases) (hr' : r' ∈ db.releases) (hd : Denotes db e r)
    (h : entryMatches db e r' = true) : r = r' :=
  entryMatches_unique hdb (by rw [hd.1]; nofun) hr hr' (entryMatches_of_denotes hd) h

/-- Where all entries denote a release, the look-up finds what they denote. -/
theorem looselyFound_iff_of_denoted (hdb : db.ReleaseIndexes) (hall : AllDenoted db entries) :
    LooselyFound db entries ↔ (uniqueReleases entries).Pairwise fun e f =>
      ∀ r ∈ db.releases, ¬ (Denotes db e r ∧ Denotes db f r) := by
  have hdenotes : ∀ e ∈ uniqueReleases entries, ∀ r ∈ db.releases,
      entryMatches db e r = true → Denotes db e r := by
    intro e he r hr h
    obtain ⟨r', hr', hd⟩ := hall e (uniqueReleases_subset entries he)
    obtain rfl := denotes_of_matches hdb hr' hr hd h
    exact hd
  constructor
  · rintro ⟨-, hapart⟩
    apply hapart.imp
    rintro e f hef r hr ⟨hd, hd'⟩
    exact hef r hr ⟨entryMatches_of_denotes hd, entryMatches_of_denotes hd'⟩
  · intro hapart
    refine ⟨fun e he => ?_, hapart.imp_of_mem ?_⟩
    · obtain ⟨r, hr, hd⟩ := hall e (uniqueReleases_subset entries he)
      exact ⟨r, hr, entryMatches_of_denotes hd⟩
    · rintro e f he hf hef r hr ⟨hm, hm'⟩
      exact hef r hr ⟨hdenotes e he r hr hm, hdenotes f hf r hr hm'⟩

/-- The rows that a successful look-up adds. -/
theorem mem_releaseRows {ruleId : String} {row : RuleRelease} :
    row ∈ releaseRows ruleId db entries ↔
      ∃ u ∈ uniqueReleases entries, ∃ r ∈ db.releases, entryMatches db u r = true ∧
        row = ⟨ruleId, r.catalogId⟩ := by
  unfold releaseRows
  rw [List.mem_map]
  constructor
  · rintro ⟨r, hr, rfl⟩
    obtain ⟨hr, u, hu, hm⟩ := mem_requestedReleases.mp hr
    exact ⟨u, hu, r, hr, hm, rfl⟩
  · rintro ⟨u, hu, r, hr, hm, rfl⟩
    exact ⟨r, mem_requestedReleases.mpr ⟨hr, u, hu, hm⟩, rfl⟩

theorem releaseRows_nodup (hdb : db.ReleaseIndexes) (ruleId : String) :
    (releaseRows ruleId db entries).Nodup := by
  have hkeys : (requestedReleases db entries).Pairwise fun r r' => r.catalogId ≠ r'.catalogId :=
    List.pairwise_map.mp (hdb.catalogIds.sublist List.filter_sublist)
  unfold releaseRows List.Nodup
  rw [List.pairwise_map]
  exact hkeys.imp fun hne heq => hne (RuleRelease.mk.inj heq).2

/-- **Main result.** The release part is exact: where every entry denotes a release, when the
kept entries denote each release denoted, once; else when the look-up does not succeed by the
numbers that the ids start with. -/
theorem releases_exact_iff (ruleId : String) (db : RuleDb) (hdb : db.ReleaseIndexes)
    (entries : List ReleaseIdentifierDto) (hversions : ∀ e ∈ entries, e.version ≠ none) :
    ReleasesExact ruleId db entries ↔
      (AllDenoted db entries → KeptExact db entries) ∧
        (¬ AllDenoted db entries → ¬ LooselyFound db entries) := by
  have hsucceeds := @releasesPart_succeeds db entries ruleId
  rw [releasesFound_iff hdb hversions] at hsucceeds
  have hrun : LooselyFound db entries → associateSome (associateReleases ruleId) (some entries) db =
      (.ok (), { db with
        ruleReleases := db.ruleReleases ++ releaseRows ruleId db entries }) := fun hfound =>
    releasesPart_run ruleId (a := ⟨some entries, none, none, none⟩)
      ((releasesFound_iff hdb hversions).mpr hfound)
  constructor
  · rintro ⟨hiff, hrows⟩
    rw [hsucceeds] at hiff
    refine ⟨fun hall => ?_, fun hnot hfound => hnot (hiff.mp hfound)⟩
    have hfound := hiff.mpr hall
    refine ⟨(looselyFound_iff_of_denoted hdb hall).mp hfound, fun e he r hr hd => ?_⟩
    obtain ⟨added, hadded, -, hmem⟩ := hrows _ (hrun hfound)
    obtain rfl : releaseRows ruleId db entries = added := List.append_cancel_left hadded
    obtain ⟨u, hu, r', hr', hm, heq⟩ :=
      mem_releaseRows.mp ((hmem ⟨ruleId, r.catalogId⟩).mpr ⟨e, he, r, hr, hd, rfl⟩)
    obtain rfl := hdb.catalogIds.eq_of_mem hr hr' (RuleRelease.mk.inj heq).2
    obtain ⟨r'', hr'', hd'⟩ := hall u (uniqueReleases_subset entries hu)
    obtain rfl := denotes_of_matches hdb hr'' hr hd' hm
    exact ⟨u, hu, hd'⟩
  · rintro ⟨hkept, hloose⟩
    by_cases hall : AllDenoted db entries
    · obtain ⟨hapart, hcover⟩ := hkept hall
      have hfound := (looselyFound_iff_of_denoted hdb hall).mpr hapart
      refine ⟨iff_of_true (hsucceeds.mpr hfound) hall, fun db' hdb' => ?_⟩
      rw [hrun hfound] at hdb'
      obtain rfl := (Prod.mk.inj hdb').2
      refine ⟨releaseRows ruleId db entries, rfl, releaseRows_nodup hdb ruleId, fun row => ?_⟩
      rw [mem_releaseRows]
      constructor
      · rintro ⟨u, hu, r, hr, hm, rfl⟩
        obtain ⟨r', hr', hd⟩ := hall u (uniqueReleases_subset entries hu)
        obtain rfl := denotes_of_matches hdb hr' hr hd hm
        exact ⟨u, uniqueReleases_subset entries hu, r', hr', hd, rfl⟩
      · rintro ⟨e, he, r, hr, hd, rfl⟩
        obtain ⟨u, hu, hd'⟩ := hcover e he r hr hd
        exact ⟨u, hu, r, hr, entryMatches_of_denotes hd', rfl⟩
    · refine ⟨iff_of_false ?_ hall, fun db' hdb' => ?_⟩
      · rw [hsucceeds]
        exact hloose hall
      · exact absurd (hsucceeds.mp ⟨db', hdb'⟩) (hloose hall)

end Exact

/-! ### Small requests -/

theorem smallPolicyDb_indexes : smallPolicyDb.ReleaseIndexes :=
  ⟨by decide, by decide, by decide, by decide⟩

/-- Two releases, one of them twice by its name. -/
def smallEntries : List ReleaseIdentifierDto :=
  [⟨none, some "one", some "1.0"⟩, ⟨some " 2 ", none, some "1.0"⟩, ⟨none, some "one", some "1.0"⟩]

theorem smallEntries_exact : ReleasesExact "new" smallPolicyDb smallEntries :=
  (releases_exact_iff "new" smallPolicyDb smallPolicyDb_indexes smallEntries (by decide)).mpr
    ⟨fun _ => ⟨by decide, by decide⟩, fun hnot => absurd (by unfold AllDenoted; decide) hnot⟩

/-- One release named by its id and by its name is refused; an id with a trailing letter is taken
for the number it starts with. -/
theorem identifications_inexact :
    ¬ ReleasesExact "new" smallPolicyDb
        [⟨some "1", none, some "1.0"⟩, ⟨none, some "one", some "1.0"⟩] ∧
      ¬ ReleasesExact "new" smallPolicyDb [⟨some "2x", none, some "1.0"⟩] := by
  constructor
  · rintro ⟨hiff, -⟩
    obtain ⟨db', hrun⟩ := hiff.mpr (by unfold AllDenoted; decide)
    have hrefused : (associateSome (associateReleases "new")
        (some [⟨some "1", none, some "1.0"⟩, ⟨none, some "one", some "1.0"⟩]) smallPolicyDb).1 =
        .error (.badRequest "One or more releases not found. Requested: 2, Found: 1") := by decide
    rw [hrun] at hrefused
    cases hrefused
  · rintro ⟨hiff, -⟩
    have hdenoted : ¬ AllDenoted smallPolicyDb [⟨some "2x", none, some "1.0"⟩] := by
      unfold AllDenoted
      decide
    have hok : (associateSome (associateReleases "new") (some [⟨some "2x", none, some "1.0"⟩])
        smallPolicyDb).1 = .ok () := by decide
    exact hdenoted (hiff.mp ⟨_, Prod.ext hok rfl⟩)

end UploadService
