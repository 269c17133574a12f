import UploadService.Policy.Fields
import UploadService.Life.Schema
import UploadService.Life.Standing

/-!
# Every rule keeps a target

A policy is created with a release and a restriction with a device type, a device or an OS. An update
replaces the associations without looking for a target; the delete of a release takes its
associations, and then the policies that have none left.

Main results:

- `deleteRelease_keepsPolicies`: the delete of a release leaves no policy without one;
- `targets_along_iff`: along runs of successful operations every rule keeps a target exactly when
  every update that brings associations brings a target.
-/

namespace UploadService

open Prog RuleService ReleaseService Runs

/-! ### The store of both services -/

/-- The tables of the releases, and those that only the rules use. -/
structure RuleWorld where
  db : UploadDb
  deviceTypes : List DeviceType
  deviceIds : List String
  ruleFields : List String
  ruleDeviceTypes : List RuleDeviceType
  ruleDevices : List RuleDevice
  ruleOs : List RuleOs

namespace RuleWorld

/-- The tables as the rule service sees them. -/
def ruleDb (w : RuleWorld) : RuleDb where
  projects := w.db.projects
  releases := w.db.releases
  deviceTypes := w.deviceTypes
  deviceIds := w.deviceIds
  ruleFields := w.ruleFields
  rules := w.db.rules
  ruleReleases := w.db.ruleReleases
  ruleDeviceTypes := w.ruleDeviceTypes
  ruleDevices := w.ruleDevices
  ruleOs := w.ruleOs

/-- The tables after the rule service wrote; it writes no project, release, device or field. -/
def setRuleDb (rules : RuleDb) (w : RuleWorld) : RuleWorld :=
  { w with
    db := { w.db with rules := rules.rules, ruleReleases := rules.ruleReleases }
    ruleDeviceTypes := rules.ruleDeviceTypes
    ruleDevices := rules.ruleDevices
    ruleOs := rules.ruleOs }

/-- The tables after the release service wrote: the associations of a rule that it deleted go with
the rule (ON DELETE CASCADE). -/
def setDb (db : UploadDb) (w : RuleWorld) : RuleWorld :=
  let stored := fun id => db.rules.any fun rule => rule.id == id
  { w with
    db := db
    ruleDeviceTypes := w.ruleDeviceTypes.filter fun a => stored a.ruleId
    ruleDevices := w.ruleDevices.filter fun a => stored a.ruleId
    ruleOs := w.ruleOs.filter fun a => stored a.ruleId }

end RuleWorld

/-- One operation on rules and releases. -/
inductive TargetEvent where
  | createRule (draw : Draw) (dto : CreateRuleDto)
  | updateRule (draw : Draw) (id : String) (dto : UpdateRuleDto)
  | deleteRule (id : String)
  | deleteRelease (env : UploadEnv) (projectIdentifier : Option Identifier) (projectId : ℕ)
      (version : String)
  | deleteProjectReleases (env : UploadEnv) (projectId : ℕ)

/-- The operation; what it returns is not observed. -/
def TargetEvent.run (env : RuleEnv) : TargetEvent → Prog RuleWorld Exception Unit
  | createRule draw dto => zoom RuleWorld.ruleDb RuleWorld.setRuleDb do
      let _ ← RuleService.createRule (env.drawing draw) dto
      pure ()
  | updateRule draw id dto => zoom RuleWorld.ruleDb RuleWorld.setRuleDb do
      let _ ← RuleService.updateRule (env.drawing draw) id dto
      pure ()
  | deleteRule id => zoom RuleWorld.ruleDb RuleWorld.setRuleDb (RuleService.deleteRule id)
  | deleteRelease uploadEnv projectIdentifier projectId version =>
      zoom RuleWorld.db RuleWorld.setDb
        ((GuardedBody.deleteRelease version).handle uploadEnv projectIdentifier projectId)
  | deleteProjectReleases uploadEnv projectId =>
      zoom RuleWorld.db RuleWorld.setDb (ReleaseService.deleteProjectReleases uploadEnv projectId)

def TargetEvent.step (env : RuleEnv) (w : RuleWorld) (e : TargetEvent) : RuleWorld := (e.run env w).2

/-- The operation succeeds. -/
def Succeeds (env : RuleEnv) (w : RuleWorld) (e : TargetEvent) : Prop := (e.run env w).1 = .ok ()

/-! ### Targets -/

/-- The rule has a target: a policy other than the default rule has a release, a restriction has a
device type, a device or an OS. -/
def HasTarget (db : RuleDb) (rule : Rule) : Prop :=
  match rule.type with
  | .policy => rule.id = defaultRuleId ∨ ∃ r, AssociatedWith db rule.id r
  | .restriction => (∃ a ∈ db.ruleDeviceTypes, a.ruleId = rule.id) ∨
      (∃ a ∈ db.ruleDevices, a.ruleId = rule.id) ∨ ∃ a ∈ db.ruleOs, a.ruleId = rule.id

def TargetsKept (w : RuleWorld) : Prop := ∀ rule ∈ w.db.rules, HasTarget w.ruleDb rule

/-- The associations of a request hold a target for a rule of the type. -/
def NamesTarget (type : RuleType) (a : RuleAssociationDto) : Prop :=
  match type with
  | .policy => a.releases.getD [] ≠ []
  | .restriction => a.deviceTypeNames.getD [] ≠ [] ∨ a.deviceIds.getD [] ≠ [] ∨ a.osTypes.getD [] ≠ []

/-- An update that brings associations brings a target, unless it is of the default rule. -/
def KeepsTarget (w : RuleWorld) : TargetEvent → Prop
  | .updateRule _ id dto => ∀ a, dto.association = some a →
      ∀ rule ∈ w.db.rules, rule.id = id →
        (rule.type = .policy ∧ id = defaultRuleId) ∨ NamesTarget rule.type a
  | _ => True

theorem requireTarget_ok_iff {type : RuleType} {a : RuleAssociationDto} {db : RuleDb} :
    (requireTarget type a db).1 = .ok () ↔ NamesTarget type a := by
  unfold requireTarget NamesTarget
  cases type with
  | policy =>
      simp only
      by_cases hnone : (a.releases.getD []).isEmpty = true
      · rw [if_pos hnone, List.isEmpty_iff.mp hnone]
        simp
      · rw [if_neg hnone]
        simpa using hnone
  | restriction =>
      simp only
      by_cases hnone : ((a.deviceTypeNames.getD []).isEmpty && (a.deviceIds.getD []).isEmpty &&
          (a.osTypes.getD []).isEmpty) = true
      · rw [if_pos hnone]
        simp only [Bool.and_eq_true, List.isEmpty_iff] at hnone
        simp [hnone.1.1, hnone.1.2, hnone.2]
      · rw [if_neg hnone]
        simp only [Bool.and_eq_true, List.isEmpty_iff, not_and_or] at hnone
        refine iff_of_true rfl ?_
        rcases hnone with (h | h) | h
        · exact .inl h
        · exact .inr (.inl h)
        · exact .inr (.inr h)

/-! ### The rows of a request -/

theorem uniqueReleases_eq_nil {entries : List ReleaseIdentifierDto} :
    uniqueReleases entries = [] ↔ entries = [] := by
  constructor
  · intro h
    cases entries with
    | nil => rfl
    | cons e entries =>
        have hgrows : ∀ (xs : List ReleaseIdentifierDto)
            (m : List (String × ReleaseIdentifierDto)), m ≠ [] →
            xs.foldl (fun m r => ObjectMap.set m (releaseKey r) r) m ≠ [] := by
          intro xs
          induction xs with
          | nil => exact fun m hm => hm
          | cons x xs ih => exact fun m _ => ih _ (ObjectMap.set_ne_nil m (releaseKey x) x)
        unfold uniqueReleases at h
        exact absurd (List.map_eq_nil_iff.mp h) (hgrows entries _ (ObjectMap.set_ne_nil [] _ e))
  · rintro rfl
    rfl

theorem releaseRows_eq_nil {id : String} {db : RuleDb} {entries : List ReleaseIdentifierDto}
    (h : ReleasesFound db entries) : releaseRows id db entries = [] ↔ entries = [] := by
  unfold releaseRows
  rw [List.map_eq_nil_iff, ← uniqueReleases_eq_nil, ← List.length_eq_zero_iff, h.2.2,
    List.length_eq_zero_iff]

theorem deviceTypeRows_eq_nil {id : String} {db : RuleDb} {names : List String}
    (h : DeviceTypesFound db names) : deviceTypeRows id db names = [] ↔ names = [] := by
  unfold DeviceTypesFound at h
  unfold deviceTypeRows
  rw [List.map_eq_nil_iff, ← List.length_eq_zero_iff, h, List.length_eq_zero_iff,
    ObjectMap.addKeys_eq_nil]

theorem deviceRows_eq_nil {id : String} {db : RuleDb} {ids : List String} (h : DevicesFound db ids) :
    deviceRows id db ids = [] ↔ ids = [] := by
  unfold DevicesFound at h
  unfold deviceRows
  rw [List.map_eq_nil_iff, ← List.length_eq_zero_iff, h, List.length_eq_zero_iff,
    ObjectMap.addKeys_eq_nil]

theorem osRows_eq_nil {id : String} {osTypes : List String} : osRows id osTypes = [] ↔ osTypes = [] := by
  unfold osRows
  rw [List.map_eq_nil_iff, ObjectMap.addKeys_eq_nil]

/-- The rows of a rule in a table, after rows of one rule are added. -/
theorem exists_row_append {α : Type} {ruleId : α → String} {rows added : List α} {id : String}
    (hadded : ∀ a ∈ added, ruleId a = id) (x : String) :
    (∃ a ∈ rows ++ added, ruleId a = x) ↔ (∃ a ∈ rows, ruleId a = x) ∨ (x = id ∧ added ≠ []) := by
  constructor
  · rintro ⟨a, ha, rfl⟩
    rcases List.mem_append.mp ha with ha | ha
    · exact .inl ⟨a, ha, rfl⟩
    · exact .inr ⟨hadded a ha, List.ne_nil_of_mem ha⟩
  · rintro (⟨a, ha, hid⟩ | ⟨rfl, hne⟩)
    · exact ⟨a, List.mem_append_left _ ha, hid⟩
    · obtain ⟨a, ha⟩ := List.exists_mem_of_ne_nil _ hne
      exact ⟨a, List.mem_append_right _ ha, hadded a ha⟩

theorem releaseRows_ruleId {id : String} {db : RuleDb} {entries : List ReleaseIdentifierDto} :
    ∀ a ∈ releaseRows id db entries, a.ruleId = id := by
  intro a ha
  obtain ⟨r, -, rfl⟩ := List.mem_map.mp ha
  rfl

theorem deviceTypeRows_ruleId {id : String} {db : RuleDb} {names : List String} :
    ∀ a ∈ deviceTypeRows id db names, a.ruleId = id := by
  intro a ha
  obtain ⟨t, -, rfl⟩ := List.mem_map.mp ha
  rfl

theorem deviceRows_ruleId {id : String} {db : RuleDb} {ids : List String} :
    ∀ a ∈ deviceRows id db ids, a.ruleId = id := by
  intro a ha
  obtain ⟨d, -, rfl⟩ := List.mem_map.mp ha
  rfl

theorem osRows_ruleId {id : String} {osTypes : List String} :
    ∀ a ∈ osRows id osTypes, a.ruleId = id := by
  intro a ha
  obtain ⟨os, -, rfl⟩ := List.mem_map.mp ha
  rfl

/-- The releases of a rule after the associations of one are made. -/
theorem associatedWith_associatedDb {id : String} {a : RuleAssociationDto} {db : RuleDb} (x : String) :
    (∃ r, AssociatedWith (associatedDb id a db) x r) ↔
      (∃ r, AssociatedWith db x r) ∨ (x = id ∧ releaseRows id db (a.releases.getD []) ≠ []) := by
  constructor
  · rintro ⟨r, hr, row, hrow, hid, hcat⟩
    rcases List.mem_append.mp hrow with hold | hnew
    · exact .inl ⟨r, hr, row, hold, hid, hcat⟩
    · exact .inr ⟨hid ▸ releaseRows_ruleId row hnew, List.ne_nil_of_mem hnew⟩
  · rintro (⟨r, hr, row, hrow, hid, hcat⟩ | ⟨rfl, hne⟩)
    · exact ⟨r, hr, row, List.mem_append_left _ hrow, hid, hcat⟩
    · obtain ⟨row, hrow⟩ := List.exists_mem_of_ne_nil _ hne
      obtain ⟨r, hr, rfl⟩ := List.mem_map.mp hrow
      exact ⟨r, requestedReleases_subset r hr, _, List.mem_append_right _ hrow, rfl, rfl⟩

theorem or_and_gather {A B C p x y z : Prop} :
    (A ∨ (p ∧ x)) ∨ (B ∨ (p ∧ y)) ∨ (C ∨ (p ∧ z)) ↔ (A ∨ B ∨ C) ∨ (p ∧ (x ∨ y ∨ z)) := by
  tauto

/-- **Spec.** A rule has a target after the associations of one are made exactly when it had one, or
is that rule and the request names one. -/
theorem hasTarget_associatedDb {id : String} {a : RuleAssociationDto} {db : RuleDb}
    (hfound : AssociationsFound db a) (rule : Rule) :
    HasTarget (associatedDb id a db) rule ↔
      HasTarget db rule ∨ (rule.id = id ∧ NamesTarget rule.type a) := by
  unfold HasTarget NamesTarget
  cases rule.type with
  | policy =>
      simp only
      rw [associatedWith_associatedDb, ne_eq, releaseRows_eq_nil hfound.releases, or_assoc]
  | restriction =>
      simp only
      have htypes := @exists_row_append _ RuleDeviceType.ruleId db.ruleDeviceTypes _ id
        (@deviceTypeRows_ruleId id db (a.deviceTypeNames.getD [])) rule.id
      have hdevices := @exists_row_append _ RuleDevice.ruleId db.ruleDevices _ id
        (@deviceRows_ruleId id db (a.deviceIds.getD [])) rule.id
      have hos := @exists_row_append _ RuleOs.ruleId db.ruleOs _ id
        (@osRows_ruleId id (a.osTypes.getD [])) rule.id
      rw [ne_eq, deviceTypeRows_eq_nil hfound.deviceTypes] at htypes
      rw [ne_eq, deviceRows_eq_nil hfound.devices] at hdevices
      rw [ne_eq, osRows_eq_nil] at hos
      show (∃ x ∈ db.ruleDeviceTypes ++ deviceTypeRows id db (a.deviceTypeNames.getD []),
          x.ruleId = rule.id) ∨
        (∃ x ∈ db.ruleDevices ++ deviceRows id db (a.deviceIds.getD []), x.ruleId = rule.id) ∨
        (∃ x ∈ db.ruleOs ++ osRows id (a.osTypes.getD []), x.ruleId = rule.id) ↔ _
      rw [htypes, hdevices, hos]
      exact or_and_gather

/-- A rule whose associations are removed has no target, unless it is the default rule; the other
rules keep theirs. -/
theorem hasTarget_removed {id : String} {db : RuleDb} (rules : List Rule) (rule : Rule) :
    HasTarget { (removeAssociations id db).2 with rules := rules } rule ↔
      if rule.id = id then rule.type = .policy ∧ id = defaultRuleId else HasTarget db rule := by
  have hrows : ∀ {α : Type} (ruleId : α → String) (rows : List α),
      (∃ a ∈ Rows.deleteWhere (fun a => ruleId a == id) rows, ruleId a = rule.id) ↔
        rule.id ≠ id ∧ ∃ a ∈ rows, ruleId a = rule.id := by
    intro α ruleId rows
    constructor
    · rintro ⟨a, ha, hid⟩
      obtain ⟨hmem, hne⟩ := Rows.mem_deleteWhere.mp ha
      exact ⟨fun heq => by simp [hid.trans heq] at hne, a, hmem, hid⟩
    · rintro ⟨hne, a, ha, hid⟩
      exact ⟨a, Rows.mem_deleteWhere.mpr ⟨ha, by simpa [hid] using hne⟩, hid⟩
  have hreleases : (∃ r, AssociatedWith { (removeAssociations id db).2 with rules := rules } rule.id r) ↔
      rule.id ≠ id ∧ ∃ r, AssociatedWith db rule.id r := by
    constructor
    · rintro ⟨r, hr, row, hrow, hid, hcat⟩
      obtain ⟨hmem, hne⟩ := Rows.mem_deleteWhere.mp hrow
      exact ⟨fun heq => by simp [hid.trans heq] at hne, r, hr, row, hmem, hid, hcat⟩
    · rintro ⟨hne, r, hr, row, hrow, hid, hcat⟩
      exact ⟨r, hr, row, Rows.mem_deleteWhere.mpr ⟨hrow, by simpa [hid] using hne⟩, hid, hcat⟩
  unfold HasTarget
  cases rule.type with
  | policy =>
      simp only
      rw [hreleases]
      by_cases hid : rule.id = id
      · simp [hid]
      · simp [hid]
  | restriction =>
      simp only
      show (∃ x ∈ Rows.deleteWhere (fun x => x.ruleId == id) db.ruleDeviceTypes, x.ruleId = rule.id) ∨
        (∃ x ∈ Rows.deleteWhere (fun x => x.ruleId == id) db.ruleDevices, x.ruleId = rule.id) ∨
        (∃ x ∈ Rows.deleteWhere (fun x => x.ruleId == id) db.ruleOs, x.ruleId = rule.id) ↔ _
      rw [hrows RuleDeviceType.ruleId, hrows RuleDevice.ruleId, hrows RuleOs.ruleId]
      by_cases hid : rule.id = id
      · simp [hid]
      · simp [hid]

theorem hasTarget_congr {db : RuleDb} {rule rule' : Rule} (htype : rule'.type = rule.type)
    (hid : rule'.id = rule.id) : HasTarget db rule' ↔ HasTarget db rule := by
  unfold HasTarget
  rw [htype, hid]

/-! ### The delete of a release -/

/-- Every stored policy other than the default rule is associated with a release. -/
def PoliciesAssociated (rules : List Rule) (ruleReleases : List RuleRelease) : Prop :=
  ∀ rule ∈ rules, rule.type = .policy → rule.id ≠ defaultRuleId → ∃ a ∈ ruleReleases, a.ruleId = rule.id

/-- What the deletes keep of the rules: fewer of them, and no policy without a release. -/
structure PoliciesKept (before : List Rule) (rules : List Rule) (ruleReleases : List RuleRelease) :
    Prop where
  keys : Rows.KeysDistinct Rule.id rules
  fewer : rules.Sublist before
  associated : PoliciesAssociated rules ruleReleases

theorem policyRuleIds_sees : SeesStandings fun db : UploadDb => (db.rules, db.ruleReleases) :=
  fun _ _ _ _ _ _ _ _ _ _ => rfl

/-- The row goes, and with it the policies that have no release left. -/
theorem deleteReleaseRow_keepsPolicies {before : List Rule} {catalogId : String} {db db' : UploadDb}
    (h : PoliciesKept before db.rules db.ruleReleases)
    (hrun : deleteReleaseRow catalogId db = (.ok (), db')) :
    PoliciesKept before (deleteOrphanedPolicies (policyRuleIdsOf db catalogId) db').rules
      (deleteOrphanedPolicies (policyRuleIdsOf db catalogId) db').ruleReleases := by
  have hdb' : db'.rules = db.rules ∧ db'.ruleReleases =
      Rows.deleteWhere (fun a => a.releaseCatalogId == catalogId) db.ruleReleases := by
    unfold deleteReleaseRow at hrun
    split at hrun
    · cases hrun
    · obtain rfl := ((Prod.mk.injEq ..).mp hrun).2
      exact ⟨rfl, rfl⟩
  have hsub : (deleteOrphanedPolicies (policyRuleIdsOf db catalogId) db').rules.Sublist db.rules := by
    rw [← hdb'.1]
    exact Rows.deleteWhere_sublist _ _
  refine ⟨h.keys.sublist hsub, hsub.trans h.fewer, ?_⟩
  intro rule hrule htype hne
  obtain ⟨hmem, hkept⟩ := Rows.mem_deleteWhere.mp hrule
  rw [hdb'.1] at hmem
  obtain ⟨a, ha, hid⟩ := h.associated rule hmem htype hne
  show ∃ a ∈ db'.ruleReleases, a.ruleId = rule.id
  by_contra hnone
  have hcat : a.releaseCatalogId = catalogId := by
    by_contra hother
    exact hnone ⟨a, hdb'.2 ▸ Rows.mem_deleteWhere.mpr ⟨ha, by simpa using hother⟩, hid⟩
  have hpolicy : rule.id ∈ policyRuleIdsOf db catalogId := by
    refine List.mem_map.mpr ⟨rule, List.mem_filterMap.mpr ⟨a, ?_, ?_⟩, rfl⟩
    · exact List.mem_filter.mpr ⟨ha, by simpa using hcat⟩
    · rw [hid, Rows.findKey_unique h.keys hmem, Option.filter_some, if_pos]
      simp [htype, hne]
  have horphan : ((policyRuleIdsOf db catalogId).filter fun id =>
      !db'.ruleReleases.any fun a => a.ruleId == id).contains rule.id = true := by
    rw [List.contains_iff_mem]
    refine List.mem_filter.mpr ⟨hpolicy, ?_⟩
    have hany : (db'.ruleReleases.any fun a => a.ruleId == rule.id) = false := by
      rw [List.any_eq_false]
      intro b hb hbid
      exact hnone ⟨b, hb, by simpa using hbid⟩
    rw [hany]
    rfl
  rw [horphan] at hkept
  cases hkept

/-- **Step.** The delete of a release leaves no policy without one. -/
theorem deleteRelease_keepsPolicies (env : UploadEnv) (before : List Rule) (params : ReleaseParams) :
    Keeps (fun db : UploadDb => PoliciesKept before db.rules db.ruleReleases)
      (deleteRelease env params) := by
  refine Keeps.bind (keeps_of_reads fun db => getRelease_reads _ _ _) fun found => ?_
  obtain ⟨projectId, loaded⟩ := found
  refine Keeps.bind (Keeps.ite (Keeps.pure _) (Keeps.throw _)) fun _ => ?_
  refine Keeps.bind ?_ fun _ => ?_
  · exact (policyRuleIds_sees.deleteContents projectId params.version loaded).keeps
      fun tables => PoliciesKept before tables.1 tables.2
  · intro db h
    rw [gets_bind_run]
    rcases hrun : deleteReleaseRow loaded.release.catalogId db with ⟨result, db'⟩
    cases result with
    | error e =>
        rw [bind_run_error hrun]
        have hsame : db' = db := by
          unfold deleteReleaseRow at hrun
          split at hrun
          · exact ((Prod.mk.injEq ..).mp hrun).2.symm
          · cases hrun
        rw [hsame]
        exact h
    | ok _ =>
        rw [bind_run_ok hrun]
        exact deleteReleaseRow_keepsPolicies h hrun

theorem deleteProjectReleases_keepsPolicies (env : UploadEnv) (before : List Rule) (projectId : ℕ) :
    Keeps (fun db : UploadDb => PoliciesKept before db.rules db.ruleReleases)
      (ReleaseService.deleteProjectReleases env projectId) := by
  refine Keeps.bind (Keeps.gets _) fun releases => ?_
  refine Keeps.bind (Keeps.when (Keeps.modify fun db h => h)) fun _ => ?_
  exact Keeps.forEach fun r _ => keeps_logged (deleteRelease_keepsPolicies env before _)

/-! ### Steps -/

/-- The keys and references that the operations go by. -/
structure RuleWorld.Constraints (w : RuleWorld) : Prop where
  db : w.db.Constraints
  ruleKeys : Rows.KeysDistinct Rule.id w.db.rules

/-- A write of the rule service in the whole store. -/
theorem zoom_rules_success {α : Type} {prog : RuleProg α} {w : RuleWorld}
    (h : (zoom RuleWorld.ruleDb RuleWorld.setRuleDb (do let _ ← prog; pure ()) w).1 = .ok ()) :
    ∃ value db', prog w.ruleDb = (.ok value, db') ∧
      (zoom RuleWorld.ruleDb RuleWorld.setRuleDb (do let _ ← prog; pure ()) w).2 =
        RuleWorld.setRuleDb db' w := by
  rcases hrun : prog w.ruleDb with ⟨result, db'⟩
  cases result with
  | error e =>
      have hfailed : (do let _ ← prog; pure () : RuleProg Unit) w.ruleDb = (.error e, db') :=
        bind_run_error hrun _
      unfold zoom at h
      rw [hfailed] at h
      cases h
  | ok value =>
      have hdone : (do let _ ← prog; pure () : RuleProg Unit) w.ruleDb = (.ok (), db') :=
        bind_run_ok hrun _
      exact ⟨value, db', rfl, by unfold zoom; rw [hdone]⟩

/-- A store whose associations are of stored releases keeps the schema. -/
theorem RuleWorld.Constraints.setRuleDb {w : RuleWorld} (h : w.Constraints) {db : RuleDb}
    (hkeys : Rows.KeysDistinct Rule.id db.rules)
    (hrows : ∀ a ∈ db.ruleReleases, ∃ r ∈ w.db.releases, r.catalogId = a.releaseCatalogId) :
    (RuleWorld.setRuleDb db w).Constraints :=
  ⟨{ h.db with ruleReleases := hrows }, hkeys⟩

theorem associatedDb_releases {id : String} {a : RuleAssociationDto} {db : RuleDb}
    (h : ∀ x ∈ db.ruleReleases, ∃ r ∈ db.releases, r.catalogId = x.releaseCatalogId) :
    ∀ x ∈ (associatedDb id a db).ruleReleases, ∃ r ∈ db.releases,
      r.catalogId = x.releaseCatalogId := by
  intro x hx
  rcases List.mem_append.mp hx with hold | hnew
  · exact h x hold
  · obtain ⟨r, hr, rfl⟩ := List.mem_map.mp hnew
    exact ⟨r, requestedReleases_subset r hr, rfl⟩

theorem removeAssociations_releases {id : String} {db : RuleDb} {releases : List Release}
    (h : ∀ x ∈ db.ruleReleases, ∃ r ∈ releases, r.catalogId = x.releaseCatalogId) :
    ∀ x ∈ (removeAssociations id db).2.ruleReleases, ∃ r ∈ releases,
      r.catalogId = x.releaseCatalogId :=
  fun x hx => h x (Rows.mem_deleteWhere.mp hx).1

/-- **Step.** A creation that succeeds. -/
theorem createRule_targets {env : RuleEnv} {w : RuleWorld} (h : w.Constraints) {draw : Draw}
    {dto : CreateRuleDto} (hok : Succeeds env w (.createRule draw dto)) :
    (TargetEvent.step env w (.createRule draw dto)).Constraints ∧
      (TargetsKept w → TargetsKept (TargetEvent.step env w (.createRule draw dto))) := by
  obtain ⟨loaded, db', hrun, hstep⟩ := zoom_rules_success hok
  obtain ⟨a, -, hadm, hfound, rfl⟩ := createRule_success hrun
  have hstep' : TargetEvent.step env w (.createRule draw dto) = _ := hstep
  rw [hstep']
  constructor
  · exact h.setRuleDb (h.ruleKeys.append_new hadm.fresh) (associatedDb_releases h.db.ruleReleases)
  · intro htargets rule hrule
    apply (@hasTarget_associatedDb draw.uuid a { w.ruleDb with
      rules := w.db.rules ++ [newRule (env.drawing draw) dto] }
      ⟨hfound.releases, hfound.deviceTypes, hfound.devices⟩ rule).mpr
    rcases List.mem_append.mp hrule with hold | hnew
    · exact .inl (htargets rule hold)
    · obtain rfl := List.mem_singleton.mp hnew
      exact .inr ⟨rfl, requireTarget_ok_iff.mp hadm.target⟩

/-- **Step.** An update that succeeds keeps a target exactly when what it brings holds one. -/
theorem updateRule_targets {env : RuleEnv} {w : RuleWorld} (h : w.Constraints) {draw : Draw}
    {id : String} {dto : UpdateRuleDto} (hok : Succeeds env w (.updateRule draw id dto)) :
    (TargetEvent.step env w (.updateRule draw id dto)).Constraints ∧
      (TargetsKept w → (TargetsKept (TargetEvent.step env w (.updateRule draw id dto)) ↔
        KeepsTarget w (.updateRule draw id dto))) := by
  obtain ⟨loaded, db', hrun, hstep⟩ := zoom_rules_success hok
  obtain ⟨rule, hadm, hcase⟩ := updateRule_success hrun
  have hstep' : TargetEvent.step env w (.updateRule draw id dto) = _ := hstep
  obtain ⟨hmem, hid⟩ := Rows.findKey_some hadm.stored
  have hrule : rule ∈ w.db.rules := hmem
  have hupdated := (updatedRule_id (env.drawing draw) rule dto).trans hid
  rw [hstep']
  cases ha : dto.association with
  | none =>
      rw [ha] at hcase
      simp only at hcase
      subst hcase
      refine ⟨h.setRuleDb (h.ruleKeys.save _) h.db.ruleReleases, fun htargets => ?_⟩
      refine iff_of_true (fun r hr => ?_) fun a hsome => by simp [ha] at hsome
      rcases Rows.mem_save.mp hr with rfl | ⟨hold, -⟩
      · exact (hasTarget_congr (updatedRule_type ..) (updatedRule_id ..)).mpr (htargets rule hrule)
      · exact htargets r hold
  | some a =>
      rw [ha] at hcase
      simp only at hcase
      obtain ⟨hfound, rfl⟩ := hcase
      have htarget : ∀ r, HasTarget (associatedDb id a (clearedDb (env.drawing draw) id dto rule
          w.ruleDb)) r ↔
          (if r.id = id then r.type = .policy ∧ id = defaultRuleId else HasTarget w.ruleDb r) ∨
            (r.id = id ∧ NamesTarget r.type a) := by
        intro r
        have hcleared := @hasTarget_removed id w.ruleDb
          (Rows.save Rule.id (updatedRule (env.drawing draw) rule dto) w.ruleDb.rules) r
        have hmade := @hasTarget_associatedDb id a (clearedDb (env.drawing draw) id dto rule w.ruleDb)
          ⟨hfound.releases, hfound.deviceTypes, hfound.devices⟩ r
        exact hmade.trans (or_congr_left hcleared)
      constructor
      · apply h.setRuleDb (h.ruleKeys.save _)
        exact associatedDb_releases (removeAssociations_releases h.db.ruleReleases)
      · intro htargets
        constructor
        · intro hkept b hb r hr hrid
          obtain rfl := Option.some.inj (ha.symm.trans hb)
          have hsame : r = rule := h.ruleKeys.eq_of_mem hr hrule (hrid.trans hid.symm)
          have hself := (htarget _).mp (hkept (updatedRule (env.drawing draw) rule dto)
            (Rows.mem_save.mpr (.inl rfl)))
          rw [if_pos hupdated, updatedRule_type, ← hsame] at hself
          exact hself.imp_right And.right
        · intro hbrings r hr
          apply (htarget r).mpr
          rcases Rows.mem_save.mp hr with rfl | ⟨hold, hne⟩
          · rw [if_pos hupdated, updatedRule_type]
            exact (hbrings a ha rule hrule hid).imp_right fun hnames => ⟨hupdated, hnames⟩
          · have hother : r.id ≠ id := fun heq => hne (heq.trans hupdated.symm)
            rw [if_neg hother]
            exact .inl (htargets r hold)

/-- **Step.** A deletion that succeeds. -/
theorem deleteRule_targets {env : RuleEnv} {w : RuleWorld} (h : w.Constraints) {id : String}
    (hok : Succeeds env w (.deleteRule id)) :
    (TargetEvent.step env w (.deleteRule id)).Constraints ∧
      (TargetsKept w → TargetsKept (TargetEvent.step env w (.deleteRule id))) := by
  have hrun : RuleService.deleteRule id w.ruleDb = (.ok (), (RuleService.deleteRule id w.ruleDb).2) :=
    Prod.ext hok rfl
  have hstep : TargetEvent.step env w (.deleteRule id) = RuleWorld.setRuleDb _ w :=
    congrArg (RuleWorld.setRuleDb · w) (deleteRule_success hrun)
  rw [hstep]
  constructor
  · apply h.setRuleDb (h.ruleKeys.sublist (Rows.deleteWhere_sublist _ _))
    exact removeAssociations_releases h.db.ruleReleases
  · intro htargets rule hrule
    obtain ⟨hold, hne⟩ := Rows.mem_deleteWhere.mp hrule
    apply (@hasTarget_removed id w.ruleDb
      (Rows.deleteWhere (fun rule => rule.id == id) w.ruleDb.rules) rule).mpr
    rw [if_neg (by simpa using hne)]
    exact htargets rule hold

/-- **Step.** A write of the release service that keeps the schema and the policies. -/
theorem setDb_targets {w : RuleWorld} (htargets : TargetsKept w) {db : UploadDb}
    (hdb : db.Constraints) (h : PoliciesKept w.db.rules db.rules db.ruleReleases) :
    TargetsKept (RuleWorld.setDb db w) := by
  intro rule hrule
  have hold := htargets rule (h.fewer.subset hrule)
  have hstored : (db.rules.any fun r => r.id == rule.id) = true :=
    List.any_eq_true.mpr ⟨rule, hrule, by simp⟩
  have hrows : ∀ {α : Type} (ruleId : α → String) (rows : List α), (∃ a ∈ rows, ruleId a = rule.id) →
      ∃ a ∈ rows.filter (fun a => db.rules.any fun r => r.id == ruleId a), ruleId a = rule.id := by
    rintro α ruleId rows ⟨a, ha, hid⟩
    exact ⟨a, List.mem_filter.mpr ⟨ha, by rw [hid]; exact hstored⟩, hid⟩
  unfold HasTarget at hold ⊢
  cases htype : rule.type with
  | policy =>
      by_cases hdefault : rule.id = defaultRuleId
      · exact .inl hdefault
      · obtain ⟨a, ha, hid⟩ := h.associated rule hrule htype hdefault
        obtain ⟨r, hr, hcat⟩ := hdb.ruleReleases a ha
        exact .inr ⟨r, hr, a, ha, hid, hcat.symm⟩
  | restriction =>
      rw [htype] at hold
      rcases hold with hold | hold | hold
      · exact .inl (hrows RuleDeviceType.ruleId _ hold)
      · exact .inr (.inl (hrows RuleDevice.ruleId _ hold))
      · exact .inr (.inr (hrows RuleOs.ruleId _ hold))

/-- **Step.** A release operation keeps the schema and the targets. -/
theorem releases_targets {w : RuleWorld} (h : w.Constraints) (htargets : TargetsKept w)
    {prog : UploadProg Unit} (hschema : Keeps UploadDb.Constraints prog)
    (hpolicies : Keeps (fun db : UploadDb => PoliciesKept w.db.rules db.rules db.ruleReleases) prog) :
    (zoom RuleWorld.db RuleWorld.setDb prog w).2.Constraints ∧
      TargetsKept (zoom RuleWorld.db RuleWorld.setDb prog w).2 := by
  have hassociated : PoliciesAssociated w.db.rules w.db.ruleReleases := by
    intro rule hrule htype hne
    have htarget := htargets rule hrule
    unfold HasTarget at htarget
    rw [htype] at htarget
    obtain ⟨r, -, a, ha, hid, -⟩ := htarget.resolve_left hne
    exact ⟨a, ha, hid⟩
  have hdb := hschema w.db h.db
  have hkept := hpolicies w.db ⟨h.ruleKeys, List.Sublist.refl _, hassociated⟩
  exact ⟨⟨hdb, hkept.keys⟩, setDb_targets htargets hdb hkept⟩

/-- The handler of a delete also computes anew which release is the latest. -/
theorem handleDelete_keepsPolicies (env : UploadEnv) (before : List Rule)
    (projectIdentifier : Option Identifier) (projectId : ℕ) (version : String) :
    Keeps (fun db : UploadDb => PoliciesKept before db.rules db.ruleReleases)
      ((GuardedBody.deleteRelease version).handle env projectIdentifier projectId) :=
  Keeps.bind (deleteRelease_keepsPolicies env before _) fun _ => Keeps.modify fun _ h => h

/-- **Step.** A successful operation keeps the schema; it keeps the targets exactly when an update
that brings associations brings a target. -/
theorem step_targets {env : RuleEnv} {w : RuleWorld} (h : w.Constraints) (htargets : TargetsKept w)
    {e : TargetEvent} (hok : Succeeds env w e) :
    (e.step env w).Constraints ∧ (TargetsKept (e.step env w) ↔ KeepsTarget w e) := by
  cases e with
  | createRule draw dto =>
      obtain ⟨hschema, hkept⟩ := createRule_targets h hok
      exact ⟨hschema, iff_of_true (hkept htargets) trivial⟩
  | updateRule draw id dto =>
      obtain ⟨hschema, hkept⟩ := updateRule_targets h hok
      exact ⟨hschema, hkept htargets⟩
  | deleteRule id =>
      obtain ⟨hschema, hkept⟩ := deleteRule_targets h hok
      exact ⟨hschema, iff_of_true (hkept htargets) trivial⟩
  | deleteRelease uploadEnv projectIdentifier projectId version =>
      obtain ⟨hschema, hkept⟩ := releases_targets h htargets
        (handle_constraints projectIdentifier projectId (.deleteRelease version))
        (handleDelete_keepsPolicies uploadEnv _ projectIdentifier projectId version)
      exact ⟨hschema, iff_of_true hkept trivial⟩
  | deleteProjectReleases uploadEnv projectId =>
      obtain ⟨hschema, hkept⟩ := releases_targets h htargets
        (deleteProjectReleases_constraints projectId)
        (deleteProjectReleases_keepsPolicies uploadEnv _ projectId)
      exact ⟨hschema, iff_of_true hkept trivial⟩

/-! ### Runs -/

/-- **Main result.** Along a run of successful operations every rule keeps a target, in every state,
exactly when every update of the run that brings associations brings a target. -/
theorem targets_along_iff (env : RuleEnv) (w : RuleWorld) (events : List TargetEvent)
    (h : w.Constraints) (hstart : TargetsKept w)
    (hok : Along (fun w e => e.step env w) (Succeeds env) w events) :
    (∀ done, done <+: events → TargetsKept (run (fun w e => e.step env w) w done)) ↔
      Along (fun w e => e.step env w) KeepsTarget w events := by
  refine along_iff_within (J := RuleWorld.Constraints) ?_ ?_ h hstart hok
  · exact fun w e h htargets hok => (step_targets h htargets hok).1
  · exact fun w e h htargets hok => (step_targets h htargets hok).2

/-- Two releases of two projects, no rule. -/
def smallRuleWorld : RuleWorld where
  db := { oneProject with
    projects := [⟨1, "one", .application⟩, ⟨2, "two", .application⟩]
    releases := [draftOf 1 "1.one@1.0", draftOf 2 "2.two@1.0"] }
  deviceTypes := [⟨1, "phone"⟩]
  deviceIds := []
  ruleFields := []
  ruleDeviceTypes := []
  ruleDevices := []
  ruleOs := []

/-- A new policy on the release of the first project. -/
def createSmallPolicy : TargetEvent :=
  .createRule ⟨"policy-1", 1⟩ ⟨"mine", none, .policy,
    some ⟨some [⟨none, some "one", some "1.0"⟩], none, none, none⟩, none, none, .map []⟩

def updateSmallPolicy (entries : List ReleaseIdentifierDto) : TargetEvent :=
  .updateRule ⟨"", 2⟩ "policy-1"
    ⟨none, none, some ⟨some entries, some ["phone"], none, none⟩, none, none, none⟩

/-- The policy moves to the second release, which is then deleted, and the policy with it. -/
def targetedRun : List TargetEvent :=
  [createSmallPolicy, updateSmallPolicy [⟨none, some "two", some "1.0"⟩],
    .deleteRelease plainUploadEnv (some (.id 1)) 1 "1.0",
    .deleteProjectReleases plainUploadEnv 2]

instance (env : RuleEnv) (w : RuleWorld) (e : TargetEvent) : Decidable (Succeeds env w e) :=
  inferInstanceAs (Decidable (_ = _))

theorem smallRuleWorld_constraints : smallRuleWorld.Constraints :=
  ⟨{ oneProject_constraints with
      projectKeys := by decide
      projectNames := by decide
      releaseKeys := by decide
      releaseVersions := by decide
      artifactReleases := by decide
      statusReleases := by decide
      dependencyReleases := by decide
      ruleReleases := by decide }, by decide⟩

theorem targetedRun_targets :
    TargetsKept (run (fun w e => e.step smallRuleEnv w) smallRuleWorld targetedRun) := by
  refine (targets_along_iff smallRuleEnv smallRuleWorld targetedRun smallRuleWorld_constraints
    (by intro rule hrule; cases hrule) (by decide)).mpr ?_ targetedRun List.prefix_rfl
  refine ⟨trivial, fun a ha rule hrule _ => .inr ?_, trivial, trivial, trivial⟩
  obtain rfl := Option.some.inj ha
  obtain rfl := List.mem_singleton.mp hrule
  exact List.cons_ne_nil _ _

/-- An update takes the policy's only release and brings a device type, and succeeds. -/
theorem update_leaves_no_target :
    Along (fun w e => e.step smallRuleEnv w) (Succeeds smallRuleEnv) smallRuleWorld
        [createSmallPolicy, updateSmallPolicy []] ∧
      ¬ TargetsKept (run (fun w e => e.step smallRuleEnv w) smallRuleWorld
        [createSmallPolicy, updateSmallPolicy []]) := by
  refine ⟨by decide, fun h => ?_⟩
  have htarget := h ⟨"policy-1", "mine", none, .policy, 1, true, false, .map [], 1, 1⟩ (by decide)
  rcases htarget with hdefault | ⟨r, -, a, ha, -⟩
  · exact absurd hdefault (by decide)
  · have hnone : (run (fun w e => e.step smallRuleEnv w) smallRuleWorld
        [createSmallPolicy, updateSmallPolicy []]).ruleDb.ruleReleases = [] := by decide
    rw [hnone] at ha
    cases ha

end UploadService
