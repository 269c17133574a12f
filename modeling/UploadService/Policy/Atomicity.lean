import UploadService.Policy.Targets
import UploadService.Policy.Admission

/-!
# What a failed rule write leaves

A creation saves the rule before it looks the associations up, and an update saves the rule and
deletes its associations first. A request that is refused earlier writes nothing; one that is
refused at the associations leaves the rule saved, and what was associated before the entry that
is missing.

Main results:

- `create_atomic_iff`, `update_atomic_iff`: when a write is all or nothing;
- `rule_write_atomic_iff`: a rule write is all or nothing exactly when it is not refused at the
  associations, or when it wrote nothing new until then.
-/

namespace UploadService

open Prog RuleService

/-! ### All or nothing -/

/-- The rules and the four association tables are the same. -/
structure SameRules (db db' : RuleDb) : Prop where
  rules : db'.rules = db.rules
  ruleReleases : db'.ruleReleases = db.ruleReleases
  ruleDeviceTypes : db'.ruleDeviceTypes = db.ruleDeviceTypes
  ruleDevices : db'.ruleDevices = db.ruleDevices
  ruleOs : db'.ruleOs = db.ruleOs

theorem SameRules.refl (db : RuleDb) : SameRules db db := ⟨rfl, rfl, rfl, rfl, rfl⟩

/-- A creation or an update of a rule. -/
inductive RuleWrite where
  | create (dto : CreateRuleDto)
  | update (id : String) (dto : UpdateRuleDto)

def RuleWrite.run (env : RuleEnv) : RuleWrite → RuleProg LoadedRule
  | create dto => createRule env dto
  | update id dto => updateRule env id dto

/-- A write that ends in an error leaves the rules and their associations as they were. -/
def RuleWrite.Atomic (env : RuleEnv) (w : RuleWrite) (db : RuleDb) : Prop :=
  ∀ e, (w.run env db).1 = .error e → SameRules db (w.run env db).2

/-- An update that stops at the associations changes nothing: it sets no field of the rule, and
the associations it makes until then are those that the rule had. -/
structure ChangesNothing (id : String) (dto : UpdateRuleDto) (a : RuleAssociationDto) (rule : Rule)
    (db : RuleDb) : Prop where
  row : withFields rule dto = rule
  releases : Rows.deleteWhere (fun x => x.ruleId == id) db.ruleReleases ++ releasesBefore id db a =
    db.ruleReleases
  deviceTypes : Rows.deleteWhere (fun x => x.ruleId == id) db.ruleDeviceTypes ++
    deviceTypesBefore id db a = db.ruleDeviceTypes
  devices : ∀ x ∈ db.ruleDevices, x.ruleId ≠ id
  os : ∀ x ∈ db.ruleOs, x.ruleId ≠ id

/-- The write is not refused at its associations, or it wrote nothing new until then. -/
def RuleWrite.StopsInTime (env : RuleEnv) (db : RuleDb) : RuleWrite → Prop
  | create dto => ∀ a, dto.association = some a → CreateAdmitted env dto a db → AssociationsFound db a
  | update id dto => ∀ a rule, dto.association = some a → UpdateAdmitted env id dto rule db →
      AssociationsFound db a ∨ ChangesNothing id dto a rule db

theorem updatedRule_eq_iff {env : RuleEnv} {rule : Rule} {dto : UpdateRuleDto} :
    updatedRule env rule dto = rule ↔ withFields rule dto = rule := by
  unfold updatedRule
  split
  · rename_i h
    exact ⟨fun _ => h, fun _ => rfl⟩
  · rename_i hne
    refine ⟨fun h => absurd ?_ hne, fun h => absurd h hne⟩
    have hstamp : rule.updatedAt = env.now := (congrArg Rule.updatedAt h).symm
    have hback : withFields rule dto = { withFields rule dto with updatedAt := rule.updatedAt } := rfl
    rw [hback, hstamp]
    exact h

/-- Saving a row changes nothing exactly when the row is the stored one. -/
theorem save_eq_iff {rules : List Rule} (hkeys : Rows.KeysDistinct Rule.id rules) {rule r : Rule}
    (hrule : rule ∈ rules) (hid : r.id = rule.id) : Rows.save Rule.id r rules = rules ↔ r = rule := by
  rw [Rows.save_existing hrule hid.symm]
  constructor
  · intro h
    exact Rows.eq_of_updateWhere_eq h hrule (by simp [hid])
  · rintro rfl
    apply Rows.updateWhere_eq_self
    intro x hx hp
    exact hkeys.eq_of_mem hrule hx (by simpa using hp : x.id = r.id).symm

/-- A creation is all or nothing exactly when it is not refused at its associations. -/
theorem create_atomic_iff (env : RuleEnv) (dto : CreateRuleDto) (db : RuleDb) :
    (RuleWrite.create dto).Atomic env db ↔ (RuleWrite.create dto).StopsInTime env db := by
  constructor
  · intro hatomic a ha hadm
    by_contra hmissing
    have hrun := createRule_admitted ha hadm
    rcases @afterSave_run env.uuid a { db with rules := db.rules ++ [newRule env dto] }
        (newRule env dto) (by simp) rfl with ⟨hfound, -⟩ | ⟨-, e, db', hstop, hstopped⟩
    · exact hmissing ⟨hfound.releases, hfound.deviceTypes, hfound.devices⟩
    · have hfailed : (RuleWrite.create dto).run env db = (.error e, db') := hrun.trans hstop
      have hsame := hatomic e (by rw [hfailed])
      rw [hfailed] at hsame
      have hlonger : db.rules ++ [newRule env dto] = db.rules := hstopped.rules.symm.trans hsame.rules
      simp at hlonger
  · intro hstops e herror
    show SameRules db (createRule env dto db).2
    by_cases hadm : ∃ a, dto.association = some a ∧ CreateAdmitted env dto a db
    · obtain ⟨a, ha, hadm⟩ := hadm
      have hfound := hstops a ha hadm
      have hrun : (RuleWrite.create dto).run env db = _ := createRule_admitted ha hadm
      rcases @afterSave_run env.uuid a { db with rules := db.rules ++ [newRule env dto] }
          (newRule env dto) (by simp) rfl with ⟨-, loaded, hok⟩ | ⟨hmissing, -⟩
      · rw [hrun, hok] at herror
        cases herror
      · exact absurd ⟨hfound.releases, hfound.deviceTypes, hfound.devices⟩ hmissing
    · obtain ⟨e, hrun⟩ := createRule_refused fun a ha h => hadm ⟨a, ha, h⟩
      rw [hrun]
      exact SameRules.refl db

/-- The tables after an update that stopped are the ones before exactly when it changed nothing. -/
theorem stopped_update_same_iff {env : RuleEnv} {id : String} {dto : UpdateRuleDto} {rule : Rule}
    {a : RuleAssociationDto} {db db' : RuleDb} (hkeys : Rows.KeysDistinct Rule.id db.rules)
    (hadm : UpdateAdmitted env id dto rule db)
    (h : StoppedAt id a (clearedDb env id dto rule db) db') :
    SameRules db db' ↔ ChangesNothing id dto a rule db := by
  obtain ⟨hmem, hid⟩ := Rows.findKey_some hadm.stored
  have hrules : db'.rules = db.rules ↔ withFields rule dto = rule := by
    rw [h.rules]
    exact (save_eq_iff hkeys hmem (updatedRule_id env rule dto)).trans updatedRule_eq_iff
  have hdevices : db'.ruleDevices = db.ruleDevices ↔ ∀ x ∈ db.ruleDevices, x.ruleId ≠ id := by
    rw [h.ruleDevices]
    show Rows.deleteWhere (fun x => x.ruleId == id) db.ruleDevices = db.ruleDevices ↔ _
    simp [Rows.deleteWhere]
  have hos : db'.ruleOs = db.ruleOs ↔ ∀ x ∈ db.ruleOs, x.ruleId ≠ id := by
    rw [h.ruleOs]
    show Rows.deleteWhere (fun x => x.ruleId == id) db.ruleOs = db.ruleOs ↔ _
    simp [Rows.deleteWhere]
  constructor
  · intro hsame
    exact ⟨hrules.mp hsame.rules, h.ruleReleases.symm.trans hsame.ruleReleases,
      h.ruleDeviceTypes.symm.trans hsame.ruleDeviceTypes, hdevices.mp hsame.ruleDevices,
      hos.mp hsame.ruleOs⟩
  · intro hnothing
    exact ⟨hrules.mpr hnothing.row, h.ruleReleases.trans hnothing.releases,
      h.ruleDeviceTypes.trans hnothing.deviceTypes, hdevices.mpr hnothing.devices,
      hos.mpr hnothing.os⟩

/-- An update is all or nothing exactly when it is not refused at its associations, or when it
changed nothing until then. -/
theorem update_atomic_iff (env : RuleEnv) (id : String) (dto : UpdateRuleDto) {db : RuleDb}
    (hkeys : Rows.KeysDistinct Rule.id db.rules) :
    (RuleWrite.update id dto).Atomic env db ↔ (RuleWrite.update id dto).StopsInTime env db := by
  constructor
  · intro hatomic a rule ha hadm
    by_cases hfound : AssociationsFound db a
    · exact .inl hfound
    · have hrun : (RuleWrite.update id dto).run env db = _ := updateRule_run_association ha hadm
      have hid := (updatedRule_id env rule dto).trans (Rows.findKey_some hadm.stored).2
      rcases afterSave_run id a updatedRule_mem_cleared hid with ⟨hmade, -⟩ | ⟨-, e, db', hstop, hstopped⟩
      · exact absurd ⟨hmade.releases, hmade.deviceTypes, hmade.devices⟩ hfound
      · rw [hstop] at hrun
        have hsame := hatomic e (by rw [hrun])
        rw [hrun] at hsame
        exact .inr ((stopped_update_same_iff hkeys hadm hstopped).mp hsame)
  · intro hstops e herror
    show SameRules db (updateRule env id dto db).2
    by_cases hadm : ∃ rule, UpdateAdmitted env id dto rule db
    · obtain ⟨rule, hadm⟩ := hadm
      have hid := (updatedRule_id env rule dto).trans (Rows.findKey_some hadm.stored).2
      cases ha : dto.association with
      | none =>
          -- without an association there is nothing left that could fail
          obtain ⟨found, hlast, -⟩ := @findKey_of_mem (Rows.save Rule.id (updatedRule env rule dto)
            db.rules) (updatedRule env rule dto) (Rows.mem_save.mpr (.inl rfl))
          have hrun : (RuleWrite.update id dto).run env db = _ := updateRule_admitted hadm
          rw [hid] at hlast
          rw [hrun, ha, show updateGivenAssociations id none = pure () from rfl, pure_bind_run,
            findOneById_run, hlast] at herror
          cases herror
      | some a =>
          have hrun : (RuleWrite.update id dto).run env db = _ := updateRule_run_association ha hadm
          rcases afterSave_run id a updatedRule_mem_cleared hid with
            ⟨-, loaded, hok⟩ | ⟨hmissing, e', db', hstop, hstopped⟩
          · rw [hrun, hok] at herror
            cases herror
          · rw [updateRule_run_association ha hadm, hstop]
            rcases hstops a rule ha hadm with hfound | hnothing
            · exact absurd ⟨hfound.releases, hfound.deviceTypes, hfound.devices⟩ hmissing
            · exact (stopped_update_same_iff hkeys hadm hstopped).mpr hnothing
    · obtain ⟨e, hrun⟩ := updateRule_refused fun rule h => hadm ⟨rule, h⟩
      rw [hrun]
      exact SameRules.refl db

/-- **Main result.** A rule write that ends in an error leaves the rules and their associations as
they were exactly when it is not refused at its associations, or wrote nothing new until then. -/
theorem rule_write_atomic_iff (env : RuleEnv) (w : RuleWrite) (db : RuleDb)
    (hkeys : Rows.KeysDistinct Rule.id db.rules) : w.Atomic env db ↔ w.StopsInTime env db := by
  cases w with
  | create dto => exact create_atomic_iff env dto db
  | update id dto => exact update_atomic_iff env id dto hkeys

/-- A new restriction on the OS and on a device. -/
def newRestriction (deviceIds : List String) : RuleWrite :=
  .create ⟨"mine", none, .restriction, some ⟨none, none, some deviceIds, some ["linux"]⟩, none, none,
    .map []⟩

/-- An update of the policy of the second project that targets a device. -/
def retargetPolicy (deviceId : String) : RuleWrite :=
  .update "policy-2" ⟨none, none, some ⟨none, none, some [deviceId], none⟩, none, none, none⟩

theorem found_restriction_atomic : (newRestriction []).Atomic smallRuleEnv smallPolicyDb := by
  refine (rule_write_atomic_iff smallRuleEnv (newRestriction []) smallPolicyDb (by decide)).mpr ?_
  intro a ha _
  obtain rfl := Option.some.inj ha
  exact ⟨releasesFound_nil _, deviceTypesFound_nil _, devicesFound_nil _⟩

/-- A creation with a missing device leaves a rule without associations, and an update with one
takes the releases of the stored policy. -/
theorem missing_device_not_atomic :
    ¬ (newRestriction ["d-1"]).Atomic smallRuleEnv smallPolicyDb ∧
      ¬ (retargetPolicy "d-1").Atomic smallRuleEnv smallPolicyDb := by
  constructor
  · intro h
    have hsame := h (.badRequest "One or more devices not found") (by decide)
    exact absurd hsame.rules (by decide)
  · intro h
    have hsame := h (.badRequest "One or more devices not found") (by decide)
    exact absurd hsame.ruleReleases (by decide)

end UploadService
