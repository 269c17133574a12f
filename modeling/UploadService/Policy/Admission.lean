import UploadService.Policy.Associations

/-!
# Where a rule write is refused

A creation and an update check their request before they save the rule; what is left to fail
after it are the associations. Each write is described by what it does in three cases: refused
before the rule is saved, associations that are found, associations that are not.

Main results:

- `createAssociations_found`, `createAssociations_stops`: the tables that associations leave;
- `createRule_refused`, `createRule_admitted`, `updateRule_refused`, `updateRule_admitted`: a write
  writes nothing, or saves its rule and goes on to the associations;
- `createAssociations_frames`: only the four association tables change there.
-/

namespace UploadService

open Prog RuleService

/-! ### Associations, part by part -/

instance (db : RuleDb) (entries : List ReleaseIdentifierDto) : Decidable (ReleasesFound db entries) :=
  inferInstanceAs (Decidable (_ ∧ _ ∧ _))

instance (db : RuleDb) (names : List String) : Decidable (DeviceTypesFound db names) :=
  inferInstanceAs (Decidable (_ = _))

/-- The association rows for the releases of a request. -/
def releaseRows (ruleId : String) (db : RuleDb) (entries : List ReleaseIdentifierDto) :
    List RuleRelease :=
  (requestedReleases db entries).map fun r => ⟨ruleId, r.catalogId⟩

/-- The association rows for the device types of a request. -/
def deviceTypeRows (ruleId : String) (db : RuleDb) (names : List String) : List RuleDeviceType :=
  (db.deviceTypes.filter fun t => (ObjectMap.addKeys [] names).contains t.name).map fun t =>
    ⟨ruleId, t.id⟩

/-- The association rows for the devices of a request. -/
def deviceRows (ruleId : String) (db : RuleDb) (ids : List String) : List RuleDevice :=
  (db.deviceIds.filter (ObjectMap.addKeys [] ids).contains).map fun d => ⟨ruleId, d⟩

/-- The association rows for the OS types of a request. -/
def osRows (ruleId : String) (osTypes : List String) : List RuleOs :=
  (ObjectMap.addKeys [] osTypes).map fun os => ⟨ruleId, os⟩

/-- The release rows made before the associations stop. -/
def releasesBefore (ruleId : String) (db : RuleDb) (a : RuleAssociationDto) : List RuleRelease :=
  if ReleasesFound db (a.releases.getD []) then releaseRows ruleId db (a.releases.getD []) else []

/-- The device type rows made before the associations stop. -/
def deviceTypesBefore (ruleId : String) (db : RuleDb) (a : RuleAssociationDto) :
    List RuleDeviceType :=
  if ReleasesFound db (a.releases.getD []) ∧ DeviceTypesFound db (a.deviceTypeNames.getD []) then
    deviceTypeRows ruleId db (a.deviceTypeNames.getD [])
  else []

theorem associateReleases_found {ruleId : String} {db : RuleDb} {entries : List ReleaseIdentifierDto}
    (h : ReleasesFound db entries) : associateReleases ruleId entries db =
      (.ok (), { db with ruleReleases := db.ruleReleases ++ releaseRows ruleId db entries }) := by
  obtain ⟨hnamed, htyped, hlen⟩ := h
  have hnone : ¬ ((uniqueReleases entries).any fun r => (releaseCondition r).isNone) = true := by
    rw [List.any_eq_true]
    rintro ⟨e, he, hnone⟩
    exact hnamed e he (Option.isNone_iff_eq_none.mp hnone)
  unfold associateReleases findReleases
  rw [if_neg hnone, if_pos (List.all_eq_true.mpr htyped), gets_bind_run, if_pos hlen]
  rfl

theorem associateReleases_missing (ruleId : String) {db : RuleDb} {entries : List ReleaseIdentifierDto}
    (h : ¬ ReleasesFound db entries) : ∃ e, associateReleases ruleId entries db = (.error e, db) := by
  unfold associateReleases
  by_cases hnone : ((uniqueReleases entries).any fun r => (releaseCondition r).isNone) = true
  · rw [if_pos hnone]
    exact ⟨_, rfl⟩
  · rw [if_neg hnone]
    unfold findReleases
    by_cases htyped : ((uniqueReleases entries).filterMap releaseCondition).all
        ReleaseCondition.wellTyped = true
    · rw [if_pos htyped, gets_bind_run]
      have hlen : ¬ (requestedReleases db entries).length = (uniqueReleases entries).length := by
        refine fun hlen => h ⟨fun e he hc => hnone ?_, List.all_eq_true.mp htyped, hlen⟩
        exact List.any_eq_true.mpr ⟨e, he, by rw [hc]; rfl⟩
      rw [if_neg hlen]
      exact ⟨_, rfl⟩
    · rw [if_neg htyped]
      exact ⟨_, rfl⟩

theorem associateDeviceTypes_found {ruleId : String} {db : RuleDb} {names : List String}
    (h : DeviceTypesFound db names) : associateDeviceTypes ruleId names db =
      (.ok (), { db with ruleDeviceTypes := db.ruleDeviceTypes ++ deviceTypeRows ruleId db names }) := by
  unfold associateDeviceTypes
  unfold DeviceTypesFound at h
  rw [gets_bind_run]
  rw [if_pos h]
  rfl

theorem associateDeviceTypes_missing (ruleId : String) {db : RuleDb} {names : List String}
    (h : ¬ DeviceTypesFound db names) : ∃ e, associateDeviceTypes ruleId names db = (.error e, db) := by
  unfold associateDeviceTypes
  unfold DeviceTypesFound at h
  rw [gets_bind_run]
  rw [if_neg h]
  exact ⟨_, rfl⟩

theorem associateDevices_found {ruleId : String} {db : RuleDb} {ids : List String}
    (h : DevicesFound db ids) : associateDevices ruleId ids db =
      (.ok (), { db with ruleDevices := db.ruleDevices ++ deviceRows ruleId db ids }) := by
  unfold associateDevices
  unfold DevicesFound at h
  rw [gets_bind_run]
  rw [if_pos h]
  rfl

theorem associateDevices_missing (ruleId : String) {db : RuleDb} {ids : List String}
    (h : ¬ DevicesFound db ids) : ∃ e, associateDevices ruleId ids db = (.error e, db) := by
  unfold associateDevices
  unfold DevicesFound at h
  rw [gets_bind_run]
  rw [if_neg h]
  exact ⟨_, rfl⟩

/-- The tables after associations that stop. -/
structure StoppedAt (ruleId : String) (a : RuleAssociationDto) (db db' : RuleDb) : Prop where
  rules : db'.rules = db.rules
  ruleReleases : db'.ruleReleases = db.ruleReleases ++ releasesBefore ruleId db a
  ruleDeviceTypes : db'.ruleDeviceTypes = db.ruleDeviceTypes ++ deviceTypesBefore ruleId db a
  ruleDevices : db'.ruleDevices = db.ruleDevices
  ruleOs : db'.ruleOs = db.ruleOs

/-- A part without entries writes no row. -/
theorem associateSome_found {α : Type} {associate : List α → RuleProg Unit} (found : List α → Prop)
    {db : RuleDb} (after : List α → RuleDb) (hnil : after [] = db)
    (h : ∀ xs, found xs → associate xs db = (.ok (), after xs)) {entries : Option (List α)}
    (hfound : found (entries.getD [])) :
    associateSome associate entries db = (.ok (), after (entries.getD [])) := by
  match entries, hfound with
  | none, _ => exact congrArg (Prod.mk _) hnil.symm
  | some [], _ => exact congrArg (Prod.mk _) hnil.symm
  | some (x :: xs), hfound => exact h (x :: xs) hfound

theorem associateSome_missing {α : Type} {associate : List α → RuleProg Unit} (found : List α → Prop)
    {db : RuleDb} (hnil : found []) (h : ∀ xs, ¬ found xs → ∃ e, associate xs db = (.error e, db))
    {entries : Option (List α)} (hmissing : ¬ found (entries.getD [])) :
    ∃ e, associateSome associate entries db = (.error e, db) := by
  match entries, hmissing with
  | none, hmissing => exact absurd hnil hmissing
  | some [], hmissing => exact absurd hnil hmissing
  | some (x :: xs), hmissing => exact h (x :: xs) hmissing

theorem releasesFound_nil (db : RuleDb) : ReleasesFound db [] := by
  simp [ReleasesFound, uniqueReleases]

theorem deviceTypesFound_nil (db : RuleDb) : DeviceTypesFound db [] := by
  simp [DeviceTypesFound, ObjectMap.addKeys]

theorem devicesFound_nil (db : RuleDb) : DevicesFound db [] := by
  simp [DevicesFound, ObjectMap.addKeys]

/-- The release part of a request whose releases are found. -/
theorem releasesPart_run (ruleId : String) {a : RuleAssociationDto} {db : RuleDb}
    (h : ReleasesFound db (a.releases.getD [])) :
    associateSome (associateReleases ruleId) a.releases db = (.ok (), { db with
      ruleReleases := db.ruleReleases ++ releaseRows ruleId db (a.releases.getD []) }) := by
  refine associateSome_found (ReleasesFound db) (fun xs =>
    { db with ruleReleases := db.ruleReleases ++ releaseRows ruleId db xs }) ?_
    (fun xs hxs => associateReleases_found hxs) h
  simp [releaseRows]

/-- The device type part of a request whose device types are found. -/
theorem deviceTypesPart_run (ruleId : String) {a : RuleAssociationDto} {db : RuleDb}
    (h : DeviceTypesFound db (a.deviceTypeNames.getD [])) :
    associateSome (associateDeviceTypes ruleId) a.deviceTypeNames db = (.ok (), { db with
      ruleDeviceTypes := db.ruleDeviceTypes ++
        deviceTypeRows ruleId db (a.deviceTypeNames.getD []) }) := by
  refine associateSome_found (DeviceTypesFound db) (fun xs =>
    { db with ruleDeviceTypes := db.ruleDeviceTypes ++ deviceTypeRows ruleId db xs }) ?_
    (fun xs hxs => associateDeviceTypes_found hxs) h
  simp [deviceTypeRows, ObjectMap.addKeys]

/-- The device part of a request whose devices are found. -/
theorem devicesPart_run (ruleId : String) {a : RuleAssociationDto} {db : RuleDb}
    (h : DevicesFound db (a.deviceIds.getD [])) :
    associateSome (associateDevices ruleId) a.deviceIds db = (.ok (), { db with
      ruleDevices := db.ruleDevices ++ deviceRows ruleId db (a.deviceIds.getD []) }) := by
  refine associateSome_found (DevicesFound db) (fun xs =>
    { db with ruleDevices := db.ruleDevices ++ deviceRows ruleId db xs }) ?_
    (fun xs hxs => associateDevices_found hxs) h
  have hnone : db.deviceIds.filter [].contains = [] := List.filter_eq_nil_iff.mpr (by simp)
  simp [deviceRows, ObjectMap.addKeys, hnone]

/-- The OS part, which looks nothing up. -/
theorem osPart_run (ruleId : String) (a : RuleAssociationDto) (db : RuleDb) :
    associateSome (associateOsTypes ruleId) a.osTypes db = (.ok (), { db with
      ruleOs := db.ruleOs ++ osRows ruleId (a.osTypes.getD []) }) := by
  refine associateSome_found (fun _ => True) (fun xs =>
    { db with ruleOs := db.ruleOs ++ osRows ruleId xs }) ?_ (fun xs _ => rfl) trivial
  simp [osRows, ObjectMap.addKeys]

/-- The tables after associations that are all found. -/
def associatedDb (ruleId : String) (a : RuleAssociationDto) (db : RuleDb) : RuleDb :=
  { db with
    ruleReleases := db.ruleReleases ++ releaseRows ruleId db (a.releases.getD [])
    ruleDeviceTypes := db.ruleDeviceTypes ++ deviceTypeRows ruleId db (a.deviceTypeNames.getD [])
    ruleDevices := db.ruleDevices ++ deviceRows ruleId db (a.deviceIds.getD [])
    ruleOs := db.ruleOs ++ osRows ruleId (a.osTypes.getD []) }

/-- **Spec.** Associations that are found are all made. -/
theorem createAssociations_found (ruleId : String) {a : RuleAssociationDto} {db : RuleDb}
    (h : AssociationsFound db a) :
    createAssociations ruleId a db = (.ok (), associatedDb ruleId a db) := by
  have hfirst := releasesPart_run ruleId h.releases
  have hsecond := @deviceTypesPart_run ruleId a { db with
    ruleReleases := db.ruleReleases ++ releaseRows ruleId db (a.releases.getD []) } h.deviceTypes
  have hthird := @devicesPart_run ruleId a { db with
    ruleReleases := db.ruleReleases ++ releaseRows ruleId db (a.releases.getD [])
    ruleDeviceTypes := db.ruleDeviceTypes ++ deviceTypeRows ruleId db (a.deviceTypeNames.getD []) }
    h.devices
  unfold createAssociations
  apply (bind_run_ok hfirst _).trans
  apply (bind_run_ok hsecond _).trans
  apply (bind_run_ok hthird _).trans
  exact osPart_run ruleId a _

/-- **Frame.** What does not look at the four association tables does not change there. -/
theorem createAssociations_frames {γ : Type} {g : RuleDb → γ}
    (hg : ∀ db a b c d, g { db with
      ruleReleases := a, ruleDeviceTypes := b, ruleDevices := c, ruleOs := d } = g db)
    (ruleId : String) (a : RuleAssociationDto) : Frames g (createAssociations ruleId a) := by
  have hsome : ∀ {α : Type} (associate : List α → RuleProg Unit) (entries : Option (List α)),
      (∀ xs, Frames g (associate xs)) → Frames g (associateSome associate entries) := by
    intro α associate entries h v
    match entries with
    | none => exact Keeps.pure ()
    | some [] => exact Keeps.pure ()
    | some (x :: xs) => exact h (x :: xs) v
  intro v
  apply Keeps.bind
  · refine hsome _ _ (fun entries => ?_) v
    intro v
    refine Keeps.ite (Keeps.throw _) (Keeps.bind ?_ fun releases => Keeps.ite ?_ (Keeps.throw _))
    · exact Keeps.ite (Keeps.gets _) (Keeps.throw _)
    · exact Keeps.modify fun db hdb => (hg db _ _ _ _).trans hdb
  · intro _
    apply Keeps.bind
    · refine hsome _ _ (fun names => ?_) v
      intro v
      refine Keeps.bind (Keeps.gets _) fun types => Keeps.ite ?_ (Keeps.throw _)
      exact Keeps.modify fun db hdb => (hg db _ _ _ _).trans hdb
    · intro _
      apply Keeps.bind
      · refine hsome _ _ (fun ids => ?_) v
        intro v
        refine Keeps.bind (Keeps.gets _) fun devices => Keeps.ite ?_ (Keeps.throw _)
        exact Keeps.modify fun db hdb => (hg db _ _ _ _).trans hdb
      · intro _
        refine hsome _ _ (fun os => ?_) v
        intro v
        exact Keeps.modify fun db hdb => (hg db _ _ _ _).trans hdb

/-- **Spec.** Associations that are refused stop at the first kind with a missing entry. -/
theorem createAssociations_stops (ruleId : String) (a : RuleAssociationDto) {db : RuleDb}
    (h : ¬ AssociationsFound db a) :
    ∃ e db', createAssociations ruleId a db = (.error e, db') ∧ StoppedAt ruleId a db db' := by
  unfold createAssociations
  by_cases hreleases : ReleasesFound db (a.releases.getD [])
  · have hbefore : releasesBefore ruleId db a = releaseRows ruleId db (a.releases.getD []) :=
      if_pos hreleases
    rw [bind_run_ok (releasesPart_run ruleId hreleases), ← hbefore]
    by_cases htypes : DeviceTypesFound db (a.deviceTypeNames.getD [])
    · have hbefore' : deviceTypesBefore ruleId db a =
          deviceTypeRows ruleId db (a.deviceTypeNames.getD []) := if_pos ⟨hreleases, htypes⟩
      have hsecond := @deviceTypesPart_run ruleId a
        { db with ruleReleases := db.ruleReleases ++ releasesBefore ruleId db a } htypes
      have hdevices : ¬ DevicesFound db (a.deviceIds.getD []) :=
        fun hdevices => h ⟨hreleases, htypes, hdevices⟩
      rw [bind_run_ok hsecond]
      obtain ⟨e, hrun⟩ := @associateSome_missing _ (associateDevices ruleId) (DevicesFound db)
        { db with
          ruleReleases := db.ruleReleases ++ releasesBefore ruleId db a
          ruleDeviceTypes := db.ruleDeviceTypes ++
            deviceTypeRows ruleId db (a.deviceTypeNames.getD []) }
        (devicesFound_nil db) (fun xs hxs => associateDevices_missing ruleId hxs) _ hdevices
      exact ⟨e, _, bind_run_error hrun _, rfl, rfl, hbefore' ▸ rfl, rfl, rfl⟩
    · obtain ⟨e, hrun⟩ := @associateSome_missing _ (associateDeviceTypes ruleId) (DeviceTypesFound db)
        { db with ruleReleases := db.ruleReleases ++ releasesBefore ruleId db a }
        (deviceTypesFound_nil db) (fun xs hxs => associateDeviceTypes_missing ruleId hxs) _ htypes
      refine ⟨e, _, bind_run_error hrun _, rfl, rfl, ?_, rfl, rfl⟩
      rw [deviceTypesBefore, if_neg fun hand => htypes hand.2, List.append_nil]
  · obtain ⟨e, hrun⟩ := associateSome_missing (ReleasesFound db) (releasesFound_nil db)
      (fun xs hxs => associateReleases_missing ruleId hxs) hreleases
    rw [bind_run_error hrun]
    refine ⟨e, db, rfl, rfl, ?_, ?_, rfl, rfl⟩
    · rw [releasesBefore, if_neg hreleases, List.append_nil]
    · rw [deviceTypesBefore, if_neg fun hand => hreleases hand.1, List.append_nil]

/-! ### Where a write stops -/

/-- A creation is not refused before its rule is saved. -/
structure CreateAdmitted (env : RuleEnv) (dto : CreateRuleDto) (a : RuleAssociationDto) (db : RuleDb) :
    Prop where
  valid : (RuleValidationService.validateRule env dto.rule db).1 = .ok ()
  target : (requireTarget dto.type a db).1 = .ok ()
  fresh : ∀ rule ∈ db.rules, rule.id ≠ env.uuid

/-- An update is not refused before its rule is saved. -/
structure UpdateAdmitted (env : RuleEnv) (id : String) (dto : UpdateRuleDto) (rule : Rule)
    (db : RuleDb) : Prop where
  stored : Rows.findKey Rule.id id db.rules = some rule
  valid : (validateUpdatedRule env dto.rule db).1 = .ok ()
  content : dto.rule.getD rule.rule ≠ .null

/-- The row of a new rule. -/
def newRule (env : RuleEnv) (dto : CreateRuleDto) : Rule where
  id := env.uuid
  name := dto.name
  description := dto.description
  type := dto.type
  version := 1
  isActive := dto.isActive.getD true
  isPush := dto.isPush.getD false
  rule := dto.rule
  createdAt := env.now
  updatedAt := env.now

/-- What a write does once its rule is saved. -/
def afterSave (id : String) (a : RuleAssociationDto) : RuleProg LoadedRule := do
  createAssociations id a
  findOneById id

theorem requireTarget_state (type : RuleType) (a : RuleAssociationDto) (db : RuleDb) :
    (requireTarget type a db).2 = db := by
  unfold requireTarget
  cases type with
  | policy =>
      simp only
      split
      · rfl
      · rfl
  | restriction =>
      simp only
      split
      · rfl
      · rfl

/-- **Spec.** A creation that is not admitted ends in an error and writes nothing. -/
theorem createRule_refused {env : RuleEnv} {dto : CreateRuleDto} {db : RuleDb}
    (h : ∀ a, dto.association = some a → ¬ CreateAdmitted env dto a db) :
    ∃ e, createRule env dto db = (.error e, db) := by
  unfold createRule
  have hvalid := validateRule_state env dto.rule db
  rcases hv : RuleValidationService.validateRule env dto.rule db with ⟨r, db₁⟩
  rw [hv] at hvalid
  obtain rfl : db₁ = db := hvalid
  cases r with
  | error e => exact ⟨e, bind_run_error hv _⟩
  | ok _ =>
      rw [bind_run_ok hv]
      cases ha : dto.association with
      | none => exact ⟨_, rfl⟩
      | some a =>
          have htarget := requireTarget_state dto.type a db₁
          rcases ht : requireTarget dto.type a db₁ with ⟨r, db₂⟩
          rw [ht] at htarget
          obtain rfl : db₂ = db₁ := htarget
          cases r with
          | error e => exact ⟨e, bind_run_error ht _⟩
          | ok _ =>
              have hnot := h a ha
              by_cases hany : db₂.rules.any (fun r => r.id == env.uuid) = true
              · have hinsert : insertRule (newRule env dto) db₂ = (.error (.queryFailed
                    "duplicate key value violates unique constraint"), db₂) := if_pos hany
                show ∃ e, (requireTarget dto.type a >>= fun _ => insertRule (newRule env dto) >>=
                  fun _ => afterSave env.uuid a) db₂ = (.error e, db₂)
                rw [bind_run_ok ht, bind_run_error hinsert]
                exact ⟨_, rfl⟩
              · refine absurd ⟨by rw [hv], by rw [ht], fun rule hrule hid => hany ?_⟩ hnot
                exact List.any_eq_true.mpr ⟨rule, hrule, by simp [hid]⟩

/-- **Spec.** A creation that is admitted saves its rule and goes on to the associations. -/
theorem createRule_admitted {env : RuleEnv} {dto : CreateRuleDto} {a : RuleAssociationDto}
    {db : RuleDb} (ha : dto.association = some a) (h : CreateAdmitted env dto a db) :
    createRule env dto db =
      afterSave env.uuid a { db with rules := db.rules ++ [newRule env dto] } := by
  have hv : RuleValidationService.validateRule env dto.rule db = (.ok (), db) :=
    Prod.ext h.valid (validateRule_state env dto.rule db)
  have ht : requireTarget dto.type a db = (.ok (), db) :=
    Prod.ext h.target (requireTarget_state dto.type a db)
  have hany : ¬ db.rules.any (fun r => r.id == env.uuid) = true := by
    intro hany
    obtain ⟨rule, hrule, hid⟩ := List.any_eq_true.mp hany
    exact h.fresh rule hrule (by simpa using hid)
  have hinsert : insertRule (newRule env dto) db =
      (.ok (), { db with rules := db.rules ++ [newRule env dto] }) := if_neg hany
  unfold createRule
  rw [bind_run_ok hv, ha]
  show (requireTarget dto.type a >>= fun _ => insertRule (newRule env dto) >>= fun _ =>
    afterSave env.uuid a) db = _
  rw [bind_run_ok ht, bind_run_ok hinsert]

/-- **Spec.** An update that is not admitted writes nothing. -/
theorem updateRule_refused {env : RuleEnv} {id : String} {dto : UpdateRuleDto} {db : RuleDb}
    (h : ∀ rule, ¬ UpdateAdmitted env id dto rule db) :
    ∃ e, updateRule env id dto db = (.error e, db) := by
  unfold updateRule
  have hrun := findOneById_run id db
  cases hfind : Rows.findKey Rule.id id db.rules with
  | none =>
      rw [hfind] at hrun
      exact ⟨_, bind_run_error hrun _⟩
  | some rule =>
      rw [hfind] at hrun
      rw [bind_run_ok hrun]
      have hstate := validateUpdatedRule_state env dto.rule db
      rcases hv : validateUpdatedRule env dto.rule db with ⟨r, db₁⟩
      rw [hv] at hstate
      obtain rfl : db₁ = db := hstate
      cases r with
      | error e => exact ⟨e, bind_run_error hv _⟩
      | ok _ =>
          rw [bind_run_ok hv]
          by_cases hnull : (updatedRule env rule dto).rule = .null
          · have hsave : ∃ e, saveRule (updatedRule env rule dto) db₁ = (.error e, db₁) :=
              ⟨_, congrFun (if_pos hnull) db₁⟩
            obtain ⟨e, hsave⟩ := hsave
            exact ⟨e, bind_run_error hsave _⟩
          · refine absurd ⟨hfind, by rw [hv], ?_⟩ (h rule)
            rwa [← updatedRule_rule env rule dto]

/-- **Spec.** An update that is admitted saves its rule and goes on to the associations. -/
theorem updateRule_admitted {env : RuleEnv} {id : String} {dto : UpdateRuleDto} {rule : Rule}
    {db : RuleDb} (h : UpdateAdmitted env id dto rule db) :
    updateRule env id dto db = (updateGivenAssociations id dto.association >>= fun _ => findOneById id)
      { db with rules := Rows.save Rule.id (updatedRule env rule dto) db.rules } := by
  have hid : rule.id = id := (Rows.findKey_some h.stored).2
  have hrun := findOneById_run id db
  rw [h.stored] at hrun
  have hv : validateUpdatedRule env dto.rule db = (.ok (), db) :=
    Prod.ext h.valid (validateUpdatedRule_state env dto.rule db)
  have hnull : (updatedRule env rule dto).rule ≠ .null := by
    rw [updatedRule_rule]
    exact h.content
  have hsave : saveRule (updatedRule env (load db rule).rule dto) db = (.ok (), { db with
      rules := Rows.save Rule.id (updatedRule env rule dto) db.rules }) := saveRule_run hnull db
  unfold updateRule
  rw [bind_run_ok hrun, bind_run_ok hv, bind_run_ok hsave, show (load db rule).rule.id = id from hid]

/-- **Spec.** Once the rule is saved, the write returns exactly when its associations are found,
and stops at the first that is missing otherwise. -/
theorem afterSave_run (id : String) (a : RuleAssociationDto) {db : RuleDb} {saved : Rule}
    (hsaved : saved ∈ db.rules) (hid : saved.id = id) :
    (AssociationsFound db a ∧ ∃ loaded, afterSave id a db = (.ok loaded, associatedDb id a db)) ∨
    (¬ AssociationsFound db a ∧
      ∃ e db', afterSave id a db = (.error e, db') ∧ StoppedAt id a db db') := by
  unfold afterSave
  by_cases hfound : AssociationsFound db a
  · obtain ⟨rule, hrule, -⟩ := findKey_of_mem hsaved
    have hlast : findOneById id (associatedDb id a db) =
        (.ok (load (associatedDb id a db) rule), associatedDb id a db) := by
      rw [findOneById_run, show (associatedDb id a db).rules = db.rules from rfl, ← hid, hrule]
    exact .inl ⟨hfound, _, by rw [bind_run_ok (createAssociations_found id hfound), hlast]⟩
  · obtain ⟨e, db', hrun, hstopped⟩ := createAssociations_stops id a hfound
    exact .inr ⟨hfound, e, db', bind_run_error hrun _, hstopped⟩

/-- The tables of an update whose rule is saved and whose associations are removed. -/
def clearedDb (env : RuleEnv) (id : String) (dto : UpdateRuleDto) (rule : Rule) (db : RuleDb) :
    RuleDb :=
  (removeAssociations id
    { db with rules := Rows.save Rule.id (updatedRule env rule dto) db.rules }).2

theorem updateRule_run_association {env : RuleEnv} {id : String} {dto : UpdateRuleDto} {rule : Rule}
    {a : RuleAssociationDto} {db : RuleDb} (ha : dto.association = some a)
    (h : UpdateAdmitted env id dto rule db) :
    updateRule env id dto db = afterSave id a (clearedDb env id dto rule db) := by
  rw [updateRule_admitted h, ha]
  show (updateAssociations id a >>= fun _ => findOneById id) _ = _
  unfold updateAssociations
  rw [bind_bind_run]
  rfl

theorem updatedRule_mem_cleared {env : RuleEnv} {id : String} {dto : UpdateRuleDto} {rule : Rule}
    {db : RuleDb} : updatedRule env rule dto ∈ (clearedDb env id dto rule db).rules :=
  Rows.mem_save.mpr (.inl rfl)

/-! ### Writes that succeed -/

/-- **Spec.** What a creation that succeeds has done. -/
theorem createRule_success {env : RuleEnv} {dto : CreateRuleDto} {db db' : RuleDb}
    {loaded : LoadedRule} (h : createRule env dto db = (.ok loaded, db')) :
    ∃ a, dto.association = some a ∧ CreateAdmitted env dto a db ∧ AssociationsFound db a ∧
      db' = associatedDb env.uuid a { db with rules := db.rules ++ [newRule env dto] } := by
  by_cases hadm : ∃ a, dto.association = some a ∧ CreateAdmitted env dto a db
  · obtain ⟨a, ha, hadm⟩ := hadm
    rw [createRule_admitted ha hadm] at h
    rcases @afterSave_run env.uuid a { db with rules := db.rules ++ [newRule env dto] }
        (newRule env dto) (by simp) rfl with ⟨hfound, loaded', hrun⟩ | ⟨-, e, db₁, hrun, -⟩
    · rw [hrun, Prod.mk.injEq] at h
      exact ⟨a, ha, hadm, ⟨hfound.releases, hfound.deviceTypes, hfound.devices⟩, h.2.symm⟩
    · rw [hrun] at h
      cases h
  · obtain ⟨e, hrun⟩ := createRule_refused fun a ha had => hadm ⟨a, ha, had⟩
    rw [hrun] at h
    cases h

/-- **Spec.** What an update that succeeds has done. -/
theorem updateRule_success {env : RuleEnv} {id : String} {dto : UpdateRuleDto} {db db' : RuleDb}
    {loaded : LoadedRule} (h : updateRule env id dto db = (.ok loaded, db')) :
    ∃ rule, UpdateAdmitted env id dto rule db ∧ match dto.association with
      | none => db' = { db with
          rules := Rows.save Rule.id (updatedRule env rule dto) db.rules }
      | some a => AssociationsFound db a ∧ db' = associatedDb id a (clearedDb env id dto rule db) := by
  by_cases hadm : ∃ rule, UpdateAdmitted env id dto rule db
  · obtain ⟨rule, hadm⟩ := hadm
    refine ⟨rule, hadm, ?_⟩
    cases ha : dto.association with
    | none =>
        rw [updateRule_admitted hadm, ha, show updateGivenAssociations id none = pure () from rfl,
          pure_bind_run] at h
        exact (findOneById_ok h).1
    | some a =>
        rw [updateRule_run_association ha hadm] at h
        have hid := (updatedRule_id env rule dto).trans (Rows.findKey_some hadm.stored).2
        rcases afterSave_run id a updatedRule_mem_cleared hid with
          ⟨hfound, loaded', hrun⟩ | ⟨-, e, db₁, hrun, -⟩
        · rw [hrun, Prod.mk.injEq] at h
          exact ⟨⟨hfound.releases, hfound.deviceTypes, hfound.devices⟩, h.2.symm⟩
        · rw [hrun] at h
          cases h
  · obtain ⟨e, hrun⟩ := updateRule_refused fun rule had => hadm ⟨rule, had⟩
    rw [hrun] at h
    cases h

/-- **Spec.** What a deletion that succeeds has done. -/
theorem deleteRule_success {id : String} {db db' : RuleDb} (h : deleteRule id db = (.ok (), db')) :
    db' = { (removeAssociations id db).2 with
      rules := Rows.deleteWhere (fun rule => rule.id == id) db.rules } := by
  have hrun := findOneById_run id db
  unfold deleteRule at h
  cases hfind : Rows.findKey Rule.id id db.rules with
  | none =>
      rw [hfind] at hrun
      rw [bind_run_error hrun] at h
      cases h
  | some rule =>
      rw [hfind] at hrun
      rw [bind_run_ok hrun] at h
      have hid : (load db rule).rule.id = id := (Rows.findKey_some hfind).2
      rw [hid] at h
      exact ((Prod.mk.injEq ..).mp h).2.symm

end UploadService
