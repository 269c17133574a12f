import UploadService.Policy.Admission
import UploadService.Policy.Targets
import UploadService.Lib.Runs
import UploadService.Release.Service

/-!
# Rules and the fields they name

`addRuleField`, `removeRuleField`, `syncDeviceFields` and the seeding of the default rule at start-up,
beside the rule writes. A rule is validated against the known fields when it is written; a
removal does not look at the rules, and the seeding does not look at the fields.

Main results:

- `fieldsKnown_step_iff`: a step keeps every stored rule within the known fields exactly when it
  is no removal of a field that a rule names and no seeding before both of its fields are known;
- `fieldsKnown_along_iff`: so does a run, in every state of it.
-/

namespace UploadService

open Prog RuleService RuleValidationService Runs
open ReleaseService (defaultRuleId)

/-! ### The fields table -/

/-- What a field is added from. -/
structure RuleFieldData where
  name : Option String
  type : Option String
  label : Option String
  deriving DecidableEq, Repr

/-- A text fits a column that takes no null. -/
def fitsColumn (limit : ℕ) : Option String → Bool
  | some s => decide (s.length ≤ limit)
  | none => false

namespace RuleValidationService

/-- `ruleFieldRepository.save(field)`. -/
def saveField (fieldData : RuleFieldData) : RuleProg Unit :=
  match fieldData.name with
  | some name =>
      if fitsColumn 255 (some name) && fitsColumn 50 fieldData.type && fitsColumn 255 fieldData.label then
        Prog.modify fun db : RuleDb => { db with ruleFields := db.ruleFields ++ [name] }
      else Prog.throw (.queryFailed "rule_fields")
  | none => Prog.throw (.queryFailed "null value in column \"name\" violates not-null constraint")

/-- A field without a name is looked up without a condition. -/
def addRuleField (fieldData : RuleFieldData) : RuleProg Unit := do
  let existing ← Prog.gets fun db : RuleDb => db.ruleFields.any fun n => fieldData.name.all (· == n)
  let name := fieldData.name.getD "undefined"
  if existing then
    Prog.throw (.app "RULE.fieldAlreadyExists" s!"Field \"{name}\" already exists")
  else saveField fieldData

def removeRuleField (fieldName : String) : RuleProg Unit := do
  let field ← Prog.gets fun db : RuleDb => db.ruleFields.contains fieldName
  if field then
    Prog.modify fun db : RuleDb => { db with
      ruleFields := Rows.deleteWhere (fun n => n == fieldName) db.ruleFields }
  else Prog.throw (.app "RULE.fieldNotFound" s!"Field \"{fieldName}\" not found")

end RuleValidationService

namespace PolicyService

/-- The fields of a device report that are not stored yet are added one by one; one that cannot be
added is skipped. -/
def syncDeviceFields (fields : List RuleFieldData) : RuleProg Unit := do
  let existing ← Prog.gets fun db : RuleDb => db.ruleFields
  Prog.forEach (fun field : RuleFieldData =>
    Prog.tryCatch
      (addRuleField { field with label := (truthy field.label).or field.name })
      fun _ => pure ())
    (fields.filter fun field => !existing.any fun n => field.name == some n)

end PolicyService

/-! ### The default rule -/

namespace RuleService

/-- `DEFAULT_ALLOW_ALL_DEVICES_RULE`. -/
def defaultRuleContent : Value :=
  .map [("conditions", .list [.map [("or", .list [
    .map [("field", .str "$.device.any"), ("value", .bool true), ("operator", .str "equals")],
    .map [("field", .str "device.any"), ("value", .bool true), ("operator", .str "equals")]])]])]

/-- The row that a start-up inserts. -/
def defaultRule (now : ℕ) : Rule where
  id := defaultRuleId
  name := "Allow All Devices"
  description := some ("Default policy that allows all devices to download a component. " ++
    "This rule is automatically applied to all existing and new releases unless manually removed.")
  type := .policy
  version := 1
  isActive := true
  isPush := false
  rule := defaultRuleContent
  createdAt := now
  updatedAt := now

/-- `onModuleInit`: where the default rule is stored its `rule` is overwritten. -/
def onModuleInit (now : ℕ) : RuleProg Unit :=
  Prog.modify fun db : RuleDb => { db with
    rules := if db.rules.any fun r => r.id == defaultRuleId then
        Rows.updateWhere (fun r => r.id == defaultRuleId)
          (fun r => { r with rule := defaultRuleContent }) db.rules
      else db.rules ++ [defaultRule now] }

end RuleService

/-! ### Runs -/

/-- What the database and the clock add to an operation. -/
structure Draw where
  uuid : String
  now : ℕ
  deriving DecidableEq, Repr

/-- One operation on the rules and the fields, run to completion. -/
inductive FieldEvent where
  | createRule (draw : Draw) (dto : CreateRuleDto)
  | updateRule (draw : Draw) (id : String) (dto : UpdateRuleDto)
  | deleteRule (id : String)
  | addRuleField (fieldData : RuleFieldData)
  | removeRuleField (fieldName : String)
  | syncDeviceFields (fields : List RuleFieldData)
  | onModuleInit (now : ℕ)

/-- The environment of one operation: the parser and the engine are those of the process. -/
def RuleEnv.drawing (env : RuleEnv) (draw : Draw) : RuleEnv := { env with uuid := draw.uuid, now := draw.now }

def FieldEvent.step (env : RuleEnv) (db : RuleDb) : FieldEvent → RuleDb
  | createRule draw dto => (RuleService.createRule (env.drawing draw) dto db).2
  | updateRule draw id dto => (RuleService.updateRule (env.drawing draw) id dto db).2
  | deleteRule id => (RuleService.deleteRule id db).2
  | addRuleField fieldData => (RuleValidationService.addRuleField fieldData db).2
  | removeRuleField fieldName => (RuleValidationService.removeRuleField fieldName db).2
  | syncDeviceFields fields => (PolicyService.syncDeviceFields fields db).2
  | onModuleInit now => (RuleService.onModuleInit now db).2

/-- The value of a rule: a text holds the rule as JSON. -/
def ruleValue (env : RuleEnv) : Value → Value
  | .str text => (env.jsonParse text).getD .null
  | v => v

/-- The field names in the conditions of a rule, at any depth. -/
def conditionFields (env : RuleEnv) (rule : Value) : List String :=
  visitFieldNames (ruleValue env rule)

/-- Every field a stored rule names is in the fields table. -/
def FieldsKnown (env : RuleEnv) (db : RuleDb) : Prop :=
  ∀ rule ∈ db.rules, ∀ name ∈ conditionFields env rule.rule, name ∈ db.ruleFields

/-- The step removes no field that a stored rule names, and seeds the default rule only where its
fields are known. -/
def KeepsFields (env : RuleEnv) (db : RuleDb) : FieldEvent → Prop
  | .removeRuleField fieldName => ∀ rule ∈ db.rules, fieldName ∉ conditionFields env rule.rule
  | .onModuleInit _ => "$.device.any" ∈ db.ruleFields ∧ "device.any" ∈ db.ruleFields
  | _ => True

instance (env : RuleEnv) (db : RuleDb) : Decidable (FieldsKnown env db) :=
  inferInstanceAs (Decidable (∀ rule ∈ db.rules, ∀ name ∈ conditionFields env rule.rule, name ∈ _))

instance (env : RuleEnv) (db : RuleDb) (e : FieldEvent) : Decidable (KeepsFields env db e) :=
  match e with
  | .removeRuleField fieldName =>
      inferInstanceAs (Decidable (∀ rule ∈ db.rules, fieldName ∉ conditionFields env rule.rule))
  | .onModuleInit _ => inferInstanceAs (Decidable (_ ∧ _))
  | .createRule .. | .updateRule .. | .deleteRule _ | .addRuleField _ | .syncDeviceFields _ =>
      inferInstanceAs (Decidable True)

/-! ### What is validated -/

theorem validateFieldsExist_ok {fieldNames : List String} {db : RuleDb}
    (h : (validateFieldsExist fieldNames db).1 = .ok ()) : ∀ name ∈ fieldNames, name ∈ db.ruleFields := by
  unfold validateFieldsExist at h
  rw [gets_bind_run] at h
  split at h
  · rename_i hnone
    intro name hname
    have hfilter := List.filter_eq_nil_iff.mp (List.isEmpty_iff.mp hnone) name hname
    simpa using hfilter
  · cases h

/-- The parsed rule is its value, where the text parses. -/
theorem parsedRule_run (env : RuleEnv) (rule : Value) (db : RuleDb) :
    parsedRule env rule db = (.ok (ruleValue env rule), db) ∨
      ∃ e, parsedRule env rule db = (.error e, db) := by
  unfold parsedRule ruleValue
  cases rule with
  | str text =>
      cases hjson : env.jsonParse text with
      | none =>
          refine .inr ⟨.app "RULE.validationFailed"
            "Rule validation failed: The rule must be a valid JSON object.", ?_⟩
          simp only [hjson]
          rfl
      | some v =>
          refine .inl ?_
          simp only [hjson]
          rfl
  | null => exact .inl rfl
  | bool b => exact .inl rfl
  | num n => exact .inl rfl
  | list xs => exact .inl rfl
  | map m => exact .inl rfl

/-- **Spec.** A rule that passes the validation is one the engine takes, and its names pass. -/
theorem validateRule_passed {env : RuleEnv} {rule : Value} {db : RuleDb}
    (h : (validateRule env rule db).1 = .ok ()) :
    env.engineError (ruleValue env rule) = none ∧
      (validateFieldsExist (extractFieldNames (ruleValue env rule)) db).1 = .ok () := by
  unfold validateRule at h
  rcases parsedRule_run env rule db with hok | ⟨e, herror⟩
  · rw [bind_run_ok hok] at h
    cases hengine : env.engineError (ruleValue env rule) with
    | some message =>
        simp only [hengine] at h
        cases h
    | none =>
        simp only [hengine] at h
        exact ⟨rfl, h⟩
  · rw [bind_run_error herror] at h
    cases h

/-- **Spec.** The names of a rule that passes the validation are known. -/
theorem validateRule_ok {env : RuleEnv} {rule : Value} {db : RuleDb}
    (h : (validateRule env rule db).1 = .ok ()) :
    ∀ name ∈ conditionFields env rule, name ∈ db.ruleFields := by
  have hnames := validateFieldsExist_ok (validateRule_passed h).2
  intro name hname
  exact hnames name (ObjectMap.mem_addKeys.mpr (.inr hname))

/-- What is not truthy names no field, so an update need not validate it. -/
theorem conditionFields_of_falsy {env : RuleEnv} (hempty : env.jsonParse "" = none) {rule : Value}
    (h : truthyValue (some rule) = false) : conditionFields env rule = [] := by
  unfold conditionFields ruleValue
  cases rule with
  | null => rfl
  | bool b => rfl
  | num n => rfl
  | str text =>
      have htext : text = "" := by
        by_contra hne
        simp [truthyValue, hne] at h
      simp only [htext, hempty]
      rfl
  | list xs => simp [truthyValue] at h
  | map m => simp [truthyValue] at h

/-! ### Steps -/

/-- The rules and the fields a step leaves. -/
def ruleTable (db : RuleDb) : List Rule × List String := (db.rules, db.ruleFields)

theorem createAssociations_ruleTable (ruleId : String) (a : RuleAssociationDto) :
    Frames ruleTable (createAssociations ruleId a) :=
  createAssociations_frames (fun _ _ _ _ _ => rfl) ruleId a

theorem findOneById_ruleTable (id : String) : Frames ruleTable (findOneById id) := by
  intro v db hdb
  rw [findOneById_run]
  exact hdb

theorem afterSave_ruleTable (id : String) (a : RuleAssociationDto) :
    Frames ruleTable (afterSave id a) := fun v =>
  Keeps.bind (createAssociations_ruleTable id a v) fun _ => findOneById_ruleTable id v

theorem FieldsKnown.congr {env : RuleEnv} {db db' : RuleDb} (h : FieldsKnown env db)
    (hsame : ruleTable db' = ruleTable db) : FieldsKnown env db' := by
  obtain ⟨hrules, hfields⟩ := Prod.mk.inj hsame
  intro rule hrule name hname
  rw [hfields]
  rw [hrules] at hrule
  exact h rule hrule name hname

/-- **Step.** A creation, also one that fails. -/
theorem createRule_fieldsKnown {env : RuleEnv} {db : RuleDb} (h : FieldsKnown env db) (draw : Draw)
    (dto : CreateRuleDto) : FieldsKnown env (createRule (env.drawing draw) dto db).2 := by
  by_cases hadm : ∃ a, dto.association = some a ∧ CreateAdmitted (env.drawing draw) dto a db
  · obtain ⟨a, ha, hadm⟩ := hadm
    rw [createRule_admitted ha hadm]
    refine FieldsKnown.congr ?_ ((afterSave_ruleTable _ a).eq _)
    intro rule hrule name hname
    rcases List.mem_append.mp hrule with hold | hnew
    · exact h rule hold name hname
    · obtain rfl := List.mem_singleton.mp hnew
      exact @validateRule_ok (env.drawing draw) dto.rule db hadm.valid name hname
  · obtain ⟨e, hrun⟩ := createRule_refused fun a ha had => hadm ⟨a, ha, had⟩
    rw [hrun]
    exact h

/-- The content that an admitted update stores names known fields only. -/
theorem updatedContent_known {env : RuleEnv} (hempty : env.jsonParse "" = none) {id : String}
    {draw : Draw} {dto : UpdateRuleDto} {rule : Rule} {db : RuleDb} (h : FieldsKnown env db)
    (hadm : UpdateAdmitted (env.drawing draw) id dto rule db) :
    ∀ name ∈ conditionFields env (dto.rule.getD rule.rule), name ∈ db.ruleFields := by
  cases hrule : dto.rule with
  | none => exact h rule (Rows.findKey_some hadm.stored).1
  | some content =>
      by_cases htruthy : truthyValue (some content) = true
      · have hvalid := hadm.valid
        unfold validateUpdatedRule at hvalid
        rw [hrule, if_pos htruthy] at hvalid
        exact @validateRule_ok (env.drawing draw) content db hvalid
      · intro name hname
        rw [Option.getD_some, conditionFields_of_falsy hempty (by simpa using htruthy)] at hname
        cases hname

/-- **Step.** An update, also one that fails. -/
theorem updateRule_fieldsKnown {env : RuleEnv} (hempty : env.jsonParse "" = none) {db : RuleDb}
    (h : FieldsKnown env db) (draw : Draw) (id : String) (dto : UpdateRuleDto) :
    FieldsKnown env (updateRule (env.drawing draw) id dto db).2 := by
  by_cases hadm : ∃ rule, UpdateAdmitted (env.drawing draw) id dto rule db
  · obtain ⟨rule, hadm⟩ := hadm
    have hsaved : FieldsKnown env { db with
        rules := Rows.save Rule.id (updatedRule (env.drawing draw) rule dto) db.rules } := by
      intro r hr name hname
      rcases Rows.mem_save.mp hr with rfl | ⟨hold, -⟩
      · rw [updatedRule_rule] at hname
        exact updatedContent_known hempty h hadm name hname
      · exact h r hold name hname
    rw [updateRule_admitted hadm]
    refine FieldsKnown.congr hsaved (Frames.eq ?_ _)
    intro v
    apply Keeps.bind
    · cases dto.association with
      | none => exact Keeps.pure ()
      | some a =>
          refine Keeps.bind (Keeps.modify fun db hdb => hdb) fun _ => ?_
          exact createAssociations_ruleTable id a v
    · exact fun _ => findOneById_ruleTable id v
  · obtain ⟨e, hrun⟩ := updateRule_refused fun rule had => hadm ⟨rule, had⟩
    rw [hrun]
    exact h

/-- **Step.** A deletion leaves fewer rules. -/
theorem deleteRule_fieldsKnown {env : RuleEnv} {db : RuleDb} (h : FieldsKnown env db) (id : String) :
    FieldsKnown env (deleteRule id db).2 := by
  have hrun := findOneById_run id db
  unfold deleteRule
  cases hfind : Rows.findKey Rule.id id db.rules with
  | none =>
      rw [hfind] at hrun
      rw [bind_run_error hrun]
      exact h
  | some rule =>
      rw [hfind] at hrun
      rw [bind_run_ok hrun]
      intro r hr
      exact h r (Rows.mem_deleteWhere.mp hr).1

/-- The step adds fields and leaves the rules alone. -/
def AddsFields (db db' : RuleDb) : Prop := db'.rules = db.rules ∧ db.ruleFields ⊆ db'.ruleFields

theorem FieldsKnown.adds {env : RuleEnv} {db db' : RuleDb} (h : FieldsKnown env db)
    (hadds : AddsFields db db') : FieldsKnown env db' := by
  intro rule hrule name hname
  rw [hadds.1] at hrule
  exact hadds.2 (h rule hrule name hname)

theorem addRuleField_adds (fieldData : RuleFieldData) (db : RuleDb) :
    Keeps (AddsFields db) (RuleValidationService.addRuleField fieldData) := by
  unfold RuleValidationService.addRuleField
  refine Keeps.bind (Keeps.gets _) fun existing => ?_
  refine Keeps.ite (Keeps.throw _) ?_
  unfold saveField
  cases fieldData.name with
  | none => exact Keeps.throw _
  | some name =>
      refine Keeps.ite (Keeps.modify ?_) (Keeps.throw _)
      intro db' h
      exact ⟨h.1, fun n hn => List.mem_append_left _ (h.2 hn)⟩

theorem syncDeviceFields_adds (fields : List RuleFieldData) (db : RuleDb) :
    Keeps (AddsFields db) (PolicyService.syncDeviceFields fields) := by
  unfold PolicyService.syncDeviceFields
  refine Keeps.bind (Keeps.gets _) fun existing => ?_
  apply Keeps.forEach
  intro field _
  exact Keeps.tryCatch (addRuleField_adds _ db) fun _ => Keeps.pure ()

/-- **Step.** A removal keeps the fields known exactly when no rule names the field. -/
theorem removeRuleField_fieldsKnown_iff {env : RuleEnv} {db : RuleDb} (h : FieldsKnown env db)
    (fieldName : String) :
    FieldsKnown env (RuleValidationService.removeRuleField fieldName db).2 ↔
      ∀ rule ∈ db.rules, fieldName ∉ conditionFields env rule.rule := by
  by_cases hstored : fieldName ∈ db.ruleFields
  · have hrun : (RuleValidationService.removeRuleField fieldName db).2 = { db with
        ruleFields := Rows.deleteWhere (fun n => n == fieldName) db.ruleFields } := by
      unfold RuleValidationService.removeRuleField
      rw [gets_bind_run, if_pos (by simpa using hstored)]
      rfl
    rw [hrun]
    constructor
    · intro hknown rule hrule hname
      have hgone := (Rows.mem_deleteWhere.mp (hknown rule hrule fieldName hname)).2
      simp at hgone
    · intro hunused rule hrule name hname
      refine Rows.mem_deleteWhere.mpr ⟨h rule hrule name hname, ?_⟩
      have hne : name ≠ fieldName := fun heq => hunused rule hrule (heq ▸ hname)
      simpa using hne
  · have hrun : (RuleValidationService.removeRuleField fieldName db).2 = db := by
      unfold RuleValidationService.removeRuleField
      rw [gets_bind_run, if_neg (by simpa using hstored)]
      rfl
    rw [hrun]
    exact ⟨fun _ rule hrule hname => hstored (h rule hrule fieldName hname), fun _ => h⟩

theorem conditionFields_default (env : RuleEnv) :
    conditionFields env defaultRuleContent = ["$.device.any", "device.any"] := by
  show visitFieldNames defaultRuleContent = _
  decide

/-- The rules after a start-up: the default rule, and rules that were there. -/
theorem mem_onModuleInit {now : ℕ} {db : RuleDb} :
    (∃ rule ∈ (onModuleInit now db).2.rules, rule.rule = defaultRuleContent) ∧
      ∀ rule ∈ (onModuleInit now db).2.rules,
        rule.rule = defaultRuleContent ∨ rule ∈ db.rules := by
  unfold onModuleInit
  show (∃ rule ∈ (ite _ _ _ : List Rule), _) ∧ ∀ rule ∈ (ite _ _ _ : List Rule), _
  split
  · rename_i hany
    obtain ⟨old, hold, hid⟩ := List.any_eq_true.mp hany
    constructor
    · exact ⟨{ old with rule := defaultRuleContent },
        Rows.mem_updateWhere.mpr (.inl ⟨old, hold, hid, rfl⟩), rfl⟩
    · intro rule hrule
      rcases Rows.mem_updateWhere.mp hrule with ⟨x, -, -, rfl⟩ | ⟨hmem, -⟩
      · exact .inl rfl
      · exact .inr hmem
  · constructor
    · exact ⟨defaultRule now, by simp, rfl⟩
    · intro rule hrule
      rcases List.mem_append.mp hrule with hmem | hnew
      · exact .inr hmem
      · obtain rfl := List.mem_singleton.mp hnew
        exact .inl rfl

/-- **Step.** A start-up keeps the fields known exactly when those of the default rule are. -/
theorem onModuleInit_fieldsKnown_iff {env : RuleEnv} {db : RuleDb} (h : FieldsKnown env db)
    (now : ℕ) : FieldsKnown env (onModuleInit now db).2 ↔
      "$.device.any" ∈ db.ruleFields ∧ "device.any" ∈ db.ruleFields := by
  obtain ⟨⟨seeded, hseeded, hcontent⟩, hrules⟩ := @mem_onModuleInit now db
  have hnames : ∀ name, name ∈ conditionFields env seeded.rule ↔
      name = "$.device.any" ∨ name = "device.any" := by
    intro name
    rw [hcontent, conditionFields_default]
    simp
  constructor
  · intro hknown
    exact ⟨hknown seeded hseeded _ ((hnames _).mpr (.inl rfl)),
      hknown seeded hseeded _ ((hnames _).mpr (.inr rfl))⟩
  · intro hfields rule hrule name hname
    rcases hrules rule hrule with hdefault | hold
    · rw [hdefault, ← hcontent] at hname
      rcases (hnames name).mp hname with rfl | rfl
      · exact hfields.1
      · exact hfields.2
    · exact h rule hold name hname

/-- **Step.** A step keeps the stored rules within the known fields exactly under the condition. -/
theorem fieldsKnown_step_iff {env : RuleEnv} (hempty : env.jsonParse "" = none) {db : RuleDb}
    (h : FieldsKnown env db) (e : FieldEvent) :
    FieldsKnown env (FieldEvent.step env db e) ↔ KeepsFields env db e := by
  cases e with
  | createRule draw dto => exact iff_of_true (createRule_fieldsKnown h draw dto) trivial
  | updateRule draw id dto => exact iff_of_true (updateRule_fieldsKnown hempty h draw id dto) trivial
  | deleteRule id => exact iff_of_true (deleteRule_fieldsKnown h id) trivial
  | addRuleField fieldData =>
      exact iff_of_true (h.adds (addRuleField_adds fieldData db db ⟨rfl, fun _ hn => hn⟩)) trivial
  | removeRuleField fieldName => exact removeRuleField_fieldsKnown_iff h fieldName
  | syncDeviceFields fields =>
      exact iff_of_true (h.adds (syncDeviceFields_adds fields db db ⟨rfl, fun _ hn => hn⟩)) trivial
  | onModuleInit now => exact onModuleInit_fieldsKnown_iff h now

/-! ### Runs from empty tables -/

/-- No rule, no association and no field is stored. -/
def emptyRules (projects : List Project) (releases : List Release) (deviceTypes : List DeviceType)
    (deviceIds : List String) : RuleDb where
  projects := projects
  releases := releases
  deviceTypes := deviceTypes
  deviceIds := deviceIds
  ruleFields := []
  rules := []
  ruleReleases := []
  ruleDeviceTypes := []
  ruleDevices := []
  ruleOs := []

/-- **Main result.** In every state of a run from empty tables the stored rules name known fields
only, exactly when no step of it removes a field in use or seeds the default rule too early. -/
theorem fieldsKnown_along_iff (env : RuleEnv) (projects : List Project) (releases : List Release)
    (deviceTypes : List DeviceType) (deviceIds : List String) (events : List FieldEvent)
    (hempty : env.jsonParse "" = none) :
    (∀ done, done <+: events → FieldsKnown env
      (run (FieldEvent.step env) (emptyRules projects releases deviceTypes deviceIds) done)) ↔
    Along (FieldEvent.step env) (KeepsFields env)
      (emptyRules projects releases deviceTypes deviceIds) events := by
  apply along_iff_invariant
  · intro db e h
    exact fieldsKnown_step_iff hempty h e
  · intro rule hrule
    cases hrule

/-- The fields of the default rule are added before the start-up; one that no rule names goes. -/
def seededRun : List FieldEvent :=
  [.addRuleField ⟨some "$.device.any", some "boolean", some "Any Device"⟩,
    .addRuleField ⟨some "device.any", some "boolean", some "Any Device"⟩,
    .addRuleField ⟨some "os", some "string", some "OS"⟩, .onModuleInit 1, .removeRuleField "os"]

theorem seededRun_fieldsKnown : FieldsKnown smallRuleEnv
    (run (FieldEvent.step smallRuleEnv) (emptyRules [] [] [] []) seededRun) :=
  (fieldsKnown_along_iff smallRuleEnv [] [] [] [] seededRun rfl).mpr (by decide) seededRun
    List.prefix_rfl

/-- A start-up on empty tables stores a rule that names two fields no table has; and a field in
use can be removed. -/
theorem seeding_names_unknown_fields :
    ¬ FieldsKnown smallRuleEnv
        (run (FieldEvent.step smallRuleEnv) (emptyRules [] [] [] []) [.onModuleInit 1]) ∧
      ¬ FieldsKnown smallRuleEnv (run (FieldEvent.step smallRuleEnv) (emptyRules [] [] [] [])
        (seededRun ++ [.removeRuleField "device.any"])) := by
  decide

end UploadService
