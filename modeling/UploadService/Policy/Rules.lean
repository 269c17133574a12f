import Mathlib.Data.List.Sort
import UploadService.Lib.Rows
import UploadService.Release.Entities
import UploadService.Access.Guard
import UploadService.Texts

/-!
# Rules and their associations

`RuleService` and `RuleValidationService`: the rows of the rule tables, the
validation of a rule against the rule engine and the known fields, and the
operations that write rules and their four kinds of associations. The rule engine
is a parameter.

Every operation runs statement by statement: an error in the middle leaves the
writes made before it.
-/

namespace UploadService

/-! ### Rows -/

inductive RuleType where
  | policy | restriction
  deriving DecidableEq, Repr

structure Rule where
  id : String
  name : String
  description : Option String
  type : RuleType
  version : ℕ
  isActive : Bool
  isPush : Bool
  rule : Value
  createdAt : ℕ
  updatedAt : ℕ
  deriving DecidableEq, Repr

structure RuleRelease where
  ruleId : String
  releaseCatalogId : String
  deriving DecidableEq, Repr

structure RuleDeviceType where
  ruleId : String
  deviceTypeId : ℕ
  deriving DecidableEq, Repr

structure RuleDevice where
  ruleId : String
  deviceId : String
  deriving DecidableEq, Repr

structure RuleOs where
  ruleId : String
  osType : String
  deriving DecidableEq, Repr

structure DeviceType where
  id : ℕ
  name : String
  deriving DecidableEq, Repr

structure RuleDb where
  projects : List Project
  releases : List Release
  deviceTypes : List DeviceType
  deviceIds : List String
  ruleFields : List String
  rules : List Rule
  ruleReleases : List RuleRelease
  ruleDeviceTypes : List RuleDeviceType
  ruleDevices : List RuleDevice
  ruleOs : List RuleOs

/-- What a rule operation is given from outside the service. -/
structure RuleEnv where
  /-- the key the database draws for a new rule -/
  uuid : String
  now : ℕ
  /-- `JSON.parse`; `none` throws -/
  jsonParse : String → Option Value
  /-- `ruleEngine.validate`: the message of the failure, if any -/
  engineError : Value → Option String

abbrev RuleProg : Type → Type := Prog RuleDb Exception

/-! ### Validation -/

namespace RuleValidationService

/-- The `field` of an object, where it is a text that is not empty. -/
def ownField (m : Object) : List String :=
  match ObjectMap.get? m "field" with
  | some (.str s) => if s = "" then [] else [s]
  | _ => []

mutual

/-- The field names in the order `extractFieldNames` visits them. -/
def visitFieldNames : Value → List String
  | .list xs => visitItems xs
  | .map m => ownField m ++ visitFields m
  | _ => []
termination_by structural v => v

def visitItems : List Value → List String
  | [] => []
  | x :: xs => visitFieldNames x ++ visitItems xs
termination_by structural v => v

def visitField : String × Value → List String
  | (_, v) => visitFieldNames v
termination_by structural v => v

def visitFields : List (String × Value) → List String
  | [] => []
  | e :: es => visitField e ++ visitFields es
termination_by structural v => v

end

/-- `extractFieldNames`: each name once. -/
def extractFieldNames (rule : Value) : List String := ObjectMap.addKeys [] (visitFieldNames rule)

/-- `validateFieldsExist`. -/
def validateFieldsExist (fieldNames : List String) : RuleProg Unit := do
  let missingFields ← Prog.gets fun db : RuleDb =>
    fieldNames.filter fun name => !db.ruleFields.contains name
  let missing := ", ".intercalate missingFields
  if missingFields.isEmpty then pure ()
  else Prog.throw (.app "RULE.fieldNotSupported"
    (s!"The following fields are not supported: {missing}. " ++
      "Please add them to the available fields before using them in rules."))

/-- The rule as an object: a text is parsed first. -/
def parsedRule (env : RuleEnv) (rule : Value) : RuleProg Value :=
  match rule with
  | .str text => match env.jsonParse text with
    | some v => pure v
    | none => Prog.throw (.app "RULE.validationFailed"
        "Rule validation failed: The rule must be a valid JSON object.")
  | v => pure v

def validateRule (env : RuleEnv) (rule : Value) : RuleProg Unit := do
  let parsed ← parsedRule env rule
  match env.engineError parsed with
  | some message =>
    Prog.throw (.app "RULE.validationFailed" s!"Rule validation failed: {message}")
  | none => validateFieldsExist (extractFieldNames parsed)

end RuleValidationService

/-! ### Requests -/

structure ReleaseIdentifierDto where
  projectId : Option String
  projectName : Option String
  version : Option String
  deriving DecidableEq, Repr

structure RuleAssociationDto where
  releases : Option (List ReleaseIdentifierDto)
  deviceTypeNames : Option (List String)
  deviceIds : Option (List String)
  osTypes : Option (List String)
  deriving DecidableEq, Repr

structure CreateRuleDto where
  name : String
  description : Option String
  type : RuleType
  association : Option RuleAssociationDto
  isActive : Option Bool
  isPush : Option Bool
  rule : Value
  deriving DecidableEq, Repr

structure UpdateRuleDto where
  name : Option String
  description : Option String
  association : Option RuleAssociationDto
  isActive : Option Bool
  isPush : Option Bool
  rule : Option Value
  deriving DecidableEq, Repr

/-- `RuleQueryFilter`. -/
structure RuleQueryFilter where
  type : Option RuleType
  isActive : Option Bool
  releaseId : Option String
  deviceTypeId : Option ℕ
  deviceTypeName : Option String
  deviceId : Option String
  osType : Option String
  deriving DecidableEq, Repr

/-- A rule with its associations loaded. -/
structure LoadedRule where
  rule : Rule
  releases : List (Release × Project)
  deviceTypes : List DeviceType
  deviceIds : List String
  osTypes : List String
  deriving DecidableEq, Repr

structure ReleaseReference where
  projectId : String
  projectName : String
  version : String
  deriving DecidableEq, Repr

/-- `RuleDefinition`: what the clients see of a rule. -/
structure RuleDefinition where
  id : String
  name : String
  description : Option String
  type : RuleType
  version : ℕ
  isActive : Bool
  isPush : Bool
  rule : Value
  createdAt : ℕ
  updatedAt : ℕ
  releases : List ReleaseReference
  deviceTypeNames : List String
  deviceIds : List String
  osTypes : List String
  deriving DecidableEq, Repr

namespace RuleService

/-! ### Reads -/

/-- The releases of a rule, each with its project. -/
def releasesOf (db : RuleDb) (ruleId : String) : List (Release × Project) :=
  (db.ruleReleases.filter fun a => a.ruleId == ruleId).flatMap fun a =>
    (db.releases.filter fun r => r.catalogId == a.releaseCatalogId).flatMap fun r =>
      (db.projects.filter fun p => p.id == r.projectId).map fun p => (r, p)

def deviceTypesOf (db : RuleDb) (ruleId : String) : List DeviceType :=
  (db.ruleDeviceTypes.filter fun a => a.ruleId == ruleId).flatMap fun a =>
    db.deviceTypes.filter fun t => t.id == a.deviceTypeId

def devicesOf (db : RuleDb) (ruleId : String) : List String :=
  (db.ruleDevices.filter fun a => a.ruleId == ruleId).map (·.deviceId)

def osTypesOf (db : RuleDb) (ruleId : String) : List String :=
  (db.ruleOs.filter fun a => a.ruleId == ruleId).map (·.osType)

/-- A rule with all its relations. -/
def load (db : RuleDb) (rule : Rule) : LoadedRule where
  rule := rule
  releases := releasesOf db rule.id
  deviceTypes := deviceTypesOf db rule.id
  deviceIds := devicesOf db rule.id
  osTypes := osTypesOf db rule.id

def findOneById (id : String) : RuleProg LoadedRule := do
  match ← Prog.gets fun db : RuleDb => (Rows.findKey Rule.id id db.rules).map (load db) with
  | none => Prog.throw (.notFound s!"Rule with ID \"{id}\" not found")
  | some loaded => pure loaded

def ruleEntityToDefinition (loaded : LoadedRule) : RuleDefinition where
  id := loaded.rule.id
  name := loaded.rule.name
  description := loaded.rule.description
  type := loaded.rule.type
  version := loaded.rule.version
  isActive := loaded.rule.isActive
  isPush := loaded.rule.isPush
  rule := loaded.rule.rule
  createdAt := loaded.rule.createdAt
  updatedAt := loaded.rule.updatedAt
  releases := loaded.releases.map fun e => ⟨toString e.2.id, e.2.name, e.1.version⟩
  deviceTypeNames := loaded.deviceTypes.map (·.name)
  deviceIds := loaded.deviceIds
  osTypes := loaded.osTypes

/-! ### The joined query -/

/-- One row of the joined query; a side without a row is null. -/
structure JoinRow where
  release : Option (Release × Project)
  deviceType : Option DeviceType
  deviceId : Option String
  osType : Option String
  deriving DecidableEq, Repr

/-- A left join: without a row on the right the left row stays, with null. -/
def leftJoin {α : Type} (rows : List α) : List (Option α) :=
  if rows.isEmpty then [none] else rows.map some

/-- The joined rows of a rule: its four relations are joined independently. -/
def joinRows (db : RuleDb) (rule : Rule) : List JoinRow :=
  (leftJoin (releasesOf db rule.id)).flatMap fun release =>
    (leftJoin (deviceTypesOf db rule.id)).flatMap fun deviceType =>
      (leftJoin (devicesOf db rule.id)).flatMap fun deviceId =>
        (leftJoin (osTypesOf db rule.id)).map fun osType =>
          ⟨release, deviceType, deviceId, osType⟩

/-- A condition on a text that a query may not give. -/
def givenText (value : Option String) (test : String → Bool) : Bool :=
  match value with
  | none => true
  | some s => s = "" || test s

/-- The `andWhere`s on the rule itself. -/
def ruleMatches (query : RuleQueryFilter) (rule : Rule) : Bool :=
  (match query.type with
    | some t => rule.type == t
    | none => true) &&
  (match query.isActive with
    | some b => rule.isActive == b
    | none => true)

/-- `projectIds && projectIds.length > 0 && query.type === POLICY`. -/
def restrictsProjects (query : RuleQueryFilter) (projectIds : Option (List ℕ)) : Bool :=
  match projectIds with
  | some (_ :: _) => query.type == some .policy
  | _ => false

/-- The `andWhere`s on the joined rows. -/
def rowMatches (query : RuleQueryFilter) (projectIds : Option (List ℕ)) (row : JoinRow) : Bool :=
  (!restrictsProjects query projectIds ||
    row.release.any fun e => (projectIds.getD []).contains e.2.id) &&
  givenText query.releaseId (fun id => row.release.any fun e => e.1.catalogId == id) &&
  (match query.deviceTypeId with
    | none => true
    | some id => id == 0 || row.deviceType.any fun t => t.id == id) &&
  givenText query.deviceTypeName (fun name => row.deviceType.any fun t => t.name == name) &&
  givenText query.deviceId (fun id => row.deviceId == some id) &&
  givenText query.osType (fun os => row.osType == some os)

/-- The entity of a rule made from the rows that passed; none without a row. -/
def entityOf (rule : Rule) (rows : List JoinRow) : Option LoadedRule :=
  if rows.isEmpty then none
  else some {
    rule := rule
    releases := (rows.filterMap (·.release)).dedup
    deviceTypes := (rows.filterMap (·.deviceType)).dedup
    deviceIds := (rows.filterMap (·.deviceId)).dedup
    osTypes := (rows.filterMap (·.osType)).dedup }

/-- What the query makes of one rule. -/
def queryRule (db : RuleDb) (query : RuleQueryFilter) (projectIds : Option (List ℕ)) (rule : Rule) :
    Option LoadedRule :=
  if ruleMatches query rule then
    entityOf rule ((joinRows db rule).filter (rowMatches query projectIds))
  else none

/-- `findAll`, newest rule first. -/
def findAll (db : RuleDb) (query : RuleQueryFilter) (projectIds : Option (List ℕ)) :
    List LoadedRule :=
  (db.rules.insertionSort fun a b => b.createdAt ≤ a.createdAt).filterMap
    (queryRule db query projectIds)

/-! ### Associations -/

/-- The `projectId` of an entry, where it is a text that is not blank. -/
def usedProjectId (r : ReleaseIdentifierDto) : Option String :=
  match r.projectId with
  | some id => if trim id = "" then none else some id
  | none => none

/-- The key under which an entry is deduplicated. -/
def releaseKey (r : ReleaseIdentifierDto) : String :=
  let projectKey := match usedProjectId r with
    | some id => s!"projectId:{trim id}"
    | none =>
        let name := r.projectName.getD "undefined"
        s!"projectName:{name}"
  let versionKey := r.version.getD ""
  s!"{projectKey}|version:{versionKey}"

def uniqueReleases (releases : List ReleaseIdentifierDto) : List ReleaseIdentifierDto :=
  (releases.foldl (fun m r => ObjectMap.set m (releaseKey r) r) []).map (·.2)

/-- How one condition of the release query names the project. -/
inductive ProjectCondition where
  | id (n : Option ℤ)
  | name (s : String)
  deriving DecidableEq, Repr

structure ReleaseCondition where
  project : ProjectCondition
  version : Option String
  deriving DecidableEq, Repr

/-- The condition of an entry: its project id is preferred over its project name; an
entry without either has none. -/
def releaseCondition (r : ReleaseIdentifierDto) : Option ReleaseCondition :=
  match usedProjectId r with
  | some id => some ⟨.id (parseInt? id), r.version⟩
  | none => match truthy r.projectName with
    | some name => some ⟨.name name, r.version⟩
    | none => none

/-- A release row meets a condition; a condition without a version leaves it open. -/
def ReleaseCondition.matches (projects : List Project) (c : ReleaseCondition) (r : Release) : Bool :=
  (match c.project with
    | .id n => n == some (r.projectId : ℤ)
    | .name s => projects.any fun p => p.id == r.projectId && p.name == s) &&
  (match c.version with
    | none => true
    | some v => r.version == v)

/-- A condition the database can compare: a number that fits the column, or a text. -/
def ReleaseCondition.wellTyped (c : ReleaseCondition) : Bool :=
  match c.project with
  | .id none => false
  | .id (some n) => -2147483648 ≤ n && n ≤ 2147483647
  | .name _ => true

/-- The releases the entries of a request ask for. -/
def requestedReleases (db : RuleDb) (entries : List ReleaseIdentifierDto) : List Release :=
  db.releases.filter fun r =>
    ((uniqueReleases entries).filterMap releaseCondition).any fun c => c.matches db.projects r

/-- The release query: a value the column does not take fails it. -/
def findReleases (entries : List ReleaseIdentifierDto) : RuleProg (List Release) :=
  if ((uniqueReleases entries).filterMap releaseCondition).all ReleaseCondition.wellTyped then
    Prog.gets fun db : RuleDb => requestedReleases db entries
  else Prog.throw (.queryFailed "invalid input for type integer")

/-- The release part of `createAssociations`. -/
def associateReleases (ruleId : String) (entries : List ReleaseIdentifierDto) : RuleProg Unit :=
  if (uniqueReleases entries).any fun r => (releaseCondition r).isNone then
    Prog.throw (.badRequest
      "Either projectId or projectName must be provided for release identification")
  else do
    let releases ← findReleases entries
    let requested := (uniqueReleases entries).length
    if releases.length = requested then
      Prog.modify fun db : RuleDb => { db with
        ruleReleases := db.ruleReleases ++ releases.map fun r => ⟨ruleId, r.catalogId⟩ }
    else Prog.throw (.badRequest
      s!"One or more releases not found. Requested: {requested}, Found: {releases.length}")

/-- The device type part. -/
def associateDeviceTypes (ruleId : String) (names : List String) : RuleProg Unit := do
  let unique := ObjectMap.addKeys [] names
  let deviceTypes ← Prog.gets fun db : RuleDb => db.deviceTypes.filter fun t => unique.contains t.name
  if deviceTypes.length = unique.length then
    Prog.modify fun db : RuleDb => { db with
      ruleDeviceTypes := db.ruleDeviceTypes ++ deviceTypes.map fun t => ⟨ruleId, t.id⟩ }
  else Prog.throw (.badRequest "One or more device types not found")

/-- The device part. -/
def associateDevices (ruleId : String) (ids : List String) : RuleProg Unit := do
  let unique := ObjectMap.addKeys [] ids
  let devices ← Prog.gets fun db : RuleDb => db.deviceIds.filter unique.contains
  if devices.length = unique.length then
    Prog.modify fun db : RuleDb => { db with
      ruleDevices := db.ruleDevices ++ devices.map fun d => ⟨ruleId, d⟩ }
  else Prog.throw (.badRequest "One or more devices not found")

/-- The OS part. -/
def associateOsTypes (ruleId : String) (osTypes : List String) : RuleProg Unit :=
  Prog.modify fun db : RuleDb => { db with
    ruleOs := db.ruleOs ++ (ObjectMap.addKeys [] osTypes).map fun os => ⟨ruleId, os⟩ }

/-- One part of the associations, where the request has entries for it. -/
def associateSome {α : Type} (associate : List α → RuleProg Unit) : Option (List α) → RuleProg Unit
  | some (x :: xs) => associate (x :: xs)
  | _ => pure ()

def createAssociations (ruleId : String) (association : RuleAssociationDto) : RuleProg Unit := do
  associateSome (associateReleases ruleId) association.releases
  associateSome (associateDeviceTypes ruleId) association.deviceTypeNames
  associateSome (associateDevices ruleId) association.deviceIds
  associateSome (associateOsTypes ruleId) association.osTypes

/-- The four deletions of `updateAssociations`. -/
def removeAssociations (ruleId : String) : RuleProg Unit :=
  Prog.modify fun db : RuleDb => { db with
    ruleReleases := Rows.deleteWhere (fun a => a.ruleId == ruleId) db.ruleReleases
    ruleDeviceTypes := Rows.deleteWhere (fun a => a.ruleId == ruleId) db.ruleDeviceTypes
    ruleDevices := Rows.deleteWhere (fun a => a.ruleId == ruleId) db.ruleDevices
    ruleOs := Rows.deleteWhere (fun a => a.ruleId == ruleId) db.ruleOs }

def updateAssociations (ruleId : String) (association : RuleAssociationDto) : RuleProg Unit := do
  removeAssociations ruleId
  createAssociations ruleId association

/-! ### Writes -/

/-- The target a new rule must have. -/
def requireTarget (type : RuleType) (association : RuleAssociationDto) : RuleProg Unit :=
  match type with
  | .policy =>
      if (association.releases.getD []).isEmpty then
        Prog.throw (.badRequest "Policies must be associated with at least one release")
      else pure ()
  | .restriction =>
      if (association.deviceTypeNames.getD []).isEmpty && (association.deviceIds.getD []).isEmpty &&
          (association.osTypes.getD []).isEmpty then
        Prog.throw (.badRequest
          "Restrictions must be associated with at least one device type, device, or OS")
      else pure ()

/-- The insert of a rule; a key that is taken is refused. -/
def insertRule (rule : Rule) : RuleProg Unit := fun db =>
  if db.rules.any fun r => r.id == rule.id then
    (.error (.queryFailed "duplicate key value violates unique constraint"), db)
  else (.ok (), { db with rules := db.rules ++ [rule] })

def createRule (env : RuleEnv) (dto : CreateRuleDto) : RuleProg LoadedRule := do
  RuleValidationService.validateRule env dto.rule
  match dto.association with
  | none => Prog.throw (.plain "Cannot read properties of undefined (reading 'releases')")
  | some association => do
    requireTarget dto.type association
    insertRule {
      id := env.uuid
      name := dto.name
      description := dto.description
      type := dto.type
      version := 1
      isActive := dto.isActive.getD true
      isPush := dto.isPush.getD false
      rule := dto.rule
      createdAt := env.now
      updatedAt := env.now }
    createAssociations env.uuid association
    findOneById env.uuid

/-- `if (updateRuleDto.rule)`. -/
def truthyValue : Option Value → Bool
  | none | some .null | some (.bool false) | some (.str "") | some (.num "0") => false
  | _ => true

/-- The fields of the request are set. -/
def withFields (rule : Rule) (dto : UpdateRuleDto) : Rule :=
  { rule with
    version := if truthyValue dto.rule then rule.version + 1 else rule.version
    name := dto.name.getD rule.name
    description := dto.description.or rule.description
    isActive := dto.isActive.getD rule.isActive
    isPush := dto.isPush.getD rule.isPush
    rule := dto.rule.getD rule.rule }

/-- The row after an update: saving it sets the stamp where a column changed. -/
def updatedRule (env : RuleEnv) (rule : Rule) (dto : UpdateRuleDto) : Rule :=
  if withFields rule dto = rule then rule else { withFields rule dto with updatedAt := env.now }

@[simp] theorem updatedRule_id (env : RuleEnv) (rule : Rule) (dto : UpdateRuleDto) :
    (updatedRule env rule dto).id = rule.id := by
  unfold updatedRule
  split
  · rfl
  · rfl

@[simp] theorem updatedRule_rule (env : RuleEnv) (rule : Rule) (dto : UpdateRuleDto) :
    (updatedRule env rule dto).rule = dto.rule.getD rule.rule := by
  unfold updatedRule
  split
  · rename_i h
    exact (congrArg Rule.rule h).symm
  · rfl

@[simp] theorem updatedRule_type (env : RuleEnv) (rule : Rule) (dto : UpdateRuleDto) :
    (updatedRule env rule dto).type = rule.type := by
  unfold updatedRule
  split
  · rfl
  · rfl

/-- `ruleRepository.save(rule)`: the `rule` column takes no null. -/
def saveRule (rule : Rule) : RuleProg Unit :=
  if rule.rule = .null then
    Prog.throw (.queryFailed "null value in column \"rule\" violates not-null constraint")
  else Prog.modify fun db : RuleDb => { db with rules := Rows.save Rule.id rule db.rules }

/-- A new rule content is validated. -/
def validateUpdatedRule (env : RuleEnv) (rule : Option Value) : RuleProg Unit :=
  if truthyValue rule then RuleValidationService.validateRule env (rule.getD .null) else pure ()

/-- `if (updateRuleDto.association)`. -/
def updateGivenAssociations (ruleId : String) : Option RuleAssociationDto → RuleProg Unit
  | some association => updateAssociations ruleId association
  | none => pure ()

def updateRule (env : RuleEnv) (id : String) (dto : UpdateRuleDto) : RuleProg LoadedRule := do
  let loaded ← findOneById id
  validateUpdatedRule env dto.rule
  saveRule (updatedRule env loaded.rule dto)
  updateGivenAssociations loaded.rule.id dto.association
  findOneById id

/-- `deleteRule`; the associations go with the rule (ON DELETE CASCADE). -/
def deleteRule (id : String) : RuleProg Unit := do
  let loaded ← findOneById id
  removeAssociations loaded.rule.id
  Prog.modify fun db : RuleDb => { db with
    rules := Rows.deleteWhere (fun r => r.id == loaded.rule.id) db.rules }

end RuleService

end UploadService
