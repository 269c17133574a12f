import UploadService.Policy.Rules

/-!
# The policy handlers

`PolicyService` and the handlers of `PolicyController` for creating, updating,
reading and listing policies, each behind the guard its decorator names: creation
and update check the project names of the request, reading and deletion check the
stored associations.
-/

namespace UploadService

structure CreatePolicyDto where
  name : String
  description : Option String
  association : Option RuleAssociationDto
  isActive : Option Bool
  isPush : Option Bool
  rule : Value
  deriving DecidableEq, Repr

/-- The body of an update request. -/
structure UpdatePolicyBody where
  id : String
  data : Option UpdateRuleDto
  deriving DecidableEq, Repr

/-- An update request. Its sender may add a field `value`, which the guard's extractor
reads first. -/
structure UpdatePolicyRequest where
  body : UpdatePolicyBody
  value : Option UpdatePolicyBody
  deriving DecidableEq, Repr

/-- `PolicyQueryDto`. -/
structure PolicyQueryDto where
  isActive : Option Bool
  releaseId : Option String
  deviceTypeId : Option ℕ
  deviceTypeName : Option String
  deviceId : Option String
  osType : Option String
  deriving DecidableEq, Repr

namespace PolicyService

open RuleService

def createPolicy (env : RuleEnv) (dto : CreatePolicyDto) : RuleProg RuleDefinition := do
  let rule ← createRule env {
    name := dto.name
    description := dto.description
    type := .policy
    association := dto.association
    isActive := dto.isActive
    isPush := dto.isPush
    rule := dto.rule }
  pure (ruleEntityToDefinition rule)

def updatePolicy (env : RuleEnv) (id : String) (dto : UpdateRuleDto) : RuleProg RuleDefinition := do
  let rule ← updateRule env id dto
  pure (ruleEntityToDefinition rule)

def getPolicy (id : String) : RuleProg RuleDefinition := do
  let rule ← findOneById id
  pure (ruleEntityToDefinition rule)

/-- `validateUserAccessToPolicy`: some project of the policy is one of the user's. -/
def validateUserAccessToPolicy (access : AccessService) (policy : RuleDefinition)
    (userEmail : Option String) : Except Exception Unit := do
  match truthy userEmail with
  | none => .error (.unauthorized "User authentication required to access policy")
  | some email =>
    let userProjectIds ← access.getUserProjectIds email
    let policyProjectIds ← access.getProjectIdsByNames (policy.releases.map (·.projectName))
    if policyProjectIds.any userProjectIds.contains then .ok ()
    else .error (.unauthorized "You do not have access to this policy")

/-- A check that does not read the store. -/
def check {α : Type} (result : Except Exception α) : RuleProg α := fun db => (result, db)

def getPolicyForUser (access : AccessService) (id : String) (userEmail : Option String) :
    RuleProg RuleDefinition := do
  let policy ← getPolicy id
  check (validateUserAccessToPolicy access policy userEmail)
  pure policy

def deletePolicyForUser (access : AccessService) (id : String) (userEmail : Option String) :
    RuleProg Unit := do
  let policy ← getPolicy id
  check (validateUserAccessToPolicy access policy userEmail)
  deleteRule id

def listPolicies (db : RuleDb) (query : PolicyQueryDto) (projectIds : Option (List ℕ)) :
    List RuleDefinition :=
  (findAll db {
    type := some .policy
    isActive := query.isActive
    releaseId := query.releaseId
    deviceTypeId := query.deviceTypeId
    deviceTypeName := query.deviceTypeName
    deviceId := query.deviceId
    osType := query.osType } projectIds).map ruleEntityToDefinition

def listPoliciesForUser (access : AccessService) (query : PolicyQueryDto)
    (userEmail : Option String) : RuleProg (List RuleDefinition) := do
  match truthy userEmail with
  | none => Prog.throw (.unauthorized "User authentication required to retrieve policies")
  | some email => do
    let projectIds ← check (access.getUserProjectIds email)
    Prog.gets fun db => listPolicies db query (some projectIds)

end PolicyService

namespace PolicyController

open PolicyService

/-- The names `'association.releases'` extracts: the names that are there. -/
def createPolicyNames (dto : CreatePolicyDto) : Except Exception (List (Option String)) :=
  match dto.association.bind (·.releases) with
  | some releases => .ok ((releases.filterMap fun r => truthy r.projectName).map some)
  | none => .error (.forbidden "Unable to extract project names from request")

/-- The names the extractor of `updatePolicy` takes: those of `payload.value || payload`. -/
def updatePolicyNames (request : UpdatePolicyRequest) : List (Option String) :=
  let data := request.value.getD request.body
  match (data.data.bind (·.association)).bind (·.releases) with
  | some releases => releases.map (·.projectName)
  | none => []

/-- `createPolicy` behind its guard. -/
def createPolicy (access : AccessService) (env : RuleEnv) (headers : Headers)
    (dto : CreatePolicyDto) : RuleProg RuleDefinition := do
  check (do
    let names ← createPolicyNames dto
    ProjectAccessGuard.validateProjectList access headers names)
  PolicyService.createPolicy env dto

/-- `updatePolicy` behind its guard. -/
def updatePolicy (access : AccessService) (env : RuleEnv) (headers : Headers)
    (request : UpdatePolicyRequest) : RuleProg RuleDefinition := do
  check (ProjectAccessGuard.validateProjectList access headers (updatePolicyNames request))
  match request.body.data with
  | none => do
    let _ ← RuleService.findOneById request.body.id
    Prog.throw (.plain "Cannot read properties of undefined (reading 'rule')")
  | some data => PolicyService.updatePolicy env request.body.id data

end PolicyController

end UploadService
