import UploadService.Lib.Forest
import UploadService.Lib.ObjectMap
import UploadService.Lib.Runs
import Mathlib.Logic.Function.Basic

/-!
# OIDC roles and groups

`OidcRolesService`, which brings the roles and groups of the identity provider to their
definitions. A realm holds the roles of the client, with the roles each is composed of, the forest
of groups and the role mappings of each group; a role that a role is composed of, or that a group
is mapped to, may also be one of the realm or of another client. Reads of a role that is not there
fail, and a role that is there is not created again; the service catches both.

Main results:

- `mem_composites_createCompositeRole`: what a defined role is composed of after its turn;
- `mem_roleMappings_syncRoles`: which client roles a group has after its turn.
-/

namespace UploadService

/-- Whose a role is: of the client the service looks after, of the realm or of another client. -/
inductive RoleContainer where
  | client
  | realm
  | otherClient (clientId : String)
  deriving DecidableEq, Repr

/-- A role as the provider names it: no container has two roles of one name. -/
structure OidcRole where
  container : RoleContainer
  name : String
  deriving DecidableEq, Repr

/-- A role of the client, with the roles it is composed of. -/
structure ClientRole where
  description : String
  composites : List OidcRole
  deriving DecidableEq, Repr

structure OidcGroup where
  id : ℕ
  name : String
  deriving DecidableEq, Repr

/-- What the provider stores. Attributes and role mappings are asked for by the id of a group. -/
structure Realm where
  roles : List (String × ClientRole)
  groups : Forest OidcGroup
  attributes : ℕ → List (String × List String)
  roleMappings : ℕ → List OidcRole
  /-- The id of the next group. -/
  nextId : ℕ

structure RoleDefinition where
  name : String
  description : String
  compositeRoles : Option (List String)

structure GroupDefinition where
  name : String
  compositeRoles : List String
  attributes : Option (List (String × List String))

/-- `new Set(roleDefinition.compositeRoles || [])`. -/
def RoleDefinition.desiredRoleNames (roleDefinition : RoleDefinition) : List String :=
  ObjectMap.addKeys [] (roleDefinition.compositeRoles.getD [])

/-- `new Set(groupDefinition.compositeRoles)`. -/
def GroupDefinition.desiredRoleNames (groupDefinition : GroupDefinition) : List String :=
  ObjectMap.addKeys [] groupDefinition.compositeRoles

namespace Realm

/-! ### Requests about roles -/

def hasRole (realm : Realm) (roleName : String) : Bool := ObjectMap.has realm.roles roleName

def getRole (realm : Realm) (roleName : String) : Except String OidcRole :=
  if realm.hasRole roleName then .ok ⟨.client, roleName⟩
  else .error s!"Role '{roleName}' not found"

/-- Whether the role was created, and the realm. -/
def createRole (realm : Realm) (roleName description : String) : Bool × Realm :=
  if realm.hasRole roleName then (false, realm)
  else (true, { realm with roles := ObjectMap.set realm.roles roleName ⟨description, []⟩ })

/-- The roles a role is composed of, of any container. -/
def getCompositeRoles (realm : Realm) (roleName : String) : List OidcRole :=
  ((ObjectMap.get? realm.roles roleName).map (·.composites)).getD []

/-- A write of the composites of a role. -/
def modifyComposites (realm : Realm) (roleName : String)
    (change : List OidcRole → List OidcRole) : Realm :=
  match ObjectMap.get? realm.roles roleName with
  | none => realm
  | some role =>
      { realm with
        roles := ObjectMap.set realm.roles roleName
          { role with composites := change role.composites } }

def removeCompositeRoles (realm : Realm) (parentRoleName : String)
    (rolesToRemove : List OidcRole) : Realm :=
  if rolesToRemove = [] then realm
  else realm.modifyComposites parentRoleName fun composites =>
    composites.filter fun role => role ∉ rolesToRemove

def addCompositeRoles (realm : Realm) (parentRoleName : String)
    (rolesToAdd : List OidcRole) : Realm :=
  if rolesToAdd = [] then realm
  else realm.modifyComposites parentRoleName fun composites => composites ++ rolesToAdd

/-! ### Requests about groups -/

/-- The first group of the name, depth first. -/
def getGroupByName (realm : Realm) (groupName : String) : Option OidcGroup :=
  realm.groups.search fun group => group.name == groupName

def getGroupById (realm : Realm) (groupId : ℕ) : Except String OidcGroup :=
  match realm.groups.preorder.find? fun group => group.id == groupId with
  | some group => .ok group
  | none => .error s!"Group with ID '{groupId}' not found"

/-- The top-level group of a name. -/
def topLevelGroup (realm : Realm) (groupName : String) : Option OidcGroup :=
  realm.groups.roots.find? fun group => group.name == groupName

/-- A new group at the top, without role mappings. -/
def postGroup (realm : Realm) (groupName : String)
    (attributes : Option (List (String × List String))) : Realm :=
  { realm with
    groups := realm.groups.addRoot ⟨realm.nextId, groupName⟩
    attributes := Function.update realm.attributes realm.nextId (attributes.getD [])
    roleMappings := Function.update realm.roleMappings realm.nextId []
    nextId := realm.nextId + 1 }

/-- The id of the group, and the realm. A top-level group of the name is a conflict, and the group
that is found under the name is taken. -/
def createGroup (realm : Realm) (groupName : String)
    (attributes : Option (List (String × List String))) : Except String (ℕ × Realm) :=
  match realm.topLevelGroup groupName with
  | some _ =>
      match realm.getGroupByName groupName with
      | some group => .ok (group.id, realm)
      | none => .error s!"Failed to create group: {groupName}"
  | none => .ok (realm.nextId, realm.postGroup groupName attributes)

def updateGroupAttributes (realm : Realm) (groupId : ℕ)
    (attributes : List (String × List String)) : Realm :=
  { realm with attributes := Function.update realm.attributes groupId attributes }

/-- The mapped roles of the client; the others are not asked for. -/
def getGroupClientRoles (realm : Realm) (groupId : ℕ) : List OidcRole :=
  (realm.roleMappings groupId).filter fun role => role.container = .client

def assignRolesToGroup (realm : Realm) (groupId : ℕ) (roles : List OidcRole) : Realm :=
  if roles = [] then realm
  else { realm with
    roleMappings := Function.update realm.roleMappings groupId
      (realm.roleMappings groupId ++ roles) }

def removeRolesFromGroup (realm : Realm) (groupId : ℕ) (roles : List OidcRole) : Realm :=
  if roles = [] then realm
  else { realm with
    roleMappings := Function.update realm.roleMappings groupId
      ((realm.roleMappings groupId).filter fun role => role ∉ roles) }

/-! ### The two differences -/

/-- The desired roles under no current name that are found; one that is not found is skipped. -/
def rolesToAdd (realm : Realm) (desiredRoleNames : List String)
    (currentRoles : List OidcRole) : List OidcRole :=
  (desiredRoleNames.filter fun name => name ∉ currentRoles.map (·.name)).filterMap fun name =>
    (realm.getRole name).toOption

/-- The current roles under no desired name. -/
def rolesToRemove (desiredRoleNames : List String) (currentRoles : List OidcRole) :
    List OidcRole :=
  currentRoles.filter fun role => role.name ∉ desiredRoleNames

/-- The realm a call leaves, whether it returns or throws. -/
def createCompositeRole (realm : Realm) (roleDefinition : RoleDefinition) : Realm :=
  let realm := (realm.createRole roleDefinition.name roleDefinition.description).2
  match realm.getRole roleDefinition.name with
  | .error _ => realm
  | .ok role =>
      let currentComposites := realm.getCompositeRoles roleDefinition.name
      let added := realm.rolesToAdd roleDefinition.desiredRoleNames currentComposites
      let removed := rolesToRemove roleDefinition.desiredRoleNames currentComposites
      (realm.removeCompositeRoles roleDefinition.name removed).addCompositeRoles role.name added

/-- The second half of `syncGroup`: the client roles of a group. -/
def syncRoles (realm : Realm) (groupId : ℕ) (desiredRoleNames : List String) : Realm :=
  let currentRoles := realm.getGroupClientRoles groupId
  let added := realm.rolesToAdd desiredRoleNames currentRoles
  let removed := rolesToRemove desiredRoleNames currentRoles
  (realm.removeRolesFromGroup groupId removed).assignRolesToGroup groupId added

/-- The realm a call leaves, whether it returns or throws. -/
def syncGroup (realm : Realm) (groupDefinition : GroupDefinition) : Realm :=
  match realm.getGroupByName groupDefinition.name with
  | none =>
      match realm.createGroup groupDefinition.name groupDefinition.attributes with
      | .error _ => realm
      | .ok (groupId, realm) =>
          match realm.getGroupById groupId with
          | .error _ => realm
          | .ok _ => realm.syncRoles groupId groupDefinition.desiredRoleNames
  | some group =>
      let realm :=
        match groupDefinition.attributes with
        | none => realm
        | some attributes => realm.updateGroupAttributes group.id attributes
      realm.syncRoles group.id groupDefinition.desiredRoleNames

/-- The two loops of `setupAllRoles`: every role definition, then every group definition. -/
def setupAllRoles (realm : Realm) (roleDefinitions : List RoleDefinition)
    (groupDefinitions : List GroupDefinition) : Realm :=
  Runs.run syncGroup (Runs.run createCompositeRole realm roleDefinitions) groupDefinitions

/-! ### What the differences hold -/

theorem mem_rolesToAdd {realm : Realm} {desired : List String} {current : List OidcRole}
    {role : OidcRole} :
    role ∈ realm.rolesToAdd desired current ↔
      role.container = .client ∧ realm.hasRole role.name = true ∧ role.name ∈ desired ∧
        ∀ r ∈ current, r.name ≠ role.name := by
  unfold rolesToAdd
  rw [List.mem_filterMap]
  constructor
  · rintro ⟨name, hname, hrole⟩
    obtain ⟨hdesired, hcurrent⟩ := List.mem_filter.mp hname
    unfold getRole at hrole
    split at hrole
    · rename_i hhas
      obtain rfl := Option.some.inj hrole
      refine ⟨rfl, hhas, hdesired, fun r hr heq => ?_⟩
      have hsame : r.name = name := heq
      exact of_decide_eq_true hcurrent (hsame ▸ List.mem_map_of_mem hr)
    · cases hrole
  · rintro ⟨hclient, hhas, hdesired, hcurrent⟩
    refine ⟨role.name, List.mem_filter.mpr ⟨hdesired, decide_eq_true ?_⟩, ?_⟩
    · intro hmem
      obtain ⟨r, hr, heq⟩ := List.mem_map.mp hmem
      exact hcurrent r hr heq
    · unfold getRole
      rw [if_pos hhas, ← hclient]
      rfl

theorem mem_rolesToRemove {desired : List String} {current : List OidcRole} {role : OidcRole} :
    role ∈ rolesToRemove desired current ↔ role ∈ current ∧ role.name ∉ desired := by
  unfold rolesToRemove
  rw [List.mem_filter, decide_eq_true_iff]

/-- Nothing is added where every desired role that is there is a current one. -/
theorem rolesToAdd_eq_nil {realm : Realm} {desired : List String} {current : List OidcRole}
    (h : ∀ name ∈ desired, realm.hasRole name = true → ⟨.client, name⟩ ∈ current) :
    realm.rolesToAdd desired current = [] := by
  apply List.eq_nil_iff_forall_not_mem.mpr
  intro role hrole
  obtain ⟨_, hhas, hdesired, hcurrent⟩ := mem_rolesToAdd.mp hrole
  exact hcurrent _ (h role.name hdesired hhas) rfl

theorem rolesToRemove_eq_nil {desired : List String} {current : List OidcRole}
    (h : ∀ role ∈ current, role.name ∈ desired) : rolesToRemove desired current = [] := by
  apply List.eq_nil_iff_forall_not_mem.mpr
  intro role hrole
  obtain ⟨hcurrent, hdesired⟩ := mem_rolesToRemove.mp hrole
  exact hdesired (h role hcurrent)

/-! ### A composite role -/

theorem hasRole_iff {realm : Realm} {name : String} :
    realm.hasRole name = true ↔ ∃ role, ObjectMap.get? realm.roles name = some role :=
  Option.isSome_iff_exists

theorem hasRole_createRole (realm : Realm) (roleName description name : String) :
    (realm.createRole roleName description).2.hasRole name = true ↔
      realm.hasRole name = true ∨ name = roleName := by
  unfold createRole
  split
  · rename_i hhas
    constructor
    · exact .inl
    · rintro (h | rfl)
      · exact h
      · exact hhas
  · unfold hasRole ObjectMap.has
    rw [ObjectMap.get?_set]
    split
    · rename_i heq
      simp [heq]
    · rename_i hne
      simp [hne]

/-- A role is created without composites, as one that is not there has none. -/
theorem getCompositeRoles_createRole (realm : Realm) (roleName description name : String) :
    (realm.createRole roleName description).2.getCompositeRoles name =
      realm.getCompositeRoles name := by
  unfold createRole
  split
  · rfl
  · rename_i hnot
    unfold getCompositeRoles
    rw [ObjectMap.get?_set]
    split
    · rename_i heq
      have hnone : ObjectMap.get? realm.roles name = none := by
        simpa [hasRole, ObjectMap.has, heq] using hnot
      rw [hnone]
      rfl
    · rfl

section Modify

variable {realm : Realm} {roleName : String} {change : List OidcRole → List OidcRole}

theorem hasRole_modifyComposites (name : String) :
    (realm.modifyComposites roleName change).hasRole name = realm.hasRole name := by
  unfold modifyComposites
  split
  · rfl
  · rename_i role hrole
    unfold hasRole ObjectMap.has
    rw [ObjectMap.get?_set]
    split
    · rename_i heq
      rw [heq, hrole]
      rfl
    · rfl

theorem getCompositeRoles_modifyComposites (h : realm.hasRole roleName = true) (name : String) :
    (realm.modifyComposites roleName change).getCompositeRoles name =
      if name = roleName then change (realm.getCompositeRoles roleName)
      else realm.getCompositeRoles name := by
  obtain ⟨role, hrole⟩ := hasRole_iff.mp h
  unfold modifyComposites getCompositeRoles
  rw [hrole]
  show ((ObjectMap.get? (ObjectMap.set realm.roles roleName _) name).map (·.composites)).getD [] = _
  rw [ObjectMap.get?_set]
  split <;> rfl

theorem modifyComposites_groups :
    ∃ roles, realm.modifyComposites roleName change = { realm with roles := roles } := by
  unfold modifyComposites
  split
  · exact ⟨realm.roles, rfl⟩
  · exact ⟨_, rfl⟩

end Modify

section Composites

variable {realm : Realm} {parent : String} {roles : List OidcRole}

theorem hasRole_removeCompositeRoles (name : String) :
    (realm.removeCompositeRoles parent roles).hasRole name = realm.hasRole name := by
  unfold removeCompositeRoles
  split
  · rfl
  · exact hasRole_modifyComposites name

theorem hasRole_addCompositeRoles (name : String) :
    (realm.addCompositeRoles parent roles).hasRole name = realm.hasRole name := by
  unfold addCompositeRoles
  split
  · rfl
  · exact hasRole_modifyComposites name

theorem getCompositeRoles_removeCompositeRoles (h : realm.hasRole parent = true) (name : String) :
    (realm.removeCompositeRoles parent roles).getCompositeRoles name =
      if name = parent then (realm.getCompositeRoles parent).filter fun role => role ∉ roles
      else realm.getCompositeRoles name := by
  unfold removeCompositeRoles
  split
  · rename_i hnil
    have hkeep : ((realm.getCompositeRoles parent).filter fun role => role ∉ roles) =
        realm.getCompositeRoles parent := by
      rw [hnil]
      exact List.filter_eq_self.mpr fun role _ => decide_eq_true List.not_mem_nil
    rw [hkeep]
    split
    · rename_i heq
      rw [heq]
    · rfl
  · exact getCompositeRoles_modifyComposites h name

theorem getCompositeRoles_addCompositeRoles (h : realm.hasRole parent = true) (name : String) :
    (realm.addCompositeRoles parent roles).getCompositeRoles name =
      if name = parent then realm.getCompositeRoles parent ++ roles
      else realm.getCompositeRoles name := by
  unfold addCompositeRoles
  split
  · rename_i hnil
    rw [hnil, List.append_nil]
    split
    · rename_i heq
      rw [heq]
    · rfl
  · exact getCompositeRoles_modifyComposites h name

end Composites

section CompositeStep

variable {realm : Realm} {d : RoleDefinition}

/-- The role is there once it was created, and both differences are written. -/
theorem createCompositeRole_eq (realm : Realm) (d : RoleDefinition) :
    realm.createCompositeRole d =
      let created := (realm.createRole d.name d.description).2
      (created.removeCompositeRoles d.name
          (rolesToRemove d.desiredRoleNames (realm.getCompositeRoles d.name))).addCompositeRoles
        d.name (created.rolesToAdd d.desiredRoleNames (realm.getCompositeRoles d.name)) := by
  have hhas : (realm.createRole d.name d.description).2.hasRole d.name = true :=
    (hasRole_createRole realm d.name d.description d.name).mpr (.inr rfl)
  unfold createCompositeRole getRole
  simp only [hhas, if_true, getCompositeRoles_createRole]

theorem hasRole_createCompositeRole (name : String) :
    (realm.createCompositeRole d).hasRole name = true ↔
      realm.hasRole name = true ∨ name = d.name := by
  rw [createCompositeRole_eq]
  simp only [hasRole_addCompositeRoles, hasRole_removeCompositeRoles]
  exact hasRole_createRole realm d.name d.description name

theorem getCompositeRoles_createCompositeRole (name : String) :
    (realm.createCompositeRole d).getCompositeRoles name =
      if name = d.name then
        ((realm.getCompositeRoles d.name).filter fun role =>
            role ∉ rolesToRemove d.desiredRoleNames (realm.getCompositeRoles d.name)) ++
          (realm.createRole d.name d.description).2.rolesToAdd d.desiredRoleNames
            (realm.getCompositeRoles d.name)
      else realm.getCompositeRoles name := by
  have hhas : (realm.createRole d.name d.description).2.hasRole d.name = true :=
    (hasRole_createRole realm d.name d.description d.name).mpr (.inr rfl)
  rw [createCompositeRole_eq]
  dsimp only
  rw [getCompositeRoles_addCompositeRoles (by rw [hasRole_removeCompositeRoles]; exact hhas),
    getCompositeRoles_removeCompositeRoles hhas, getCompositeRoles_removeCompositeRoles hhas,
    getCompositeRoles_createRole, getCompositeRoles_createRole, if_pos rfl]
  split <;> rfl

/-- **Spec.** After its turn a role is composed of the desired roles it was composed of, whichever
container they are in, and of the client roles under the other desired names. -/
theorem mem_composites_createCompositeRole {role : OidcRole} :
    role ∈ (realm.createCompositeRole d).getCompositeRoles d.name ↔
      role.name ∈ d.desiredRoleNames ∧
        (role ∈ realm.getCompositeRoles d.name ∨
          role.container = .client ∧ (realm.hasRole role.name = true ∨ role.name = d.name) ∧
            ∀ r ∈ realm.getCompositeRoles d.name, r.name ≠ role.name) := by
  rw [getCompositeRoles_createCompositeRole, if_pos rfl, List.mem_append, List.mem_filter,
    decide_eq_true_iff, mem_rolesToRemove, mem_rolesToAdd, hasRole_createRole]
  constructor
  · rintro (⟨hcurrent, hkept⟩ | ⟨hclient, hhas, hdesired, hother⟩)
    · have hdesired : role.name ∈ d.desiredRoleNames := by
        by_contra hnot
        exact hkept ⟨hcurrent, hnot⟩
      exact ⟨hdesired, .inl hcurrent⟩
    · exact ⟨hdesired, .inr ⟨hclient, hhas, hother⟩⟩
  · rintro ⟨hdesired, hcurrent | ⟨hclient, hhas, hother⟩⟩
    · exact .inl ⟨hcurrent, fun h => h.2 hdesired⟩
    · exact .inr ⟨hclient, hhas, hdesired, hother⟩

/-- **Frame.** A role definition writes roles only. -/
theorem createCompositeRole_groups (realm : Realm) (d : RoleDefinition) :
    ∃ roles, realm.createCompositeRole d = { realm with roles := roles } := by
  rw [createCompositeRole_eq]
  dsimp only
  have hcreated : ∃ roles, (realm.createRole d.name d.description).2 =
      { realm with roles := roles } := by
    unfold createRole
    split
    · exact ⟨realm.roles, rfl⟩
    · exact ⟨_, rfl⟩
  have hremoved (r : Realm) (name : String) (removed : List OidcRole) :
      ∃ roles, r.removeCompositeRoles name removed = { r with roles := roles } := by
    unfold removeCompositeRoles
    split
    · exact ⟨r.roles, rfl⟩
    · exact modifyComposites_groups
  have hadded (r : Realm) (name : String) (added : List OidcRole) :
      ∃ roles, r.addCompositeRoles name added = { r with roles := roles } := by
    unfold addCompositeRoles
    split
    · exact ⟨r.roles, rfl⟩
    · exact modifyComposites_groups
  obtain ⟨created, hcreated⟩ := hcreated
  obtain ⟨removed, hremoved⟩ := hremoved (realm.createRole d.name d.description).2 d.name
    (rolesToRemove d.desiredRoleNames (realm.getCompositeRoles d.name))
  rw [hremoved]
  obtain ⟨added, hadded⟩ := hadded { (realm.createRole d.name d.description).2 with roles := removed }
    d.name ((realm.createRole d.name d.description).2.rolesToAdd d.desiredRoleNames
      (realm.getCompositeRoles d.name))
  rw [hadded, hcreated]
  exact ⟨added, rfl⟩

/-- A role with exactly the desired roles is left as it is. -/
theorem createCompositeRole_eq_self (hhas : realm.hasRole d.name = true)
    (hdesired : ∀ role ∈ realm.getCompositeRoles d.name, role.name ∈ d.desiredRoleNames)
    (hcurrent : ∀ name ∈ d.desiredRoleNames, realm.hasRole name = true →
      ⟨.client, name⟩ ∈ realm.getCompositeRoles d.name) :
    realm.createCompositeRole d = realm := by
  have hcreated : (realm.createRole d.name d.description).2 = realm := by
    unfold createRole
    rw [if_pos hhas]
  rw [createCompositeRole_eq]
  dsimp only
  rw [hcreated, rolesToAdd_eq_nil hcurrent, rolesToRemove_eq_nil hdesired]
  rfl

end CompositeStep

/-! ### The roles of a group -/

theorem removeRolesFromGroup_eq (realm : Realm) (groupId : ℕ) (roles : List OidcRole) :
    realm.removeRolesFromGroup groupId roles =
      { realm with
        roleMappings := Function.update realm.roleMappings groupId
          ((realm.roleMappings groupId).filter fun role => role ∉ roles) } := by
  unfold removeRolesFromGroup
  split
  · rename_i hnil
    have hkeep : ((realm.roleMappings groupId).filter fun role => role ∉ roles) =
        realm.roleMappings groupId := by
      rw [hnil]
      exact List.filter_eq_self.mpr fun role _ => decide_eq_true List.not_mem_nil
    rw [hkeep, Function.update_eq_self]
  · rfl

theorem assignRolesToGroup_eq (realm : Realm) (groupId : ℕ) (roles : List OidcRole) :
    realm.assignRolesToGroup groupId roles =
      { realm with
        roleMappings := Function.update realm.roleMappings groupId
          (realm.roleMappings groupId ++ roles) } := by
  unfold assignRolesToGroup
  split
  · rename_i hnil
    rw [hnil, List.append_nil, Function.update_eq_self]
  · rfl

section SyncRoles

variable {realm : Realm} {groupId : ℕ} {desired : List String}

/-- **Frame.** Only the role mappings of the group are written. -/
theorem syncRoles_eq (realm : Realm) (groupId : ℕ) (desired : List String) :
    realm.syncRoles groupId desired =
      { realm with
        roleMappings := Function.update realm.roleMappings groupId
          (((realm.roleMappings groupId).filter fun role =>
              role ∉ rolesToRemove desired (realm.getGroupClientRoles groupId)) ++
            realm.rolesToAdd desired (realm.getGroupClientRoles groupId)) } := by
  unfold syncRoles
  dsimp only
  rw [removeRolesFromGroup_eq, assignRolesToGroup_eq]
  dsimp only
  rw [Function.update_self, Function.update_idem]

theorem mem_getGroupClientRoles {role : OidcRole} :
    role ∈ realm.getGroupClientRoles groupId ↔
      role ∈ realm.roleMappings groupId ∧ role.container = .client := by
  unfold getGroupClientRoles
  rw [List.mem_filter, decide_eq_true_iff]

/-- **Spec.** After its turn a group has the client roles under the desired names. -/
theorem mem_roleMappings_syncRoles {name : String} :
    ⟨.client, name⟩ ∈ (realm.syncRoles groupId desired).roleMappings groupId ↔
      name ∈ desired ∧
        (⟨.client, name⟩ ∈ realm.roleMappings groupId ∨ realm.hasRole name = true) := by
  rw [syncRoles_eq]
  dsimp only
  rw [Function.update_self, List.mem_append, List.mem_filter, decide_eq_true_iff,
    mem_rolesToRemove, mem_getGroupClientRoles, mem_rolesToAdd]
  constructor
  · rintro (⟨hcurrent, hkept⟩ | ⟨_, hhas, hdesired, _⟩)
    · have hdesired : name ∈ desired := by
        by_contra hnot
        exact hkept ⟨⟨hcurrent, rfl⟩, hnot⟩
      exact ⟨hdesired, .inl hcurrent⟩
    · exact ⟨hdesired, .inr hhas⟩
  · rintro ⟨hdesired, hin⟩
    by_cases hcurrent : (⟨.client, name⟩ : OidcRole) ∈ realm.roleMappings groupId
    · exact .inl ⟨hcurrent, fun h => h.2 hdesired⟩
    · refine .inr ⟨rfl, hin.resolve_left hcurrent, hdesired, ?_⟩
      rintro ⟨container, other⟩ hr rfl
      obtain ⟨hmapped, rfl⟩ := mem_getGroupClientRoles.mp hr
      exact hcurrent hmapped

/-- A group with exactly the desired client roles is left as it is. -/
theorem syncRoles_eq_self (h : ∀ name, ⟨.client, name⟩ ∈ realm.roleMappings groupId ↔
    name ∈ desired ∧ realm.hasRole name = true) : realm.syncRoles groupId desired = realm := by
  have hremove : rolesToRemove desired (realm.getGroupClientRoles groupId) = [] := by
    apply rolesToRemove_eq_nil
    rintro ⟨container, name⟩ hr
    obtain ⟨hmapped, rfl⟩ := mem_getGroupClientRoles.mp hr
    exact ((h name).mp hmapped).1
  have hadd : realm.rolesToAdd desired (realm.getGroupClientRoles groupId) = [] := by
    apply rolesToAdd_eq_nil
    intro name hdesired hhas
    exact mem_getGroupClientRoles.mpr ⟨(h name).mpr ⟨hdesired, hhas⟩, rfl⟩
  unfold syncRoles
  dsimp only
  rw [hremove, hadd]
  rfl

end SyncRoles

/-! ### A group definition -/

section GroupStep

variable {realm : Realm} {g : GroupDefinition} {name : String} {group : OidcGroup}

theorem getGroupByName_eq (realm : Realm) (name : String) :
    realm.getGroupByName name = realm.groups.preorder.find? fun group => group.name == name :=
  Forest.search_eq_find? _ _

theorem found (h : realm.getGroupByName name = some group) :
    group ∈ realm.groups.preorder ∧ group.name = name := by
  rw [getGroupByName_eq] at h
  have hname := List.find?_some h
  exact ⟨List.mem_of_find?_eq_some h, eq_of_beq hname⟩

theorem found_topLevel (h : realm.topLevelGroup name = some group) :
    group ∈ realm.groups.roots ∧ group.name = name := by
  unfold topLevelGroup at h
  have hname := List.find?_some h
  exact ⟨List.mem_of_find?_eq_some h, eq_of_beq hname⟩

/-- A top-level group is found, itself or an earlier one of its name. -/
theorem topLevelGroup_of_not_found (h : realm.getGroupByName name = none) :
    realm.topLevelGroup name = none := by
  rw [getGroupByName_eq, List.find?_eq_none] at h
  exact List.find?_eq_none.mpr fun group hgroup => h group (Forest.mem_preorder_of_root hgroup)

/-- The group a definition writes: the one found under its name, or the one created for it. -/
def writtenGroup (realm : Realm) (name : String) : OidcGroup :=
  (realm.getGroupByName name).getD ⟨realm.nextId, name⟩

theorem writtenGroup_name (realm : Realm) (name : String) :
    (realm.writtenGroup name).name = name := by
  unfold writtenGroup
  cases h : realm.getGroupByName name with
  | none => rfl
  | some group => exact (found h).2

theorem syncGroup_of_found (h : realm.getGroupByName g.name = some group) :
    realm.syncGroup g =
      { realm with
        attributes := g.attributes.elim realm.attributes
          (Function.update realm.attributes group.id) }.syncRoles group.id g.desiredRoleNames := by
  unfold syncGroup
  rw [h]
  dsimp only
  cases g.attributes <;> rfl

theorem syncGroup_of_not_found (h : realm.getGroupByName g.name = none) :
    realm.syncGroup g =
      (realm.postGroup g.name g.attributes).syncRoles realm.nextId g.desiredRoleNames := by
  have hcreate : realm.createGroup g.name g.attributes =
      .ok (realm.nextId, realm.postGroup g.name g.attributes) := by
    unfold createGroup
    rw [topLevelGroup_of_not_found h]
  have hget : ∃ group, (realm.postGroup g.name g.attributes).getGroupById realm.nextId =
      .ok group := by
    unfold getGroupById
    cases hfind : (realm.postGroup g.name g.attributes).groups.preorder.find? fun group =>
        group.id == realm.nextId with
    | some group => exact ⟨group, rfl⟩
    | none =>
        have hnew : (⟨realm.nextId, g.name⟩ : OidcGroup) ∈
            (realm.postGroup g.name g.attributes).groups.preorder := by
          show _ ∈ (realm.groups.addRoot _).preorder
          rw [Forest.preorder_addRoot]
          exact List.mem_append_right _ (List.mem_singleton.mpr rfl)
        exact absurd (beq_self_eq_true _) (List.find?_eq_none.mp hfind _ hnew)
  obtain ⟨group, hget⟩ := hget
  unfold syncGroup
  rw [h, hcreate]
  dsimp only
  rw [hget]

@[simp] theorem syncGroup_roles (realm : Realm) (g : GroupDefinition) :
    (realm.syncGroup g).roles = realm.roles := by
  cases h : realm.getGroupByName g.name with
  | none => rw [syncGroup_of_not_found h, syncRoles_eq, postGroup]
  | some group => rw [syncGroup_of_found h, syncRoles_eq]

theorem syncGroup_hasRole (realm : Realm) (g : GroupDefinition) (name : String) :
    (realm.syncGroup g).hasRole name = realm.hasRole name := by
  unfold hasRole
  rw [syncGroup_roles]

/-- The forest after the turn of a definition: a group that is not found is created at the top. -/
theorem syncGroup_groups (realm : Realm) (g : GroupDefinition) :
    (realm.syncGroup g).groups =
      (realm.getGroupByName g.name).elim (realm.groups.addRoot ⟨realm.nextId, g.name⟩)
        fun _ => realm.groups := by
  cases h : realm.getGroupByName g.name with
  | none => rw [syncGroup_of_not_found h, syncRoles_eq, postGroup, Option.elim_none]
  | some group => rw [syncGroup_of_found h, syncRoles_eq, Option.elim_some]

theorem syncGroup_nextId (realm : Realm) (g : GroupDefinition) :
    (realm.syncGroup g).nextId =
      (realm.getGroupByName g.name).elim (realm.nextId + 1) fun _ => realm.nextId := by
  cases h : realm.getGroupByName g.name with
  | none => rw [syncGroup_of_not_found h, syncRoles_eq, postGroup, Option.elim_none]
  | some group => rw [syncGroup_of_found h, syncRoles_eq, Option.elim_some]

/-- **Spec.** Which group is found under a name after the turn of a definition. -/
theorem getGroupByName_syncGroup (realm : Realm) (g : GroupDefinition) (name : String) :
    (realm.syncGroup g).getGroupByName name =
      if name = g.name then some (realm.writtenGroup g.name) else realm.getGroupByName name := by
  rw [getGroupByName_eq, syncGroup_groups]
  unfold writtenGroup
  cases h : realm.getGroupByName g.name with
  | none =>
      rw [Option.elim_none, Forest.preorder_addRoot, List.find?_append, ← getGroupByName_eq]
      split
      · rename_i heq
        rw [heq, h]
        simp
      · rename_i hne
        have hne' : (g.name == name) = false := by
          simpa using fun heq : g.name = name => hne heq.symm
        simp [hne']
  | some group =>
      rw [Option.elim_some, ← getGroupByName_eq]
      split
      · rename_i heq
        rw [heq, h]
        rfl
      · rfl

/-- **Spec.** Which group stands at the top under a name after the turn of a definition. -/
theorem topLevelGroup_syncGroup (realm : Realm) (g : GroupDefinition) (name : String) :
    (realm.syncGroup g).topLevelGroup name =
      if name = g.name ∧ realm.getGroupByName g.name = none then
        some (realm.writtenGroup g.name)
      else realm.topLevelGroup name := by
  unfold topLevelGroup
  rw [syncGroup_groups]
  unfold writtenGroup
  cases h : realm.getGroupByName g.name with
  | none =>
      rw [Option.elim_none, Forest.roots_addRoot, List.find?_append]
      have htop : realm.groups.roots.find? (fun group => group.name == g.name) = none :=
        topLevelGroup_of_not_found h
      by_cases heq : name = g.name
      · rw [heq, htop, if_pos ⟨rfl, rfl⟩]
        simp
      · rw [if_neg fun h => heq h.1]
        have hne' : (g.name == name) = false := by
          simpa using fun h : g.name = name => heq h.symm
        simp [hne']
  | some group => rw [Option.elim_some, if_neg fun h => nomatch h.2]

/-- **Frame.** Attributes and role mappings of the groups a definition does not write. -/
theorem syncGroup_frame {id : ℕ} (h : id ≠ (realm.writtenGroup g.name).id) :
    (realm.syncGroup g).attributes id = realm.attributes id ∧
      (realm.syncGroup g).roleMappings id = realm.roleMappings id := by
  unfold writtenGroup at h
  cases hfound : realm.getGroupByName g.name with
  | none =>
      rw [hfound] at h
      have hid : id ≠ realm.nextId := h
      rw [syncGroup_of_not_found hfound, syncRoles_eq, postGroup]
      dsimp only
      rw [Function.update_of_ne hid, Function.update_of_ne hid, Function.update_of_ne hid]
      exact ⟨rfl, rfl⟩
  | some group =>
      rw [hfound] at h
      have hid : id ≠ group.id := h
      rw [syncGroup_of_found hfound, syncRoles_eq]
      dsimp only
      rw [Function.update_of_ne hid]
      refine ⟨?_, rfl⟩
      cases g.attributes with
      | none => rfl
      | some attributes => exact Function.update_of_ne hid attributes realm.attributes

/-- **Spec.** The client roles of the written group. -/
theorem mem_roleMappings_syncGroup {role : String} :
    ⟨.client, role⟩ ∈ (realm.syncGroup g).roleMappings (realm.writtenGroup g.name).id ↔
      role ∈ g.desiredRoleNames ∧
        (realm.getGroupByName g.name ≠ none ∧
          ⟨.client, role⟩ ∈ realm.roleMappings (realm.writtenGroup g.name).id ∨
        realm.hasRole role = true) := by
  unfold writtenGroup
  cases h : realm.getGroupByName g.name with
  | none =>
      rw [syncGroup_of_not_found h]
      show _ ∈ (syncRoles _ realm.nextId g.desiredRoleNames).roleMappings realm.nextId ↔ _
      rw [mem_roleMappings_syncRoles]
      have hempty : (realm.postGroup g.name g.attributes).roleMappings realm.nextId = [] := by
        unfold postGroup
        exact Function.update_self realm.nextId [] realm.roleMappings
      rw [hempty]
      simp [postGroup, hasRole]
  | some group =>
      rw [syncGroup_of_found h]
      show _ ∈ (syncRoles _ group.id g.desiredRoleNames).roleMappings group.id ↔ _
      rw [mem_roleMappings_syncRoles]
      simp [hasRole]

theorem attributes_syncGroup {attributes : List (String × List String)}
    (h : g.attributes = some attributes) :
    (realm.syncGroup g).attributes (realm.writtenGroup g.name).id = attributes := by
  unfold writtenGroup
  cases hfound : realm.getGroupByName g.name with
  | none =>
      rw [syncGroup_of_not_found hfound, syncRoles_eq, postGroup, h]
      exact Function.update_self realm.nextId attributes realm.attributes
  | some group =>
      rw [syncGroup_of_found hfound, syncRoles_eq, h]
      exact Function.update_self group.id attributes realm.attributes

/-- A group as its definition has it is left as it is. -/
theorem syncGroup_eq_self (hfound : realm.getGroupByName g.name = some group)
    (hattributes : ∀ attributes, g.attributes = some attributes →
      realm.attributes group.id = attributes)
    (hroles : ∀ role, ⟨.client, role⟩ ∈ realm.roleMappings group.id ↔
      role ∈ g.desiredRoleNames ∧ realm.hasRole role = true) : realm.syncGroup g = realm := by
  have hsame : g.attributes.elim realm.attributes (Function.update realm.attributes group.id) =
      realm.attributes := by
    cases h : g.attributes with
    | none => rfl
    | some attributes =>
        rw [Option.elim_some, ← hattributes attributes h]
        exact Function.update_eq_self group.id realm.attributes
  rw [syncGroup_of_found hfound, hsame]
  exact syncRoles_eq_self hroles

end GroupStep

end Realm

end UploadService
