import UploadService.Release.Entities
import UploadService.Config.Vault

/-!
# The project access guard

`ProjectAccessGuard` and the answers of the project service it asks: which project
a token belongs to, and in which projects a user is a member. A rejected request to
the project service is an error.

`validateProjectList` is the check of the policy handlers: every project name taken
from the request must be that of the token's project, or name a project the user is
a member of.
-/

namespace UploadService

structure MemberProject where
  project : Option Project
  role : String
  deriving DecidableEq, Repr

/-- What the project service answers. A request may lack the identifier (`none`). -/
structure AccessService where
  /-- GET_MEMBER_IN_PROJECT -/
  getMemberInProject : Option Identifier → String → Except Exception (Option MemberProject)
  /-- the check of the token and GET_PROJECT_FROM_TOKEN -/
  getProjectFromToken : String → Except Exception (Option Project)
  /-- GET_USER_PROJECT_IDS -/
  getUserProjectIds : String → Except Exception (List ℕ)
  /-- GET_PROJECT_IDS_BY_NAMES -/
  getProjectIdsByNames : List String → Except Exception (List ℕ)

/-- The headers of a request: `user?.email` and `projectToken`. -/
structure Headers where
  email : Option String
  projectToken : Option String
  deriving DecidableEq, Repr

/-- A text that is there and not empty. -/
def truthy : Option String → Option String
  | some s => if s = "" then none else some s
  | none => none

namespace ProjectAccessGuard

/-- The project of the token, where the token is valid. -/
def tokenProject (access : AccessService) (headers : Headers) : Option Project :=
  match truthy headers.projectToken with
  | none => none
  | some token => match access.getProjectFromToken token with
    | .ok project => project
    | .error _ => none

/-- The project the user is a member of under the name, where there is one. -/
def memberProject (access : AccessService) (headers : Headers) (projectName : Option String) :
    Option Project :=
  match truthy headers.email with
  | none => none
  | some email => match access.getMemberInProject (projectName.map .name) email with
    | .ok (some member) => member.project
    | _ => none

/-- `project.name === projectName || project.id.toString() === projectName`. -/
def tokenNames (project : Project) (projectName : Option String) : Bool :=
  some project.name == projectName || some (toString project.id) == projectName

/-- The two attempts of `validateProjectList` for one name. -/
def hasAccess (access : AccessService) (headers : Headers) (projectName : Option String) : Bool :=
  (match tokenProject access headers with
    | some project => tokenNames project projectName
    | none => false) || (memberProject access headers projectName).isSome

/-- `validateProjectList`, from the names on: each of them must be accessible. -/
def validateProjectList (access : AccessService) (headers : Headers)
    (projectNames : List (Option String)) : Except Exception Unit :=
  match projectNames with
  | [] => .error (.forbidden "Request must be associated with at least one project")
  | _ => match projectNames.find? fun n => !hasAccess access headers n with
    | none => .ok ()
    | some n =>
        let projectName := n.getD "undefined"
        .error (.forbidden s!"User does not have permission to access project: {projectName}")

theorem validateProjectList_ok {access : AccessService} {headers : Headers}
    {names : List (Option String)} :
    validateProjectList access headers names = .ok () ↔
      names ≠ [] ∧ ∀ n ∈ names, hasAccess access headers n = true := by
  cases names with
  | nil => simp [validateProjectList]
  | cons n rest =>
      simp only [validateProjectList, ne_eq, reduceCtorEq, not_false_eq_true, true_and]
      cases hfind : (n :: rest).find? fun n => !hasAccess access headers n with
      | none =>
          have := List.find?_eq_none.mp hfind
          simpa using this
      | some m =>
          have hm : hasAccess access headers m = false := by
            have := List.find?_some hfind
            simpa using this
          simp only [reduceCtorEq, false_iff]
          intro h
          rw [h m (List.mem_of_find?_eq_some hfind)] at hm
          cases hm

end ProjectAccessGuard

/-! ### Who has access -/

/-- The request comes from someone with access to the project: its token is one of the
project, or its user is a member of it. -/
def HasAccess (access : AccessService) (headers : Headers) (projectId : ℕ) : Prop :=
  (∃ project, ProjectAccessGuard.tokenProject access headers = some project ∧
    project.id = projectId) ∨
  ∃ email ids, truthy headers.email = some email ∧
    access.getUserProjectIds email = .ok ids ∧ projectId ∈ ids

/-- An identifier names a project by its id or by its name. -/
def Project.namedBy (project : Project) : Identifier → Prop
  | .id n => project.id = n
  | .name s => project.name = s ∨ toString project.id = s

/-- What the project service promises: the answers are rows of the `project` table, a
membership is one in the project asked for, and it is among the user's projects. -/
structure AccessService.Sound (access : AccessService) (projects : List Project) : Prop where
  token : ∀ token project, access.getProjectFromToken token = .ok (some project) →
    project ∈ projects
  member : ∀ identifier email member project,
    access.getMemberInProject identifier email = .ok (some member) →
    member.project = some project → project ∈ projects ∧
      (∀ i, identifier = some i → project.namedBy i) ∧
      ∃ ids, access.getUserProjectIds email = .ok ids ∧ project.id ∈ ids

/-- A name that the guard accepts is the name of a project the requester has access to, or
its id. -/
theorem AccessService.Sound.hasAccess {access : AccessService} {projects : List Project}
    (h : access.Sound projects) {headers : Headers} {name : String}
    (hok : ProjectAccessGuard.hasAccess access headers (some name) = true) :
    ∃ project ∈ projects, project.namedBy (.name name) ∧ HasAccess access headers project.id := by
  unfold ProjectAccessGuard.hasAccess at hok
  rcases Bool.or_eq_true_iff.mp hok with htoken | hmember
  · cases hp : ProjectAccessGuard.tokenProject access headers with
    | none => simp [hp] at htoken
    | some project =>
        simp only [hp, ProjectAccessGuard.tokenNames, Bool.or_eq_true, beq_iff_eq,
          Option.some.injEq] at htoken
        refine ⟨project, ?_, htoken, .inl ⟨project, hp, rfl⟩⟩
        unfold ProjectAccessGuard.tokenProject at hp
        split at hp
        · cases hp
        · rename_i token _
          split at hp
          · rename_i answer hanswer
            rw [hp] at hanswer
            exact h.token token project hanswer
          · cases hp
  · obtain ⟨project, hp⟩ := Option.isSome_iff_exists.mp hmember
    unfold ProjectAccessGuard.memberProject at hp
    split at hp
    · cases hp
    · rename_i email hemail
      split at hp
      · rename_i member hanswer
        obtain ⟨hmem, hnamed, ids, hids, hin⟩ := h.member _ email member project hanswer hp
        exact ⟨project, hmem, hnamed (.name name) rfl, .inr ⟨email, ids, hemail, hids, hin⟩⟩
      · cases hp

end UploadService
