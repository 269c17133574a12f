import UploadService.Access.SingleProject

/-!
# Access with any credential

A handler marked `validateProjectAnyAccess` should take a request with a token of the project that
it addresses, or with a user who is a member of that project. The guard looks the token up first.
A look-up that is rejected is passed to `.catch(null)`, and `null` is no handler, so the rejection
ends the guard; and a token of another project keeps the guard from looking at the user.

Main results:

- `canActivate_ok`: what the guard decides, by the outcome of the look-ups;
- `any_access_iff`: the guard is a disjunction of the credentials exactly when no presented token
  stands in the way of a member.
-/

namespace UploadService

open ProjectAccessGuard

variable {access : AccessService} {headers : Headers} {roles : List String}
  {projectIdentifier projectId : Option Identifier} {identifier : Identifier} {project : Project}

/-! ### The credentials -/

/-- The identifier by which a request addresses a project: `projectIdentifier ?? projectId`, where
it does not count as missing. -/
def addressOf (projectIdentifier projectId : Option Identifier) : Option Identifier :=
  (projectIdentifier.or projectId).filter fun identifier => !isFalsy identifier

/-- The identifier is the id or the name of the project. -/
def denotes (identifier : Identifier) (project : Project) : Bool :=
  looseEqualsNumber project.id identifier || looseEqualsText project.name identifier

/-- The token is valid, and belongs to the project. -/
def TokenGrants (access : AccessService) (headers : Headers) (project : Project) : Prop :=
  ∃ token, truthy headers.projectToken = some token ∧
    access.getProjectFromToken token = .ok (some project)

/-- The user is a member of the project, with one of the roles where there are any. -/
def MemberGrants (access : AccessService) (headers : Headers) (roles : List String)
    (identifier : Identifier) (project : Project) : Prop :=
  ∃ email member, truthy headers.email = some email ∧
    access.getMemberInProject (some identifier) email = .ok (some member) ∧
    (roles = [] ∨ member.role ∈ roles) ∧ member.project = some project

/-- One of the credentials is good for the project that the request addresses. -/
def Entitled (access : AccessService) (headers : Headers) (roles : List String)
    (projectIdentifier projectId : Option Identifier) (project : Project) : Prop :=
  ∃ identifier, addressOf projectIdentifier projectId = some identifier ∧
    denotes identifier project = true ∧
    (TokenGrants access headers project ∨ MemberGrants access headers roles identifier project)

/-- A presented token stands in the way: its look-up is rejected, or it is one of a project that
the request does not address. -/
def TokenBlocks (access : AccessService) (headers : Headers) (identifier : Identifier) : Prop :=
  ∃ token, truthy headers.projectToken = some token ∧
    ((∃ e, access.getProjectFromToken token = .error e) ∨
      ∃ project, access.getProjectFromToken token = .ok (some project) ∧
        denotes identifier project = false)

/-- A member of the project that the request addresses has a token that stands in the way. -/
def MemberKeptOut (access : AccessService) (headers : Headers) (roles : List String)
    (projectIdentifier projectId : Option Identifier) : Prop :=
  ∃ identifier project, addressOf projectIdentifier projectId = some identifier ∧
    denotes identifier project = true ∧ MemberGrants access headers roles identifier project ∧
    TokenBlocks access headers identifier

/-! ### The validations -/

theorem validateProject_ok :
    validateProject access headers.projectToken = .ok (some project) ↔
      TokenGrants access headers project := by
  unfold validateProject TokenGrants
  cases truthy headers.projectToken with
  | none => simp
  | some token => simp

/-- **Spec.** A user is validated as a member of the project. -/
theorem validateUser_ok :
    validateUser access identifier headers.email roles = .ok (some project) ↔
      MemberGrants access headers roles identifier project := by
  unfold validateUser MemberGrants
  cases truthy headers.email with
  | none => simp
  | some email =>
      cases hmember : access.getMemberInProject (some identifier) email with
      | error e => simp [hmember, bind, Except.bind]
      | ok found =>
          cases found with
          | none => simp [hmember, bind, Except.bind]
          | some member =>
              by_cases hrole : (roles.isEmpty || roles.contains member.role) = true
              · have hhas : roles = [] ∨ member.role ∈ roles := by simpa using hrole
                simp [hmember, bind, Except.bind, hhas]
              · have hnot : ¬ (roles = [] ∨ member.role ∈ roles) := by simpa using hrole
                simp [hmember, bind, Except.bind, hnot]

/-- **Spec.** The token decides where it is rejected or belongs to a project, and the user decides
otherwise. -/
theorem validateAny_ok :
    validateAny access identifier headers roles = .ok (some project) ↔
      validateProject access headers.projectToken = .ok (some project) ∨
        (validateProject access headers.projectToken = .ok none ∧
          validateUser access identifier headers.email roles = .ok (some project)) := by
  unfold validateAny
  cases validateProject access headers.projectToken with
  | error e => simp [bind, Except.bind]
  | ok found =>
      cases found with
      | none => simp [bind, Except.bind]
      | some other => simp [bind, Except.bind]

/-- **Spec.** The guard lets a request through with an addressed project that the validation
gives. -/
theorem canActivate_ok :
    canActivate access headers roles projectIdentifier projectId = .ok project ↔
      ∃ identifier, addressOf projectIdentifier projectId = some identifier ∧
        denotes identifier project = true ∧
        validateAny access identifier headers roles = .ok (some project) := by
  unfold canActivate addressOf
  cases projectIdentifier.or projectId with
  | none => exact iff_of_false nofun fun ⟨_, h, _⟩ => nomatch h
  | some identifier =>
      cases hfalsy : isFalsy identifier with
      | true =>
          have hmissing : (some identifier).filter (fun i => !isFalsy i) = none := by
            rw [Option.filter_some, hfalsy]
            rfl
          rw [hmissing]
          exact iff_of_false (by simp [hfalsy]) fun ⟨_, h, _⟩ => nomatch h
      | false =>
          have hthere : (some identifier).filter (fun i => !isFalsy i) = some identifier := by
            rw [Option.filter_some, hfalsy]
            rfl
          rw [hthere]
          simp only [hfalsy, Bool.false_eq_true, if_false, Option.some.injEq]
          cases hvalid : validateAny access identifier headers roles with
          | error e =>
              refine iff_of_false nofun ?_
              rintro ⟨_, rfl, -, h⟩
              rw [hvalid] at h
              cases h
          | ok found =>
              cases found with
              | none =>
                  refine iff_of_false nofun ?_
                  rintro ⟨_, rfl, -, h⟩
                  rw [hvalid] at h
                  cases h
              | some other =>
                  show (if denotes identifier other = true then Except.ok other else .error _) =
                    .ok project ↔ _
                  constructor
                  · intro h
                    split at h
                    · rename_i hdenotes
                      obtain rfl := Except.ok.inj h
                      exact ⟨identifier, rfl, hdenotes, hvalid⟩
                    · cases h
                  · rintro ⟨_, rfl, hdenotes, h⟩
                    rw [hvalid] at h
                    obtain rfl := Option.some.inj (Except.ok.inj h)
                    rw [if_pos hdenotes]

/-! ### Who passes -/

/-- Whoever passes is entitled. -/
theorem canActivate_entitled
    (hpass : canActivate access headers roles projectIdentifier projectId = .ok project) :
    Entitled access headers roles projectIdentifier projectId project := by
  obtain ⟨identifier, haddress, hdenotes, hvalid⟩ := canActivate_ok.mp hpass
  refine ⟨identifier, haddress, hdenotes, ?_⟩
  rcases validateAny_ok.mp hvalid with htoken | ⟨-, huser⟩
  · exact .inl (validateProject_ok.mp htoken)
  · exact .inr (validateUser_ok.mp huser)

/-- A token of the addressed project passes. -/
theorem canActivate_of_token (haddress : addressOf projectIdentifier projectId = some identifier)
    (hdenotes : denotes identifier project = true) (htoken : TokenGrants access headers project) :
    canActivate access headers roles projectIdentifier projectId = .ok project := by
  apply canActivate_ok.mpr
  exact ⟨identifier, haddress, hdenotes, validateAny_ok.mpr (.inl (validateProject_ok.mpr htoken))⟩

/-- A member of the addressed project passes exactly when no token stands in the way. -/
theorem canActivate_of_member (haddress : addressOf projectIdentifier projectId = some identifier)
    (hdenotes : denotes identifier project = true)
    (hmember : MemberGrants access headers roles identifier project) :
    (∃ other, canActivate access headers roles projectIdentifier projectId = .ok other) ↔
      ¬ TokenBlocks access headers identifier := by
  constructor
  · rintro ⟨other, hpass⟩ ⟨token, htruthy, hblocks⟩
    obtain ⟨i, hi, hother, hvalid⟩ := canActivate_ok.mp hpass
    obtain rfl := Option.some.inj (haddress.symm.trans hi)
    have htoken : validateProject access headers.projectToken = access.getProjectFromToken token := by
      unfold validateProject
      rw [htruthy]
    rw [validateAny_ok, htoken] at hvalid
    rcases hblocks with ⟨e, he⟩ | ⟨blocked, hblocked, hnot⟩
    · rw [he] at hvalid
      rcases hvalid with hof | ⟨hnone, -⟩
      · cases hof
      · cases hnone
    · rw [hblocked] at hvalid
      rcases hvalid with hof | ⟨hnone, -⟩
      · obtain rfl := Option.some.inj (Except.ok.inj hof)
        rw [hother] at hnot
        cases hnot
      · cases hnone
  · intro hfree
    cases hvalid : validateProject access headers.projectToken with
    | error e =>
        exfalso
        unfold validateProject at hvalid
        cases htruthy : truthy headers.projectToken with
        | none =>
            rw [htruthy] at hvalid
            cases hvalid
        | some token =>
            rw [htruthy] at hvalid
            exact hfree ⟨token, htruthy, .inl ⟨e, hvalid⟩⟩
    | ok found =>
        cases found with
        | none =>
            refine ⟨project, canActivate_ok.mpr ⟨identifier, haddress, hdenotes, ?_⟩⟩
            exact validateAny_ok.mpr (.inr ⟨hvalid, validateUser_ok.mpr hmember⟩)
        | some other =>
            -- the token passes by itself, where it is one of the addressed project
            obtain ⟨token, htruthy, hof⟩ := validateProject_ok.mp hvalid
            cases hother : denotes identifier other with
            | false => exact absurd ⟨token, htruthy, .inr ⟨other, hof, hother⟩⟩ hfree
            | true => exact ⟨other, canActivate_of_token haddress hother ⟨token, htruthy, hof⟩⟩

/-- **Main result.** The guard lets a request through exactly when one of the credentials is good
for the addressed project, with a project of which that is so, if and only if no presented token
stands in the way of a member. -/
theorem any_access_iff (access : AccessService) (headers : Headers) (roles : List String)
    (projectIdentifier projectId : Option Identifier) :
    (((∃ project, canActivate access headers roles projectIdentifier projectId = .ok project) ↔
        ∃ project, Entitled access headers roles projectIdentifier projectId project) ∧
      ∀ project, canActivate access headers roles projectIdentifier projectId = .ok project →
        Entitled access headers roles projectIdentifier projectId project) ↔
      ¬ MemberKeptOut access headers roles projectIdentifier projectId := by
  constructor
  · rintro ⟨hiff, -⟩ ⟨identifier, project, haddress, hdenotes, hmember, hblocks⟩
    have hpass := hiff.mpr ⟨project, identifier, haddress, hdenotes, .inr hmember⟩
    exact (canActivate_of_member haddress hdenotes hmember).mp hpass hblocks
  · intro hfree
    refine ⟨⟨?_, ?_⟩, fun project hpass => canActivate_entitled hpass⟩
    · rintro ⟨project, hpass⟩
      exact ⟨project, canActivate_entitled hpass⟩
    · rintro ⟨project, identifier, haddress, hdenotes, htoken | hmember⟩
      · exact ⟨project, canActivate_of_token haddress hdenotes htoken⟩
      · apply (canActivate_of_member haddress hdenotes hmember).mpr
        exact fun hblocks => hfree ⟨identifier, project, haddress, hdenotes, hmember, hblocks⟩

/-! ### A member with a token of another project -/

/-- Project 1 has the member `eve`; the token `two` is one of project 2. -/
def twoProjectAccess : AccessService where
  getMemberInProject identifier email :=
    if identifier = some (.id 1) ∧ email = "eve" then
      .ok (some ⟨some ⟨1, "one", .product⟩, "project-member"⟩)
    else .ok none
  getProjectFromToken token :=
    if token = "two" then .ok (some ⟨2, "two", .product⟩) else .error (.unauthorized "invalid token")
  getUserProjectIds _ := .ok [1]
  getProjectIdsByNames _ := .ok []

/-- `eve` is a member of the project, and the token that comes with her request keeps her out:
one of another project, or one that has expired. -/
theorem member_kept_out :
    Entitled twoProjectAccess ⟨some "eve", some "two"⟩ [] (some (.id 1)) none ⟨1, "one", .product⟩ ∧
    Entitled twoProjectAccess ⟨some "eve", some "expired"⟩ [] (some (.id 1)) none
      ⟨1, "one", .product⟩ ∧
    canActivate twoProjectAccess ⟨some "eve", some "two"⟩ [] (some (.id 1)) none =
      .error (.forbidden "Not allowed in this project: 1") ∧
    canActivate twoProjectAccess ⟨some "eve", some "expired"⟩ [] (some (.id 1)) none =
      .error (.unauthorized "invalid token") := by
  have hentitled : ∀ token, Entitled twoProjectAccess ⟨some "eve", token⟩ [] (some (.id 1)) none
      ⟨1, "one", .product⟩ := by
    intro token
    exact ⟨.id 1, rfl, rfl, .inr ⟨"eve", ⟨some ⟨1, "one", .product⟩, "project-member"⟩, rfl, rfl,
      .inl rfl, rfl⟩⟩
  refine ⟨hentitled _, hentitled _, ?_, ?_⟩
  · decide +kernel
  · decide +kernel

end UploadService
