import UploadService.Access.Guard

/-!
# Permissions

`PermissionsGuard`: a handler asks for API roles, which a user has in its JWT and a project token
brings with it. A request without a project token is checked by `PermissionsService`, which asks
for nothing where permissions are not enabled for the user; a request with one is checked in the
guard itself, against the roles of both.

Main results:

- `letsThrough_user_iff`, `letsThrough_token_iff`: which requests the guard lets through;
- `keepsAccess_iff`: a credential more never takes access away exactly where the roles of the user
  and of a project token meet what is asked for, or the user is let through by roles at all.
-/

namespace UploadService

inductive ApiRole where
  | createProject | viewProject | updateProject | deleteProject | listProjects | createRelease
  | viewRelease | updateRelease | editReleasedRelease | deleteRelease | pushRelease
  | publishRelease | listReleases | uploadArtifact | downloadArtifact | deleteArtifact
  | viewArtifact | listArtifacts | deployDev | deployStaging | deployProduction | viewDiscovery
  | manageDiscovery | linkProjectDeviceType | viewOffering | createOffering | updateOffering
  | deleteOffering | viewUser | manageUsers | viewAnalytics | viewLogs | viewMetrics
  | manageConfig | viewConfig | createPolicy | viewPolicy | updatePolicy | deletePolicy
  | listPolicies | createRestriction | viewRestriction | updateRestriction | deleteRestriction
  | listRestrictions | createSbomScan | viewSbomScan | deleteSbomScan | retrySbomScan
  | viewConfigRevision | manageConfigRevision | manageConfigGroup | viewConfigMap
  | manageConfigMap | permissionsEnabled
  deriving DecidableEq, Repr

/-- The text of a role in a JWT. -/
def ApiRole.value : ApiRole → String
  | createProject => "create-project"
  | viewProject => "view-project"
  | updateProject => "update-project"
  | deleteProject => "delete-project"
  | listProjects => "list-projects"
  | createRelease => "create-release"
  | viewRelease => "view-release"
  | updateRelease => "update-release"
  | editReleasedRelease => "edit-released-release"
  | deleteRelease => "delete-release"
  | pushRelease => "push-release"
  | publishRelease => "publish-release"
  | listReleases => "list-releases"
  | uploadArtifact => "upload-artifact"
  | downloadArtifact => "download-artifact"
  | deleteArtifact => "delete-artifact"
  | viewArtifact => "view-artifact"
  | listArtifacts => "list-artifacts"
  | deployDev => "deploy-dev"
  | deployStaging => "deploy-staging"
  | deployProduction => "deploy-production"
  | viewDiscovery => "view-discovery"
  | manageDiscovery => "manage-discovery"
  | linkProjectDeviceType => "link-project-device-type"
  | viewOffering => "view-offering"
  | createOffering => "create-offering"
  | updateOffering => "update-offering"
  | deleteOffering => "delete-offering"
  | viewUser => "view-user"
  | manageUsers => "manage-users"
  | viewAnalytics => "view-analytics"
  | viewLogs => "view-logs"
  | viewMetrics => "view-metrics"
  | manageConfig => "manage-config"
  | viewConfig => "view-config"
  | createPolicy => "create-policy"
  | viewPolicy => "view-policy"
  | updatePolicy => "update-policy"
  | deletePolicy => "delete-policy"
  | listPolicies => "list-policies"
  | createRestriction => "create-restriction"
  | viewRestriction => "view-restriction"
  | updateRestriction => "update-restriction"
  | deleteRestriction => "delete-restriction"
  | listRestrictions => "list-restrictions"
  | createSbomScan => "create-sbom-scan"
  | viewSbomScan => "view-sbom-scan"
  | deleteSbomScan => "delete-sbom-scan"
  | retrySbomScan => "retry-sbom-scan"
  | viewConfigRevision => "view-config-revision"
  | manageConfigRevision => "manage-config-revision"
  | manageConfigGroup => "manage-config-group"
  | viewConfigMap => "view-config-map"
  | manageConfigMap => "manage-config-map"
  | permissionsEnabled => "permissions-enabled"

/-- `PROJECT_TOKEN_ROLES`. -/
def projectTokenRoles : List ApiRole :=
  [.viewProject, .updateProject, .deleteProject, .listProjects, .createRelease, .viewRelease,
   .updateRelease, .editReleasedRelease, .deleteRelease, .publishRelease, .listReleases,
   .uploadArtifact, .downloadArtifact, .deleteArtifact, .viewArtifact, .listArtifacts]

structure PermissionsConfig where
  enableEnvVar : String
  stampRole : String
  resourceName : String
  deriving DecidableEq, Repr

/-- `DEFAULT_PERMISSIONS_CONFIG`. -/
def defaultPermissionsConfig : PermissionsConfig where
  enableEnvVar := "ENABLE_PERMISSIONS"
  stampRole := "permissions-enabled"
  resourceName := "api"

structure RequirePermissionsOptions where
  roles : List ApiRole
  requireAll : Option Bool
  deriving DecidableEq, Repr

structure ResourceAccess where
  roles : Option (List String)
  deriving DecidableEq, Repr

/-- What the checks read of a JWT. -/
structure JwtPayload where
  resourceAccess : Option (List (String × ResourceAccess))
  deriving DecidableEq, Repr

/-- `JwtService.decode`: it may throw, and it may find nothing to decode. -/
structure JwtService where
  decode : String → Except String (Option JwtPayload)

/-- `process.env`. -/
abbrev ProcessEnv : Type := String → Option String

/-- A request, as the guard reads it; a header may come in either spelling. -/
structure PermissionsRequest where
  user : Option JwtPayload
  projectToken : Option String
  authorization : Option String
  capitalAuthorization : Option String
  deriving DecidableEq, Repr

namespace PermissionsService

def extractApiRoles (user : JwtPayload) : List String :=
  match user.resourceAccess with
  | none => []
  | some resourceAccess =>
      match ObjectMap.get? resourceAccess defaultPermissionsConfig.resourceName with
      | none => []
      | some resourceRoles => resourceRoles.roles.getD []

def isPermissionsEnabled (env : ProcessEnv) (user : JwtPayload) : Bool :=
  let envValue := env defaultPermissionsConfig.enableEnvVar
  if envValue == some "true" || envValue == some "1" then true
  else (extractApiRoles user).contains defaultPermissionsConfig.stampRole

def hasAnyRole (user : JwtPayload) (roles : List ApiRole) : Bool :=
  roles.any fun role => (extractApiRoles user).contains role.value

def hasAllRoles (user : JwtPayload) (roles : List ApiRole) : Bool :=
  roles.all fun role => (extractApiRoles user).contains role.value

def validatePermissions (env : ProcessEnv) (user : Option JwtPayload)
    (requiredRoles : List ApiRole) (requireAll : Bool) : Bool :=
  match user with
  | none => false
  | some user =>
      if !isPermissionsEnabled env user then true
      else if requiredRoles.isEmpty then true
      else if requireAll then hasAllRoles user requiredRoles
      else hasAnyRole user requiredRoles

end PermissionsService

namespace PermissionsGuard

open PermissionsService

def hasProjectToken (request : PermissionsRequest) : Bool := (truthy request.projectToken).isSome

def insufficientPermissions (roles : List ApiRole) : Exception :=
  let plural := if 1 < roles.length then "s" else ""
  let texts := ", ".intercalate (roles.map ApiRole.value)
  .forbidden s!"Insufficient permissions. Required role{plural}: {texts}"

/-- The token of a header "Bearer <token>". -/
def bearerToken (authHeader : String) : String :=
  if authHeader.startsWith "Bearer " || authHeader.startsWith "bearer " then
    (authHeader.drop 7).toString
  else authHeader

/-- The user that was set on the request, or that of its authorization header. -/
def readUser (jwtService : JwtService) (roles : List ApiRole) (request : PermissionsRequest) :
    Except Exception JwtPayload :=
  match request.user with
  | some user => .ok user
  | none =>
      match (truthy request.authorization).or (truthy request.capitalAuthorization) with
      | none =>
          if hasProjectToken request then .error (insufficientPermissions roles)
          else .error (.unauthorized "Authentication required")
      | some authHeader =>
          match jwtService.decode (bearerToken authHeader) with
          | .ok (some user) => .ok user
          | _ => .error (.unauthorized "Invalid or expired authentication token")

/-- The roles of the project token together with those of the user. -/
def combinedRoles (user : JwtPayload) : List String :=
  (projectTokenRoles.map ApiRole.value ++ extractApiRoles user).eraseDups

def projectTokenSatisfies (roles : List ApiRole) (requireAll : Bool) : Bool :=
  if requireAll then roles.all projectTokenRoles.contains
  else roles.any projectTokenRoles.contains

def combinedSatisfies (user : JwtPayload) (roles : List ApiRole) (requireAll : Bool) : Bool :=
  if requireAll then roles.all fun role => (combinedRoles user).contains role.value
  else roles.any fun role => (combinedRoles user).contains role.value

/-- `canActivate`: the request that is let through, with the user the guard put on it. -/
def canActivate (env : ProcessEnv) (jwtService : JwtService)
    (permissionsOptions : Option RequirePermissionsOptions) (request : PermissionsRequest) :
    Except Exception PermissionsRequest :=
  match permissionsOptions with
  | none => .ok request
  | some options =>
      let requireAll := options.requireAll.getD false
      if hasProjectToken request && projectTokenSatisfies options.roles requireAll then .ok request
      else
        match readUser jwtService options.roles request with
        | .error e => .error e
        | .ok user =>
            let hasPermission :=
              if hasProjectToken request then combinedSatisfies user options.roles requireAll
              else validatePermissions env (some user) options.roles requireAll
            if hasPermission then .ok { request with user := some user }
            else .error (insufficientPermissions options.roles)

/-! ### What is asked for -/

/-- The roles that are held meet what is asked for. -/
def Meets (held : List String) (roles : List ApiRole) (requireAll : Bool) : Prop :=
  if requireAll then ∀ role ∈ roles, role.value ∈ held else ∃ role ∈ roles, role.value ∈ held

/-- The roles of a project token and of the user. -/
def heldWithToken (user : JwtPayload) : List String :=
  projectTokenRoles.map ApiRole.value ++ extractApiRoles user

variable {held held' : List String} {roles : List ApiRole} {requireAll : Bool}
  {env : ProcessEnv} {jwtService : JwtService} {user user' : JwtPayload}
  {options : RequirePermissionsOptions} {request : PermissionsRequest}

/-- More roles meet at least as much. -/
theorem Meets.mono (h : Meets held roles requireAll) (hsub : held ⊆ held') :
    Meets held' roles requireAll := by
  unfold Meets at h ⊢
  cases requireAll with
  | true => exact fun role hrole => hsub (h role hrole)
  | false =>
      obtain ⟨role, hrole, hheld⟩ := h
      exact ⟨role, hrole, hsub hheld⟩

theorem combinedSatisfies_iff :
    combinedSatisfies user roles requireAll = true ↔ Meets (heldWithToken user) roles requireAll := by
  unfold combinedSatisfies Meets
  cases requireAll with
  | true => simp [combinedRoles, heldWithToken]
  | false => simp [combinedRoles, heldWithToken]

theorem hasRoles_iff :
    (if requireAll then hasAllRoles user roles else hasAnyRole user roles) = true ↔
      Meets (extractApiRoles user) roles requireAll := by
  unfold hasAllRoles hasAnyRole Meets
  cases requireAll with
  | true => simp
  | false => simp

/-- Without permissions, and where no role is asked for, every user is let through. -/
theorem validatePermissions_iff :
    validatePermissions env (some user) roles requireAll = true ↔
      isPermissionsEnabled env user = false ∨ roles = [] ∨
        Meets (extractApiRoles user) roles requireAll := by
  unfold validatePermissions
  dsimp only
  rw [← hasRoles_iff]
  cases isPermissionsEnabled env user with
  | false => simp
  | true =>
      cases roles with
      | nil => simp
      | cons role roles => simp

/-- What the token meets by itself, it meets with the roles of any user. -/
theorem meets_of_projectTokenSatisfies (h : projectTokenSatisfies roles requireAll = true)
    (user : JwtPayload) : Meets (heldWithToken user) roles requireAll := by
  have hheld : ∀ role : ApiRole, projectTokenRoles.contains role = true →
      role.value ∈ heldWithToken user := by
    intro role hrole
    apply List.mem_append_left
    exact List.mem_map_of_mem (List.contains_iff_mem.mp hrole)
  unfold projectTokenSatisfies at h
  unfold Meets
  cases requireAll with
  | true => exact fun role hrole => hheld role (List.all_eq_true.mp h role hrole)
  | false =>
      obtain ⟨role, hrole, hcontains⟩ := List.any_eq_true.mp h
      exact ⟨role, hrole, hheld role hcontains⟩

/-! ### Who is let through -/

def LetsThrough (env : ProcessEnv) (jwtService : JwtService)
    (permissionsOptions : Option RequirePermissionsOptions) (request : PermissionsRequest) : Prop :=
  ∃ after, canActivate env jwtService permissionsOptions request = .ok after

theorem letsThrough_none : LetsThrough env jwtService none request := ⟨request, rfl⟩

/-- **Spec.** A request without a project token is let through where its user is. -/
theorem letsThrough_user_iff (htoken : hasProjectToken request = false) :
    LetsThrough env jwtService (some options) request ↔
      ∃ user, readUser jwtService options.roles request = .ok user ∧
        validatePermissions env (some user) options.roles (options.requireAll.getD false) = true := by
  unfold LetsThrough canActivate
  dsimp only
  rw [htoken, Bool.false_and, if_neg Bool.false_ne_true]
  cases readUser jwtService options.roles request with
  | error e => simp
  | ok user =>
      dsimp only
      rw [if_neg Bool.false_ne_true]
      cases hvalid :
        validatePermissions env (some user) options.roles (options.requireAll.getD false) with
      | true => simp [hvalid]
      | false => simp [hvalid]

/-- **Spec.** A request with a project token is let through by the token alone, or by the roles of
the token and the user together. -/
theorem letsThrough_token_iff (htoken : hasProjectToken request = true) :
    LetsThrough env jwtService (some options) request ↔
      projectTokenSatisfies options.roles (options.requireAll.getD false) = true ∨
      ∃ user, readUser jwtService options.roles request = .ok user ∧
        Meets (heldWithToken user) options.roles (options.requireAll.getD false) := by
  unfold LetsThrough canActivate
  dsimp only
  rw [htoken, Bool.true_and]
  cases projectTokenSatisfies options.roles (options.requireAll.getD false) with
  | true => simp
  | false =>
      rw [if_neg Bool.false_ne_true]
      cases readUser jwtService options.roles request with
      | error e => simp
      | ok user =>
          dsimp only
          rw [if_pos rfl]
          simp only [Bool.false_eq_true, false_or, Except.ok.injEq, exists_eq_left',
            ← combinedSatisfies_iff]
          cases combinedSatisfies user options.roles (options.requireAll.getD false) with
          | true => simp
          | false => simp

/-- The user is read without regard to the token. -/
theorem readUser_withToken (token : Option String) :
    readUser jwtService roles { request with projectToken := token } = .ok user ↔
      readUser jwtService roles request = .ok user := by
  unfold readUser
  dsimp only
  cases request.user with
  | some set => exact Iff.rfl
  | none =>
      dsimp only
      cases (truthy request.authorization).or (truthy request.capitalAuthorization) with
      | none =>
          dsimp only
          constructor
          · intro h
            split at h <;> cases h
          · intro h
            split at h <;> cases h
      | some authHeader => exact Iff.rfl

/-! ### More credentials -/

/-- A user with more API roles; the stamp role is not among the new ones. -/
structure MoreRoles (user user' : JwtPayload) : Prop where
  roles : extractApiRoles user ⊆ extractApiRoles user'
  stamp : defaultPermissionsConfig.stampRole ∈ extractApiRoles user' →
    defaultPermissionsConfig.stampRole ∈ extractApiRoles user

/-- Every JWT that is decoded is decoded to a user with more roles. -/
def DecodesMore (jwtService jwtService' : JwtService) : Prop :=
  ∀ text user, jwtService.decode text = .ok (some user) →
    ∃ user', jwtService'.decode text = .ok (some user') ∧ MoreRoles user user'

/-- A credential more does not take access away from the request: neither a project token, nor a
user with more roles. -/
structure KeepsAccess (env : ProcessEnv) (jwtService : JwtService)
    (permissionsOptions : Option RequirePermissionsOptions) (request : PermissionsRequest) :
    Prop where
  token : hasProjectToken request = false →
    LetsThrough env jwtService permissionsOptions request → ∀ token, token ≠ "" →
    LetsThrough env jwtService permissionsOptions { request with projectToken := some token }
  roles : ∀ jwtService' user', DecodesMore jwtService jwtService' →
    Option.Rel MoreRoles request.user user' →
    LetsThrough env jwtService permissionsOptions request →
    LetsThrough env jwtService' permissionsOptions { request with user := user' }

theorem MoreRoles.isPermissionsEnabled (h : MoreRoles user user') :
    PermissionsService.isPermissionsEnabled env user' = true →
      PermissionsService.isPermissionsEnabled env user = true := by
  unfold PermissionsService.isPermissionsEnabled
  dsimp only
  split
  · exact id
  · intro hstamp
    exact List.contains_iff_mem.mpr (h.stamp (List.contains_iff_mem.mp hstamp))

theorem MoreRoles.validatePermissions (h : MoreRoles user user')
    (hvalid : PermissionsService.validatePermissions env (some user) roles requireAll = true) :
    PermissionsService.validatePermissions env (some user') roles requireAll = true := by
  rw [validatePermissions_iff] at hvalid ⊢
  rcases hvalid with hdisabled | hnone | hmeets
  · left
    by_contra hnot
    rw [Bool.not_eq_false] at hnot
    rw [h.isPermissionsEnabled hnot] at hdisabled
    cases hdisabled
  · exact .inr (.inl hnone)
  · exact .inr (.inr (hmeets.mono h.roles))

/-- The user that is read has more roles. -/
theorem readUser_more {jwtService' : JwtService} {set' : Option JwtPayload}
    (hdecode : DecodesMore jwtService jwtService') (hset : Option.Rel MoreRoles request.user set')
    (h : readUser jwtService roles request = .ok user) :
    ∃ user', readUser jwtService' roles { request with user := set' } = .ok user' ∧
      MoreRoles user user' := by
  unfold readUser at h ⊢
  dsimp only
  generalize hold : request.user = old at h hset
  cases hset with
  | some hmore =>
      obtain rfl := Except.ok.inj h
      exact ⟨_, rfl, hmore⟩
  | none =>
      dsimp only at h ⊢
      cases hheader : (truthy request.authorization).or (truthy request.capitalAuthorization) with
      | none =>
          rw [hheader] at h
          dsimp only at h
          split at h <;> cases h
      | some authHeader =>
          rw [hheader] at h
          dsimp only at h ⊢
          split at h
          · rename_i decoded hdecoded
            obtain rfl := Except.ok.inj h
            obtain ⟨user', hdecoded', hmore⟩ := hdecode _ _ hdecoded
            rw [hdecoded']
            exact ⟨user', rfl, hmore⟩
          · cases h

/-- More roles never take access away. -/
theorem letsThrough_more {permissionsOptions : Option RequirePermissionsOptions}
    {jwtService' : JwtService} {set' : Option JwtPayload}
    (hdecode : DecodesMore jwtService jwtService') (hset : Option.Rel MoreRoles request.user set')
    (h : LetsThrough env jwtService permissionsOptions request) :
    LetsThrough env jwtService' permissionsOptions { request with user := set' } := by
  cases permissionsOptions with
  | none => exact letsThrough_none
  | some options =>
      cases htoken : hasProjectToken request with
      | false =>
          obtain ⟨user, hread, hvalid⟩ := (letsThrough_user_iff htoken).mp h
          obtain ⟨user', hread', hmore⟩ := readUser_more hdecode hset hread
          refine (letsThrough_user_iff ?_).mpr ⟨user', hread', hmore.validatePermissions hvalid⟩
          exact htoken
      | true =>
          have htoken' : hasProjectToken { request with user := set' } = true := htoken
          rw [letsThrough_token_iff htoken']
          rcases (letsThrough_token_iff htoken).mp h with hsatisfies | ⟨user, hread, hmeets⟩
          · exact .inl hsatisfies
          · obtain ⟨user', hread', hmore⟩ := readUser_more hdecode hset hread
            refine .inr ⟨user', hread', hmeets.mono ?_⟩
            exact List.append_subset.mpr ⟨List.subset_append_left _ _,
              List.subset_append_of_subset_right _ hmore.roles⟩

/-- **Main result.** A credential more takes no access away exactly where the user's roles and
those of a project token meet what is asked for, or the user is let through by its roles. -/
theorem keepsAccess_iff (env : ProcessEnv) (jwtService : JwtService)
    (permissionsOptions : Option RequirePermissionsOptions) (request : PermissionsRequest) :
    KeepsAccess env jwtService permissionsOptions request ↔
      (hasProjectToken request = false → ∀ options user, permissionsOptions = some options →
        readUser jwtService options.roles request = .ok user →
        Meets (heldWithToken user) options.roles (options.requireAll.getD false) ∨
          (isPermissionsEnabled env user = true ∧ options.roles ≠ [])) := by
  constructor
  · rintro h htoken options user rfl hread
    by_cases hroles : isPermissionsEnabled env user = true ∧ options.roles ≠ []
    · exact .inr hroles
    · left
      have hvalid : validatePermissions env (some user) options.roles
          (options.requireAll.getD false) = true := by
        rw [validatePermissions_iff]
        by_cases henabled : isPermissionsEnabled env user = true
        · exact .inr (.inl (by simpa [henabled] using hroles))
        · exact .inl (by simpa using henabled)
      have hthrough := h.token htoken ((letsThrough_user_iff htoken).mpr ⟨user, hread, hvalid⟩)
        "token" (by decide)
      rw [letsThrough_token_iff rfl] at hthrough
      rcases hthrough with hsatisfies | ⟨user', hread', hmeets⟩
      · exact meets_of_projectTokenSatisfies hsatisfies user
      · rw [readUser_withToken, hread] at hread'
        obtain rfl := Except.ok.inj hread'
        exact hmeets
  · intro h
    refine ⟨fun htoken hthrough token hne => ?_, fun jwtService' user' => letsThrough_more⟩
    cases permissionsOptions with
    | none => exact letsThrough_none
    | some options =>
        obtain ⟨user, hread, hvalid⟩ := (letsThrough_user_iff htoken).mp hthrough
        have hhas : hasProjectToken { request with projectToken := some token } = true := by
          simp [hasProjectToken, truthy, hne]
        refine (letsThrough_token_iff hhas).mpr (.inr ⟨user, (readUser_withToken _).mpr hread, ?_⟩)
        rcases h htoken options user rfl hread with hmeets | ⟨henabled, hroles⟩
        · exact hmeets
        · -- permissions are enabled and roles are asked for: the user has them
          rcases validatePermissions_iff.mp hvalid with hdisabled | hnone | hmeets
          · rw [henabled] at hdisabled
            cases hdisabled
          · exact absurd hnone hroles
          · exact hmeets.mono (List.subset_append_right _ _)

/-! ### A user without roles -/

def anyUser : PermissionsRequest := ⟨some ⟨none⟩, none, none, none⟩

def asksForUsers : RequirePermissionsOptions := ⟨[.manageUsers], none⟩

/-- Where permissions are not enabled a project token takes the access away. -/
theorem anyUser_loses_access :
    ¬ KeepsAccess (fun _ => none) ⟨fun _ => .ok none⟩ (some asksForUsers) anyUser := by
  intro h
  obtain ⟨after, hafter⟩ := h.token rfl ⟨anyUser, by decide +kernel⟩ "token" (by decide)
  exact nomatch hafter

end PermissionsGuard

end UploadService
