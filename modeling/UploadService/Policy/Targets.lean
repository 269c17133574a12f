import UploadService.Policy.Associations

/-!
# Who may target a release, and who may change a policy

A policy should be associated only with releases of projects the requester has access
to, and only someone with access to one of its projects should change it. The guard
checks the project names of the request; the rule service prefers the project id, and
an update checks nothing of what is stored.

Main results:

- `policy_targets_authorised_iff`: the targets of a policy are authorised exactly when
  those that the guard does not look at are;
- `policy_update_authorised_iff`: an update is one by a user of the policy's projects
  exactly when the user has access already or something else refuses it.
-/

namespace UploadService

open Prog RuleService

/-! ### Requests -/

/-- A creation or an update of a policy. -/
inductive PolicyRequest where
  | create (dto : CreatePolicyDto)
  | update (request : UpdatePolicyRequest)

namespace PolicyRequest

/-- The handler, behind its guard. -/
def run (access : AccessService) (env : RuleEnv) (headers : Headers) :
    PolicyRequest → RuleProg RuleDefinition
  | create dto => PolicyController.createPolicy access env headers dto
  | update request => PolicyController.updatePolicy access env headers request

/-- The association the handler works on; an update may have none. -/
def association : PolicyRequest → Option RuleAssociationDto
  | create dto => dto.association
  | update request => request.body.data.bind (·.association)

/-- The entries of its releases. -/
def entries (request : PolicyRequest) : List ReleaseIdentifierDto :=
  (request.association.bind (·.releases)).getD []

/-- The project names the guard takes from the request. -/
def checkedNames : PolicyRequest → List (Option String)
  | create dto => match PolicyController.createPolicyNames dto with
    | .ok names => names
    | .error _ => []
  | update request => PolicyController.updatePolicyNames request

end PolicyRequest

/-- A release is one the rule is associated with. -/
def AssociatedWith (db : RuleDb) (ruleId : String) (r : Release) : Prop :=
  r ∈ db.releases ∧ ∃ a ∈ db.ruleReleases, a.ruleId = ruleId ∧ a.releaseCatalogId = r.catalogId

/-- Every release the policy is associated with belongs to a project the requester has
access to. -/
def TargetsAuthorised (access : AccessService) (headers : Headers) (db : RuleDb)
    (policyId : String) : Prop :=
  ∀ r, AssociatedWith db policyId r → HasAccess access headers r.projectId

/-- The guard does not look at the project of the entry: the entry has a project id, or a
name the guard did not check, or a name that the guard may have taken for an id. -/
def Unchecked (access : AccessService) (headers : Headers) (db : RuleDb) (request : PolicyRequest)
    (e : ReleaseIdentifierDto) : Prop :=
  usedProjectId e ≠ none ∨ e.projectName ∉ request.checkedNames ∨
  ∃ project ∈ db.projects, HasAccess access headers project.id ∧
    e.projectName = some (toString project.id)

/-- The releases one entry asks for. -/
def entryMatches (db : RuleDb) (e : ReleaseIdentifierDto) (r : Release) : Bool :=
  match releaseCondition e with
  | some c => c.matches db.projects r
  | none => false

/-- What the guard does not look at is authorised: the projects of unchecked entries, and
the stored releases where an update brings no association. -/
def UncheckedAuthorised (access : AccessService) (headers : Headers) (db : RuleDb)
    (request : PolicyRequest) : Prop :=
  (∀ e ∈ uniqueReleases request.entries, Unchecked access headers db request e →
    ∀ r ∈ db.releases, entryMatches db e r = true → HasAccess access headers r.projectId) ∧
  match request with
  | .create _ => True
  | .update body => request.association = none → TargetsAuthorised access headers db body.body.id

theorem mem_requestedReleases {db : RuleDb} {entries : List ReleaseIdentifierDto} {r : Release} :
    r ∈ requestedReleases db entries ↔
      r ∈ db.releases ∧ ∃ e ∈ uniqueReleases entries, entryMatches db e r = true := by
  unfold requestedReleases
  rw [List.mem_filter, List.any_eq_true]
  refine and_congr_right fun _ => ?_
  constructor
  · rintro ⟨c, hc, hmatch⟩
    obtain ⟨e, he, hcond⟩ := List.mem_filterMap.mp hc
    refine ⟨e, he, ?_⟩
    unfold entryMatches
    rw [hcond]
    exact hmatch
  · rintro ⟨e, he, hmatch⟩
    unfold entryMatches at hmatch
    split at hmatch
    · rename_i c hcond
      exact ⟨c, List.mem_filterMap.mpr ⟨e, he, hcond⟩, hmatch⟩
    · cases hmatch

/-! ### One entry -/

/-- An entry without a project id is found by its name. -/
theorem entryMatches_name {db : RuleDb} {e : ReleaseIdentifierDto} {r : Release}
    (hid : usedProjectId e = none) (h : entryMatches db e r = true) :
    ∃ name, e.projectName = some name ∧
      ∃ project ∈ db.projects, project.id = r.projectId ∧ project.name = name := by
  unfold entryMatches releaseCondition at h
  rw [hid] at h
  cases hname : e.projectName with
  | none => simp [hname, truthy] at h
  | some name =>
      refine ⟨name, rfl, ?_⟩
      by_cases hempty : name = ""
      · simp [hname, truthy, hempty] at h
      · simp only [hname, truthy, if_neg hempty, ReleaseCondition.matches, Bool.and_eq_true,
          List.any_eq_true, beq_iff_eq] at h
        obtain ⟨⟨project, hmem, hproj⟩, -⟩ := h
        exact ⟨project, hmem, hproj⟩

/-- **The guard is enough** for an entry it looks at. -/
theorem hasAccess_of_checked {access : AccessService} {headers : Headers} {db : RuleDb}
    {request : PolicyRequest} (hsound : access.Sound db.projects) (hdb : db.Constraints)
    (hguard : ∀ n ∈ request.checkedNames, ProjectAccessGuard.hasAccess access headers n = true)
    {e : ReleaseIdentifierDto} (hchecked : ¬ Unchecked access headers db request e) {r : Release}
    (hmatch : entryMatches db e r = true) : HasAccess access headers r.projectId := by
  simp only [Unchecked, not_or, not_not] at hchecked
  obtain ⟨hid, hname, hnoId⟩ := hchecked
  obtain ⟨name, he, project, hproject, hpid, hpname⟩ := entryMatches_name hid hmatch
  obtain ⟨verified, hverified, hnamed, hhas⟩ := hsound.hasAccess (hguard _ (he ▸ hname))
  rcases hnamed with hn | hn
  · have hsame := hdb.projectNames.eq_of_mem hverified hproject (hn.trans hpname.symm)
    rw [← hpid, ← hsame]
    exact hhas
  · exact absurd ⟨verified, hverified, hhas, by rw [he, hn]⟩ hnoId

/-! ### What a successful request leaves -/

/-- The releases of the policy after a request that passed the guard and succeeded. -/
theorem PolicyRequest.run_ok {access : AccessService} {env : RuleEnv} {headers : Headers}
    {request : PolicyRequest} {db db' : RuleDb} {definition : RuleDefinition}
    (h : request.run access env headers db = (.ok definition, db')) :
    (∀ n ∈ request.checkedNames, ProjectAccessGuard.hasAccess access headers n = true) ∧
    match request with
    | .create _ => definition.id = env.uuid ∧
        (∀ rule ∈ db.rules, rule.id ≠ env.uuid) ∧
        Retargeted env.uuid db.ruleReleases (requestedReleases db request.entries) db db'
    | .update body => definition.id = body.body.id ∧ ∃ data, body.body.data = some data ∧
        Retargeted body.body.id (keptReleases db body.body.id data) (addedReleases db data) db db' := by
  cases request with
  | create dto =>
      obtain ⟨_, db₁, hcheck, h₁⟩ := bind_ok_inv h
      simp only [PolicyService.check, Prod.mk.injEq] at hcheck
      obtain ⟨hnames, rfl⟩ := hcheck
      obtain ⟨loaded, db₂, hcreate, h₂⟩ := bind_ok_inv h₁
      simp only [pure_run, Prod.mk.injEq, Except.ok.injEq] at h₂
      obtain ⟨rfl, rfl⟩ := h₂
      obtain ⟨association, hassoc, hid, hfresh, hretargeted, -⟩ := createRule_ok hcreate
      have hdto : dto.association = some association := hassoc
      refine ⟨fun n hn => ?_, hid, hfresh, ?_⟩
      · simp only [checkedNames] at hn
        cases hextract : PolicyController.createPolicyNames dto with
        | error e => simp [hextract] at hn
        | ok names =>
            simp only [hextract] at hn
            rw [hextract] at hnames
            exact (ProjectAccessGuard.validateProjectList_ok.mp hnames).2 n hn
      · have hentries : (create dto).entries = association.releases.getD [] := by
          simp [entries, PolicyRequest.association, hdto]
        rw [hentries]
        exact hretargeted
  | update body =>
      obtain ⟨_, db₁, hcheck, h₁⟩ := bind_ok_inv h
      simp only [PolicyService.check, Prod.mk.injEq] at hcheck
      obtain ⟨hnames, rfl⟩ := hcheck
      refine ⟨(ProjectAccessGuard.validateProjectList_ok.mp hnames).2, ?_⟩
      cases hdata : body.body.data with
      | none =>
          simp only [hdata] at h₁
          obtain ⟨_, _, _, h₂⟩ := bind_ok_inv h₁
          simp at h₂
      | some data =>
          simp only [hdata] at h₁
          obtain ⟨loaded, db₂, hupdate, h₂⟩ := bind_ok_inv h₁
          simp only [pure_run, Prod.mk.injEq, Except.ok.injEq] at h₂
          obtain ⟨rfl, rfl⟩ := h₂
          rcases updateRule_run env body.body.id data db with
            ⟨-, loaded', db₃, hrun, hid, hretargeted⟩ | ⟨-, e, db₃, hrun⟩
          · rw [hrun] at hupdate
            simp only [Prod.mk.injEq, Except.ok.injEq] at hupdate
            obtain ⟨rfl, rfl⟩ := hupdate
            exact ⟨hid, data, hdata, hretargeted⟩
          · rw [hrun] at hupdate
            simp at hupdate

/-- The releases of a rule whose kept rows are none of its own are the added ones. -/
theorem Retargeted.associatedWith_iff {id : String} {kept : List RuleRelease}
    {added : List Release} {db db' : RuleDb} (h : Retargeted id kept added db db')
    (hdb : db.Constraints) (hadded : ∀ r ∈ added, r ∈ db.releases)
    (hkept : ∀ a ∈ kept, a.ruleId ≠ id) (r : Release) : AssociatedWith db' id r ↔ r ∈ added := by
  unfold AssociatedWith
  rw [h.releases, h.ruleReleases]
  constructor
  · rintro ⟨hr, a, ha, haid, hcat⟩
    rcases List.mem_append.mp ha with ha | ha
    · exact absurd haid (hkept a ha)
    · obtain ⟨r', hr', rfl⟩ := List.mem_map.mp ha
      rwa [← hdb.releaseKeys.eq_of_mem (hadded r' hr') hr hcat]
  · intro hr
    exact ⟨hadded r hr, _, List.mem_append_right _ (List.mem_map.mpr ⟨r, hr, rfl⟩), rfl, rfl⟩

theorem requestedReleases_subset {db : RuleDb} {entries : List ReleaseIdentifierDto} :
    ∀ r ∈ requestedReleases db entries, r ∈ db.releases :=
  fun _ hr => (mem_requestedReleases.mp hr).1

/-- The requested releases are authorised exactly when those of unchecked entries are. -/
theorem requested_authorised_iff {access : AccessService} {headers : Headers} {db : RuleDb}
    (request : PolicyRequest) (hsound : access.Sound db.projects) (hdb : db.Constraints)
    (hguard : ∀ n ∈ request.checkedNames, ProjectAccessGuard.hasAccess access headers n = true) :
    (∀ r ∈ requestedReleases db request.entries, HasAccess access headers r.projectId) ↔
      ∀ e ∈ uniqueReleases request.entries, Unchecked access headers db request e →
        ∀ r ∈ db.releases, entryMatches db e r = true → HasAccess access headers r.projectId := by
  constructor
  · intro h e he _ r hr hmatch
    exact h r (mem_requestedReleases.mpr ⟨hr, e, he, hmatch⟩)
  · intro h r hr
    obtain ⟨hmem, e, he, hmatch⟩ := mem_requestedReleases.mp hr
    by_cases hun : Unchecked access headers db request e
    · exact h e he hun r hmem hmatch
    · exact hasAccess_of_checked hsound hdb hguard hun hmatch

/-- **Main result.** After a request that the guard lets through and that succeeds, the
releases of the policy all belong to projects the requester has access to exactly when
that is so of what the guard does not look at. -/
theorem policy_targets_authorised_iff (access : AccessService) (env : RuleEnv) (headers : Headers)
    (request : PolicyRequest) (db db' : RuleDb) (definition : RuleDefinition)
    (hsound : access.Sound db.projects) (hdb : db.Constraints)
    (h : request.run access env headers db = (.ok definition, db')) :
    TargetsAuthorised access headers db' definition.id ↔
      UncheckedAuthorised access headers db request := by
  obtain ⟨hguard, hrun⟩ := request.run_ok h
  have hentries := requested_authorised_iff request hsound hdb hguard
  unfold TargetsAuthorised UncheckedAuthorised
  cases request with
  | create dto =>
      obtain ⟨hid, hfresh, hretargeted⟩ := hrun
      have hassociated := hretargeted.associatedWith_iff hdb requestedReleases_subset (by
        intro a ha heq
        obtain ⟨rule, hrule, hruleId⟩ := hdb.ruleReleases a ha
        exact hfresh rule hrule (hruleId.trans heq))
      simp only [hid, hassociated, hentries, and_true]
  | update body =>
      obtain ⟨hid, data, hdata, hretargeted⟩ := hrun
      cases hassoc : data.association with
      | none =>
          have hnone : (PolicyRequest.update body).association = none := by
            simp [PolicyRequest.association, hdata, hassoc]
          have hsame : ∀ r, AssociatedWith db' body.body.id r ↔ AssociatedWith db body.body.id r := by
            intro r
            unfold AssociatedWith
            rw [hretargeted.releases, hretargeted.ruleReleases]
            simp [keptReleases, addedReleases, hassoc]
          have hempty : (PolicyRequest.update body).entries = [] := by
            simp [PolicyRequest.entries, hnone]
          rw [hempty]
          simp [hid, hsame, hnone, TargetsAuthorised, uniqueReleases]
      | some association =>
          have hsome : (PolicyRequest.update body).association = some association := by
            simp [PolicyRequest.association, hdata, hassoc]
          have hadded : addedReleases db data =
              requestedReleases db (PolicyRequest.update body).entries := by
            simp [addedReleases, hassoc, PolicyRequest.entries, hsome]
          rw [hadded] at hretargeted
          have hassociated := hretargeted.associatedWith_iff hdb requestedReleases_subset (by
            intro a ha
            simp only [keptReleases, hassoc] at ha
            simpa using (Rows.mem_deleteWhere.mp ha).2)
          simp only [hid, hassociated, hentries, hsome, reduceCtorEq, false_implies, and_true]

/-! ### A small world -/

/-- Two projects with one release each, and a policy on the release of the second. -/
def smallPolicyDb : RuleDb where
  projects := [⟨1, "one", .application⟩, ⟨2, "two", .application⟩]
  releases := [
    { Release.create 1 "1.0" with catalogId := "1.one@1.0" },
    { Release.create 2 "1.0" with catalogId := "2.two@1.0" }]
  deviceTypes := []
  deviceIds := []
  ruleFields := []
  rules := [⟨"policy-2", "two only", none, .policy, 1, true, false, .map [], 0, 0⟩]
  ruleReleases := [⟨"policy-2", "2.two@1.0"⟩]
  ruleDeviceTypes := []
  ruleDevices := []
  ruleOs := []

/-- `eve` is a member of the first project; no token is valid. -/
def smallAccess : AccessService where
  getMemberInProject := fun identifier email =>
    if email = "eve" ∧ identifier ∈ [some (.name "one"), some (.name "1"), some (.id 1)] then
      .ok (some ⟨some ⟨1, "one", .application⟩, "project-member"⟩)
    else .ok none
  getProjectFromToken := fun _ => .error (.unauthorized "jwt malformed")
  getUserProjectIds := fun email => .ok (if email = "eve" then [1] else [])
  getProjectIdsByNames := fun names =>
    .ok ((smallPolicyDb.projects.filter fun p => names.contains p.name).map (·.id))

/-- An engine that takes every rule. -/
def smallRuleEnv : RuleEnv where
  uuid := "new"
  now := 1
  jsonParse := fun _ => none
  engineError := fun _ => none

def eve : Headers := ⟨some "eve", none⟩

def newPolicy (entries : List ReleaseIdentifierDto) : PolicyRequest :=
  .create ⟨"mine", none, some ⟨some entries, none, none, none⟩, none, none, .map []⟩

theorem smallAccess_sound : smallAccess.Sound smallPolicyDb.projects where
  token := by
    intro token project h
    simp [smallAccess] at h
  member := by
    intro identifier email member project h hproject
    simp only [smallAccess] at h
    split at h
    · rename_i hcond
      obtain ⟨rfl, hidentifier⟩ := hcond
      obtain rfl := Option.some.inj (Except.ok.inj h)
      obtain rfl := Option.some.inj hproject
      refine ⟨by decide, fun i hi => ?_, _, rfl, by decide⟩
      subst hi
      simp only [List.mem_cons, List.not_mem_nil, or_false, Option.some.injEq] at hidentifier
      rcases hidentifier with rfl | rfl | rfl
      · exact .inl rfl
      · exact .inr (by decide)
      · rfl
    · cases h

theorem smallPolicyDb_constraints : smallPolicyDb.Constraints where
  releaseKeys := by decide
  projectNames := by decide
  ruleKeys := by decide
  ruleReleases := by decide

theorem eve_access {projectId : ℕ} : HasAccess smallAccess eve projectId ↔ projectId = 1 := by
  constructor
  · rintro (⟨project, hproject, -⟩ | ⟨email, ids, hemail, hids, hmem⟩)
    · cases hproject
    · obtain rfl := Option.some.inj hemail
      obtain rfl := Except.ok.inj hids
      simpa using hmem
  · rintro rfl
    exact .inr ⟨"eve", [1], rfl, rfl, by decide⟩

theorem policy_of_own_release_authorised :
    TargetsAuthorised smallAccess eve
      ((newPolicy [⟨none, some "one", some "1.0"⟩]).run smallAccess smallRuleEnv eve smallPolicyDb).2
      "new" := by
  refine (policy_targets_authorised_iff smallAccess smallRuleEnv eve
    (newPolicy [⟨none, some "one", some "1.0"⟩]) smallPolicyDb _ _ smallAccess_sound
    smallPolicyDb_constraints rfl).mpr ⟨?_, trivial⟩
  intro e he _ r hr hmatch
  have hone : ∀ e ∈ uniqueReleases (newPolicy [⟨none, some "one", some "1.0"⟩]).entries,
      ∀ r ∈ smallPolicyDb.releases, entryMatches smallPolicyDb e r = true → r.projectId = 1 := by
    decide
  exact eve_access.mpr (hone e he r hr hmatch)

/-- The guard checks the name `one`, the rule service takes the id `2`: the new policy is
associated with the release of a project its author has no access to. -/
theorem policy_targets_by_project_id :
    ∃ definition db', (newPolicy [⟨some "2", some "one", some "1.0"⟩]).run smallAccess smallRuleEnv
      eve smallPolicyDb = (.ok definition, db') ∧
      ¬ TargetsAuthorised smallAccess eve db' definition.id := by
  refine ⟨_, _, rfl, fun h => ?_⟩
  have htwo := h { Release.create 2 "1.0" with catalogId := "2.two@1.0" } ⟨by decide, by decide⟩
  rw [eve_access] at htwo
  exact absurd htwo (by decide)

/-! ### Updates -/

/-- The condition under which the user may read and delete the policy as it is stored. -/
def MayRead (access : AccessService) (headers : Headers) (id : String) (db : RuleDb) : Prop :=
  ∃ policy, (PolicyService.getPolicyForUser access id headers.email db).1 = .ok policy

/-- The request gets through: the guard accepts the project names it brings itself, and the
rule service accepts the rest. -/
def UpdatePasses (access : AccessService) (env : RuleEnv) (headers : Headers)
    (request : UpdatePolicyRequest) (db : RuleDb) : Prop :=
  PolicyController.updatePolicyNames request ≠ [] ∧
  (∀ n ∈ PolicyController.updatePolicyNames request,
    ProjectAccessGuard.hasAccess access headers n = true) ∧
  ∃ data, request.body.data = some data ∧ UpdateAccepted env db request.body.id data

theorem updatePolicy_ok_iff (access : AccessService) (env : RuleEnv) (headers : Headers)
    (request : UpdatePolicyRequest) (db : RuleDb) :
    (∃ definition db', PolicyController.updatePolicy access env headers request db =
      (.ok definition, db')) ↔ UpdatePasses access env headers request db := by
  unfold UpdatePasses
  constructor
  · rintro ⟨definition, db', h⟩
    obtain ⟨_, db₁, hcheck, h₁⟩ := bind_ok_inv h
    simp only [PolicyService.check, Prod.mk.injEq] at hcheck
    obtain ⟨hnames, rfl⟩ := hcheck
    obtain ⟨hne, hall⟩ := ProjectAccessGuard.validateProjectList_ok.mp hnames
    refine ⟨hne, hall, ?_⟩
    cases hdata : request.body.data with
    | none =>
        simp only [hdata] at h₁
        obtain ⟨_, _, _, h₂⟩ := bind_ok_inv h₁
        simp at h₂
    | some data =>
        refine ⟨data, rfl, ?_⟩
        simp only [hdata] at h₁
        obtain ⟨loaded, db₂, hupdate, -⟩ := bind_ok_inv h₁
        rcases updateRule_run env request.body.id data db with ⟨haccepted, -⟩ | ⟨-, e, db₃, hrun⟩
        · exact haccepted
        · rw [hrun] at hupdate
          simp at hupdate
  · rintro ⟨hne, hall, data, hdata, haccepted⟩
    have hcheck : PolicyService.check (ProjectAccessGuard.validateProjectList access headers
        (PolicyController.updatePolicyNames request)) db = (.ok (), db) := by
      rw [ProjectAccessGuard.validateProjectList_ok.mpr ⟨hne, hall⟩]
      rfl
    rcases updateRule_run env request.body.id data db with
      ⟨-, loaded, db', hrun, -, -⟩ | ⟨hnot, -⟩
    · refine ⟨ruleEntityToDefinition loaded, db', ?_⟩
      unfold PolicyController.updatePolicy
      rw [bind_run_ok hcheck]
      simp only [hdata]
      unfold PolicyService.updatePolicy
      rw [bind_run_ok hrun]
      rfl
    · exact absurd haccepted hnot

/-- **Main result.** Whoever updates a policy had access to it before exactly when the
request does not get through for someone who had not: nothing else keeps them out. -/
theorem policy_update_authorised_iff (access : AccessService) (env : RuleEnv) (headers : Headers)
    (request : UpdatePolicyRequest) (db : RuleDb) :
    (∀ definition db', PolicyController.updatePolicy access env headers request db =
        (.ok definition, db') → MayRead access headers request.body.id db) ↔
      MayRead access headers request.body.id db ∨ ¬ UpdatePasses access env headers request db := by
  rw [← updatePolicy_ok_iff]
  constructor
  · intro h
    by_cases hread : MayRead access headers request.body.id db
    · exact .inl hread
    · exact .inr fun ⟨definition, db', hok⟩ => hread (h definition db' hok)
  · rintro (hread | hnot) definition db' hok
    · exact hread
    · exact absurd ⟨definition, db', hok⟩ hnot

/-- An update of the policy of project `two` that names a release of project `one`. -/
def takeOver : UpdatePolicyRequest where
  body := ⟨"policy-2", some
    ⟨none, none, some ⟨some [⟨none, some "one", some "1.0"⟩], none, none, none⟩, some false, none, none⟩⟩
  value := none

/-- A user without access to the policy of project `two` takes it over for project `one`. -/
theorem policy_taken_over :
    (∃ definition db', PolicyController.updatePolicy smallAccess smallRuleEnv eve takeOver
      smallPolicyDb = (.ok definition, db')) ∧
    ¬ MayRead smallAccess eve "policy-2" smallPolicyDb := by
  refine ⟨⟨_, _, rfl⟩, fun ⟨policy, h⟩ => ?_⟩
  have hread : PolicyService.getPolicyForUser smallAccess "policy-2" eve.email smallPolicyDb =
      (.error (.unauthorized "You do not have access to this policy"), smallPolicyDb) := rfl
  rw [show eve.email = some "eve" from rfl] at h
  rw [show eve.email = some "eve" from rfl] at hread
  rw [hread] at h
  cases h

end UploadService
