import UploadService.Policy.Targets

/-!
# What a policy listing shows

`listPoliciesForUser` should show a user the policies of the projects the user is a
member of, and nothing that depends on the others. The restriction is a list of project
ids that the query applies only where it has an element.

Main results:

- `queryRule_eq_none`: under a membership the query passes over every policy of other
  projects;
- `listing_confined_iff`: the listing is confined exactly for users with a membership;
- `listing_of_stranger`: a user without memberships is shown the policies of every project.
-/

namespace UploadService

open Prog RuleService

/-- A policy of one of the projects. -/
def visible (projectIds : List ℕ) (db : RuleDb) (rule : Rule) : Bool :=
  rule.type == .policy && (releasesOf db rule.id).any fun e => projectIds.contains e.2.id

/-- The two stores differ only in rules that are no policies of the projects. -/
structure DifferElsewhere (projectIds : List ℕ) (db db' : RuleDb) : Prop where
  policies : db.rules.filter (visible projectIds db) = db'.rules.filter (visible projectIds db')
  associations : ∀ rule ∈ db.rules, visible projectIds db rule = true → load db rule = load db' rule

/-- The listing of a user shows policies of the user's projects only, and does not depend
on any others. -/
structure ListingConfined (access : AccessService) (query : PolicyQueryDto) (email : String)
    (projectIds : List ℕ) : Prop where
  confined : ∀ db policies,
    (PolicyService.listPoliciesForUser access query (some email) db).1 = .ok policies →
    ∀ policy ∈ policies, ∃ rule ∈ db.rules, rule.id = policy.id ∧
      ∃ e ∈ releasesOf db rule.id, e.2.id ∈ projectIds
  noninterference : ∀ db db', DifferElsewhere projectIds db db' →
    (PolicyService.listPoliciesForUser access query (some email) db).1 =
      (PolicyService.listPoliciesForUser access query (some email) db').1

/-! ### The query under a membership -/

theorem rowMatches_project {query : RuleQueryFilter} (hquery : query.type = some .policy) {p : ℕ}
    {ps : List ℕ} {row : JoinRow} (h : rowMatches query (some (p :: ps)) row = true) :
    ∃ e, row.release = some e ∧ e.2.id ∈ p :: ps := by
  simp only [rowMatches, restrictsProjects, hquery, beq_self_eq_true, Bool.not_true, Bool.false_or,
    Option.getD_some, Bool.and_eq_true] at h
  obtain ⟨e, he, hmem⟩ := (Option.any_eq_true _ _).mp h.1.1.1.1.1
  exact ⟨e, he, by simpa using hmem⟩

theorem mem_leftJoin {α : Type} {rows : List α} {x : α} (h : some x ∈ leftJoin rows) : x ∈ rows := by
  unfold leftJoin at h
  split at h
  · simp at h
  · simpa using h

theorem mem_joinRows {db : RuleDb} {rule : Rule} {row : JoinRow} {e : Release × Project}
    (hrow : row ∈ joinRows db rule) (he : row.release = some e) : e ∈ releasesOf db rule.id := by
  simp only [joinRows, List.mem_flatMap, List.mem_map] at hrow
  obtain ⟨release, hrelease, _, -, _, -, _, -, rfl⟩ := hrow
  exact mem_leftJoin (he ▸ hrelease)

/-- What the query returns of a rule, under a membership, is of a visible policy. -/
theorem visible_of_queryRule {db : RuleDb} {query : RuleQueryFilter}
    (hquery : query.type = some .policy) {p : ℕ} {ps : List ℕ} {rule : Rule} {loaded : LoadedRule}
    (h : queryRule db query (some (p :: ps)) rule = some loaded) :
    loaded.rule = rule ∧ rule.type = .policy ∧
      ∃ e ∈ releasesOf db rule.id, e.2.id ∈ p :: ps := by
  unfold queryRule at h
  split at h
  · rename_i hrule
    unfold entityOf at h
    split at h
    · cases h
    · rename_i hrows
      simp only [Option.some.injEq] at h
      subst h
      have htype : rule.type = .policy := by
        simp only [ruleMatches, hquery, Bool.and_eq_true, beq_iff_eq] at hrule
        exact hrule.1
      have hne : (joinRows db rule).filter (rowMatches query (some (p :: ps))) ≠ [] :=
        fun hnil => hrows (by rw [hnil]; rfl)
      obtain ⟨row, hrow⟩ := List.exists_mem_of_ne_nil _ hne
      obtain ⟨hjoin, hmatch⟩ := List.mem_filter.mp hrow
      obtain ⟨e, he, hmem⟩ := rowMatches_project hquery hmatch
      exact ⟨rfl, htype, e, mem_joinRows hjoin he, hmem⟩
  · cases h

/-- **Step.** Under a membership the query passes over what is not visible. -/
theorem queryRule_eq_none {db : RuleDb} {query : RuleQueryFilter}
    (hquery : query.type = some .policy) {p : ℕ} {ps : List ℕ} {rule : Rule}
    (h : visible (p :: ps) db rule = false) : queryRule db query (some (p :: ps)) rule = none := by
  cases hq : queryRule db query (some (p :: ps)) rule with
  | none => rfl
  | some loaded =>
      obtain ⟨-, htype, e, he, hmem⟩ := visible_of_queryRule hquery hq
      have hvisible : visible (p :: ps) db rule = true := by
        simp only [visible, htype, beq_self_eq_true, Bool.true_and, List.any_eq_true]
        exact ⟨e, he, by simpa using hmem⟩
      rw [h] at hvisible
      cases hvisible

/-- What the query makes of a rule depends on the rule's own associations only. -/
theorem queryRule_congr {db db' : RuleDb} {rule : Rule} (h : load db rule = load db' rule)
    (query : RuleQueryFilter) (projectIds : Option (List ℕ)) :
    queryRule db query projectIds rule = queryRule db' query projectIds rule := by
  have hreleases : releasesOf db rule.id = releasesOf db' rule.id := congrArg LoadedRule.releases h
  have htypes : deviceTypesOf db rule.id = deviceTypesOf db' rule.id :=
    congrArg LoadedRule.deviceTypes h
  have hdevices : devicesOf db rule.id = devicesOf db' rule.id := congrArg LoadedRule.deviceIds h
  have hos : osTypesOf db rule.id = osTypesOf db' rule.id := congrArg LoadedRule.osTypes h
  unfold queryRule joinRows
  rw [hreleases, htypes, hdevices, hos]

/-- The query sees the visible policies, in order. -/
theorem findAll_visible (db : RuleDb) {query : RuleQueryFilter} (hquery : query.type = some .policy)
    (p : ℕ) (ps : List ℕ) :
    findAll db query (some (p :: ps)) =
      ((db.rules.filter (visible (p :: ps) db)).insertionSort
        fun a b => b.createdAt ≤ a.createdAt).filterMap (queryRule db query (some (p :: ps))) := by
  have htrans : IsTrans Rule fun a b => b.createdAt ≤ a.createdAt :=
    ⟨fun _ _ _ hab hbc => le_trans hbc hab⟩
  have htotal : Std.Total fun a b : Rule => b.createdAt ≤ a.createdAt :=
    ⟨fun a b => le_total b.createdAt a.createdAt⟩
  unfold findAll
  rw [← Rows.filter_insertionSort, Rows.filterMap_filter_of_none]
  exact fun rule _ hrule => queryRule_eq_none hquery hrule

theorem findAll_congr {db db' : RuleDb} {query : RuleQueryFilter} (hquery : query.type = some .policy)
    {p : ℕ} {ps : List ℕ} (h : DifferElsewhere (p :: ps) db db') :
    findAll db query (some (p :: ps)) = findAll db' query (some (p :: ps)) := by
  rw [findAll_visible db hquery, findAll_visible db' hquery, ← h.policies]
  refine List.filterMap_congr fun rule hrule => queryRule_congr (h.associations rule ?_ ?_) _ _
  · exact (List.mem_filter.mp ((List.mem_insertionSort _).mp hrule)).1
  · exact (List.mem_filter.mp ((List.mem_insertionSort _).mp hrule)).2

theorem listPoliciesForUser_run {access : AccessService} {email : String} (hemail : email ≠ "")
    {projectIds : List ℕ} (hids : access.getUserProjectIds email = .ok projectIds)
    (query : PolicyQueryDto) (db : RuleDb) :
    (PolicyService.listPoliciesForUser access query (some email) db).1 =
      .ok (PolicyService.listPolicies db query (some projectIds)) := by
  unfold PolicyService.listPoliciesForUser
  simp only [truthy, if_neg hemail]
  unfold PolicyService.check
  rw [hids]
  rfl

/-! ### A user without memberships -/

/-- A policy that meets the query. -/
def strangerRule (query : PolicyQueryDto) : Rule :=
  ⟨"policy-1", "one only", none, .policy, 1, query.isActive.getD true, false, .map [], 0, 0⟩

/-- A store with one policy, of one project, that meets the query. -/
def strangerDb (query : PolicyQueryDto) : RuleDb where
  projects := [⟨1, "one", .application⟩]
  releases := [{ Release.create 1 "1.0" with catalogId := query.releaseId.getD "1.one@1.0" }]
  deviceTypes := [⟨query.deviceTypeId.getD 0, query.deviceTypeName.getD ""⟩]
  deviceIds := [query.deviceId.getD ""]
  ruleFields := []
  rules := [strangerRule query]
  ruleReleases := [⟨"policy-1", query.releaseId.getD "1.one@1.0"⟩]
  ruleDeviceTypes := [⟨"policy-1", query.deviceTypeId.getD 0⟩]
  ruleDevices := [⟨"policy-1", query.deviceId.getD ""⟩]
  ruleOs := [⟨"policy-1", query.osType.getD ""⟩]

theorem joinRows_strangerDb (query : PolicyQueryDto) :
    joinRows (strangerDb query) (strangerRule query) =
      [⟨some ({ Release.create 1 "1.0" with catalogId := query.releaseId.getD "1.one@1.0" },
          ⟨1, "one", .application⟩),
        some ⟨query.deviceTypeId.getD 0, query.deviceTypeName.getD ""⟩,
        some (query.deviceId.getD ""), some (query.osType.getD "")⟩] := by
  simp [joinRows, releasesOf, deviceTypesOf, devicesOf, osTypesOf, strangerDb, strangerRule,
    leftJoin, Release.create]

/-- Without a project id in the list nothing restricts the query. -/
theorem strangerDb_listed (query : PolicyQueryDto) :
    PolicyService.listPolicies (strangerDb query) query (some []) ≠ [] := by
  obtain ⟨isActive, releaseId, deviceTypeId, deviceTypeName, deviceId, osType⟩ := query
  unfold PolicyService.listPolicies findAll
  rw [show (strangerDb _).rules = [strangerRule _] from rfl, List.insertionSort_cons,
    List.insertionSort_nil, List.orderedInsert_nil, List.filterMap_cons]
  unfold queryRule
  rw [joinRows_strangerDb]
  have hrule : ruleMatches ⟨some .policy, isActive, releaseId, deviceTypeId, deviceTypeName, deviceId,
      osType⟩ (strangerRule ⟨isActive, releaseId, deviceTypeId, deviceTypeName, deviceId, osType⟩) =
      true := by
    cases isActive <;> simp [ruleMatches, strangerRule]
  have hrow : ∀ row : JoinRow,
      (∃ e, row.release = some e ∧ e.1.catalogId = releaseId.getD "1.one@1.0") →
      (row.deviceType = some ⟨deviceTypeId.getD 0, deviceTypeName.getD ""⟩) →
      row.deviceId = some (deviceId.getD "") → row.osType = some (osType.getD "") →
      rowMatches ⟨some .policy, isActive, releaseId, deviceTypeId, deviceTypeName, deviceId, osType⟩
        (some []) row = true := by
    rintro ⟨release, deviceType, device, os⟩ ⟨e, rfl, hcat⟩ rfl rfl rfl
    simp only [rowMatches, restrictsProjects]
    cases releaseId <;> cases deviceTypeId <;> cases deviceTypeName <;> cases deviceId <;>
      cases osType <;> simp_all [givenText]
  rw [if_pos hrule, List.filter_cons_of_pos (hrow _ ⟨_, rfl, rfl⟩ rfl rfl rfl)]
  simp [entityOf]

/-! ### The listing -/

/-- **Main result.** For every query, the listing of a user is confined to the user's
projects, for every database, exactly when the user is a member of some project. -/
theorem listing_confined_iff (access : AccessService) (query : PolicyQueryDto) (email : String)
    (projectIds : List ℕ) (hemail : email ≠ "")
    (hids : access.getUserProjectIds email = .ok projectIds) :
    ListingConfined access query email projectIds ↔ projectIds ≠ [] := by
  constructor
  · rintro h rfl
    obtain ⟨policy, hpolicy⟩ := List.exists_mem_of_ne_nil _ (strangerDb_listed query)
    obtain ⟨-, -, -, e, -, hmem⟩ := h.confined (strangerDb query) _
      (listPoliciesForUser_run hemail hids query _) policy hpolicy
    cases hmem
  · intro hne
    cases projectIds with
    | nil => exact absurd rfl hne
    | cons p ps =>
        refine ⟨fun db policies hrun policy hpolicy => ?_, fun db db' h => ?_⟩
        · rw [listPoliciesForUser_run hemail hids, Except.ok.injEq] at hrun
          subst hrun
          obtain ⟨loaded, hloaded, rfl⟩ := List.mem_map.mp hpolicy
          obtain ⟨rule, hrule, hquery⟩ := List.mem_filterMap.mp hloaded
          obtain ⟨hsame, -, hvisible⟩ := visible_of_queryRule rfl hquery
          exact ⟨rule, (List.mem_insertionSort _).mp hrule, by rw [← hsame]; rfl, hvisible⟩
        · rw [listPoliciesForUser_run hemail hids, listPoliciesForUser_run hemail hids]
          unfold PolicyService.listPolicies
          rw [findAll_congr rfl h]

/-- A query without filters. -/
def everyPolicy : PolicyQueryDto := ⟨none, none, none, none, none, none⟩

theorem eve_listing_confined : ListingConfined smallAccess everyPolicy "eve" [1] :=
  (listing_confined_iff smallAccess everyPolicy "eve" [1] (by decide) rfl).mpr (by decide)

/-- A user without memberships is shown the policy of project `two`. -/
theorem listing_of_stranger : ¬ ListingConfined smallAccess everyPolicy "mallory" [] := by
  intro h
  obtain ⟨-, -, -, e, -, hmem⟩ := h.confined smallPolicyDb _ rfl
    ⟨"policy-2", "two only", none, .policy, 1, true, false, .map [], 0, 0, [⟨"2", "two", "1.0"⟩],
      [], [], []⟩ (by decide)
  cases hmem

end UploadService
