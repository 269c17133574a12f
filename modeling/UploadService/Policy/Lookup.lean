import Mathlib.Data.List.Dedup
import UploadService.Policy.Listing

/-!
# Policies of one release, and of many

`getPoliciesForRelease` asks for the policies of one release; `getPoliciesForReleases` asks once for
those of many and sorts them by release. Each query also cuts the associations that it loads
with a policy, to one release and to those that were asked for.

Main results:

- `entityOf_joined`: what a query on the release makes of a rule;
- `getPoliciesForReleases_at`: the bulk lookup, read at one of its ids;
- `bulk_lookup_iff`: the two lookups agree exactly when no policy shown has a second release among
  those that were asked for, and the empty id was not asked for.
-/

namespace UploadService

open Prog RuleService

/-! ### The lookups -/

namespace RuleService

/-- The rows of `findAllForReleases`. -/
def rowRequested (catalogIds : List String) (row : JoinRow) : Bool :=
  row.release.any fun e => catalogIds.contains e.1.catalogId

/-- What `findAllForReleases` makes of one rule. -/
def queryRuleForReleases (db : RuleDb) (catalogIds : List String) (rule : Rule) : Option LoadedRule :=
  if rule.type == .policy then entityOf rule ((joinRows db rule).filter (rowRequested catalogIds))
  else none

/-- `findAllForReleases`, newest rule first. -/
def findAllForReleases (db : RuleDb) (catalogIds : List String) : List LoadedRule :=
  if catalogIds.isEmpty then []
  else (db.rules.insertionSort fun a b => b.createdAt ≤ a.createdAt).filterMap
    (queryRuleForReleases db catalogIds)

end RuleService

namespace PolicyService

/-- A push policy that is not active is not delivered. -/
def delivered (rule : Rule) : Bool := !(rule.isPush && !rule.isActive)

/-- The definition that is delivered: an active push policy is shown as inactive. -/
def deliveredDefinition (loaded : LoadedRule) : RuleDefinition :=
  if loaded.rule.isPush && loaded.rule.isActive then
    { ruleEntityToDefinition loaded with isActive := false }
  else ruleEntityToDefinition loaded

def getPoliciesForRelease (db : RuleDb) (catalogId : String) : List RuleDefinition :=
  ((findAll db ⟨some .policy, none, some catalogId, none, none, none, none⟩ none).filter
    fun loaded => delivered loaded.rule).map deliveredDefinition

/-- `result[catalogId].push(definition)`, where the id is asked for. -/
def pushDefinition (definition : RuleDefinition) (result : List (String × List RuleDefinition))
    (catalogId : String) : List (String × List RuleDefinition) :=
  match ObjectMap.get? result catalogId with
  | some definitions =>
      if catalogId = "" then result
      else ObjectMap.set result catalogId (definitions ++ [definition])
  | none => result

/-- One rule of the query is added to the result, under each release loaded with it. -/
def pushRule (result : List (String × List RuleDefinition)) (loaded : LoadedRule) :
    List (String × List RuleDefinition) :=
  if delivered loaded.rule then
    (loaded.releases.map (·.1.catalogId)).foldl (pushDefinition (deliveredDefinition loaded)) result
  else result

def getPoliciesForReleases (db : RuleDb) (catalogIds : List String) :
    List (String × List RuleDefinition) :=
  if catalogIds.isEmpty then []
  else (findAllForReleases db catalogIds).foldl pushRule
    (catalogIds.foldl (fun result id => ObjectMap.set result id []) [])

end PolicyService

open PolicyService

/-! ### What a query on the release loads -/

/-- The rows of a rule without their release. -/
def restRows (db : RuleDb) (rule : Rule) :
    List (Option DeviceType × Option String × Option String) :=
  (leftJoin (deviceTypesOf db rule.id)).flatMap fun deviceType =>
    (leftJoin (devicesOf db rule.id)).flatMap fun deviceId =>
      (leftJoin (osTypesOf db rule.id)).map fun osType => (deviceType, deviceId, osType)

theorem leftJoin_ne_nil {α : Type} (rows : List α) : leftJoin rows ≠ [] := by
  unfold leftJoin
  cases rows with
  | nil => simp
  | cons x xs => simp

theorem restRows_ne_nil (db : RuleDb) (rule : Rule) : restRows db rule ≠ [] := by
  obtain ⟨deviceType, htype⟩ := List.exists_mem_of_ne_nil _ (leftJoin_ne_nil (deviceTypesOf db rule.id))
  obtain ⟨deviceId, hdevice⟩ := List.exists_mem_of_ne_nil _ (leftJoin_ne_nil (devicesOf db rule.id))
  obtain ⟨osType, hos⟩ := List.exists_mem_of_ne_nil _ (leftJoin_ne_nil (osTypesOf db rule.id))
  apply List.ne_nil_of_mem (a := (deviceType, deviceId, osType))
  exact List.mem_flatMap.mpr ⟨_, htype, List.mem_flatMap.mpr ⟨_, hdevice, List.mem_map.mpr ⟨_, hos, rfl⟩⟩⟩

/-- A joined row from its release and the rest. -/
def joinRow (release : Option (Release × Project))
    (rest : Option DeviceType × Option String × Option String) : JoinRow :=
  ⟨release, rest.1, rest.2.1, rest.2.2⟩

theorem joinRows_eq (db : RuleDb) (rule : Rule) : joinRows db rule =
    (leftJoin (releasesOf db rule.id)).flatMap fun release =>
      (restRows db rule).map (joinRow release) := by
  unfold joinRows restRows
  apply List.flatMap_congr
  intro release _
  rw [List.map_flatMap]
  apply List.flatMap_congr
  intro deviceType _
  rw [List.map_flatMap]
  apply List.flatMap_congr
  intro deviceId _
  rw [List.map_map]
  rfl

/-- A condition on the release selects the blocks of the releases that meet it. -/
theorem filter_joinRows (db : RuleDb) (rule : Rule) (p : Release × Project → Bool) :
    ((joinRows db rule).filter fun row => row.release.any p) =
      ((releasesOf db rule.id).filter p).flatMap fun e => (restRows db rule).map (joinRow (some e)) := by
  have hblock : ∀ release : Option (Release × Project),
      ((restRows db rule).map (joinRow release)).filter (fun row => row.release.any p) =
        if release.any p then (restRows db rule).map (joinRow release) else [] := by
    intro release
    split
    · rename_i hp
      apply List.filter_eq_self.mpr
      intro row hrow
      obtain ⟨rest, -, rfl⟩ := List.mem_map.mp hrow
      exact hp
    · rename_i hp
      apply List.filter_eq_nil_iff.mpr
      intro row hrow
      obtain ⟨rest, -, rfl⟩ := List.mem_map.mp hrow
      exact hp
  rw [joinRows_eq, List.filter_flatMap]
  simp only [hblock]
  unfold leftJoin
  cases releasesOf db rule.id with
  | nil => simp
  | cons e es =>
      show ((e :: es).map some).flatMap _ = _
      rw [List.flatMap_map]
      generalize e :: es = releases
      induction releases with
      | nil => rfl
      | cons x xs ih =>
          by_cases hx : p x = true
          · rw [List.filter_cons_of_pos hx, List.flatMap_cons, List.flatMap_cons, ih]
            simp [hx]
          · rw [List.filter_cons_of_neg hx, List.flatMap_cons, ih]
            simp [hx]

/-- Repeating a list does not change which elements it has, nor their order. -/
theorem dedup_flatMap_const {α β : Type} [DecidableEq β] {xs : List α} (hne : xs ≠ []) (ys : List β) :
    (xs.flatMap fun _ => ys).dedup = ys.dedup := by
  induction xs with
  | nil => exact absurd rfl hne
  | cons x xs ih =>
      cases xs with
      | nil => simp
      | cons x' xs =>
          have hsub : ys ⊆ (x' :: xs).flatMap fun _ => ys := by
            intro y hy
            exact List.mem_flatMap.mpr ⟨x', List.mem_cons_self, hy⟩
          rw [List.flatMap_cons, List.Subset.dedup_append_right hsub]
          exact ih (by simp)

theorem dedup_map_const_append {α β : Type} [DecidableEq α] (x : α) (ws : List α) {ys : List β}
    (hne : ys ≠ []) : ((ys.map fun _ => x) ++ ws).dedup = (x :: ws).dedup := by
  induction ys with
  | nil => exact absurd rfl hne
  | cons y ys ih =>
      cases ys with
      | nil => rfl
      | cons y' ys =>
          show (x :: (((y' :: ys).map fun _ => x) ++ ws)).dedup = _
          rw [List.dedup_cons_of_mem (by simp)]
          exact ih (by simp)

/-- Repeating each element does not change the list without repetitions. -/
theorem dedup_flatMap_replicate {α β : Type} [DecidableEq α] (xs : List α) {ys : List β}
    (hne : ys ≠ []) : (xs.flatMap fun x => ys.map fun _ => x).dedup = xs.dedup := by
  induction xs with
  | nil => rfl
  | cons x xs ih =>
      have hmem : x ∈ (xs.flatMap fun x => ys.map fun _ => x) ↔ x ∈ xs := by
        rw [← List.mem_dedup, ih, List.mem_dedup]
      rw [List.flatMap_cons, dedup_map_const_append x _ hne]
      by_cases hx : x ∈ xs
      · rw [List.dedup_cons_of_mem (hmem.mpr hx), List.dedup_cons_of_mem hx, ih]
      · rw [List.dedup_cons_of_notMem fun h => hx (hmem.mp h), List.dedup_cons_of_notMem hx, ih]

/-- What a query on the release makes of a rule that passes it, where it makes anything. -/
def joined (db : RuleDb) (rule : Rule) (releases : List (Release × Project)) : LoadedRule where
  rule := rule
  releases := releases.dedup
  deviceTypes := ((restRows db rule).filterMap (·.1)).dedup
  deviceIds := ((restRows db rule).filterMap (·.2.1)).dedup
  osTypes := ((restRows db rule).filterMap (·.2.2)).dedup

theorem filterMap_blocks {γ : Type} [DecidableEq γ] {db : RuleDb} {rule : Rule}
    {releases : List (Release × Project)} (hne : releases ≠ []) {column : JoinRow → Option γ}
    {rest : Option DeviceType × Option String × Option String → Option γ}
    (h : ∀ e row, column (joinRow e row) = rest row) :
    ((releases.flatMap fun e => (restRows db rule).map (joinRow (some e))).filterMap column).dedup =
      ((restRows db rule).filterMap rest).dedup := by
  have hblock : ∀ e, ((restRows db rule).map (joinRow (some e))).filterMap column =
      (restRows db rule).filterMap rest := by
    intro e
    rw [List.filterMap_map]
    exact List.filterMap_congr fun row _ => h (some e) row
  rw [List.filterMap_flatMap]
  simp only [hblock]
  exact dedup_flatMap_const hne _

/-- **Spec.** What a query on the release makes of a rule: nothing where no release meets the
condition, and otherwise the rule with those releases and all its other associations. -/
theorem entityOf_joined (db : RuleDb) (rule : Rule) (p : Release × Project → Bool) :
    entityOf rule ((joinRows db rule).filter fun row => row.release.any p) =
      if ((releasesOf db rule.id).filter p).isEmpty then none
      else some (joined db rule ((releasesOf db rule.id).filter p)) := by
  rw [filter_joinRows]
  generalize (releasesOf db rule.id).filter p = releases
  cases releases with
  | nil => rfl
  | cons e es =>
      have hrows : ((e :: es).flatMap fun e => (restRows db rule).map (joinRow (some e))) ≠ [] := by
        obtain ⟨row, hrow⟩ := List.exists_mem_of_ne_nil _ (restRows_ne_nil db rule)
        apply List.ne_nil_of_mem (a := joinRow (some e) row)
        exact List.mem_flatMap.mpr ⟨e, List.mem_cons_self, List.mem_map_of_mem hrow⟩
      unfold entityOf
      rw [if_neg (by simpa using hrows), if_neg (by simp)]
      have hreleases : (((e :: es).flatMap fun e =>
          (restRows db rule).map (joinRow (some e))).filterMap (·.release)).dedup = (e :: es).dedup := by
        have hblock : ∀ e, ((restRows db rule).map (joinRow (some e))).filterMap (·.release) =
            (restRows db rule).map fun _ => e := by
          intro e
          rw [List.filterMap_map]
          show (restRows db rule).filterMap (fun _ => some e) = _
          exact List.filterMap_eq_map (f := fun _ => e) ▸ rfl
        rw [List.filterMap_flatMap]
        simp only [hblock]
        exact dedup_flatMap_replicate (e :: es) (restRows_ne_nil db rule)
      have htypes := @filterMap_blocks _ _ db rule (e :: es) (by simp) (·.deviceType) (·.1)
        fun _ _ => rfl
      have hdevices := @filterMap_blocks _ _ db rule (e :: es) (by simp) (·.deviceId) (·.2.1)
        fun _ _ => rfl
      have hos := @filterMap_blocks _ _ db rule (e :: es) (by simp) (·.osType) (·.2.2)
        fun _ _ => rfl
      rw [hreleases, htypes, hdevices, hos]
      rfl

/-! ### The bulk result, read at one id -/

theorem get?_pushDefinition (definition : RuleDefinition) (result : List (String × List RuleDefinition))
    (catalogId id : String) : ObjectMap.get? (pushDefinition definition result catalogId) id =
      if catalogId = id ∧ id ≠ "" then (ObjectMap.get? result id).map (· ++ [definition])
      else ObjectMap.get? result id := by
  unfold pushDefinition
  cases hget : ObjectMap.get? result catalogId with
  | none =>
      show ObjectMap.get? result id = _
      by_cases h : catalogId = id ∧ id ≠ ""
      · rw [if_pos h, ← h.1, hget]
        rfl
      · rw [if_neg h]
  | some definitions =>
      by_cases hempty : catalogId = ""
      · have hnot : ¬ (catalogId = id ∧ id ≠ "") := fun h => h.2 (h.1 ▸ hempty)
        rw [if_neg hnot]
        simp only [if_pos hempty]
      · simp only [if_neg hempty]
        rw [ObjectMap.get?_set]
        by_cases hid : id = catalogId
        · rw [if_pos hid, if_pos ⟨hid.symm, hid ▸ hempty⟩, hid, hget]
          rfl
        · rw [if_neg hid, if_neg fun h => hid h.1.symm]

/-- The definitions that one rule adds under an id. -/
def pushed (id : String) (loaded : LoadedRule) : List RuleDefinition :=
  if delivered loaded.rule ∧ id ≠ "" then
    (loaded.releases.filter fun e => e.1.catalogId == id).map fun _ => deliveredDefinition loaded
  else []

theorem get?_pushEach (definition : RuleDefinition) (releases : List (Release × Project))
    (result : List (String × List RuleDefinition)) (id : String) :
    ObjectMap.get? ((releases.map (·.1.catalogId)).foldl (pushDefinition definition) result) id =
      (ObjectMap.get? result id).map fun base => base ++
        if id ≠ "" then (releases.filter fun e => e.1.catalogId == id).map fun _ => definition
        else [] := by
  induction releases generalizing result with
  | nil =>
      show ObjectMap.get? result id = _
      cases ObjectMap.get? result id <;> simp
  | cons e releases ih =>
      rw [List.map_cons, List.foldl_cons, ih, get?_pushDefinition]
      by_cases hempty : id = ""
      · simp [hempty]
      · by_cases he : e.1.catalogId = id
        · have hboth : e.1.catalogId = id ∧ id ≠ "" := ⟨he, hempty⟩
          rw [if_pos hboth, List.filter_cons_of_pos (by simpa using he)]
          cases ObjectMap.get? result id <;> simp [hempty]
        · have hnot : ¬ (e.1.catalogId = id ∧ id ≠ "") := fun h => he h.1
          rw [if_neg hnot, List.filter_cons_of_neg (by simpa using he)]

theorem get?_pushRule (result : List (String × List RuleDefinition)) (loaded : LoadedRule)
    (id : String) : ObjectMap.get? (pushRule result loaded) id =
      (ObjectMap.get? result id).map (· ++ pushed id loaded) := by
  unfold pushRule pushed
  by_cases hdelivered : delivered loaded.rule = true
  · rw [if_pos hdelivered, get?_pushEach]
    simp [hdelivered]
  · rw [if_neg hdelivered]
    cases ObjectMap.get? result id <;> simp [hdelivered]

theorem get?_pushRules (rules : List LoadedRule) (result : List (String × List RuleDefinition))
    (id : String) : ObjectMap.get? (rules.foldl pushRule result) id =
      (ObjectMap.get? result id).map (· ++ rules.flatMap (pushed id)) := by
  induction rules generalizing result with
  | nil =>
      show ObjectMap.get? result id = _
      cases ObjectMap.get? result id <;> simp
  | cons loaded rules ih =>
      rw [List.foldl_cons, ih, get?_pushRule]
      cases ObjectMap.get? result id <;> simp

/-- Every id that is asked for starts with no policy. -/
theorem get?_emptyResult {catalogIds : List String} {id : String} (hid : id ∈ catalogIds) :
    ObjectMap.get? (catalogIds.foldl (fun result id => ObjectMap.set result id [])
      ([] : List (String × List RuleDefinition))) id = some [] := by
  have hall : ∀ (result : List (String × List RuleDefinition)),
      (id ∈ catalogIds ∨ ObjectMap.get? result id = some []) →
      ObjectMap.get? (catalogIds.foldl (fun result id => ObjectMap.set result id []) result) id =
        some [] := by
    clear hid
    induction catalogIds with
    | nil =>
        intro result h
        exact h.resolve_left (by simp)
    | cons c catalogIds ih =>
        intro result h
        rw [List.foldl_cons]
        apply ih
        by_cases hc : id = c
        · exact .inr (by rw [ObjectMap.get?_set, if_pos hc])
        · rcases h with h | h
          · exact .inl ((List.mem_cons.mp h).resolve_left hc)
          · exact .inr (by rw [ObjectMap.get?_set, if_neg hc, h])
  exact hall [] (.inl hid)

/-- **Spec.** The bulk lookup at one of its ids: what each rule of the query adds there. -/
theorem getPoliciesForReleases_at (db : RuleDb) {catalogIds : List String} {id : String}
    (hid : id ∈ catalogIds) : ObjectMap.get? (getPoliciesForReleases db catalogIds) id =
      some ((findAllForReleases db catalogIds).flatMap (pushed id)) := by
  unfold getPoliciesForReleases
  have hne : ¬ catalogIds.isEmpty = true := by
    rw [List.isEmpty_iff]
    exact List.ne_nil_of_mem hid
  rw [if_neg hne, get?_pushRules, get?_emptyResult hid]
  rfl

/-! ### Both lookups, rule by rule -/

/-- The releases of a rule that a lookup asks for. -/
def releasesAmong (db : RuleDb) (catalogIds : List String) (rule : Rule) : List (Release × Project) :=
  (releasesOf db rule.id).filter fun e => catalogIds.contains e.1.catalogId

/-- A policy that is delivered and associated with the release. -/
def deliveredFor (db : RuleDb) (id : String) (rule : Rule) : Bool :=
  rule.type == .policy && delivered rule &&
    (releasesOf db rule.id).any fun e => e.1.catalogId == id

/-- The rules in the order of both queries. -/
def newestFirst (db : RuleDb) : List Rule :=
  db.rules.insertionSort fun a b => b.createdAt ≤ a.createdAt

theorem queryRuleForReleases_eq (db : RuleDb) (catalogIds : List String) (rule : Rule) :
    queryRuleForReleases db catalogIds rule =
      if rule.type == .policy ∧ ¬ (releasesAmong db catalogIds rule).isEmpty then
        some (joined db rule (releasesAmong db catalogIds rule))
      else none := by
  have hjoined : entityOf rule ((joinRows db rule).filter (rowRequested catalogIds)) =
      if (releasesAmong db catalogIds rule).isEmpty then none
      else some (joined db rule (releasesAmong db catalogIds rule)) :=
    entityOf_joined db rule fun e => catalogIds.contains e.1.catalogId
  unfold queryRuleForReleases
  rw [hjoined]
  by_cases htype : (rule.type == .policy) = true
  · by_cases hempty : (releasesAmong db catalogIds rule).isEmpty = true
    · rw [if_pos htype, if_pos hempty, if_neg fun h => h.2 hempty]
    · rw [if_pos htype, if_neg hempty, if_pos ⟨htype, hempty⟩]
  · rw [if_neg htype, if_neg fun h => htype h.1]

/-- The query of one release is the query of many for that release alone. -/
theorem queryRule_release (db : RuleDb) {id : String} (hid : id ≠ "") (rule : Rule) :
    queryRule db ⟨some .policy, none, some id, none, none, none, none⟩ none rule =
      queryRuleForReleases db [id] rule := by
  have hrows : (joinRows db rule).filter
        (rowMatches ⟨some .policy, none, some id, none, none, none, none⟩ none) =
      (joinRows db rule).filter (rowRequested [id]) := by
    apply List.filter_congr
    intro row _
    simp only [rowMatches, restrictsProjects, givenText, rowRequested]
    cases row.release with
    | none => simp [hid]
    | some e => by_cases he : e.1.catalogId = id <;> simp [hid, he]
  unfold queryRule queryRuleForReleases
  rw [hrows]
  simp [ruleMatches]

/-- The keys that tell the releases of a rule apart. -/
structure ReleaseKeys (db : RuleDb) : Prop where
  releases : Rows.KeysDistinct Release.catalogId db.releases
  projects : Rows.KeysDistinct Project.id db.projects

theorem mem_releasesOf {db : RuleDb} {ruleId : String} {e : Release × Project}
    (h : e ∈ releasesOf db ruleId) :
    e.1 ∈ db.releases ∧ e.2 ∈ db.projects ∧ e.2.id = e.1.projectId := by
  unfold releasesOf at h
  obtain ⟨a, -, h⟩ := List.mem_flatMap.mp h
  obtain ⟨r, hr, h⟩ := List.mem_flatMap.mp h
  obtain ⟨project, hproject, rfl⟩ := List.mem_map.mp h
  exact ⟨(List.mem_filter.mp hr).1, (List.mem_filter.mp hproject).1,
    by simpa using (List.mem_filter.mp hproject).2⟩

theorem ReleaseKeys.eq_of_catalogId {db : RuleDb} (h : ReleaseKeys db) {ruleId : String}
    {e e' : Release × Project} (he : e ∈ releasesOf db ruleId) (he' : e' ∈ releasesOf db ruleId)
    (hid : e.1.catalogId = e'.1.catalogId) : e = e' := by
  obtain ⟨hr, hp, hproject⟩ := mem_releasesOf he
  obtain ⟨hr', hp', hproject'⟩ := mem_releasesOf he'
  have hrelease : e.1 = e'.1 := h.releases.eq_of_mem hr hr' hid
  apply Prod.ext hrelease
  apply h.projects.eq_of_mem hp hp'
  rw [hproject, hproject', hrelease]

/-- The one release of a rule under an id that is asked for. -/
theorem releasesAmong_filter {db : RuleDb} (h : ReleaseKeys db) {catalogIds : List String} {id : String}
    (hid : id ∈ catalogIds) {rule : Rule} {e : Release × Project} (he : e ∈ releasesOf db rule.id)
    (hcat : e.1.catalogId = id) :
    ((releasesAmong db catalogIds rule).dedup.filter fun x => x.1.catalogId == id) = [e] := by
  apply Rows.filter_eq_singleton (List.nodup_dedup _)
  · rw [List.mem_dedup]
    exact List.mem_filter.mpr ⟨he, by simpa [hcat] using hid⟩
  · simpa using hcat
  · intro x hx hxid
    have hmem := (List.mem_filter.mp (List.mem_dedup.mp hx)).1
    have hxcat : x.1.catalogId = id := by simpa using hxid
    exact h.eq_of_catalogId hmem he (hxcat.trans hcat.symm)

theorem releasesAmong_one {db : RuleDb} (h : ReleaseKeys db) {id : String} {rule : Rule}
    {e : Release × Project} (he : e ∈ releasesOf db rule.id) (hcat : e.1.catalogId = id) :
    (releasesAmong db [id] rule).dedup = [e] := by
  rw [← releasesAmong_filter h (List.mem_singleton.mpr rfl) he hcat]
  symm
  apply List.filter_eq_self.mpr
  intro x hx
  have hmem := (List.mem_filter.mp (List.mem_dedup.mp hx)).2
  simpa using hmem

/-- The rules that the bulk lookup shows under an id, each once. -/
theorem bulk_eq {db : RuleDb} (h : ReleaseKeys db) {catalogIds : List String} {id : String}
    (hid : id ∈ catalogIds) (hne : id ≠ "") :
    (findAllForReleases db catalogIds).flatMap (pushed id) =
      ((newestFirst db).filter (deliveredFor db id)).map fun rule =>
        deliveredDefinition (joined db rule (releasesAmong db catalogIds rule)) := by
  have hnot : ¬ catalogIds.isEmpty = true := by
    rw [List.isEmpty_iff]
    exact List.ne_nil_of_mem hid
  unfold findAllForReleases
  rw [if_neg hnot]
  apply Rows.flatMap_filterMap_eq
  intro rule _
  rw [queryRuleForReleases_eq]
  by_cases hany : ((releasesOf db rule.id).any fun e => e.1.catalogId == id) = true
  · obtain ⟨e, he, hcat⟩ := List.any_eq_true.mp hany
    have hcat' : e.1.catalogId = id := by simpa using hcat
    have hone := releasesAmong_filter h hid he hcat'
    have hsome : ¬ (releasesAmong db catalogIds rule).isEmpty = true := by
      rw [List.isEmpty_iff]
      apply List.ne_nil_of_mem (a := e)
      exact List.mem_filter.mpr ⟨he, by simpa [hcat'] using hid⟩
    by_cases htype : (rule.type == .policy) = true
    · rw [if_pos ⟨htype, hsome⟩]
      show pushed id (joined db rule (releasesAmong db catalogIds rule)) = _
      unfold pushed deliveredFor
      show (if delivered rule ∧ id ≠ "" then
        ((releasesAmong db catalogIds rule).dedup.filter _).map _ else []) = _
      rw [hone, htype, hany]
      by_cases hdelivered : delivered rule = true
      · simp [hdelivered, hne]
      · simp [hdelivered]
    · rw [if_neg fun hand => htype hand.1]
      simp [deliveredFor, htype]
  · have hfor : deliveredFor db id rule = false := by
      unfold deliveredFor
      rw [Bool.not_eq_true _ |>.mp hany, Bool.and_false]
    have hright : (if deliveredFor db id rule = true then
        [deliveredDefinition (joined db rule (releasesAmong db catalogIds rule))] else []) = [] :=
      if_neg (by simp [hfor])
    rw [hright]
    split
    · show pushed id (joined db rule (releasesAmong db catalogIds rule)) = []
      have hnone : ((releasesAmong db catalogIds rule).dedup.filter fun x => x.1.catalogId == id) =
          [] := by
        apply List.filter_eq_nil_iff.mpr
        intro x hx hxid
        exact hany (List.any_eq_true.mpr
          ⟨x, (List.mem_filter.mp (List.mem_dedup.mp hx)).1, hxid⟩)
      unfold pushed
      show (if _ then ((releasesAmong db catalogIds rule).dedup.filter _).map _ else []) = []
      rw [hnone]
      split
      · rfl
      · rfl
    · rfl

/-- The rules that the lookup of one release shows, each once. -/
theorem single_eq {db : RuleDb} (h : ReleaseKeys db) {id : String} (hne : id ≠ "") :
    getPoliciesForRelease db id = ((newestFirst db).filter (deliveredFor db id)).map fun rule =>
      deliveredDefinition (joined db rule (releasesAmong db [id] rule)) := by
  have hmem : id ∈ [id] := List.mem_singleton.mpr rfl
  -- a rule that the query finds has the release, so it pushes its definition once
  have hbulk := bulk_eq h hmem hne
  rw [← hbulk]
  unfold getPoliciesForRelease findAll findAllForReleases
  rw [if_neg (by simp)]
  have hqueries : (queryRule db ⟨some .policy, none, some id, none, none, none, none⟩ none) =
      queryRuleForReleases db [id] := funext fun rule => queryRule_release db hne rule
  rw [hqueries]
  generalize (db.rules.insertionSort fun a b => b.createdAt ≤ a.createdAt) = rules
  induction rules with
  | nil => rfl
  | cons rule rules ih =>
      rw [List.filterMap_cons]
      cases hquery : queryRuleForReleases db [id] rule with
      | none => exact ih
      | some loaded =>
          rw [queryRuleForReleases_eq] at hquery
          split at hquery
          · rename_i hfound
            obtain rfl := Option.some.inj hquery
            obtain ⟨e, he⟩ := List.exists_mem_of_ne_nil _ (mt List.isEmpty_iff.mpr hfound.2)
            obtain ⟨hrelease, hcat⟩ := List.mem_filter.mp he
            have hone := releasesAmong_filter h hmem hrelease (by simpa using hcat)
            have hpushed : pushed id (joined db rule (releasesAmong db [id] rule)) =
                if delivered rule then
                  [deliveredDefinition (joined db rule (releasesAmong db [id] rule))] else [] := by
              unfold pushed
              show (if delivered rule ∧ id ≠ "" then
                ((releasesAmong db [id] rule).dedup.filter _).map _ else []) = _
              rw [hone]
              simp [hne]
            rw [List.flatMap_cons, hpushed, List.filter_cons, ← ih]
            show (ite (delivered rule = true) _ _ : List LoadedRule).map _ = _
            by_cases hdelivered : delivered rule = true
            · rw [if_pos hdelivered, if_pos hdelivered]
              rfl
            · rw [if_neg hdelivered, if_neg hdelivered]
              rfl
          · cases hquery

/-! ### When the lookups agree -/

/-- No delivered policy of the release has a second release among those that are asked for, and the
empty id is asked for only where no policy is delivered. -/
def OnlyOneRequested (db : RuleDb) (catalogIds : List String) (id : String) : Prop :=
  ∀ rule ∈ db.rules, rule.type = .policy → delivered rule = true →
    id ≠ "" ∧ ((∃ e ∈ releasesOf db rule.id, e.1.catalogId = id) →
      ∀ e ∈ releasesOf db rule.id, e.1.catalogId ∈ catalogIds → e.1.catalogId = id)

instance (db : RuleDb) (catalogIds : List String) (id : String) :
    Decidable (OnlyOneRequested db catalogIds id) :=
  inferInstanceAs (Decidable (∀ rule ∈ db.rules, rule.type = .policy → delivered rule = true →
    id ≠ "" ∧ ((∃ e ∈ releasesOf db rule.id, e.1.catalogId = id) →
      ∀ e ∈ releasesOf db rule.id, e.1.catalogId ∈ catalogIds → e.1.catalogId = id)))

theorem deliveredDefinition_releases (loaded : LoadedRule) : (deliveredDefinition loaded).releases =
    loaded.releases.map fun e => ⟨toString e.2.id, e.2.name, e.1.version⟩ := by
  unfold deliveredDefinition
  split
  · rfl
  · rfl

/-- The two definitions of a policy are equal exactly when the bulk query loads one release. -/
theorem definitions_eq_iff {db : RuleDb} (h : ReleaseKeys db) {catalogIds : List String} {id : String}
    (hid : id ∈ catalogIds) {rule : Rule} {e : Release × Project} (he : e ∈ releasesOf db rule.id)
    (hcat : e.1.catalogId = id) :
    deliveredDefinition (joined db rule (releasesAmong db catalogIds rule)) =
        deliveredDefinition (joined db rule (releasesAmong db [id] rule)) ↔
      ∀ e' ∈ releasesOf db rule.id, e'.1.catalogId ∈ catalogIds → e'.1.catalogId = id := by
  constructor
  · intro hsame e' he' hcat'
    have hreleases := congrArg RuleDefinition.releases hsame
    rw [deliveredDefinition_releases, deliveredDefinition_releases] at hreleases
    have hlength := congrArg List.length hreleases
    rw [List.length_map, List.length_map] at hlength
    have hone : (releasesAmong db catalogIds rule).dedup.length = 1 :=
      hlength.trans (congrArg List.length (releasesAmong_one h he hcat))
    obtain ⟨x, hx⟩ := List.length_eq_one_iff.mp hone
    have hmem : ∀ y ∈ releasesOf db rule.id, y.1.catalogId ∈ catalogIds → y = x := by
      intro y hy hycat
      have hin : y ∈ (releasesAmong db catalogIds rule).dedup :=
        List.mem_dedup.mpr (List.mem_filter.mpr ⟨hy, by simpa using hycat⟩)
      rw [hx] at hin
      exact List.mem_singleton.mp hin
    rw [hmem e' he' hcat', ← hmem e he (hcat ▸ hid), hcat]
  · intro honly
    have hsame : releasesAmong db catalogIds rule = releasesAmong db [id] rule := by
      apply List.filter_congr
      intro e' he'
      by_cases hin : e'.1.catalogId ∈ catalogIds
      · simp [honly e' he' hin, hid]
      · have hother : e'.1.catalogId ≠ id := fun heq => hin (heq ▸ hid)
        simp [hin, hother]
    rw [hsame]

/-- Without an id nothing restricts the lookup of one release. -/
theorem single_empty_id (db : RuleDb) : getPoliciesForRelease db "" = [] ↔
    ∀ rule ∈ db.rules, rule.type = .policy → delivered rule = false := by
  have hquery : ∀ rule, queryRule db ⟨some .policy, none, some "", none, none, none, none⟩ none rule =
      if rule.type = .policy then entityOf rule (joinRows db rule) else none := by
    intro rule
    have hrows : (joinRows db rule).filter
        (rowMatches ⟨some .policy, none, some "", none, none, none, none⟩ none) = joinRows db rule := by
      apply List.filter_eq_self.mpr
      intro row _
      simp [rowMatches, restrictsProjects, givenText]
    unfold queryRule
    rw [hrows]
    simp [ruleMatches]
  have hentity : ∀ rule, ∃ loaded, entityOf rule (joinRows db rule) = some loaded ∧
      loaded.rule = rule := by
    intro rule
    have hne : ¬ (joinRows db rule).isEmpty = true := by
      rw [List.isEmpty_iff, joinRows_eq, List.flatMap_eq_nil_iff]
      intro hall
      obtain ⟨release, hrelease⟩ := List.exists_mem_of_ne_nil _ (leftJoin_ne_nil (releasesOf db rule.id))
      exact restRows_ne_nil db rule (List.map_eq_nil_iff.mp (hall release hrelease))
    unfold entityOf
    rw [if_neg hne]
    exact ⟨_, rfl, rfl⟩
  unfold getPoliciesForRelease findAll
  rw [List.map_eq_nil_iff, List.filter_eq_nil_iff]
  constructor
  · intro hnone rule hrule htype
    obtain ⟨loaded, hloaded, hsame⟩ := hentity rule
    have hin := hnone loaded (List.mem_filterMap.mpr
      ⟨rule, (List.mem_insertionSort _).mpr hrule, by rw [hquery, if_pos htype, hloaded]⟩)
    rw [← hsame]
    simpa using hin
  · intro hall loaded hloaded
    obtain ⟨rule, hrule, hfound⟩ := List.mem_filterMap.mp hloaded
    rw [hquery] at hfound
    split at hfound
    · rename_i htype
      obtain ⟨loaded', hloaded', hsame⟩ := hentity rule
      rw [hloaded'] at hfound
      obtain rfl := Option.some.inj hfound
      rw [hsame, hall rule ((List.mem_insertionSort _).mp hrule) htype]
      decide
    · cases hfound

/-- One id of the bulk lookup agrees with the lookup of that release alone. -/
theorem lookup_at_iff {db : RuleDb} (h : ReleaseKeys db) {catalogIds : List String} {id : String}
    (hid : id ∈ catalogIds) :
    ObjectMap.get? (getPoliciesForReleases db catalogIds) id = some (getPoliciesForRelease db id) ↔
      OnlyOneRequested db catalogIds id := by
  rw [getPoliciesForReleases_at db hid, Option.some.injEq]
  by_cases hne : id = ""
  · subst hne
    have hpushed : (findAllForReleases db catalogIds).flatMap (pushed "") = [] := by
      apply List.flatMap_eq_nil_iff.mpr
      intro loaded _
      simp [pushed]
    rw [hpushed, eq_comm, single_empty_id]
    constructor
    · intro hall rule hrule htype hdelivered
      rw [hall rule hrule htype] at hdelivered
      cases hdelivered
    · intro honly rule hrule htype
      by_contra hdelivered
      exact (honly rule hrule htype (by simpa using hdelivered)).1 rfl
  · rw [bulk_eq h hid hne, single_eq h hne, List.map_inj_left]
    constructor
    · intro hsame rule hrule htype hdelivered
      refine ⟨hne, fun ⟨e, he, hcat⟩ => (definitions_eq_iff h hid he hcat).mp (hsame rule ?_)⟩
      refine List.mem_filter.mpr ⟨(List.mem_insertionSort _).mpr hrule, ?_⟩
      have hany : ((releasesOf db rule.id).any fun e => e.1.catalogId == id) = true :=
        List.any_eq_true.mpr ⟨e, he, by simpa using hcat⟩
      simp [deliveredFor, htype, hdelivered, hany]
    · intro honly rule hrule
      obtain ⟨hmem, hfor⟩ := List.mem_filter.mp hrule
      simp only [deliveredFor, Bool.and_eq_true, beq_iff_eq, List.any_eq_true] at hfor
      obtain ⟨⟨htype, hdelivered⟩, e, he, hcat⟩ := hfor
      apply (definitions_eq_iff h hid he hcat).mpr
      exact (honly rule ((List.mem_insertionSort _).mp hmem) htype hdelivered).2 ⟨e, he, hcat⟩

/-- **Main result.** The bulk lookup gives every id what the lookup of that release alone gives
exactly when no delivered policy of one has a second release among those that are asked for. -/
theorem bulk_lookup_iff (db : RuleDb) (catalogIds : List String) (h : ReleaseKeys db) :
    (∀ id ∈ catalogIds, ObjectMap.get? (getPoliciesForReleases db catalogIds) id =
        some (getPoliciesForRelease db id)) ↔
      ∀ id ∈ catalogIds, OnlyOneRequested db catalogIds id :=
  forall₂_congr fun _ hid => lookup_at_iff h hid

theorem lookup_of_unshared : ObjectMap.get?
    (getPoliciesForReleases smallPolicyDb ["2.two@1.0", "nowhere", "1.one@1.0", "2.two@1.0"])
      "2.two@1.0" = some (getPoliciesForRelease smallPolicyDb "2.two@1.0") :=
  (bulk_lookup_iff smallPolicyDb ["2.two@1.0", "nowhere", "1.one@1.0", "2.two@1.0"]
    ⟨by decide, by decide⟩).mpr (by decide) "2.two@1.0" (by decide)

/-- The policy of the second project, shared with the release of the first. -/
def sharedPolicyDb : RuleDb :=
  { smallPolicyDb with ruleReleases := [⟨"policy-2", "1.one@1.0"⟩, ⟨"policy-2", "2.two@1.0"⟩] }

/-- Asked for together, the releases show a policy with both; asked for alone, with one. -/
theorem shared_policy_differs :
    ObjectMap.get? (getPoliciesForReleases sharedPolicyDb ["1.one@1.0", "2.two@1.0"]) "1.one@1.0" ≠
      some (getPoliciesForRelease sharedPolicyDb "1.one@1.0") := by
  decide

end UploadService
