import UploadService.Policy.SpreadEvaluation

/-!
# Rules that are evaluated as they are meant

A rule is a list of groups of `and` and `or`. Its transformed tree decides what the tree means
where every field in it reads right.

Main results:

- `preserved_of_readsRight`: every condition and every group decides what it means;
- `evaluateRule_iff`: the rules over given fields are evaluated as they are meant, exactly where
  there is no array, or no other entry has an inherited name and each field reads right.
-/

namespace UploadService

namespace RuleEvaluationService

open RuleService (truthyValue)

/-! ### Groups of conditions -/

section Trees

variable {engine : Engine} {leaf leaf' : Object → Bool} {arrayFields : ArrayFields}

/-- A condition whose transformed one decides the same. -/
def Preserved (engine : Engine) (leaf leaf' : Object → Bool) (arrayFields : ArrayFields)
    (c : Value) : Prop :=
  ∃ c', transformCondition arrayFields c = .ok c' ∧
    evalCondition engine leaf' c' = evalCondition engine leaf c

theorem transformConditions_eval {xs : List Value}
    (h : ∀ x ∈ xs, Preserved engine leaf leaf' arrayFields x) :
    ∃ ys, transformConditions arrayFields xs = .ok ys ∧
      evalConditions engine leaf' ys = evalConditions engine leaf xs := by
  induction xs with
  | nil => exact ⟨[], rfl, rfl⟩
  | cons x xs ih =>
      obtain ⟨c, hc, heval⟩ := h x List.mem_cons_self
      obtain ⟨ys, hys, hevals⟩ := ih fun y hy => h y (List.mem_cons_of_mem _ hy)
      refine ⟨c :: ys, ?_, ?_⟩
      · rw [transformConditions_cons, hc, hys]
        rfl
      · rw [evalConditions, evalConditions, heval, hevals]

/-- One connector of a group. -/
theorem connectorItems_eval {m : Object} {c : String}
    (hlist : ∀ v, ObjectMap.get? m c = some v → ∃ xs, v = .list xs)
    (hitems : ∀ xs, ObjectMap.get? m c = some (.list xs) →
      ∀ x ∈ xs, Preserved engine leaf leaf' arrayFields x) :
    ∃ items, connectorItems (transformConnectors arrayFields m) c = .ok items ∧
      (items.map Value.list).bind (evalArray engine leaf') =
        (ObjectMap.get? m c).bind (evalArray engine leaf) := by
  rw [connectorItems_eq]
  cases hv : ObjectMap.get? m c with
  | none => exact ⟨none, rfl, rfl⟩
  | some v =>
      obtain ⟨xs, rfl⟩ := hlist v hv
      obtain ⟨ys, hys, heval⟩ := transformConditions_eval (hitems xs hv)
      refine ⟨some ys, ?_, ?_⟩
      · show (transformConditions arrayFields xs).map some = _
        rw [hys]
        rfl
      · show evalArray engine leaf' (.list ys) = evalArray engine leaf (.list xs)
        rw [evalArray, evalArray, heval]

theorem Engine.group_congr (engine : Engine) {ands ors : Option (List Bool)}
    (hsome : ands.isSome = true ∨ ors.isSome = true) (b b' : Bool) :
    engine.group ands ors b = engine.group ands ors b' := by
  cases ands with
  | some as => cases ors <;> rfl
  | none =>
      cases ors with
      | some os => rfl
      | none => rcases hsome with h | h <;> cases h

/-- **Spec.** A transformed group decides what the group means. -/
theorem transformConditionGroup_eval {m : Object}
    (hsome : ∃ c ∈ ["and", "or"], (ObjectMap.get? m c).isSome = true)
    (hlists : ∀ c ∈ ["and", "or"], ∀ v, ObjectMap.get? m c = some v → ∃ xs, v = .list xs)
    (hitems : ∀ c ∈ ["and", "or"], ∀ xs, ObjectMap.get? m c = some (.list xs) →
      ∀ x ∈ xs, Preserved engine leaf leaf' arrayFields x) :
    ∃ g, transformConditionGroup arrayFields (.map m) = .ok g ∧
      evalCondition engine leaf' g = evalCondition engine leaf (.map m) := by
  obtain ⟨ands, hands, hevalAnd⟩ :=
    connectorItems_eval (hlists "and" (by simp)) (hitems "and" (by simp))
  obtain ⟨ors, hors, hevalOr⟩ :=
    connectorItems_eval (hlists "or" (by simp)) (hitems "or" (by simp))
  obtain ⟨g, hg, hgand, hgor, -⟩ := assembleGroup_eq m ands ors
  refine ⟨.map g, ?_, ?_⟩
  · rw [transformConditionGroup]
    show ((connectorItems (transformConnectors arrayFields m) "and").bind fun ands =>
      (connectorItems (transformConnectors arrayFields m) "or").bind fun ors =>
        .ok (assembleGroup m ands ors)) = _
    rw [hands, hors]
    exact congrArg Except.ok hg
  · rw [evalCondition_map, evalCondition_map, hgand, hgor, hevalAnd, hevalOr]
    apply engine.group_congr
    obtain ⟨c, hc, hread⟩ := hsome
    obtain ⟨v, hv⟩ := Option.isSome_iff_exists.mp hread
    obtain ⟨xs, rfl⟩ := hlists c hc v hv
    have hresult : ((ObjectMap.get? m c).bind (evalArray engine leaf)).isSome = true := by
      rw [hv]
      rfl
    rcases List.mem_cons.mp hc with rfl | hc
    · exact .inl hresult
    · obtain rfl := List.mem_singleton.mp hc
      exact .inr hresult

end Trees

section Rules

variable {context : Object} {fields : String → Prop}

/-- **Main lemma.** Every condition and every group on fields that read right decides what it
means. The induction is on the tree of the rule. -/
theorem preserved_of_readsRight (engine : Engine)
    (hfree : (ObjectMap.keys (spreadEntries (normalized context))).Nodup)
    (hreads : ∀ f, fields f → ReadsRight (normalized context) f) {c : Value}
    (hc : IsCondition ["and", "or"] fields c) :
    Preserved engine (engine.meant (normalized context)) (engine.judgeIn (spreadOf context))
      (arraysOf context) c := by
  induction hc with
  | leaf m field operator hfield hoperator hleaf hknown =>
      have hand := hleaf "and" (by simp)
      have hor := hleaf "or" (by simp)
      obtain ⟨c', hc', heval⟩ :=
        transformLeaf_eval engine hfree hfield hoperator hand hor (hreads field hknown)
      have hnested : isNestedGroup (.map m) = false := by
        unfold isNestedGroup
        show (truthyValue (ObjectMap.get? m "and") || truthyValue (ObjectMap.get? m "or")) = false
        rw [hand, hor]
        rfl
      refine ⟨c', ?_, ?_⟩
      · unfold transformCondition
        rw [if_neg nofun, hnested, if_neg Bool.false_ne_true, hc']
      · rw [heval, evalCondition_leaf hand hor]
  | group m hkeys hfield hsome hlists hitems ih =>
      have hlists' : ∀ c ∈ ["and", "or"], ∀ v, ObjectMap.get? m c = some v → ∃ xs, v = .list xs := by
        intro c hc v hv
        apply (hlists c ?_ v hv).2
        rcases List.mem_cons.mp hc with rfl | hc
        · simp
        · obtain rfl := List.mem_singleton.mp hc
          simp
      obtain ⟨g, hg, heval⟩ := transformConditionGroup_eval hsome hlists' ih
      refine ⟨g, ?_, heval⟩
      unfold transformCondition
      rw [if_neg nofun, isNestedGroup_of_lists hsome hlists', if_pos rfl, hg]

theorem transformCondition_group {arrayFields : ArrayFields} {g : Value}
    (hg : IsGroup ["and", "or"] fields g) :
    transformCondition arrayFields g = transformConditionGroup arrayFields g := by
  obtain ⟨hcondition, m, rfl, hsome⟩ := hg
  cases hcondition with
  | leaf m field operator hfield hoperator hleaf hknown =>
      obtain ⟨c, hc, hread⟩ := hsome
      rw [hleaf c (by rcases List.mem_cons.mp hc with rfl | hc <;> simp_all)] at hread
      cases hread
  | group m hkeys hfield hsome hlists hitems =>
      unfold transformCondition
      rw [if_neg nofun, isNestedGroup_of_lists hsome, if_pos rfl]
      intro c hc v hv
      exact (hlists c (by rcases List.mem_cons.mp hc with rfl | hc <;> simp_all) v hv).2

theorem mapM_eval {engine : Engine} {leaf leaf' : Object → Bool} {arrayFields : ArrayFields}
    {groups : List Value}
    (h : ∀ g ∈ groups, ∃ g', transformConditionGroup arrayFields g = .ok g' ∧
      evalCondition engine leaf' g' = evalCondition engine leaf g) :
    ∃ gs, groups.mapM (transformConditionGroup arrayFields) = .ok gs ∧
      gs.map (evalCondition engine leaf') = groups.map (evalCondition engine leaf) := by
  induction groups with
  | nil => exact ⟨[], rfl, rfl⟩
  | cons g groups ih =>
      obtain ⟨g', hg', heval⟩ := h g List.mem_cons_self
      obtain ⟨gs, hgs, hevals⟩ := ih fun x hx => h x (List.mem_cons_of_mem _ hx)
      refine ⟨g' :: gs, ?_, ?_⟩
      · rw [List.mapM_cons, hg', hgs]
        rfl
      · rw [List.map_cons, List.map_cons, heval, hevals]

/-- Without an array a condition is judged as it is meant. -/
theorem meant_of_isEmpty (engine : Engine) (hempty : (arraysOf context).isEmpty = true) :
    engine.meant (normalized context) = engine.judgeIn (normalized context) := by
  funext m
  have hnone : (ObjectMap.get? (normalized context)
      (normalizeFieldName (textAt m "field"))).bind elements? = none := by
    cases hv : ObjectMap.get? (normalized context) (normalizeFieldName (textAt m "field")) with
    | none => rfl
    | some v => exact arrayFieldsOf_isEmpty.mp hempty _ (ObjectMap.mem_of_get? hv)
  rw [meant_eq engine (normalized context) rfl rfl, hnone]
  rfl

/-- The rules on fields that read right are evaluated as they are meant. -/
theorem evaluateRule_of_readsRight (engine : Engine)
    (hfree : (ObjectMap.keys (spreadEntries (normalized context))).Nodup)
    (hright : (arraysOf context).isEmpty = true ∨
      NamesOwn (normalized context) ∧ ∀ f, fields f → ReadsRight (normalized context) f)
    {rule : Value} (hrule : IsRuleOver fields rule) :
    evaluateRule engine rule context = .ok (evaluateDirectly engine rule context) := by
  unfold evaluateRule
  show (spreadArrayFields (flattenContext context) rule).bind _ = _
  rw [spreadArrayFields_eq]
  by_cases hempty : (arraysOf context).isEmpty = true
  · rw [if_pos hempty]
    unfold evaluateDirectly
    rw [meant_of_isEmpty engine hempty]
    rfl
  · obtain ⟨hown, hreads⟩ := hright.resolve_left hempty
    obtain ⟨m, groups, rfl, hconditions, hgroups⟩ := hrule
    obtain ⟨gs, hgs, heval⟩ := @mapM_eval engine _ _ _ groups fun g hg => by
      obtain ⟨g', hg', heval⟩ := preserved_of_readsRight engine hfree hreads (hgroups g hg).1
      rw [transformCondition_group (hgroups g hg)] at hg'
      exact ⟨g', hg', heval⟩
    have htransformed : transformRule (arraysOf context) (.map m) =
        .ok (.map (ObjectMap.set m "conditions" (.list gs))) := by
      rw [transformRule_list hconditions, hgs]
      rfl
    have hafter : ruleGroups (.map (ObjectMap.set m "conditions" (.list gs))) = gs := by
      apply ruleGroups_list
      rw [ObjectMap.get?_set, if_pos rfl]
    rw [if_neg hempty, if_pos hown, htransformed]
    show Except.ok (engine.evaluate _ (spreadOf context)) = _
    unfold Engine.evaluate evaluateDirectly
    rw [ruleGroups_list hconditions, hafter, heval]

end Rules

/-! ### Where a field does not read right -/

section Single

variable {context : Object}

/-- A rule of one condition. -/
def singleRule (condition : Object) : Value :=
  .map [("conditions", .list [.map [("and", .list [.map condition])]])]

/-- An engine that takes all groups, with its judgement. -/
def engineOf (judge : String → Option Value → Object → Option Value → Bool) : Engine where
  judge := judge
  both := fun a b => a && b
  groups := fun l => l.all id

theorem singleRule_isRule {fields : String → Prop} {m : Object} {field operator : String}
    (hfield : ObjectMap.get? m "field" = some (.str field))
    (hoperator : ObjectMap.get? m "operator" = some (.str operator))
    (hleaf : ∀ c ∈ ["and", "or", "none"], ObjectMap.get? m c = none) (hknown : fields field) :
    IsRuleOver fields (singleRule m) := by
  refine ⟨_, _, rfl, rfl, fun g hg => ?_⟩
  obtain rfl := List.mem_singleton.mp hg
  apply isGroup_of_items (by simp) (by simp)
  intro x hx
  obtain rfl := List.mem_singleton.mp hx
  exact .leaf m field operator hfield hoperator hleaf hknown

/-- The evaluation of a rule of one condition, transformed and as it is meant. -/
theorem evaluate_single (judge : String → Option Value → Object → Option Value → Bool)
    {field operator : String} {c : Value} (hfull : (arraysOf context).isEmpty = false)
    (hown : NamesOwn (normalized context))
    (hc : transformLeaf (arraysOf context)
      (.map [("field", .str field), ("operator", .str operator)]) = .ok c) :
    evaluateRule (engineOf judge)
        (singleRule [("field", .str field), ("operator", .str operator)]) context =
      .ok (evalCondition (engineOf judge) ((engineOf judge).judgeIn (spreadOf context)) c) ∧
    evaluateDirectly (engineOf judge)
        (singleRule [("field", .str field), ("operator", .str operator)]) context =
      (engineOf judge).meant (normalized context)
        [("field", .str field), ("operator", .str operator)] := by
  have hgroup : transformConditionGroup (arraysOf context) (.map [("and", .list
      [.map [("field", .str field), ("operator", .str operator)]])]) =
      .ok (.map [("and", .list [c])]) := by
    rw [transformConditionGroup]
    show (connectorItems (transformConnectors (arraysOf context) _) "and" >>= _) = _
    rw [connectorItems_eq]
    show ((transformConditions (arraysOf context) [_]).map some >>= _) = _
    rw [transformConditions_cons]
    show ((((transformLeaf (arraysOf context) _).bind _).map some) >>= _) = _
    rw [hc]
    rfl
  constructor
  · unfold evaluateRule
    show (spreadArrayFields (flattenContext context) _).bind _ = _
    rw [spreadArrayFields_eq, hfull, if_neg Bool.false_ne_true, if_pos hown, singleRule,
      transformRule_list rfl, List.mapM_cons, hgroup]
    show Except.ok (((evalCondition _ _ c && true) && true)) = _
    rw [Bool.and_true, Bool.and_true]
  · show ((evalCondition _ _ (.map _) && true) && true) = _
    rw [Bool.and_true, Bool.and_true]
    rfl

/-- A field whose rules are evaluated as they are meant reads right. -/
theorem readsRight_of_evaluations {fields : String → Prop}
    (hfree : (ObjectMap.keys (spreadEntries (normalized context))).Nodup)
    (hfull : (arraysOf context).isEmpty = false) (hown : NamesOwn (normalized context))
    (h : ∀ (engine : Engine) (rule : Value), IsRuleOver fields rule →
      evaluateRule engine rule context = .ok (evaluateDirectly engine rule context))
    {field : String} (hfield : fields field) : ReadsRight (normalized context) field := by
  let leaf : String → Object := fun operator => [("field", .str field), ("operator", .str operator)]
  have hlookup := @lookupField_arraysOf context (normalizeFieldName field)
  have hplain : ∀ operator, ∀ c ∈ ["and", "or", "none"],
      ObjectMap.get? (leaf operator) c = none := by
    intro operator c hc
    rcases List.mem_cons.mp hc with rfl | hc
    · rfl
    · rcases List.mem_cons.mp hc with rfl | hc
      · rfl
      · obtain rfl := List.mem_singleton.mp hc
        rfl
  -- what the two evaluations of a rule on this field give is the same
  have hsame : ∀ judge operator c, transformLeaf (arraysOf context) (.map (leaf operator)) = .ok c →
      evalCondition (engineOf judge) ((engineOf judge).judgeIn (spreadOf context)) c =
        (engineOf judge).meant (normalized context) (leaf operator) := by
    intro judge operator c hc
    obtain ⟨hspread, hdirect⟩ := evaluate_single judge hfull hown hc
    have hrun := h (engineOf judge) _ (singleRule_isRule rfl rfl (hplain operator) hfield)
    rw [hspread, hdirect] at hrun
    exact Except.ok.inj hrun
  have hleaf : ∀ operator, transformLeaf (arraysOf context) (.map (leaf operator)) = _ :=
    fun operator => transformLeaf_eq (m := leaf operator) rfl
  have hmeant : ∀ judge operator, (engineOf judge).meant (normalized context) (leaf operator) = _ :=
    fun judge operator => @meant_eq (engineOf judge) (normalized context) (leaf operator) field
      operator rfl rfl
  unfold ReadsRight
  cases hv : (ObjectMap.get? (normalized context) (normalizeFieldName field)).bind elements? with
  | some xs =>
      rw [hv] at hlookup
      have hiff : ∀ w, w ∈ readsOf (spreadEntries (normalized context)) field xs.length ↔
          w ∈ xs.map some := by
        intro w
        obtain ⟨c, hc, heval⟩ := @spreadCondition_eval (engineOf fun _ _ _ v => v == w)
          (spreadOf context) (leaf "in") "in" rfl rfl rfl field xs.length
        have hrun := hsame (fun _ _ _ v => v == w) "in" c (by rw [hleaf, hlookup]; exact hc)
        have hany : arrayMeaning "in" (ObjectMap.get? (leaf "in") "value") = (.some, "in", none) := by
          show arrayMeaning "in" none = _
          decide
        rw [heval, hmeant, hv, hany, readsOf_spreadOf hfree] at hrun
        have hrun : (readsOf (spreadEntries (normalized context)) field xs.length).any (· == w) =
            (xs.map some).any (· == w) := hrun
        rw [Bool.eq_iff_iff, List.any_eq_true, List.any_eq_true] at hrun
        simpa using hrun
      exact ⟨fun w hw => (hiff w).mp hw, fun w hw => (hiff w).mpr hw⟩
  | none =>
      rw [hv] at hlookup
      cases hname : ObjectMap.get? inheritedMembers (normalizeFieldName field) with
      | some length =>
          -- an inherited member is spread: `contains` is read as `in`
          exfalso
          rw [hname] at hlookup
          obtain ⟨c, hc, heval⟩ := @spreadCondition_eval
            (engineOf fun op _ _ _ => op == "contains") (spreadOf context) (leaf "contains")
            "contains" rfl rfl rfl field (Found.inherited length).count
          have hrun := hsame (fun op _ _ _ => op == "contains") "contains" c
            (by rw [hleaf, hlookup]; exact hc)
          have hin : arrayMeaning "contains" (ObjectMap.get? (leaf "contains") "value") =
              (.some, "in", some (.list [.null])) := by
            show arrayMeaning "contains" none = _
            decide
          rw [heval, hmeant, hv, hin] at hrun
          have hrun : (readsOf (spreadOf context) field (Found.inherited length).count).any
              (fun _ => "in" == "contains") = ("contains" == "contains") := hrun
          simp at hrun
      | none =>
          rw [hname] at hlookup
          refine ⟨rfl, ?_⟩
          let w := ObjectMap.get? (normalized context) (normalizeFieldName field)
          have hrun := hsame (fun _ _ _ v => v == w) "is" (.map (leaf "is"))
            (by rw [hleaf, hlookup]; rfl)
          rw [evalCondition_leaf rfl rfl, hmeant, hv] at hrun
          have hrun : (ObjectMap.get? (spreadOf context) (normalizeFieldName field) == w) =
              (w == w) := hrun
          rw [beq_self_eq_true, beq_iff_eq, spreadOf, get?_spread hfree] at hrun
          exact hrun

end Single

/-! ### The rules over some fields -/

/-- **Main result.** The rules over given fields are evaluated as they are meant, exactly where
there is no array, or no other entry has an inherited name and each of the fields reads right. -/
theorem evaluateRule_iff (context : Object) (fields : String → Prop)
    (hfree : (ObjectMap.keys (spreadEntries (normalized context))).Nodup) :
    (∀ (engine : Engine) (rule : Value), IsRuleOver fields rule →
      evaluateRule engine rule context = .ok (evaluateDirectly engine rule context)) ↔
    ((arraysOf context).isEmpty = true ∨
      NamesOwn (normalized context) ∧ ∀ f, fields f → ReadsRight (normalized context) f) := by
  constructor
  · intro h
    cases hempty : (arraysOf context).isEmpty with
    | true => exact .inl rfl
    | false =>
        have hown : NamesOwn (normalized context) := by
          have hrun := h (engineOf fun _ _ _ _ => false) (.map [("conditions", .list [])])
            ⟨_, [], rfl, rfl, fun g hg => by cases hg⟩
          unfold evaluateRule at hrun
          cases hspread : spreadArrayFields (flattenContext context)
              (.map [("conditions", .list [])]) with
          | error e =>
              rw [hspread] at hrun
              cases hrun
          | ok s => exact (spreadArrayFields_ok hspread).1 hempty
        exact .inr ⟨hown, fun f hf => readsRight_of_evaluations hfree hempty hown h hf⟩
  · exact fun hright engine rule hrule => evaluateRule_of_readsRight engine hfree hright hrule

theorem smallRule_isRule :
    IsRuleOver (fun f => f ∈ ["$.device.type", "groups"]) smallRule := by
  refine ⟨_, _, rfl, rfl, fun g hg => ?_⟩
  obtain rfl := List.mem_singleton.mp hg
  exact smallGroup_isGroup (by simp) (by simp) (by simp)

/-- An engine with `in` and equality. -/
def textEngine : Engine := engineOf fun operator value _ v =>
  match operator, value, v with
  | "in", some (.list xs), some x => xs.any (· == x)
  | _, _, _ => v == value

theorem smallRule_evaluated :
    evaluateRule textEngine smallRule smallContext =
      .ok (evaluateDirectly textEngine smallRule smallContext) :=
  (evaluateRule_iff smallContext (fun f => f ∈ ["$.device.type", "groups"])
    (by decide +kernel)).mpr (.inr ⟨by decide +kernel, by decide +kernel⟩) textEngine smallRule
    smallRule_isRule

/-- A key with dollar signs is not found any more; a field of an inherited name is judged for
`in`; a field that names an element is judged on it. -/
theorem rewritten_fields_misread :
    (let context : Object := [("cost$$", .list [.str "a", .str "b"])]
     let rule := singleRule [("field", .str "$.cost$$"), ("operator", .str "equals"),
       ("value", .str "a")]
     IsRuleOver (· = "$.cost$$") rule ∧
       (ObjectMap.keys (spreadEntries (normalized context))).Nodup ∧
       evaluateDirectly textEngine rule context = true ∧
       (evaluateRule textEngine rule context).toOption = some false) ∧
    (let context : Object := [("groups", .list [.str "a", .str "b"])]
     let rule := singleRule [("field", .str "toString"), ("operator", .str "not equals")]
     IsRuleOver (· = "toString") rule ∧
       (ObjectMap.keys (spreadEntries (normalized context))).Nodup ∧
       evaluateDirectly (engineOf fun _ _ _ _ => false) rule context = false ∧
       (evaluateRule (engineOf fun _ _ _ _ => false) rule context).toOption = some true) ∧
    (let context : Object := [("groups", .list [.str "a", .str "b"])]
     let rule := singleRule [("field", .str "groups_1"), ("operator", .str "equals"),
       ("value", .str "a")]
     IsRuleOver (· = "groups_1") rule ∧
       (ObjectMap.keys (spreadEntries (normalized context))).Nodup ∧
       evaluateDirectly textEngine rule context = false ∧
       (evaluateRule textEngine rule context).toOption = some true) :=
  ⟨⟨singleRule_isRule rfl rfl (by decide) rfl, by decide +kernel⟩,
    ⟨singleRule_isRule rfl rfl (by decide) rfl, by decide +kernel⟩,
    singleRule_isRule rfl rfl (by decide) rfl, by decide +kernel⟩

end RuleEvaluationService

end UploadService
