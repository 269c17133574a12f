import UploadService.Policy.SpreadContext

/-!
# What a spread rule decides

The rule engine is a parameter: it judges a condition on the value of its field, `and` is all of
a list and `or` some of it. A rule over array fields is meant for some or for every element.

Main results:

- `spreadCondition_eval`: a spread condition asks what its operator means of all that its parts read;
- `transformLeaf_eval`: a condition on a field that reads right is transformed into what it means.
-/

namespace UploadService

namespace RuleEvaluationService

open RuleService (truthyValue)

/-! ### The engine -/

/-- What the rule engine adds: the judgement of a condition from its operator, its value, its
other keys and the value of its field; a group with both connectors; a list of groups. -/
structure Engine where
  judge : String → Option Value → Object → Option Value → Bool
  both : Bool → Bool → Bool
  groups : List Bool → Bool

/-- The keys of a condition that are no field, no operator and no value. -/
def otherKeys (condition : Object) : Object :=
  condition.filter fun e => e.1 ≠ "field" && e.1 ≠ "operator" && e.1 ≠ "value"

/-- The text at a key; JSON conditions hold one at `field` and at `operator`. -/
def textAt (condition : Object) (key : String) : String :=
  match ObjectMap.get? condition key with
  | some (.str s) => s
  | _ => ""

/-- The engine on one condition: the field is looked up by its name without the `$.`. -/
def Engine.judgeIn (engine : Engine) (context condition : Object) : Bool :=
  engine.judge (textAt condition "operator") (ObjectMap.get? condition "value")
    (otherKeys condition)
    (ObjectMap.get? context (normalizeFieldName (textAt condition "field")))

/-- A group from the results of its connectors; without one it is a condition. -/
def Engine.group (engine : Engine) (ands ors : Option (List Bool)) (condition : Bool) : Bool :=
  match ands, ors with
  | some as, some os => engine.both (as.all id) (os.any id)
  | some as, none => as.all id
  | none, some os => os.any id
  | none, none => condition

mutual

/-- The evaluation of a condition or a group, over the evaluation of the single conditions. -/
def evalCondition (engine : Engine) (leaf : Object → Bool) : Value → Bool
  | .map m =>
      let results := evalConnectors engine leaf m
      engine.group (ObjectMap.get? results "and").join (ObjectMap.get? results "or").join (leaf m)
  | _ => false
termination_by structural v => v

def evalConnectors (engine : Engine) (leaf : Object → Bool) :
    List (String × Value) → List (String × Option (List Bool))
  | [] => []
  | e :: es => evalConnector engine leaf e :: evalConnectors engine leaf es
termination_by structural es => es

def evalConnector (engine : Engine) (leaf : Object → Bool) :
    String × Value → String × Option (List Bool)
  | (k, v) => (k, evalArray engine leaf v)
termination_by structural e => e

def evalArray (engine : Engine) (leaf : Object → Bool) : Value → Option (List Bool)
  | .list xs => some (evalConditions engine leaf xs)
  | _ => none
termination_by structural v => v

def evalConditions (engine : Engine) (leaf : Object → Bool) : List Value → List Bool
  | [] => []
  | c :: cs => evalCondition engine leaf c :: evalConditions engine leaf cs
termination_by structural cs => cs

end

/-- The groups of a rule: its conditions are a list of them, or one. -/
def ruleGroups (rule : Value) : List Value :=
  match rule.member "conditions" with
  | some (.list groups) => groups
  | some group => [group]
  | none => []

/-- `ruleEngine.evaluate(rule, context)`. -/
def Engine.evaluate (engine : Engine) (rule : Value) (context : Object) : Bool :=
  engine.groups ((ruleGroups rule).map (evalCondition engine (engine.judgeIn context)))

/-- `evaluateRule`, with the result of the engine as a boolean. -/
def evaluateRule (engine : Engine) (rule : Value) (context : Object) : Except TypeError Bool := do
  let spread ← spreadArrayFields (flattenContext context) rule
  pure (engine.evaluate spread.transformedRule spread.transformedContext)

/-! ### What a rule over arrays means -/

inductive Quantifier where
  | some
  | every
  deriving DecidableEq, Repr

/-- How an operator is meant for an array: `contains` and `not contains` ask for one element. -/
def arrayMeaning (operator : String) (value : Option Value) :
    Quantifier × String × Option Value :=
  match normalizeOperator operator with
  | "contains" | "contain" => (.some, "in", Option.some (wrapValue value))
  | "not contains" | "not contain" | "notcontains" =>
      (.every, "not in", Option.some (wrapValue value))
  | "in" | "exists" | "equals" | "equal" | "==" | "===" => (.some, operator, value)
  | _ => (.every, operator, value)

def Quantifier.over (q : Quantifier) (xs : List (Option Value)) (test : Option Value → Bool) :
    Bool :=
  match q with
  | .some => xs.any test
  | .every => xs.all test

/-- A condition as it is meant: on an array field for some or every element, else on the value. -/
def Engine.meant (engine : Engine) (context condition : Object) : Bool :=
  let field := ObjectMap.get? context (normalizeFieldName (textAt condition "field"))
  let operator := textAt condition "operator"
  let value := ObjectMap.get? condition "value"
  match field.bind elements? with
  | some xs =>
      let meaning := arrayMeaning operator value
      meaning.1.over (xs.map some) (engine.judge meaning.2.1 meaning.2.2 (otherKeys condition))
  | none => engine.judge operator value (otherKeys condition) field

/-- The rule evaluated on the context itself. -/
def evaluateDirectly (engine : Engine) (rule : Value) (context : Object) : Bool :=
  engine.groups ((ruleGroups rule).map (evalCondition engine (engine.meant (normalized context))))

/-! ### The rules -/

/-- Conditions and groups of them under the given connectors, on fields of the given names. -/
inductive IsCondition (connectors : List String) (fields : String → Prop) : Value → Prop
  | leaf (m : Object) (field operator : String)
      (hfield : ObjectMap.get? m "field" = some (.str field))
      (hoperator : ObjectMap.get? m "operator" = some (.str operator))
      (hleaf : ∀ c ∈ ["and", "or", "none"], ObjectMap.get? m c = none)
      (hknown : fields field) : IsCondition connectors fields (.map m)
  | group (m : Object) (hkeys : (ObjectMap.keys m).Nodup)
      (hfield : ObjectMap.get? m "field" = none)
      (hsome : ∃ c ∈ connectors, (ObjectMap.get? m c).isSome = true)
      (hlists : ∀ c ∈ ["and", "or", "none"], ∀ v, ObjectMap.get? m c = some v →
        c ∈ connectors ∧ ∃ xs, v = .list xs)
      (hitems : ∀ c ∈ connectors, ∀ xs, ObjectMap.get? m c = some (.list xs) →
        ∀ x ∈ xs, IsCondition connectors fields x) : IsCondition connectors fields (.map m)

/-- A group: a condition under connectors. -/
def IsGroup (connectors : List String) (fields : String → Prop) (v : Value) : Prop :=
  IsCondition connectors fields v ∧
    ∃ m, v = .map m ∧ ∃ c ∈ connectors, (ObjectMap.get? m c).isSome = true

/-- A rule whose conditions are a list of groups of `and` and `or` on the given fields. -/
def IsRuleOver (fields : String → Prop) (rule : Value) : Prop :=
  ∃ m groups, rule = .map m ∧ ObjectMap.get? m "conditions" = some (.list groups) ∧
    ∀ g ∈ groups, IsGroup ["and", "or"] fields g

/-- A group of one connector. -/
theorem isGroup_of_items {connectors : List String} {fields : String → Prop} {c : String}
    {xs : List Value} (hc : c ∈ connectors) (hknown : c ∈ ["and", "or", "none"])
    (hitems : ∀ x ∈ xs, IsCondition connectors fields x) :
    IsGroup connectors fields (.map [(c, .list xs)]) := by
  have hread : ∀ k, ObjectMap.get? [(c, Value.list xs)] k = if c = k then some (.list xs) else none :=
    fun k => ObjectMap.get?_cons _ [] k
  have hhas : (ObjectMap.get? [(c, Value.list xs)] c).isSome = true := by
    rw [hread, if_pos rfl]
    rfl
  refine ⟨.group _ (by simp [ObjectMap.keys]) ?_ ⟨c, hc, hhas⟩ ?_ ?_, _, rfl, c, hc, hhas⟩
  · rw [hread, if_neg]
    rintro rfl
    simp at hknown
  · intro k _ v hv
    rw [hread] at hv
    split at hv
    · rename_i hk
      exact ⟨hk ▸ hc, xs, (Option.some.inj hv).symm⟩
    · cases hv
  · intro k _ ys hys x hx
    rw [hread] at hys
    split at hys
    · obtain rfl := Value.list.inj (Option.some.inj hys)
      exact hitems x hx
    · cases hys

/-- The group of the small rule. -/
theorem smallGroup_isGroup {connectors : List String} {fields : String → Prop}
    (hand : "and" ∈ connectors) (htype : fields "$.device.type") (hgroups : fields "groups") :
    IsGroup connectors fields (.map [("and", .list [
      .map [("field", .str "$.device.type"), ("operator", .str "contains"),
        ("value", .str "agent")],
      .map [("field", .str "groups"), ("operator", .str "in"),
        ("value", .list [.str "b"])]])]) := by
  apply isGroup_of_items hand (by simp)
  intro x hx
  rcases List.mem_cons.mp hx with rfl | hx
  · exact .leaf _ "$.device.type" "contains" rfl rfl (by decide) htype
  · obtain rfl := List.mem_singleton.mp hx
    exact .leaf _ "groups" "in" rfl rfl (by decide) hgroups

/-! ### Groups, evaluated and transformed -/

section Groups

variable {engine : Engine} {leaf : Object → Bool} {arrayFields : ArrayFields}

theorem evalConnectors_eq (m : Object) :
    evalConnectors engine leaf m = m.map fun e => (e.1, evalArray engine leaf e.2) := by
  induction m with
  | nil => rfl
  | cons e m ih =>
      obtain ⟨k, v⟩ := e
      rw [evalConnectors, ih]
      rfl

theorem evalConditions_eq (xs : List Value) :
    evalConditions engine leaf xs = xs.map (evalCondition engine leaf) := by
  induction xs with
  | nil => rfl
  | cons x xs ih =>
      rw [evalConditions, ih]
      rfl

/-- **Spec.** A group is evaluated from its two connectors. -/
theorem evalCondition_map (m : Object) :
    evalCondition engine leaf (.map m) =
      engine.group ((ObjectMap.get? m "and").bind (evalArray engine leaf))
        ((ObjectMap.get? m "or").bind (evalArray engine leaf)) (leaf m) := by
  have hread : ∀ c, (ObjectMap.get? (evalConnectors engine leaf m) c).join =
      (ObjectMap.get? m c).bind (evalArray engine leaf) := by
    intro c
    rw [evalConnectors_eq, ObjectMap.get?_map m (fun _ v => evalArray engine leaf v)]
    cases ObjectMap.get? m c <;> rfl
  rw [evalCondition]
  simp only [hread]

theorem evalCondition_leaf {m : Object} (hand : ObjectMap.get? m "and" = none)
    (hor : ObjectMap.get? m "or" = none) : evalCondition engine leaf (.map m) = leaf m := by
  rw [evalCondition_map, hand, hor]
  rfl

theorem transformConnectors_eq (m : Object) :
    transformConnectors arrayFields m = m.map fun e => (e.1, transformArray arrayFields e.2) := by
  induction m with
  | nil => rfl
  | cons e m ih =>
      obtain ⟨k, v⟩ := e
      rw [transformConnectors, ih]
      rfl

/-- The items of a connector, from the value at its key. -/
theorem connectorItems_eq (m : Object) (c : String) :
    connectorItems (transformConnectors arrayFields m) c =
      match ObjectMap.get? m c with
      | some (.list xs) => (transformConditions arrayFields xs).map some
      | _ => .ok none := by
  unfold connectorItems
  rw [transformConnectors_eq, ObjectMap.get?_map m (fun _ v => transformArray arrayFields v)]
  cases ObjectMap.get? m c with
  | none => rfl
  | some v =>
      cases v with
      | list xs =>
          show transformArray arrayFields (.list xs) = (transformConditions arrayFields xs).map some
          rw [transformArray]
          cases transformConditions arrayFields xs <;> rfl
      | null => rfl
      | bool b => rfl
      | num n => rfl
      | str t => rfl
      | map n => rfl

/-- One item of a connector. -/
def transformCondition (arrayFields : ArrayFields) (c : Value) : Except TypeError Value :=
  if c = .null then .error ⟨"Cannot read properties of null (reading 'and')"⟩
  else if isNestedGroup c then transformConditionGroup arrayFields c
  else transformLeaf arrayFields c

theorem transformConditions_cons (c : Value) (cs : List Value) :
    transformConditions arrayFields (c :: cs) =
      (transformCondition arrayFields c).bind fun c' =>
        (transformConditions arrayFields cs).map (c' :: ·) := by
  have hrest : ∀ r : Except TypeError Value, (r >>= fun c' =>
      transformConditions arrayFields cs >>= fun cs' => pure (c' :: cs')) =
      r.bind fun c' => (transformConditions arrayFields cs).map (c' :: ·) := by
    intro r
    cases r with
    | error e => rfl
    | ok c' => cases transformConditions arrayFields cs <;> rfl
  rw [transformConditions, ← hrest]
  unfold transformCondition
  split
  · rfl
  · split <;> rfl

theorem get?_setProperties_of_not_mem {β : Type} {es : List (String × β)} {k : String}
    (hk : k ∉ ObjectMap.keys es) (o : List (String × β)) :
    ObjectMap.get? (setProperties o es) k = ObjectMap.get? o k := by
  induction es generalizing o with
  | nil => rfl
  | cons e es ih =>
      have hne : k ≠ e.1 := fun h => hk (h ▸ List.mem_cons_self)
      have hrest : k ∉ ObjectMap.keys es := fun h => hk (List.mem_cons_of_mem _ h)
      show ObjectMap.get? (setProperties (setProperty o e.1 e.2) es) k = _
      rw [ih hrest, get?_setProperty, if_neg fun h => hne h.1]

/-- The assembled group at its connectors. -/
theorem assembleGroup_eq (m : Object) (ands ors : Option (List Value)) :
    ∃ g, assembleGroup m ands ors = .map g ∧
      ObjectMap.get? g "and" = ands.map .list ∧ ObjectMap.get? g "or" = ors.map .list ∧
      ((ObjectMap.keys m).Nodup → ObjectMap.get? g "none" = ObjectMap.get? m "none") := by
  have hnot : ∀ c, c = "and" ∨ c = "or" →
      c ∉ ObjectMap.keys (m.filter fun e => e.1 ≠ "and" && e.1 ≠ "or") := by
    intro c hc hmem
    obtain ⟨e, he, rfl⟩ := List.mem_map.mp hmem
    have hkept := (List.mem_filter.mp he).2
    rcases hc with hc | hc <;> simp [hc] at hkept
  refine ⟨_, rfl, ?_, ?_, fun hkeys => ?_⟩
  · rw [get?_setProperties_of_not_mem (hnot "and" (.inl rfl))]
    cases ands <;> cases ors <;> rfl
  · rw [get?_setProperties_of_not_mem (hnot "or" (.inr rfl))]
    cases ands <;> cases ors <;> rfl
  · have hnodup : (ObjectMap.keys (m.filter fun e => e.1 ≠ "and" && e.1 ≠ "or")).Nodup :=
      List.Nodup.sublist (List.filter_sublist.map _) hkeys
    have hstart : ObjectMap.get? ((ands.map fun xs => ("and", Value.list xs)).toList ++
        (ors.map fun xs => ("or", Value.list xs)).toList) "none" = none := by
      cases ands <;> cases ors <;> rfl
    rw [get?_setProperties hnodup, hstart,
      ObjectMap.get?_filter_keys m fun k => k ≠ "and" && k ≠ "or"]
    simp

theorem transformRule_list {m : Object} {groups : List Value}
    (h : ObjectMap.get? m "conditions" = some (.list groups)) :
    transformRule arrayFields (.map m) =
      (groups.mapM (transformConditionGroup arrayFields)).map fun gs =>
        .map (ObjectMap.set m "conditions" (.list gs)) := by
  show (match ObjectMap.get? m "conditions" with
    | some (.list groups) => groups.mapM (transformConditionGroup arrayFields) >>= fun gs =>
        pure (Value.map (ObjectMap.set m "conditions" (.list gs)))
    | _ => pure (Value.map m)) = _
  rw [h]
  show (groups.mapM (transformConditionGroup arrayFields)).bind _ = _
  cases groups.mapM (transformConditionGroup arrayFields) <;> rfl

theorem ruleGroups_list {m : Object} {groups : List Value}
    (h : ObjectMap.get? m "conditions" = some (.list groups)) : ruleGroups (.map m) = groups := by
  have hmember : (Value.map m).member "conditions" = some (.list groups) := h
  unfold ruleGroups
  rw [hmember]

/-- A group of lists is taken for a nested group. -/
theorem isNestedGroup_of_lists {m : Object}
    (hsome : ∃ c ∈ ["and", "or"], (ObjectMap.get? m c).isSome = true)
    (hlists : ∀ c ∈ ["and", "or"], ∀ v, ObjectMap.get? m c = some v → ∃ xs, v = .list xs) :
    isNestedGroup (.map m) = true := by
  obtain ⟨c, hc, hread⟩ := hsome
  obtain ⟨v, hv⟩ := Option.isSome_iff_exists.mp hread
  obtain ⟨xs, rfl⟩ := hlists c hc v hv
  have htruthy : truthyValue ((Value.map m).member c) = true := by
    show truthyValue (ObjectMap.get? m c) = true
    rw [hv]
    rfl
  unfold isNestedGroup
  rcases List.mem_cons.mp hc with rfl | hc
  · rw [htruthy, Bool.true_or]
  · obtain rfl := List.mem_singleton.mp hc
    rw [htruthy, Bool.or_true]

end Groups

/-! ### One condition -/

theorem get?_withField (m : Object) (field operator : String) (value : Option Value) (k : String) :
    ObjectMap.get? (withField m field operator value) k =
      if k = "value" then value.or (ObjectMap.get? m "value")
      else if k = "operator" then some (.str operator)
      else if k = "field" then some (.str field)
      else ObjectMap.get? m k := by
  unfold withField
  cases value with
  | none =>
      simp only [ObjectMap.get?_set]
      by_cases hv : k = "value"
      · simp [hv]
      · simp [hv]
  | some v =>
      simp only [ObjectMap.get?_set]
      by_cases hv : k = "value"
      · simp [hv]
      · simp [hv]

theorem filter_set {o : Object} {k : String} (v : Value) (p : String → Bool) (hk : p k = false) :
    (ObjectMap.set o k v).filter (fun e => p e.1) = o.filter fun e => p e.1 := by
  unfold ObjectMap.set
  split
  · rw [List.filter_map]
    have hsame : (o.filter ((fun e : String × Value => p e.1) ∘ fun e =>
        if e.1 == k then (k, v) else e)) = o.filter fun e => p e.1 := by
      apply List.filter_congr
      intro e _
      by_cases he : e.1 = k
      · simp [he]
      · simp [he]
    rw [hsame]
    conv_rhs => rw [← List.map_id (o.filter fun e => p e.1)]
    apply List.map_congr_left
    intro e he
    have hpe := (List.mem_filter.mp he).2
    have hne : ¬ e.1 = k := by
      intro heq
      rw [heq, hk] at hpe
      cases hpe
    simp [hne]
  · rw [List.filter_append]
    simp [hk]

theorem otherKeys_withField (m : Object) (field operator : String) (value : Option Value) :
    otherKeys (withField m field operator value) = otherKeys m := by
  have hset : ∀ (o : Object) (k : String) (v : Value), k ∈ ["field", "operator", "value"] →
      otherKeys (ObjectMap.set o k v) = otherKeys o := by
    intro o k v hk
    apply filter_set v fun j => j ≠ "field" && j ≠ "operator" && j ≠ "value"
    rcases List.mem_cons.mp hk with rfl | hk
    · rfl
    · rcases List.mem_cons.mp hk with rfl | hk
      · rfl
      · obtain rfl := List.mem_singleton.mp hk
        rfl
  unfold withField
  cases value with
  | none => rw [hset _ "operator" _ (by simp), hset _ "field" _ (by simp)]
  | some v => rw [hset _ "value" _ (by simp), hset _ "operator" _ (by simp), hset _ "field" _ (by simp)]

/-- **Spec.** The adapted operator and its connector are what the operator means for an array. -/
theorem arrayMeaning_eq (operator : String) (value : Option Value) :
    arrayMeaning operator value =
      (if getSpreadConnector (adaptOperatorForSpread operator value).1 = "or" then .some else .every,
        adaptOperatorForSpread operator value) := by
  have hin : getSpreadConnector "in" = "or" := by decide
  have hnot : getSpreadConnector "not in" = "and" := by decide
  unfold arrayMeaning
  split
  · rename_i h
    simp [adaptOperatorForSpread, h, hin]
  · rename_i h
    simp [adaptOperatorForSpread, h, hin]
  · rename_i h
    simp [adaptOperatorForSpread, h, hnot]
  · rename_i h
    simp [adaptOperatorForSpread, h, hnot]
  · rename_i h
    simp [adaptOperatorForSpread, h, hnot]
  · rename_i h
    simp [adaptOperatorForSpread, getSpreadConnector, h]
  · rename_i h
    simp [adaptOperatorForSpread, getSpreadConnector, h]
  · rename_i h
    simp [adaptOperatorForSpread, getSpreadConnector, h]
  · rename_i h
    simp [adaptOperatorForSpread, getSpreadConnector, h]
  · rename_i h
    simp [adaptOperatorForSpread, getSpreadConnector, h]
  · rename_i h
    simp [adaptOperatorForSpread, getSpreadConnector, h]
  · rename_i h₁ h₂ h₃ h₄ h₅ h₆ h₇ h₈ h₉ h₁₀ h₁₁
    have hcontains : ["contains", "contain"].contains (normalizeOperator operator) = false := by
      simpa using ⟨h₁, h₂⟩
    have hnone : ["not contains", "not contain", "notcontains"].contains
        (normalizeOperator operator) = false := by
      simpa using ⟨h₃, h₄, h₅⟩
    have hor : ["in", "exists", "equals", "equal", "==", "===", "contains", "contain"].contains
        (normalizeOperator operator) = false := by
      simpa using ⟨h₆, h₇, h₈, h₉, h₁₀, h₁₁, h₁, h₂⟩
    have hkept : adaptOperatorForSpread operator value = (operator, value) := by
      unfold adaptOperatorForSpread
      rw [hcontains, hnone]
      rfl
    rw [hkept, getSpreadConnector, hor]
    rfl

/-- What the conditions on the elements of a field read. -/
def readsOf (context : Object) (field : String) (count : ℕ) : List (Option Value) :=
  (List.range count).map fun i =>
    ObjectMap.get? context (normalizeFieldName (indexedField field i))

theorem getSpreadConnector_cases (operator : String) :
    getSpreadConnector operator = "or" ∨ getSpreadConnector operator = "and" := by
  unfold getSpreadConnector
  split
  · exact .inl rfl
  · exact .inr rfl

/-- The value of an adapted operator is the wrapped one or the one that was there. -/
theorem adaptOperatorForSpread_or (operator : String) (value : Option Value) :
    (adaptOperatorForSpread operator value).2.or value =
      (adaptOperatorForSpread operator value).2 := by
  unfold adaptOperatorForSpread
  split
  · rfl
  · split
    · rfl
    · cases value <;> rfl

theorem spreadCondition_eq {m : Object} {operator : String}
    (hoperator : ObjectMap.get? m "operator" = some (.str operator)) (field : String) (count : ℕ) :
    spreadCondition m field count =
      .ok (.map [(getSpreadConnector
          (adaptOperatorForSpread operator (ObjectMap.get? m "value")).1,
        .list ((List.range count).map fun i => .map (withField m (indexedField field i)
          (adaptOperatorForSpread operator (ObjectMap.get? m "value")).1
          (adaptOperatorForSpread operator (ObjectMap.get? m "value")).2)))]) := by
  unfold spreadCondition
  rw [hoperator]
  rfl

/-- **Spec.** A spread condition asks what its operator means of all that its parts read. -/
theorem spreadCondition_eval (engine : Engine) (context : Object) {m : Object} {operator : String}
    (hoperator : ObjectMap.get? m "operator" = some (.str operator))
    (hand : ObjectMap.get? m "and" = none) (hor : ObjectMap.get? m "or" = none)
    (field : String) (count : ℕ) :
    ∃ c, spreadCondition m field count = .ok c ∧
      evalCondition engine (engine.judgeIn context) c =
        (arrayMeaning operator (ObjectMap.get? m "value")).1.over (readsOf context field count)
          (engine.judge (arrayMeaning operator (ObjectMap.get? m "value")).2.1
            (arrayMeaning operator (ObjectMap.get? m "value")).2.2 (otherKeys m)) := by
  rw [arrayMeaning_eq]
  have hvalue := adaptOperatorForSpread_or operator (ObjectMap.get? m "value")
  generalize hadapted : adaptOperatorForSpread operator (ObjectMap.get? m "value") = adapted
  rw [hadapted] at hvalue
  obtain ⟨operator', value'⟩ := adapted
  let part : ℕ → Object := fun i => withField m (indexedField field i) operator' value'
  have hpart : ∀ i, evalCondition engine (engine.judgeIn context) (.map (part i)) =
      engine.judge operator' value' (otherKeys m)
        (ObjectMap.get? context (normalizeFieldName (indexedField field i))) := by
    intro i
    have hread : ∀ k, ObjectMap.get? (part i) k = _ := get?_withField m _ operator' value'
    rw [evalCondition_leaf (by rw [hread]; exact hand) (by rw [hread]; exact hor)]
    unfold Engine.judgeIn textAt
    rw [hread "operator", hread "field", hread "value", otherKeys_withField]
    show engine.judge operator' (value'.or (ObjectMap.get? m "value")) _ _ = _
    rw [hvalue]
    rfl
  refine ⟨.map [(getSpreadConnector operator',
    .list ((List.range count).map fun i => .map (part i)))], ?_, ?_⟩
  · rw [spreadCondition_eq hoperator, hadapted]
  · have hresults : evalArray engine (engine.judgeIn context)
        (.list ((List.range count).map fun i => .map (part i))) =
        some ((readsOf context field count).map
          (engine.judge operator' value' (otherKeys m))) := by
      rw [evalArray, evalConditions_eq]
      unfold readsOf
      rw [List.map_map, List.map_map]
      apply congrArg some
      exact List.map_congr_left fun i _ => hpart i
    rw [evalCondition_map]
    rcases getSpreadConnector_cases operator' with hconnector | hconnector
    · rw [hconnector]
      show engine.group none ((some _).bind _) _ = _
      rw [Option.bind_some, hresults, if_pos rfl]
      show ((readsOf context field count).map _).any id = (readsOf context field count).any _
      rw [List.any_map]
      rfl
    · rw [hconnector]
      show engine.group ((some _).bind _) none _ = _
      rw [Option.bind_some, hresults, if_neg (by decide)]
      show ((readsOf context field count).map _).all id = (readsOf context field count).all _
      rw [List.all_map]
      rfl

/-! ### Where a condition reads what it means -/

/-- The conditions on an array field read its elements; any other field has no inherited name and
reads what it read before. -/
def ReadsRight (context : Object) (field : String) : Prop :=
  match (ObjectMap.get? context (normalizeFieldName field)).bind elements? with
  | some xs =>
      readsOf (spreadEntries context) field xs.length ⊆ xs.map some ∧
        xs.map some ⊆ readsOf (spreadEntries context) field xs.length
  | none =>
      ObjectMap.get? inheritedMembers (normalizeFieldName field) = none ∧
        ObjectMap.get? (spreadEntries context) (normalizeFieldName field) =
          ObjectMap.get? context (normalizeFieldName field)

instance (context : Object) (field : String) : Decidable (ReadsRight context field) := by
  unfold ReadsRight
  split <;> infer_instance

theorem Quantifier.over_congr (q : Quantifier) {xs ys : List (Option Value)} (hxy : xs ⊆ ys)
    (hyx : ys ⊆ xs) (test : Option Value → Bool) : q.over xs test = q.over ys test := by
  cases q with
  | some =>
      show xs.any test = ys.any test
      rw [Bool.eq_iff_iff, List.any_eq_true, List.any_eq_true]
      exact ⟨fun ⟨x, hx, h⟩ => ⟨x, hxy hx, h⟩, fun ⟨y, hy, h⟩ => ⟨y, hyx hy, h⟩⟩
  | every =>
      show xs.all test = ys.all test
      rw [Bool.eq_iff_iff, List.all_eq_true, List.all_eq_true]
      exact ⟨fun h y hy => h y (hyx hy), fun h x hx => h x (hxy hx)⟩

section Spreading

variable {context : Object}

theorem readsOf_spreadOf (hfree : (ObjectMap.keys (spreadEntries (normalized context))).Nodup)
    (field : String) (count : ℕ) :
    readsOf (spreadOf context) field count =
      readsOf (spreadEntries (normalized context)) field count := by
  unfold readsOf
  apply List.map_congr_left
  intro i _
  exact get?_spread hfree _

/-- What is looked up among the array fields. -/
theorem lookupField_arraysOf (key : String) :
    lookupField (arraysOf context) key =
      match (ObjectMap.get? (normalized context) key).bind elements? with
      | some xs => some (.elements xs)
      | none => (ObjectMap.get? inheritedMembers key).map .inherited := by
  unfold lookupField arraysOf
  cases hread : (ObjectMap.get? (normalized context) key).bind elements? with
  | some xs => simp only [get?_arrayFieldsOf, hread]
  | none => simp only [get?_arrayFieldsOf, hread]

/-- **Spec.** A condition is spread where its field is found among the arrays. -/
theorem transformLeaf_eq {arrayFields : ArrayFields} {m : Object} {field : String}
    (hfield : ObjectMap.get? m "field" = some (.str field)) :
    transformLeaf arrayFields (.map m) =
      match lookupField arrayFields (normalizeFieldName field) with
      | some found => spreadCondition m field found.count
      | none => .ok (.map m) := by
  have hok : textOf ((Value.map m).member "field") "field" "startsWith" = .ok field := by
    show textOf (ObjectMap.get? m "field") "field" "startsWith" = _
    rw [hfield]
    rfl
  unfold transformLeaf
  rw [hok]
  dsimp only [bind, Except.bind]
  cases lookupField arrayFields (normalizeFieldName field) with
  | some found => rfl
  | none => rfl

theorem meant_eq (engine : Engine) (context : Object) {m : Object} {field operator : String}
    (hfield : textAt m "field" = field) (hoperator : textAt m "operator" = operator) :
    engine.meant context m =
      match (ObjectMap.get? context (normalizeFieldName field)).bind elements? with
      | some xs =>
          (arrayMeaning operator (ObjectMap.get? m "value")).1.over (xs.map some)
            (engine.judge (arrayMeaning operator (ObjectMap.get? m "value")).2.1
              (arrayMeaning operator (ObjectMap.get? m "value")).2.2 (otherKeys m))
      | none =>
          engine.judge operator (ObjectMap.get? m "value") (otherKeys m)
            (ObjectMap.get? context (normalizeFieldName field)) := by
  subst hfield hoperator
  rfl

/-- A condition on a field that reads right is transformed into what it means. -/
theorem transformLeaf_eval (engine : Engine)
    (hfree : (ObjectMap.keys (spreadEntries (normalized context))).Nodup)
    {m : Object} {field operator : String} (hfield : ObjectMap.get? m "field" = some (.str field))
    (hoperator : ObjectMap.get? m "operator" = some (.str operator))
    (hand : ObjectMap.get? m "and" = none) (hor : ObjectMap.get? m "or" = none)
    (hreads : ReadsRight (normalized context) field) :
    ∃ c, transformLeaf (arraysOf context) (.map m) = .ok c ∧
      evalCondition engine (engine.judgeIn (spreadOf context)) c =
        engine.meant (normalized context) m := by
  have htext : textAt m "field" = field := by rw [textAt, hfield]
  have hname : textAt m "operator" = operator := by rw [textAt, hoperator]
  rw [transformLeaf_eq hfield, meant_eq engine _ htext hname, lookupField_arraysOf]
  unfold ReadsRight at hreads
  cases hv : (ObjectMap.get? (normalized context) (normalizeFieldName field)).bind elements? with
  | some xs =>
      rw [hv] at hreads
      obtain ⟨c, hc, heval⟩ :=
        spreadCondition_eval engine (spreadOf context) hoperator hand hor field xs.length
      refine ⟨c, hc, ?_⟩
      rw [heval, readsOf_spreadOf hfree]
      exact Quantifier.over_congr _ hreads.1 hreads.2 _
  | none =>
      rw [hv] at hreads
      rw [hreads.1]
      refine ⟨.map m, rfl, ?_⟩
      rw [evalCondition_leaf hand hor]
      unfold Engine.judgeIn
      rw [htext, hname]
      show engine.judge _ _ _ (ObjectMap.get? (spreadOf context) _) = _
      rw [spreadOf, get?_spread hfree, hreads.2]

end Spreading

end RuleEvaluationService

end UploadService
