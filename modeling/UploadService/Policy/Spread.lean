import UploadService.Policy.Rules

/-!
# Rules over array fields

`RuleEvaluationService`: a context is flattened to dotted keys, comma-separated texts become
arrays, each array becomes one key for each element, and the conditions on an array field become
a group of one condition for each element.

A context and a rule are JSON. An object is the list of its own properties in the order
JavaScript enumerates them.
-/

namespace UploadService

namespace RuleEvaluationService

open RuleService (truthyValue)

/-! ### JavaScript objects -/

/-- A `TypeError` of the runtime. -/
structure TypeError where
  message : String
  deriving DecidableEq, Repr

/-- A new property: an integer key goes before the larger ones and the names, a name goes last. -/
def insertProperty {β : Type} (o : List (String × β)) (k : String) (v : β) : List (String × β) :=
  match Value.arrayIndex? k with
  | some i =>
      let smaller : String × β → Bool := fun e => (Value.arrayIndex? e.1).any fun j => decide (j < i)
      o.takeWhile smaller ++ (k, v) :: o.dropWhile smaller
  | none => o ++ [(k, v)]

/-- `o[k] = v` on a plain object. A write to `__proto__` goes to the accessor that the object
inherits, which sets the prototype and adds no property. -/
def setProperty {β : Type} (o : List (String × β)) (k : String) (v : β) : List (String × β) :=
  if k = "__proto__" then o
  else if ObjectMap.has o k then ObjectMap.set o k v
  else insertProperty o k v

/-- One write after the other. -/
def setProperties {β : Type} (o es : List (String × β)) : List (String × β) :=
  es.foldl (fun o e => setProperty o e.1 e.2) o

/-- The `length` of the members that every plain object inherits; the object behind `__proto__`
has none. -/
def inheritedMembers : List (String × Option ℕ) :=
  [("constructor", some 1), ("__defineGetter__", some 2), ("__defineSetter__", some 2),
    ("hasOwnProperty", some 1), ("__lookupGetter__", some 1), ("__lookupSetter__", some 1),
    ("isPrototypeOf", some 1), ("propertyIsEnumerable", some 1), ("toString", some 0),
    ("valueOf", some 0), ("__proto__", none), ("toLocaleString", some 0)]

/-- The text before and after the first occurrence of a pattern. -/
def splitFirst? (pattern : List Char) : List Char → Option (List Char × List Char)
  | [] => if pattern.isEmpty then some ([], []) else none
  | c :: cs =>
      if pattern.isPrefixOf (c :: cs) then some ([], (c :: cs).drop pattern.length)
      else (splitFirst? pattern cs).map fun s => (c :: s.1, s.2)

/-- The patterns of a replacement text: a dollar sign, the match, the text before and the text
after it. -/
def expandReplacement (before pattern after : List Char) : List Char → List Char
  | '$' :: c :: cs =>
      if c = '$' then '$' :: expandReplacement before pattern after cs
      else if c = '&' then pattern ++ expandReplacement before pattern after cs
      else if c.toNat = 96 then before ++ expandReplacement before pattern after cs
      else if c.toNat = 39 then after ++ expandReplacement before pattern after cs
      else '$' :: expandReplacement before pattern after (c :: cs)
  | c :: cs => c :: expandReplacement before pattern after cs
  | [] => []

/-- `s.replace(pattern, replacement)` for texts. -/
def replaceFirst (s pattern replacement : String) : String :=
  match splitFirst? pattern.toList s.toList with
  | none => s
  | some (before, after) =>
      String.ofList (before ++
        expandReplacement before pattern.toList after replacement.toList ++ after)

/-- `s.toLowerCase().trim()` for what is compared with ASCII names without a `k`. -/
def normalizeOperator (operator : String) : String :=
  trim (String.ofList (operator.toList.map Char.toLower))

/-! ### The context -/

/-- `prefix ? prefix.key : key`. -/
def flatKey (parent key : String) : String := if parent = "" then key else parent ++ "." ++ key

mutual

/-- The writes of one property: an object is walked into, all else is kept as it is. -/
def flattenValue (key : String) (result : Object) : Value → Object
  | .map m => flattenEntries key result m
  | v => setProperty result key v

def flattenEntry (parent : String) (result : Object) : String × Value → Object
  | (key, v) => flattenValue (flatKey parent key) result v

def flattenEntries (parent : String) (result : Object) : List (String × Value) → Object
  | [] => result
  | e :: es => flattenEntries parent (flattenEntry parent result e) es

end

/-- `flattenContext`. -/
def flattenContext (context : Object) : Object := flattenEntries "" [] context

/-- `value.split(',')`, trimmed, without the empty parts. -/
def commaParts (s : String) : List String :=
  ((s.toList.splitOn ',').map fun part => trim (String.ofList part)).filter fun part => part ≠ ""

def normalizeValue : Value → Value
  | .str s =>
      if s.toList.contains ',' && decide (1 < (commaParts s).length) then
        .list ((commaParts s).map .str)
      else .str s
  | v => v

def normalizeArrayFields (flatContext : Object) : Object :=
  setProperties [] (flatContext.map fun e => (e.1, normalizeValue e.2))

/-- The array fields: each with its elements. -/
abbrev ArrayFields : Type := List (String × List Value)

/-- `Array.isArray(value) && value.length > 0`. -/
def elements? : Value → Option (List Value)
  | .list (x :: xs) => some (x :: xs)
  | _ => none

def arrayFieldsOf (normalizedContext : Object) : ArrayFields :=
  setProperties [] (normalizedContext.filterMap fun e => (elements? e.2).map fun xs => (e.1, xs))

/-- What a look-up `arrayFields[key]` finds: elements, or a member that every object inherits,
with the length of that. -/
inductive Found where
  | elements (items : List Value)
  | inherited (length : Option ℕ)
  deriving DecidableEq, Repr

/-- `arrayFields[key]`; everything it can find is truthy. -/
def lookupField (arrayFields : ArrayFields) (key : String) : Option Found :=
  match ObjectMap.get? arrayFields key with
  | some items => some (.elements items)
  | none => (ObjectMap.get? inheritedMembers key).map .inherited

/-- How often `for (i = 0; i < found.length; i++)` runs. -/
def Found.count : Found → ℕ
  | .elements items => items.length
  | .inherited length => length.getD 0

/-- The key of element `i` of an array field. -/
def elementKey (key : String) (i : ℕ) : String := key ++ "_" ++ toString (i + 1)

/-- The keys of an array field with its elements. -/
def elementEntries (key : String) (items : List Value) : Object :=
  items.zipIdx.map fun x => (elementKey key x.2, x.1)

/-- The context with one key for each element. An inherited member is no array: its `map`,
which a log line calls, is no function. -/
def spreadContext (arrayFields : ArrayFields) (normalizedContext : Object) :
    Except TypeError Object :=
  normalizedContext.foldlM (fun transformed e =>
    match lookupField arrayFields e.1 with
    | some (.elements items) => .ok (setProperties transformed (elementEntries e.1 items))
    | some (.inherited _) => .error ⟨"arr.map is not a function"⟩
    | none => .ok (setProperty transformed e.1 e.2)) []

/-! ### The rule -/

/-- `normalizeFieldName`; `getFieldPathFromCondition` has the same body. -/
def normalizeFieldName (field : String) : String :=
  match field.toList with
  | '$' :: '.' :: rest => String.ofList rest
  | _ => field

/-- The connector of the spread conditions: `or` for the operators that one element satisfies. -/
def getSpreadConnector (operator : String) : String :=
  if ["in", "exists", "equals", "equal", "==", "===", "contains", "contain"].contains
      (normalizeOperator operator) then "or"
  else "and"

/-- `Array.isArray(value) ? value : [value]`; JSON writes an undefined item as null. -/
def wrapValue : Option Value → Value
  | some (.list xs) => .list xs
  | some v => .list [v]
  | none => .list [.null]

def adaptOperatorForSpread (operator : String) (value : Option Value) : String × Option Value :=
  if ["contains", "contain"].contains (normalizeOperator operator) then ("in", some (wrapValue value))
  else if ["not contains", "not contain", "notcontains"].contains (normalizeOperator operator) then
    ("not in", some (wrapValue value))
  else (operator, value)

/-- The field of the condition on element `i`: the path is replaced where it first occurs. -/
def indexedField (field : String) (i : ℕ) : String :=
  replaceFirst field (normalizeFieldName field) (elementKey (normalizeFieldName field) i)

/-- `{ ...condition, field, operator, value }`; an undefined value is no property of JSON. -/
def withField (condition : Object) (field operator : String) (value : Option Value) : Object :=
  let named := ObjectMap.set (ObjectMap.set condition "field" (.str field)) "operator" (.str operator)
  match value with
  | some v => ObjectMap.set named "value" v
  | none => named

/-- The text at a property, read by a method that only texts have. -/
def textOf (v : Option Value) (name method : String) : Except TypeError String :=
  match v with
  | some (.str s) => .ok s
  | none => .error ⟨s!"Cannot read properties of undefined (reading '{method}')"⟩
  | some .null => .error ⟨s!"Cannot read properties of null (reading '{method}')"⟩
  | some _ => .error ⟨s!"{name}.{method} is not a function"⟩

/-- `spreadCondition`: one condition for each of `count` elements. -/
def spreadCondition (condition : Object) (field : String) (count : ℕ) : Except TypeError Value := do
  let operator ← textOf (ObjectMap.get? condition "operator") "operator" "toLowerCase"
  let resolved := adaptOperatorForSpread operator (ObjectMap.get? condition "value")
  let subConditions := (List.range count).map fun i =>
    Value.map (withField condition (indexedField field i) resolved.1 resolved.2)
  pure (.map [(getSpreadConnector resolved.1, .list subConditions)])

/-- A condition that is no nested group: spread where its field is found among the arrays. -/
def transformLeaf (arrayFields : ArrayFields) (condition : Value) : Except TypeError Value := do
  let field ← textOf (condition.member "field") "field" "startsWith"
  match condition, lookupField arrayFields (normalizeFieldName field) with
  | .map m, some found => spreadCondition m field found.count
  | _, _ => pure condition

/-- `condition.and || condition.or`. -/
def isNestedGroup (condition : Value) : Bool :=
  truthyValue (condition.member "and") || truthyValue (condition.member "or")

/-- The items of a connector, where it holds an array. -/
def connectorItems (transformed : List (String × Except TypeError (Option (List Value))))
    (connector : String) : Except TypeError (Option (List Value)) :=
  (ObjectMap.get? transformed connector).getD (.ok none)

/-- The group with its transformed connectors first, then the keys that are no `and` and no `or`. -/
def assembleGroup (group : Object) (ands ors : Option (List Value)) : Value :=
  let result : Object := (ands.map fun xs => ("and", Value.list xs)).toList ++
    (ors.map fun xs => ("or", Value.list xs)).toList
  .map (setProperties result (group.filter fun e => e.1 ≠ "and" && e.1 ≠ "or"))

/-- The items of an array as the properties of an object. -/
def indexedProperties (xs : List Value) : Object := xs.zipIdx.map fun x => (toString x.2, x.1)

mutual

/-- `transformConditionGroup`: only the connectors `and` and `or` are walked. -/
def transformConditionGroup (arrayFields : ArrayFields) : Value → Except TypeError Value
  | .map m => do
      let transformed := transformConnectors arrayFields m
      let ands ← connectorItems transformed "and"
      let ors ← connectorItems transformed "or"
      pure (assembleGroup m ands ors)
  | .list xs => pure (.map (indexedProperties xs))
  | v => pure v
termination_by structural v => v

def transformConnectors (arrayFields : ArrayFields) :
    List (String × Value) → List (String × Except TypeError (Option (List Value)))
  | [] => []
  | e :: es => transformConnector arrayFields e :: transformConnectors arrayFields es
termination_by structural es => es

def transformConnector (arrayFields : ArrayFields) :
    String × Value → String × Except TypeError (Option (List Value))
  | (k, v) => (k, transformArray arrayFields v)
termination_by structural e => e

def transformArray (arrayFields : ArrayFields) : Value → Except TypeError (Option (List Value))
  | .list xs => do
      let ys ← transformConditions arrayFields xs
      pure (some ys)
  | _ => pure none
termination_by structural v => v

def transformConditions (arrayFields : ArrayFields) : List Value → Except TypeError (List Value)
  | [] => pure []
  | c :: cs => do
      let c' ← if c = .null then .error ⟨"Cannot read properties of null (reading 'and')"⟩
        else if isNestedGroup c then transformConditionGroup arrayFields c
        else transformLeaf arrayFields c
      let cs' ← transformConditions arrayFields cs
      pure (c' :: cs')
termination_by structural cs => cs

end

/-- The rule with its conditions transformed, where they are a list. A JSON value is its own
deep clone. -/
def transformRule (arrayFields : ArrayFields) : Value → Except TypeError Value
  | .null => .error ⟨"Cannot read properties of null (reading 'conditions')"⟩
  | .map m =>
      match ObjectMap.get? m "conditions" with
      | some (.list groups) => do
          let transformed ← groups.mapM (transformConditionGroup arrayFields)
          pure (.map (ObjectMap.set m "conditions" (.list transformed)))
      | _ => pure (.map m)
  | rule => pure rule

/-- What `spreadArrayFields` returns. -/
structure Spread where
  transformedContext : Object
  transformedRule : Value
  deriving DecidableEq, Repr

def spreadArrayFields (flatContext : Object) (rule : Value) : Except TypeError Spread := do
  let normalizedContext := normalizeArrayFields flatContext
  let arrayFields := arrayFieldsOf normalizedContext
  if arrayFields.isEmpty then pure ⟨normalizedContext, rule⟩
  else
    let transformedContext ← spreadContext arrayFields normalizedContext
    let transformedRule ← transformRule arrayFields rule
    pure ⟨transformedContext, transformedRule⟩

/-! ### Properties of an object -/

section Properties

variable {β : Type}

theorem get?_insertProperty {o : List (String × β)} {j : String} (hnew : ObjectMap.get? o j = none)
    (k : String) (v : β) :
    ObjectMap.get? (insertProperty o j v) k = if k = j then some v else ObjectMap.get? o k := by
  have hinsert : ∀ l r : List (String × β), l ++ r = o →
      ObjectMap.get? (l ++ (j, v) :: r) k = if k = j then some v else ObjectMap.get? o k := by
    rintro l r rfl
    rw [ObjectMap.get?_append, Option.or_eq_none_iff] at hnew
    rw [ObjectMap.get?_append, ObjectMap.get?_append, ObjectMap.get?_cons]
    by_cases hk : k = j
    · rw [hk, hnew.1]
      simp
    · rw [if_neg fun h => hk h.symm]
      simp [hk]
  unfold insertProperty
  split
  · exact hinsert _ _ (List.takeWhile_append_dropWhile ..)
  · exact hinsert o [] (List.append_nil o)

/-- **Spec.** What is read after a write. -/
theorem get?_setProperty (o : List (String × β)) (j k : String) (v : β) :
    ObjectMap.get? (setProperty o j v) k =
      if k = j ∧ j ≠ "__proto__" then some v else ObjectMap.get? o k := by
  unfold setProperty
  split
  · rename_i hproto
    simp [hproto]
  · rename_i hproto
    split
    · rw [ObjectMap.get?_set]
      simp [hproto]
    · rename_i hhas
      rw [get?_insertProperty (by simpa [ObjectMap.has] using hhas)]
      simp [hproto]

theorem keys_insertProperty (o : List (String × β)) (k : String) (v : β) :
    (ObjectMap.keys (insertProperty o k v)).Perm (k :: ObjectMap.keys o) := by
  unfold insertProperty ObjectMap.keys
  split
  · rename_i i _
    rw [List.map_append, List.map_cons]
    have hsplit := List.takeWhile_append_dropWhile
      (p := fun e : String × β => (Value.arrayIndex? e.1).any fun j => decide (j < i)) (l := o)
    conv_rhs => rw [← hsplit]
    rw [List.map_append]
    exact List.perm_middle
  · rw [List.map_append]
    exact List.perm_append_comm

/-- A write of a key that is not there adds one property. -/
theorem keys_setProperty_of_new {o : List (String × β)} {k : String} (hk : k ≠ "__proto__")
    (hnew : k ∉ ObjectMap.keys o) (v : β) :
    (ObjectMap.keys (setProperty o k v)).Perm (k :: ObjectMap.keys o) := by
  have hhas : ObjectMap.has o k = false := by
    rw [ObjectMap.has, ObjectMap.get?_eq_none_iff.mpr hnew]
    rfl
  unfold setProperty
  rw [if_neg hk, hhas, if_neg Bool.false_ne_true]
  exact keys_insertProperty o k v

end Properties

/-- A device with a list and a comma-separated text. -/
def smallContext : Object :=
  [("device", .map [("type", .str "agent, agent_linux"), ("os", .str "linux")]),
    ("groups", .list [.str "a", .str "b"])]

/-- A rule on two fields of it. -/
def smallRule : Value := .map [("conditions", .list [.map [("and", .list [
  .map [("field", .str "$.device.type"), ("operator", .str "contains"), ("value", .str "agent")],
  .map [("field", .str "groups"), ("operator", .str "in"), ("value", .list [.str "b"])]])]])]

end RuleEvaluationService

end UploadService
