import UploadService.Policy.Rules

/-!
# The field names of a rule

`extractFieldNames` walks a rule and adds what it finds to one set that all its calls share. Arrays
and objects are walked by different branches: an array goes on into all its items, an object only
into those of its values that are objects themselves.

Main results:

- `addFieldNames_eq`: the walk adds the names in the order in which `visitFieldNames` lists them;
- `addFieldNames_exact`: from the empty set it makes the texts, each once, that some object in the
  rule has as its `field`, the empty text apart.
-/

namespace UploadService

namespace Value

/-- `v` occurs in a value: it is the value, or it occurs in an item or under a key. -/
inductive Within (v : Value) : Value → Prop
  | self : Within v v
  | item {x : Value} {xs : List Value} (hx : x ∈ xs) (h : Within v x) : Within v (.list xs)
  | field {e : String × Value} {m : Object} (he : e ∈ m) (h : Within v e.2) : Within v (.map m)

end Value

namespace RuleValidationService

/-! ### The walk -/

/-- The `field` of an object joins the set where it is a text that is not empty. -/
def addOwnField (obj : Value) (fieldNames : List String) : List String :=
  match obj.member "field" with
  | some (.str name) => if name = "" then fieldNames else ObjectMap.addKeys fieldNames [name]
  | _ => fieldNames

mutual

/-- `extractFieldNames(obj, fieldNames)`: the set after the call. -/
def addFieldNames : Value → List String → List String
  | .list items, fieldNames => addItems items (addOwnField (.list items) fieldNames)
  | .map entries, fieldNames => addValues entries (addOwnField (.map entries) fieldNames)
  | _, fieldNames => fieldNames -- `!obj || typeof obj !== 'object'`
termination_by structural v => v

def addItems : List Value → List String → List String
  | [], fieldNames => fieldNames
  | item :: items, fieldNames => addItems items (addFieldNames item fieldNames)
termination_by structural v => v

def addValue : String × Value → List String → List String
  | (_, v), fieldNames => if v.isContainer then addFieldNames v fieldNames else fieldNames
termination_by structural v => v

/-- `Object.values(obj).forEach`. -/
def addValues : List (String × Value) → List String → List String
  | [], fieldNames => fieldNames
  | entry :: entries, fieldNames => addValues entries (addValue entry fieldNames)
termination_by structural v => v

end

theorem addOwnField_map (m : Object) (fieldNames : List String) :
    addOwnField (.map m) fieldNames = ObjectMap.addKeys fieldNames (ownField m) := by
  unfold addOwnField ownField
  show (match ObjectMap.get? m "field" with | some (.str name) => _ | _ => _) = _
  cases ObjectMap.get? m "field" with
  | none => rfl
  | some v =>
      cases v with
      | str name =>
          by_cases hname : name = ""
          · simp only [if_pos hname]
            rfl
          · simp only [if_neg hname]
      | _ => rfl

/-- An array has no `field`. -/
theorem addOwnField_list (items : List Value) (fieldNames : List String) :
    addOwnField (.list items) fieldNames = fieldNames := by
  have hnone : (Value.list items).member "field" = none := by
    have hindex : Value.arrayIndex? "field" = none := by decide
    unfold Value.member
    simp [hindex]
  unfold addOwnField
  rw [hnone]

mutual

/-- **Spec.** One call adds the names that stand in the value, in the order of the visit. -/
theorem addFieldNames_eq : (obj : Value) → (fieldNames : List String) →
    addFieldNames obj fieldNames = ObjectMap.addKeys fieldNames (visitFieldNames obj)
  | .null, _ | .bool _, _ | .num _, _ | .str _, _ => rfl
  | .list items, fieldNames => by
      rw [addFieldNames, addOwnField_list, visitFieldNames, addItems_eq items fieldNames]
  | .map entries, fieldNames => by
      rw [addFieldNames, addOwnField_map, visitFieldNames, ObjectMap.addKeys_append]
      exact addValues_eq entries _

theorem addItems_eq : (items : List Value) → (fieldNames : List String) →
    addItems items fieldNames = ObjectMap.addKeys fieldNames (visitItems items)
  | [], _ => rfl
  | item :: items, fieldNames => by
      rw [addItems, visitItems, ObjectMap.addKeys_append, addFieldNames_eq item fieldNames]
      exact addItems_eq items _

theorem addValue_eq : (entry : String × Value) → (fieldNames : List String) →
    addValue entry fieldNames = ObjectMap.addKeys fieldNames (visitField entry)
  | (_, v), fieldNames => by
      rw [addValue, visitField, addFieldNames_eq v fieldNames]
      cases v <;> rfl

theorem addValues_eq : (entries : List (String × Value)) → (fieldNames : List String) →
    addValues entries fieldNames = ObjectMap.addKeys fieldNames (visitFields entries)
  | [], _ => rfl
  | entry :: entries, fieldNames => by
      rw [addValues, visitFields, ObjectMap.addKeys_append, addValue_eq entry fieldNames]
      exact addValues_eq entries _

end

/-! ### What stands in a rule -/

/-- Some object in the value has the text as its `field`. -/
def NamesField (name : String) (v : Value) : Prop :=
  ∃ m : Object, Value.Within (.map m) v ∧ ObjectMap.get? m "field" = some (.str name)

theorem namesField_list {name : String} {items : List Value} :
    NamesField name (.list items) ↔ ∃ item ∈ items, NamesField name item := by
  constructor
  · rintro ⟨m, hwithin, hfield⟩
    cases hwithin with
    | item hitem h => exact ⟨_, hitem, m, h, hfield⟩
  · rintro ⟨item, hitem, m, hwithin, hfield⟩
    exact ⟨m, .item hitem hwithin, hfield⟩

theorem namesField_map {name : String} {entries : Object} :
    NamesField name (.map entries) ↔
      ObjectMap.get? entries "field" = some (.str name) ∨
        ∃ entry ∈ entries, NamesField name entry.2 := by
  constructor
  · rintro ⟨m, hwithin, hfield⟩
    cases hwithin with
    | self => exact .inl hfield
    | field hentry h => exact .inr ⟨_, hentry, m, h, hfield⟩
  · rintro (hfield | ⟨entry, hentry, m, hwithin, hfield⟩)
    · exact ⟨entries, .self, hfield⟩
    · exact ⟨m, .field hentry hwithin, hfield⟩

/-- What is no object and no array names nothing. -/
theorem not_namesField {name : String} {v : Value} (h : v.isContainer = false) :
    ¬ NamesField name v := by
  rintro ⟨m, hwithin, -⟩
  cases hwithin <;> cases h

theorem mem_ownField {name : String} {m : Object} :
    name ∈ ownField m ↔ name ≠ "" ∧ ObjectMap.get? m "field" = some (.str name) := by
  unfold ownField
  split
  · rename_i s hfield
    rw [hfield]
    split
    · rename_i hempty
      simp [hempty, eq_comm]
    · rename_i hempty
      simp only [List.mem_singleton, Option.some.injEq, Value.str.injEq]
      constructor
      · rintro rfl
        exact ⟨hempty, rfl⟩
      · exact fun h => h.2.symm
  · rename_i hnot
    constructor
    · intro h
      cases h
    · intro h
      exact absurd h.2 (hnot name)

mutual

/-- **Main result.** The visit lists the names that stand in a value, however deep. -/
theorem mem_visitFieldNames {name : String} : (v : Value) →
    (name ∈ visitFieldNames v ↔ name ≠ "" ∧ NamesField name v)
  | .null | .bool _ | .num _ | .str _ =>
      iff_of_false List.not_mem_nil fun h => not_namesField rfl h.2
  | .list items => by
      rw [visitFieldNames, namesField_list]
      exact mem_visitItems items
  | .map entries => by
      rw [visitFieldNames, List.mem_append, namesField_map, mem_ownField, mem_visitFields entries,
        ← and_or_left]

theorem mem_visitItems {name : String} : (items : List Value) →
    (name ∈ visitItems items ↔ name ≠ "" ∧ ∃ item ∈ items, NamesField name item)
  | [] => by simp [visitItems]
  | item :: items => by
      rw [visitItems, List.mem_append, mem_visitFieldNames item, mem_visitItems items, ← and_or_left,
        List.exists_mem_cons_iff]

theorem mem_visitField {name : String} : (entry : String × Value) →
    (name ∈ visitField entry ↔ name ≠ "" ∧ NamesField name entry.2)
  | (_, v) => mem_visitFieldNames v

theorem mem_visitFields {name : String} : (entries : List (String × Value)) →
    (name ∈ visitFields entries ↔ name ≠ "" ∧ ∃ entry ∈ entries, NamesField name entry.2)
  | [] => by simp [visitFields]
  | entry :: entries => by
      rw [visitFields, List.mem_append, mem_visitField entry, mem_visitFields entries, ← and_or_left,
        List.exists_mem_cons_iff]

end

/-! ### Exactness -/

/-- **Main result.** From the empty set, `extractFieldNames` makes each text once that some object
in the rule has as its `field`, the empty text apart, and nothing else. -/
theorem addFieldNames_exact (rule : Value) :
    (addFieldNames rule []).Nodup ∧
      ∀ name, name ∈ addFieldNames rule [] ↔ name ≠ "" ∧ NamesField name rule := by
  rw [addFieldNames_eq]
  refine ⟨ObjectMap.addKeys_nodup List.nodup_nil _, fun name => ?_⟩
  rw [ObjectMap.mem_addKeys, ← mem_visitFieldNames rule]
  simp

/-- Conditions under other keys, in arrays of arrays, and one name twice. -/
example : addFieldNames (.map [("and", .list [.map [("field", .str "os")],
      .list [.map [("none", .map [("field", .str "v")]), ("field", .str "os")]]]),
      ("field", .str ""), ("value", .str "field")]) [] = ["os", "v"] := by
  decide

end RuleValidationService

end UploadService
