import UploadService.Policy.SpreadEvaluation
import UploadService.Policy.Fields

/-!
# The conditions that the rewriting reaches

A rule is validated with its conditions as one group or a list of groups, under `and`, `or` and
`none`, and also as JSON text. The rewriting walks a list of groups and its `and` and `or`; what
it does not walk keeps the names of the array fields, which are gone from the context.

Main results:

- `reached_iff`: a condition is transformed without a failure into conditions on keys that are
  there, exactly where it is reached;
- `spread_reaches_iff`: so is an accepted rule.
-/

namespace UploadService

namespace RuleEvaluationService

open RuleService (truthyValue)
open RuleValidationService Prog

/-! ### The conditions of a rule -/

/-- The connectors under which the engine takes conditions. -/
def allConnectors : List String := ["and", "or", "none"]

mutual

/-- The fields that the conditions of a group name, at any depth. -/
def leafNames : Value → List String
  | .map m =>
      let names := leafNamesOfEntries m
      match allConnectors.filterMap fun c => (ObjectMap.get? names c).join with
      | [] => [textAt m "field"]
      | lists => lists.flatten
  | _ => []
termination_by structural v => v

def leafNamesOfEntries : List (String × Value) → List (String × Option (List String))
  | [] => []
  | e :: es => leafNamesOfEntry e :: leafNamesOfEntries es
termination_by structural es => es

def leafNamesOfEntry : String × Value → String × Option (List String)
  | (k, v) => (k, leafNamesOfArray v)
termination_by structural e => e

def leafNamesOfArray : Value → Option (List String)
  | .list xs => some (leafNamesOfItems xs)
  | _ => none
termination_by structural v => v

def leafNamesOfItems : List Value → List String
  | [] => []
  | x :: xs => leafNames x ++ leafNamesOfItems xs
termination_by structural xs => xs

end

/-- The fields that the conditions of a rule name; a text holds the rule as JSON. -/
def ruleLeafNames (env : RuleEnv) (rule : Value) : List String :=
  (ruleGroups (ruleValue env rule)).flatMap leafNames

/-- A rule as the engine takes it: its conditions are a list of groups, or one group. -/
def RuleShape (rule : Value) : Prop :=
  ∃ m, rule = .map m ∧
    ((∃ groups, ObjectMap.get? m "conditions" = some (.list groups) ∧
        ∀ g ∈ groups, IsGroup allConnectors (fun _ => True) g) ∨
      ∃ g, ObjectMap.get? m "conditions" = some g ∧ IsGroup allConnectors (fun _ => True) g)

/-- The field names an array that the transformed context does not hold any more. -/
def Dangles (context transformed : Object) (field : String) : Prop :=
  (ObjectMap.get? (arraysOf context) (normalizeFieldName field)).isSome = true ∧
    ObjectMap.get? transformed (normalizeFieldName field) = none

instance (context transformed : Object) (field : String) :
    Decidable (Dangles context transformed field) := inferInstanceAs (Decidable (_ ∧ _))

/-- The field names an array, and no element and no other entry has its key. -/
def Removed (context : Object) (field : String) : Prop :=
  ((ObjectMap.get? (normalized context) (normalizeFieldName field)).bind elements?).isSome = true ∧
    normalizeFieldName field ∉ ObjectMap.keys (spreadEntries (normalized context))

/-- How many conditions the rewriting makes of a condition on a field. -/
def spreadCount (context : Object) (field : String) : Option ℕ :=
  (lookupField (arraysOf context) (normalizeFieldName field)).map Found.count

/-- The rewriting walks the condition, and what it makes of it names keys that are there. -/
inductive Reached (context : Object) : Value → Prop
  | leaf (m : Object) (field : String)
      (hfield : ObjectMap.get? m "field" = some (.str field))
      (hleaf : ∀ c ∈ allConnectors, ObjectMap.get? m c = none)
      (hspread : ∀ count, spreadCount context field = some count →
        ∀ i < count, ¬ Removed context (indexedField field i)) : Reached context (.map m)
  | group (m : Object)
      (hsome : ∃ c ∈ ["and", "or"], (ObjectMap.get? m c).isSome = true)
      (hitems : ∀ c ∈ ["and", "or"], ∀ xs, ObjectMap.get? m c = some (.list xs) →
        ∀ x ∈ xs, Reached context x)
      (hnone : ∀ xs, ObjectMap.get? m "none" = some (.list xs) →
        ∀ x ∈ xs, ∀ f ∈ leafNames x, ¬ Removed context f) : Reached context (.map m)

/-- A group of the rule itself: it may also be one of `none` alone that names no removed field. -/
def GroupReached (context : Object) (g : Value) : Prop :=
  Reached context g ∨
    g.member "and" = none ∧ g.member "or" = none ∧ ∀ f ∈ leafNames g, ¬ Removed context f

/-- Where the conditions are a list its groups are walked; else nothing is. -/
def RuleReached (env : RuleEnv) (context : Object) (rule : Value) : Prop :=
  match rule.member "conditions" with
  | some (.list groups) => ∀ g ∈ groups, GroupReached context g
  | _ => ∀ f ∈ ruleLeafNames env rule, ¬ Removed context f

/-! ### The names of a tree -/

theorem leafNamesOfEntries_eq (m : Object) :
    leafNamesOfEntries m = m.map fun e => (e.1, leafNamesOfArray e.2) := by
  induction m with
  | nil => rfl
  | cons e m ih =>
      obtain ⟨k, v⟩ := e
      rw [leafNamesOfEntries, ih]
      rfl

theorem mem_leafNamesOfItems {f : String} {xs : List Value} :
    f ∈ leafNamesOfItems xs ↔ ∃ x ∈ xs, f ∈ leafNames x := by
  induction xs with
  | nil => simp [leafNamesOfItems]
  | cons x xs ih =>
      rw [leafNamesOfItems, List.mem_append, ih, List.exists_mem_cons_iff]

/-- The lists under the connectors of a group. -/
def connectorLists (m : Object) : List (List String) :=
  allConnectors.filterMap fun c => (ObjectMap.get? m c).bind leafNamesOfArray

theorem leafNames_map (m : Object) :
    leafNames (.map m) =
      match connectorLists m with
      | [] => [textAt m "field"]
      | lists => lists.flatten := by
  have hread : ∀ c, (ObjectMap.get? (leafNamesOfEntries m) c).join =
      (ObjectMap.get? m c).bind leafNamesOfArray := by
    intro c
    rw [leafNamesOfEntries_eq, ObjectMap.get?_map m (fun _ v => leafNamesOfArray v)]
    cases ObjectMap.get? m c <;> rfl
  rw [leafNames]
  simp only [hread]
  rfl

theorem leafNames_leaf {m : Object} {field : String}
    (hfield : ObjectMap.get? m "field" = some (.str field))
    (hleaf : ∀ c ∈ allConnectors, ObjectMap.get? m c = none) : leafNames (.map m) = [field] := by
  have hnil : connectorLists m = [] := by
    apply List.filterMap_eq_nil_iff.mpr
    intro c hc
    rw [hleaf c hc]
    rfl
  rw [leafNames_map, hnil, textAt, hfield]

/-- The names of a group are those of the items of its connectors. -/
theorem mem_leafNames_group {m : Object}
    (hsome : ∃ c ∈ allConnectors, ∃ xs, ObjectMap.get? m c = some (.list xs)) {f : String} :
    f ∈ leafNames (.map m) ↔
      ∃ c ∈ allConnectors, ∃ xs, ObjectMap.get? m c = some (.list xs) ∧
        ∃ x ∈ xs, f ∈ leafNames x := by
  have hmem : ∀ l, l ∈ connectorLists m ↔
      ∃ c ∈ allConnectors, ∃ xs, ObjectMap.get? m c = some (.list xs) ∧ l = leafNamesOfItems xs := by
    intro l
    unfold connectorLists
    rw [List.mem_filterMap]
    constructor
    · rintro ⟨c, hc, hl⟩
      obtain ⟨v, hv, hlist⟩ := Option.bind_eq_some_iff.mp hl
      cases v with
      | list xs => exact ⟨c, hc, xs, hv, (Option.some.inj hlist).symm⟩
      | null => cases hlist
      | bool b => cases hlist
      | num n => cases hlist
      | str s => cases hlist
      | map n => cases hlist
    · rintro ⟨c, hc, xs, hxs, rfl⟩
      refine ⟨c, hc, ?_⟩
      rw [hxs]
      rfl
  have hne : connectorLists m ≠ [] := by
    obtain ⟨c, hc, xs, hxs⟩ := hsome
    exact List.ne_nil_of_mem ((hmem _).mpr ⟨c, hc, xs, hxs, rfl⟩)
  have hflat : leafNames (.map m) = (connectorLists m).flatten := by
    rw [leafNames_map]
    cases hlists : connectorLists m with
    | nil => exact absurd hlists hne
    | cons l ls => rfl
  rw [hflat, List.mem_flatten]
  constructor
  · rintro ⟨l, hl, hf⟩
    obtain ⟨c, hc, xs, hxs, rfl⟩ := (hmem l).mp hl
    exact ⟨c, hc, xs, hxs, mem_leafNamesOfItems.mp hf⟩
  · rintro ⟨c, hc, xs, hxs, x, hx, hf⟩
    exact ⟨_, (hmem _).mpr ⟨c, hc, xs, hxs, rfl⟩, mem_leafNamesOfItems.mpr ⟨x, hx, hf⟩⟩

/-! ### What the rewriting makes of a condition -/

section Walk

variable {context : Object}

/-- No condition of it names an array that is gone. -/
def Fine (context : Object) (c : Value) : Prop := ∀ f ∈ leafNames c, ¬ Removed context f

/-- The rewriting of a condition returns, and what it returns is fine. -/
def Transforms (context : Object) (c : Value) : Prop :=
  ∃ c', transformCondition (arraysOf context) c = .ok c' ∧ Fine context c'

theorem transformConditions_fine {xs : List Value} :
    (∃ ys, transformConditions (arraysOf context) xs = .ok ys ∧ ∀ y ∈ ys, Fine context y) ↔
      ∀ x ∈ xs, Transforms context x := by
  induction xs with
  | nil => exact iff_of_true ⟨[], rfl, List.forall_mem_nil _⟩ (List.forall_mem_nil _)
  | cons x xs ih =>
      rw [transformConditions_cons, List.forall_mem_cons, ← ih]
      constructor
      · rintro ⟨ys, hys, hfine⟩
        cases hx : transformCondition (arraysOf context) x with
        | error e =>
            rw [hx] at hys
            cases hys
        | ok c =>
            rw [hx] at hys
            cases hxs : transformConditions (arraysOf context) xs with
            | error e =>
                rw [hxs] at hys
                cases hys
            | ok zs =>
                rw [hxs] at hys
                obtain rfl := Except.ok.inj hys
                exact ⟨⟨c, hx, hfine c List.mem_cons_self⟩, zs, rfl,
                  fun y hy => hfine y (List.mem_cons_of_mem _ hy)⟩
      · rintro ⟨⟨c, hc, hfine⟩, zs, hzs, hfines⟩
        refine ⟨c :: zs, ?_, List.forall_mem_cons.mpr ⟨hfine, hfines⟩⟩
        rw [hc, hzs]
        rfl

/-- One connector of a group. -/
theorem connectorItems_fine {m : Object} {c : String}
    (hlist : ∀ v, ObjectMap.get? m c = some v → ∃ xs, v = .list xs) :
    (∃ items, connectorItems (transformConnectors (arraysOf context) m) c = .ok items ∧
        ∀ ys, items = some ys → ∀ y ∈ ys, Fine context y) ↔
      ∀ xs, ObjectMap.get? m c = some (.list xs) → ∀ x ∈ xs, Transforms context x := by
  rw [connectorItems_eq]
  cases hv : ObjectMap.get? m c with
  | none => exact iff_of_true ⟨none, rfl, nofun⟩ nofun
  | some v =>
      obtain ⟨xs, rfl⟩ := hlist v hv
      have hiff := @transformConditions_fine context xs
      constructor
      · rintro ⟨items, hitems, hfine⟩ zs hzs
        obtain rfl := Value.list.inj (Option.some.inj hzs)
        apply hiff.mp
        have hitems : (transformConditions (arraysOf context) xs).map some = .ok items := hitems
        cases hxs : transformConditions (arraysOf context) xs with
        | error e =>
            rw [hxs] at hitems
            cases hitems
        | ok ys =>
            rw [hxs] at hitems
            exact ⟨ys, rfl, hfine ys (Except.ok.inj hitems).symm⟩
      · intro h
        obtain ⟨ys, hys, hfine⟩ := hiff.mpr (h xs rfl)
        refine ⟨some ys, ?_, fun zs hzs => ?_⟩
        · show (transformConditions (arraysOf context) xs).map some = _
          rw [hys]
          rfl
        · obtain rfl := Option.some.inj hzs
          exact hfine

/-- Items come of a connector exactly where it holds a list. -/
theorem connectorItems_isSome {m : Object} {c : String} {items : Option (List Value)}
    (hlist : ∀ v, ObjectMap.get? m c = some v → ∃ xs, v = .list xs)
    (hitems : connectorItems (transformConnectors (arraysOf context) m) c = .ok items) :
    items.isSome = (ObjectMap.get? m c).isSome := by
  rw [connectorItems_eq] at hitems
  cases hv : ObjectMap.get? m c with
  | none =>
      rw [hv] at hitems
      obtain rfl := Except.ok.inj hitems
      rfl
  | some v =>
      obtain ⟨xs, rfl⟩ := hlist v hv
      rw [hv] at hitems
      have hitems : (transformConditions (arraysOf context) xs).map some = .ok items := hitems
      cases hxs : transformConditions (arraysOf context) xs with
      | error e =>
          rw [hxs] at hitems
          cases hitems
      | ok ys =>
          rw [hxs] at hitems
          obtain rfl := Except.ok.inj hitems
          rfl

/-- **Spec.** A group is transformed into a fine one where the items of `and` and `or` are, and
what lies under `none` is fine as it is. -/
theorem transformConditionGroup_fine {m : Object} (hkeys : (ObjectMap.keys m).Nodup)
    (hsome : ∃ c ∈ allConnectors, (ObjectMap.get? m c).isSome = true)
    (hlists : ∀ c ∈ allConnectors, ∀ v, ObjectMap.get? m c = some v → ∃ xs, v = .list xs) :
    (∃ g, transformConditionGroup (arraysOf context) (.map m) = .ok g ∧ Fine context g) ↔
      (∀ c ∈ ["and", "or"], ∀ xs, ObjectMap.get? m c = some (.list xs) →
        ∀ x ∈ xs, Transforms context x) ∧
      ∀ xs, ObjectMap.get? m "none" = some (.list xs) → ∀ x ∈ xs, Fine context x := by
  have hlistAnd := hlists "and" (by simp [allConnectors])
  have hlistOr := hlists "or" (by simp [allConnectors])
  have hand := @connectorItems_fine context m "and" hlistAnd
  have hor := @connectorItems_fine context m "or" hlistOr
  have hrun : transformConditionGroup (arraysOf context) (.map m) =
      (connectorItems (transformConnectors (arraysOf context) m) "and").bind fun ands =>
        (connectorItems (transformConnectors (arraysOf context) m) "or").bind fun ors =>
          .ok (assembleGroup m ands ors) := by
    rw [transformConditionGroup]
    rfl
  -- the names in the assembled group, connector by connector
  have hnames : ∀ ands ors, ands.isSome = (ObjectMap.get? m "and").isSome →
      ors.isSome = (ObjectMap.get? m "or").isSome →
      (Fine context (assembleGroup m ands ors) ↔
        (∀ ys, ands = some ys → ∀ y ∈ ys, Fine context y) ∧
        (∀ ys, ors = some ys → ∀ y ∈ ys, Fine context y) ∧
        ∀ xs, ObjectMap.get? m "none" = some (.list xs) → ∀ x ∈ xs, Fine context x) := by
    intro ands ors hands hors
    obtain ⟨g, hg, hgand, hgor, hgnone⟩ := assembleGroup_eq m ands ors
    have hgnone := hgnone hkeys
    have hgroup : ∃ c ∈ allConnectors, ∃ xs, ObjectMap.get? g c = some (.list xs) := by
      obtain ⟨c, hc, hread⟩ := hsome
      rcases List.mem_cons.mp hc with rfl | hc'
      · obtain ⟨ys, rfl⟩ := Option.isSome_iff_exists.mp (hands.trans hread)
        exact ⟨"and", hc, ys, hgand⟩
      · rcases List.mem_cons.mp hc' with rfl | hc'
        · obtain ⟨ys, rfl⟩ := Option.isSome_iff_exists.mp (hors.trans hread)
          exact ⟨"or", hc, ys, hgor⟩
        · obtain rfl := List.mem_singleton.mp hc'
          obtain ⟨v, hv⟩ := Option.isSome_iff_exists.mp hread
          obtain ⟨xs, rfl⟩ := hlists "none" hc v hv
          exact ⟨"none", hc, xs, hgnone.trans hv⟩
    have hsplit : Fine context (.map g) ↔ ∀ c ∈ allConnectors, ∀ xs,
        ObjectMap.get? g c = some (.list xs) → ∀ x ∈ xs, Fine context x := by
      unfold Fine
      constructor
      · exact fun h c hc xs hxs x hx f hf =>
          h f ((mem_leafNames_group hgroup).mpr ⟨c, hc, xs, hxs, x, hx, hf⟩)
      · intro h f hf
        obtain ⟨c, hc, xs, hxs, x, hx, hf⟩ := (mem_leafNames_group hgroup).mp hf
        exact h c hc xs hxs x hx f hf
    have hmap : ∀ (o : Option (List Value)) xs, o.map Value.list = some (.list xs) ↔ o = some xs := by
      intro o xs
      cases o <;> simp
    rw [hg, hsplit]
    unfold allConnectors
    rw [List.forall_mem_cons, List.forall_mem_cons, List.forall_mem_singleton, hgand, hgor, hgnone]
    simp only [hmap]
  rw [List.forall_mem_cons, List.forall_mem_singleton, ← hand, ← hor, hrun]
  constructor
  · rintro ⟨g, hrun, hfine⟩
    cases hands : connectorItems (transformConnectors (arraysOf context) m) "and" with
    | error e =>
        rw [hands] at hrun
        cases hrun
    | ok ands =>
        cases hors : connectorItems (transformConnectors (arraysOf context) m) "or" with
        | error e =>
            rw [hands, hors] at hrun
            cases hrun
        | ok ors =>
            rw [hands, hors] at hrun
            obtain rfl := Except.ok.inj hrun
            obtain ⟨h₁, h₂, h₃⟩ := (hnames ands ors (connectorItems_isSome hlistAnd hands)
              (connectorItems_isSome hlistOr hors)).mp hfine
            exact ⟨⟨⟨ands, rfl, h₁⟩, ors, rfl, h₂⟩, h₃⟩
  · rintro ⟨⟨⟨ands, hands, h₁⟩, ors, hors, h₂⟩, h₃⟩
    refine ⟨assembleGroup m ands ors, ?_, (hnames ands ors (connectorItems_isSome hlistAnd hands)
      (connectorItems_isSome hlistOr hors)).mpr ⟨h₁, h₂, h₃⟩⟩
    rw [hands, hors]
    rfl

/-- The names in a spread condition. -/
theorem mem_leafNames_spread {m : Object} {connector field operator : String}
    {value : Option Value} {count : ℕ} (hleaf : ∀ c ∈ allConnectors, ObjectMap.get? m c = none)
    (hconnector : connector ∈ allConnectors) (f : String) :
    f ∈ leafNames (.map [(connector, .list ((List.range count).map fun i =>
        .map (withField m (indexedField field i) operator value)))]) ↔
      ∃ i < count, f = indexedField field i := by
  have hpart : ∀ i, leafNames (.map (withField m (indexedField field i) operator value)) =
      [indexedField field i] := by
    intro i
    apply leafNames_leaf
    · rw [get?_withField]
      rfl
    · intro c hc
      have hnone := hleaf c hc
      rw [get?_withField]
      rcases List.mem_cons.mp hc with rfl | hc
      · exact hnone
      · rcases List.mem_cons.mp hc with rfl | hc
        · exact hnone
        · obtain rfl := List.mem_singleton.mp hc
          exact hnone
  generalize hparts : ((List.range count).map fun i =>
    Value.map (withField m (indexedField field i) operator value)) = parts
  have hread : ∀ c, ObjectMap.get? [(connector, Value.list parts)] c =
      if connector = c then some (.list parts) else none := fun c => ObjectMap.get?_cons _ [] c
  rw [mem_leafNames_group ⟨connector, hconnector, parts, (hread connector).trans (if_pos rfl)⟩]
  subst hparts
  constructor
  · rintro ⟨c, -, xs, hxs, x, hx, hf⟩
    rw [hread] at hxs
    split at hxs
    · obtain rfl := Value.list.inj (Option.some.inj hxs)
      obtain ⟨i, hi, rfl⟩ := List.mem_map.mp hx
      rw [hpart] at hf
      exact ⟨i, List.mem_range.mp hi, List.mem_singleton.mp hf⟩
    · cases hxs
  · rintro ⟨i, hi, rfl⟩
    refine ⟨connector, hconnector, _, (hread connector).trans (if_pos rfl),
      .map (withField m (indexedField field i) operator value),
      List.mem_map.mpr ⟨i, List.mem_range.mpr hi, rfl⟩, ?_⟩
    rw [hpart]
    exact List.mem_singleton.mpr rfl

/-- A condition on a field that is looked up. -/
theorem transforms_leaf_iff {m : Object} {field operator : String}
    (hfield : ObjectMap.get? m "field" = some (.str field))
    (hoperator : ObjectMap.get? m "operator" = some (.str operator))
    (hleaf : ∀ c ∈ allConnectors, ObjectMap.get? m c = none) :
    Transforms context (.map m) ↔
      ∀ count, spreadCount context field = some count →
        ∀ i < count, ¬ Removed context (indexedField field i) := by
  have hnested : isNestedGroup (.map m) = false := by
    unfold isNestedGroup
    show (truthyValue (ObjectMap.get? m "and") || truthyValue (ObjectMap.get? m "or")) = false
    rw [hleaf "and" (by simp [allConnectors]), hleaf "or" (by simp [allConnectors])]
    rfl
  have hstep : transformCondition (arraysOf context) (.map m) =
      transformLeaf (arraysOf context) (.map m) := by
    unfold transformCondition
    rw [if_neg nofun, hnested, if_neg Bool.false_ne_true]
  unfold Transforms spreadCount
  rw [hstep, transformLeaf_eq hfield]
  cases hfound : lookupField (arraysOf context) (normalizeFieldName field) with
  | none =>
      refine iff_of_true ⟨.map m, rfl, fun f hf => ?_⟩ nofun
      rw [leafNames_leaf hfield hleaf] at hf
      obtain rfl := List.mem_singleton.mp hf
      rintro ⟨harray, -⟩
      rw [lookupField_arraysOf] at hfound
      cases hv : (ObjectMap.get? (normalized context) (normalizeFieldName f)).bind elements? with
      | none =>
          rw [hv] at harray
          cases harray
      | some xs =>
          rw [hv] at hfound
          cases hfound
  | some found =>
      show (∃ c', spreadCondition m field found.count = .ok c' ∧ Fine context c') ↔ _
      rw [spreadCondition_eq hoperator]
      have hconnector : ∀ operator, getSpreadConnector operator ∈ allConnectors := by
        intro operator
        rcases getSpreadConnector_cases operator with h | h <;> simp [h, allConnectors]
      have hnames := fun f => @mem_leafNames_spread m _ field
        (adaptOperatorForSpread operator (ObjectMap.get? m "value")).1
        (adaptOperatorForSpread operator (ObjectMap.get? m "value")).2 found.count hleaf
        (hconnector (adaptOperatorForSpread operator (ObjectMap.get? m "value")).1) f
      constructor
      · rintro ⟨c, hc, hfine⟩ count hcount i hi
        obtain rfl := Except.ok.inj hc
        obtain rfl := Option.some.inj hcount
        exact hfine _ ((hnames _).mpr ⟨i, hi, rfl⟩)
      · intro h
        refine ⟨_, rfl, fun f hf => ?_⟩
        obtain ⟨i, hi, rfl⟩ := (hnames f).mp hf
        exact h _ rfl i hi

/-- **Main result.** A condition is transformed into a fine one exactly where it is reached. The
induction is on the tree of the condition. -/
theorem reached_iff {c : Value} (hc : IsCondition allConnectors (fun _ => True) c) :
    Transforms context c ↔ Reached context c := by
  induction hc with
  | leaf m field operator hfield hoperator hleaf hknown =>
      rw [transforms_leaf_iff hfield hoperator hleaf]
      constructor
      · exact fun hspread => .leaf m field hfield hleaf hspread
      · intro hreached
        cases hreached with
        | leaf _ field' hfield' hleaf' hspread =>
            rw [hfield] at hfield'
            obtain rfl := Value.str.inj (Option.some.inj hfield')
            exact hspread
        | group _ hsome _ _ =>
            obtain ⟨c, hc, hread⟩ := hsome
            rw [hleaf c (by rcases List.mem_cons.mp hc with rfl | hc <;> simp_all)] at hread
            cases hread
  | group m hkeys hfield hsome hlists hitems ih =>
      have hlists' : ∀ c ∈ allConnectors, ∀ v, ObjectMap.get? m c = some v → ∃ xs, v = .list xs :=
        fun c hc v hv => (hlists c hc v hv).2
      by_cases hwalked : ∃ c ∈ ["and", "or"], (ObjectMap.get? m c).isSome = true
      · have hrun : transformCondition (arraysOf context) (.map m) =
            transformConditionGroup (arraysOf context) (.map m) := by
          unfold transformCondition
          rw [if_neg nofun, isNestedGroup_of_lists hwalked, if_pos rfl]
          exact fun c hc => hlists' c (by rcases List.mem_cons.mp hc with rfl | hc <;> simp_all [allConnectors])
        unfold Transforms
        rw [hrun, transformConditionGroup_fine hkeys hsome hlists']
        constructor
        · rintro ⟨hreach, hnone⟩
          refine .group m hwalked (fun c hc xs hxs x hx => ?_) hnone
          have hmem : c ∈ allConnectors := by
            rcases List.mem_cons.mp hc with rfl | hc <;> simp_all [allConnectors]
          exact (ih c hmem xs hxs x hx).mp (hreach c hc xs hxs x hx)
        · intro hreached
          cases hreached with
          | leaf _ field hfield' _ _ =>
              rw [hfield] at hfield'
              cases hfield'
          | group _ _ hreach hnone =>
              refine ⟨fun c hc xs hxs x hx => ?_, hnone⟩
              have hmem : c ∈ allConnectors := by
                rcases List.mem_cons.mp hc with rfl | hc <;> simp_all [allConnectors]
              exact (ih c hmem xs hxs x hx).mpr (hreach c hc xs hxs x hx)
      · -- a group of `none` alone is taken for a condition, and has no field
        apply iff_of_false
        · rintro ⟨c', hc', -⟩
          have hnone : ∀ c ∈ ["and", "or"], ObjectMap.get? m c = none := by
            intro c hc
            by_contra hne
            exact hwalked ⟨c, hc, Option.isSome_iff_ne_none.mpr hne⟩
          have herror : transformCondition (arraysOf context) (.map m) =
              .error ⟨"Cannot read properties of undefined (reading 'startsWith')"⟩ := by
            unfold transformCondition isNestedGroup
            show (if _ then _ else if (truthyValue (ObjectMap.get? m "and") ||
              truthyValue (ObjectMap.get? m "or")) = true then _ else _) = _
            rw [if_neg nofun, hnone "and" (by simp), hnone "or" (by simp)]
            show (textOf (ObjectMap.get? m "field") "field" "startsWith").bind _ = _
            rw [hfield]
            rfl
          rw [herror] at hc'
          cases hc'
        · intro hreached
          cases hreached with
          | leaf _ field hfield' _ _ =>
              rw [hfield] at hfield'
              cases hfield'
          | group _ hsome' _ _ => exact hwalked hsome'

end Walk

/-! ### Rules -/

section Rules

variable {context : Object}

/-- A group of the rule. -/
theorem groupReached_iff {g : Value} (hg : IsGroup allConnectors (fun _ => True) g) :
    (∃ g', transformConditionGroup (arraysOf context) g = .ok g' ∧ Fine context g') ↔
      GroupReached context g := by
  obtain ⟨hcondition, m, rfl, hsome⟩ := hg
  have hreach := @reached_iff context _ hcondition
  cases hcondition with
  | leaf _ field operator hfield hoperator hleaf hknown =>
      obtain ⟨c, hc, hread⟩ := hsome
      rw [hleaf c hc] at hread
      cases hread
  | group _ hkeys hfield hsome hlists hitems =>
      have hlists' : ∀ c ∈ allConnectors, ∀ v, ObjectMap.get? m c = some v → ∃ xs, v = .list xs :=
        fun c hc v hv => (hlists c hc v hv).2
      by_cases hwalked : ∃ c ∈ ["and", "or"], (ObjectMap.get? m c).isSome = true
      · have hrun : transformCondition (arraysOf context) (.map m) =
            transformConditionGroup (arraysOf context) (.map m) := by
          unfold transformCondition
          rw [if_neg nofun, isNestedGroup_of_lists hwalked, if_pos rfl]
          intro c hc
          apply hlists' c
          rcases List.mem_cons.mp hc with rfl | hc <;> simp_all [allConnectors]
        unfold Transforms at hreach
        rw [hrun] at hreach
        rw [hreach]
        refine ⟨.inl, fun h => h.elim id ?_⟩
        rintro ⟨hand, hor, -⟩
        obtain ⟨c, hc, hread⟩ := hwalked
        have hand : ObjectMap.get? m "and" = none := hand
        have hor : ObjectMap.get? m "or" = none := hor
        rcases List.mem_cons.mp hc with rfl | hc
        · rw [hand] at hread
          cases hread
        · obtain rfl := List.mem_singleton.mp hc
          rw [hor] at hread
          cases hread
      · have hnone : ∀ c ∈ ["and", "or"], ObjectMap.get? m c = none := by
          intro c hc
          by_contra hne
          exact hwalked ⟨c, hc, Option.isSome_iff_ne_none.mpr hne⟩
        have hand := hnone "and" (by simp)
        have hor := hnone "or" (by simp)
        have hlisted : ∃ c ∈ allConnectors, ∃ xs, ObjectMap.get? m c = some (.list xs) := by
          obtain ⟨c, hc, hread⟩ := hsome
          obtain ⟨v, hv⟩ := Option.isSome_iff_exists.mp hread
          obtain ⟨xs, rfl⟩ := hlists' c hc v hv
          exact ⟨c, hc, xs, hv⟩
        have hfine : Fine context (.map m) ↔
            ∀ xs, ObjectMap.get? m "none" = some (.list xs) → ∀ x ∈ xs, Fine context x := by
          unfold Fine
          constructor
          · exact fun h xs hxs x hx f hf =>
              h f ((mem_leafNames_group hlisted).mpr ⟨"none", by simp [allConnectors], xs, hxs, x, hx, hf⟩)
          · intro h f hf
            obtain ⟨c, hc, xs, hxs, x, hx, hf⟩ := (mem_leafNames_group hlisted).mp hf
            rcases List.mem_cons.mp hc with rfl | hc
            · rw [hand] at hxs
              cases hxs
            · rcases List.mem_cons.mp hc with rfl | hc
              · rw [hor] at hxs
                cases hxs
              · obtain rfl := List.mem_singleton.mp hc
                exact h xs hxs x hx f hf
        rw [transformConditionGroup_fine hkeys hsome hlists', ← hfine]
        constructor
        · exact fun h => .inr ⟨hand, hor, h.2⟩
        · rintro (hreached | ⟨-, -, h⟩)
          · cases hreached with
            | leaf _ field hfield' _ _ =>
                rw [hfield] at hfield'
                cases hfield'
            | group _ hsome' _ _ => exact absurd hsome' hwalked
          · refine ⟨fun c hc xs hxs => ?_, h⟩
            rw [hnone c hc] at hxs
            cases hxs

theorem mapM_fine {groups : List Value} :
    (∃ gs, groups.mapM (transformConditionGroup (arraysOf context)) = .ok gs ∧
        ∀ g ∈ gs, Fine context g) ↔
      ∀ g ∈ groups, ∃ g', transformConditionGroup (arraysOf context) g = .ok g' ∧
        Fine context g' := by
  induction groups with
  | nil => exact iff_of_true ⟨[], rfl, List.forall_mem_nil _⟩ (List.forall_mem_nil _)
  | cons g groups ih =>
      rw [List.mapM_cons, List.forall_mem_cons, ← ih]
      constructor
      · rintro ⟨gs, hgs, hfine⟩
        cases hg : transformConditionGroup (arraysOf context) g with
        | error e =>
            rw [hg] at hgs
            cases hgs
        | ok g' =>
            rw [hg] at hgs
            cases hrest : groups.mapM (transformConditionGroup (arraysOf context)) with
            | error e =>
                rw [hrest] at hgs
                cases hgs
            | ok rest =>
                rw [hrest] at hgs
                obtain rfl := Except.ok.inj hgs
                exact ⟨⟨g', rfl, hfine g' List.mem_cons_self⟩, rest, rfl,
                  fun x hx => hfine x (List.mem_cons_of_mem _ hx)⟩
      · rintro ⟨⟨g', hg, hfine⟩, rest, hrest, hfines⟩
        refine ⟨g' :: rest, ?_, List.forall_mem_cons.mpr ⟨hfine, hfines⟩⟩
        rw [hg, hrest]
        rfl

/-- The rewriting returns, and no condition of the rule it returns names an array field that the
context it returns does not hold. -/
def ReachesAll (env : RuleEnv) (context : Object) (rule : Value) : Prop :=
  ∃ s, spreadArrayFields (flattenContext context) rule = .ok s ∧
    ∀ f ∈ ruleLeafNames env s.transformedRule, ¬ Dangles context s.transformedContext f

/-- A name dangles in the context that the spreading returns where it is removed. -/
theorem dangles_iff {transformed : Object}
    (hreads : ∀ k, ObjectMap.get? transformed k = ObjectMap.get? (spreadOf context) k) (f : String) :
    Dangles context transformed f ↔ Removed context f := by
  unfold Dangles Removed arraysOf
  rw [get?_arrayFieldsOf, hreads]
  apply and_congr_right
  intro harray
  have hne : normalizeFieldName f ≠ "__proto__" := by
    intro hproto
    rw [hproto, get?_normalized_proto] at harray
    cases harray
  exact get?_setProperties_eq_none_iff hne

/-- Beside an array, what the spreading makes of the context and of the rule. -/
theorem reachesAll_iff {env : RuleEnv} {rule : Value} (hfull : (arraysOf context).isEmpty = false) :
    ReachesAll env context rule ↔ NamesOwn (normalized context) ∧
      ∃ r, transformRule (arraysOf context) rule = .ok r ∧
        ∀ f ∈ ruleLeafNames env r, ¬ Removed context f := by
  constructor
  · rintro ⟨s, hs, hnames⟩
    obtain ⟨hown, hreads⟩ := spreadArrayFields_ok hs
    have hnames := fun f hf => mt (dangles_iff hreads f).mpr (hnames f hf)
    refine ⟨hown hfull, s.transformedRule, ?_, hnames⟩
    rw [spreadArrayFields_eq, hfull, if_neg Bool.false_ne_true, if_pos (hown hfull)] at hs
    cases hrule : transformRule (arraysOf context) rule with
    | error e =>
        rw [hrule] at hs
        cases hs
    | ok r =>
        rw [hrule] at hs
        obtain rfl := Except.ok.inj hs
        rfl
  · rintro ⟨hown, r, hr, hnames⟩
    refine ⟨⟨spreadOf context, r⟩, ?_, fun f hf => ?_⟩
    · rw [spreadArrayFields_eq, hfull, if_neg Bool.false_ne_true, if_pos hown, hr]
      rfl
    · exact mt (dangles_iff (fun _ => rfl) f).mp (hnames f hf)

theorem ruleReached_list (env : RuleEnv) {m : Object} {groups : List Value}
    (h : ObjectMap.get? m "conditions" = some (.list groups)) :
    RuleReached env context (.map m) ↔ ∀ g ∈ groups, GroupReached context g := by
  have hmember : (Value.map m).member "conditions" = some (.list groups) := h
  unfold RuleReached
  rw [hmember]

/-- **Main result.** The rewriting of an accepted rule leaves no condition on a key that is gone,
exactly where no entry beside the arrays has an inherited name and the rule is reached. -/
theorem spread_reaches_iff (env : RuleEnv)
    (hengine : ∀ v, env.engineError v = none → RuleShape v) (db : RuleDb) (rule : Value)
    (hvalid : (validateRule env rule db).1 = .ok ()) (context : Object)
    (hfull : (arraysOf context).isEmpty = false) :
    ReachesAll env context rule ↔
      NamesOwn (normalized context) ∧ RuleReached env context rule := by
  rw [reachesAll_iff hfull]
  apply and_congr_right
  intro _
  -- a rule that is not walked stays as it is
  have hkept : ∀ r, transformRule (arraysOf context) rule = .ok r → r = rule →
      ((∃ r, transformRule (arraysOf context) rule = .ok r ∧
          ∀ f ∈ ruleLeafNames env r, ¬ Removed context f) ↔
        ∀ f ∈ ruleLeafNames env rule, ¬ Removed context f) := by
    rintro r hr rfl
    constructor
    · rintro ⟨r', hr', hnames⟩
      rw [hr] at hr'
      obtain rfl := Except.ok.inj hr'
      exact hnames
    · exact fun hnames => ⟨r, hr, hnames⟩
  obtain ⟨m, hm, hshape⟩ := hengine _ (validateRule_passed hvalid).1
  cases rule with
  | str text => exact hkept _ rfl rfl
  | map m' =>
      obtain rfl : m' = m := Value.map.inj hm
      rcases hshape with ⟨groups, hgroups, hall⟩ | ⟨g, hg, hgroup⟩
      · have hnames : ∀ gs f, f ∈ ruleLeafNames env
            (.map (ObjectMap.set m' "conditions" (.list gs))) ↔ ∃ g ∈ gs, f ∈ leafNames g := by
          intro gs f
          have hlist : ruleGroups (.map (ObjectMap.set m' "conditions" (.list gs))) = gs := by
            apply ruleGroups_list
            rw [ObjectMap.get?_set, if_pos rfl]
          show f ∈ (ruleGroups (.map (ObjectMap.set m' "conditions" (.list gs)))).flatMap leafNames ↔ _
          rw [hlist, List.mem_flatMap]
        have hmap := @mapM_fine context groups
        rw [ruleReached_list env hgroups, transformRule_list hgroups]
        constructor
        · rintro ⟨r, hr, hfine⟩ g hg
          cases hgs : groups.mapM (transformConditionGroup (arraysOf context)) with
          | error e =>
              rw [hgs] at hr
              cases hr
          | ok gs =>
              rw [hgs] at hr
              obtain rfl := Except.ok.inj hr
              exact (groupReached_iff (hall g hg)).mp (hmap.mp ⟨gs, hgs, fun x hx f hf =>
                hfine f ((hnames gs f).mpr ⟨x, hx, hf⟩)⟩ g hg)
        · intro hall'
          obtain ⟨gs, hgs, hfine⟩ := hmap.mpr fun g hg =>
            (groupReached_iff (hall g hg)).mpr (hall' g hg)
          refine ⟨_, by rw [hgs]; rfl, fun f hf => ?_⟩
          obtain ⟨x, hx, hf⟩ := (hnames gs f).mp hf
          exact hfine x hx f hf
      · obtain ⟨-, n, rfl, -⟩ := hgroup
        have hmember : (Value.map m').member "conditions" = some (.map n) := hg
        have hrun : transformRule (arraysOf context) (.map m') = .ok (.map m') := by
          unfold transformRule
          dsimp only
          rw [hg]
          rfl
        have hreached : RuleReached env context (.map m') ↔
            ∀ f ∈ ruleLeafNames env (.map m'), ¬ Removed context f := by
          unfold RuleReached
          rw [hmember]
        rw [hreached]
        exact hkept _ hrun rfl
  | null => cases hm
  | bool b => cases hm
  | num n => cases hm
  | list xs => cases hm

end Rules

/-! ### Small rules -/

/-- An engine that takes the given rules, and no text that parses. -/
def listedEnv (accepted : List Value) : RuleEnv where
  uuid := "new"
  now := 1
  jsonParse := fun _ => none
  engineError := fun v => if v ∈ accepted then none else some "Invalid rule structure"

/-- A database in which the fields of the small rule are known. -/
def smallFields : RuleDb := { emptyRules [] [] [] [] with ruleFields := ["$.device.type", "groups"] }

instance (context : Object) (field : String) : Decidable (Removed context field) :=
  inferInstanceAs (Decidable (_ ∧ _))

theorem smallRule_shape : RuleShape smallRule := by
  refine ⟨_, rfl, .inl ⟨_, rfl, fun g hg => ?_⟩⟩
  obtain rfl := List.mem_singleton.mp hg
  exact smallGroup_isGroup (by simp [allConnectors]) trivial trivial

theorem smallRule_reached : ReachesAll (listedEnv [smallRule]) smallContext smallRule := by
  have hengine : ∀ v, (listedEnv [smallRule]).engineError v = none → RuleShape v := by
    intro v hv
    have hmem : v ∈ [smallRule] := by
      by_contra hnot
      have hv : (if v ∈ [smallRule] then none else some "Invalid rule structure") =
          (none : Option String) := hv
      rw [if_neg hnot] at hv
      cases hv
    obtain rfl := List.mem_singleton.mp hmem
    exact smallRule_shape
  have hleaf : ∀ m field, ObjectMap.get? m "field" = some (.str field) →
      (∀ c ∈ allConnectors, ObjectMap.get? m c = none) → spreadCount smallContext field = some 2 →
      (∀ i < 2, ¬ Removed smallContext (indexedField field i)) → Reached smallContext (.map m) := by
    intro m field hfield hplain hcount hspread
    refine .leaf m field hfield hplain fun count h => ?_
    obtain rfl := Option.some.inj (hcount.symm.trans h)
    exact hspread
  refine (spread_reaches_iff (listedEnv [smallRule]) hengine smallFields smallRule (by decide +kernel)
    smallContext (by decide +kernel)).mpr ⟨by decide +kernel, fun g hg => .inl ?_⟩
  obtain rfl := List.mem_singleton.mp hg
  refine .group _ ⟨"and", by simp, rfl⟩ (fun c hc xs hxs x hx => ?_) (fun xs hxs => by cases hxs)
  rcases List.mem_cons.mp hc with rfl | hc
  · obtain rfl := Value.list.inj (Option.some.inj hxs)
    rcases List.mem_cons.mp hx with rfl | hx
    · exact hleaf _ "$.device.type" rfl (by decide) (by decide +kernel) (by decide +kernel)
    · obtain rfl := List.mem_singleton.mp hx
      exact hleaf _ "groups" rfl (by decide) (by decide +kernel) (by decide +kernel)
  · obtain rfl := List.mem_singleton.mp hc
    cases hxs

/-- The condition of the rules below. -/
def groupsCondition : Value :=
  .map [("field", .str "groups"), ("operator", .str "in"), ("value", .list [.str "a"])]

/-- A group of `none` inside another stops the rewriting. -/
def nestedNone : Value := .map [("conditions", .list [.map [("and", .list [
  .map [("none", .list [groupsCondition])]])]])]

/-- A group of `none` and conditions that are one group are not rewritten. -/
def topNone : Value := .map [("conditions", .list [.map [("none", .list [groupsCondition])]])]

def oneGroup : Value := .map [("conditions", .map [("and", .list [groupsCondition])])]

theorem groupsCondition_isCondition : IsCondition allConnectors (fun _ => True) groupsCondition :=
  .leaf _ "groups" "in" rfl rfl (by decide) trivial

theorem unreached_conditions :
    (RuleShape nestedNone ∧
      (validateRule (listedEnv [nestedNone]) nestedNone smallFields).1 = .ok () ∧
      ¬ ReachesAll (listedEnv [nestedNone]) smallContext nestedNone) ∧
    (RuleShape topNone ∧ (validateRule (listedEnv [topNone]) topNone smallFields).1 = .ok () ∧
      ¬ ReachesAll (listedEnv [topNone]) smallContext topNone) ∧
    (RuleShape oneGroup ∧ (validateRule (listedEnv [oneGroup]) oneGroup smallFields).1 = .ok () ∧
      ¬ ReachesAll (listedEnv [oneGroup]) smallContext oneGroup) := by
  have hnone : IsGroup allConnectors (fun _ => True) (.map [("none", .list [groupsCondition])]) :=
    isGroup_of_items (by simp [allConnectors]) (by simp) fun x hx =>
      List.mem_singleton.mp hx ▸ groupsCondition_isCondition
  have hand : ∀ c, IsCondition allConnectors (fun _ => True) c →
      IsGroup allConnectors (fun _ => True) (.map [("and", .list [c])]) := fun c hc =>
    isGroup_of_items (by simp [allConnectors]) (by simp) fun x hx => List.mem_singleton.mp hx ▸ hc
  refine ⟨⟨⟨_, rfl, .inl ⟨_, rfl, fun g hg => List.mem_singleton.mp hg ▸ hand _ hnone.1⟩⟩,
    by decide +kernel, ?_⟩, ⟨⟨_, rfl, .inl ⟨_, rfl, fun g hg => List.mem_singleton.mp hg ▸ hnone⟩⟩,
    by decide +kernel, ?_⟩, ⟨_, rfl, .inr ⟨_, rfl, hand _ groupsCondition_isCondition⟩⟩,
    by decide +kernel, ?_⟩
  · rintro ⟨s, hs, -⟩
    have herror : (spreadArrayFields (flattenContext smallContext) nestedNone).isOk = false := by
      decide +kernel
    rw [hs] at herror
    cases herror
  · rintro ⟨s, hs, hnames⟩
    have hdangles : ∀ s ∈ (spreadArrayFields (flattenContext smallContext) topNone).toOption,
        "groups" ∈ ruleLeafNames (listedEnv [topNone]) s.transformedRule ∧
          Dangles smallContext s.transformedContext "groups" := by
      decide +kernel
    obtain ⟨hname, hgone⟩ := hdangles s (by rw [hs]; rfl)
    exact hnames _ hname hgone
  · rintro ⟨s, hs, hnames⟩
    have hdangles : ∀ s ∈ (spreadArrayFields (flattenContext smallContext) oneGroup).toOption,
        "groups" ∈ ruleLeafNames (listedEnv [oneGroup]) s.transformedRule ∧
          Dangles smallContext s.transformedContext "groups" := by
      decide +kernel
    obtain ⟨hname, hgone⟩ := hdangles s (by rw [hs]; rfl)
    exact hnames _ hname hgone

end RuleEvaluationService

end UploadService
