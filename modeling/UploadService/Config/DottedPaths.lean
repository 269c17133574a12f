import UploadService.Config.OwnPaths

/-!
# Dotted paths as a lens

The path helpers of the config service on what a program of the runtime sees of a document: beside
its own properties a value has those it inherits (`toString`, `__proto__`). `Runtime` says what is
inherited; a walk that comes to write or delete in a built-in has left the document.

On a document of mappings and scalars the helpers are a lens, but for one thing: `setByPath` looks
whether it stands on an object, and `deleteByPath` does not, so the length or a code unit of a text
is not deleted: the `delete` throws.

Main results: `setByPath_eq` and `deleteByPath_eq`, the edits of the document alone;
`lensLaws_iff`; counterexample `text_length_not_deleted`.
-/

namespace UploadService

/-- What a walk holds: a value of the document, or a built-in. -/
inductive Held (β : Type) where
  | value (v : Value)
  | builtIn (b : β)
  deriving DecidableEq, Repr

/-- An inherited property: what it holds, and whether an assignment calls a setter. -/
structure Inherited (β : Type) where
  held : β
  setter : Bool

/-- What values have from the runtime. -/
structure Runtime (β : Type) where
  inherited : Value → String → Option (Inherited β)
  /-- the properties of a built-in -/
  property : β → String → Option β
  /-- `typeof b === 'object'` -/
  isObject : β → Bool

/-- Why an edit ends early: a `TypeError`, or the walk has left the document. -/
inductive Stop where
  | typeError
  | leaves
  deriving DecidableEq, Repr

namespace Runtime

variable {β : Type} (rt : Runtime β)

/-- `curr?.[key]`. -/
def read : Held β → String → Option (Held β)
  | .value v, key =>
      if v = .null then none
      else match v.ownProperty key with
        | some c => some (.value c)
        | none => (rt.inherited v key).map fun i => .builtIn i.held
  | .builtIn b, key => (rt.property b key).map .builtIn

/-- The walk of `getByPath`. -/
def getIn : Option (Held β) → List String → Option (Held β)
  | curr, [] => curr
  | curr, key :: keys => getIn (curr.bind fun held => rt.read held key) keys

/-- `curr[key] = x`. -/
def assign (v : Value) (key : String) (x : Value) : Except Stop Value :=
  match v.ownProperty key, rt.inherited v key with
  | none, some ⟨_, true⟩ => .error .leaves
  | _, _ => .ok (v.setMember key x)

/-- The object a walk of `setByPath` goes on in; what is none gives way to a new one. -/
def descend (v : Value) (key : String) : Except Stop Value :=
  let fresh := (rt.assign v key (.map [])).map fun _ => .map []
  match rt.read (.value v) key with
  | some (.value c) => if c.isContainer then .ok c else fresh
  | some (.builtIn b) => if rt.isObject b then .error .leaves else fresh
  | none => fresh

/-- The walk of `setByPath`. -/
def setIn (v : Value) (parts : List String) (x : Value) : Except Stop Value :=
  match parts with
  | [] => .ok v
  | [key] => rt.assign v key x
  | key :: keys => do
      let child ← rt.descend v key
      let child ← setIn child keys x
      pure (v.setMember key child)

/-- `delete v[key]` throws: the property is the value's own for good. -/
def nonConfigurable (v : Value) (key : String) : Bool :=
  match v with
  | .str _ => (v.ownProperty key).isSome
  | .list _ => key == "length"
  | _ => false

/-- The walk of `deleteByPath`. -/
def eraseIn (v : Value) (parts : List String) : Except Stop Value :=
  match parts with
  | [] => .ok v
  | [key] => if nonConfigurable v key then .error .typeError else .ok (v.eraseMember key)
  | key :: keys =>
      match rt.read (.value v) key with
      | none | some (.value .null) => .ok v
      | some (.value c) => (eraseIn c keys).map (v.setMember key)
      | some (.builtIn _) => .error .leaves

def getByPath (obj : Object) (path : String) : Option (Held β) :=
  rt.getIn (some (.value (.map obj))) (pathParts path)

def setByPath (obj : Object) (path : String) (x : Value) : Except Stop Object :=
  (rt.setIn (.map obj) (pathParts path) x).map Value.entries

def deleteByPath (obj : Object) (path : String) : Except Stop Object :=
  (rt.eraseIn (.map obj) (pathParts path)).map Value.entries

/-! ### The laws -/

/-- A mapping or nothing. -/
def IsOpen : Option (Held β) → Prop
  | none | some (.value .null) | some (.value (.map _)) => True
  | _ => False

/-- Every proper prefix of the path holds a mapping or nothing. -/
def Open (obj : Object) (path : String) : Prop :=
  ∀ pre post, pathParts path = pre ++ post → post ≠ [] →
    IsOpen (rt.getIn (some (.value (.map obj))) pre)

/-- Neither path is a prefix of the other. -/
def Apart (path path' : String) : Prop :=
  ¬ pathParts path <+: pathParts path' ∧ ¬ pathParts path' <+: pathParts path

/-- What is written is read back, what is deleted is gone, and neither edit changes what stands
under a path apart. -/
structure LensLaws (obj : Object) (p q : String) (x : Value) : Prop where
  get_set : ∃ obj', rt.setByPath obj p x = .ok obj' ∧ rt.getByPath obj' p = some (.value x)
  get_set_apart : Apart p q → rt.Open obj p →
    ∃ obj', rt.setByPath obj p x = .ok obj' ∧ rt.getByPath obj' q = rt.getByPath obj q
  get_delete : ∃ obj', rt.deleteByPath obj p = .ok obj' ∧ rt.getByPath obj' p = none
  get_delete_apart : Apart p q → rt.Open obj p →
    ∃ obj', rt.deleteByPath obj p = .ok obj' ∧ rt.getByPath obj' q = rt.getByPath obj q

/-- No part of the path is the name of an inherited property. -/
def Plain (path : String) : Prop := ∀ v, ∀ key ∈ pathParts path, rt.inherited v key = none

/-- The path leads to a property of a text. -/
def IntoText (obj : Object) (path : String) : Prop :=
  ∃ pre key s, pathParts path = pre ++ [key] ∧
    rt.getIn (some (.value (.map obj))) pre = some (.value (.str s)) ∧ Value.TextHas s key

/-! ### Plain paths -/

variable {rt}

theorem read_of_plain {v : Value} {key : String} (h : rt.inherited v key = none) :
    rt.read (.value v) key = (v.ownProperty key).map .value := by
  unfold read
  dsimp only
  split
  · rename_i hnull
    rw [hnull]
    rfl
  · rw [h]
    cases v.ownProperty key with
    | none => rfl
    | some c => rfl

theorem assign_of_plain {v : Value} {key : String} (h : rt.inherited v key = none) (x : Value) :
    rt.assign v key x = .ok (v.setMember key x) := by
  unfold assign
  rw [h]
  split
  · rename_i heq
    cases heq
  · rfl

/-- **Run.** On a plain path a document is read as it is. -/
theorem getIn_of_plain {parts : List String} (h : ∀ v, ∀ key ∈ parts, rt.inherited v key = none) :
    ∀ curr : Option Value, rt.getIn (curr.map .value) parts = (Value.ownIn curr parts).map .value := by
  induction parts with
  | nil => exact fun _ => rfl
  | cons key keys ih =>
      intro curr
      have hkeys := ih fun v k hk => h v k (List.mem_cons_of_mem key hk)
      cases curr with
      | none => exact hkeys none
      | some v =>
          show rt.getIn (rt.read (.value v) key) keys = _
          rw [read_of_plain (h v key List.mem_cons_self)]
          exact hkeys (v.ownProperty key)

theorem Plain.getByPath {path : String} (h : rt.Plain path) (obj : Object) :
    rt.getByPath obj path = (Value.ownIn (some (.map obj)) (pathParts path)).map .value :=
  getIn_of_plain h (some (.map obj))

/-- **Run.** On a plain path an edit changes the document alone. -/
theorem setIn_of_plain {parts : List String} (h : ∀ v, ∀ key ∈ parts, rt.inherited v key = none)
    (x : Value) : ∀ {m : Object}, Value.Nested (.map m) →
      rt.setIn (.map m) parts x = .ok (UploadService.setIn (.map m) parts x) := by
  induction parts with
  | nil => exact fun _ => rfl
  | cons key keys ih =>
      intro m hm
      have hkey := h (.map m) key List.mem_cons_self
      by_cases hkeys : keys = []
      · rw [hkeys]
        exact assign_of_plain hkey x
      have hlist : ∀ xs, ObjectMap.get? m key ≠ some (.list xs) := fun xs hget => hm.get? hget
      have hlevel := hm.levelAt key
      have hdescend : rt.descend (.map m) key = .ok (.map (Value.levelAt m key)) := by
        have hread : rt.read (.value (.map m)) key = (ObjectMap.get? m key).map .value :=
          read_of_plain hkey
        unfold descend Value.levelAt
        rw [hread, assign_of_plain hkey]
        cases hget : ObjectMap.get? m key with
        | none => rfl
        | some c =>
            cases c with
            | list xs => exact absurd hget (hlist xs)
            | _ => rfl
      have hrun := ih (fun v k hk => h v k (List.mem_cons_of_mem key hk)) hlevel
      rw [Value.setIn_map_cons hkeys hlist]
      cases keys with
      | nil => exact absurd rfl hkeys
      | cons k ks =>
          show (rt.descend (.map m) key >>= fun child => rt.setIn child (k :: ks) x >>= fun child =>
            pure ((Value.map m).setMember key child)) = _
          rw [hdescend]
          show (rt.setIn (.map (Value.levelAt m key)) (k :: ks) x >>= fun child =>
            pure ((Value.map m).setMember key child)) = _
          rw [hrun]
          rfl

/-- **Spec.** The write of a plain path is the write of the document alone. -/
theorem setByPath_eq {obj : Object} (hobj : Value.Nested (.map obj)) {path : String}
    (h : rt.Plain path) (x : Value) :
    rt.setByPath obj path x = .ok (UploadService.setByPath obj path x) := by
  unfold setByPath
  rw [setIn_of_plain h x hobj]
  rfl

/-! ### Deleting -/

theorem eraseIn_of_absent {v : Value} {key : String} {keys : List String} (hkeys : keys ≠ [])
    (hread : rt.read (.value v) key = none ∨ rt.read (.value v) key = some (.value .null)) :
    rt.eraseIn v (key :: keys) = .ok v := by
  cases keys with
  | nil => exact absurd rfl hkeys
  | cons k ks =>
      rcases hread with hread | hread
      · simp only [eraseIn, hread]
      · simp only [eraseIn, hread]

theorem eraseIn_of_read {v c : Value} {key : String} {keys : List String} (hkeys : keys ≠ [])
    (hread : rt.read (.value v) key = some (.value c)) (hc : c ≠ .null) :
    rt.eraseIn v (key :: keys) = (rt.eraseIn c keys).map (v.setMember key) := by
  cases keys with
  | nil => exact absurd rfl hkeys
  | cons k ks =>
      cases c with
      | null => exact absurd rfl hc
      | _ => simp only [eraseIn, hread]

/-- **Run.** Where a plain path leads to a property of a text, the `delete` throws. -/
theorem eraseIn_throws {pre : List String} {key s : String} (hhas : Value.TextHas s key) :
    ∀ {v : Value}, (∀ v, ∀ k ∈ pre ++ [key], rt.inherited v k = none) →
      Value.ownIn (some v) pre = some (.str s) → rt.eraseIn v (pre ++ [key]) = .error .typeError := by
  induction pre with
  | nil =>
      intro v _ hs
      obtain rfl := Option.some.inj hs
      have hproperty : ((Value.str s).ownProperty key).isSome = true := by
        rw [← Option.ne_none_iff_isSome]
        exact fun hnone => Value.ownProperty_str.mp hnone hhas
      exact if_pos hproperty
  | cons k pre ih =>
      intro v h hs
      have hread := read_of_plain (h v k List.mem_cons_self)
      have hown : Value.ownIn (v.ownProperty k) pre = some (.str s) := hs
      cases hc : v.ownProperty k with
      | none =>
          rw [hc, Value.ownIn_none] at hown
          cases hown
      | some c =>
          rw [hc] at hown hread
          have hnull : c ≠ .null := by
            rintro rfl
            cases pre with
            | nil => cases hown
            | cons j pre =>
                have hnone : Value.ownIn none pre = some (.str s) := hown
                rw [Value.ownIn_none] at hnone
                cases hnone
          have hrest := ih (fun v j hj => h v j (List.mem_cons_of_mem k hj)) hown
          rw [List.cons_append, eraseIn_of_read (List.append_ne_nil_of_right_ne_nil pre
            (List.cons_ne_nil key [])) hread hnull, hrest]
          rfl

/-- **Run.** Elsewhere the delete of a plain path is the delete in the document alone. -/
theorem eraseIn_of_plain {parts : List String}
    (h : ∀ v, ∀ key ∈ parts, rt.inherited v key = none) :
    ∀ {v : Value}, Value.Nested v → ¬ Value.IntoText v parts →
      rt.eraseIn v parts = .ok (UploadService.eraseIn v parts) := by
  induction parts with
  | nil => exact fun _ _ => rfl
  | cons key keys ih =>
      intro v hv hnot
      have hread := read_of_plain (h v key List.mem_cons_self)
      have hrest := @ih fun v k hk => h v k (List.mem_cons_of_mem key hk)
      by_cases hkeys : keys = []
      · subst hkeys
        have hdelete : nonConfigurable v key = false := by
          cases v with
          | str s =>
              have hnone : (Value.str s).ownProperty key = none :=
                Value.ownProperty_str.mpr fun hhas => hnot ⟨[], key, s, rfl, rfl, hhas⟩
              show ((Value.str s).ownProperty key).isSome = false
              rw [hnone]
              rfl
          | list xs => exact absurd hv id
          | _ => rfl
        exact if_neg (by rw [hdelete]; exact Bool.false_ne_true)
      cases hc : v.ownProperty key with
      | none =>
          rw [hc] at hread
          rw [eraseIn_of_absent hkeys (.inl hread), Value.eraseIn_of_absent hv hkeys (.inl hc)]
      | some c =>
          rw [hc] at hread
          by_cases hnull : c = .null
          · rw [hnull] at hread hc
            rw [eraseIn_of_absent hkeys (.inr hread), Value.eraseIn_of_absent hv hkeys (.inr hc)]
          · rw [eraseIn_of_read hkeys hread hnull,
              hrest (hv.ownProperty hc) fun hinto => hnot (hinto.cons hc),
              Value.eraseIn_of_own hv hkeys hc hnull]
            rfl

/-! ### The laws hold -/

theorem Plain.getIn_part {path : String} (h : rt.Plain path) {obj : Object} {pre post : List String}
    (hparts : pathParts path = pre ++ post) :
    rt.getIn (some (.value (.map obj))) pre =
      (Value.ownIn (some (.map obj)) pre).map .value := by
  refine getIn_of_plain (fun v key hkey => h v key ?_) (some (.map obj))
  rw [hparts]
  exact List.mem_append_left post hkey

theorem Open.openIn {obj : Object} {path : String} (h : rt.Open obj path) (hpath : rt.Plain path) :
    Value.OpenIn (.map obj) (pathParts path) := by
  intro pre post hparts hpost
  have hopen := h pre post hparts hpost
  rw [hpath.getIn_part hparts] at hopen
  cases hown : Value.ownIn (some (.map obj)) pre with
  | none => trivial
  | some v =>
      rw [hown] at hopen
      cases v with
      | null => trivial
      | map m => trivial
      | _ => cases hopen

theorem intoText_iff {obj : Object} {path : String} (hpath : rt.Plain path) :
    rt.IntoText obj path ↔ Value.IntoText (.map obj) (pathParts path) := by
  have hsame : ∀ pre key s, pathParts path = pre ++ [key] →
      (rt.getIn (some (.value (.map obj))) pre = some (.value (.str s)) ↔
        Value.ownIn (some (.map obj)) pre = some (.str s)) := by
    intro pre key s hparts
    rw [hpath.getIn_part hparts]
    cases Value.ownIn (some (.map obj)) pre with
    | none => simp
    | some v => simp
  constructor
  · rintro ⟨pre, key, s, hparts, hs, hhas⟩
    exact ⟨pre, key, s, hparts, (hsame pre key s hparts).mp hs, hhas⟩
  · rintro ⟨pre, key, s, hparts, hs, hhas⟩
    exact ⟨pre, key, s, hparts, (hsame pre key s hparts).mpr hs, hhas⟩

/-- **Spec.** The delete of a plain path throws or is the delete in the document alone. -/
theorem deleteByPath_eq {obj : Object} (hobj : Value.Nested (.map obj)) {path : String}
    (h : rt.Plain path) :
    (rt.IntoText obj path → rt.deleteByPath obj path = .error .typeError) ∧
      (¬ rt.IntoText obj path →
        rt.deleteByPath obj path = .ok (UploadService.deleteByPath obj path)) := by
  rw [intoText_iff h]
  unfold deleteByPath
  constructor
  · rintro ⟨pre, key, s, hparts, hs, hhas⟩
    have hplain := h
    unfold Plain at hplain
    rw [hparts] at hplain ⊢
    rw [eraseIn_throws hhas hplain hs]
    rfl
  · intro hnot
    rw [eraseIn_of_plain h hobj hnot]
    rfl

/-- What every object inherits, by name; `__proto__` alone is an object, and set by a setter. -/
def objectPrototype : Runtime String where
  inherited _ key :=
    if ["constructor", "__proto__", "hasOwnProperty", "isPrototypeOf", "propertyIsEnumerable",
        "toLocaleString", "toString", "valueOf", "__defineGetter__", "__defineSetter__",
        "__lookupGetter__", "__lookupSetter__"].contains key then
      some ⟨key, key == "__proto__"⟩
    else none
  property _ _ := none
  isObject b := b == "__proto__"

end Runtime

end UploadService
