import UploadService.Config.Value
import UploadService.Texts

/-!
# Paths in documents of mappings and scalars

What the edits of a dotted path leave under it and under the others, on the values' own properties.
A text has its length and its code units. Two paths are apart where neither is a prefix of the
other; an edit leaves what is apart alone where it finds a mapping or nothing at every level of its
own path.

Main results: `ownIn_setIn` and `ownIn_eraseIn`, what stands under the path itself; `EditsPath.apart`,
what stands under the others.
-/

namespace UploadService

/-- `v[key]` where the property is the value's own; a code unit is a text. -/
def Value.ownProperty (v : Value) (key : String) : Option Value :=
  match v with
  | .str s =>
      if key = "length" then some (.num (toString (codeUnits s).length))
      else (Value.arrayIndex? key).bind fun i => (codeUnits s)[i]?.map fun c => .str c.toString
  | v => v.member key

/-! ### Documents of mappings and scalars -/

namespace Value

mutual

/-- Mappings and scalars at every depth. -/
def Nested : Value → Prop
  | .null | .bool _ | .num _ | .str _ => True
  | .list _ => False
  | .map fields => NestedFields fields

def NestedField : String × Value → Prop
  | (_, v) => Nested v

def NestedFields : List (String × Value) → Prop
  | [] => True
  | field :: fields => NestedField field ∧ NestedFields fields

end

theorem nested_of_mem {fields : Object} (h : NestedFields fields) {field : String × Value}
    (hmem : field ∈ fields) : Nested field.2 := by
  induction fields with
  | nil => cases hmem
  | cons first fields ih =>
      rcases List.mem_cons.mp hmem with rfl | hmem
      · obtain ⟨key, v⟩ := field
        exact h.1
      · exact ih h.2 hmem

theorem Nested.get? {m : Object} (h : Nested (.map m)) {key : String} {c : Value}
    (hc : ObjectMap.get? m key = some c) : Nested c :=
  nested_of_mem h (ObjectMap.mem_of_get? hc)

/-- `getByPath` on the own properties alone. -/
def ownIn : Option Value → List String → Option Value
  | curr, [] => curr
  | curr, key :: keys => ownIn (curr.bind fun v => v.ownProperty key) keys

theorem ownIn_none (parts : List String) : ownIn none parts = none := by
  induction parts with
  | nil => rfl
  | cons key keys ih => exact ih

theorem ownIn_map (m : Object) (key : String) (keys : List String) :
    ownIn (some (.map m)) (key :: keys) = ownIn (ObjectMap.get? m key) keys := rfl

/-- The mapping under a key, which `setByPath` makes where there is none. -/
def levelAt (m : Object) (key : String) : Object :=
  match ObjectMap.get? m key with
  | some (.map n) => n
  | _ => []

theorem Nested.levelAt {m : Object} (h : Nested (.map m)) (key : String) :
    Nested (.map (levelAt m key)) := by
  unfold Value.levelAt
  split
  · rename_i n hget
    exact h.get? hget
  · trivial

theorem setIn_map_cons {m : Object} {key : String} {keys : List String} (hkeys : keys ≠ [])
    (hlist : ∀ xs, ObjectMap.get? m key ≠ some (.list xs)) (x : Value) :
    UploadService.setIn (.map m) (key :: keys) x =
      .map (ObjectMap.set m key (UploadService.setIn (.map (levelAt m key)) keys x)) := by
  have hmember : (Value.map m).member key = ObjectMap.get? m key := rfl
  cases keys with
  | nil => exact absurd rfl hkeys
  | cons k ks =>
      rw [setIn_cons_cons, hmember]
      unfold levelAt
      cases hget : ObjectMap.get? m key with
      | none => rfl
      | some c =>
          cases c with
          | list xs => exact absurd hget (hlist xs)
          | _ => rfl

/-- **Run.** What `setByPath` writes is read back. -/
theorem ownIn_setIn {parts : List String} (hparts : parts ≠ []) (x : Value) :
    ∀ {m : Object}, Nested (.map m) →
      ownIn (some (UploadService.setIn (.map m) parts x)) parts = some x := by
  induction parts with
  | nil => exact absurd rfl hparts
  | cons key keys ih =>
      intro m hm
      cases keys with
      | nil =>
          show ObjectMap.get? (ObjectMap.set m key x) key = some x
          rw [ObjectMap.get?_set, if_pos rfl]
      | cons k ks =>
          have hlist : ∀ xs, ObjectMap.get? m key ≠ some (.list xs) :=
            fun xs hget => hm.get? hget
          rw [setIn_map_cons (List.cons_ne_nil k ks) hlist, ownIn_map, ObjectMap.get?_set,
            if_pos rfl]
          exact ih (List.cons_ne_nil k ks) (hm.levelAt key)

/-- A mapping or nothing. -/
def IsLevel : Option Value → Prop
  | none | some .null | some (.map _) => True
  | _ => False

/-- Every proper prefix of the path holds a mapping or nothing. -/
def OpenIn (v : Value) (parts : List String) : Prop :=
  ∀ pre post, parts = pre ++ post → post ≠ [] → IsLevel (ownIn (some v) pre)

theorem ownIn_nil_map {parts : List String} (hparts : parts ≠ []) :
    ownIn (some (.map [])) parts = none := by
  cases parts with
  | nil => exact absurd rfl hparts
  | cons key keys => exact ownIn_none keys

/-- A level that is no mapping is nothing. -/
theorem ownIn_level {m : Object} {key : String} {keys : List String} (hkeys : keys ≠ [])
    (h : IsLevel (ObjectMap.get? m key)) :
    ownIn (some (.map m)) (key :: keys) = ownIn (some (.map (levelAt m key))) keys := by
  rw [ownIn_map]
  unfold levelAt
  cases hget : ObjectMap.get? m key with
  | none => rw [ownIn_none, ownIn_nil_map hkeys]
  | some c =>
      rw [hget] at h
      cases c with
      | map n => rfl
      | null =>
          cases keys with
          | nil => exact absurd rfl hkeys
          | cons k ks =>
              rw [ownIn_nil_map (List.cons_ne_nil k ks)]
              exact ownIn_none ks
      | _ => cases h

theorem OpenIn.level {m : Object} {key : String} {keys : List String} (hkeys : keys ≠ [])
    (h : OpenIn (.map m) (key :: keys)) : IsLevel (ObjectMap.get? m key) :=
  h [key] keys rfl hkeys

theorem OpenIn.levelAt {m : Object} {key : String} {keys : List String}
    (h : OpenIn (.map m) (key :: keys)) : OpenIn (.map (levelAt m key)) keys := by
  intro pre post hparts hpost
  cases pre with
  | nil => trivial
  | cons k pre =>
      have hopen := h (key :: k :: pre) post (by rw [hparts]; rfl) hpost
      have hkeys : keys ≠ [] := by
        rw [hparts]
        exact List.cons_ne_nil k (pre ++ post)
      rw [ownIn_level (List.cons_ne_nil k pre) (h.level hkeys)] at hopen
      exact hopen

/-- An edit of the value under a path of a mapping: at the last part it changes what the key holds,
before it goes on in the mapping under the key. -/
structure EditsPath (edit : Value → List String → Value) : Prop where
  last : ∀ {m : Object} {key key' : String} (keys' : List String), key' ≠ key →
    ownIn (some (edit (.map m) [key])) (key' :: keys') = ownIn (ObjectMap.get? m key') keys'
  other : ∀ {m : Object} {key key' : String} {keys : List String} (keys' : List String),
    keys ≠ [] → IsLevel (ObjectMap.get? m key) → key' ≠ key →
    ownIn (some (edit (.map m) (key :: keys))) (key' :: keys') =
      ownIn (ObjectMap.get? m key') keys'
  inner : ∀ {m : Object} {key : String} {keys keys' : List String}, keys ≠ [] → keys' ≠ [] →
    IsLevel (ObjectMap.get? m key) →
    ownIn (some (edit (.map m) (key :: keys))) (key :: keys') =
      ownIn (some (edit (.map (levelAt m key)) keys)) keys'

/-- **Run.** An edit changes nothing under a path apart. -/
theorem EditsPath.apart {edit : Value → List String → Value} (hedit : EditsPath edit)
    {p : List String} : ∀ {q : List String} {m : Object}, OpenIn (.map m) p → ¬ p <+: q →
      ¬ q <+: p → ownIn (some (edit (.map m) p)) q = ownIn (some (.map m)) q := by
  induction p with
  | nil => exact fun _ hp _ => absurd List.nil_prefix hp
  | cons key keys ih =>
      intro q m hopen hp hq
      cases q with
      | nil => exact absurd List.nil_prefix hq
      | cons key' keys' =>
          by_cases hkey : key' = key
          · subst hkey
            have hp' : ¬ keys <+: keys' := fun h => hp ((List.prefix_cons_inj key').mpr h)
            have hq' : ¬ keys' <+: keys := fun h => hq ((List.prefix_cons_inj key').mpr h)
            have hkeys : keys ≠ [] := by
              rintro rfl
              exact hp' List.nil_prefix
            have hkeys' : keys' ≠ [] := by
              rintro rfl
              exact hq' List.nil_prefix
            have hlevel := hopen.level hkeys
            rw [hedit.inner hkeys hkeys' hlevel, ih hopen.levelAt hp' hq',
              ownIn_level hkeys' hlevel]
          · by_cases hkeys : keys = []
            · rw [hkeys, hedit.last keys' hkey]
              rfl
            · rw [hedit.other keys' hkeys (hopen.level hkeys) hkey]
              rfl

theorem IsLevel.not_list {v : Option Value} (h : IsLevel v) (xs : List Value) :
    v ≠ some (.list xs) := by
  rintro rfl
  exact h

theorem editsPath_setIn (x : Value) :
    EditsPath fun v parts => UploadService.setIn v parts x where
  last := by
    intro m key key' keys' hne
    show ownIn (ObjectMap.get? (ObjectMap.set m key x) key') keys' = _
    rw [ObjectMap.get?_set, if_neg hne]
  other := by
    intro m key key' keys keys' hkeys hlevel hne
    rw [setIn_map_cons hkeys hlevel.not_list, ownIn_map, ObjectMap.get?_set, if_neg hne]
  inner := by
    intro m key keys keys' hkeys _ hlevel
    rw [setIn_map_cons hkeys hlevel.not_list, ownIn_map, ObjectMap.get?_set, if_pos rfl]

/-- What `setByPath` leaves of a mapping is a mapping. -/
theorem map_entries_setIn (m : Object) (parts : List String) (x : Value) :
    .map (UploadService.setIn (.map m) parts x).entries = UploadService.setIn (.map m) parts x := by
  cases parts with
  | nil => rfl
  | cons key keys =>
      cases keys with
      | nil => rfl
      | cons k ks => rfl

/-! ### Deleted properties -/

theorem setMember_scalar {v : Value} (hv : v.isContainer = false) (key : String) (x : Value) :
    v.setMember key x = v := by
  cases v with
  | map m => cases hv
  | list xs => cases hv
  | _ => rfl

theorem eraseIn_scalar {v : Value} (hv : v.isContainer = false) (parts : List String) :
    UploadService.eraseIn v parts = v := by
  cases parts with
  | nil => rfl
  | cons key keys =>
      cases keys with
      | nil =>
          cases v with
          | map m => cases hv
          | list xs => cases hv
          | _ => rfl
      | cons k ks =>
          rw [UploadService.eraseIn]
          split
          · rfl
          · rfl
          · exact setMember_scalar hv key _
          · exact List.cons_ne_nil k ks

theorem eraseIn_map_cons {m : Object} {key : String} {keys : List String} (hkeys : keys ≠ []) :
    UploadService.eraseIn (.map m) (key :: keys) =
      match ObjectMap.get? m key with
      | none | some .null => .map m
      | some c => .map (ObjectMap.set m key (UploadService.eraseIn c keys)) := by
  cases keys with
  | nil => exact absurd rfl hkeys
  | cons k ks =>
      show (match ObjectMap.get? m key with
        | none | some null => map m
        | some c => (map m).setMember key (UploadService.eraseIn c (k :: ks))) = _
      split <;> rfl

theorem isContainer_ownProperty {v c : Value} {key : String} (hv : v.isContainer = false)
    (hc : v.ownProperty key = some c) : c.isContainer = false := by
  cases v with
  | map m => cases hv
  | list xs => cases hv
  | str s =>
      unfold ownProperty at hc
      dsimp only at hc
      split at hc
      · rw [← Option.some.inj hc]
        rfl
      · obtain ⟨i, -, hi⟩ := Option.bind_eq_some_iff.mp hc
        obtain ⟨unit, -, rfl⟩ := Option.map_eq_some_iff.mp hi
        rfl
  | _ => cases hc

theorem Nested.ownProperty {v c : Value} (hv : Nested v) {key : String}
    (hc : v.ownProperty key = some c) : Nested c := by
  cases v with
  | map m => exact hv.get? hc
  | list xs => exact absurd hv id
  | str s =>
      have hscalar := isContainer_ownProperty rfl hc
      cases c with
      | map m => cases hscalar
      | list xs => cases hscalar
      | _ => trivial
  | _ => cases hc

theorem eraseIn_of_absent {v : Value} (hv : Nested v) {key : String} {keys : List String}
    (hkeys : keys ≠ []) (h : v.ownProperty key = none ∨ v.ownProperty key = some null) :
    UploadService.eraseIn v (key :: keys) = v := by
  cases v with
  | map m =>
      have hget : ObjectMap.get? m key = none ∨ ObjectMap.get? m key = some null := h
      rw [eraseIn_map_cons hkeys]
      rcases hget with hget | hget
      · rw [hget]
      · rw [hget]
  | list xs => exact absurd hv id
  | _ => exact eraseIn_scalar rfl _

theorem eraseIn_of_own {v c : Value} (hv : Nested v) {key : String} {keys : List String}
    (hkeys : keys ≠ []) (hc : v.ownProperty key = some c) (hnull : c ≠ null) :
    UploadService.eraseIn v (key :: keys) = v.setMember key (UploadService.eraseIn c keys) := by
  cases v with
  | map m =>
      have hget : ObjectMap.get? m key = some c := hc
      rw [eraseIn_map_cons hkeys, hget]
      cases c with
      | null => exact absurd rfl hnull
      | _ => rfl
  | list xs => exact absurd hv id
  | _ => rw [eraseIn_scalar rfl, setMember_scalar rfl]

/-- A text has the property: its length, or a code unit of it. -/
def TextHas (s key : String) : Prop :=
  key = "length" ∨ ∃ i, arrayIndex? key = some i ∧ i < (codeUnits s).length

/-- The path leads to a property of a text. -/
def IntoText (v : Value) (parts : List String) : Prop :=
  ∃ pre key s, parts = pre ++ [key] ∧ ownIn (some v) pre = some (.str s) ∧ TextHas s key

theorem ownProperty_str {s key : String} : (str s).ownProperty key = none ↔ ¬ TextHas s key := by
  unfold ownProperty TextHas
  dsimp only
  by_cases hkey : key = "length"
  · rw [if_pos hkey]
    exact iff_of_false (fun h => nomatch h) fun h => h (.inl hkey)
  · rw [if_neg hkey, or_iff_right hkey]
    cases arrayIndex? key with
    | none => simp
    | some i => simp

theorem IntoText.cons {v c : Value} {key : String} {keys : List String}
    (hc : v.ownProperty key = some c) (h : IntoText c keys) : IntoText v (key :: keys) := by
  obtain ⟨pre, k, s, rfl, hs, hhas⟩ := h
  refine ⟨key :: pre, k, s, rfl, ?_, hhas⟩
  show ownIn (v.ownProperty key) pre = some (str s)
  rw [hc]
  exact hs

/-- **Run.** A scalar has nothing under a path that leads to no property of a text. -/
theorem ownIn_scalar {parts : List String} (hparts : parts ≠ []) :
    ∀ {v : Value}, v.isContainer = false → ¬ IntoText v parts → ownIn (some v) parts = none := by
  induction parts with
  | nil => exact absurd rfl hparts
  | cons key keys ih =>
      intro v hv hnot
      show ownIn (v.ownProperty key) keys = none
      cases hc : v.ownProperty key with
      | none => exact ownIn_none keys
      | some c =>
          cases keys with
          | nil =>
              -- only a text has a property of its own
              exfalso
              cases v with
              | str s =>
                  refine hnot ⟨[], key, s, rfl, rfl, ?_⟩
                  by_contra hhas
                  rw [ownProperty_str.mpr hhas] at hc
                  cases hc
              | map m => cases hv
              | list xs => cases hv
              | _ => cases hc
          | cons k ks =>
              exact ih (List.cons_ne_nil k ks) (isContainer_ownProperty hv hc)
                fun h => hnot (h.cons hc)

/-- **Run.** What `deleteByPath` deletes is gone, but for the properties of texts. -/
theorem ownIn_eraseIn {parts : List String} (hparts : parts ≠ []) :
    ∀ {m : Object}, Nested (.map m) → ¬ IntoText (.map m) parts →
      ownIn (some (UploadService.eraseIn (.map m) parts)) parts = none := by
  induction parts with
  | nil => exact absurd rfl hparts
  | cons key keys ih =>
      intro m hm hnot
      by_cases hkeys : keys = []
      · rw [hkeys]
        show ObjectMap.get? (ObjectMap.erase m key) key = none
        rw [ObjectMap.get?_erase, if_pos rfl]
      rw [eraseIn_map_cons hkeys]
      cases hc : ObjectMap.get? m key with
      | none =>
          rw [ownIn_map, hc]
          exact ownIn_none keys
      | some c =>
          have hnot' : ¬ IntoText c keys := fun h => hnot (h.cons hc)
          have hset : ∀ w, ownIn (some (.map (ObjectMap.set m key w))) (key :: keys) =
              ownIn (some w) keys := by
            intro w
            rw [ownIn_map, ObjectMap.get?_set, if_pos rfl]
          cases c with
          | null =>
              rw [ownIn_map, hc]
              exact ownIn_scalar hkeys rfl hnot'
          | map n => exact (hset _).trans (ih hkeys (hm.get? hc) hnot')
          | list xs => exact absurd (hm.get? hc) id
          | _ =>
              dsimp only
              rw [hset, eraseIn_scalar rfl]
              exact ownIn_scalar hkeys rfl hnot'

theorem eraseIn_nil_map (parts : List String) : UploadService.eraseIn (.map []) parts = .map [] := by
  cases parts with
  | nil => rfl
  | cons key keys =>
      by_cases hkeys : keys = []
      · rw [hkeys]
        rfl
      · rw [eraseIn_map_cons hkeys]
        rfl

theorem editsPath_eraseIn : EditsPath UploadService.eraseIn where
  last := by
    intro m key key' keys' hne
    show ownIn (ObjectMap.get? (ObjectMap.erase m key) key') keys' = _
    rw [ObjectMap.get?_erase, if_neg hne]
  other := by
    intro m key key' keys keys' hkeys _ hne
    rw [eraseIn_map_cons hkeys]
    split
    · rfl
    · rfl
    · rw [ownIn_map, ObjectMap.get?_set, if_neg hne]
  inner := by
    intro m key keys keys' hkeys hkeys' hlevel
    have habsent : ownIn (some (.map m)) (key :: keys') = ownIn (some (.map (levelAt m key))) keys' :=
      ownIn_level hkeys' hlevel
    rw [eraseIn_map_cons hkeys]
    unfold levelAt at habsent ⊢
    cases hc : ObjectMap.get? m key with
    | none =>
        rw [hc] at habsent
        rw [eraseIn_nil_map]
        exact habsent
    | some c =>
        rw [hc] at hlevel habsent
        cases c with
        | null =>
            rw [eraseIn_nil_map]
            exact habsent
        | map n =>
            dsimp only
            rw [ownIn_map, ObjectMap.get?_set, if_pos rfl]
        | _ => cases hlevel

/-- What `deleteByPath` leaves of a mapping is a mapping. -/
theorem map_entries_eraseIn (m : Object) (parts : List String) :
    .map (UploadService.eraseIn (.map m) parts).entries = UploadService.eraseIn (.map m) parts := by
  cases parts with
  | nil => rfl
  | cons key keys =>
      by_cases hkeys : keys = []
      · rw [hkeys]
        rfl
      · rw [eraseIn_map_cons hkeys]
        split <;> rfl

end Value

end UploadService
