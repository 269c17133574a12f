import UploadService.Config.Leaves

/-!
# Masking a document

`mapGroupToDto` puts `'***'` under every sensitive key path that has a value. Here one such
write is `Value.masked`, by the parts of its path, so that a path can be followed into the
members of a value: through objects and arrays, and through texts, whose members are their
characters and which an object replaces where something below them is masked.

`SameExcept S v w` says that two values are equal except for the values under the paths `S`,
which are any values but `null`. Masking a path of `S` takes it out of `S`; once every path is
masked the values are equal.

Main results:

- `SameExcept.masked`: masking one path, in any order and with any other paths in `S`;
- `SameExcept.eq_of_empty`: nothing left to mask;
- `listAt_masked`: which arrays are left after a path is masked.
-/

namespace UploadService

/-- A decimal text is the index it denotes. -/
theorem Value.arrayIndex?_toString (i : ℕ) : Value.arrayIndex? (toString i) = some i := by
  have hlist : (toString i).toList = Nat.toDigits 10 i := String.toList_ofList
  have hdigits : (Nat.toDigits 10 i).all Char.isDigit = true := by
    apply List.all_eq_true.mpr
    exact fun c hc => Nat.isDigit_of_mem_toDigits (by omega) (by omega) hc
  have hne : (Nat.toDigits 10 i).isEmpty = false := by
    rw [List.isEmpty_eq_false_iff]
    exact Nat.toDigits_ne_nil
  have hdecimal : decimal? (toString i) = some i := by
    unfold decimal?
    rw [hlist, hne, hdigits, Nat.ofDigitChars_ten_toDigits]
    rfl
  unfold Value.arrayIndex?
  rw [hdecimal]
  exact if_pos rfl

namespace Value

/-! ### Masking one path -/

/-- The value with `'***'` under a path that has a value. -/
def masked (v : Value) (parts : List String) : Value :=
  if present (getIn (some v) parts) then
    match parts with
    | [] => str "***"
    | key :: keys => setIn (if v.isContainer then v else map []) (key :: keys) (str "***")
  else v

theorem masked_of_absent {v : Value} {parts : List String}
    (h : present (getIn (some v) parts) = false) : v.masked parts = v := by
  unfold masked
  rw [h]
  rfl

theorem masked_of_present {v : Value} {key : String} {keys : List String}
    (h : present (getIn (some v) (key :: keys)) = true) :
    v.masked (key :: keys) =
      setIn (if v.isContainer then v else map []) (key :: keys) (str "***") := by
  unfold masked
  rw [h]
  rfl

theorem masked_nil {v : Value} (h : v ≠ null) : v.masked [] = str "***" := by
  cases v with
  | null => exact absurd rfl h
  | _ => rfl

theorem present_some {v : Value} : present (some v) = true ↔ v ≠ null := by
  cases v with
  | null => exact iff_of_false nofun fun h => h rfl
  | _ => exact iff_of_true rfl nofun

theorem getIn_cons (v : Value) (key : String) (keys : List String) :
    getIn (some v) (key :: keys) = getIn (v.member key) keys := rfl

/-- A present path of a value starts with a member of it. -/
theorem member_of_present {v : Value} {key : String} {keys : List String}
    (h : present (getIn (some v) (key :: keys)) = true) :
    ∃ c, v.member key = some c ∧ present (getIn (some c) keys) = true := by
  rw [getIn_cons] at h
  cases hc : v.member key with
  | none =>
      rw [hc, getIn_none] at h
      cases h
  | some c =>
      rw [hc] at h
      exact ⟨c, rfl, h⟩

/-- **Step.** Masking below a member of an object or an array. -/
theorem masked_cons_of_present {v c : Value} {key : String} {keys : List String}
    (hv : v.isContainer = true) (hc : v.member key = some c)
    (h : present (getIn (some c) keys) = true) :
    v.masked (key :: keys) = v.setMember key (c.masked keys) := by
  have hpath : present (getIn (some v) (key :: keys)) = true := by
    rw [getIn_cons, hc]
    exact h
  rw [masked_of_present hpath, hv, if_pos rfl]
  cases keys with
  | nil =>
      rw [masked_nil (present_some.mp h)]
      rfl
  | cons key₂ keys =>
      rw [masked_of_present h, setIn_cons_cons, hc]

/-- A path that has no value below a member has none in the whole. -/
theorem absent_cons {v c : Value} {key : String} {keys : List String} (hc : v.member key = some c)
    (h : present (getIn (some c) keys) = false) :
    present (getIn (some v) (key :: keys)) = false := by
  rw [getIn_cons, hc]
  exact h

theorem setMember_list (xs : List Value) (key : String) (x : Value) :
    ∃ ys, (list xs).setMember key x = list ys := by
  unfold setMember
  dsimp only
  split
  · split
    · exact ⟨_, rfl⟩
    · exact ⟨_, rfl⟩
  · exact ⟨_, rfl⟩

theorem isContainer_setMember {v x : Value} {key : String} (h : v.isContainer = true) :
    (v.setMember key x).isContainer = true := by
  cases v with
  | map m => rfl
  | list xs =>
      obtain ⟨ys, hys⟩ := setMember_list xs key x
      rw [hys]
      rfl
  | _ => cases h

theorem isContainer_setIn {v x : Value} (h : v.isContainer = true) (parts : List String) :
    (setIn v parts x).isContainer = true := by
  match parts with
  | [] => exact h
  | [_] => exact isContainer_setMember h
  | _ :: _ :: _ => exact isContainer_setMember h

/-- What is masked in a value leaves a value. -/
theorem masked_ne_null {v : Value} (h : v ≠ null) (parts : List String) : v.masked parts ≠ null := by
  cases hp : present (getIn (some v) parts) with
  | false =>
      rw [masked_of_absent hp]
      exact h
  | true =>
      cases parts with
      | nil =>
          rw [masked_nil h]
          exact nofun
      | cons key keys =>
          rw [masked_of_present hp]
          intro hnull
          have hcontainer : (setIn (if v.isContainer then v else map []) (key :: keys)
              (str "***")).isContainer = true := by
            apply isContainer_setIn
            split
            · assumption
            · rfl
          rw [hnull] at hcontainer
          cases hcontainer

/-! ### Values of one shape -/

/-- Both values are objects with the same keys, each once, arrays of the same length, or texts
of the same length. -/
def SameShape : Value → Value → Prop
  | map m, map n => ObjectMap.keys m = ObjectMap.keys n ∧ (ObjectMap.keys m).Nodup
  | list xs, list ys => xs.length = ys.length
  | str s, str t => s.length = t.length
  | _, _ => False

theorem SameShape.symm {v w : Value} (h : SameShape v w) : SameShape w v := by
  cases v with
  | map m =>
      cases w with
      | map n => exact ⟨h.1.symm, h.1 ▸ h.2⟩
      | _ => cases h
  | list xs =>
      cases w with
      | list ys => exact Eq.symm h
      | _ => cases h
  | str s =>
      cases w with
      | str t => exact Eq.symm h
      | _ => cases h
  | _ => cases w <;> cases h

theorem member_list_length (xs : List Value) :
    (list xs).member "length" = some (num (toString xs.length)) := rfl

theorem member_str {key : String} (hkey : key ≠ "length") (s : String) :
    (str s).member key = (arrayIndex? key).bind fun i => s.toList[i]?.map fun c => str c.toString := by
  unfold member
  dsimp only
  rw [if_neg hkey]

theorem arrayIndex?_length : arrayIndex? "length" = none := by decide

theorem toString_ne_length (i : ℕ) : toString i ≠ "length" := by
  intro hkey
  have hindex := arrayIndex?_toString i
  rw [hkey, arrayIndex?_length] at hindex
  cases hindex

/-- Values of one shape have members under the same keys. -/
theorem SameShape.member_none {v w : Value} (h : SameShape v w) {key : String}
    (hv : v.member key = none) : w.member key = none := by
  cases v with
  | map m =>
      cases w with
      | map n =>
          show ObjectMap.get? n key = none
          rw [ObjectMap.get?_eq_none_iff, ← h.1]
          exact ObjectMap.get?_eq_none_iff.mp hv
      | _ => cases h
  | list xs =>
      cases w with
      | list ys =>
          have hlength : xs.length = ys.length := h
          by_cases hkey : key = "length"
          · rw [hkey] at hv
            cases hv
          · rw [member_list hkey] at hv ⊢
            cases hi : arrayIndex? key with
            | none => rfl
            | some i =>
                rw [hi, Option.bind_some, List.getElem?_eq_none_iff] at hv
                rw [Option.bind_some, List.getElem?_eq_none_iff]
                omega
      | _ => cases h
  | str s =>
      cases w with
      | str t =>
          have hlength : s.toList.length = t.toList.length := by
            rw [String.length_toList, String.length_toList]
            exact h
          by_cases hkey : key = "length"
          · rw [hkey] at hv
            cases hv
          · rw [member_str hkey] at hv ⊢
            cases hi : arrayIndex? key with
            | none => rfl
            | some i =>
                rw [hi, Option.bind_some, Option.map_eq_none_iff, List.getElem?_eq_none_iff] at hv
                rw [Option.bind_some, Option.map_eq_none_iff, List.getElem?_eq_none_iff]
                omega
      | _ => cases h
  | _ => cases w <;> cases h

theorem setMember_item {xs : List Value} {c : Value} {key : String} (hkey : key ≠ "length")
    (hc : (list xs).member key = some c) (x : Value) :
    ∃ i, arrayIndex? key = some i ∧ xs[i]? = some c ∧
      (list xs).setMember key x = list (xs.set i x) := by
  rw [member_list hkey] at hc
  obtain ⟨i, hi, hget⟩ := Option.bind_eq_some_iff.mp hc
  obtain ⟨hlt, -⟩ := List.getElem?_eq_some_iff.mp hget
  refine ⟨i, hi, hget, ?_⟩
  unfold setMember
  rw [hi]
  exact if_pos hlt

/-- What a write over a member of an object or an array leaves of the other members. -/
theorem member_setMember_of_ne {v x c : Value} {key key' : String}
    (hc : v.member key = some c) (hne : key' ≠ key) :
    (v.setMember key x).member key' = v.member key' := by
  cases v with
  | map m =>
      show ObjectMap.get? (ObjectMap.set m key x) key' = ObjectMap.get? m key'
      rw [ObjectMap.get?_set, if_neg hne]
  | list xs =>
      cases hi : arrayIndex? key with
      | none =>
          unfold setMember
          rw [hi]
      | some i =>
          have hkey : key ≠ "length" := by
            rintro rfl
            rw [arrayIndex?_length] at hi
            cases hi
          obtain ⟨i', hi', -, hset⟩ := setMember_item hkey hc x
          obtain rfl := Option.some.inj (hi.symm.trans hi')
          rw [hset]
          by_cases hkey' : key' = "length"
          · rw [hkey', member_list_length, member_list_length, List.length_set]
          · rw [member_list hkey', member_list hkey']
            cases hj : arrayIndex? key' with
            | none => rfl
            | some j =>
                have hij : i ≠ j := by
                  rintro rfl
                  exact hne ((arrayIndex?_eq_some hj).symm.trans (arrayIndex?_eq_some hi))
                rw [Option.bind_some, Option.bind_some, List.getElem?_set_ne hij]
  | _ => rfl

theorem member_set_item {xs : List Value} {c : Value} {key : String} (hkey : key ≠ "length")
    (hc : (list xs).member key = some c) (x : Value) :
    ((list xs).setMember key x).member key = some x := by
  obtain ⟨i, hi, hget, hset⟩ := setMember_item hkey hc x
  obtain ⟨hlt, -⟩ := List.getElem?_eq_some_iff.mp hget
  rw [hset, member_list hkey, hi, Option.bind_some, List.getElem?_set_self hlt]

/-- The members that are written over: an array's length stays what it is. -/
theorem SameShape.member_setMember {v w c d : Value} {key : String} (h : SameShape v w)
    (hv : v.isContainer = true) (hc : v.member key = some c) (hd : w.member key = some d)
    (x y : Value) :
    ((v.setMember key x).member key = some x ∧ (w.setMember key y).member key = some y) ∨
      (v.setMember key x).member key = (w.setMember key y).member key := by
  cases v with
  | map m =>
      cases w with
      | map n =>
          left
          show ObjectMap.get? (ObjectMap.set m key x) key = some x ∧
            ObjectMap.get? (ObjectMap.set n key y) key = some y
          rw [ObjectMap.get?_set, ObjectMap.get?_set, if_pos rfl, if_pos rfl]
          exact ⟨rfl, rfl⟩
      | _ => cases h
  | list xs =>
      cases w with
      | list ys =>
          by_cases hkey : key = "length"
          · right
            subst hkey
            show some (num (toString xs.length)) = some (num (toString ys.length))
            rw [show xs.length = ys.length from h]
          · exact .inl ⟨member_set_item hkey hc x, member_set_item hkey hd y⟩
      | _ => cases h
  | _ => cases hv

theorem setMember_member {v c : Value} {key : String}
    (hkeys : ∀ m, v = map m → (ObjectMap.keys m).Nodup) (hc : v.member key = some c) :
    v.setMember key c = v := by
  cases v with
  | map m =>
      show map (ObjectMap.set m key c) = map m
      rw [ObjectMap.set_eq_self (hkeys m rfl) hc]
  | list xs =>
      by_cases hkey : key = "length"
      · rw [hkey]
        rfl
      · obtain ⟨i, -, hget, hset⟩ := setMember_item hkey hc c
        obtain ⟨hlt, heq⟩ := List.getElem?_eq_some_iff.mp hget
        rw [hset, ← heq, List.set_getElem_self]
  | _ => rfl

/-- Writing over members of one key keeps the shape. -/
theorem SameShape.setMember {v w c d : Value} {key : String} (h : SameShape v w)
    (hc : v.member key = some c) (hd : w.member key = some d) (x y : Value) :
    SameShape (v.setMember key x) (w.setMember key y) := by
  cases v with
  | map m =>
      cases w with
      | map n =>
          have hm : ObjectMap.has m key = true := Option.isSome_iff_exists.mpr ⟨c, hc⟩
          have hn : ObjectMap.has n key = true := Option.isSome_iff_exists.mpr ⟨d, hd⟩
          show ObjectMap.keys (ObjectMap.set m key x) = ObjectMap.keys (ObjectMap.set n key y) ∧
            (ObjectMap.keys (ObjectMap.set m key x)).Nodup
          rw [ObjectMap.keys_set hm, ObjectMap.keys_set hn]
          exact h
      | _ => cases h
  | list xs =>
      cases w with
      | list ys =>
          have hlength : xs.length = ys.length := h
          by_cases hkey : key = "length"
          · rw [hkey]
            exact h
          · obtain ⟨i, -, -, hset⟩ := setMember_item hkey hc x
            obtain ⟨j, -, -, hset'⟩ := setMember_item hkey hd y
            rw [hset, hset']
            show (xs.set i x).length = (ys.set j y).length
            rw [List.length_set, List.length_set]
            exact hlength
      | _ => cases h
  | str s =>
      cases w with
      | str t => exact h
      | _ => cases h
  | _ => cases w <;> cases h

theorem SameShape.isContainer {v w : Value} (h : SameShape v w) :
    v.isContainer = w.isContainer := by
  cases v with
  | map m => cases w <;> first | rfl | cases h
  | list xs => cases w <;> first | rfl | cases h
  | str s => cases w <;> first | rfl | cases h
  | _ => cases w <;> cases h

theorem SameShape.nodup {v w : Value} (h : SameShape v w) :
    ∀ m, v = map m → (ObjectMap.keys m).Nodup := by
  rintro m rfl
  cases w with
  | map n => exact h.2
  | _ => cases h

/-- Values of one shape that are no containers are texts. -/
theorem SameShape.texts {v w : Value} (h : SameShape v w) (hv : v.isContainer = false) :
    ∃ s t, v = str s ∧ w = str t ∧ s.length = t.length := by
  cases v with
  | str s =>
      cases w with
      | str t => exact ⟨s, t, rfl, rfl, h⟩
      | _ => cases h
  | map m => cases hv
  | list xs => cases hv
  | _ => cases w <;> cases h

/-! ### Values that differ under some paths only -/

/-- The paths of `S` that go on from a member. -/
def pathsUnder (key : String) (S : Set (List String)) : Set (List String) := {keys | key :: keys ∈ S}

theorem pathsUnder_diff_self (key : String) (keys : List String) (S : Set (List String)) :
    pathsUnder key (S \ {key :: keys}) = pathsUnder key S \ {keys} := by
  ext parts
  show (key :: parts ∈ S ∧ key :: parts ∉ ({key :: keys} : Set (List String))) ↔
    (key :: parts ∈ S ∧ parts ∉ ({keys} : Set (List String)))
  rw [Set.mem_singleton_iff, Set.mem_singleton_iff, List.cons.injEq, eq_self, true_and]

theorem pathsUnder_diff_ne {key key' : String} (hne : key' ≠ key) (keys : List String)
    (S : Set (List String)) : pathsUnder key' (S \ {key :: keys}) = pathsUnder key' S := by
  ext parts
  show (key' :: parts ∈ S ∧ key' :: parts ∉ ({key :: keys} : Set (List String))) ↔ key' :: parts ∈ S
  rw [Set.mem_singleton_iff, List.cons.injEq]
  exact ⟨fun h => h.1, fun h => ⟨h, fun heq => hne heq.1⟩⟩

/-- Equal except for the values under the paths `S`, which are not `null`. -/
inductive SameExcept : Set (List String) → Value → Value → Prop
  /-- the values under a path of `S` -/
  | sensitive {S : Set (List String)} {v w : Value} (hS : [] ∈ S) (hv : v ≠ null) (hw : w ≠ null) :
      SameExcept S v w
  | same (S : Set (List String)) (v : Value) : SameExcept S v v
  /-- the same keys, or as many items or characters, and what differs is below a member -/
  | members {S : Set (List String)} {v w : Value} (hshape : SameShape v w)
      (hmembers : ∀ key c d, v.member key = some c → w.member key = some d →
        SameExcept (pathsUnder key S) c d) : SameExcept S v w

/-- In texts of one length a path has a value in both or in none. -/
theorem present_texts {s t : String} (h : s.length = t.length) (parts : List String) :
    present (getIn (some (str s)) parts) = present (getIn (some (str t)) parts) := by
  induction parts generalizing s t with
  | nil => rfl
  | cons key keys ih =>
      rw [getIn_cons, getIn_cons]
      by_cases hkey : key = "length"
      · have hlength : ∀ u : String, (str u).member key = some (num (toString u.length)) := by
          intro u
          rw [hkey]
          rfl
        rw [hlength, hlength, h]
      · have hshape : SameShape (str s) (str t) := h
        cases hs : (str s).member key with
        | none => rw [hshape.member_none hs]
        | some c =>
            cases ht : (str t).member key with
            | none =>
                rw [hshape.symm.member_none ht] at hs
                cases hs
            | some d =>
                rw [member_str hkey] at hs ht
                obtain ⟨i, -, hc⟩ := Option.bind_eq_some_iff.mp hs
                obtain ⟨j, -, hd⟩ := Option.bind_eq_some_iff.mp ht
                obtain ⟨a, -, rfl⟩ := Option.map_eq_some_iff.mp hc
                obtain ⟨b, -, rfl⟩ := Option.map_eq_some_iff.mp hd
                apply ih
                simp

/-- A text is replaced by an object that does not depend on it. -/
theorem masked_texts {s t : String} (h : s.length = t.length) {key : String} {keys : List String}
    (hs : present (getIn (some (str s)) (key :: keys)) = true) :
    (str s).masked (key :: keys) = (str t).masked (key :: keys) := by
  have ht : present (getIn (some (str t)) (key :: keys)) = true := by
    rw [← present_texts h]
    exact hs
  rw [masked_of_present hs, masked_of_present ht]
  rfl

namespace SameExcept

variable {S : Set (List String)} {v w : Value}

/-- Masking below two related members of one key. -/
theorem masked_members {c d : Value} {key : String} {keys : List String} (hshape : SameShape v w)
    (hv : v.isContainer = true) (hc : v.member key = some c) (hd : w.member key = some d)
    (hother : ∀ k c d, v.member k = some c → w.member k = some d →
      SameExcept (pathsUnder k S) c d)
    (hmasked : SameExcept (pathsUnder key S \ {keys}) (c.masked keys) (d.masked keys)) :
    SameExcept (S \ {key :: keys}) (v.setMember key (c.masked keys))
      (w.setMember key (d.masked keys)) := by
  apply SameExcept.members (hshape.setMember hc hd _ _)
  intro k c' d' hc' hd'
  by_cases hk : k = key
  · subst hk
    rcases hshape.member_setMember hv hc hd (c.masked keys) (d.masked keys) with ⟨hself, hself'⟩ | heq
    · obtain rfl := Option.some.inj (hself.symm.trans hc')
      obtain rfl := Option.some.inj (hself'.symm.trans hd')
      rw [pathsUnder_diff_self]
      exact hmasked
    · rw [heq, hd'] at hc'
      obtain rfl := Option.some.inj hc'
      exact .same _ _
  · rw [member_setMember_of_ne hc hk] at hc'
    rw [member_setMember_of_ne hd hk] at hd'
    rw [pathsUnder_diff_ne hk]
    exact hother k c' d' hc' hd'

/-- A value without the member is not masked; of a container it is the member that is. -/
theorem masked_container {c : Value} {key : String} {keys : List String}
    (hkeys : ∀ m, v = map m → (ObjectMap.keys m).Nodup) (hv : v.isContainer = true)
    (hc : v.member key = some c) : v.masked (key :: keys) = v.setMember key (c.masked keys) := by
  cases hp : present (getIn (some c) keys) with
  | true => exact masked_cons_of_present hv hc hp
  | false => rw [masked_of_absent (absent_cons hc hp), masked_of_absent hp, setMember_member hkeys hc]

/-- **Step.** Masking a path takes it out of the paths under which the values differ. -/
theorem masked (h : SameExcept S v w) (parts : List String) :
    SameExcept (S \ {parts}) (v.masked parts) (w.masked parts) := by
  induction h generalizing parts with
  | @sensitive S v w hS hv hw =>
      cases parts with
      | nil =>
          rw [masked_nil hv, masked_nil hw]
          exact .same _ _
      | cons key keys =>
          exact .sensitive ⟨hS, nofun⟩ (masked_ne_null hv _) (masked_ne_null hw _)
  | same S v => exact .same _ _
  | @members S v w hshape hmembers ih =>
      cases parts with
      | nil =>
          have hv : v ≠ null := by
            rintro rfl
            cases w <;> cases hshape
          have hw : w ≠ null := by
            rintro rfl
            cases v <;> cases hshape
          rw [masked_nil hv, masked_nil hw]
          exact .same _ _
      | cons key keys =>
          -- where the path has no value, what is below the key is masked in vain
          have habsent : present (getIn (some v) (key :: keys)) = false →
              present (getIn (some w) (key :: keys)) = false →
              SameExcept (S \ {key :: keys}) (v.masked (key :: keys)) (w.masked (key :: keys)) := by
            intro hpv hpw
            rw [masked_of_absent hpv, masked_of_absent hpw]
            apply SameExcept.members hshape
            intro k c d hc hd
            by_cases hk : k = key
            · subst hk
              have hmasked := ih k c d hc hd keys
              rw [getIn_cons, hc] at hpv
              rw [getIn_cons, hd] at hpw
              rw [masked_of_absent hpv, masked_of_absent hpw] at hmasked
              rw [pathsUnder_diff_self]
              exact hmasked
            · rw [pathsUnder_diff_ne hk]
              exact hmembers k c d hc hd
          cases hv : v.isContainer with
          | false =>
              obtain ⟨s, t, rfl, rfl, hlength⟩ := hshape.texts hv
              cases hp : present (getIn (some (str s)) (key :: keys)) with
              | true =>
                  rw [masked_texts hlength hp]
                  exact .same _ _
              | false => exact habsent hp (present_texts hlength _ ▸ hp)
          | true =>
              have hw : w.isContainer = true := hshape.isContainer ▸ hv
              cases hc : v.member key with
              | none =>
                  have hnone : ∀ u : Value, u.member key = none →
                      present (getIn (some u) (key :: keys)) = false := by
                    intro u hu
                    rw [getIn_cons, hu, getIn_none]
                    rfl
                  exact habsent (hnone v hc) (hnone w (hshape.member_none hc))
              | some c =>
                  cases hd : w.member key with
                  | none =>
                      rw [hshape.symm.member_none hd] at hc
                      cases hc
                  | some d =>
                      rw [masked_container hshape.nodup hv hc,
                        masked_container hshape.symm.nodup hw hd]
                      exact masked_members hshape hv hc hd hmembers (ih key c d hc hd keys)

/-- With no path left under which they may differ the values are equal. -/
theorem eq_of_empty (h : SameExcept S v w) (hS : S = ∅) : v = w := by
  induction h with
  | @sensitive S v w hmem hv hw =>
      rw [hS] at hmem
      exact hmem.elim
  | same S v => rfl
  | @members S v w hshape hmembers ih =>
      have hbelow : ∀ key, pathsUnder key S = ∅ := by
        intro key
        rw [hS]
        rfl
      have heq : ∀ key c d, v.member key = some c → w.member key = some d → c = d :=
        fun key c d hc hd => ih key c d hc hd (hbelow key)
      cases v with
      | map m =>
          cases w with
          | map n => rw [ObjectMap.ext_of_keys hshape.1 hshape.2 heq]
          | _ => cases hshape
      | list xs =>
          cases w with
          | list ys =>
              congr 1
              apply List.ext_getElem hshape
              intro i hx hy
              apply heq (toString i)
              · rw [member_list (toString_ne_length i), arrayIndex?_toString, Option.bind_some,
                  List.getElem?_eq_getElem hx]
              · rw [member_list (toString_ne_length i), arrayIndex?_toString, Option.bind_some,
                  List.getElem?_eq_getElem hy]
          | _ => cases hshape
      | str s =>
          cases w with
          | str t =>
              congr 1
              apply String.toList_inj.mp
              apply List.ext_getElem
              · rw [String.length_toList, String.length_toList]
                exact hshape
              · intro i hx hy
                have hchar : str (s.toList[i]).toString = str (t.toList[i]).toString := by
                  apply heq (toString i)
                  · rw [member_str (toString_ne_length i), arrayIndex?_toString, Option.bind_some,
                      List.getElem?_eq_getElem hx]
                    rfl
                  · rw [member_str (toString_ne_length i), arrayIndex?_toString, Option.bind_some,
                      List.getElem?_eq_getElem hy]
                    rfl
                have htext := congrArg String.toList (Value.str.inj hchar)
                simpa using htext
          | _ => cases hshape
      | _ => cases w <;> cases hshape

end SameExcept

/-! ### Arrays that are left -/

/-- An array stands under the path. -/
def ListAt (v : Value) (parts : List String) : Prop := ∃ xs, getIn (some v) parts = some (list xs)

/-- There is no array below a text, a number or `null`. -/
theorem not_listAt_of_scalar {v : Value} (hv : v.isContainer = false) (parts : List String) :
    ¬ ListAt v parts := by
  induction parts generalizing v with
  | nil =>
      rintro ⟨xs, hxs⟩
      obtain rfl := Option.some.inj hxs
      cases hv
  | cons key keys ih =>
      rintro ⟨xs, hxs⟩
      rw [getIn_cons] at hxs
      cases hc : v.member key with
      | none =>
          rw [hc, getIn_none] at hxs
          cases hxs
      | some c =>
          rw [hc] at hxs
          exact ih (member_of_scalar hv hc).1 ⟨xs, hxs⟩

/-- A text written under a path of an empty object makes no array. -/
theorem not_listAt_of_empty (parts other : List String) (t : String) :
    ¬ ListAt (setIn (map []) parts (str t)) other := by
  induction parts generalizing other with
  | nil =>
      rintro ⟨xs, hxs⟩
      cases other with
      | nil => cases hxs
      | cons k ks =>
          have hnone : (map []).member k = none := rfl
          change getIn ((map []).member k) ks = _ at hxs
          rw [hnone, getIn_none] at hxs
          cases hxs
  | cons key keys ih =>
      obtain ⟨x, hx, hset⟩ : ∃ x, (∀ ks, ¬ ListAt x ks) ∧
          setIn (map []) (key :: keys) (str t) = map [(key, x)] := by
        cases keys with
        | nil => exact ⟨str t, not_listAt_of_scalar rfl, rfl⟩
        | cons key₂ keys => exact ⟨_, ih, rfl⟩
      rw [hset]
      rintro ⟨xs, hxs⟩
      cases other with
      | nil => cases hxs
      | cons k ks =>
          change getIn (ObjectMap.get? [(key, x)] k) ks = _ at hxs
          rw [ObjectMap.get?_cons] at hxs
          split at hxs
          · exact hx ks ⟨xs, hxs⟩
          · rw [ObjectMap.get?_nil, getIn_none] at hxs
            cases hxs

theorem listAt_cons {v c : Value} {key : String} {keys : List String} (hc : v.member key = some c) :
    ListAt v (key :: keys) ↔ ListAt c keys := by
  unfold ListAt
  rw [getIn_cons, hc]

theorem listAt_nil_setMember (v x : Value) (key : String) :
    ListAt (v.setMember key x) [] ↔ ListAt v [] := by
  cases v with
  | list xs =>
      obtain ⟨ys, hys⟩ := setMember_list xs key x
      rw [hys]
      exact iff_of_true ⟨ys, rfl⟩ ⟨xs, rfl⟩
  | map m =>
      apply iff_of_false
      · rintro ⟨xs, hxs⟩
        cases hxs
      · rintro ⟨xs, hxs⟩
        cases hxs
  | _ => exact Iff.rfl

/-- A member that is written over is found again; an array's length is a number. -/
theorem member_written {v c : Value} {key : String} (hv : v.isContainer = true)
    (hc : v.member key = some c) (x : Value) :
    (v.setMember key x).member key = some x ∨
      (v.setMember key x = v ∧ c.isContainer = false) := by
  cases v with
  | map m =>
      left
      show ObjectMap.get? (ObjectMap.set m key x) key = some x
      rw [ObjectMap.get?_set, if_pos rfl]
  | list xs =>
      by_cases hkey : key = "length"
      · right
        subst hkey
        obtain rfl := Option.some.inj hc
        exact ⟨rfl, rfl⟩
      · exact .inl (member_set_item hkey hc x)
  | _ => cases hv

/-- A path that goes on to a value has values on its way. -/
theorem present_of_initial {v : Value} {parts other : List String} (hinitial : parts <+: other)
    (h : present (getIn (some v) other) = true) : present (getIn (some v) parts) = true := by
  induction parts generalizing v other with
  | nil =>
      cases other with
      | nil => exact h
      | cons key keys =>
          obtain ⟨c, hc, -⟩ := member_of_present h
          apply present_some.mpr
          rintro rfl
          cases hc
  | cons key keys ih =>
      cases other with
      | nil => exact absurd hinitial (by simp)
      | cons key' keys' =>
          obtain ⟨rfl, hrest⟩ := List.cons_prefix_cons.mp hinitial
          obtain ⟨c, hc, hpresent⟩ := member_of_present h
          rw [getIn_cons, hc]
          exact ih hrest hpresent

/-- **Step.** Masking a path that has a value leaves the arrays that are not under it. -/
theorem listAt_masked {v : Value} {parts : List String}
    (h : present (getIn (some v) parts) = true) (other : List String) :
    ListAt (v.masked parts) other ↔ ListAt v other ∧ ¬ parts <+: other := by
  induction parts generalizing v other with
  | nil =>
      rw [masked_nil (present_some.mp h)]
      apply iff_of_false
      · exact not_listAt_of_scalar rfl other
      · exact fun hand => hand.2 (List.nil_prefix)
  | cons key keys ih =>
      obtain ⟨c, hc, hpresent⟩ := member_of_present h
      cases hv : v.isContainer with
      | false =>
          rw [masked_of_present h, hv]
          apply iff_of_false
          · exact not_listAt_of_empty _ _ _
          · exact fun hand => not_listAt_of_scalar hv other hand.1
      | true =>
          rw [masked_cons_of_present hv hc hpresent]
          cases other with
          | nil =>
              rw [listAt_nil_setMember]
              exact ⟨fun hlist => ⟨hlist, by simp⟩, fun hand => hand.1⟩
          | cons key' keys' =>
              by_cases hkey : key' = key
              · subst hkey
                rw [listAt_cons hc, List.cons_prefix_cons, eq_self, true_and]
                rcases member_written hv hc (c.masked keys) with hself | ⟨hsame, hscalar⟩
                · rw [listAt_cons hself]
                  exact ih hpresent keys'
                · rw [hsame, listAt_cons hc]
                  apply iff_of_false
                  · exact not_listAt_of_scalar hscalar keys'
                  · exact fun hand => not_listAt_of_scalar hscalar keys' hand.1
              · rw [List.cons_prefix_cons]
                unfold ListAt
                rw [getIn_cons, member_setMember_of_ne hc hkey, getIn_cons]
                exact ⟨fun hlist => ⟨hlist, fun hand => hkey hand.1.symm⟩, fun hand => hand.1⟩

end Value

end UploadService
