import UploadService.Lib.Parts
import UploadService.Config.Masking

/-!
# Sensitive values in their places

`setByPath` makes the levels that are missing and writes into lists and texts what they do not
keep. Where a key path leads to an entry of a mapping or to an item of a list, none of this
happens: the value that stands there is replaced, and everything else stays where it is. Values
are made of these parts, and what the config service does with its sensitive keys are edits of
them.

Main results:

- `Value.setIn_eq_write`, `Value.getIn_write_apart`: the helpers on paths at such places;
- `foldlM_eq_edited`: a loop whose rounds edit is one pass of edits;
- `edited_edited`, `getByPath_edited`, `edited_eq_self`: what passes of edits make of a document.
-/

namespace UploadService

namespace Value

/-- The entry of a mapping or the item of a list that has the name. -/
def slot (v : Value) (key : String) : Option Value :=
  match v with
  | map m => ObjectMap.get? m key
  | list xs => (arrayIndex? key).bind fun i => xs[i]?
  | _ => none

theorem slot_list {xs : List Value} {key : String} {c : Value} (h : (list xs).slot key = some c) :
    ∃ i, arrayIndex? key = some i ∧ xs[i]? = some c := by
  exact Option.bind_eq_some_iff.mp h

theorem slot_list_of_index {key : String} {i : ℕ} (hi : arrayIndex? key = some i) (xs : List Value) :
    (list xs).slot key = xs[i]? := by
  show (arrayIndex? key).bind _ = _
  rw [hi]
  rfl

theorem lt_of_slot {xs : List Value} {i : ℕ} {c : Value} (h : xs[i]? = some c) : i < xs.length := by
  obtain ⟨hlt, -⟩ := List.getElem?_eq_some_iff.mp h
  exact hlt

theorem setMember_index {key : String} {i : ℕ} {xs : List Value} (hi : arrayIndex? key = some i)
    (hlt : i < xs.length) (x : Value) : (list xs).setMember key x = list (xs.set i x) := by
  unfold setMember
  dsimp only
  rw [hi]
  dsimp only
  rw [if_pos hlt]

/-- Two names of one index are one name. -/
theorem index_ne {key key' : String} {i j : ℕ} (hi : arrayIndex? key = some i)
    (hj : arrayIndex? key' = some j) (hne : key' ≠ key) : j ≠ i := by
  rintro rfl
  exact hne ((arrayIndex?_eq_some hj).symm.trans (arrayIndex?_eq_some hi))

theorem member_of_slot {v c : Value} {key : String} (h : v.slot key = some c) :
    v.member key = some c := by
  cases v with
  | map m => exact h
  | list xs =>
      obtain ⟨i, hi, -⟩ := slot_list h
      have hkey : key ≠ "length" := by
        rintro rfl
        rw [arrayIndex?_length] at hi
        cases hi
      rw [member_list hkey]
      exact h
  | _ => cases h

/-- Mappings and lists, and the values that stand in them. -/
def places : Parts Value String where
  part := slot
  replace := setMember
  part_replace := by
    intro v c key x h
    cases v with
    | map m =>
        show ObjectMap.get? (ObjectMap.set m key x) key = some x
        rw [ObjectMap.get?_set, if_pos rfl]
    | list xs =>
        obtain ⟨i, hi, hc⟩ := slot_list h
        rw [setMember_index hi (lt_of_slot hc), slot_list_of_index hi,
          List.getElem?_set_self (lt_of_slot hc)]
    | _ => cases h
  part_replace_ne := by
    intro v c key key' x h hne
    cases v with
    | map m =>
        show ObjectMap.get? (ObjectMap.set m key x) key' = ObjectMap.get? m key'
        rw [ObjectMap.get?_set, if_neg hne]
    | list xs =>
        obtain ⟨i, hi, hc⟩ := slot_list h
        rw [setMember_index hi (lt_of_slot hc)]
        cases hj : arrayIndex? key' with
        | none =>
            unfold slot
            dsimp only
            rw [hj]
            rfl
        | some j =>
            rw [slot_list_of_index hj, slot_list_of_index hj,
              List.getElem?_set_ne (Ne.symm (index_ne hi hj hne))]
    | _ => cases h
  replace_replace := by
    intro v c key x y h
    cases v with
    | map m =>
        show map (ObjectMap.set (ObjectMap.set m key x) key y) = map (ObjectMap.set m key y)
        rw [ObjectMap.set_set h]
    | list xs =>
        obtain ⟨i, hi, hc⟩ := slot_list h
        have hlt := lt_of_slot hc
        rw [setMember_index hi hlt, setMember_index hi hlt,
          setMember_index hi (by rw [List.length_set]; exact hlt), List.set_set]
    | _ => cases h
  replace_comm := by
    intro v c d key key' x y h h' hne
    cases v with
    | map m =>
        show map (ObjectMap.set (ObjectMap.set m key x) key' y) =
          map (ObjectMap.set (ObjectMap.set m key' y) key x)
        rw [ObjectMap.set_comm h h' hne]
    | list xs =>
        obtain ⟨i, hi, hc⟩ := slot_list h
        obtain ⟨j, hj, hd⟩ := slot_list h'
        have hlt := lt_of_slot hc
        have hlt' := lt_of_slot hd
        rw [setMember_index hi hlt, setMember_index hj hlt',
          setMember_index hj (by rw [List.length_set]; exact hlt'),
          setMember_index hi (by rw [List.length_set]; exact hlt),
          List.set_comm _ _ (Ne.symm (index_ne hi hj hne))]
    | _ => cases h

/-- No mapping has a key twice, at any depth. -/
inductive Tidy : Value → Prop where
  | scalar {v : Value} : v.isContainer = false → Tidy v
  | list {xs : List Value} : (∀ x ∈ xs, Tidy x) → Tidy (.list xs)
  | map {m : Object} : (ObjectMap.keys m).Nodup → (∀ e ∈ m, Tidy e.2) → Tidy (.map m)

theorem restoring_tidy : places.Restoring Tidy where
  part := by
    intro v c key hv h
    cases hv with
    | scalar hscalar =>
        cases v with
        | map m => cases hscalar
        | list xs => cases hscalar
        | _ => cases h
    | list hxs =>
        obtain ⟨i, -, hc⟩ := slot_list h
        exact hxs c (List.mem_of_getElem? hc)
    | map _ hm => exact hm (key, c) (ObjectMap.mem_of_get? h)
  replace_part := by
    intro v c key hv h
    have hslot : v.slot key = some c := h
    refine setMember_member ?_ (member_of_slot hslot)
    rintro m rfl
    cases hv with
    | scalar hscalar => cases hscalar
    | map hnodup _ => exact hnodup

theorem tidy_hereditary : places.Hereditary Tidy where
  part := restoring_tidy.part
  replace := by
    intro v c x key hv h hx
    cases hv with
    | scalar hscalar =>
        cases v with
        | map m => cases hscalar
        | list xs => cases hscalar
        | _ => cases h
    | list hxs =>
        obtain ⟨i, hi, hc⟩ := slot_list h
        show Tidy ((list _).setMember key x)
        rw [setMember_index hi (lt_of_slot hc)]
        refine .list fun y hy => ?_
        rcases List.mem_or_eq_of_mem_set hy with hy | rfl
        · exact hxs y hy
        · exact hx
    | map hnodup hm =>
        refine .map (ObjectMap.keys_set_nodup hnodup key x) fun e he => ?_
        rcases ObjectMap.mem_set he with rfl | he
        · exact hx
        · exact hm e he

/-- What a scalar has is a scalar. -/
theorem isContainer_member {v c : Value} {key : String} (hv : v.isContainer = false)
    (h : v.member key = some c) : c.isContainer = false := by
  cases v with
  | map m => cases hv
  | list xs => cases hv
  | str s =>
      by_cases hkey : key = "length"
      · rw [hkey] at h
        exact Option.some.inj h ▸ rfl
      · rw [member_str hkey] at h
        obtain ⟨i, -, hi⟩ := Option.bind_eq_some_iff.mp h
        obtain ⟨letter, -, rfl⟩ := Option.map_eq_some_iff.mp hi
        rfl
  | _ => cases h

theorem Tidy.member {v c : Value} {key : String} (hv : Tidy v) (h : v.member key = some c) :
    Tidy c := by
  cases hv with
  | scalar hscalar => exact .scalar (isContainer_member hscalar h)
  | list hxs =>
      by_cases hkey : key = "length"
      · rw [hkey, member_list_length] at h
        exact Option.some.inj h ▸ .scalar rfl
      · rw [member_list hkey] at h
        obtain ⟨i, -, hget⟩ := Option.bind_eq_some_iff.mp h
        exact hxs c (List.mem_of_getElem? hget)
  | map _ hm => exact hm (key, c) (ObjectMap.mem_of_get? h)

/-- What is read in a tidy value is tidy. -/
theorem Tidy.getIn {parts : List String} : ∀ {v c : Value}, Tidy v →
    getIn (some v) parts = some c → Tidy c := by
  induction parts with
  | nil => exact fun hv h => Option.some.inj h ▸ hv
  | cons key keys ih =>
      intro v c hv h
      have hstep : UploadService.getIn (v.member key) keys = some c := h
      cases hd : v.member key with
      | none =>
          rw [hd, getIn_none] at hstep
          cases hstep
      | some d =>
          rw [hd] at hstep
          exact ih (hv.member hd) hstep

/-! ### The helpers -/

theorem getIn_of_read {parts : List String} : ∀ {v c : Value}, places.read v parts = some c →
    getIn (some v) parts = some c := by
  induction parts with
  | nil => exact fun h => h
  | cons key keys ih =>
      intro v c h
      obtain ⟨d, hd, hkeys⟩ := Parts.part_of_read h
      show getIn (v.member key) keys = some c
      rw [member_of_slot hd]
      exact ih hkeys

/-- A value is written where another one stands. -/
theorem setIn_eq_write {parts : List String} (hparts : parts ≠ []) (x : Value) :
    ∀ {v c : Value}, places.read v parts = some c → setIn v parts x = places.write v parts x := by
  induction parts with
  | nil => exact absurd rfl hparts
  | cons key keys ih =>
      intro v c h
      obtain ⟨d, hd, hkeys⟩ := Parts.part_of_read h
      rw [Parts.write_cons hd]
      cases keys with
      | nil => rfl
      | cons k ks =>
          have hcontainer : d.isContainer = true := by
            obtain ⟨e, he, -⟩ := Parts.part_of_read hkeys
            cases d with
            | map m => rfl
            | list xs => rfl
            | _ => cases he
          rw [setIn_cons_cons, member_of_slot hd]
          dsimp only
          rw [if_pos hcontainer, ih (List.cons_ne_nil k ks) hkeys]
          rfl

/-- A write is not seen along a path that is apart. -/
theorem getIn_write_apart {p : List String} (x : Value) : ∀ {v c : Value} {q : List String},
    places.read v p = some c → Parts.Apart p q →
    getIn (some (places.write v p x)) q = getIn (some v) q := by
  induction p with
  | nil => exact fun _ h => absurd h (Parts.not_apart_nil_left _)
  | cons key keys ih =>
      intro v c q hread h
      obtain ⟨d, hd, hkeys⟩ := Parts.part_of_read hread
      rw [Parts.write_cons hd]
      cases q with
      | nil => exact absurd h (Parts.not_apart_nil_right _)
      | cons key' keys' =>
          show getIn ((v.setMember key _).member key') keys' = getIn (v.member key') keys'
          by_cases hkey : key' = key
          · subst hkey
            have hafter : (v.setMember key' (places.write d keys x)).slot key' = _ :=
              places.part_replace _ hd
            rw [member_of_slot hafter, member_of_slot hd]
            exact ih hkeys h.tail
          · rw [member_setMember_of_ne (member_of_slot hd) hkey]

end Value

open Value

/-! ### Documents -/

/-- The key path leads to an entry of a mapping or an item of a list, or nowhere. -/
def PathPlaced (doc : Object) (keyPath : String) : Prop :=
  getByPath doc keyPath = places.read (.map doc) (pathParts keyPath)

instance (doc : Object) (keyPath : String) : Decidable (PathPlaced doc keyPath) :=
  inferInstanceAs (Decidable (getByPath doc keyPath = _))

/-- No key path leads through another one. -/
def KeysApart (keys : List String) : Prop := Parts.AllApart pathParts keys

instance (keys : List String) : Decidable (KeysApart keys) :=
  inferInstanceAs (Decidable (Parts.AllApart pathParts keys))

def editedAt (f : String → Value → Option Value) (doc : Object) (keyPath : String) : Object :=
  (places.editAt pathParts f (.map doc) keyPath).entries

/-- A document with its values at some key paths edited. -/
def edited (f : String → Value → Option Value) (doc : Object) (keys : List String) : Object :=
  keys.foldl (editedAt f) doc

variable {f g : String → Value → Option Value} {doc : Object} {keyPath keyPath' : String}
  {keys : List String}

theorem map_entries_write {m : Object} {parts : List String} (hparts : parts ≠ []) (x : Value) :
    .map (places.write (.map m) parts x).entries = places.write (.map m) parts x := by
  cases parts with
  | nil => exact absurd rfl hparts
  | cons key keys =>
      cases hd : places.part (.map m) key with
      | none =>
          rw [Parts.write, hd]
          rfl
      | some d =>
          rw [Parts.write_cons hd]
          rfl

theorem map_editedAt : .map (editedAt f doc keyPath) = places.editAt pathParts f (.map doc) keyPath := by
  unfold editedAt
  cases hc : places.read (.map doc) (pathParts keyPath) with
  | none =>
      rw [Parts.editAt_none hc]
      rfl
  | some c =>
      cases hx : f keyPath c with
      | none =>
          rw [Parts.editAt_left hc hx]
          rfl
      | some x =>
          rw [Parts.editAt_some hc hx]
          exact map_entries_write (pathParts_ne_nil keyPath) x

theorem map_edited : .map (edited f doc keys) = places.edit pathParts f (.map doc) keys := by
  induction keys generalizing doc with
  | nil => rfl
  | cons keyPath keys ih =>
      rw [Parts.edit_cons, ← map_editedAt]
      exact ih

/-- The value at a key path that is placed. -/
theorem PathPlaced.read (h : PathPlaced doc keyPath) :
    places.read (.map doc) (pathParts keyPath) = getByPath doc keyPath := h.symm

theorem PathPlaced.of_read {c : Value} (h : places.read (.map doc) (pathParts keyPath) = some c) :
    PathPlaced doc keyPath := (getIn_of_read h).trans h.symm

theorem getByPath_editedAt (h : Parts.Apart (pathParts keyPath) (pathParts keyPath')) :
    getByPath (editedAt f doc keyPath) keyPath' = getByPath doc keyPath' := by
  unfold getByPath
  rw [map_editedAt]
  cases hc : places.read (.map doc) (pathParts keyPath) with
  | none => rw [Parts.editAt_none hc]
  | some c =>
      cases hx : f keyPath c with
      | none => rw [Parts.editAt_left hc hx]
      | some x => rw [Parts.editAt_some hc hx, getIn_write_apart x hc h]

/-- An edit leaves the key paths that are apart placed. -/
theorem PathPlaced.editedAt (h : PathPlaced doc keyPath')
    (happart : Parts.Apart (pathParts keyPath) (pathParts keyPath')) :
    PathPlaced (editedAt f doc keyPath) keyPath' := by
  unfold PathPlaced
  rw [getByPath_editedAt happart, map_editedAt, Parts.read_editAt_apart happart]
  exact h

/-- A write to a place. -/
theorem setByPath_eq {c : Value} (h : PathPlaced doc keyPath) (hc : getByPath doc keyPath = some c)
    (x : Value) : setByPath doc keyPath x = (places.write (.map doc) (pathParts keyPath) x).entries := by
  unfold setByPath
  rw [setIn_eq_write (pathParts_ne_nil keyPath) x (h.read.trans hc)]

theorem editedAt_some {c x : Value} (h : PathPlaced doc keyPath) (hc : getByPath doc keyPath = some c)
    (hx : f keyPath c = some x) : editedAt f doc keyPath = setByPath doc keyPath x := by
  rw [setByPath_eq h hc]
  unfold editedAt
  rw [Parts.editAt_some (h.read.trans hc) hx]

theorem editedAt_left {c : Value} (h : PathPlaced doc keyPath) (hc : getByPath doc keyPath = some c)
    (hx : f keyPath c = none) : editedAt f doc keyPath = doc := by
  unfold editedAt
  rw [Parts.editAt_left (h.read.trans hc) hx]
  rfl

theorem editedAt_none (h : PathPlaced doc keyPath) (hc : getByPath doc keyPath = none) :
    editedAt f doc keyPath = doc := by
  unfold editedAt
  rw [Parts.editAt_none (h.read.trans hc)]
  rfl

theorem PathPlaced.editedAt_self (h : PathPlaced doc keyPath) :
    PathPlaced (UploadService.editedAt f doc keyPath) keyPath := by
  cases hc : getByPath doc keyPath with
  | none =>
      rw [editedAt_none h hc]
      exact h
  | some c =>
      apply PathPlaced.of_read (c := (f keyPath c).getD c)
      rw [map_editedAt, Parts.read_editAt, h.read, hc]
      rfl

/-- **Run.** A loop of edits leaves its key paths placed. -/
theorem PathPlaced.edited (h : PathPlaced doc keyPath)
    (hkeys : ∀ k ∈ keys, k = keyPath ∨ Parts.Apart (pathParts k) (pathParts keyPath)) :
    PathPlaced (UploadService.edited f doc keys) keyPath := by
  induction keys generalizing doc with
  | nil => exact h
  | cons k keys ih =>
      obtain ⟨hk, hrest⟩ := List.forall_mem_cons.mp hkeys
      rcases hk with rfl | happart
      · exact ih h.editedAt_self hrest
      · exact ih (h.editedAt happart) hrest

theorem edited_placed (h : KeysApart keys) (hplaced : ∀ k ∈ keys, PathPlaced doc k) :
    ∀ k ∈ keys, PathPlaced (edited f doc keys) k :=
  fun k hk => (hplaced k hk).edited fun _ hj => h.eq_or_apart hj hk

/-- **Run.** A loop of edits. -/
theorem foldlM_eq_edited {m : Type → Type} [Monad m] [LawfulMonad m]
    {step : Object → String → m Object} (hkeys : KeysApart keys)
    (hplaced : ∀ keyPath ∈ keys, PathPlaced doc keyPath)
    (hstep : ∀ keyPath ∈ keys, ∀ doc', PathPlaced doc' keyPath →
      getByPath doc' keyPath = getByPath doc keyPath →
      step doc' keyPath = pure (editedAt f doc' keyPath)) :
    keys.foldlM step doc = pure (edited f doc keys) := by
  suffices hloop : ∀ doc₁ : Object, (∀ keyPath ∈ keys, PathPlaced doc₁ keyPath ∧
      getByPath doc₁ keyPath = getByPath doc keyPath) →
      keys.foldlM step doc₁ = pure (edited f doc₁ keys) from
    hloop doc fun keyPath hmem => ⟨hplaced keyPath hmem, rfl⟩
  clear hplaced
  induction keys with
  | nil => exact fun _ _ => rfl
  | cons keyPath keys ih =>
      intro doc₁ hdoc
      obtain ⟨happart, hrest⟩ := List.pairwise_cons.mp hkeys
      obtain ⟨hplaced, hsame⟩ := hdoc keyPath List.mem_cons_self
      rw [List.foldlM_cons, hstep keyPath List.mem_cons_self doc₁ hplaced hsame, pure_bind]
      refine ih hrest (fun k hk => hstep k (List.mem_cons_of_mem keyPath hk)) _ fun k hk => ?_
      obtain ⟨hplaced', hsame'⟩ := hdoc k (List.mem_cons_of_mem keyPath hk)
      exact ⟨hplaced'.editedAt (happart k hk), (getByPath_editedAt (happart k hk)).trans hsame'⟩

theorem foldl_eq_edited {step : Object → String → Object} (hkeys : KeysApart keys)
    (hplaced : ∀ keyPath ∈ keys, PathPlaced doc keyPath)
    (hstep : ∀ keyPath ∈ keys, ∀ doc', PathPlaced doc' keyPath →
      getByPath doc' keyPath = getByPath doc keyPath → step doc' keyPath = editedAt f doc' keyPath) :
    keys.foldl step doc = edited f doc keys := by
  rw [List.foldl_eq_foldlM]
  exact congrArg Id.run (foldlM_eq_edited hkeys hplaced hstep)

/-- Two loops of edits are one. -/
theorem edited_edited (h : KeysApart keys) :
    edited g (edited f doc keys) keys = edited (Parts.andThen f g) doc keys := by
  have hmap := @Parts.edit_edit Value String places String pathParts f g (.map doc) keys h
  rw [← map_edited, ← map_edited, ← map_edited] at hmap
  exact Value.map.inj hmap

/-- What a loop of edits leaves at one of its key paths. -/
theorem getByPath_edited (hkeys : KeysApart keys) (hmem : keyPath ∈ keys) (h : PathPlaced doc keyPath) :
    getByPath (edited f doc keys) keyPath =
      (getByPath doc keyPath).map fun c => (f keyPath c).getD c := by
  have hafter := h.edited (f := f) fun k hk => hkeys.eq_or_apart hk hmem
  rw [← hafter.read, map_edited, Parts.read_edit hkeys hmem, h.read]

theorem edited_congr (h : KeysApart keys)
    (hfg : ∀ keyPath ∈ keys, ∀ c, getByPath doc keyPath = some c → f keyPath c = g keyPath c) :
    edited f doc keys = edited g doc keys := by
  have hmap := @Parts.edit_congr Value String places String pathParts f g (.map doc) keys h
    fun keyPath hmem c hc => hfg keyPath hmem c (getIn_of_read hc)
  rw [← map_edited, ← map_edited] at hmap
  exact Value.map.inj hmap

theorem edited_left (h : ∀ keyPath ∈ keys, ∀ c, getByPath doc keyPath = some c → f keyPath c = none) :
    edited f doc keys = doc := by
  have hmap := @Parts.edit_left Value String places String pathParts f (.map doc) keys
    fun keyPath hmem c hc => h keyPath hmem c (getIn_of_read hc)
  rw [← map_edited] at hmap
  exact Value.map.inj hmap

theorem edited_eq_self (htidy : Tidy (.map doc))
    (h : ∀ keyPath ∈ keys, ∀ c, getByPath doc keyPath = some c → (f keyPath c).getD c = c) :
    edited f doc keys = doc := by
  have hmap := @Parts.edit_eq_self Value String places String pathParts f (.map doc) keys _
    restoring_tidy htidy fun keyPath hmem c hc => h keyPath hmem c (getIn_of_read hc)
  rw [← map_edited] at hmap
  exact Value.map.inj hmap

end UploadService
