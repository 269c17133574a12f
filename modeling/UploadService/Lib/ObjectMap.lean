import Mathlib.Data.List.Basic

/-!
# Insertion-ordered objects

An object is the list of its `(key, value)` pairs in insertion order; reading
takes the first pair of a key. `set` keeps the place of an existing key and
appends a new one, `assign` is `Object.assign` (the spread of a second object
over a first), `erase` is `delete`.

Main results: what each operation reads back (`get?_set`, `get?_erase`,
`get?_assign`), for every object, with no assumption on its keys.
-/

namespace ObjectMap

variable {β : Type}

def get? (o : List (String × β)) (k : String) : Option β :=
  (o.find? fun e => e.1 == k).map (·.2)

def has (o : List (String × β)) (k : String) : Bool := (get? o k).isSome

def keys (o : List (String × β)) : List String := o.map (·.1)

def set (o : List (String × β)) (k : String) (v : β) : List (String × β) :=
  if has o k then o.map fun e => if e.1 == k then (k, v) else e else o ++ [(k, v)]

def erase (o : List (String × β)) (k : String) : List (String × β) :=
  o.filter fun e => e.1 != k

/-- `Object.assign(o, p)`. -/
def assign (o p : List (String × β)) : List (String × β) :=
  (o.map fun e => (e.1, (get? p e.1).getD e.2)) ++ p.filter fun e => !has o e.1

/-- `set.add(k)` for each key, on an insertion-ordered set. -/
def addKeys (set keys : List String) : List String :=
  keys.foldl (fun acc k => if acc.contains k then acc else acc ++ [k]) set

@[simp] theorem get?_nil (k : String) : get? ([] : List (String × β)) k = none := rfl

theorem get?_cons (e : String × β) (o : List (String × β)) (k : String) :
    get? (e :: o) k = if e.1 = k then some e.2 else get? o k := by
  by_cases h : e.1 = k
  · simp [get?, h]
  · simp [get?, h, List.find?_cons_of_neg]

theorem get?_append (o p : List (String × β)) (k : String) :
    get? (o ++ p) k = (get? o k).or (get? p k) := by
  induction o with
  | nil => simp
  | cons e o ih =>
      rw [List.cons_append, get?_cons, get?_cons, ih]
      split <;> simp

theorem get?_eq_none_iff {o : List (String × β)} {k : String} :
    get? o k = none ↔ k ∉ keys o := by
  induction o with
  | nil => simp [keys]
  | cons e o ih =>
      rw [get?_cons]
      by_cases h : e.1 = k
      · simp [h, keys]
      · have h' : k ≠ e.1 := fun hk => h hk.symm
        simp only [h, if_false, ih, keys, List.map_cons, List.mem_cons, h', false_or]

/-- A read through a map that keeps the keys. -/
theorem get?_map {γ : Type} (o : List (String × β)) (f : String → β → γ) (k : String) :
    get? (o.map fun e => (e.1, f e.1 e.2)) k = (get? o k).map (f k) := by
  induction o with
  | nil => rfl
  | cons e o ih =>
      rw [List.map_cons, get?_cons, get?_cons, ih]
      by_cases h : e.1 = k
      · simp [h]
      · simp [h]

theorem get?_filter_keys (o : List (String × β)) (p : String → Bool) (k : String) :
    get? (o.filter fun e => p e.1) k = if p k then get? o k else none := by
  induction o with
  | nil => simp
  | cons e o ih =>
      by_cases h : e.1 = k
      · subst h
        by_cases hp : p e.1 = true
        · simp [hp, get?_cons]
        · simp [hp, ih]
      · by_cases hp : p e.1 = true
        · simp [hp, get?_cons, h, ih]
        · simp [hp, get?_cons, h, ih]

theorem get?_erase (o : List (String × β)) (j k : String) :
    get? (erase o j) k = if k = j then none else get? o k := by
  unfold erase
  rw [get?_filter_keys o (fun x => x != j)]
  by_cases h : k = j
  · simp [h]
  · simp [h]

theorem get?_set (o : List (String × β)) (j k : String) (v : β) :
    get? (set o j v) k = if k = j then some v else get? o k := by
  unfold set
  by_cases hj : has o j = true
  · have hm : (o.map fun e => if e.1 == j then (j, v) else e) =
        o.map fun e => (e.1, if e.1 == j then v else e.2) := by
      refine List.map_congr_left fun e _ => ?_
      by_cases he : e.1 = j
      · simp [he]
      · simp [he]
    rw [if_pos hj, hm, get?_map o (fun x b => if x == j then v else b)]
    by_cases hk : k = j
    · subst hk
      obtain ⟨b, hb⟩ := Option.isSome_iff_exists.mp hj
      simp [hb]
    · simp [hk]
  · have hn : get? o j = none := by simpa [has] using hj
    rw [if_neg hj, get?_append, get?_cons]
    by_cases hk : k = j
    · subst hk
      simp [hn]
    · have hk' : ¬ j = k := fun h => hk h.symm
      simp [hk, hk']

theorem get?_assign (o p : List (String × β)) (k : String) :
    get? (assign o p) k = (get? p k).or (get? o k) := by
  unfold assign
  rw [get?_append, get?_map o (fun x b => (get? p x).getD b),
    get?_filter_keys p (fun x => !has o x)]
  cases ho : get? o k with
  | some b =>
      cases hp : get? p k with
      | some c => simp
      | none => simp
  | none => simp [has, ho]

theorem mem_of_get? {o : List (String × β)} {k : String} {v : β} (h : get? o k = some v) :
    (k, v) ∈ o := by
  obtain ⟨e, he, hv⟩ := Option.map_eq_some_iff.mp h
  have hk : e.1 = k := by simpa using List.find?_some he
  obtain ⟨k', v'⟩ := e
  obtain rfl : k' = k := hk
  obtain rfl : v' = v := hv
  exact List.mem_of_find?_eq_some he

/-- Where the keys are distinct, an entry is what is read under its key. -/
theorem get?_of_mem {o : List (String × β)} (hnodup : (keys o).Nodup) {e : String × β}
    (he : e ∈ o) : get? o e.1 = some e.2 := by
  induction o with
  | nil => cases he
  | cons x o ih =>
      obtain ⟨hnot, hrest⟩ := List.nodup_cons.mp hnodup
      rw [get?_cons]
      rcases List.mem_cons.mp he with rfl | htail
      · rw [if_pos rfl]
      · have hne : x.1 ≠ e.1 := by
          intro heq
          apply hnot
          show x.1 ∈ o.map (·.1)
          rw [heq]
          exact List.mem_map_of_mem htail
        rw [if_neg hne]
        exact ih hrest htail

theorem mem_set {o : List (String × β)} {k : String} {v : β} {e : String × β}
    (h : e ∈ set o k v) : e = (k, v) ∨ e ∈ o := by
  unfold set at h
  split at h
  · obtain ⟨e₀, he₀, rfl⟩ := List.mem_map.mp h
    split
    · exact .inl rfl
    · exact .inr he₀
  · rcases List.mem_append.mp h with h | h
    · exact .inr h
    · exact .inl (List.mem_singleton.mp h)

theorem set_ne_nil (o : List (String × β)) (k : String) (v : β) : set o k v ≠ [] := by
  unfold set
  split
  · rename_i h
    intro hnil
    rw [List.map_eq_nil_iff.mp hnil] at h
    cases h
  · simp

/-- An object over the empty one. -/
@[simp] theorem nil_assign (p : List (String × β)) : assign [] p = p := by
  have hkeep : (p.filter fun e => !has ([] : List (String × β)) e.1) = p :=
    List.filter_eq_self.mpr fun _ _ => rfl
  unfold assign
  rw [hkeep]
  rfl

/-- Writing a key that is there keeps the keys and their order. -/
theorem keys_set {o : List (String × β)} {k : String} (h : has o k = true) (v : β) :
    keys (set o k v) = keys o := by
  unfold set keys
  rw [if_pos h, List.map_map]
  apply List.map_congr_left
  intro e _
  by_cases he : e.1 = k
  · simp [he]
  · simp [he]

/-- Writing a key that is there replaces its entry where it stands. -/
theorem set_of_get? {o : List (String × β)} {k : String} {c : β} (h : get? o k = some c) (v : β) :
    set o k v = o.map fun e => if e.1 = k then (k, v) else e := by
  have hhas : has o k = true := by
    rw [has, h]
    rfl
  unfold set
  rw [if_pos hhas]
  apply List.map_congr_left
  intro e _
  by_cases he : e.1 = k
  · simp [he]
  · simp [he]

theorem set_set {o : List (String × β)} {k : String} {c : β} (h : get? o k = some c) (v w : β) :
    set (set o k v) k w = set o k w := by
  have hafter : get? (set o k v) k = some v := by rw [get?_set, if_pos rfl]
  rw [set_of_get? hafter, set_of_get? h, set_of_get? h, List.map_map]
  apply List.map_congr_left
  intro e _
  by_cases he : e.1 = k
  · simp [he]
  · simp [he]

/-- Writes of two keys that are there may change places. -/
theorem set_comm {o : List (String × β)} {j k : String} {c d : β} (hj : get? o j = some c)
    (hk : get? o k = some d) (hne : k ≠ j) (v w : β) :
    set (set o j v) k w = set (set o k w) j v := by
  have hk' : get? (set o j v) k = some d := by rw [get?_set, if_neg hne, hk]
  have hj' : get? (set o k w) j = some c := by rw [get?_set, if_neg (Ne.symm hne), hj]
  rw [set_of_get? hk', set_of_get? hj', set_of_get? hj, set_of_get? hk, List.map_map, List.map_map]
  apply List.map_congr_left
  intro e _
  by_cases he : e.1 = j
  · simp [he, Ne.symm hne]
  · by_cases he' : e.1 = k
    · simp [he', hne]
    · simp [he, he']

/-- Objects with the same keys in the same order, each once, are equal where they read the same. -/
theorem ext_of_keys {o p : List (String × β)} (hkeys : keys o = keys p) (hnodup : (keys o).Nodup)
    (h : ∀ k v w, get? o k = some v → get? p k = some w → v = w) : o = p := by
  induction o generalizing p with
  | nil =>
      have hnil : p.map (·.1) = [] := hkeys.symm
      exact (List.map_eq_nil_iff.mp hnil).symm
  | cons e o ih =>
      cases p with
      | nil => cases hkeys
      | cons f p =>
          obtain ⟨hhead, htail⟩ := List.cons.inj hkeys
          obtain ⟨hnot, hrest⟩ := List.nodup_cons.mp hnodup
          have hhead : e.1 = f.1 := hhead
          have hvalue : e.2 = f.2 := by
            apply h e.1 e.2 f.2
            · rw [get?_cons, if_pos rfl]
            · rw [get?_cons, if_pos hhead.symm]
          have hef : e = f := Prod.ext hhead hvalue
          rw [hef, ih htail hrest]
          intro k v w hv hw
          have hk : e.1 ≠ k := by
            rintro rfl
            have hnone : get? o e.1 = none := get?_eq_none_iff.mpr hnot
            rw [hnone] at hv
            cases hv
          apply h k v w
          · rw [get?_cons, if_neg hk]
            exact hv
          · rw [get?_cons, if_neg fun heq => hk (hhead.trans heq)]
            exact hw

/-- Writing what is there changes nothing. -/
theorem set_eq_self {o : List (String × β)} {k : String} {v : β} (hnodup : (keys o).Nodup)
    (h : get? o k = some v) : set o k v = o := by
  have hhas : has o k = true := by
    rw [has, h]
    rfl
  have hkeys := keys_set hhas v
  apply ext_of_keys hkeys (hkeys ▸ hnodup)
  intro j x y hx hy
  rw [get?_set] at hx
  split at hx
  · rename_i hj
    rw [hj, h] at hy
    exact Option.some.inj (hx.symm.trans hy)
  · exact Option.some.inj (hx.symm.trans hy)

theorem mem_keys_set {o : List (String × β)} {j k : String} {v : β} :
    k ∈ keys (set o j v) ↔ k ∈ keys o ∨ k = j := by
  rw [← not_iff_not, ← get?_eq_none_iff, not_or, ← get?_eq_none_iff, get?_set]
  split
  · rename_i hk
    simp [hk]
  · rename_i hk
    simp [hk]

theorem keys_set_nodup {o : List (String × β)} (h : (keys o).Nodup) (k : String) (v : β) :
    (keys (set o k v)).Nodup := by
  cases hk : has o k with
  | true =>
      rw [keys_set hk]
      exact h
  | false =>
      have hnot : k ∉ keys o := by
        rw [← get?_eq_none_iff]
        simpa [has] using hk
      unfold set keys
      rw [hk, if_neg Bool.false_ne_true, List.map_append]
      exact List.nodup_append.mpr ⟨h, by simp, fun a ha b hb => by
        obtain rfl := List.mem_singleton.mp hb
        exact fun heq => hnot (heq ▸ ha)⟩

/-- A written key is the last one where it is new. -/
theorem keys_set_eq_addKeys (o : List (String × β)) (k : String) (v : β) :
    keys (set o k v) = addKeys (keys o) [k] := by
  cases hk : has o k with
  | true =>
      have hin : k ∈ keys o := by
        by_contra hnot
        rw [← get?_eq_none_iff] at hnot
        simp [has, hnot] at hk
      rw [keys_set hk]
      exact (if_pos (List.contains_iff_mem.mpr hin)).symm
  | false =>
      have hnot : k ∉ keys o := by
        rw [← get?_eq_none_iff]
        simpa [has] using hk
      have hnew : keys (set o k v) = keys o ++ [k] := by
        unfold set keys
        rw [hk, if_neg Bool.false_ne_true, List.map_append]
        rfl
      rw [hnew]
      exact (if_neg fun h => hnot (List.contains_iff_mem.mp h)).symm

theorem keys_assign_nodup {o p : List (String × β)} (ho : (keys o).Nodup) (hp : (keys p).Nodup) :
    (keys (assign o p)).Nodup := by
  unfold assign keys
  rw [List.map_append, List.map_map]
  refine List.nodup_append.mpr ⟨ho, hp.sublist (List.filter_sublist.map _), ?_⟩
  intro a ha b hb heq
  obtain ⟨e, he, rfl⟩ := List.mem_map.mp hb
  have hnone : get? o e.1 = none := by simpa [has] using (List.mem_filter.mp he).2
  exact get?_eq_none_iff.mp hnone (heq ▸ ha)

/-- With each key once, reading through a filter on the values is reading and filtering. -/
theorem get?_filter_values {o : List (String × β)} (h : (keys o).Nodup) (p : β → Bool) (k : String) :
    get? (o.filter fun e => p e.2) k = (get? o k).filter p := by
  induction o with
  | nil => rfl
  | cons e o ih =>
      obtain ⟨hnot, hrest⟩ := List.nodup_cons.mp h
      rw [List.filter_cons, get?_cons]
      by_cases hk : e.1 = k
      · have hnone : get? o k = none := get?_eq_none_iff.mpr (hk ▸ hnot)
        cases hp : p e.2 with
        | true => simp [get?_cons, hk, Option.filter, hp]
        | false => simp [ih hrest, hnone, hk, Option.filter, hp]
      · cases hp : p e.2 with
        | true => simp [get?_cons, hk, ih hrest]
        | false => simp [hk, ih hrest]

theorem not_has_iff (o : List (String × β)) (k : String) : (!has o k) = true ↔ k ∉ keys o := by
  rw [← get?_eq_none_iff]
  unfold has
  cases get? o k <;> simp

/-! ### Entries set one after the other -/

/-- Entries under new names, set one after the other. -/
theorem foldl_set_new {α : Type} {key : α → String} {val : α → β} {xs : List α}
    (h : (xs.map key).Nodup) {acc : List (String × β)} (hacc : ∀ x ∈ xs, key x ∉ keys acc) :
    xs.foldl (fun acc x => set acc (key x) (val x)) acc =
      acc ++ xs.map fun x => (key x, val x) := by
  induction xs generalizing acc with
  | nil => exact (List.append_nil acc).symm
  | cons x xs ih =>
      obtain ⟨hx, hxs⟩ := List.nodup_cons.mp h
      have hset : set acc (key x) (val x) = acc ++ [(key x, val x)] := by
        have hnot : has acc (key x) = false := by
          unfold has
          rw [get?_eq_none_iff.mpr (hacc x List.mem_cons_self)]
          rfl
        unfold set
        rw [hnot]
        rfl
      rw [List.foldl_cons, hset, ih hxs, List.append_assoc]
      · rfl
      · intro y hy hmem
        unfold keys at hmem
        rw [List.map_append, List.mem_append] at hmem
        rcases hmem with hmem | hmem
        · exact hacc y (List.mem_cons_of_mem x hy) hmem
        · have hsame : key y = key x := List.mem_singleton.mp hmem
          exact hx (hsame ▸ List.mem_map_of_mem hy)

/-- What stands under a name, where no name is there twice. -/
theorem get?_map_iff {α : Type} {key : α → String} {val : α → β} {xs : List α}
    (h : (xs.map key).Nodup) {name : String} {w : β} :
    get? (xs.map fun x => (key x, val x)) name = some w ↔ ∃ x ∈ xs, key x = name ∧ val x = w := by
  induction xs with
  | nil => simp
  | cons x xs ih =>
      obtain ⟨hx, hxs⟩ := List.nodup_cons.mp h
      rw [List.map_cons, get?_cons]
      split
      · rename_i hname
        constructor
        · exact fun hw => ⟨x, List.mem_cons_self, hname, Option.some.inj hw⟩
        · rintro ⟨y, hy, hkey, rfl⟩
          rcases List.mem_cons.mp hy with rfl | hy
          · rfl
          · have hmem : key y ∈ xs.map key := List.mem_map_of_mem hy
            rw [hkey, ← hname] at hmem
            exact absurd hmem hx
      · rename_i hname
        rw [ih hxs]
        constructor
        · rintro ⟨y, hy, hyname⟩
          exact ⟨y, List.mem_cons_of_mem x hy, hyname⟩
        · rintro ⟨y, hy, hkey, hval⟩
          rcases List.mem_cons.mp hy with rfl | hy
          · exact absurd hkey hname
          · exact ⟨y, hy, hkey, hval⟩

/-! ### Sets of keys -/

theorem addKeys_append (set xs ys : List String) :
    addKeys set (xs ++ ys) = addKeys (addKeys set xs) ys := List.foldl_append

theorem mem_addKeys {set keys : List String} {k : String} :
    k ∈ addKeys set keys ↔ k ∈ set ∨ k ∈ keys := by
  induction keys generalizing set with
  | nil => simp [addKeys]
  | cons x keys ih =>
      have hstep : addKeys set (x :: keys) =
          addKeys (if set.contains x then set else set ++ [x]) keys := rfl
      rw [hstep, ih]
      by_cases hx : x ∈ set
      · have : set.contains x = true := by simpa using hx
        rw [this, if_pos rfl, List.mem_cons]
        constructor
        · rintro (h | h)
          · exact .inl h
          · exact .inr (.inr h)
        · rintro (h | rfl | h)
          · exact .inl h
          · exact .inl hx
          · exact .inr h
      · have : set.contains x = false := by simpa using hx
        rw [this, if_neg (by simp), List.mem_append, List.mem_singleton, List.mem_cons, or_assoc]

theorem addKeys_eq_nil {keys : List String} : addKeys [] keys = [] ↔ keys = [] := by
  constructor
  · intro h
    rw [List.eq_nil_iff_forall_not_mem] at h ⊢
    exact fun k hk => h k (mem_addKeys.mpr (.inr hk))
  · rintro rfl
    rfl

theorem addKeys_nodup {set : List String} (h : set.Nodup) (keys : List String) :
    (addKeys set keys).Nodup := by
  induction keys generalizing set with
  | nil => exact h
  | cons x keys ih =>
      have hstep : addKeys set (x :: keys) =
          addKeys (if set.contains x then set else set ++ [x]) keys := rfl
      rw [hstep]
      apply ih
      by_cases hx : x ∈ set
      · rw [if_pos (by simpa using hx)]
        exact h
      · rw [if_neg (by simpa using hx)]
        exact List.nodup_append.mpr ⟨h, by simp, fun a ha b hb => by
          obtain rfl := List.mem_singleton.mp hb
          exact fun heq => hx (heq ▸ ha)⟩

end ObjectMap
