import UploadService.Policy.SpreadContext
import Mathlib.Data.List.Flatten
import Mathlib.Data.List.Perm.Subperm
import Mathlib.Algebra.Order.BigOperators.Group.List
import Mathlib.Algebra.Order.Group.Nat

/-!
# Contexts that are spread without loss

Each leaf of a nested context has a dotted path. The passes write it, or its elements, under a
key made from that path, into one flat object.

Main results:

- `flattenContext_eq`: flattening writes every leaf under the key of its path;
- `nothing_lost_iff`: every leaf and every element is found under its own key and no two share
  one, exactly where the paths and the keys are distinct, no object lies under an empty first
  key, no leaf is at `__proto__` and, beside an array, no other leaf has an inherited name.
-/

namespace UploadService

namespace RuleEvaluationService

/-! ### The leaves of a nested context -/

mutual

/-- The leaves of a value: what is no object, each with its path. -/
def leavesOf (path : List String) : Value → List (List String × Value)
  | .map m => leavesOfEntries path m
  | v => [(path, v)]

def leavesOfEntry (path : List String) : String × Value → List (List String × Value)
  | (k, v) => leavesOf (path ++ [k]) v

def leavesOfEntries (path : List String) : List (String × Value) → List (List String × Value)
  | [] => []
  | e :: es => leavesOfEntry path e ++ leavesOfEntries path es

end

/-- The leaves of a context, at any depth. -/
def leaves (context : Object) : List (List String × Value) := leavesOfEntries [] context

/-- The dotted path of a leaf. -/
def dotted : List String → String
  | [] => ""
  | [k] => k
  | k :: ks => k ++ "." ++ dotted ks

/-- The key that `flattenContext` gives to a path. -/
def flatPath (path : List String) : String := path.foldl flatKey ""

theorem flatPath_append (path : List String) (k : String) :
    flatPath (path ++ [k]) = flatKey (flatPath path) k := by
  unfold flatPath
  rw [List.foldl_append]
  rfl

/-- The writes of the leaves. -/
def flatEntries (ls : List (List String × Value)) : Object := ls.map fun l => (flatPath l.1, l.2)

mutual

theorem flattenValue_eq (path : List String) (result : Object) : (v : Value) →
    flattenValue (flatPath path) result v = setProperties result (flatEntries (leavesOf path v))
  | .map m => by rw [flattenValue, leavesOf, flattenEntries_eq path result m]
  | .null | .bool _ | .num _ | .str _ | .list _ => by
      rw [flattenValue, leavesOf]
      · rfl
      · nofun
      · nofun

theorem flattenEntry_eq (path : List String) (result : Object) : (e : String × Value) →
    flattenEntry (flatPath path) result e =
      setProperties result (flatEntries (leavesOfEntry path e))
  | (k, v) => by
      rw [flattenEntry, leavesOfEntry, ← flatPath_append, flattenValue_eq (path ++ [k]) result v]

theorem flattenEntries_eq (path : List String) (result : Object) : (es : Object) →
    flattenEntries (flatPath path) result es =
      setProperties result (flatEntries (leavesOfEntries path es))
  | [] => by
      rw [flattenEntries, leavesOfEntries]
      rfl
  | e :: es => by
      have happend : flatEntries (leavesOfEntry path e ++ leavesOfEntries path es) =
          flatEntries (leavesOfEntry path e) ++ flatEntries (leavesOfEntries path es) :=
        List.map_append
      rw [flattenEntries, leavesOfEntries, flattenEntry_eq path result e,
        flattenEntries_eq path _ es, happend, setProperties_append]

end

/-- **Spec.** Flattening writes every leaf under the key of its path. -/
theorem flattenContext_eq (context : Object) :
    flattenContext context = setProperties [] (flatEntries (leaves context)) :=
  flattenEntries_eq [] [] context

/-! ### Keys and dotted paths -/

theorem dotted_cons {k : String} {ks : List String} (h : ks ≠ []) :
    dotted (k :: ks) = k ++ "." ++ dotted ks := by
  cases ks with
  | nil => exact absurd rfl h
  | cons j js => rfl

theorem foldl_flatKey {k : String} (hk : k ≠ "") (ks : List String) :
    ks.foldl flatKey k = dotted (k :: ks) := by
  induction ks generalizing k with
  | nil => rfl
  | cons j ks ih =>
      have hne : k ++ "." ++ j ≠ "" := by
        intro h
        have hlen := congrArg String.length h
        rw [String.length_append, String.length_append] at hlen
        have hdot : ".".length = 1 := rfl
        have hempty : "".length = 0 := rfl
        omega
      rw [List.foldl_cons, flatKey, if_neg hk, ih hne, dotted_cons (List.cons_ne_nil j ks)]
      cases ks with
      | nil => rfl
      | cons i is =>
          rw [dotted_cons (List.cons_ne_nil i is), dotted_cons (List.cons_ne_nil i is)]
          simp only [String.append_assoc]

/-- A path whose key is its dotted path: an object under an empty first key loses the dot. -/
def KeepsDots (path : List String) : Prop := path.head? = some "" → path.length = 1

instance (path : List String) : Decidable (KeepsDots path) :=
  inferInstanceAs (Decidable (_ → _))

theorem flatPath_of_keepsDots {path : List String} (h : KeepsDots path) :
    flatPath path = dotted path := by
  cases path with
  | nil => rfl
  | cons k ks =>
      by_cases hk : k = ""
      · have hlen : ks.length + 1 = 1 := h (by rw [hk]; rfl)
        have hnil : ks = [] := List.eq_nil_of_length_eq_zero (by omega)
        rw [hnil, hk]
        rfl
      · show ks.foldl flatKey (flatKey "" k) = _
        rw [flatKey, if_pos rfl, foldl_flatKey hk]

theorem flatPath_le (path : List String) : (flatPath path).length ≤ (dotted path).length := by
  induction path with
  | nil => exact Nat.le_refl 0
  | cons k ks ih =>
      by_cases hk : k = ""
      · subst hk
        show (flatPath ks).length ≤ _
        cases ks with
        | nil => exact Nat.le_refl 0
        | cons j js =>
            rw [dotted_cons (List.cons_ne_nil j js), String.length_append]
            omega
      · rw [@flatPath_of_keepsDots (k :: ks) fun h => absurd (Option.some.inj h) hk]

theorem flatPath_lt {path : List String} (h : ¬ KeepsDots path) :
    (flatPath path).length < (dotted path).length := by
  unfold KeepsDots at h
  push Not at h
  obtain ⟨hhead, hlen⟩ := h
  cases path with
  | nil => cases hhead
  | cons k ks =>
      obtain rfl : k = "" := Option.some.inj hhead
      cases ks with
      | nil => exact absurd rfl hlen
      | cons j js =>
          show (flatPath (j :: js)).length < _
          have hle := flatPath_le (j :: js)
          rw [dotted_cons (List.cons_ne_nil j js), String.length_append, String.length_append]
          have hdot : ".".length = 1 := rfl
          omega

/-! ### Counting keys -/

theorem entrySpread_ne_nil (e : String × Value) : entrySpread e ≠ [] := by
  unfold entrySpread
  cases hv : elements? e.2 with
  | none => exact List.cons_ne_nil _ _
  | some xs =>
      cases xs with
      | nil =>
          unfold elements? at hv
          split at hv <;> cases hv
      | cons x xs => exact List.cons_ne_nil _ _

/-- How many keys an entry is given does not depend on its key. -/
theorem entrySpread_length (k j : String) (v : Value) :
    (entrySpread (k, v)).length = (entrySpread (j, v)).length := by
  unfold entrySpread elementEntries
  cases elements? v with
  | none => rfl
  | some xs => simp

/-- The characters of the keys that an entry is given. -/
def weight (e : String × Value) : ℕ := ((entrySpread e).map fun x => x.1.length).sum

theorem weight_lt {k j : String} (h : k.length < j.length) (v : Value) :
    weight (k, v) < weight (j, v) := by
  have hne := entrySpread_ne_nil (k, v)
  unfold weight entrySpread at *
  cases hv : elements? v with
  | none =>
      rw [hv] at hne
      show k.length + 0 < j.length + 0
      omega
  | some xs =>
      rw [hv] at hne
      have hzip : xs.zipIdx ≠ [] := fun hnil => hne (by simp [elementEntries, hnil])
      show ((elementEntries k xs).map _).sum < ((elementEntries j xs).map _).sum
      unfold elementEntries
      rw [List.map_map, List.map_map]
      apply List.sum_lt_sum_of_ne_nil hzip
      intro x _
      show (elementKey k x.2).length < (elementKey j x.2).length
      unfold elementKey
      simp only [String.length_append]
      omega

theorem weight_le {k j : String} (h : k.length ≤ j.length) (v : Value) :
    weight (k, v) ≤ weight (j, v) := by
  unfold weight entrySpread
  cases elements? v with
  | none =>
      show k.length + 0 ≤ j.length + 0
      omega
  | some xs =>
      show ((elementEntries k xs).map _).sum ≤ ((elementEntries j xs).map _).sum
      unfold elementEntries
      rw [List.map_map, List.map_map]
      apply List.sum_le_sum
      intro x _
      show (elementKey k x.2).length ≤ (elementKey j x.2).length
      unfold elementKey
      simp only [String.length_append]
      omega

theorem weight_spreadEntries (o : Object) :
    ((ObjectMap.keys (spreadEntries o)).map String.length).sum = (o.map weight).sum := by
  induction o with
  | nil => rfl
  | cons e o ih =>
      have hcons : spreadEntries (e :: o) = entrySpread e ++ spreadEntries o := rfl
      unfold ObjectMap.keys at ih ⊢
      rw [hcons, List.map_append, List.map_append, List.sum_append, ih, List.map_cons,
        List.sum_cons, List.map_map]
      rfl

/-- A part of a list whose entries are given as many keys is the whole list. -/
theorem eq_of_sublist_of_length {o p : Object} (hsub : o.Sublist p)
    (hlen : (spreadEntries p).length ≤ (spreadEntries o).length) : o = p := by
  induction hsub with
  | slnil => rfl
  | @cons o p e hsub ih =>
      have hcons : spreadEntries (e :: p) = entrySpread e ++ spreadEntries p := rfl
      have hpos := List.length_pos_iff.mpr (entrySpread_ne_nil e)
      have hle : (spreadEntries o).length ≤ (spreadEntries p).length :=
        (hsub.flatMap entrySpread).length_le
      rw [hcons, List.length_append] at hlen
      omega
  | @cons_cons o p e hsub ih =>
      have hcons : ∀ q, spreadEntries (e :: q) = entrySpread e ++ spreadEntries q := fun _ => rfl
      rw [hcons, hcons, List.length_append, List.length_append] at hlen
      rw [ih (by omega)]

/-! ### What has to be found -/

/-- The leaves by their dotted paths, comma-separated texts as arrays. -/
def dottedEntries (context : Object) : Object :=
  (leaves context).map fun l => (dotted l.1, normalizeValue l.2)

/-- The writes of the leaves, comma-separated texts as arrays. -/
def writtenEntries (context : Object) : Object :=
  (leaves context).map fun l => (flatPath l.1, normalizeValue l.2)

/-- Every leaf that is no array with elements is found under its dotted path, every element of
the others under the numbered path, and no two share a key. -/
structure NothingLost (context transformed : Object) : Prop where
  leaf : ∀ l ∈ leaves context, elements? (normalizeValue l.2) = none →
    ObjectMap.get? transformed (dotted l.1) = some l.2
  element : ∀ l ∈ leaves context, ∀ xs, elements? (normalizeValue l.2) = some xs →
    ∀ (i : ℕ) (x : Value), xs[i]? = some x →
      ObjectMap.get? transformed (elementKey (dotted l.1) i) = some x
  apart : (ObjectMap.keys (spreadEntries (dottedEntries context))).Nodup

/-- The keys do not clash, neither with one another nor with what every object inherits. -/
structure KeysApart (context : Object) : Prop where
  paths : (ObjectMap.keys (dottedEntries context)).Nodup
  entries : (ObjectMap.keys (spreadEntries (dottedEntries context))).Nodup
  dots : ∀ l ∈ leaves context, KeepsDots l.1
  proto : ∀ l ∈ leaves context, dotted l.1 ≠ "__proto__"
  inherited : (∃ l ∈ leaves context, elements? (normalizeValue l.2) ≠ none) →
    NamesOwn (dottedEntries context)

theorem normalizeValue_of_no_elements {v : Value} (h : elements? (normalizeValue v) = none) :
    normalizeValue v = v := by
  cases v with
  | str s =>
      have hvalue : normalizeValue (.str s) =
          if s.toList.contains ',' && decide (1 < (commaParts s).length) then
            .list ((commaParts s).map .str)
          else .str s := rfl
      rw [hvalue] at h ⊢
      split at h
      · rename_i hcomma
        simp only [Bool.and_eq_true, decide_eq_true_eq] at hcomma
        cases hparts : commaParts s with
        | nil =>
            rw [hparts] at hcomma
            exact absurd hcomma.2 (by simp)
        | cons x xs =>
            rw [hparts] at h
            cases h
      · rename_i hcomma
        rw [if_neg hcomma]
  | null => rfl
  | bool b => rfl
  | num n => rfl
  | list xs => rfl
  | map m => rfl

theorem mem_elementEntries {k : String} {xs : List Value} {e : String × Value} :
    e ∈ elementEntries k xs ↔ ∃ i, ∃ x, xs[i]? = some x ∧ e = (elementKey k i, x) := by
  unfold elementEntries
  rw [List.mem_map]
  constructor
  · rintro ⟨⟨x, i⟩, hmem, rfl⟩
    exact ⟨i, x, List.mem_zipIdx_iff_getElem?.mp hmem, rfl⟩
  · rintro ⟨i, x, hx, rfl⟩
    exact ⟨(x, i), List.mem_zipIdx_iff_getElem?.mpr hx, rfl⟩

/-- What has to be found, entry by entry. -/
theorem nothingLost_iff_entries {context transformed : Object} :
    NothingLost context transformed ↔
      (∀ e ∈ spreadEntries (dottedEntries context), ObjectMap.get? transformed e.1 = some e.2) ∧
        (ObjectMap.keys (spreadEntries (dottedEntries context))).Nodup := by
  constructor
  · intro h
    refine ⟨fun e he => ?_, h.apart⟩
    obtain ⟨d, hd, hmem⟩ := List.mem_flatMap.mp he
    obtain ⟨l, hl, rfl⟩ := List.mem_map.mp hd
    unfold entrySpread at hmem
    cases hv : elements? (normalizeValue l.2) with
    | none =>
        simp only [hv] at hmem
        obtain rfl := List.mem_singleton.mp hmem
        show ObjectMap.get? transformed (dotted l.1) = some (normalizeValue l.2)
        rw [normalizeValue_of_no_elements hv]
        exact h.leaf l hl hv
    | some xs =>
        simp only [hv] at hmem
        obtain ⟨i, x, hx, rfl⟩ := mem_elementEntries.mp hmem
        exact h.element l hl xs hv i x hx
  · rintro ⟨hfound, hapart⟩
    have hspread : ∀ l ∈ leaves context, ∀ e ∈ entrySpread (dotted l.1, normalizeValue l.2),
        ObjectMap.get? transformed e.1 = some e.2 := fun l hl e he =>
      hfound e (List.mem_flatMap.mpr ⟨_, List.mem_map_of_mem hl, he⟩)
    refine ⟨fun l hl hv => ?_, fun l hl xs hv i x hx => ?_, hapart⟩
    · have hmem : (dotted l.1, normalizeValue l.2) ∈
          entrySpread (dotted l.1, normalizeValue l.2) := by
        unfold entrySpread
        rw [hv]
        exact List.mem_singleton.mpr rfl
      have hread := hspread l hl _ hmem
      rw [normalizeValue_of_no_elements hv] at hread
      exact hread
    · apply hspread l hl (elementKey (dotted l.1) i, x)
      unfold entrySpread
      rw [hv]
      exact mem_elementEntries.mpr ⟨i, x, hx, rfl⟩

/-! ### Keys that do not clash -/

theorem normalized_eq (context : Object) :
    normalized context = setProperties []
      ((setProperties [] (flatEntries (leaves context))).map fun e => (e.1, normalizeValue e.2)) := by
  unfold normalized normalizeArrayFields
  rw [flattenContext_eq]

/-- Every entry of the normalized context is the write of a leaf. -/
theorem normalized_subset (context : Object) : normalized context ⊆ writtenEntries context := by
  intro e he
  have hread := ObjectMap.get?_of_mem (keys_normalized_nodup context) he
  rw [normalized_eq] at hread
  rcases get?_setProperties_cases hread with hnil | ⟨hmem, -⟩
  · cases hnil
  · obtain ⟨f, hf, heq⟩ := List.mem_map.mp hmem
    have hread' := ObjectMap.get?_of_mem (keys_written_nodup (flatEntries (leaves context))) hf
    rcases get?_setProperties_cases hread' with hnil | ⟨hmem', -⟩
    · cases hnil
    · obtain ⟨l, hl, hleaf⟩ := List.mem_map.mp hmem'
      have hkey : flatPath l.1 = f.1 := (Prod.mk.inj hleaf).1
      have hvalue : l.2 = f.2 := (Prod.mk.inj hleaf).2
      show e ∈ (leaves context).map fun l => (flatPath l.1, normalizeValue l.2)
      rw [← show (f.1, normalizeValue f.2) = e from heq, ← hkey, ← hvalue]
      exact List.mem_map_of_mem hl

theorem nodup_of_keys {o : Object} (h : (ObjectMap.keys o).Nodup) : o.Nodup := List.Nodup.of_map _ h

/-- **Spec.** Where no write is lost the normalized context is the writes, in some order. -/
theorem normalized_perm_of_keys {context : Object}
    (hnodup : (ObjectMap.keys (writtenEntries context)).Nodup)
    (hproto : ∀ e ∈ writtenEntries context, e.1 ≠ "__proto__") :
    (normalized context).Perm (writtenEntries context) := by
  rw [List.perm_ext_iff_of_nodup (nodup_of_keys (keys_normalized_nodup context))
    (nodup_of_keys hnodup)]
  intro e
  refine ⟨fun he => normalized_subset context he, fun he => ?_⟩
  have hkeys : ObjectMap.keys (flatEntries (leaves context)) =
      ObjectMap.keys (writtenEntries context) := by
    unfold ObjectMap.keys flatEntries writtenEntries
    rw [List.map_map, List.map_map]
    rfl
  obtain ⟨l, hl, rfl⟩ := List.mem_map.mp he
  have hne : flatPath l.1 ≠ "__proto__" := hproto _ he
  have hflat : ObjectMap.get? (setProperties [] (flatEntries (leaves context))) (flatPath l.1) =
      some l.2 := by
    have hmem : (flatPath l.1, l.2) ∈ flatEntries (leaves context) := List.mem_map.mpr ⟨l, hl, rfl⟩
    have hread := ObjectMap.get?_of_mem (hkeys ▸ hnodup) hmem
    rw [get?_setProperties (hkeys ▸ hnodup), if_neg hne, hread]
    rfl
  have hread : ObjectMap.get? (normalized context) (flatPath l.1) = some (normalizeValue l.2) := by
    have hkeep : ObjectMap.keys ((setProperties [] (flatEntries (leaves context))).map
        fun e => (e.1, normalizeValue e.2)) =
        ObjectMap.keys (setProperties [] (flatEntries (leaves context))) := by
      unfold ObjectMap.keys
      rw [List.map_map]
      rfl
    rw [normalized_eq, get?_setProperties (hkeep ▸ keys_written_nodup _), if_neg hne,
      ObjectMap.get?_map _ (fun _ v => normalizeValue v), hflat]
    rfl
  exact ObjectMap.mem_of_get? hread

theorem namesOwn_perm {o p : Object} (h : o.Perm p) : NamesOwn o ↔ NamesOwn p :=
  ⟨fun ho e he => ho e (h.mem_iff.mpr he), fun hp e he => hp e (h.mem_iff.mp he)⟩

theorem spreadEntries_perm {o p : Object} (h : o.Perm p) :
    (spreadEntries o).Perm (spreadEntries p) := h.flatMap_right entrySpread

theorem keys_perm {o p : Object} (h : o.Perm p) : (ObjectMap.keys o).Perm (ObjectMap.keys p) :=
  h.map Prod.fst

theorem written_eq_dotted {context : Object} (h : ∀ l ∈ leaves context, KeepsDots l.1) :
    writtenEntries context = dottedEntries context := by
  apply List.map_congr_left
  intro l hl
  rw [flatPath_of_keepsDots (h l hl)]

theorem arraysOf_isEmpty_iff {context : Object}
    (h : (normalized context).Perm (dottedEntries context)) :
    (arraysOf context).isEmpty = true ↔
      ∀ l ∈ leaves context, elements? (normalizeValue l.2) = none := by
  unfold arraysOf
  rw [arrayFieldsOf_isEmpty]
  constructor
  · exact fun hnone l hl => hnone _ (h.mem_iff.mpr (List.mem_map_of_mem hl))
  · intro hnone e he
    obtain ⟨l, hl, rfl⟩ := List.mem_map.mp (h.mem_iff.mp he)
    exact hnone l hl

/-! ### Nothing is lost -/

/-- Keys that do not clash are all written as they are. -/
theorem KeysApart.perm {context : Object} (h : KeysApart context) :
    (normalized context).Perm (dottedEntries context) := by
  have heq := written_eq_dotted h.dots
  have hproto : ∀ e ∈ writtenEntries context, e.1 ≠ "__proto__" := by
    intro e he
    rw [heq] at he
    obtain ⟨l, hl, rfl⟩ := List.mem_map.mp he
    exact h.proto l hl
  exact heq ▸ normalized_perm_of_keys (heq ▸ h.paths) hproto

/-- What is written under dotted keys that do not clash is found. -/
theorem nothingLost_of_keysApart {context transformed : Object} (h : KeysApart context)
    (hreads : ∀ k, ObjectMap.get? transformed k = ObjectMap.get? (spreadOf context) k) :
    NothingLost context transformed := by
  have hspread := spreadEntries_perm h.perm
  have hnodup : (ObjectMap.keys (spreadEntries (normalized context))).Nodup :=
    (keys_perm hspread).nodup_iff.mpr h.entries
  refine nothingLost_iff_entries.mpr ⟨fun e he => ?_, h.entries⟩
  rw [hreads, spreadOf, get?_spread hnodup]
  exact ObjectMap.get?_of_mem hnodup (hspread.mem_iff.mpr he)

/-- Where all is found, the writes of the leaves are all there and have their dotted keys. -/
theorem keysApart_of_nothingLost {context transformed : Object}
    (hlost : NothingLost context transformed)
    (hreads : ∀ k, ObjectMap.get? transformed k = ObjectMap.get? (spreadOf context) k)
    (hown : (arraysOf context).isEmpty = false → NamesOwn (normalized context)) :
    KeysApart context := by
  obtain ⟨hfound, hapart⟩ := nothingLost_iff_entries.mp hlost
  -- every key that has to be there is the key of a spread entry
  have hsubset : ObjectMap.keys (spreadEntries (dottedEntries context)) ⊆
      ObjectMap.keys (spreadEntries (normalized context)) := by
    intro k hk
    obtain ⟨e, he, rfl⟩ := List.mem_map.mp hk
    have hread := hfound e he
    rw [hreads] at hread
    rcases get?_setProperties_cases hread with hnil | ⟨hmem, -⟩
    · cases hnil
    · exact List.mem_map_of_mem hmem
  have hsubperm := List.subperm_of_subset hapart hsubset
  have hlength : (spreadEntries (writtenEntries context)).length =
      (spreadEntries (dottedEntries context)).length := by
    unfold spreadEntries writtenEntries dottedEntries
    rw [List.flatMap_map, List.flatMap_map, List.length_flatMap, List.length_flatMap]
    apply congrArg List.sum
    exact List.map_congr_left fun l _ => entrySpread_length _ _ _
  -- so no write of a leaf was lost
  have hperm : (normalized context).Perm (writtenEntries context) := by
    obtain ⟨part, hpart, hsub⟩ :=
      List.subperm_of_subset (nodup_of_keys (keys_normalized_nodup context))
        (normalized_subset context)
    have hle := hsubperm.length_le
    unfold ObjectMap.keys at hle
    rw [List.length_map, List.length_map, ← hlength] at hle
    have hsame : (spreadEntries part).length = (spreadEntries (normalized context)).length :=
      (spreadEntries_perm hpart).length_eq
    obtain rfl := eq_of_sublist_of_length hsub (by omega)
    exact hpart.symm
  -- and the keys are the dotted ones, since none is longer and together they are as long
  have hdots : ∀ l ∈ leaves context, KeepsDots l.1 := by
    by_contra hnot
    push Not at hnot
    obtain ⟨l, hl, hbad⟩ := hnot
    have hkeys : (ObjectMap.keys (spreadEntries (dottedEntries context))).Perm
        (ObjectMap.keys (spreadEntries (normalized context))) := by
      apply hsubperm.perm_of_length_le
      unfold ObjectMap.keys
      rw [List.length_map, List.length_map, ← hlength, (spreadEntries_perm hperm).length_eq]
    have hweights := (hkeys.map String.length).sum_eq
    rw [weight_spreadEntries, weight_spreadEntries, (hperm.map weight).sum_eq] at hweights
    have hlt : ((writtenEntries context).map weight).sum <
        ((dottedEntries context).map weight).sum := by
      unfold writtenEntries dottedEntries
      rw [List.map_map, List.map_map]
      exact List.sum_lt_sum _ _ (fun l _ => weight_le (flatPath_le l.1) _)
        ⟨l, hl, weight_lt (flatPath_lt hbad) _⟩
    omega
  have heq := written_eq_dotted hdots
  rw [heq] at hperm
  refine ⟨?_, hapart, hdots, fun l hl => ?_, fun hfull => ?_⟩
  · exact (keys_perm hperm).nodup_iff.mp (keys_normalized_nodup context)
  · exact ne_proto_of_mem_normalized (e := (dotted l.1, normalizeValue l.2))
      (hperm.mem_iff.mpr (List.mem_map_of_mem hl))
  · rw [← namesOwn_perm hperm]
    apply hown
    obtain ⟨l, hl, hv⟩ := hfull
    rw [Bool.eq_false_iff, ne_eq, arraysOf_isEmpty_iff hperm]
    exact fun hnone => hv (hnone l hl)

/-- **Main result.** Every leaf and every element is found, exactly where the keys do not clash. -/
theorem nothing_lost_iff (context : Object) (rule : Value)
    (hrule : ∃ r, transformRule (arraysOf context) rule = .ok r) :
    (∃ s, spreadArrayFields (flattenContext context) rule = .ok s ∧
      NothingLost context s.transformedContext) ↔ KeysApart context := by
  constructor
  · rintro ⟨s, hs, hlost⟩
    obtain ⟨hown, hreads⟩ := spreadArrayFields_ok hs
    exact keysApart_of_nothingLost hlost hreads hown
  · intro h
    have hown : (arraysOf context).isEmpty = false → NamesOwn (normalized context) := by
      intro hfull
      rw [namesOwn_perm h.perm]
      apply h.inherited
      rw [Bool.eq_false_iff, ne_eq, arraysOf_isEmpty_iff h.perm] at hfull
      push Not at hfull
      exact hfull
    obtain ⟨s, hs⟩ := spreadArrayFields_returns hown hrule
    exact ⟨s, hs, nothingLost_of_keysApart h (spreadArrayFields_ok hs).2⟩

theorem small_context_kept : KeysApart smallContext ∧
    ∃ s, spreadArrayFields (flattenContext smallContext) smallRule = .ok s ∧
      NothingLost smallContext s.transformedContext := by
  have hapart : KeysApart smallContext :=
    ⟨by decide +kernel, by decide +kernel, by decide +kernel, by decide +kernel,
      fun _ => by decide +kernel⟩
  refine ⟨hapart, (nothing_lost_iff smallContext smallRule ?_).mpr hapart⟩
  have hok : (transformRule (arraysOf smallContext) smallRule).isOk = true := by decide +kernel
  cases hrule : transformRule (arraysOf smallContext) smallRule with
  | ok r => exact ⟨r, rfl⟩
  | error e =>
      rw [hrule] at hok
      cases hok

/-- A key that every object inherits stops the spreading; a key that ends in a number takes the
place of an element. -/
theorem clashing_keys_lose :
    (¬ ∃ s, spreadArrayFields (flattenContext [("constructor", .str "Acme"),
        ("groups", .list [.str "a", .str "b"])]) (.map []) = .ok s ∧
      NothingLost [("constructor", .str "Acme"), ("groups", .list [.str "a", .str "b"])]
        s.transformedContext) ∧
    ¬ ∃ s, spreadArrayFields (flattenContext [("groups", .list [.str "a", .str "b"]),
        ("groups_1", .str "c")]) (.map []) = .ok s ∧
      NothingLost [("groups", .list [.str "a", .str "b"]), ("groups_1", .str "c")]
        s.transformedContext := by
  constructor
  · rintro ⟨s, hs, -⟩
    have herror : spreadArrayFields (flattenContext [("constructor", .str "Acme"),
        ("groups", .list [.str "a", .str "b"])]) (.map []) =
        .error ⟨"arr.map is not a function"⟩ := by decide +kernel
    rw [herror] at hs
    cases hs
  · rintro ⟨s, -, hlost⟩
    exact absurd hlost.apart (by decide +kernel)

end RuleEvaluationService

end UploadService
