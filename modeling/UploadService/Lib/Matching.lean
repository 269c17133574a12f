import Mathlib.Data.List.Nodup
import Mathlib.Data.List.Perm.Subperm

/-!
# Requests that find rows

A list of requests is answered by the rows that some request finds. Where a request finds at most
one row, counting the answer tells whether every request was answered on its own.

Main result: `length_filter_any_iff`, there are as many rows as requests exactly when every
request finds a row and no two find the same.
-/

namespace Matching

variable {α β : Type}

/-- The row that a request finds first. -/
def answer (found : β → α → Bool) (rows : List α) (e : β) : Option α := rows.find? (found e)

/-- No two of the requests find one row. -/
def Apart (found : β → α → Bool) (rows : List α) (requests : List β) : Prop :=
  requests.Pairwise fun e f => ∀ r ∈ rows, ¬ (found e r = true ∧ found f r = true)

section Answers

variable {found : β → α → Bool} {rows : List α} {requests : List β}

theorem answer_some {e : β} {r : α} (h : answer found rows e = some r) :
    r ∈ rows ∧ found e r = true :=
  ⟨List.mem_of_find?_eq_some h, List.find?_some h⟩

/-- A request that finds at most one row is answered by it. -/
theorem answer_eq {e : β} {r : α} (hone : ∀ r ∈ rows, ∀ r' ∈ rows, found e r = true →
    found e r' = true → r = r') (hr : r ∈ rows) (h : found e r = true) :
    answer found rows e = some r := by
  cases hanswer : answer found rows e with
  | none => exact absurd h (List.find?_eq_none.mp hanswer r hr)
  | some r' =>
      obtain ⟨hr', h'⟩ := answer_some hanswer
      rw [hone r' hr' r hr h' h]

theorem mem_answers (hone : ∀ e ∈ requests, ∀ r ∈ rows, ∀ r' ∈ rows, found e r = true →
    found e r' = true → r = r') {r : α} :
    r ∈ requests.filterMap (answer found rows) ↔
      r ∈ rows.filter fun r => requests.any fun e => found e r := by
  rw [List.mem_filterMap, List.mem_filter, List.any_eq_true]
  constructor
  · rintro ⟨e, he, hanswer⟩
    obtain ⟨hr, h⟩ := answer_some hanswer
    exact ⟨hr, e, he, h⟩
  · rintro ⟨hr, e, he, h⟩
    exact ⟨e, he, answer_eq (hone e he) hr h⟩

/-- **Main result.** As many rows are found as there are requests exactly when every request
finds a row and no two find the same. -/
theorem length_filter_any_iff (hrows : rows.Nodup)
    (hone : ∀ e ∈ requests, ∀ r ∈ rows, ∀ r' ∈ rows, found e r = true →
      found e r' = true → r = r') :
    (rows.filter fun r => requests.any fun e => found e r).length = requests.length ↔
      (∀ e ∈ requests, ∃ r ∈ rows, found e r = true) ∧ Apart found rows requests := by
  have hfilter := hrows.filter fun r => requests.any fun e => found e r
  have hapart : Apart found rows requests ↔ (requests.filterMap (answer found rows)).Nodup := by
    unfold Apart List.Nodup
    rw [List.pairwise_filterMap]
    constructor
    · intro h
      apply h.imp
      rintro e f hef r hr r' hr' rfl
      obtain ⟨hmem, hfound⟩ := answer_some hr
      exact hef r hmem ⟨hfound, (answer_some hr').2⟩
    · intro h
      apply h.imp_of_mem
      rintro e f he hf hef r hr ⟨hfound, hfound'⟩
      exact hef r (answer_eq (hone e he) hr hfound) r (answer_eq (hone f hf) hr hfound') rfl
  have hanswered : (requests.filterMap (answer found rows)).length = requests.length ↔
      ∀ e ∈ requests, ∃ r ∈ rows, found e r = true := by
    rw [List.filterMap_length_eq_length]
    apply forall₂_congr
    intro e _
    unfold answer
    rw [List.find?_isSome]
  rw [hapart, ← hanswered]
  constructor
  · intro hlen
    have hsubset : (rows.filter fun r => requests.any fun e => found e r) ⊆
        requests.filterMap (answer found rows) := fun r hr => (mem_answers hone).mpr hr
    have hle := List.length_filterMap_le (answer found rows) requests
    have hperm := (List.subperm_of_subset hfilter hsubset).perm_of_length_le (by omega)
    exact ⟨hperm.length_eq.symm.trans hlen, hperm.nodup_iff.mp hfilter⟩
  · rintro ⟨hlen, hnodup⟩
    have hperm := (List.perm_ext_iff_of_nodup hnodup hfilter).mpr fun r => mem_answers hone
    rw [← hperm.length_eq, hlen]

end Answers

end Matching
