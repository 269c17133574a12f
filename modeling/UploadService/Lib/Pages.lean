import Mathlib.Data.List.Basic
import Mathlib.Data.List.Perm.Basic
import Mathlib.Data.List.Pairwise
import Mathlib.Data.List.Nodup

/-!
# Pages of a listing

A listing is a list in descending order of a key, of which a reader takes pages by their
offset. Entries with one key may come in any order, and entries may go between two reads.

Main results:

- `mem_take_iff`: two listings of the same entries have the same entries before an offset at
  which the key falls;
- `drop_filter_subset`: entries that go before an offset only move others in front of it;
- `drop_filter_of_gone`: and where one goes, the entry at the offset is never read after it.
-/

namespace Pages

variable {α : Type} {l m : List α}

/-- The key does not rise. -/
def Descending (key : α → ℕ) (l : List α) : Prop := l.Pairwise fun a b => key b ≤ key a

/-- The key falls at the offset. -/
def FallsAt (key : α → ℕ) (l : List α) (n : ℕ) : Prop :=
  ∀ a ∈ l.take n, ∀ b ∈ l.drop n, key b < key a

instance (key : α → ℕ) (l : List α) (n : ℕ) : Decidable (FallsAt key l n) :=
  inferInstanceAs (Decidable (∀ a ∈ l.take n, ∀ b ∈ l.drop n, key b < key a))

/-- A test that only a first part of a list passes selects that part. -/
theorem filter_eq_take {q : α → Bool} (h : l.Pairwise fun a b => q b = true → q a = true) :
    l.filter q = l.take (l.filter q).length := by
  induction l with
  | nil => rfl
  | cons a l ih =>
      obtain ⟨hhead, htail⟩ := List.pairwise_cons.mp h
      by_cases hq : q a = true
      · rw [List.filter_cons_of_pos hq, List.length_cons, List.take_succ_cons, ← ih htail]
      · have hnone : l.filter q = [] := by
          rw [List.filter_eq_nil_iff]
          exact fun b hb hqb => hq (hhead b hb hqb)
        rw [List.filter_cons_of_neg hq, hnone]
        rfl

theorem Descending.drop_le_take {key : α → ℕ} (h : Descending key l) {n : ℕ} {a b : α}
    (ha : a ∈ l.take n) (hb : b ∈ l.drop n) : key b ≤ key a := by
  unfold Descending at h
  rw [← List.take_append_drop n l] at h
  exact (List.pairwise_append.mp h).2.2 a ha b hb

/-- What comes before an offset at which the key falls. -/
theorem take_perm_take {key : α → ℕ} (hl : Descending key l) (hm : Descending key m)
    (hperm : m.Perm l) {n : ℕ} (hn : n < l.length) (hfalls : FallsAt key l n) :
    (m.take n).Perm (l.take n) := by
  have hfirst : l[n] ∈ l.drop n := List.mem_drop_iff_getElem.mpr ⟨0, by omega, by simp⟩
  let above : α → Bool := fun a => decide (key l[n] < key a)
  have hfilter : l.filter above = l.take n := by
    conv_lhs => rw [← List.take_append_drop n l]
    rw [List.filter_append]
    have htake : (l.take n).filter above = l.take n := by
      rw [List.filter_eq_self]
      exact fun a ha => decide_eq_true (hfalls a ha _ hfirst)
    have hdrop : (l.drop n).filter above = [] := by
      rw [List.filter_eq_nil_iff]
      intro b hb habove
      have hle : key b ≤ key l[n] := by
        rw [List.drop_eq_getElem_cons hn] at hb
        rcases List.mem_cons.mp hb with rfl | hb
        · exact Nat.le_refl _
        · have htaken : l[n] ∈ l.take (n + 1) := by
            rw [List.mem_take_iff_getElem]
            exact ⟨n, by omega, rfl⟩
          exact hl.drop_le_take htaken hb
      have := of_decide_eq_true habove
      omega
    rw [htake, hdrop, List.append_nil]
  have hsame : (m.filter above).Perm (l.take n) := by
    rw [← hfilter]
    exact hperm.filter above
  have hlength : (m.filter above).length = n := by
    rw [hsame.length_eq, List.length_take]
    omega
  have hmfirst : m.filter above = m.take n := by
    have := filter_eq_take (l := m) (q := above) (hm.imp fun hab hb => by
      have := of_decide_eq_true hb
      exact decide_eq_true (by omega))
    rw [hlength] at this
    exact this
  rw [← hmfirst]
  exact hsame

/-- **Main result.** Two listings agree on what comes before such an offset. -/
theorem mem_take_iff {key : α → ℕ} (hl : Descending key l) (hm : Descending key m)
    (hperm : m.Perm l) {n : ℕ} (hfalls : n < l.length → FallsAt key l n) {a : α} :
    a ∈ m.take n ↔ a ∈ l.take n := by
  by_cases hn : n < l.length
  · exact (take_perm_take hl hm hperm hn (hfalls hn)).mem_iff
  · have hlong : l.length ≤ n := Nat.le_of_not_lt hn
    rw [List.take_of_length_le hlong, List.take_of_length_le (hperm.length_eq ▸ hlong)]
    exact hperm.mem_iff

/-! ### Entries that go -/

/-- What is read from an offset on was there to read before entries went. -/
theorem drop_filter_subset (p : α → Bool) {i j : ℕ} (hij : i ≤ j) :
    (l.filter p).drop j ⊆ l.drop i := by
  intro a ha
  have hsplit : l.filter p = (l.take i).filter p ++ (l.drop i).filter p := by
    rw [← List.filter_append, List.take_append_drop]
  have hshort : ((l.take i).filter p).length ≤ j := by
    have := List.length_filter_le p (l.take i)
    have := List.length_take_le i l
    omega
  rw [hsplit, List.drop_append, List.drop_of_length_le hshort, List.nil_append] at ha
  exact (List.mem_filter.mp (List.mem_of_mem_drop ha)).1

/-- **Main result.** Where an entry before the offset goes, the entry at the offset comes to stand
in front of it. -/
theorem drop_filter_of_gone {p : α → Bool} {n : ℕ} {gone x : α} {rest : List α}
    (hgone : gone ∈ l.take n) (hp : p gone = false) (hnext : l.drop n = x :: rest) :
    (l.filter p).drop n ⊆ rest := by
  intro a ha
  have hsplit : l.filter p = (l.take n).filter p ++ (l.drop n).filter p := by
    rw [← List.filter_append, List.take_append_drop]
  have hshort : ((l.take n).filter p).length < n := by
    have hless : ((l.take n).filter p).length < (l.take n).length := by
      apply List.length_filter_lt_length_iff_exists.mpr
      exact ⟨gone, hgone, by simp [hp]⟩
    have := List.length_take_le n l
    omega
  rw [hsplit, List.drop_append, List.drop_of_length_le (Nat.le_of_lt hshort), List.nil_append,
    hnext, List.filter_cons] at ha
  obtain ⟨k, hk⟩ : ∃ k, n - ((l.take n).filter p).length = k + 1 := ⟨_, (Nat.succ_pred (by omega)).symm⟩
  rw [hk] at ha
  split at ha
  · exact (List.mem_filter.mp (List.mem_of_mem_drop ha)).1
  · exact (List.mem_filter.mp (List.mem_of_mem_drop ha)).1

end Pages
