import UploadService.Lib.Rows

/-!
# Marks on greatest rows

Some rows of a table are candidates, each row has a rank, and a column marks rows. The
marks are right when they stand on candidates of the greatest rank, and on some row as soon
as there is a candidate. The column is computed from the others, but stored: each write
of the table has to keep it right, or to compute it again.

Main results:

- `Marks.map`: an update that keeps the order of the ranks, takes no marked candidate away
  and adds candidates only behind the marked row keeps the marks right;
- `Marks.append`, `Marks.deleteWhere`: new and deleted rows;
- `marks_of_election`: marks on a row of the greatest rank are right;
- `Marks.marked_iff`: where no two candidates share a rank, the marked row is the candidate
  of the greatest rank.
-/

namespace Leader

variable {α : Type} {cand marked : α → Prop} {rank : α → ℕ} {rows rows' : List α}

/-- The marks stand on candidates of the greatest rank, and somewhere if there is one. -/
structure Marks (cand marked : α → Prop) (rank : α → ℕ) (rows : List α) : Prop where
  candidate : ∀ l ∈ rows, marked l → cand l
  greatest : ∀ l ∈ rows, marked l → ∀ r ∈ rows, cand r → rank r ≤ rank l
  exists_marked : ∀ r ∈ rows, cand r → ∃ l ∈ rows, marked l

/-- A marked row has the rank, or a greater one. -/
def Behind (marked : α → Prop) (rank : α → ℕ) (rows : List α) (n : ℕ) : Prop :=
  ∃ l ∈ rows, marked l ∧ n ≤ rank l

instance [DecidablePred marked] (n : ℕ) : Decidable (Behind marked rank rows n) :=
  inferInstanceAs (Decidable (∃ l ∈ rows, marked l ∧ n ≤ rank l))

theorem marks_nil : Marks cand marked rank [] where
  candidate := by simp
  greatest := by simp
  exists_marked := by simp

/-- Every candidate is behind a marked row. -/
theorem Marks.behind (h : Marks cand marked rank rows) {r : α} (hr : r ∈ rows) (hc : cand r) :
    Behind marked rank rows (rank r) := by
  obtain ⟨l, hl, hm⟩ := h.exists_marked r hr hc
  exact ⟨l, hl, hm, h.greatest l hl hm r hr hc⟩

/-- Marked rows have one rank. -/
theorem Marks.le_of_behind (h : Marks cand marked rank rows) {n : ℕ}
    (hn : Behind marked rank rows n) {l : α} (hl : l ∈ rows) (hm : marked l) : n ≤ rank l := by
  obtain ⟨k, hk, hmk, hle⟩ := hn
  exact hle.trans (h.greatest l hl hm k hk (h.candidate k hk hmk))

/-! ### Writes -/

/-- `φ` is what the update does to the ranks. -/
theorem Marks.map (h : Marks cand marked rank rows) {f : α → α} (φ : ℕ → ℕ) (hφ : Monotone φ)
    (hrank : ∀ r ∈ rows, rank (f r) = φ (rank r))
    (hmarked : ∀ r ∈ rows, marked (f r) ↔ marked r)
    (hstay : ∀ r ∈ rows, marked r → cand (f r))
    (henter : ∀ r ∈ rows, cand (f r) → Behind marked rank rows (rank r)) :
    Marks cand marked rank (rows.map f) where
  candidate := by
    intro l hl hm
    obtain ⟨r, hr, rfl⟩ := List.mem_map.mp hl
    exact hstay r hr ((hmarked r hr).mp hm)
  greatest := by
    intro l hl hm r hr hc
    obtain ⟨x, hx, rfl⟩ := List.mem_map.mp hl
    obtain ⟨y, hy, rfl⟩ := List.mem_map.mp hr
    rw [hrank x hx, hrank y hy]
    apply hφ
    exact h.le_of_behind (henter y hy hc) hx ((hmarked x hx).mp hm)
  exists_marked := by
    intro r hr hc
    obtain ⟨y, hy, rfl⟩ := List.mem_map.mp hr
    obtain ⟨l, hl, hm, -⟩ := henter y hy hc
    exact ⟨f l, List.mem_map_of_mem hl, (hmarked l hl).mpr hm⟩

/-- An update of some rows that leaves the ranks. -/
theorem Marks.updateWhere (h : Marks cand marked rank rows) {p : α → Bool} {f : α → α}
    (hrank : ∀ r ∈ rows, p r = true → rank (f r) = rank r)
    (hmarked : ∀ r ∈ rows, p r = true → (marked (f r) ↔ marked r))
    (hstay : ∀ r ∈ rows, p r = true → marked r → cand (f r))
    (henter : ∀ r ∈ rows, p r = true → cand (f r) → Behind marked rank rows (rank r)) :
    Marks cand marked rank (Rows.updateWhere p f rows) := by
  apply h.map id monotone_id
  all_goals intro r hr
  all_goals by_cases hp : p r = true
  · simpa [hp] using hrank r hr hp
  · simp [hp]
  · simpa [hp] using hmarked r hr hp
  · simp [hp]
  · simpa [hp] using hstay r hr hp
  · simpa [hp] using h.candidate r hr
  · simpa [hp] using henter r hr hp
  · simpa [hp] using h.behind hr

/-- A new row without a mark. -/
theorem Marks.append (h : Marks cand marked rank rows) {r : α} (hr : ¬ marked r)
    (hc : cand r → Behind marked rank rows (rank r)) : Marks cand marked rank (rows ++ [r]) where
  candidate := by
    intro l hl hm
    rcases List.mem_append.mp hl with hl | hl
    · exact h.candidate l hl hm
    · obtain rfl := List.mem_singleton.mp hl
      exact absurd hm hr
  greatest := by
    intro l hl hm x hx hcx
    rcases List.mem_append.mp hl with hold | hnew
    · rcases List.mem_append.mp hx with hx | hx
      · exact h.greatest l hold hm x hx hcx
      · rw [List.mem_singleton.mp hx] at hcx ⊢
        exact h.le_of_behind (hc hcx) hold hm
    · rw [List.mem_singleton.mp hnew] at hm
      exact absurd hm hr
  exists_marked := by
    intro x hx hcx
    rcases List.mem_append.mp hx with hx | hx
    · obtain ⟨l, hl, hm⟩ := h.exists_marked x hx hcx
      exact ⟨l, List.mem_append_left _ hl, hm⟩
    · obtain rfl := List.mem_singleton.mp hx
      obtain ⟨l, hl, hm, -⟩ := hc hcx
      exact ⟨l, List.mem_append_left _ hl, hm⟩

/-- Rows without a mark may go. -/
theorem Marks.deleteWhere (h : Marks cand marked rank rows) {p : α → Bool}
    (hp : ∀ r ∈ rows, p r = true → ¬ marked r) :
    Marks cand marked rank (Rows.deleteWhere p rows) where
  candidate := fun l hl => h.candidate l (Rows.mem_deleteWhere.mp hl).1
  greatest := fun l hl hm r hr =>
    h.greatest l (Rows.mem_deleteWhere.mp hl).1 hm r (Rows.mem_deleteWhere.mp hr).1
  exists_marked := by
    intro r hr hc
    obtain ⟨l, hl, hm⟩ := h.exists_marked r (Rows.mem_deleteWhere.mp hr).1 hc
    refine ⟨l, Rows.mem_deleteWhere.mpr ⟨hl, ?_⟩, hm⟩
    by_contra hdel
    exact hp l hl (by simpa using hdel) hm

/-- Without candidates no row may be marked. -/
theorem marks_of_no_candidate (hc : ∀ r ∈ rows, ¬ cand r) (hm : ∀ r ∈ rows, ¬ marked r) :
    Marks cand marked rank rows where
  candidate := fun l hl h => absurd h (hm l hl)
  greatest := fun l hl h => absurd h (hm l hl)
  exists_marked := fun r hr h => absurd h (hc r hr)

/-! ### Computing the marks again -/

/-- The first of the candidates in falling order of their ranks. -/
theorem head?_insertionSort_greatest {l : α}
    (h : (rows.insertionSort fun a b => rank b ≤ rank a).head? = some l) :
    l ∈ rows ∧ ∀ r ∈ rows, rank r ≤ rank l := by
  have hmem : ∀ x, x ∈ rows.insertionSort (fun a b => rank b ≤ rank a) ↔ x ∈ rows := by
    intro x
    exact List.mem_insertionSort _
  have : Std.Total fun a b : α => rank b ≤ rank a := ⟨fun a b => Nat.le_total (rank b) (rank a)⟩
  have : IsTrans α fun a b => rank b ≤ rank a := ⟨fun _ _ _ hab hbc => hbc.trans hab⟩
  have hsorted := List.pairwise_insertionSort (fun a b : α => rank b ≤ rank a) rows
  cases hs : rows.insertionSort fun a b => rank b ≤ rank a with
  | nil =>
      rw [hs] at h
      cases h
  | cons x xs =>
      rw [hs] at h hsorted hmem
      obtain rfl : x = l := Option.some.inj h
      refine ⟨(hmem x).mp List.mem_cons_self, ?_⟩
      intro r hr
      rcases List.mem_cons.mp ((hmem r).mpr hr) with rfl | hr
      · exact Nat.le_refl _
      · exact (List.pairwise_cons.mp hsorted).1 r hr

/-- Marks on a candidate of the greatest rank, and nowhere else. -/
theorem marks_of_election {elected : Option α} (hmem : ∀ l ∈ elected, l ∈ rows ∧ cand l ∧ marked l)
    (hgreatest : ∀ l ∈ elected, ∀ r ∈ rows, cand r → rank r ≤ rank l)
    (hnone : elected = none → ∀ r ∈ rows, ¬ cand r)
    (honly : ∀ r ∈ rows, marked r → r ∈ elected) : Marks cand marked rank rows where
  candidate := fun l hl hm => (hmem l (honly l hl hm)).2.1
  greatest := fun l hl hm => hgreatest l (honly l hl hm)
  exists_marked := by
    intro r hr hc
    cases elected with
    | none => exact absurd hc (hnone rfl r hr)
    | some l => exact ⟨l, (hmem l rfl).1, (hmem l rfl).2.2⟩

/-! ### What the marks say -/

/-- Where no two candidates share a rank, the mark is on the greatest candidate. -/
theorem Marks.marked_iff (h : Marks cand marked rank rows)
    (hrank : ∀ a ∈ rows, ∀ b ∈ rows, cand a → cand b → rank a = rank b → a = b) {r : α}
    (hr : r ∈ rows) : marked r ↔ cand r ∧ ∀ x ∈ rows, cand x → rank x ≤ rank r := by
  constructor
  · intro hm
    exact ⟨h.candidate r hr hm, h.greatest r hr hm⟩
  · rintro ⟨hc, hgreatest⟩
    obtain ⟨l, hl, hm⟩ := h.exists_marked r hr hc
    have hcl := h.candidate l hl hm
    have hle := hgreatest l hl hcl
    have hge := h.greatest l hl hm r hr hc
    rw [hrank r hr l hl hc hcl (by omega)]
    exact hm

end Leader
