import Mathlib.Algebra.Group.Defs
import Mathlib.Data.List.Basic
import Mathlib.Data.List.Find
import Mathlib.Data.List.Nodup
import Mathlib.Data.List.Pairwise
import Mathlib.Data.List.Sort

/-!
# Tables as lists of rows

A table is the list of its rows in the order the database returns them when a
query names no order. `updateWhere`, `deleteWhere` and `save` are the write
statements of an object mapper; `List.find?` and `List.filter` are its reads.

Main results:

- membership after each write (`mem_updateWhere`, `mem_deleteWhere`);
- `findKey_unique`: in a table with distinct keys a key finds its only row;
- `updateWhere_congr` and the frame lemmas: rows outside the condition stay.
-/

namespace Rows

variable {α β κ : Type}

/-- `UPDATE … SET f WHERE p`. -/
def updateWhere (p : α → Bool) (f : α → α) (rows : List α) : List α :=
  rows.map fun r => if p r then f r else r

/-- `DELETE … WHERE p`. -/
def deleteWhere (p : α → Bool) (rows : List α) : List α :=
  rows.filter fun r => !p r

/-- `repository.save(r)`: the row of the same key is replaced, a new key is appended. -/
def save [DecidableEq κ] (key : α → κ) (r : α) (rows : List α) : List α :=
  if rows.any (fun x => key x == key r) then updateWhere (fun x => key x == key r) (fun _ => r) rows
  else rows ++ [r]

/-- The row with key `k`. -/
def findKey [DecidableEq κ] (key : α → κ) (k : κ) (rows : List α) : Option α :=
  rows.find? fun r => key r == k

/-- `MAX(f)`, `none` over no row. -/
def maxOf (f : α → ℕ) : List α → Option ℕ
  | [] => none
  | r :: rows => some (match maxOf f rows with
    | none => f r
    | some m => max (f r) m)

/-! ### Updates -/

@[simp] theorem updateWhere_nil (p : α → Bool) (f : α → α) : updateWhere p f [] = [] := rfl

@[simp] theorem length_updateWhere (p : α → Bool) (f : α → α) (rows : List α) :
    (updateWhere p f rows).length = rows.length := by
  simp [updateWhere]

theorem updateWhere_append (p : α → Bool) (f : α → α) (xs ys : List α) :
    updateWhere p f (xs ++ ys) = updateWhere p f xs ++ updateWhere p f ys := by
  simp [updateWhere]

theorem mem_updateWhere {p : α → Bool} {f : α → α} {rows : List α} {r : α} :
    r ∈ updateWhere p f rows ↔ (∃ x ∈ rows, p x = true ∧ f x = r) ∨ (r ∈ rows ∧ p r = false) := by
  unfold updateWhere
  rw [List.mem_map]
  constructor
  · rintro ⟨x, hx, rfl⟩
    by_cases h : p x = true
    · exact .inl ⟨x, hx, h, by simp [h]⟩
    · exact .inr (by simpa [h] using hx)
  · rintro (⟨x, hx, h, rfl⟩ | ⟨hr, h⟩)
    · exact ⟨x, hx, by simp [h]⟩
    · exact ⟨r, hr, by simp [h]⟩

theorem forall_updateWhere {P : α → Prop} {p : α → Bool} {f : α → α} {rows : List α}
    (h : ∀ r ∈ rows, P r) (hf : ∀ r ∈ rows, p r = true → P r → P (f r)) :
    ∀ r ∈ updateWhere p f rows, P r := by
  intro r hr
  rcases mem_updateWhere.mp hr with ⟨x, hx, hp, rfl⟩ | ⟨hr, -⟩
  · exact hf x hx hp (h x hx)
  · exact h r hr

/-- An update of no row leaves the table as it is. -/
theorem updateWhere_eq_self {p : α → Bool} {f : α → α} {rows : List α}
    (h : ∀ r ∈ rows, p r = true → f r = r) : updateWhere p f rows = rows := by
  unfold updateWhere
  conv_rhs => rw [← List.map_id rows]
  refine List.map_congr_left fun r hr => ?_
  by_cases hp : p r = true
  · simp [hp, h r hr hp]
  · simp [hp]

/-- An update depends on its condition for the rows of the table only. -/
theorem updateWhere_congr {p q : α → Bool} {f : α → α} {rows : List α}
    (h : ∀ r ∈ rows, p r = q r) : updateWhere p f rows = updateWhere q f rows := by
  unfold updateWhere
  apply List.map_congr_left
  intro r hr
  rw [h r hr]

/-- The same update on two conditions, which it leaves as they are. -/
theorem updateWhere_updateWhere {p q : α → Bool} {f : α → α} (rows : List α)
    (hf : ∀ r, f (f r) = f r) (hq : ∀ r, q (f r) = q r) :
    updateWhere q f (updateWhere p f rows) = updateWhere (fun r => p r || q r) f rows := by
  unfold updateWhere
  rw [List.map_map]
  apply List.map_congr_left
  intro r _
  by_cases hp : p r = true
  · by_cases hqr : q r = true
    · simp [hp, hq, hqr, hf]
    · simp [hp, hq, hqr]
  · simp [hp]

/-- What an update leaves alone in every row it leaves alone in the table. -/
theorem map_updateWhere {p : α → Bool} {f : α → α} {g : α → β} (rows : List α)
    (h : ∀ r ∈ rows, p r = true → g (f r) = g r) : (updateWhere p f rows).map g = rows.map g := by
  unfold updateWhere
  rw [List.map_map]
  refine List.map_congr_left fun r hr => ?_
  by_cases hp : p r = true
  · simp [hp, h r hr hp]
  · simp [hp]

/-- A query that the updated rows neither enter nor leave, and whose rows the
update does not touch, has the same answer. -/
theorem filter_updateWhere {p q : α → Bool} {f : α → α} {rows : List α}
    (h : ∀ r ∈ rows, p r = true → q r = false ∧ q (f r) = false) :
    (updateWhere p f rows).filter q = rows.filter q := by
  induction rows with
  | nil => rfl
  | cons r rs ih =>
      have ih' := ih fun x hx => h x (List.mem_cons_of_mem r hx)
      simp only [updateWhere, List.map_cons] at ih' ⊢
      by_cases hp : p r = true
      · obtain ⟨h₁, h₂⟩ := h r (by simp) hp
        simp [hp, h₁, h₂, ih']
      · simp [hp, List.filter_cons, ih']

/-- An update that neither adds to a selection nor takes from it commutes with it. -/
theorem filter_updateWhere_comm {p q : α → Bool} {f : α → α} {rows : List α}
    (h : ∀ r ∈ rows, p r = true → q (f r) = q r) :
    (updateWhere p f rows).filter q = updateWhere p f (rows.filter q) := by
  induction rows with
  | nil => rfl
  | cons r rs ih =>
      have ih' := ih fun x hx => h x (List.mem_cons_of_mem r hx)
      simp only [updateWhere, List.map_cons] at ih' ⊢
      by_cases hp : p r = true
      · have hr := h r (by simp) hp
        by_cases hq : q r = true
        · simp [hp, hr, hq, ih']
        · simp [hp, hr, hq, ih']
      · by_cases hq : q r = true
        · simp [hp, hq, ih']
        · simp [hp, hq, ih']

/-- An update leaves the table as it is only if it leaves each row it hits. -/
theorem eq_of_updateWhere_eq {p : α → Bool} {f : α → α} {rows : List α}
    (h : updateWhere p f rows = rows) {r : α} (hr : r ∈ rows) (hp : p r = true) : f r = r := by
  unfold updateWhere at h
  have hid : rows.map (fun x => if p x then f x else x) = rows.map id := by
    rw [h, List.map_id]
  simpa [hp] using List.map_inj_left.mp hid r hr

/-! ### Deletes -/

theorem mem_deleteWhere {p : α → Bool} {rows : List α} {r : α} :
    r ∈ deleteWhere p rows ↔ r ∈ rows ∧ p r = false := by
  simp [deleteWhere]

theorem deleteWhere_idem (p : α → Bool) (rows : List α) :
    deleteWhere p (deleteWhere p rows) = deleteWhere p rows := by
  simp [deleteWhere, List.filter_filter]

theorem deleteWhere_sublist (p : α → Bool) (rows : List α) :
    (deleteWhere p rows).Sublist rows :=
  List.filter_sublist

theorem filter_deleteWhere {p q : α → Bool} {rows : List α}
    (h : ∀ r ∈ rows, p r = true → q r = false) :
    (deleteWhere p rows).filter q = rows.filter q := by
  induction rows with
  | nil => rfl
  | cons r rs ih =>
      have ih' := ih fun x hx => h x (List.mem_cons_of_mem r hx)
      simp only [deleteWhere] at ih' ⊢
      by_cases hp : p r = true
      · simp [hp, h r (by simp) hp, ih']
      · simp [hp, List.filter_cons, ih']

theorem find?_deleteWhere {p q : α → Bool} {rows : List α}
    (h : ∀ r ∈ rows, p r = true → q r = false) :
    (deleteWhere p rows).find? q = rows.find? q := by
  rw [← List.head?_filter, ← List.head?_filter, filter_deleteWhere h]

/-! ### Saves -/

theorem save_new [DecidableEq κ] {key : α → κ} {r : α} {rows : List α}
    (h : ∀ x ∈ rows, key x ≠ key r) : save key r rows = rows ++ [r] := by
  have hn : rows.any (fun x => key x == key r) = false := by
    simpa using h
  simp [save, hn]

theorem save_existing [DecidableEq κ] {key : α → κ} {r x : α} {rows : List α}
    (hx : x ∈ rows) (hk : key x = key r) :
    save key r rows = updateWhere (fun x => key x == key r) (fun _ => r) rows := by
  have hy : rows.any (fun x => key x == key r) = true := by
    simp only [List.any_eq_true, beq_iff_eq]
    exact ⟨x, hx, hk⟩
  simp [save, hy]

theorem mem_save [DecidableEq κ] {key : α → κ} {r x : α} {rows : List α} :
    x ∈ save key r rows ↔ x = r ∨ (x ∈ rows ∧ key x ≠ key r) := by
  by_cases h : rows.any (fun x => key x == key r) = true
  · obtain ⟨y, hy, hk⟩ := List.any_eq_true.mp h
    have hk' : key y = key r := by simpa using hk
    rw [save_existing hy hk', mem_updateWhere]
    constructor
    · rintro (⟨z, _, _, rfl⟩ | ⟨hx, hne⟩)
      · exact .inl rfl
      · exact .inr ⟨hx, by simpa using hne⟩
    · rintro (rfl | ⟨hx, hne⟩)
      · exact .inl ⟨y, hy, hk, rfl⟩
      · exact .inr ⟨hx, by simpa using hne⟩
  · have hn : ∀ y ∈ rows, key y ≠ key r := by simpa using h
    rw [save_new hn, List.mem_append, List.mem_singleton]
    constructor
    · rintro (hx | rfl)
      · exact .inr ⟨hx, hn x hx⟩
      · exact .inl rfl
    · rintro (rfl | ⟨hx, _⟩)
      · exact .inr rfl
      · exact .inl hx

/-- A query that finds neither the saved row nor the one it replaces. -/
theorem filter_save [DecidableEq κ] {key : α → κ} {q : α → Bool} {r : α} {rows : List α}
    (hr : q r = false) (h : ∀ x ∈ rows, key x = key r → q x = false) :
    (save key r rows).filter q = rows.filter q := by
  by_cases hany : rows.any (fun x => key x == key r) = true
  · obtain ⟨y, hy, hk⟩ := List.any_eq_true.mp hany
    rw [save_existing hy (by simpa using hk)]
    apply filter_updateWhere
    intro x hx hxr
    exact ⟨h x hx (by simpa using hxr), hr⟩
  · have hn : ∀ y ∈ rows, key y ≠ key r := by simpa using hany
    rw [save_new hn, List.filter_append]
    simp [hr]

/-! ### Rows before and after, one by one -/

theorem forall₂_updateWhere {R : α → α → Prop} {p : α → Bool} {f : α → α} (rows : List α)
    (hf : ∀ r ∈ rows, p r = true → R r (f r)) (hrefl : ∀ r, R r r) :
    List.Forall₂ R rows (updateWhere p f rows) := by
  unfold updateWhere
  rw [List.forall₂_map_right_iff, List.forall₂_same]
  intro r hr
  by_cases hp : p r = true
  · rw [if_pos hp]
    exact hf r hr hp
  · rw [if_neg hp]
    exact hrefl r

theorem exists_left_of_forall₂ {R : α → β → Prop} {rows : List α} {rows' : List β}
    (h : List.Forall₂ R rows rows') {b : β} (hb : b ∈ rows') : ∃ a ∈ rows, R a b := by
  induction h with
  | nil => cases hb
  | cons hab _ ih =>
      rcases List.mem_cons.mp hb with rfl | hb
      · exact ⟨_, List.mem_cons_self, hab⟩
      · obtain ⟨a, ha, hr⟩ := ih hb
        exact ⟨a, List.mem_cons_of_mem _ ha, hr⟩

theorem exists_right_of_forall₂ {R : α → β → Prop} {rows : List α} {rows' : List β}
    (h : List.Forall₂ R rows rows') {a : α} (ha : a ∈ rows) : ∃ b ∈ rows', R a b := by
  induction h with
  | nil => cases ha
  | cons hab _ ih =>
      rcases List.mem_cons.mp ha with rfl | ha
      · exact ⟨_, List.mem_cons_self, hab⟩
      · obtain ⟨b, hb, hr⟩ := ih ha
        exact ⟨b, List.mem_cons_of_mem _ hb, hr⟩

theorem map_eq_of_forall₂ {R : α → α → Prop} {key : α → κ} {rows rows' : List α}
    (h : List.Forall₂ R rows rows') (hkey : ∀ a b, R a b → key b = key a) :
    rows'.map key = rows.map key := by
  induction h with
  | nil => rfl
  | cons hab _ ih => rw [List.map_cons, List.map_cons, ih, hkey _ _ hab]

/-! ### Keys -/

/-- No two rows have the same key. -/
def KeysDistinct (key : α → κ) (rows : List α) : Prop := (rows.map key).Nodup

instance [DecidableEq κ] (key : α → κ) (rows : List α) : Decidable (KeysDistinct key rows) :=
  inferInstanceAs (Decidable (List.Nodup _))

theorem findKey_some [DecidableEq κ] {key : α → κ} {k : κ} {rows : List α} {r : α}
    (h : findKey key k rows = some r) : r ∈ rows ∧ key r = k := by
  refine ⟨List.mem_of_find?_eq_some h, ?_⟩
  simpa using List.find?_some h

theorem KeysDistinct.eq_of_mem {key : α → κ} {rows : List α} (h : KeysDistinct key rows) {x y : α}
    (hx : x ∈ rows) (hy : y ∈ rows) (hk : key x = key y) : x = y :=
  List.inj_on_of_nodup_map h hx hy hk

theorem findKey_unique [DecidableEq κ] {key : α → κ} {rows : List α} {r : α}
    (h : KeysDistinct key rows) (hr : r ∈ rows) : findKey key (key r) rows = some r := by
  cases hf : findKey key (key r) rows with
  | none =>
      have hn := List.find?_eq_none.mp hf r hr
      simp at hn
  | some x =>
      obtain ⟨hx, hk⟩ := findKey_some hf
      rw [h.eq_of_mem hx hr hk]

/-- An update that leaves the keys finds the row it made of the one found before. -/
theorem findKey_updateWhere [DecidableEq κ] {key : α → κ} {k : κ} {p : α → Bool} {f : α → α}
    (rows : List α) (hf : ∀ r, key (f r) = key r) :
    findKey key k (updateWhere p f rows) =
      (findKey key k rows).map fun r => if p r then f r else r := by
  unfold findKey updateWhere
  rw [List.find?_map]
  congr 1
  congr 1
  funext r
  show (key (if p r then f r else r) == k) = (key r == k)
  by_cases hp : p r = true
  · rw [if_pos hp, hf]
  · rw [if_neg hp]

theorem KeysDistinct.sublist {key : α → κ} {rows rows' : List α} (h : KeysDistinct key rows)
    (hs : rows'.Sublist rows) : KeysDistinct key rows' :=
  List.Nodup.sublist (hs.map key) h

/-- Of rows with distinct keys, a delete by the key takes one. -/
theorem KeysDistinct.perm_deleteWhere [DecidableEq κ] {key : α → κ} {rows : List α}
    (h : KeysDistinct key rows) {r : α} (hr : r ∈ rows) :
    rows.Perm (r :: deleteWhere (fun x => key x == key r) rows) := by
  induction rows with
  | nil => cases hr
  | cons x rows ih =>
      obtain ⟨hnot, hrest⟩ := List.nodup_cons.mp h
      by_cases hkey : key x = key r
      · have hstay : deleteWhere (fun y => key y == key r) rows = rows := by
          apply List.filter_eq_self.mpr
          intro y hy
          have hne : key y ≠ key r := fun heq => hnot (hkey.trans heq.symm ▸ List.mem_map_of_mem hy)
          simpa using hne
        have hx : x = r := h.eq_of_mem List.mem_cons_self hr hkey
        have hdelete : deleteWhere (fun y => key y == key r) (x :: rows) = rows := by
          show List.filter _ (x :: rows) = rows
          rw [List.filter_cons_of_neg (by simp [hkey])]
          exact hstay
        rw [hdelete, hx]
      · have hmem : r ∈ rows := (List.mem_cons.mp hr).resolve_left fun heq => hkey (by rw [heq])
        have hdelete : deleteWhere (fun y => key y == key r) (x :: rows) =
            x :: deleteWhere (fun y => key y == key r) rows :=
          List.filter_cons_of_pos (by simp [hkey])
        rw [hdelete]
        exact ((ih hrest hmem).cons x).trans (List.Perm.swap r x _)

theorem KeysDistinct.updateWhere {key : α → κ} {rows : List α} {p : α → Bool} {f : α → α}
    (h : KeysDistinct key rows) (hf : ∀ r ∈ rows, p r = true → key (f r) = key r) :
    KeysDistinct key (updateWhere p f rows) := by
  unfold KeysDistinct
  rw [map_updateWhere rows hf]
  exact h

theorem KeysDistinct.append_new {key : α → κ} {rows : List α} {r : α} (h : KeysDistinct key rows)
    (hr : ∀ x ∈ rows, key x ≠ key r) : KeysDistinct key (rows ++ [r]) := by
  unfold KeysDistinct
  rw [List.map_append, List.nodup_append]
  refine ⟨h, by simp, ?_⟩
  intro a ha b hb
  obtain ⟨x, hx, rfl⟩ := List.mem_map.mp ha
  have hb' : b = key r := by simpa using hb
  rw [hb']
  exact hr x hx

theorem KeysDistinct.save [DecidableEq κ] {key : α → κ} {rows : List α}
    (h : KeysDistinct key rows) (r : α) : KeysDistinct key (Rows.save key r rows) := by
  by_cases hany : rows.any (fun x => key x == key r) = true
  · obtain ⟨y, hy, hk⟩ := List.any_eq_true.mp hany
    rw [save_existing hy (by simpa using hk)]
    exact h.updateWhere fun x _ hx => (by simpa using hx : key x = key r).symm
  · have hn : ∀ y ∈ rows, key y ≠ key r := by simpa using hany
    rw [save_new hn]
    exact h.append_new hn

/-- A row is saved as it is. -/
theorem KeysDistinct.save_self [DecidableEq κ] {key : α → κ} {rows : List α}
    (h : KeysDistinct key rows) {r : α} (hr : r ∈ rows) : Rows.save key r rows = rows := by
  rw [save_existing hr rfl, updateWhere_eq_self]
  intro x hx hp
  exact (h.eq_of_mem hx hr (by simpa using hp)).symm

/-- A saved row is found where the row of its key was found. -/
theorem KeysDistinct.find?_save [DecidableEq κ] {key : α → κ} {rows : List α}
    (h : KeysDistinct key rows) {p : α → Bool} {r x : α} (hfound : rows.find? p = some x)
    (hkey : key x = key r) (hr : p r = true) : (Rows.save key r rows).find? p = some r := by
  have hx := List.mem_of_find?_eq_some hfound
  have hsame : ∀ y ∈ rows, (p ∘ fun y => if key y == key r then r else y) y = p y := by
    intro y hy
    by_cases hyr : key y = key r
    · obtain rfl : y = x := h.eq_of_mem hy hx (hyr.trans hkey.symm)
      simp [hyr, hr, List.find?_some hfound]
    · simp [hyr]
  rw [save_existing hx hkey]
  unfold Rows.updateWhere
  rw [List.find?_map]
  show (rows.find? (p ∘ fun y => if key y == key r then r else y)).map
    (fun y => if key y == key r then r else y) = some r
  rw [List.find?_congr hsame, hfound, Option.map_some, if_pos (beq_iff_eq.mpr hkey)]

/-- The last row is saved. -/
theorem save_concat [DecidableEq κ] {key : α → κ} {rows : List α} {r x : α} (hkey : key x = key r)
    (hnew : ∀ y ∈ rows, key y ≠ key r) : save key r (rows ++ [x]) = rows ++ [r] := by
  have hx : x ∈ rows ++ [x] := List.mem_append_right _ (List.mem_singleton_self x)
  rw [save_existing hx hkey, updateWhere_append, updateWhere_eq_self]
  · unfold updateWhere
    simp [hkey]
  · intro y hy hp
    exact absurd (by simpa using hp) (hnew y hy)

/-! ### Maxima -/

theorem le_maxOf {f : α → ℕ} {rows : List α} {r : α} (hr : r ∈ rows) :
    ∃ m, maxOf f rows = some m ∧ f r ≤ m := by
  induction rows with
  | nil => cases hr
  | cons x xs ih =>
      rcases List.mem_cons.mp hr with rfl | h
      · cases hm : maxOf f xs with
        | none => exact ⟨f r, by simp [maxOf, hm], by omega⟩
        | some m => exact ⟨max (f r) m, by simp [maxOf, hm], by omega⟩
      · obtain ⟨m, hm, hle⟩ := ih h
        exact ⟨max (f x) m, by simp [maxOf, hm], by omega⟩

/-! ### Ordered reads -/

section Order

variable {r : α → α → Prop} [DecidableRel r] [IsTrans α r]

/-- Into ordered rows, an insert and a selection commute. -/
theorem filter_orderedInsert (p : α → Bool) (a : α) {rows : List α} (hrows : rows.Pairwise r) :
    (rows.orderedInsert r a).filter p =
      if p a then (rows.filter p).orderedInsert r a else rows.filter p := by
  induction rows with
  | nil => by_cases ha : p a = true <;> simp [ha]
  | cons b rows ih =>
      have hb := List.pairwise_cons.mp hrows
      rw [List.orderedInsert_cons]
      by_cases hab : r a b
      · -- `a` comes first, and before everything that is selected
        have hfirst : ((b :: rows).filter p).orderedInsert r a = a :: (b :: rows).filter p := by
          have hall : ∀ c ∈ (b :: rows).filter p, r a c := by
            intro c hc
            rcases List.mem_cons.mp (List.mem_filter.mp hc).1 with rfl | hc
            · exact hab
            · exact IsTrans.trans a b c hab (hb.1 c hc)
          cases hsel : (b :: rows).filter p with
          | nil => rfl
          | cons c cs => rw [List.orderedInsert_cons, if_pos (hall c (by rw [hsel]; simp))]
        rw [if_pos hab, hfirst]
        by_cases ha : p a = true
        · rw [if_pos ha, List.filter_cons_of_pos ha]
        · rw [if_neg ha, List.filter_cons_of_neg ha]
      · rw [if_neg hab]
        by_cases hpb : p b = true
        · rw [List.filter_cons_of_pos hpb, List.filter_cons_of_pos hpb, ih hb.2]
          by_cases ha : p a = true
          · rw [if_pos ha, if_pos ha, List.orderedInsert_cons, if_neg hab]
          · rw [if_neg ha, if_neg ha]
        · rw [List.filter_cons_of_neg hpb, List.filter_cons_of_neg hpb, ih hb.2]

/-- Ordering a table and selecting rows of it commute. -/
theorem filter_insertionSort [Std.Total r] (p : α → Bool) (rows : List α) :
    (rows.insertionSort r).filter p = (rows.filter p).insertionSort r := by
  induction rows with
  | nil => rfl
  | cons a rows ih =>
      rw [List.insertionSort_cons, filter_orderedInsert p a (List.pairwise_insertionSort r rows), ih]
      by_cases ha : p a = true
      · rw [if_pos ha, List.filter_cons_of_pos ha, List.insertionSort_cons]
      · rw [if_neg ha, List.filter_cons_of_neg ha]

end Order

section Ties

variable {r t : α → α → Prop} [DecidableRel r]

/-- An insert into ordered rows, before the rows of its rank. -/
theorem pairwise_orderedInsert {a : α} {rows : List α} (htotal : ∀ x ∈ rows, r a x ∨ r x a)
    (htrans : ∀ x ∈ rows, ∀ y ∈ rows, r a x → r x y → r a y) (hfirst : ∀ x ∈ rows, t a x)
    (hrows : rows.Pairwise fun x y => r x y ∧ (r y x → t x y)) :
    (rows.orderedInsert r a).Pairwise fun x y => r x y ∧ (r y x → t x y) := by
  induction rows with
  | nil => exact List.pairwise_singleton _ _
  | cons b rows ih =>
      have hb := List.pairwise_cons.mp hrows
      have hmem : ∀ {x}, x ∈ rows → x ∈ b :: rows := List.mem_cons_of_mem b
      rw [List.orderedInsert_cons]
      by_cases hab : r a b
      · rw [if_pos hab, List.pairwise_cons]
        refine ⟨fun x hx => ⟨?_, fun _ => hfirst x hx⟩, hrows⟩
        rcases List.mem_cons.mp hx with rfl | hx
        · exact hab
        · exact htrans b List.mem_cons_self x (hmem hx) hab (hb.1 x hx).1
      · rw [if_neg hab, List.pairwise_cons]
        constructor
        · intro x hx
          rcases List.mem_cons.mp ((List.perm_orderedInsert r a rows).mem_iff.mp hx) with rfl | hx
          · exact ⟨(htotal b List.mem_cons_self).resolve_left hab, fun h => absurd h hab⟩
          · exact hb.1 x hx
        · exact ih (fun x hx => htotal x (hmem hx)) (fun x hx y hy => htrans x (hmem hx) y (hmem hy))
            (fun x hx => hfirst x (hmem hx)) hb.2

/-- An order that compares the rows and is transitive on them: rows of one rank stay as they
stood to each other. -/
theorem pairwise_insertionSort {rows : List α} (htotal : ∀ x ∈ rows, ∀ y ∈ rows, r x y ∨ r y x)
    (htrans : ∀ x ∈ rows, ∀ y ∈ rows, ∀ z ∈ rows, r x y → r y z → r x z)
    (hrows : rows.Pairwise t) :
    (rows.insertionSort r).Pairwise fun x y => r x y ∧ (r y x → t x y) := by
  induction rows with
  | nil => exact List.Pairwise.nil
  | cons a rows ih =>
      have ha := List.pairwise_cons.mp hrows
      have hmem : ∀ {x}, x ∈ rows → x ∈ a :: rows := List.mem_cons_of_mem a
      have hsorted : ∀ {x}, x ∈ rows.insertionSort r → x ∈ rows := (List.mem_insertionSort r).mp
      rw [List.insertionSort_cons]
      apply pairwise_orderedInsert
      · exact fun x hx => htotal a List.mem_cons_self x (hmem (hsorted hx))
      · exact fun x hx y hy =>
          htrans a List.mem_cons_self x (hmem (hsorted hx)) y (hmem (hsorted hy))
      · exact fun x hx => ha.1 x (hsorted hx)
      · exact ih (fun x hx y hy => htotal x (hmem hx) y (hmem hy))
          (fun x hx y hy z hz => htrans x (hmem hx) y (hmem hy) z (hmem hz)) ha.2

end Ties

/-- Rows that yield nothing may be left out of a read. -/
theorem filterMap_filter_of_none {f : α → Option β} {p : α → Bool} {rows : List α}
    (h : ∀ x ∈ rows, p x = false → f x = none) : (rows.filter p).filterMap f = rows.filterMap f := by
  induction rows with
  | nil => rfl
  | cons x rows ih =>
      have ih' := ih fun y hy => h y (List.mem_cons_of_mem x hy)
      by_cases hx : p x = true
      · rw [List.filter_cons_of_pos hx, List.filterMap_cons, List.filterMap_cons, ih']
      · rw [List.filter_cons_of_neg hx, List.filterMap_cons, h x (by simp) (by simpa using hx), ih']

/-- The deleted rows add nothing to the sum over the values that are read. -/
theorem sum_filterMap_deleteWhere {γ : Type} [AddMonoid γ] {f : α → Option β} {w : β → γ}
    {p : α → Bool} {rows : List α} (h : ∀ x ∈ rows, p x = true → ∀ y ∈ f x, w y = 0) :
    (((deleteWhere p rows).filterMap f).map w).sum = ((rows.filterMap f).map w).sum := by
  induction rows with
  | nil => rfl
  | cons x rows ih =>
      have ih' := ih fun y hy => h y (List.mem_cons_of_mem x hy)
      unfold deleteWhere at ih' ⊢
      by_cases hx : p x = true
      · rw [List.filter_cons_of_neg (by simpa using hx), ih']
        cases hfx : f x with
        | none => rw [List.filterMap_cons_none hfx]
        | some y =>
            rw [List.filterMap_cons_some hfx, List.map_cons, List.sum_cons,
              h x List.mem_cons_self hx y hfx, zero_add]
      · rw [List.filter_cons_of_pos (by simpa using hx)]
        cases hfx : f x with
        | none => rw [List.filterMap_cons_none hfx, List.filterMap_cons_none hfx, ih']
        | some y =>
            rw [List.filterMap_cons_some hfx, List.filterMap_cons_some hfx, List.map_cons,
              List.map_cons, List.sum_cons, List.sum_cons, ih']

/-- A read that yields at most one answer for a row selects rows. -/
theorem flatMap_filterMap_eq {γ : Type} {f : α → Option β} {g : β → List γ} {p : α → Bool}
    {k : α → γ} {rows : List α}
    (h : ∀ x ∈ rows, (f x).elim [] g = if p x = true then [k x] else []) :
    (rows.filterMap f).flatMap g = (rows.filter p).map k := by
  induction rows with
  | nil => rfl
  | cons x rows ih =>
      have ih' := ih fun y hy => h y (List.mem_cons_of_mem x hy)
      have hx := h x List.mem_cons_self
      by_cases hp : p x = true
      · rw [if_pos hp] at hx
        rw [List.filter_cons_of_pos hp, List.map_cons, ← ih', List.filterMap_cons]
        cases hf : f x with
        | none => simp [hf] at hx
        | some y =>
            have hy : g y = [k x] := by rwa [hf] at hx
            rw [List.flatMap_cons, hy]
            rfl
      · rw [if_neg hp] at hx
        rw [List.filter_cons_of_neg hp, ← ih', List.filterMap_cons]
        cases hf : f x with
        | none => rfl
        | some y =>
            have hy : g y = [] := by rwa [hf] at hx
            rw [List.flatMap_cons, hy]
            rfl

/-- One row meets a condition that no two rows meet. -/
theorem filter_eq_singleton {p : α → Bool} {rows : List α} (h : rows.Nodup) {r : α} (hr : r ∈ rows)
    (hp : p r = true) (honly : ∀ x ∈ rows, p x = true → x = r) : rows.filter p = [r] := by
  apply List.perm_singleton.mp
  refine (List.perm_ext_iff_of_nodup (h.filter p) (by simp)).mpr fun x => ?_
  rw [List.mem_filter, List.mem_singleton]
  constructor
  · exact fun hx => honly x hx.1 hx.2
  · rintro rfl
    exact ⟨hr, hp⟩

/-! ### First rows -/

/-- A wider query finds the same first row where nothing before that row meets it. -/
theorem find?_eq_find?_iff {p q : α → Bool} {rows : List α}
    (h : ∀ x ∈ rows, q x = true → p x = true) :
    rows.find? p = rows.find? q ↔ ∀ x ∈ rows.takeWhile (fun x => !q x), p x = false := by
  induction rows with
  | nil => simp
  | cons x rows ih =>
      have ih' := ih fun y hy => h y (List.mem_cons_of_mem x hy)
      by_cases hq : q x = true
      · rw [List.find?_cons_of_pos (h x List.mem_cons_self hq), List.find?_cons_of_pos hq]
        simp [hq]
      · rw [List.find?_cons_of_neg hq]
        by_cases hp : p x = true
        · -- the wider query stops at a row that the other passes over
          rw [List.find?_cons_of_pos hp]
          simp only [List.takeWhile_cons, hq, Bool.not_false, if_true, List.mem_cons,
            forall_eq_or_imp, hp, Bool.true_eq_false, false_and, iff_false]
          intro heq
          exact hq (List.find?_some heq.symm)
        · rw [List.find?_cons_of_neg hp, ih']
          simp [hq, hp]

/-- An update of the rows that meet a condition leaves what comes before the first of them. -/
theorem takeWhile_updateWhere {p : α → Bool} {f : α → α} {rows : List α}
    (h : ∀ x ∈ rows, p x = true → p (f x) = true) :
    (updateWhere p f rows).takeWhile (fun x => !p x) = rows.takeWhile fun x => !p x := by
  induction rows with
  | nil => rfl
  | cons x rows ih =>
      have ih' := ih fun y hy => h y (List.mem_cons_of_mem x hy)
      simp only [updateWhere, List.map_cons] at ih' ⊢
      by_cases hp : p x = true
      · simp [hp, h x List.mem_cons_self hp]
      · simp [hp, ih']

/-! ### Batches -/

theorem flatten_toChunks_go (n : ℕ) (rows : List α) (acc : Array α) (chunks : Array (List α)) :
    (List.toChunks.go n rows acc chunks).flatten = chunks.toList.flatten ++ acc.toList ++ rows := by
  induction rows generalizing acc chunks with
  | nil => simp [List.toChunks.go]
  | cons x xs ih =>
      rw [List.toChunks.go]
      split
      · rw [ih]
        simp
      · rw [ih]
        simp

/-- The batches of a read are the rows of it, in order. -/
theorem flatten_toChunks (n : ℕ) (rows : List α) : (rows.toChunks n).flatten = rows := by
  unfold List.toChunks
  split
  · rfl
  · simp
  · rw [flatten_toChunks_go]
    simp

/-- A batch holds rows of the table. -/
theorem mem_of_mem_toChunks {n : ℕ} {rows batch : List α} (hbatch : batch ∈ rows.toChunks n) {x : α}
    (hx : x ∈ batch) : x ∈ rows := by
  rw [← flatten_toChunks n rows]
  exact List.mem_flatten.mpr ⟨batch, hbatch, hx⟩

end Rows
