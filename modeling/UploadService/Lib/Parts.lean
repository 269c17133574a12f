import Mathlib.Data.List.Pairwise

/-!
# Values made of parts

A value has parts under keys, and a part can be replaced by another value. A path of keys leads to
a part of a part, which can be read and written. Two paths are apart where neither leads through
the other.

An edit goes over some paths and, at each one, leaves the part that is there or puts another one in
its place. Where the paths are apart, the edits at each of them do not see one another.

Main results:

- `read_write`, `read_write_apart`, `write_write`, `write_comm`: reading and writing along paths;
- `edit_edit`: two passes of edits are one pass, each part being edited twice;
- `edit_eq_self`: edits that put every part back leave the value as it is.
-/

/-- How values are made of parts. -/
structure Parts (V K : Type) where
  part : V → K → Option V
  replace : V → K → V → V
  part_replace : ∀ {v c : V} {k : K} (x : V), part v k = some c → part (replace v k x) k = some x
  part_replace_ne : ∀ {v c : V} {k l : K} (x : V), part v k = some c → l ≠ k →
    part (replace v k x) l = part v l
  replace_replace : ∀ {v c : V} {k : K} (x y : V), part v k = some c →
    replace (replace v k x) k y = replace v k y
  replace_comm : ∀ {v c d : V} {k l : K} (x y : V), part v k = some c → part v l = some d → l ≠ k →
    replace (replace v k x) l y = replace (replace v l y) k x

namespace Parts

variable {V K : Type}

/-! ### Paths -/

/-- Neither path leads through the other. -/
def Apart (p q : List K) : Prop := ¬ p <+: q ∧ ¬ q <+: p

instance [DecidableEq K] (p q : List K) : Decidable (Apart p q) :=
  inferInstanceAs (Decidable (¬ p <+: q ∧ ¬ q <+: p))

theorem Apart.symm {p q : List K} (h : Apart p q) : Apart q p := ⟨h.2, h.1⟩

theorem Apart.tail {k : K} {p q : List K} (h : Apart (k :: p) (k :: q)) : Apart p q :=
  ⟨fun hpq => h.1 ((List.prefix_cons_inj k).mpr hpq), fun hqp => h.2 ((List.prefix_cons_inj k).mpr hqp)⟩

theorem not_apart_nil_left (q : List K) : ¬ Apart [] q := fun h => h.1 List.nil_prefix

theorem not_apart_nil_right (p : List K) : ¬ Apart p [] := fun h => h.2 List.nil_prefix

variable (P : Parts V K)

/-- What the path leads to. -/
def read : V → List K → Option V
  | v, [] => some v
  | v, k :: ks => (P.part v k).bind fun c => read c ks

/-- The value with another part at the end of the path. -/
def write : V → List K → V → V
  | _, [], x => x
  | v, k :: ks, x =>
      match P.part v k with
      | some c => P.replace v k (write c ks x)
      | none => v

variable {P}

theorem read_cons {v c : V} {k : K} (h : P.part v k = some c) (ks : List K) :
    P.read v (k :: ks) = P.read c ks := by
  rw [read, h]
  rfl

theorem write_cons {v c : V} {k : K} (h : P.part v k = some c) (ks : List K) (x : V) :
    P.write v (k :: ks) x = P.replace v k (P.write c ks x) := by
  rw [write, h]

/-- A path that leads somewhere leads through a part. -/
theorem part_of_read {v d : V} {k : K} {ks : List K} (h : P.read v (k :: ks) = some d) :
    ∃ c, P.part v k = some c ∧ P.read c ks = some d := by
  rw [read] at h
  exact Option.bind_eq_some_iff.mp h

theorem read_write {p : List K} (x : V) : ∀ {v c : V}, P.read v p = some c →
    P.read (P.write v p x) p = some x := by
  induction p with
  | nil =>
      intro v c _
      rfl
  | cons k ks ih =>
      intro v c hp
      obtain ⟨d, hd, hks⟩ := part_of_read hp
      rw [write_cons hd, read_cons (P.part_replace _ hd)]
      exact ih hks

theorem read_write_apart {p : List K} (x : V) : ∀ {v c : V} {q : List K}, P.read v p = some c →
    Apart p q → P.read (P.write v p x) q = P.read v q := by
  induction p with
  | nil =>
      intro v c q _ h
      exact absurd h (not_apart_nil_left q)
  | cons k ks ih =>
      intro v c q hp h
      obtain ⟨d, hd, hks⟩ := part_of_read hp
      rw [write_cons hd]
      cases q with
      | nil => exact absurd h (not_apart_nil_right _)
      | cons l ls =>
          by_cases hl : l = k
          · subst hl
            rw [read_cons (P.part_replace _ hd), read_cons hd]
            exact ih hks h.tail
          · rw [read, read, P.part_replace_ne _ hd hl]

theorem write_write {p : List K} (x y : V) : ∀ {v c : V}, P.read v p = some c →
    P.write (P.write v p x) p y = P.write v p y := by
  induction p with
  | nil =>
      intro v c _
      rfl
  | cons k ks ih =>
      intro v c hp
      obtain ⟨d, hd, hks⟩ := part_of_read hp
      rw [write_cons hd, write_cons hd, write_cons (P.part_replace _ hd), P.replace_replace _ _ hd,
        ih hks]

theorem write_comm {p : List K} (x y : V) : ∀ {v c d : V} {q : List K}, P.read v p = some c →
    P.read v q = some d → Apart p q →
    P.write (P.write v p x) q y = P.write (P.write v q y) p x := by
  induction p with
  | nil =>
      intro v c d q _ _ h
      exact absurd h (not_apart_nil_left q)
  | cons k ks ih =>
      intro v c d q hp hq h
      cases q with
      | nil => exact absurd h (not_apart_nil_right _)
      | cons l ls =>
          obtain ⟨e, he, hks⟩ := part_of_read hp
          obtain ⟨f, hf, hls⟩ := part_of_read hq
          rw [write_cons he, write_cons hf]
          by_cases hl : l = k
          · subst hl
            obtain rfl : e = f := Option.some.inj (he.symm.trans hf)
            rw [write_cons (P.part_replace _ he), write_cons (P.part_replace _ he),
              P.replace_replace _ _ he, P.replace_replace _ _ he, ih hks hls h.tail]
          · have hfl := (P.part_replace_ne (P.write e ks x) he hl).trans hf
            have hek := (P.part_replace_ne (P.write f ls y) hf (Ne.symm hl)).trans he
            rw [write_cons hfl, write_cons hek, P.replace_comm _ _ he hf hl]

/-- Values into which a part can be put back: `T` holds of the parts of a value too. -/
structure Restoring (P : Parts V K) (T : V → Prop) : Prop where
  part : ∀ {v c : V} {k : K}, T v → P.part v k = some c → T c
  replace_part : ∀ {v c : V} {k : K}, T v → P.part v k = some c → P.replace v k c = v

theorem write_read {T : V → Prop} (hT : P.Restoring T) {p : List K} : ∀ {v c : V}, T v →
    P.read v p = some c → P.write v p c = v := by
  induction p with
  | nil =>
      intro v c _ hp
      exact (Option.some.inj hp).symm
  | cons k ks ih =>
      intro v c hv hp
      obtain ⟨d, hd, hks⟩ := part_of_read hp
      rw [write_cons hd, ih (hT.part hv hd) hks, hT.replace_part hv hd]

/-- A property of values that their parts have, and that stays with a part that has it. -/
structure Hereditary (P : Parts V K) (T : V → Prop) : Prop where
  part : ∀ {v c : V} {k : K}, T v → P.part v k = some c → T c
  replace : ∀ {v c x : V} {k : K}, T v → P.part v k = some c → T x → T (P.replace v k x)

theorem Hereditary.write {T : V → Prop} (hT : P.Hereditary T) {x : V} (hx : T x) {p : List K} :
    ∀ {v : V}, T v → T (P.write v p x) := by
  induction p with
  | nil => exact fun _ => hx
  | cons k ks ih =>
      intro v hv
      cases hc : P.part v k with
      | none =>
          rw [Parts.write, hc]
          exact hv
      | some c =>
          rw [write_cons hc]
          exact hT.replace hv hc (ih (hT.part hv hc))

/-! ### Edits -/

section Edits

variable {ι : Type} (P) (path : ι → List K)

/-- An edit at one path: `f` leaves the part, or says what takes its place. -/
def editAt (f : ι → V → Option V) (v : V) (i : ι) : V :=
  match (P.read v (path i)).bind (f i) with
  | some x => P.write v (path i) x
  | none => v

def edit (f : ι → V → Option V) (v : V) (keys : List ι) : V := keys.foldl (P.editAt path f) v

/-- An edit, and another one of what it leaves. -/
def andThen (f g : ι → V → Option V) : ι → V → Option V := fun i c =>
  match f i c with
  | some x => some ((g i x).getD x)
  | none => g i c

variable {P path} {f g : ι → V → Option V} {v : V} {i j : ι} {keys : List ι}

theorem edit_cons : P.edit path f v (i :: keys) = P.edit path f (P.editAt path f v i) keys := rfl

theorem editAt_some {c x : V} (hc : P.read v (path i) = some c) (hx : f i c = some x) :
    P.editAt path f v i = P.write v (path i) x := by
  unfold editAt
  rw [hc, Option.bind_some, hx]

theorem editAt_left {c : V} (hc : P.read v (path i) = some c) (hx : f i c = none) :
    P.editAt path f v i = v := by
  unfold editAt
  rw [hc, Option.bind_some, hx]

theorem editAt_none (hc : P.read v (path i) = none) : P.editAt path f v i = v := by
  unfold editAt
  rw [hc]
  rfl

theorem read_editAt : P.read (P.editAt path f v i) (path i) =
    (P.read v (path i)).map fun c => (f i c).getD c := by
  cases hc : P.read v (path i) with
  | none => rw [editAt_none hc, hc, Option.map_none]
  | some c =>
      rw [Option.map_some]
      cases hx : f i c with
      | none => rw [editAt_left hc hx, hc, Option.getD_none]
      | some x => rw [editAt_some hc hx, read_write x hc, Option.getD_some]

theorem read_editAt_apart {q : List K} (h : Apart (path i) q) :
    P.read (P.editAt path f v i) q = P.read v q := by
  cases hc : P.read v (path i) with
  | none => rw [editAt_none hc]
  | some c =>
      cases hx : f i c with
      | none => rw [editAt_left hc hx]
      | some x => rw [editAt_some hc hx, read_write_apart x hc h]

theorem editAt_editAt : P.editAt path g (P.editAt path f v i) i = P.editAt path (andThen f g) v i := by
  cases hc : P.read v (path i) with
  | none => rw [editAt_none hc, editAt_none hc, editAt_none hc]
  | some c =>
      cases hx : f i c with
      | none =>
          rw [editAt_left hc hx]
          unfold editAt andThen
          rw [hc, Option.bind_some, Option.bind_some, hx]
      | some x =>
          have hthen : andThen f g i c = some ((g i x).getD x) := by
            unfold andThen
            rw [hx]
          have hread := read_write x hc
          rw [editAt_some hc hx, editAt_some hc hthen]
          cases hy : g i x with
          | none => rw [editAt_left hread hy, Option.getD_none]
          | some y => rw [editAt_some hread hy, write_write x y hc, Option.getD_some]

/-- Edits at paths that are apart may change places. -/
theorem editAt_comm (h : Apart (path i) (path j)) :
    P.editAt path g (P.editAt path f v i) j = P.editAt path f (P.editAt path g v j) i := by
  cases hc : P.read v (path i) with
  | none => rw [editAt_none hc, editAt_none ((read_editAt_apart h.symm).trans hc)]
  | some c =>
      have hci := (@read_editAt_apart V K P ι path g v j _ h.symm).trans hc
      cases hx : f i c with
      | none => rw [editAt_left hc hx, editAt_left hci hx]
      | some x =>
          cases hd : P.read v (path j) with
          | none =>
              have hdj := (@read_editAt_apart V K P ι path f v i _ h).trans hd
              rw [editAt_none hd, editAt_none hdj]
          | some d =>
              have hdj := (@read_editAt_apart V K P ι path f v i _ h).trans hd
              cases hy : g j d with
              | none => rw [editAt_left hd hy, editAt_left hdj hy]
              | some y =>
                  rw [editAt_some hci hx, editAt_some hdj hy, editAt_some hc hx, editAt_some hd hy,
                    write_comm x y hc hd h]

/-- An edit at a path apart from the others may come last. -/
theorem edit_editAt (h : ∀ j ∈ keys, Apart (path i) (path j)) :
    P.edit path g (P.editAt path f v i) keys = P.editAt path f (P.edit path g v keys) i := by
  induction keys generalizing v with
  | nil => rfl
  | cons j keys ih =>
      rw [edit_cons, edit_cons, editAt_comm (h j List.mem_cons_self),
        ih fun k hk => h k (List.mem_cons_of_mem j hk)]

/-- The paths are apart from one another. -/
def AllApart (path : ι → List K) (keys : List ι) : Prop :=
  keys.Pairwise fun i j => Apart (path i) (path j)

instance [DecidableEq K] (path : ι → List K) (keys : List ι) : Decidable (AllApart path keys) :=
  inferInstanceAs (Decidable (keys.Pairwise _))

instance (path : ι → List K) : Std.Symm fun i j => Apart (path i) (path j) := ⟨fun _ _ h => h.symm⟩

theorem AllApart.eq_or_apart (h : AllApart path keys) (hi : i ∈ keys) (hj : j ∈ keys) :
    i = j ∨ Apart (path i) (path j) := by
  by_cases hij : i = j
  · exact .inl hij
  · exact .inr (List.Pairwise.forall h hi hj hij)

/-- **Run.** Two passes of edits are one pass. -/
theorem edit_edit (h : AllApart path keys) :
    P.edit path g (P.edit path f v keys) keys = P.edit path (andThen f g) v keys := by
  induction keys generalizing v with
  | nil => rfl
  | cons i keys ih =>
      obtain ⟨hi, hkeys⟩ := List.pairwise_cons.mp h
      rw [edit_cons, edit_cons, edit_cons, ← edit_editAt hi, editAt_editAt, ih hkeys]

/-- **Run.** A pass depends on what the edits do to the parts that are there. -/
theorem edit_congr (h : AllApart path keys)
    (hfg : ∀ i ∈ keys, ∀ c, P.read v (path i) = some c → f i c = g i c) :
    P.edit path f v keys = P.edit path g v keys := by
  induction keys generalizing v with
  | nil => rfl
  | cons i keys ih =>
      obtain ⟨hi, hkeys⟩ := List.pairwise_cons.mp h
      have hhead : P.editAt path f v i = P.editAt path g v i := by
        unfold editAt
        cases hc : P.read v (path i) with
        | none => rfl
        | some c => rw [Option.bind_some, Option.bind_some, hfg i List.mem_cons_self c hc]
      rw [edit_cons, edit_cons, hhead]
      refine ih hkeys fun j hj c hc => hfg j (List.mem_cons_of_mem i hj) c ?_
      rw [← hc, read_editAt_apart (hi j hj)]

/-- **Run.** A pass whose edits leave every part leaves the value. -/
theorem edit_left (h : ∀ i ∈ keys, ∀ c, P.read v (path i) = some c → f i c = none) :
    P.edit path f v keys = v := by
  induction keys with
  | nil => rfl
  | cons i keys ih =>
      obtain ⟨hi, hkeys⟩ := List.forall_mem_cons.mp h
      have hhead : P.editAt path f v i = v := by
        cases hc : P.read v (path i) with
        | none => exact editAt_none hc
        | some c => exact editAt_left hc (hi c hc)
      rw [edit_cons, hhead]
      exact ih hkeys

/-- **Run.** A pass leaves what is apart from its paths. -/
theorem read_edit_apart {q : List K} (h : ∀ j ∈ keys, Apart (path j) q) :
    P.read (P.edit path f v keys) q = P.read v q := by
  induction keys generalizing v with
  | nil => rfl
  | cons j keys ih =>
      obtain ⟨hj, hkeys⟩ := List.forall_mem_cons.mp h
      rw [edit_cons, ih hkeys, read_editAt_apart hj]

/-- **Run.** What a pass leaves at one of its paths. -/
theorem read_edit (h : AllApart path keys) (hi : i ∈ keys) :
    P.read (P.edit path f v keys) (path i) = (P.read v (path i)).map fun c => (f i c).getD c := by
  induction keys generalizing v with
  | nil => exact absurd hi List.not_mem_nil
  | cons j keys ih =>
      obtain ⟨hj, hkeys⟩ := List.pairwise_cons.mp h
      rw [edit_cons]
      rcases List.mem_cons.mp hi with rfl | hi
      · rw [read_edit_apart fun k hk => (hj k hk).symm, read_editAt]
      · rw [ih hkeys hi, read_editAt_apart (hj i hi)]

/-- **Run.** Edits that put every part back leave the value as it is. -/
theorem edit_eq_self {T : V → Prop} (hT : P.Restoring T) (hv : T v)
    (h : ∀ i ∈ keys, ∀ c, P.read v (path i) = some c → (f i c).getD c = c) :
    P.edit path f v keys = v := by
  induction keys with
  | nil => rfl
  | cons i keys ih =>
      obtain ⟨hi, hkeys⟩ := List.forall_mem_cons.mp h
      have hhead : P.editAt path f v i = v := by
        cases hc : P.read v (path i) with
        | none => exact editAt_none hc
        | some c =>
            cases hx : f i c with
            | none => exact editAt_left hc hx
            | some x =>
                obtain rfl : x = c := by
                  rw [← hi c hc, hx]
                  rfl
                rw [editAt_some hc hx, write_read hT hv hc]
      rw [edit_cons, hhead]
      exact ih hkeys

/-- **Run.** Edits that put values with the property in place keep it. -/
theorem Hereditary.edit {T : V → Prop} (hT : P.Hereditary T) (hv : T v)
    (h : ∀ i ∈ keys, ∀ c x, f i c = some x → T x) : T (P.edit path f v keys) := by
  induction keys generalizing v with
  | nil => exact hv
  | cons i keys ih =>
      obtain ⟨hi, hkeys⟩ := List.forall_mem_cons.mp h
      rw [edit_cons]
      refine ih ?_ hkeys
      cases hc : P.read v (path i) with
      | none =>
          rw [editAt_none hc]
          exact hv
      | some c =>
          cases hx : f i c with
          | none =>
              rw [editAt_left hc hx]
              exact hv
          | some x =>
              rw [editAt_some hc hx]
              exact hT.write (hi c x hx) hv

end Edits

end Parts
