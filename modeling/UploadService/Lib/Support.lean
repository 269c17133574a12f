import Mathlib.Logic.Basic

/-!
# Support in a dependency net

The nodes of a net depend on each other. A node that is up should be supported: it is ready
by itself, or it depends on something and everything it depends on is up. Whether a node is
supported changes when other nodes change, so a system keeps a queue of nodes to look at
again: the net is settled when every node that is up is supported or queued.

Main results:

- `SettledOff.change`: a change of some nodes keeps the others settled, where those that
  depended on a node that fell are ready or queued;
- `SettledOff.remove`: so does the removal of some nodes with the dependencies on them;
- `SettledOff.settled`: with the changed nodes supported or queued, the net is settled.
-/

/-- A dependency net on the nodes `α`. -/
structure Net (α : Type) where
  up : α → Prop
  ready : α → Prop
  dep : α → α → Prop
  queued : α → Prop

namespace Net

variable {α : Type} {n n' : Net α} {A : α → Prop}

/-- Ready by itself, or held by what it depends on. -/
def Supported (n : Net α) (x : α) : Prop :=
  n.ready x ∨ ((∃ y, n.dep x y) ∧ ∀ y, n.dep x y → n.up y)

/-- A node stays supported where nothing that it rests on falls. -/
theorem Supported.mono {x : α} (h : n.Supported x) (hready : n.ready x → n'.ready x)
    (hdep : ∀ y, n'.dep x y ↔ n.dep x y) (hup : ∀ y, n.dep x y → n.up y → n'.up y) :
    n'.Supported x := by
  rcases h with hr | ⟨⟨z, hz⟩, hdeps⟩
  · exact .inl (hready hr)
  · refine .inr ⟨⟨z, (hdep z).mpr hz⟩, fun y hy => ?_⟩
    have hdepends := (hdep y).mp hy
    exact hup y hdepends (hdeps y hdepends)

/-- Support is a matter of the node, its dependencies, and the nodes it depends on. -/
theorem supported_congr {x : α} (hready : n'.ready x ↔ n.ready x)
    (hdep : ∀ y, n'.dep x y ↔ n.dep x y) (hup : ∀ y, n.dep x y → (n'.up y ↔ n.up y)) :
    n'.Supported x ↔ n.Supported x := by
  constructor
  · intro h
    apply h.mono hready.mp fun y => (hdep y).symm
    exact fun y hy => (hup y ((hdep y).mp hy)).mp
  · intro h
    apply h.mono hready.mpr hdep
    exact fun y hy => (hup y hy).mpr

/-- The nodes outside `A` are settled. -/
def SettledOff (n : Net α) (A : α → Prop) : Prop :=
  ∀ x, ¬ A x → n.up x → n.Supported x ∨ n.queued x

/-- Every node that is up is supported, or queued. -/
def Settled (n : Net α) : Prop := ∀ x, n.up x → n.Supported x ∨ n.queued x

theorem Settled.off (h : n.Settled) (A : α → Prop) : n.SettledOff A := fun x _ => h x

theorem SettledOff.settled (h : n.SettledOff A)
    (hA : ∀ x, A x → n.up x → n.Supported x ∨ n.queued x) : n.Settled := by
  intro x hx
  by_cases ha : A x
  · exact hA x ha hx
  · exact h x ha hx

theorem SettledOff.subset {B : α → Prop} (h : n.SettledOff A) (hsub : ∀ x, A x → B x) :
    n.SettledOff B := fun x hx => h x fun ha => hx (hsub x ha)

/-- What a change of the nodes in `A` leaves alone outside. -/
structure Outside (A : α → Prop) (n n' : Net α) : Prop where
  up : ∀ x, ¬ A x → (n'.up x ↔ n.up x)
  ready : ∀ x, ¬ A x → n.ready x → n'.ready x
  dep : ∀ x, ¬ A x → ∀ y, n'.dep x y ↔ n.dep x y
  queued : ∀ x, ¬ A x → n.queued x → n'.queued x

theorem Outside.subset {B : α → Prop} (h : Outside A n n') (hsub : ∀ x, A x → B x) :
    Outside B n n' where
  up := fun x hx => h.up x fun ha => hx (hsub x ha)
  ready := fun x hx => h.ready x fun ha => hx (hsub x ha)
  dep := fun x hx => h.dep x fun ha => hx (hsub x ha)
  queued := fun x hx => h.queued x fun ha => hx (hsub x ha)

theorem Outside.trans {n'' : Net α} (h : Outside A n n') (h' : Outside A n' n'') :
    Outside A n n'' where
  up := fun x hx => (h'.up x hx).trans (h.up x hx)
  ready := fun x hx hr => h'.ready x hx (h.ready x hx hr)
  dep := fun x hx y => (h'.dep x hx y).trans (h.dep x hx y)
  queued := fun x hx hq => h'.queued x hx (h.queued x hx hq)

/-- A change of the nodes in `A`. What depended on a node that fell is ready or queued. -/
theorem SettledOff.change (h : n.SettledOff A) (hout : Outside A n n')
    (hfall : ∀ y, A y → n.up y → ¬ n'.up y → ∀ x, ¬ A x → n'.up x → n.dep x y →
      n'.ready x ∨ n'.queued x) : n'.SettledOff A := by
  intro x hx hup
  rcases h x hx ((hout.up x hx).mp hup) with (hready | ⟨⟨z, hz⟩, hdeps⟩) | hqueued
  · exact .inl (.inl (hout.ready x hx hready))
  · by_cases hall : ∀ y, n'.dep x y → n'.up y
    · exact .inl (.inr ⟨⟨z, (hout.dep x hx z).mpr hz⟩, hall⟩)
    · obtain ⟨y, hyall⟩ := not_forall.mp hall
      obtain ⟨hy, hdown⟩ := Classical.not_imp.mp hyall
      have hdep := (hout.dep x hx y).mp hy
      have hAy : A y := by
        by_cases hA : A y
        · exact hA
        · exact absurd ((hout.up y hA).mpr (hdeps y hdep)) hdown
      rcases hfall y hAy (hdeps y hdep) hdown x hx hup hdep with hready | hqueued
      · exact .inl (.inl hready)
      · exact .inr hqueued
  · exact .inr (hout.queued x hx hqueued)

/-- Nothing changes but that more is ready or queued. -/
theorem Settled.mono (h : n.Settled) (hout : Outside (fun _ => False) n n') : n'.Settled :=
  ((h.off _).change hout fun _ hA => hA.elim).settled fun _ hA => hA.elim

/-- A node whose own readiness is touched, with the rest as it was: it is held by what it
depends on, it is queued, or it stays ready. -/
theorem Settled.touched (h : n.Settled) {x : α} (hx : n.up x) (hup : ∀ y, n.up y → n'.up y)
    (hdep : ∀ y, n'.dep x y ↔ n.dep x y) (hqueued : n.queued x → n'.queued x)
    (hkeeps : ((∃ y, n.dep x y) ∧ ∀ y, n.dep x y → n.up y) ∨ n.queued x ∨
      (n.ready x → n'.ready x)) : n'.Supported x ∨ n'.queued x := by
  have hheld : ((∃ y, n.dep x y) ∧ ∀ y, n.dep x y → n.up y) → n'.Supported x := by
    rintro ⟨⟨z, hz⟩, hdeps⟩
    refine .inr ⟨⟨z, (hdep z).mpr hz⟩, fun y hy => ?_⟩
    exact hup y (hdeps y ((hdep y).mp hy))
  rcases hkeeps with hdeps | hq | hready
  · exact .inl (hheld hdeps)
  · exact .inr (hqueued hq)
  · rcases h x hx with (hr | hdeps) | hq
    · exact .inl (.inl (hready hr))
    · exact .inl (hheld hdeps)
    · exact .inr (hqueued hq)

/-- The nodes in `A` go, with the dependencies on them. What depended on one is ready or
queued, or depends on something else. -/
theorem SettledOff.remove (h : n.SettledOff A) (hup : ∀ x, ¬ A x → (n'.up x ↔ n.up x))
    (hready : ∀ x, ¬ A x → n.ready x → n'.ready x)
    (hdep : ∀ x, ¬ A x → ∀ y, n'.dep x y ↔ n.dep x y ∧ ¬ A y)
    (hqueued : ∀ x, ¬ A x → n.queued x → n'.queued x)
    (hfall : ∀ y, A y → ∀ x, ¬ A x → n'.up x → n.dep x y →
      n'.ready x ∨ n'.queued x ∨ ∃ z, n.dep x z ∧ ¬ A z) : n'.SettledOff A := by
  intro x hx hxup
  rcases h x hx ((hup x hx).mp hxup) with (hr | ⟨⟨z, hz⟩, hdeps⟩) | hq
  · exact .inl (.inl (hready x hx hr))
  · have hall : ∀ y, n'.dep x y → n'.up y := by
      intro y hy
      obtain ⟨hy, hAy⟩ := (hdep x hx y).mp hy
      exact (hup y hAy).mpr (hdeps y hy)
    by_cases hAz : A z
    · rcases hfall z hAz x hx hxup hz with hr | hq | ⟨w, hw, hAw⟩
      · exact .inl (.inl hr)
      · exact .inr hq
      · exact .inl (.inr ⟨⟨w, (hdep x hx w).mpr ⟨hw, hAw⟩⟩, hall⟩)
    · exact .inl (.inr ⟨⟨z, (hdep x hx z).mpr ⟨hz, hAz⟩⟩, hall⟩)
  · exact .inr (hqueued x hx hq)

end Net
