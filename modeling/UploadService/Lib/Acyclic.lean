import Mathlib.Data.Set.Finite.Basic
import Mathlib.Order.WellFoundedSet
import Mathlib.Logic.Relation

/-!
# Acyclic links

Nodes link to each other, and a system gives a node new links in place of its old ones. No
node should reach itself.

Main results:

- `Acyclic.of_subrel`: links may always be taken away;
- `Acyclic.relink_iff`: the new links of a node close a cycle exactly when one of them leads
  to a node that reaches it already;
- `Acyclic.wellFounded`: finitely many links can be followed from a node only so long.
-/

open Relation

variable {α : Type} {r s : α → α → Prop} {c : α} {new : α → Prop}

/-- No node reaches itself through one or more links. -/
def Acyclic (r : α → α → Prop) : Prop := ∀ x, ¬ TransGen r x x

namespace Acyclic

theorem of_subrel (h : Acyclic r) (hsub : ∀ x y, s x y → r x y) : Acyclic s :=
  fun x hx => h x (TransGen.mono hsub x x hx)

/-- A node that links to nothing else reaches the nodes that do so without them. -/
theorem reaches_of_same_links (hs : ∀ x y, x ≠ c → s x y → r x y) {x : α}
    (h : ReflTransGen s x c) : ReflTransGen r x c := by
  induction h using ReflTransGen.head_induction_on with
  | refl => exact ReflTransGen.refl
  | @head x y hstep _ ih =>
      by_cases hx : x = c
      · rw [hx]
      · exact ReflTransGen.head (hs x y hx hstep) ih

/-- A path that is not one of the old links goes through `c` and one of its new links. -/
theorem old_or_through (hs : ∀ x y, s x y → (x ≠ c ∧ r x y) ∨ (x = c ∧ new y)) {x y : α}
    (h : TransGen s x y) :
    TransGen r x y ∨ ReflTransGen s x c ∧ ∃ w, new w ∧ ReflTransGen s w y := by
  induction h with
  | single hstep =>
      rcases hs _ _ hstep with ⟨-, hold⟩ | ⟨rfl, hnew⟩
      · exact .inl (TransGen.single hold)
      · exact .inr ⟨ReflTransGen.refl, _, hnew, ReflTransGen.refl⟩
  | tail hpath hstep ih =>
      rcases ih with hold | ⟨hto, w, hw, hfrom⟩
      · rcases hs _ _ hstep with ⟨-, hlink⟩ | ⟨rfl, hnew⟩
        · exact .inl (hold.tail hlink)
        · exact .inr ⟨hpath.to_reflTransGen, _, hnew, ReflTransGen.refl⟩
      · exact .inr ⟨hto, w, hw, hfrom.tail hstep⟩

/-- **Main result.** The new links of `c` keep the links acyclic exactly when they lead to no
node that reaches `c`. -/
theorem relink_iff (h : Acyclic r) (hs : ∀ x y, s x y ↔ (x ≠ c ∧ r x y) ∨ (x = c ∧ new y)) :
    Acyclic s ↔ ∀ y, new y → ¬ ReflTransGen r y c := by
  constructor
  · intro hacyclic y hy hreach
    have hback : ReflTransGen s y c := by
      refine reaches_of_same_links (fun x z hx hlink => ?_) hreach
      exact (hs x z).mpr (.inl ⟨hx, hlink⟩)
    exact hacyclic c (TransGen.head' ((hs c y).mpr (.inr ⟨rfl, hy⟩)) hback)
  · intro hnew x hx
    rcases old_or_through (fun x y => (hs x y).mp) hx with hold | ⟨hto, w, hw, hfrom⟩
    · exact h x hold
    · apply hnew w hw
      refine reaches_of_same_links (fun x y hne hlink => ?_) (hfrom.trans hto)
      rcases (hs x y).mp hlink with ⟨-, hold⟩ | ⟨heq, -⟩
      · exact hold
      · exact absurd heq hne

/-- **Main result.** Acyclic links out of finitely many nodes are well-founded. -/
theorem wellFounded (h : Acyclic r) (hfin : {x | ∃ y, r x y}.Finite) : WellFounded r := by
  have htrans : IsTrans α (TransGen r) := ⟨fun _ _ _ => TransGen.trans⟩
  have hirrefl : Std.Irrefl (TransGen r) := ⟨h⟩
  have horder : IsStrictOrder α (TransGen r) := ⟨⟩
  have hon : {x | ∃ y, r x y}.WellFoundedOn (TransGen r) := hfin.wellFoundedOn
  have hacc : ∀ x ∈ {x | ∃ y, r x y}, Acc r x := by
    intro x hx
    apply hon.induction hx
    intro y _ ih
    exact Acc.intro y fun z hz => ih z ⟨y, hz⟩ (TransGen.single hz)
  exact ⟨fun y => Acc.intro y fun x hx => hacc x ⟨y, hx⟩⟩

end Acyclic
