import Mathlib.Logic.Hydra

/-!
# Worklists

A system keeps a list of tasks. A step takes one task out, in any order, and may put new ones
in. Where the new tasks are below the one that was taken out, in a well-founded order, every
way of working through the list stops.

Main results:

- `Worklist.expand_of_take`: a step that takes a task out of a list and appends new ones;
- `Worklist.acc_of_steps`: no run of such steps goes on for ever.
-/

namespace Worklist

open Relation

variable {σ τ : Type} {r : τ → τ → Prop}

/-- A task is the one that is taken out, or one of the others. -/
theorem mem_eraseIdx {tasks : List τ} {i : ℕ} {t u : τ} (ht : tasks[i]? = some t) (hu : u ∈ tasks) :
    u = t ∨ u ∈ tasks.eraseIdx i := by
  obtain ⟨hi, rfl⟩ := List.getElem?_eq_some_iff.mp ht
  exact List.mem_cons.mp ((List.getElem_cons_eraseIdx_perm hi).mem_iff.mpr hu)

/-- A task is taken out of the list, and tasks below it are appended. -/
theorem expand_of_take {tasks new : List τ} {i : ℕ} {t : τ} (ht : tasks[i]? = some t)
    (hnew : ∀ t' ∈ new, r t' t) :
    CutExpand r (↑(tasks.eraseIdx i ++ new) : Multiset τ) (↑tasks : Multiset τ) := by
  refine ⟨↑new, t, fun t' h => hnew t' (by simpa using h), ?_⟩
  obtain ⟨hi, rfl⟩ := List.getElem?_eq_some_iff.mp ht
  have hperm : (tasks[i] :: tasks.eraseIdx i).Perm tasks := List.getElem_cons_eraseIdx_perm hi
  rw [add_comm, Multiset.singleton_add, Multiset.cons_coe, Multiset.coe_add, Multiset.coe_eq_coe]
  exact (hperm.append_right new)

/-- **Main result.** Where every step from a state in `I` cuts or expands the list, every run
stops. -/
theorem acc_of_steps {step : σ → σ → Prop} {queue : σ → Multiset τ} {I : σ → Prop}
    (hr : WellFounded r) (hI : ∀ s s', I s → step s s' → I s')
    (hstep : ∀ s s', I s → step s s' → CutExpand r (queue s') (queue s)) {s : σ} (hs : I s) :
    Acc (fun s' s => step s s') s := by
  have hacc : Acc (CutExpand r) (queue s) := hr.cutExpand.apply (queue s)
  generalize hq : queue s = q at hacc
  induction hacc generalizing s with
  | intro q _ ih =>
      refine Acc.intro s fun s' h => ?_
      exact ih (queue s') (hq ▸ hstep s s' hs h) (hI s s' hs h) rfl

end Worklist
