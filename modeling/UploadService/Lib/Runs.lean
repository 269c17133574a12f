import Mathlib.Logic.Basic
import Mathlib.Data.List.Basic

/-!
# Runs of a deterministic transition system

A system is a step function `step : σ → ε → σ` on states and events. `run` takes
a list of events in order, `Along C` says that every step of the run is taken
where the condition `C` holds, and `outputs` collects what the steps put out.

Main results:

- `invariant_along`: an invariant that every step under `C` keeps holds after
  every run whose steps all meet `C`;
- `along_of_invariant`: and what the invariant implies of a step holds of each step;
- `along_iff_within`, `along_iff_invariant`: where `C` is exactly what keeps it, the converse too;
- `outputs_along`: a relation between the state and everything put out so far
  that every step keeps holds after every such run;
- `along_of_outputs`: and what it implies of a step holds of each step of the run;
- `history_along`: a relation between the events so far and the state;
- `along_iff_serial`: a run is serial exactly where each of its steps has its own effect.
-/

namespace Runs

variable {σ ε ο τ : Type}

/-- The state after the events, in order. -/
def run (step : σ → ε → σ) : σ → List ε → σ
  | s, [] => s
  | s, e :: es => run step (step s e) es

/-- Every step of the run is taken in a state and on an event that meet `C`. -/
def Along (step : σ → ε → σ) (C : σ → ε → Prop) : σ → List ε → Prop
  | _, [] => True
  | s, e :: es => C s e ∧ Along step C (step s e) es

/-- What the steps of the run put out, in order. -/
def outputs (step : σ → ε → σ) (out : σ → ε → List ο) : σ → List ε → List ο
  | _, [] => []
  | s, e :: es => out s e ++ outputs step out (step s e) es

instance decidableAlong (step : σ → ε → σ) (C : σ → ε → Prop) [∀ s e, Decidable (C s e)] :
    ∀ (s : σ) (es : List ε), Decidable (Along step C s es)
  | _, [] => .isTrue trivial
  | s, e :: es => @instDecidableAnd (C s e) _ _ (decidableAlong step C (step s e) es)

theorem run_append (step : σ → ε → σ) (s : σ) (es fs : List ε) :
    run step s (es ++ fs) = run step (run step s es) fs := by
  induction es generalizing s with
  | nil => rfl
  | cons e es ih => exact ih (step s e)

/-- A state that no event changes is where the run stays. -/
theorem run_eq_self {step : σ → ε → σ} {s : σ} {es : List ε} (h : ∀ e ∈ es, step s e = s) :
    run step s es = s := by
  induction es with
  | nil => rfl
  | cons e es ih =>
      have hstep : run step s (e :: es) = run step (step s e) es := rfl
      rw [hstep, h e List.mem_cons_self]
      exact ih fun e' he' => h e' (List.mem_cons_of_mem e he')

theorem Along.mono {step : σ → ε → σ} {C D : σ → ε → Prop} (h : ∀ s e, C s e → D s e) {s : σ}
    {es : List ε} (hs : Along step C s es) : Along step D s es := by
  induction es generalizing s with
  | nil => trivial
  | cons e es ih => exact ⟨h s e hs.1, ih hs.2⟩

theorem Along.and {step : σ → ε → σ} {C D : σ → ε → Prop} {s : σ} {es : List ε}
    (hC : Along step C s es) (hD : Along step D s es) : Along step (fun s e => C s e ∧ D s e) s es := by
  induction es generalizing s with
  | nil => trivial
  | cons e es ih => exact ⟨⟨hC.1, hD.1⟩, ih hC.2 hD.2⟩

/-- A condition on the events alone holds along every run of them. -/
theorem along_of_forall (step : σ → ε → σ) {C : σ → ε → Prop} {es : List ε}
    (h : ∀ e ∈ es, ∀ s, C s e) (s : σ) : Along step C s es := by
  induction es generalizing s with
  | nil => trivial
  | cons e es ih =>
      exact ⟨h e List.mem_cons_self s, ih (fun e' he' => h e' (List.mem_cons_of_mem e he')) _⟩

theorem invariant_along {step : σ → ε → σ} {C : σ → ε → Prop} {I : σ → Prop}
    (hstep : ∀ s e, I s → C s e → I (step s e)) {s : σ} (hs : I s) {es : List ε}
    (hC : Along step C s es) : I (run step s es) := by
  induction es generalizing s with
  | nil => exact hs
  | cons e es ih => exact ih (hstep s e hs hC.1) hC.2

/-- An invariant that every step keeps holds after every run. -/
theorem invariant_run {step : σ → ε → σ} {I : σ → Prop} (hstep : ∀ s e, I s → I (step s e))
    {s : σ} (hs : I s) (es : List ε) : I (run step s es) := by
  induction es generalizing s with
  | nil => exact hs
  | cons e es ih => exact ih (hstep s e hs)

/-- Where, in states with `J`, a step under `D` keeps `I` exactly under `C`, a run whose steps all
meet `D` keeps `I` in every state exactly when all its steps meet `C` too. -/
theorem along_iff_within {step : σ → ε → σ} {C D : σ → ε → Prop} {I J : σ → Prop}
    (hJ : ∀ s e, J s → I s → D s e → J (step s e))
    (hstep : ∀ s e, J s → I s → D s e → (I (step s e) ↔ C s e)) {s : σ} (hsJ : J s) (hs : I s)
    {es : List ε} (hD : Along step D s es) :
    (∀ done, done <+: es → I (run step s done)) ↔ Along step C s es := by
  induction es generalizing s with
  | nil =>
      refine iff_of_true (fun done h => ?_) trivial
      rw [List.prefix_nil.mp h]
      exact hs
  | cons e es ih =>
      have hnextJ : J (step s e) := hJ s e hsJ hs hD.1
      constructor
      · intro h
        have hnext : I (step s e) := h [e] (by simp)
        refine ⟨(hstep s e hsJ hs hD.1).mp hnext, (ih hnextJ hnext hD.2).mp fun done hdone => ?_⟩
        exact h (e :: done) (List.cons_prefix_cons.mpr ⟨rfl, hdone⟩)
      · rintro ⟨hC, hrest⟩ done hdone
        have hnext : I (step s e) := (hstep s e hsJ hs hD.1).mpr hC
        cases done with
        | nil => exact hs
        | cons e' done =>
            obtain ⟨rfl, htail⟩ := List.cons_prefix_cons.mp hdone
            exact (ih hnextJ hnext hD.2).mpr hrest done htail

/-- Where a step from the invariant keeps it exactly under `C`, it holds in every state of a run
exactly when every step of the run meets `C`. -/
theorem along_iff_invariant {step : σ → ε → σ} {C : σ → ε → Prop} {I : σ → Prop}
    (hstep : ∀ s e, I s → (I (step s e) ↔ C s e)) {s : σ} (hs : I s) {es : List ε} :
    (∀ done, done <+: es → I (run step s done)) ↔ Along step C s es :=
  @along_iff_within σ ε step C (fun _ _ => True) I (fun _ => True)
    (fun _ _ _ _ _ => trivial) (fun s e _ h _ => hstep s e h) s trivial hs es
    (along_of_forall step (fun _ _ _ => trivial) s)

/-- Where two conditions mean the same of every step from the invariant, they mean the same of
a run. -/
theorem along_congr {step : σ → ε → σ} {C D : σ → ε → Prop} {I : σ → Prop}
    (hstep : ∀ s e, I s → I (step s e)) (h : ∀ s e, I s → (C s e ↔ D s e)) {s : σ} (hs : I s)
    (es : List ε) : Along step C s es ↔ Along step D s es := by
  induction es generalizing s with
  | nil => exact Iff.rfl
  | cons e es ih => exact and_congr (h s e hs) (ih (hstep s e hs))

/-- What the invariant implies of one step holds of every step of the run. -/
theorem along_of_invariant {step : σ → ε → σ} {C D : σ → ε → Prop} {I : σ → Prop}
    (hstep : ∀ s e, I s → C s e → I (step s e)) (hD : ∀ s e, I s → C s e → D s e) {s : σ}
    (hs : I s) {es : List ε} (hC : Along step C s es) : Along step D s es := by
  induction es generalizing s with
  | nil => trivial
  | cons e es ih => exact ⟨hD s e hs hC.1, ih (hstep s e hs hC.1) hC.2⟩

/-- A relation `J` between the outputs so far and the state is kept along a run. -/
theorem outputs_along {step : σ → ε → σ} {out : σ → ε → List ο} {C : σ → ε → Prop}
    {J : List ο → σ → Prop}
    (hstep : ∀ done s e, J done s → C s e → J (done ++ out s e) (step s e)) {done : List ο} {s : σ}
    (hs : J done s) {es : List ε} (hC : Along step C s es) :
    J (done ++ outputs step out s es) (run step s es) := by
  induction es generalizing s done with
  | nil => simpa [outputs, run] using hs
  | cons e es ih =>
      have h := ih (hstep done s e hs hC.1) hC.2
      rw [List.append_assoc] at h
      exact h

/-- What such a relation implies of one step holds of every step of the run. -/
theorem along_of_outputs {step : σ → ε → σ} {out : σ → ε → List ο} {C D : σ → ε → Prop}
    {J : List ο → σ → Prop}
    (hstep : ∀ done s e, J done s → C s e → J (done ++ out s e) (step s e))
    (hD : ∀ done s e, J done s → C s e → D s e) {done : List ο} {s : σ} (hs : J done s)
    {es : List ε} (hC : Along step C s es) : Along step D s es := by
  induction es generalizing s done with
  | nil => trivial
  | cons e es ih => exact ⟨hD done s e hs hC.1, ih (hstep done s e hs hC.1) hC.2⟩

/-! ### Histories -/

/-- What the run puts out, one of its steps puts out, in the state after the events before it. -/
theorem exists_of_mem_outputs {step : σ → ε → σ} {out : σ → ε → List ο} {s : σ} {es : List ε} {o : ο}
    (h : o ∈ outputs step out s es) :
    ∃ done e rest, es = done ++ e :: rest ∧ o ∈ out (run step s done) e := by
  induction es generalizing s with
  | nil => cases h
  | cons e es ih =>
      rcases List.mem_append.mp h with hhere | hlater
      · exact ⟨[], e, es, rfl, hhere⟩
      · obtain ⟨done, e', rest, hsplit, ho⟩ := ih hlater
        exact ⟨e :: done, e', rest, by rw [hsplit]; rfl, ho⟩

theorem Along.of_append {step : σ → ε → σ} {C : σ → ε → Prop} {s : σ} {es fs : List ε}
    (h : Along step C s (es ++ fs)) : Along step C s es ∧ Along step C (run step s es) fs := by
  induction es generalizing s with
  | nil => exact ⟨trivial, h⟩
  | cons e es ih => exact ⟨⟨h.1, (ih h.2).1⟩, (ih h.2).2⟩

/-- A relation between the events so far and the state, kept by every step. -/
theorem history_along {step : σ → ε → σ} {C : σ → ε → Prop} {J : List ε → σ → Prop}
    (hstep : ∀ done s e, J done s → C s e → J (done ++ [e]) (step s e)) {done : List ε} {s : σ}
    (hs : J done s) {es : List ε} (hC : Along step C s es) : J (done ++ es) (run step s es) := by
  induction es generalizing s done with
  | nil => simpa [run] using hs
  | cons e es ih =>
      have h := ih (hstep done s e hs hC.1) hC.2
      rw [List.append_assoc] at h
      exact h

/-! ### Serial runs -/

/-- The operations that the steps put out, one after the other, lead the view from the start of
the run to each of its states exactly where every step does to the view what it puts out. -/
theorem along_iff_serial (step : σ → ε → σ) (out : σ → ε → List ο) (view : σ → τ) (apply : τ → ο → τ)
    (s : σ) (es : List ε) :
    (∀ done, done <+: es →
      view (run step s done) = (outputs step out s done).foldl apply (view s)) ↔
    Along step (fun s e => view (step s e) = (out s e).foldl apply (view s)) s es := by
  induction es generalizing s with
  | nil =>
      refine iff_of_true (fun done h => ?_) trivial
      rw [List.prefix_nil.mp h]
      rfl
  | cons e es ih =>
      constructor
      · intro h
        have hfirst : view (step s e) = (out s e).foldl apply (view s) := by
          have hone := h [e] (by simp)
          simpa [run, outputs] using hone
        refine ⟨hfirst, (ih (step s e)).mp fun done hdone => ?_⟩
        have hall := h (e :: done) (List.cons_prefix_cons.mpr ⟨rfl, hdone⟩)
        show view (run step s (e :: done)) = _
        rw [hall, hfirst, ← List.foldl_append]
        rfl
      · rintro ⟨hfirst, hrest⟩ done hdone
        cases done with
        | nil => rfl
        | cons e' done =>
            obtain ⟨rfl, htail⟩ := List.cons_prefix_cons.mp hdone
            show view (run step (step s e') done) = _
            rw [(ih (step s e')).mpr hrest done htail, hfirst, ← List.foldl_append]
            rfl

end Runs
