import Mathlib.Logic.Basic

/-!
# Store programs with exceptions

`Prog σ ε α` is a program over a store `σ` that returns an `α` or throws an `ε`.
Writes made before a throw stay: the store comes back in both cases, so what is
proved about a failing run is about the writes it leaves behind.

Main notions:

- `Prog.Keeps I p`: every run of `p`, failing or not, keeps the invariant `I`;
- `Prog.Frames g p`: no run of `p` changes the observation `g`;
- `Prog.Meets P p Q E`: a run from `P` returns in `Q` or throws in `E`.

Each notion has one rule for every combinator, so that a proof follows the
program text.
-/

/-- A program over the store `σ`: it returns `α` or throws `ε`, and the writes
made before a throw stay in the store. -/
def Prog (σ ε α : Type) : Type := σ → Except ε α × σ

namespace Prog

variable {σ ε α β γ : Type}

protected def pure (a : α) : Prog σ ε α := fun s => (.ok a, s)

protected def bind (p : Prog σ ε α) (f : α → Prog σ ε β) : Prog σ ε β := fun s =>
  match p s with
  | (.ok a, s') => f a s'
  | (.error e, s') => (.error e, s')

instance : Monad (Prog σ ε) where
  pure := Prog.pure
  bind := Prog.bind

def throw (e : ε) : Prog σ ε α := fun s => (.error e, s)

/-- A result that is computed without the store. -/
def ofExcept (r : Except ε α) : Prog σ ε α := fun s => (r, s)

/-- `try p catch e => h e`; the writes of `p` stay. -/
def tryCatch (p : Prog σ ε α) (h : ε → Prog σ ε α) : Prog σ ε α := fun s =>
  match p s with
  | (.ok a, s') => (.ok a, s')
  | (.error e, s') => h e s'

/-- A read of the store. -/
def gets (f : σ → α) : Prog σ ε α := fun s => (.ok (f s), s)

/-- One write statement. -/
def modify (f : σ → σ) : Prog σ ε Unit := fun s => (.ok (), f s)

/-- A read that also writes, such as drawing the next key of a sequence. -/
def modifyGet (f : σ → α × σ) : Prog σ ε α := fun s => (.ok (f s).1, (f s).2)

def when (c : Bool) (p : Prog σ ε Unit) : Prog σ ε Unit := if c then p else Prog.pure ()

/-- `for (const x of xs) f(x)`. -/
def forEach (f : α → Prog σ ε Unit) : List α → Prog σ ε Unit
  | [] => Prog.pure ()
  | x :: xs => f x >>= fun _ => forEach f xs

/-- A loop that carries an accumulator. -/
def foldEach (f : β → α → Prog σ ε β) : β → List α → Prog σ ε β
  | acc, [] => Prog.pure acc
  | acc, x :: xs => f acc x >>= fun acc' => foldEach f acc' xs

/-- A program on one part of the store, run on the whole store. -/
def zoom {τ : Type} (get : σ → τ) (set : τ → σ → σ) (p : Prog τ ε α) : Prog σ ε α := fun s =>
  ((p (get s)).1, set (p (get s)).2 s)

/-! ### Runs -/

@[simp] theorem pure_run (a : α) (s : σ) : (pure a : Prog σ ε α) s = (.ok a, s) := rfl

@[simp] theorem throw_run (e : ε) (s : σ) : (throw e : Prog σ ε α) s = (.error e, s) := rfl

@[simp] theorem ofExcept_run (r : Except ε α) (s : σ) :
    (ofExcept r : Prog σ ε α) s = (r, s) := rfl

@[simp] theorem gets_run (f : σ → α) (s : σ) : (gets f : Prog σ ε α) s = (.ok (f s), s) := rfl

@[simp] theorem modify_run (f : σ → σ) (s : σ) : (modify f : Prog σ ε Unit) s = (.ok (), f s) := rfl

@[simp] theorem modifyGet_run (f : σ → α × σ) (s : σ) :
    (modifyGet f : Prog σ ε α) s = (.ok (f s).1, (f s).2) := rfl

theorem bind_run (p : Prog σ ε α) (f : α → Prog σ ε β) (s : σ) :
    (p >>= f) s = match p s with
      | (.ok a, s') => f a s'
      | (.error e, s') => (.error e, s') := rfl

theorem bind_run_ok {p : Prog σ ε α} {s s' : σ} {a : α} (h : p s = (.ok a, s'))
    (f : α → Prog σ ε β) : (p >>= f) s = f a s' := by
  rw [bind_run, h]

theorem bind_run_error {p : Prog σ ε α} {s s' : σ} {e : ε} (h : p s = (.error e, s'))
    (f : α → Prog σ ε β) : (p >>= f) s = (.error e, s') := by
  rw [bind_run, h]

theorem tryCatch_run_ok {p : Prog σ ε α} {s s' : σ} {a : α} (h : p s = (.ok a, s'))
    (f : ε → Prog σ ε α) : tryCatch p f s = (.ok a, s') := by
  unfold tryCatch
  rw [h]

theorem tryCatch_run_error {p : Prog σ ε α} {s s' : σ} {e : ε} (h : p s = (.error e, s'))
    (f : ε → Prog σ ε α) : tryCatch p f s = f e s' := by
  unfold tryCatch
  rw [h]

@[simp] theorem gets_bind_run (g : σ → α) (f : α → Prog σ ε β) (s : σ) :
    (gets g >>= f) s = f (g s) s := rfl

@[simp] theorem modify_bind_run (g : σ → σ) (f : Unit → Prog σ ε β) (s : σ) :
    (modify g >>= f) s = f () (g s) := rfl

@[simp] theorem modifyGet_bind_run (g : σ → α × σ) (f : α → Prog σ ε β) (s : σ) :
    (modifyGet g >>= f) s = f (g s).1 (g s).2 := rfl

@[simp] theorem throw_bind_run (e : ε) (f : α → Prog σ ε β) (s : σ) :
    (throw e >>= f) s = (.error e, s) := rfl

@[simp] theorem pure_bind_run (a : α) (f : α → Prog σ ε β) (s : σ) :
    ((pure a : Prog σ ε α) >>= f) s = f a s := rfl

theorem bind_bind_run (p : Prog σ ε α) (f : α → Prog σ ε β) (g : β → Prog σ ε γ) (s : σ) :
    (p >>= f >>= g) s = (p >>= fun a => f a >>= g) s := by
  rw [bind_run, bind_run, bind_run]
  rcases p s with ⟨result, s₁⟩
  cases result <;> rfl

/-- Two first parts that run alike from the store. -/
theorem bind_run_congr {p q : Prog σ ε α} {s : σ} (h : p s = q s) (f : α → Prog σ ε β) :
    (p >>= f) s = (q >>= f) s := by
  rw [bind_run, bind_run, h]

instance : LawfulMonad (Prog σ ε) :=
  LawfulMonad.mk' (Prog σ ε)
    (fun p => by
      funext s
      show (p >>= fun a => Pure.pure (id a)) s = p s
      rw [bind_run]
      rcases p s with ⟨result, s'⟩
      cases result <;> rfl)
    (fun _ _ => rfl)
    (fun p f g => funext fun s => bind_bind_run p f g s)

/-- A run of `p >>= f` that returns splits into two runs that return. -/
theorem bind_ok_inv {p : Prog σ ε α} {f : α → Prog σ ε β} {s s' : σ} {b : β}
    (h : (p >>= f) s = (.ok b, s')) :
    ∃ a s₁, p s = (.ok a, s₁) ∧ f a s₁ = (.ok b, s') := by
  rw [bind_run] at h
  rcases hp : p s with ⟨r, s₁⟩
  rw [hp] at h
  cases r with
  | ok a => exact ⟨a, s₁, rfl, h⟩
  | error e => cases h

/-! ### Loops that do not throw -/

/-- A loop whose body does not throw, by what holds after the elements that are done. -/
theorem foldEach_run {I : List α → β → σ → Prop} {f : β → α → Prog σ ε β} {xs : List α}
    (hf : ∀ done x acc s, x ∈ xs → I done acc s →
      ∃ acc' s', f acc x s = (.ok acc', s') ∧ I (done ++ [x]) acc' s') (done : List α) (acc : β)
    {s : σ} (hs : I done acc s) :
    ∃ acc' s', foldEach f acc xs s = (.ok acc', s') ∧ I (done ++ xs) acc' s' := by
  induction xs generalizing done acc s with
  | nil => exact ⟨acc, s, rfl, by simpa using hs⟩
  | cons x xs ih =>
      obtain ⟨acc₁, s₁, hrun, h₁⟩ := hf done x acc s List.mem_cons_self hs
      obtain ⟨acc₂, s₂, hrest, h₂⟩ :=
        ih (fun done y acc s hy => hf done y acc s (List.mem_cons_of_mem x hy)) (done ++ [x]) acc₁ h₁
      refine ⟨acc₂, s₂, ?_, by simpa using h₂⟩
      show (f acc x >>= _) s = _
      rw [bind_run_ok hrun]
      exact hrest

theorem forEach_run {I : List α → σ → Prop} {f : α → Prog σ ε Unit} {xs : List α}
    (hf : ∀ done x s, x ∈ xs → I done s → ∃ s', f x s = (.ok (), s') ∧ I (done ++ [x]) s')
    (done : List α) {s : σ} (hs : I done s) :
    ∃ s', forEach f xs s = (.ok (), s') ∧ I (done ++ xs) s' := by
  induction xs generalizing done s with
  | nil => exact ⟨s, rfl, by simpa using hs⟩
  | cons x xs ih =>
      obtain ⟨s₁, hrun, h₁⟩ := hf done x s List.mem_cons_self hs
      obtain ⟨s₂, hrest, h₂⟩ :=
        ih (fun done y s hy => hf done y s (List.mem_cons_of_mem x hy)) (done ++ [x]) h₁
      refine ⟨s₂, ?_, by simpa using h₂⟩
      show (f x >>= _) s = _
      rw [bind_run_ok hrun]
      exact hrest

/-! ### Invariants -/

/-- Every run of `p`, failing or not, keeps `I`. -/
def Keeps (I : σ → Prop) (p : Prog σ ε α) : Prop := ∀ s, I s → I (p s).2

namespace Keeps

variable {I : σ → Prop}

theorem pure (a : α) : Keeps I (Pure.pure a : Prog σ ε α) := fun _ h => h

theorem throw (e : ε) : Keeps I (Prog.throw e : Prog σ ε α) := fun _ h => h

theorem ofExcept (r : Except ε α) : Keeps I (Prog.ofExcept r : Prog σ ε α) := fun _ h => h

theorem gets (f : σ → α) : Keeps I (Prog.gets f : Prog σ ε α) := fun _ h => h

theorem modify {f : σ → σ} (hf : ∀ s, I s → I (f s)) :
    Keeps I (Prog.modify f : Prog σ ε Unit) := hf

theorem bind {p : Prog σ ε α} {f : α → Prog σ ε β} (hp : Keeps I p)
    (hf : ∀ a, Keeps I (f a)) : Keeps I (p >>= f) := by
  intro s hs
  have h₁ := hp s hs
  rw [bind_run]
  rcases h : p s with ⟨r, s₁⟩
  rw [h] at h₁
  cases r with
  | ok a => exact hf a s₁ h₁
  | error e => exact h₁

/-- A first part whose result is known to satisfy `P`. -/
theorem bind_post {P : α → Prop} {p : Prog σ ε α} {f : α → Prog σ ε β} (hp : Keeps I p)
    (hP : ∀ s, I s → ∀ a s', p s = (.ok a, s') → P a) (hf : ∀ a, P a → Keeps I (f a)) :
    Keeps I (p >>= f) := by
  intro s hs
  have h₁ := hp s hs
  rw [bind_run]
  rcases h : p s with ⟨r, s₁⟩
  rw [h] at h₁
  cases r with
  | ok a => exact hf a (hP s hs a s₁ h) s₁ h₁
  | error e => exact h₁

/-- A read whose answer is known to satisfy `P`. -/
theorem gets_bind {P : α → Prop} {g : σ → α} {f : α → Prog σ ε β} (hP : ∀ s, I s → P (g s))
    (hf : ∀ a, P a → Keeps I (f a)) : Keeps I (Prog.gets g >>= f) :=
  fun s hs => hf (g s) (hP s hs) s hs

theorem tryCatch {p : Prog σ ε α} {h : ε → Prog σ ε α} (hp : Keeps I p)
    (hh : ∀ e, Keeps I (h e)) : Keeps I (Prog.tryCatch p h) := by
  intro s hs
  have h₁ := hp s hs
  unfold Prog.tryCatch
  rcases hr : p s with ⟨r, s₁⟩
  rw [hr] at h₁
  cases r with
  | ok a => exact h₁
  | error e => exact hh e s₁ h₁

theorem ite {c : Prop} [Decidable c] {p q : Prog σ ε α} (hp : Keeps I p) (hq : Keeps I q) :
    Keeps I (if c then p else q) := by
  split
  · exact hp
  · exact hq

theorem when {c : Bool} {p : Prog σ ε Unit} (hp : Keeps I p) : Keeps I (Prog.when c p) :=
  ite hp (fun _ h => h)

theorem forEach {f : α → Prog σ ε Unit} {xs : List α} (hf : ∀ x ∈ xs, Keeps I (f x)) :
    Keeps I (Prog.forEach f xs) := by
  induction xs with
  | nil => exact fun _ h => h
  | cons x xs ih =>
      refine bind (hf x (by simp)) fun _ => ih ?_
      intro y hy
      exact hf y (List.mem_cons_of_mem x hy)

theorem foldEach {f : β → α → Prog σ ε β} {xs : List α} (hf : ∀ b, ∀ x ∈ xs, Keeps I (f b x))
    (b : β) : Keeps I (Prog.foldEach f b xs) := by
  induction xs generalizing b with
  | nil => exact fun _ h => h
  | cons x xs ih =>
      refine bind (hf b x (by simp)) fun b' => ih ?_ b'
      intro c y hy
      exact hf c y (List.mem_cons_of_mem x hy)

/-- A first part that leads to `I`, also where it throws, and a rest that keeps it. -/
theorem bind_after {p : Prog σ ε α} {f : α → Prog σ ε β} {s : σ} (hp : I (p s).2)
    (hf : ∀ a, Keeps I (f a)) : I ((p >>= f) s).2 := by
  rw [bind_run]
  rcases h : p s with ⟨r, s₁⟩
  rw [h] at hp
  cases r with
  | ok a => exact hf a s₁ hp
  | error e => exact hp

/-- A first part that leads to `I`, and a rest that keeps it after what the part returned. -/
theorem bind_after_ok {p : Prog σ ε α} {f : α → Prog σ ε β} {s : σ} (hp : I (p s).2)
    (hf : ∀ a s', p s = (.ok a, s') → Keeps I (f a)) : I ((p >>= f) s).2 := by
  rw [bind_run]
  rcases h : p s with ⟨r, s₁⟩
  rw [h] at hp
  cases r with
  | ok a => exact hf a s₁ h s₁ hp
  | error e => exact hp

/-- A first part that keeps `I` and a rest that leads from `I` to `J` lead to `J`, also
where the first part throws. -/
theorem bind_to {J : σ → Prop} {p : Prog σ ε α} {f : α → Prog σ ε β} (hp : Keeps I p)
    (hIJ : ∀ s, I s → J s) (hf : ∀ a s, I s → J (f a s).2) {s : σ} (hs : I s) :
    J ((p >>= f) s).2 := by
  have h₁ := hp s hs
  rw [bind_run]
  rcases h : p s with ⟨r, s₁⟩
  rw [h] at h₁
  cases r with
  | ok a => exact hf a s₁ h₁
  | error e => exact hIJ s₁ h₁

end Keeps

/-! ### Values -/

/-- Every run of `p` that returns, returns a value in `P`. -/
def Returns (P : α → Prop) (p : Prog σ ε α) : Prop := ∀ s a s', p s = (.ok a, s') → P a

namespace Returns

variable {P : α → Prop}

theorem pure {a : α} (h : P a) : Returns P (Pure.pure a : Prog σ ε α) := by
  intro s b s' hrun
  cases hrun
  exact h

theorem bind_post {Q : β → Prop} {p : Prog σ ε β} {f : β → Prog σ ε α} (hp : Returns Q p)
    (hf : ∀ b, Q b → Returns P (f b)) : Returns P (p >>= f) := by
  intro s a s' hrun
  obtain ⟨b, s₁, hfirst, hrest⟩ := bind_ok_inv hrun
  exact hf b (hp s b s₁ hfirst) s₁ a s' hrest

theorem bind {p : Prog σ ε β} {f : β → Prog σ ε α} (hf : ∀ b, Returns P (f b)) :
    Returns P (p >>= f) :=
  bind_post (Q := fun _ => True) (fun _ _ _ _ => trivial) fun b _ => hf b

/-- What one round keeps of the accumulator, the loop keeps. -/
theorem foldEach {f : α → β → Prog σ ε α} {xs : List β}
    (hf : ∀ a, ∀ x ∈ xs, P a → Returns P (f a x)) {a : α} (ha : P a) :
    Returns P (Prog.foldEach f a xs) := by
  induction xs generalizing a with
  | nil => exact pure ha
  | cons x xs ih =>
      show Returns P (f a x >>= fun a' => Prog.foldEach f a' xs)
      refine bind_post (hf a x List.mem_cons_self ha) fun b hb => ?_
      exact ih (fun a y hy => hf a y (List.mem_cons_of_mem x hy)) hb

end Returns

/-! ### Frames -/

/-- No run of `p` changes the observation `g`. -/
def Frames (g : σ → γ) (p : Prog σ ε α) : Prop := ∀ v, Keeps (fun s => g s = v) p

theorem Frames.eq {g : σ → γ} {p : Prog σ ε α} (h : Frames g p) (s : σ) : g (p s).2 = g s :=
  h (g s) s rfl

theorem Frames.keeps {g : σ → γ} {p : Prog σ ε α} (h : Frames g p) (I : γ → Prop) :
    Keeps (fun s => I (g s)) p := by
  intro s hs
  show I (g (p s).2)
  rw [h.eq s]
  exact hs

/-! ### Pre- and postconditions -/

/-- A run from `P` returns in `Q` or throws in `E`. -/
def Meets (P : σ → Prop) (p : Prog σ ε α) (Q : α → σ → Prop) (E : ε → σ → Prop) : Prop :=
  ∀ s, P s → match p s with
    | (.ok a, s') => Q a s'
    | (.error e, s') => E e s'

namespace Meets

variable {P : σ → Prop} {E : ε → σ → Prop}

theorem pure {Q : α → σ → Prop} {a : α} (h : ∀ s, P s → Q a s) :
    Meets P (Pure.pure a : Prog σ ε α) Q E := h

theorem gets {Q : α → σ → Prop} {f : σ → α} (h : ∀ s, P s → Q (f s) s) :
    Meets P (Prog.gets f : Prog σ ε α) Q E := h

theorem modify {Q : Unit → σ → Prop} {f : σ → σ} (h : ∀ s, P s → Q () (f s)) :
    Meets P (Prog.modify f : Prog σ ε Unit) Q E := h

theorem bind {Q : β → σ → Prop} {R : α → σ → Prop} {p : Prog σ ε α} {f : α → Prog σ ε β}
    (hp : Meets P p R E) (hf : ∀ a, Meets (R a) (f a) Q E) : Meets P (p >>= f) Q E := by
  intro s hs
  have h₁ := hp s hs
  rw [bind_run]
  rcases h : p s with ⟨r, s₁⟩
  rw [h] at h₁
  cases r with
  | ok a => exact hf a s₁ h₁
  | error e => exact h₁

theorem consequence {P' : σ → Prop} {Q Q' : α → σ → Prop} {E' : ε → σ → Prop} {p : Prog σ ε α}
    (h : Meets P p Q E) (hP : ∀ s, P' s → P s) (hQ : ∀ a s, Q a s → Q' a s)
    (hE : ∀ e s, E e s → E' e s) : Meets P' p Q' E' := by
  intro s hs
  have h₁ := h s (hP s hs)
  rcases hr : p s with ⟨r, s₁⟩
  rw [hr] at h₁
  cases r with
  | ok a => exact hQ a s₁ h₁
  | error e => exact hE e s₁ h₁

/-- A first part that only reads. -/
theorem gets_bind {Q : β → σ → Prop} {g : σ → α} {f : α → Prog σ ε β}
    (h : ∀ a, Meets (fun s => P s ∧ g s = a) (f a) Q E) : Meets P (Prog.gets g >>= f) Q E :=
  fun s hs => h (g s) s ⟨hs, rfl⟩

theorem ite {Q : α → σ → Prop} {c : Prop} [Decidable c] {p q : Prog σ ε α}
    (hp : Meets P p Q E) (hq : Meets P q Q E) : Meets P (if c then p else q) Q E := by
  split
  · exact hp
  · exact hq

/-- The handler runs from where the body threw. -/
theorem tryCatch {Q : α → σ → Prop} {R : ε → σ → Prop} {p : Prog σ ε α} {f : ε → Prog σ ε α}
    (hp : Meets P p Q R) (hf : ∀ e, Meets (R e) (f e) Q E) : Meets P (Prog.tryCatch p f) Q E := by
  intro s hs
  have h₁ := hp s hs
  unfold Prog.tryCatch
  rcases hr : p s with ⟨r, s₁⟩
  rw [hr] at h₁
  cases r with
  | ok a => exact h₁
  | error e => exact hf e s₁ h₁

/-- A loop whose rounds keep an assertion on the accumulator and the store. -/
theorem foldEach {J : β → σ → Prop} {f : β → α → Prog σ ε β} {xs : List α}
    (hf : ∀ acc, ∀ x ∈ xs, Meets (J acc) (f acc x) J E) (acc : β) :
    Meets (J acc) (Prog.foldEach f acc xs) J E := by
  induction xs generalizing acc with
  | nil => exact fun s hs => hs
  | cons x xs ih =>
      apply bind (hf acc x List.mem_cons_self)
      intro acc'
      exact ih (fun acc y hy => hf acc y (List.mem_cons_of_mem x hy)) acc'

theorem forEach {f : α → Prog σ ε Unit} {xs : List α}
    (hf : ∀ x ∈ xs, Meets P (f x) (fun _ => P) E) : Meets P (Prog.forEach f xs) (fun _ => P) E := by
  induction xs with
  | nil => exact fun s hs => hs
  | cons x xs ih =>
      apply bind (hf x List.mem_cons_self)
      exact fun _ => ih fun y hy => hf y (List.mem_cons_of_mem x hy)

/-- A program that does not throw meets any assertion where it throws. -/
theorem never_throws {Q : α → σ → Prop} {p : Prog σ ε α} (h : Meets P p Q fun _ _ => False) :
    Meets P p Q E := h.consequence (fun _ h => h) (fun _ _ h => h) fun _ _ h => h.elim

/-- A contract with one assertion on every exit, from a store that meets its precondition. -/
theorem exit {I : σ → Prop} {p : Prog σ ε α} (h : Meets P p (fun _ => I) (fun _ => I)) {s : σ}
    (hs : P s) : I (p s).2 := by
  have h₁ := h s hs
  rcases hr : p s with ⟨r, s₁⟩
  rw [hr] at h₁
  cases r with
  | ok a => exact h₁
  | error e => exact h₁

/-- The exit of a program that does not throw. -/
theorem exit_total {I : σ → Prop} {p : Prog σ ε α} (h : Meets P p (fun _ => I) fun _ _ => False)
    {s : σ} (hs : P s) : I (p s).2 := (h.never_throws (E := fun _ => I)).exit hs

/-- An invariant is a contract with the same assertion on both exits. -/
theorem of_keeps {I : σ → Prop} {p : Prog σ ε α} (h : Keeps I p) :
    Meets I p (fun _ => I) (fun _ => I) := by
  intro s hs
  have h₁ := h s hs
  rcases hr : p s with ⟨r, s₁⟩
  rw [hr] at h₁
  cases r with
  | ok a => exact h₁
  | error e => exact h₁

end Meets

end Prog

