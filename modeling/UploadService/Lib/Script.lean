import Mathlib.Data.List.Basic
import UploadService.Lib.Prog

/-!
# Calls that take turns on one store

`Script σ ε ℓ α` is a call in steps. Each step changes the store at once and goes on with what it
has read; between two steps of a call, steps of other calls may come. A step has a label, which
is known before the step is taken. `exec` runs a call without interruption, as a `Prog`.

A `Protocol` says what a store should satisfy, what a step of each label may do to it, and which
steps may come while another call waits at a step of which label. A call is `Sound` for a protocol
where it keeps to it as long as the others do: before each of its steps it knows something that no
admitted step of another call undoes. A `Pool` is a store with the calls on it.

Main results:

- `exec_bind`, `exec_atomic`: a call without interruption is the program of its steps;
- `Sound.bind`, `Sound.atomic`, `Sound.forEach`: one rule for each combinator;
- `Pool.sound_move`: an admitted move keeps the invariant and all calls sound.
-/

/-- A call in steps, with an exception or a result at its end. -/
inductive Script (σ ε ℓ α : Type) where
  | done (result : Except ε α)
  | step (label : ℓ) (act : σ → σ) (next : σ → Script σ ε ℓ α)

namespace Script

variable {σ ε ℓ α β : Type}

protected def bind : Script σ ε ℓ α → (α → Script σ ε ℓ β) → Script σ ε ℓ β
  | .done (.ok a), f => f a
  | .done (.error e), _ => .done (.error e)
  | .step label act next, f => .step label act fun s => (next s).bind f

instance : Monad (Script σ ε ℓ) where
  pure a := .done (.ok a)
  bind := Script.bind

def throw (e : ε) : Script σ ε ℓ α := .done (.error e)

/-- A program as one step. -/
def atomic (label : ℓ) (p : Prog σ ε α) : Script σ ε ℓ α :=
  .step label (fun s => (p s).2) fun s => .done (p s).1

/-- `for (const x of xs) await f(x)`. -/
def forEach (f : α → Script σ ε ℓ Unit) : List α → Script σ ε ℓ Unit
  | [] => pure ()
  | x :: xs => f x >>= fun _ => forEach f xs

/-- The label of the step that comes next. -/
def waitsAt : Script σ ε ℓ α → Option ℓ
  | .done _ => none
  | .step label _ _ => some label

/-- The next step, where there is one. -/
def advance : Script σ ε ℓ α → σ → Script σ ε ℓ α × σ
  | .done result, s => (.done result, s)
  | .step _ act next, s => (next s, act s)

/-! ### Calls without interruption -/

/-- The steps, one right after the other. -/
def exec : Script σ ε ℓ α → Prog σ ε α
  | .done result => Prog.ofExcept result
  | .step _ act next => fun s => (next s).exec (act s)

@[simp] theorem exec_pure (a : α) : (pure a : Script σ ε ℓ α).exec = pure a := rfl

@[simp] theorem exec_throw (e : ε) : (throw e : Script σ ε ℓ α).exec = Prog.throw e := rfl

@[simp] theorem exec_atomic (label : ℓ) (p : Prog σ ε α) : (atomic label p).exec = p := rfl

@[simp] theorem exec_bind (m : Script σ ε ℓ α) (f : α → Script σ ε ℓ β) :
    (m >>= f).exec = m.exec >>= fun a => (f a).exec := by
  induction m with
  | done result => cases result <;> rfl
  | step label act next ih =>
      funext s
      exact congrFun (ih s) (act s)

@[simp] theorem exec_forEach (f : α → Script σ ε ℓ Unit) (xs : List α) :
    (forEach f xs).exec = Prog.forEach (fun x => (f x).exec) xs := by
  induction xs with
  | nil => rfl
  | cons x xs ih =>
      show (f x >>= fun _ => forEach f xs).exec = _
      rw [exec_bind, ih]
      rfl

end Script

/-! ### Protocols -/

/-- What the calls on a store agree on. -/
structure Protocol (σ ℓ : Type) where
  /-- what every store satisfies -/
  inv : σ → Prop
  /-- what the stores in which a step is taken satisfy as well -/
  ready : σ → Prop
  /-- what a step of a label may do to the store -/
  rel : ℓ → σ → σ → Prop
  /-- whether a step of the first label may come while another call waits at the second -/
  allows : ℓ → ℓ → Prop

namespace Protocol

variable {σ ε ℓ α β : Type} (agreed : Protocol σ ℓ)

/-- What a call knows while it waits at a step of the label: no admitted step undoes it. -/
def Stable (label : ℓ) (P : σ → Prop) : Prop :=
  ∀ other s s', agreed.allows other label → agreed.inv s → agreed.rel other s s' → P s → P s'

/-- From the store the call keeps to the protocol, and where it returns it has led to `Q`. -/
def Sound (Q : α → σ → Prop) : Script σ ε ℓ α → σ → Prop
  | .done result, s => ∀ a, result = .ok a → Q a s
  | .step label act next, s => ∃ P : σ → Prop, P s ∧ agreed.Stable label P ∧
      ∀ s', agreed.inv s' → agreed.ready s' → P s' →
        agreed.rel label s' (act s') ∧ agreed.inv (act s') ∧ Sound Q (next s') (act s')

namespace Sound

variable {agreed} {Q : α → σ → Prop} {s : σ}

theorem pure {a : α} (h : Q a s) : agreed.Sound Q (Pure.pure a : Script σ ε ℓ α) s := by
  intro b hb
  cases hb
  exact h

theorem throw (e : ε) : agreed.Sound Q (Script.throw e : Script σ ε ℓ α) s := nofun

/-- A step, by what the call knows before it. -/
theorem atomic {label : ℓ} {p : Prog σ ε α} (P : σ → Prop) (hs : P s)
    (hstable : agreed.Stable label P)
    (hp : ∀ s', agreed.inv s' → agreed.ready s' → P s' →
      agreed.rel label s' (p s').2 ∧ agreed.inv (p s').2 ∧
        ∀ a, (p s').1 = .ok a → Q a (p s').2) :
    agreed.Sound Q (Script.atomic label p) s := ⟨P, hs, hstable, hp⟩

theorem bind {R : β → σ → Prop} {m : Script σ ε ℓ α} {f : α → Script σ ε ℓ β} (hs : agreed.inv s)
    (hm : agreed.Sound Q m s) (hf : ∀ a s', agreed.inv s' → Q a s' → agreed.Sound R (f a) s') :
    agreed.Sound R (m >>= f) s := by
  induction m generalizing s with
  | done result =>
      cases result with
      | ok a => exact hf a s hs (hm a rfl)
      | error e => exact throw e
  | step label act next ih =>
      obtain ⟨P, hP, hstable, hstep⟩ := hm
      refine ⟨P, hP, hstable, fun s' hs' hready hP' => ?_⟩
      obtain ⟨hrel, hinv, hnext⟩ := hstep s' hs' hready hP'
      exact ⟨hrel, hinv, ih s' hinv hnext⟩

theorem mono {R : α → σ → Prop} {m : Script σ ε ℓ α} (hm : agreed.Sound Q m s)
    (h : ∀ a s', Q a s' → R a s') : agreed.Sound R m s := by
  induction m generalizing s with
  | done result => exact fun a ha => h a s (hm a ha)
  | step label act next ih =>
      obtain ⟨P, hP, hstable, hstep⟩ := hm
      refine ⟨P, hP, hstable, fun s' hs' hready hP' => ?_⟩
      obtain ⟨hrel, hinv, hnext⟩ := hstep s' hs' hready hP'
      exact ⟨hrel, hinv, ih s' hnext⟩

/-- What each round keeps, the loop keeps. -/
theorem forEach {J : σ → Prop} {f : β → Script σ ε ℓ Unit} {xs : List β}
    (hf : ∀ x ∈ xs, ∀ s, agreed.inv s → J s → agreed.Sound (fun _ => J) (f x) s)
    (hs : agreed.inv s) (hJ : J s) : agreed.Sound (fun _ => J) (Script.forEach f xs) s := by
  induction xs generalizing s with
  | nil => exact pure hJ
  | cons x xs ih =>
      refine bind hs (hf x List.mem_cons_self s hs hJ) fun _ s' hs' hJ' => ?_
      exact ih (fun y hy => hf y (List.mem_cons_of_mem x hy)) hs' hJ'

/-- A call that waits stays sound through a step of another. -/
theorem of_rel {c : Script σ ε ℓ α} {s' : σ} {other : ℓ} (hc : agreed.Sound (fun _ _ => True) c s)
    (hs : agreed.inv s) (hallows : ∀ label ∈ c.waitsAt, agreed.allows other label)
    (hrel : agreed.rel other s s') : agreed.Sound (fun _ _ => True) c s' := by
  cases c with
  | done result => exact fun _ _ => trivial
  | step label act next =>
      obtain ⟨P, hP, hstable, hstep⟩ := hc
      exact ⟨P, hstable other s s' (hallows label rfl) hs hrel hP, hstable, hstep⟩

end Sound

end Protocol

/-! ### Pools -/

/-- A store and the calls on it, in the order in which they came. -/
structure Pool (σ ε ℓ α : Type) where
  store : σ
  calls : List (Script σ ε ℓ α)

namespace Pool

variable {σ ε ℓ α : Type}

/-- A call comes, or the call at an index takes its next step. -/
inductive Move (σ ε ℓ α : Type) where
  | start (call : Script σ ε ℓ α)
  | turn (index : ℕ)

/-- The call at the index takes its next step. -/
def turn (p : Pool σ ε ℓ α) (index : ℕ) : Pool σ ε ℓ α :=
  match p.calls[index]? with
  | none => p
  | some call => ⟨(call.advance p.store).2, p.calls.set index (call.advance p.store).1⟩

def move (p : Pool σ ε ℓ α) : Move σ ε ℓ α → Pool σ ε ℓ α
  | .start call => { p with calls := p.calls ++ [call] }
  | .turn index => p.turn index

/-- The call at the index may take its step: no other call waits at a label that forbids it. -/
def InTurn (allows : ℓ → ℓ → Prop) (p : Pool σ ε ℓ α) (index : ℕ) : Prop :=
  ∀ label ∈ p.calls[index]?.bind Script.waitsAt, ∀ other ∈ p.calls.eraseIdx index,
    ∀ waiting ∈ other.waitsAt, allows label waiting

instance (allows : ℓ → ℓ → Prop) [DecidableRel allows] (p : Pool σ ε ℓ α) (index : ℕ) :
    Decidable (InTurn allows p index) :=
  inferInstanceAs (Decidable (∀ label ∈ p.calls[index]?.bind Script.waitsAt,
    ∀ other ∈ p.calls.eraseIdx index, ∀ waiting ∈ other.waitsAt, allows label waiting))

/-- The store satisfies the invariant, and every call keeps to the protocol. -/
def Sound (agreed : Protocol σ ℓ) (p : Pool σ ε ℓ α) : Prop :=
  agreed.inv p.store ∧ ∀ call ∈ p.calls, agreed.Sound (fun _ _ => True) call p.store

/-- A move that the protocol admits: a sound call comes, or a step is taken in turn. -/
def Admitted (agreed : Protocol σ ℓ) (p : Pool σ ε ℓ α) : Move σ ε ℓ α → Prop
  | .start call => ∀ s, agreed.inv s → agreed.Sound (fun _ _ => True) call s
  | .turn index => agreed.ready p.store ∧ p.InTurn agreed.allows index

variable {agreed : Protocol σ ℓ} {p : Pool σ ε ℓ α}

theorem sound_start {call : Script σ ε ℓ α} (h : p.Sound agreed)
    (hcall : ∀ s, agreed.inv s → agreed.Sound (fun _ _ => True) call s) :
    (p.move (.start call)).Sound agreed := by
  refine ⟨h.1, fun c hc => ?_⟩
  rcases List.mem_append.mp hc with hold | hnew
  · exact h.2 c hold
  · obtain rfl := List.mem_singleton.mp hnew
    exact hcall p.store h.1

theorem turn_of_some {call : Script σ ε ℓ α} {index : ℕ} (h : p.calls[index]? = some call) :
    p.turn index = ⟨(call.advance p.store).2, p.calls.set index (call.advance p.store).1⟩ := by
  unfold turn
  rw [h]

/-- The calls after a turn: the one that took its step, and the others. -/
theorem mem_set_or_other {calls : List (Script σ ε ℓ α)} {index : ℕ} {next c : Script σ ε ℓ α}
    (hc : c ∈ calls.set index next) : c = next ∨ c ∈ calls.eraseIdx index := by
  obtain ⟨j, hj⟩ := List.getElem?_of_mem hc
  by_cases heq : j = index
  · subst heq
    rw [List.getElem?_set_self'] at hj
    obtain ⟨_, -, hnext⟩ := Option.map_eq_some_iff.mp hj
    exact .inl hnext.symm
  · rw [List.getElem?_set_ne (Ne.symm heq)] at hj
    exact .inr (List.mem_eraseIdx_iff_getElem?.mpr ⟨j, heq, hj⟩)

theorem sound_turn {index : ℕ} (h : p.Sound agreed) (hready : agreed.ready p.store)
    (hturn : p.InTurn agreed.allows index) : (p.turn index).Sound agreed := by
  cases hcall : p.calls[index]? with
  | none =>
      unfold turn
      rw [hcall]
      exact h
  | some call =>
      have hmem : call ∈ p.calls := List.mem_of_getElem? hcall
      have hothers : ∀ c ∈ p.calls.eraseIdx index, c ∈ p.calls := fun c hc =>
        List.mem_of_mem_eraseIdx hc
      unfold InTurn at hturn
      rw [hcall] at hturn
      rw [turn_of_some hcall]
      cases call with
      | done result =>
          refine ⟨h.1, fun c hc => ?_⟩
          rcases mem_set_or_other hc with rfl | hother
          · exact fun _ _ => trivial
          · exact h.2 c (hothers c hother)
      | step label act next =>
          obtain ⟨P, hP, -, hstep⟩ := h.2 _ hmem
          obtain ⟨hrel, hinv, hnext⟩ := hstep p.store h.1 hready hP
          refine ⟨hinv, fun c hc => ?_⟩
          rcases mem_set_or_other hc with rfl | hother
          · exact hnext
          · exact (h.2 c (hothers c hother)).of_rel h.1 (hturn label rfl c hother) hrel

/-- **Main result.** An admitted move keeps the invariant, and every call to the protocol. -/
theorem sound_move (h : p.Sound agreed) {m : Move σ ε ℓ α} (hm : p.Admitted agreed m) :
    (p.move m).Sound agreed := by
  cases m with
  | start call => exact sound_start h hm
  | turn index => exact sound_turn h hm.1 hm.2

end Pool
