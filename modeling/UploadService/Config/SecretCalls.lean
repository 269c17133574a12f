import UploadService.Config.Secrets
import UploadService.Lib.Runs

/-!
# Concurrent calls on one secret

`storeSecret` and `deleteSecret` fetch the whole secret, change one field of what they fetched
and write the whole back, in a second request. The calls on one secret run interleaved, one
request at a time. A write puts back the siblings as they were when the call fetched them.

Main results:

- `SecretCall.alone_eq`: a call that nothing interrupts does what the client does;
- `siblings_kept_iff_fresh`: in every state of a run the fields are what the calls left there
  exactly where every write finds the siblings that its call fetched.
-/

namespace UploadService

/-! ### The calls -/

/-- A call on the secret of one name. -/
inductive SecretCall where
  | store (field value : String)
  | delete (field : String)
  deriving DecidableEq, Repr

/-- The request that the call issues next, with what it has fetched. -/
inductive SecretPhase where
  | fetch
  | write (existing : Option (List (String × String)))
  | succeeded
  | failed
  deriving DecidableEq, Repr

namespace Vault

/-- The field of the secret. -/
def fieldOf (v : Vault) (name field : String) : Option String :=
  v.valueAt (dataPath v.mountPath name) field

def setPath (name : String) (fields : List (String × String)) (v : Vault) : Vault :=
  { v with secrets := ObjectMap.set v.secrets (dataPath v.mountPath name) fields }

def erasePath (name : String) (v : Vault) : Vault :=
  { v with secrets := ObjectMap.erase v.secrets (dataPath v.mountPath name) }

@[simp] theorem fieldOf_faults (v : Vault) (faults : List (Option String)) (name field : String) :
    ({ v with faults := faults } : Vault).fieldOf name field = v.fieldOf name field := rfl

@[simp] theorem fieldOf_setPath (v : Vault) (name : String) (fields : List (String × String))
    (field : String) : (v.setPath name fields).fieldOf name field = ObjectMap.get? fields field := by
  unfold fieldOf valueAt setPath
  dsimp only
  rw [ObjectMap.get?_set, if_pos rfl, Option.bind_some]

@[simp] theorem fieldOf_erasePath (v : Vault) (name field : String) :
    (v.erasePath name).fieldOf name field = none := by
  unfold fieldOf valueAt erasePath
  dsimp only
  rw [ObjectMap.get?_erase, if_pos rfl, Option.bind_none]

end Vault

namespace SecretCall

open Prog Vault

def field : SecretCall → String
  | store field _ => field
  | delete field => field

/-- What the call leaves under its field. -/
def value : SecretCall → Option String
  | store _ value => some value
  | delete _ => none

/-- `storeSecret` or `deleteSecret`. -/
def perform (name : String) : SecretCall → VaultProg Unit
  | store field value => do
    let _ ← storeSecret name field value
    pure ()
  | delete field => deleteSecret name field

/-- The call up to the answer of its first request. -/
def fetch (name : String) : SecretCall → VaultProg SecretPhase
  | store _ _ => do
    if name = "" then throw (.plain "secretName is required to store a secret in Vault")
    else do
      assertEnabled
      let existing ← fetchRawSecrets name
      pure (.write existing)
  | delete _ => do
    let enabled ← gets Vault.enabled
    if !enabled then pure .succeeded
    else do
      let existing ← fetchRawSecrets name
      pure (if existing.isNone then .succeeded else .write existing)

/-- The call takes the last field away, so that it removes the path. -/
def removesPath (existing : Option (List (String × String))) : SecretCall → Bool
  | store _ _ => false
  | delete field => (ObjectMap.erase (existing.getD []) field).length == 0

/-- The fields that the call writes back. -/
def written (existing : Option (List (String × String))) : SecretCall → List (String × String)
  | store field value => ObjectMap.set (existing.getD []) field value
  | delete field => ObjectMap.erase (existing.getD []) field

/-- What the second request does to the secret. -/
def writeBack (name : String) (existing : Option (List (String × String))) (call : SecretCall) :
    Vault → Vault :=
  if call.removesPath existing then erasePath name else setPath name (call.written existing)

/-- The second request. A removal of the path that fails is only logged. -/
def write (name : String) (existing : Option (List (String × String))) (call : SecretCall) :
    VaultProg SecretPhase := do
  match ← request with
  | some _ => pure (if call.removesPath existing then .succeeded else .failed)
  | none => do
    modify (call.writeBack name existing)
    pure .succeeded

/-- The next request of the call. -/
def next (name : String) (call : SecretCall) (phase : SecretPhase) (v : Vault) : SecretPhase × Vault :=
  let request : VaultProg SecretPhase := match phase with
    | .fetch => call.fetch name
    | .write existing => call.write name existing
    | .succeeded => pure .succeeded
    | .failed => pure .failed
  match request v with
  | (.ok phase', v') => (phase', v')
  | (.error _, v') => (.failed, v')

end SecretCall

structure SecretWorld where
  vault : Vault
  calls : List (SecretCall × SecretPhase)

namespace SecretWorld

/-- All calls before their first request. -/
def start (v : Vault) (calls : List SecretCall) : SecretWorld :=
  ⟨v, calls.map fun call => (call, .fetch)⟩

/-- The next request of the call at the position. -/
def step (name : String) (s : SecretWorld) (i : ℕ) : SecretWorld :=
  match s.calls[i]? with
  | none => s
  | some (call, phase) =>
      let after := call.next name phase s.vault
      ⟨after.2, s.calls.set i (call, after.1)⟩

/-- The call that succeeds with the request. -/
def effect (name : String) (s : SecretWorld) (i : ℕ) : List SecretCall :=
  match s.calls[i]? with
  | none => []
  | some (call, phase) =>
      if phase ≠ .succeeded ∧ (call.next name phase s.vault).1 = .succeeded then [call] else []

end SecretWorld

/-! ### A call alone -/

namespace SecretCall

open Prog Vault

variable {name : String} {v : Vault}

theorem fetchRawSecrets_run (name : String) (v : Vault) :
    fetchRawSecrets name v = (match v.faults.headD none with
      | some detail => .error (.vaultOperation s!"Vault fetchRawSecrets failed: {detail}")
      | none => .ok (ObjectMap.get? v.secrets (dataPath v.mountPath name)),
      { v with faults := v.faults.tail }) := by
  unfold fetchRawSecrets
  rw [bind_run_ok (request_run v)]
  cases v.faults.headD none <;> rfl

/-- **Spec.** The first request of a store. -/
theorem next_fetch_store (name field value : String) (v : Vault) :
    (store field value).next name .fetch v =
      if name = "" ∨ v.enabled = false then (.failed, v)
      else match v.faults.headD none with
        | some _ => (.failed, { v with faults := v.faults.tail })
        | none => (.write (ObjectMap.get? v.secrets (dataPath v.mountPath name)),
            { v with faults := v.faults.tail }) := by
  obtain ⟨enabled, mountPath, secrets, faults⟩ := v
  unfold next fetch
  by_cases hname : name = ""
  · simp only [hname, if_true, true_or]
    rfl
  · simp only [hname, if_false, false_or]
    cases enabled with
    | false => rfl
    | true =>
        simp only [Bool.true_eq_false, if_false]
        rw [bind_run_ok (assertEnabled_run rfl), bind_run, fetchRawSecrets_run]
        dsimp only
        cases faults.headD none <;> rfl

/-- **Spec.** The first request of a delete; a secret that is not there needs no second one. -/
theorem next_fetch_delete (name field : String) (v : Vault) :
    (delete field).next name .fetch v =
      if v.enabled = false then (.succeeded, v)
      else match v.faults.headD none with
        | some _ => (.failed, { v with faults := v.faults.tail })
        | none => (if (ObjectMap.get? v.secrets (dataPath v.mountPath name)).isNone then .succeeded
            else .write (ObjectMap.get? v.secrets (dataPath v.mountPath name)),
            { v with faults := v.faults.tail }) := by
  obtain ⟨enabled, mountPath, secrets, faults⟩ := v
  cases enabled with
  | false => rfl
  | true =>
      unfold next fetch
      simp only [Bool.true_eq_false, if_false]
      rw [gets_bind_run]
      simp only [Bool.not_true, Bool.false_eq_true, if_false]
      rw [bind_run, fetchRawSecrets_run]
      dsimp only
      cases faults.headD none <;> rfl

/-- **Spec.** The second request. -/
theorem next_write (name : String) (call : SecretCall) (existing : Option (List (String × String)))
    (v : Vault) :
    call.next name (.write existing) v = match v.faults.headD none with
      | some _ => (if call.removesPath existing then .succeeded else .failed,
          { v with faults := v.faults.tail })
      | none => (.succeeded, call.writeBack name existing { v with faults := v.faults.tail }) := by
  unfold next write
  dsimp only
  rw [bind_run_ok (request_run v)]
  cases v.faults.headD none <;> rfl

theorem next_succeeded (name : String) (call : SecretCall) (v : Vault) :
    call.next name .succeeded v = (.succeeded, v) := rfl

theorem next_failed (name : String) (call : SecretCall) (v : Vault) :
    call.next name .failed v = (.failed, v) := rfl

/-- The two requests of a call that nothing interrupts. -/
def alone (name : String) (call : SecretCall) (v : Vault) : SecretPhase × Vault :=
  let fetched := call.next name .fetch v
  call.next name fetched.1 fetched.2

/-- **Main result.** A call that nothing interrupts does what the client does. -/
theorem alone_eq (name : String) (call : SecretCall) (v : Vault) :
    call.alone name v =
      (match (call.perform name v).1 with
        | .ok _ => .succeeded
        | .error _ => .failed, (call.perform name v).2) := by
  obtain ⟨enabled, mountPath, secrets, faults⟩ := v
  unfold alone
  cases call with
  | store field value =>
      rw [next_fetch_store]
      unfold perform storeSecret
      by_cases hname : name = ""
      · simp only [hname, if_true, true_or]
        rfl
      · simp only [hname, if_false, false_or]
        cases enabled with
        | false => rfl
        | true =>
            simp only [Bool.true_eq_false, if_false, bind_run, assertEnabled_run, fetchRawSecrets_run]
            cases faults.headD none with
            | some detail => rfl
            | none =>
                dsimp only
                rw [next_write, request_run]
                dsimp only
                cases faults.tail.headD none <;> rfl
  | delete field =>
      cases enabled with
      | false => rfl
      | true =>
          rw [next_fetch_delete]
          unfold perform deleteSecret
          simp only [Bool.true_eq_false, if_false, Bool.not_true, Bool.false_eq_true, bind_run,
            gets_run, fetchRawSecrets_run]
          cases faults.headD none with
          | some detail => rfl
          | none =>
              dsimp only
              cases ObjectMap.get? secrets (dataPath mountPath name) with
              | none => rfl
              | some existing =>
                  simp only [Option.isNone_some, Bool.false_eq_true, if_false]
                  rw [next_write]
                  unfold writeBack removesPath written
                  dsimp only [Option.getD_some]
                  by_cases hrest : (ObjectMap.erase existing field).length = 0
                  · simp only [hrest, if_true, bind_run, request_run, beq_self_eq_true]
                    cases faults.tail.headD none <;> rfl
                  · simp only [hrest, if_false, bind_run, request_run, beq_iff_eq]
                    cases faults.tail.headD none <;> rfl

/-! ### The condition of a step -/

/-- What the calls leave under a field, in the order in which they take effect. -/
def lastValue (field : String) (held : Option String) (calls : List SecretCall) : Option String :=
  calls.foldl (fun held call => if call.field = field then call.value else held) held

/-- The next request of the call does to the secret what the call is for: a write that is
answered finds the siblings that the call fetched, and no delete that takes nothing away
succeeds. -/
def KeepsSiblings (name : String) (v : Vault) (call : SecretCall) : SecretPhase → Prop
  | .fetch => call.value = none → v.enabled = false → v.fieldOf name call.field = none
  | .write existing => match v.faults.headD none with
    | none => ∀ f, f ≠ call.field → ObjectMap.get? (existing.getD []) f = v.fieldOf name f
    | some _ => call.removesPath existing = true → v.fieldOf name call.field = none
  | .succeeded => True
  | .failed => True

/-- The fields after a write that is answered. -/
theorem fieldOf_writeBack (name : String) (existing : Option (List (String × String)))
    (call : SecretCall) (v : Vault) (f : String) :
    (call.writeBack name existing v).fieldOf name f =
      if call.field = f then call.value else ObjectMap.get? (existing.getD []) f := by
  unfold writeBack
  cases call with
  | store field value =>
      show (setPath name (ObjectMap.set (existing.getD []) field value) v).fieldOf name f = _
      rw [fieldOf_setPath, ObjectMap.get?_set]
      show (if f = field then _ else _) = if field = f then _ else _
      simp only [eq_comm]
      rfl
  | delete field =>
      have hrest : ObjectMap.get? (ObjectMap.erase (existing.getD []) field) f =
          if field = f then none else ObjectMap.get? (existing.getD []) f := by
        rw [ObjectMap.get?_erase]
        simp only [eq_comm]
      show _ = if field = f then none else _
      rw [← hrest]
      split
      · rename_i hremoves
        have hnil : ObjectMap.erase (existing.getD []) field = [] := by
          simpa [removesPath] using hremoves
        rw [fieldOf_erasePath, hnil]
        rfl
      · rw [fieldOf_setPath]
        rfl

end SecretCall

namespace SecretWorld

open SecretCall Vault

/-- The effect of one call on the fields of the secret. -/
def applyCall (fields : String → Option String) (call : SecretCall) : String → Option String :=
  fun f => if call.field = f then call.value else fields f

theorem foldl_applyCall (calls : List SecretCall) (fields : String → Option String) (f : String) :
    calls.foldl applyCall fields f = lastValue f (fields f) calls := by
  induction calls generalizing fields with
  | nil => rfl
  | cons call calls ih => exact ih (applyCall fields call)

def KeepsSiblings (name : String) (s : SecretWorld) (i : ℕ) : Prop :=
  match s.calls[i]? with
  | none => True
  | some (call, phase) => call.KeepsSiblings name s.vault phase

/-- **Step.** A request leads the fields on by the call that succeeds with it exactly where it
keeps the siblings. -/
theorem step_iff (name : String) (s : SecretWorld) (i : ℕ) :
    (s.step name i).vault.fieldOf name = (s.effect name i).foldl applyCall (s.vault.fieldOf name) ↔
      s.KeepsSiblings name i := by
  unfold step effect KeepsSiblings
  cases s.calls[i]? with
  | none => exact iff_of_true rfl trivial
  | some entry =>
      obtain ⟨call, phase⟩ := entry
      dsimp only
      -- a request that changes no field and with which the call does not succeed
      have hquiet : ∀ {after : SecretPhase × Vault}, call.next name phase s.vault = after →
          after.2.fieldOf name = s.vault.fieldOf name → after.1 ≠ .succeeded →
          (call.next name phase s.vault).2.fieldOf name =
            (if phase ≠ .succeeded ∧ (call.next name phase s.vault).1 = .succeeded then [call]
              else []).foldl applyCall (s.vault.fieldOf name) := by
        intro after hnext hsame hne
        rw [hnext, hsame, if_neg fun h => hne h.2]
        rfl
      -- one that changes no field and with which the call succeeds
      have hidle : ∀ {after : SecretPhase × Vault}, call.next name phase s.vault = after →
          after.2.fieldOf name = s.vault.fieldOf name → after.1 = .succeeded → phase ≠ .succeeded →
          ((call.next name phase s.vault).2.fieldOf name =
            (if phase ≠ .succeeded ∧ (call.next name phase s.vault).1 = .succeeded then [call]
              else []).foldl applyCall (s.vault.fieldOf name) ↔
            s.vault.fieldOf name call.field = call.value) := by
        intro after hnext hsame hsucceeded hne
        rw [hnext, hsame, if_pos ⟨hne, hsucceeded⟩]
        show s.vault.fieldOf name = applyCall (s.vault.fieldOf name) call ↔ _
        unfold applyCall
        constructor
        · intro h
          have hf := congrFun h call.field
          rw [if_pos rfl] at hf
          exact hf
        · intro h
          funext f
          by_cases hf : call.field = f
          · rw [if_pos hf, ← hf, h]
          · rw [if_neg hf]
      cases phase with
      | succeeded => exact iff_of_true (by rw [if_neg fun h => h.1 rfl]; rfl) trivial
      | failed => exact iff_of_true (hquiet (next_failed name call s.vault) rfl nofun) trivial
      | fetch =>
          cases call with
          | store field value =>
              refine iff_of_true ?_ nofun
              have hnext := next_fetch_store name field value s.vault
              split at hnext
              · exact hquiet hnext rfl nofun
              · split at hnext
                · exact hquiet hnext rfl nofun
                · exact hquiet hnext rfl nofun
          | delete field =>
              have hnext := next_fetch_delete name field s.vault
              split at hnext
              · rename_i hdisabled
                rw [hidle hnext rfl rfl nofun]
                exact ⟨fun h _ _ => h, fun h => h rfl hdisabled⟩
              · rename_i henabled
                have htrue : SecretCall.KeepsSiblings name s.vault (.delete field) .fetch :=
                  fun _ hdisabled => absurd hdisabled henabled
                split at hnext
                · exact iff_of_true (hquiet hnext rfl nofun) htrue
                · split at hnext
                  · -- there is no secret, so that the field is not there either
                    rename_i habsent
                    refine iff_of_true ((hidle hnext rfl rfl nofun).mpr ?_) htrue
                    show s.vault.valueAt _ _ = none
                    unfold valueAt
                    rw [Option.isNone_iff_eq_none.mp habsent]
                    rfl
                  · exact iff_of_true (hquiet hnext rfl nofun) htrue
      | write existing =>
          have hnext := next_write name call existing s.vault
          show _ ↔ (match s.vault.faults.headD none with
            | none => ∀ f, f ≠ call.field → ObjectMap.get? (existing.getD []) f = s.vault.fieldOf name f
            | some _ => call.removesPath existing = true → s.vault.fieldOf name call.field = none)
          cases hfault : s.vault.faults.headD none with
          | some detail =>
              rw [hfault] at hnext
              dsimp only at hnext ⊢
              cases call with
              | store field value => exact iff_of_true (hquiet hnext rfl nofun) nofun
              | delete field =>
                  split at hnext
                  · rename_i hremoves
                    rw [hidle hnext rfl rfl nofun]
                    exact ⟨fun h _ => h, fun h => h hremoves⟩
                  · rename_i hkeeps
                    exact iff_of_true (hquiet hnext rfl nofun) fun h => absurd h hkeeps
          | none =>
              rw [hfault] at hnext
              dsimp only at hnext ⊢
              rw [hnext, if_pos ⟨nofun, rfl⟩]
              show (call.writeBack name existing _).fieldOf name = applyCall _ call ↔ _
              constructor
              · intro h f hf
                have hfield := congrFun h f
                rw [fieldOf_writeBack, if_neg (Ne.symm hf)] at hfield
                rw [hfield]
                exact if_neg (Ne.symm hf)
              · intro h
                funext f
                rw [fieldOf_writeBack]
                unfold applyCall
                by_cases hf : call.field = f
                · rw [if_pos hf, if_pos hf]
                · rw [if_neg hf, if_neg hf, h f (Ne.symm hf)]

/-! ### Runs -/

/-- The calls that take effect, in order. -/
def effects (name : String) (s : SecretWorld) (is : List ℕ) : List SecretCall :=
  Runs.outputs (step name) (effect name) s is

/-- Every field holds what the calls that took effect left there, and these are the calls that
succeeded. -/
structure SiblingsKept (name : String) (v : Vault) (s : SecretWorld) (calls : List SecretCall) :
    Prop where
  fields : ∀ field, s.vault.fieldOf name field = lastValue field (v.fieldOf name field) calls
  succeeded : ∀ call, call ∈ calls ↔ (call, SecretPhase.succeeded) ∈ s.calls

/-- **Step.** With a request its call joins those that succeeded, or none does. -/
theorem mem_effect_iff {name : String} {s : SecretWorld} {done : List SecretCall}
    (h : ∀ call, call ∈ done ↔ (call, SecretPhase.succeeded) ∈ s.calls) (i : ℕ) (call : SecretCall) :
    call ∈ done ++ s.effect name i ↔ (call, SecretPhase.succeeded) ∈ (s.step name i).calls := by
  unfold step effect
  cases hcall : s.calls[i]? with
  | none => simpa using h call
  | some entry =>
      obtain ⟨c, phase⟩ := entry
      dsimp only
      obtain ⟨hi, hget⟩ := List.getElem?_eq_some_iff.mp hcall
      generalize hafter : (c.next name phase s.vault).1 = after
      have hmem : (call, SecretPhase.succeeded) ∈ s.calls.set i (c, after) ↔
          (call = c ∧ after = .succeeded) ∨ ∃ j, j ≠ i ∧ s.calls[j]? = some (call, .succeeded) := by
        rw [List.mem_iff_getElem?]
        constructor
        · rintro ⟨j, hj⟩
          by_cases hji : j = i
          · subst hji
            rw [List.getElem?_set_self hi] at hj
            cases hj
            exact .inl ⟨rfl, rfl⟩
          · rw [List.getElem?_set_ne (Ne.symm hji)] at hj
            exact .inr ⟨j, hji, hj⟩
        · rintro (⟨rfl, rfl⟩ | ⟨j, hji, hj⟩)
          · exact ⟨i, List.getElem?_set_self hi⟩
          · exact ⟨j, by rw [List.getElem?_set_ne (Ne.symm hji)]; exact hj⟩
      have hold : (call, SecretPhase.succeeded) ∈ s.calls ↔
          (call = c ∧ phase = .succeeded) ∨ ∃ j, j ≠ i ∧ s.calls[j]? = some (call, .succeeded) := by
        rw [List.mem_iff_getElem?]
        constructor
        · rintro ⟨j, hj⟩
          by_cases hji : j = i
          · subst hji
            rw [hcall] at hj
            cases hj
            exact .inl ⟨rfl, rfl⟩
          · exact .inr ⟨j, hji, hj⟩
        · rintro (⟨rfl, rfl⟩ | ⟨j, -, hj⟩)
          · exact ⟨i, hcall⟩
          · exact ⟨j, hj⟩
      rw [List.mem_append, h call, hold, hmem]
      by_cases hphase : phase = .succeeded
      · -- a call that succeeded stays so
        subst hphase
        rw [next_succeeded] at hafter
        subst hafter
        simp
      · by_cases hsucceeded : after = .succeeded
        · rw [if_pos ⟨hphase, hsucceeded⟩, List.mem_singleton]
          simp only [hphase, hsucceeded, and_false, false_or, and_true]
          exact or_comm
        · rw [if_neg fun h => hsucceeded h.2]
          simp [hphase, hsucceeded]

theorem mem_effects_iff (name : String) (v : Vault) (calls : List SecretCall) (is : List ℕ)
    (call : SecretCall) : call ∈ effects name (start v calls) is ↔
      (call, SecretPhase.succeeded) ∈ (Runs.run (step name) (start v calls) is).calls := by
  have hstep : ∀ (done : List SecretCall) (s : SecretWorld) (i : ℕ),
      (∀ call, call ∈ done ↔ (call, SecretPhase.succeeded) ∈ s.calls) → True →
      ∀ call, call ∈ done ++ s.effect name i ↔ (call, SecretPhase.succeeded) ∈ (s.step name i).calls :=
    fun done s i h _ => mem_effect_iff h i
  have hstart : ∀ call, call ∈ [] ↔ (call, SecretPhase.succeeded) ∈ (start v calls).calls := by
    simp [start]
  have hrun := Runs.outputs_along hstep hstart
    (Runs.along_of_forall (step name) (fun _ _ _ => trivial) _ : Runs.Along _ _ _ is)
  exact hrun call

/-- **Main result.** In every state of a run of concurrent calls on one secret, each field holds
what the calls that succeeded left there, and every other field what it held, exactly where every
request keeps the siblings. -/
theorem siblings_kept_iff_fresh (name : String) (v : Vault) (calls : List SecretCall) (is : List ℕ) :
    (∀ done, done <+: is → SiblingsKept name v (Runs.run (step name) (start v calls) done)
      (effects name (start v calls) done)) ↔
    Runs.Along (step name) (KeepsSiblings name) (start v calls) is := by
  have hserial := Runs.along_iff_serial (step name) (effect name) (fun s => s.vault.fieldOf name)
    applyCall (start v calls) is
  have hsteps : Runs.Along (step name) (fun s i => (s.step name i).vault.fieldOf name =
      (s.effect name i).foldl applyCall (s.vault.fieldOf name)) (start v calls) is ↔
      Runs.Along (step name) (KeepsSiblings name) (start v calls) is :=
    ⟨Runs.Along.mono fun s i => (step_iff name s i).mp,
      Runs.Along.mono fun s i => (step_iff name s i).mpr⟩
  rw [← hsteps, ← hserial]
  constructor
  · intro h done hdone
    funext f
    rw [foldl_applyCall]
    exact (h done hdone).fields f
  · intro h done hdone
    refine ⟨fun f => ?_, mem_effects_iff name v calls done⟩
    rw [← foldl_applyCall]
    exact congrFun (h done hdone) f

/-- Two calls that store a field each; the second fetched before the first wrote. -/
theorem first_field_lost :
    (Runs.run (step "git") (start ⟨true, "secret", [], []⟩ [.store "user" "eve", .store "token" "t"])
        [0, 1, 0, 1]).calls =
      [(.store "user" "eve", .succeeded), (.store "token" "t", .succeeded)] ∧
    (Runs.run (step "git") (start ⟨true, "secret", [], []⟩ [.store "user" "eve", .store "token" "t"])
        [0, 1, 0, 1]).vault.fieldOf "git" "user" = none ∧
    ¬ SiblingsKept "git" ⟨true, "secret", [], []⟩
      (Runs.run (step "git")
        (start ⟨true, "secret", [], []⟩ [.store "user" "eve", .store "token" "t"]) [0, 1, 0, 1])
      (effects "git" (start ⟨true, "secret", [], []⟩ [.store "user" "eve", .store "token" "t"])
        [0, 1, 0, 1]) := by
  refine ⟨by decide, by decide, fun h => ?_⟩
  exact absurd (h.fields "user") (by decide)

end SecretWorld

end UploadService
