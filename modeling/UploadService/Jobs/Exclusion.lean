import UploadService.Jobs.SafeCron
import UploadService.Lib.Runs

/-!
# Mutual exclusion of a job

At most one instance should have the lock of a job at a time, and a heartbeat or a release should
change only the row of its own lock. The lock is taken by a check and an insert, which are two
statements; it is found again as the row with the latest start time; and a heartbeat that was
started under a lock may come to its update after the lock was released.

Main results:

- `findLastJob_held`: where an instance has the lock, the latest row is its own;
- `step_inv`: every step keeps the invariant, where an insert comes while its check still holds,
  and an update of a heartbeat while its lock is held;
- `exclusion_along_runs`: the locks exclude each other along every such run.
-/

namespace UploadService

namespace SafeCron

variable {ι : Type} {rows : List (Job ι)} {clock : ℕ} {owner : ι} {id : ℕ}

/-! ### What the lock should guarantee -/

/-- No two instances have the lock. -/
def MutualExclusion (s : CronState ι) : Prop :=
  ∀ i j, (s.phase i).lock ≠ none → (s.phase j).lock ≠ none → i = j

/-- The instance that takes the step, and the lock under which it does. -/
def Action.lockOf (s : CronState ι) : Action ι → Option (ι × ℕ)
  | .advance owner => (s.phase owner).lock.map fun id => (owner, id)
  | .beat index => s.beats[index]?.map fun b => (b.owner, b.lock)
  | .tick _ | .fire _ => none

/-! ### Conditions on a run -/

/-- Heartbeats are on time: no lock that is held has expired. A release counts as long as its update
has not been made. -/
def OnTime (s : CronState ι) : Prop :=
  ∀ i, ∀ id ∈ (s.phase i).lock, ∀ row ∈ s.rows, row.id = id → isLockExpired s.clock row = false

/-- An insert comes while its check still holds: the latest row is not running, and the start time
of the new row is later. -/
def InsertsInTime (s : CronState ι) (startTime : ℕ) : Prop :=
  admitsStart s.rows s.nextId (stored startTime) = true →
    isJobRunning s.clock (findLastJob s.rows) = false ∧
      ∀ row ∈ s.rows, row.startTime < stored startTime

/-- The start time of the row that the instance is about to insert. -/
def Phase.insertsAt : Phase ι → Option ℕ
  | inserting startTime => some startTime
  | _ => none

/-- The heartbeat is about to make its update. -/
def BeatPhase.isUpdating : BeatPhase ι → Bool
  | updating _ => true
  | _ => false

/-- A step of the run comes in time: an insert, and the update of a heartbeat, while the lock under
which its interval fired is held. -/
def InTime (s : CronState ι) : Action ι → Prop
  | .advance owner => ∀ startTime ∈ (s.phase owner).insertsAt, InsertsInTime s startTime
  | .beat index => ∀ b ∈ s.beats[index]?, b.phase.isUpdating = true →
      (s.phase b.owner).lock = some b.lock
  | .tick _ | .fire _ => True

instance (s : CronState ι) (startTime : ℕ) : Decidable (InsertsInTime s startTime) :=
  inferInstanceAs (Decidable (_ → _ ∧ ∀ row ∈ s.rows, _))

instance (s : CronState ι) : (a : Action ι) → Decidable (InTime s a)
  | .advance owner => inferInstanceAs (Decidable (∀ startTime ∈ (s.phase owner).insertsAt, _))
  | .beat index => inferInstanceAs (Decidable (∀ b ∈ s.beats[index]?, _ → _))
  | .tick _ | .fire _ => .isTrue trivial

instance (s : CronState Bool) : Decidable (OnTime s) :=
  inferInstanceAs (Decidable (∀ i, ∀ id ∈ (s.phase i).lock, ∀ row ∈ s.rows, _ → _))

/-! ### The row of a lock -/

/-- The other rows start before the second. -/
def Above (rows : List (Job ι)) (id second : ℕ) : Prop :=
  ∀ row ∈ rows, row.id ≠ id → row.startTime < second

/-- The row is the one by which the instance has the lock: it is not ended, and it is the latest. -/
def Held (rows : List (Job ι)) (clock : ℕ) (owner : ι) (id : ℕ) : Prop :=
  ∃ row ∈ rows, row.id = id ∧ row.endTime = none ∧ row.insertedBy = some owner ∧
    row.startTime ≤ stored clock ∧ Above rows id row.startTime

theorem stored_mono {a b : ℕ} (h : a ≤ b) : stored a ≤ stored b := by
  unfold stored
  omega

theorem Held.mono {clock' : ℕ} (h : Held rows clock owner id) (hclock : clock ≤ clock') :
    Held rows clock' owner id := by
  obtain ⟨row, hrow, hid, hend, hby, hstart, habove⟩ := h
  exact ⟨row, hrow, hid, hend, hby, hstart.trans (stored_mono hclock), habove⟩

/-- Two locks are held by one row, and by one instance. -/
theorem Held.unique {owner' : ι} {id' : ℕ} (hkeys : Rows.KeysDistinct Job.id rows)
    (h : Held rows clock owner id) (h' : Held rows clock owner' id') : id = id' ∧ owner = owner' := by
  obtain ⟨row, hrow, hid, -, hby, -, habove⟩ := h
  obtain ⟨row', hrow', hid', -, hby', -, habove'⟩ := h'
  have hsame : id = id' := by
    by_contra hne
    have h₁ := habove row' hrow' (by rw [hid']; exact fun heq => hne heq.symm)
    have h₂ := habove' row hrow (by rw [hid]; exact hne)
    omega
  refine ⟨hsame, ?_⟩
  have hrows : row = row' := hkeys.eq_of_mem hrow hrow' (by rw [hid, hid', hsame])
  rw [hrows, hby'] at hby
  exact (Option.some.inj hby).symm

/-! ### Updates -/

theorem mem_applyUpdate {update : JobUpdate} {row : Job ι} (hrow : row ∈ applyUpdate update rows) :
    row ∈ rows ∨ ∃ old ∈ rows, old.id = update.id ∧ row = { old with
      startTime := update.startTime.getD old.startTime
      endTime := update.endTime.getD old.endTime } := by
  unfold applyUpdate at hrow
  split at hrow
  · rcases Rows.mem_updateWhere.mp hrow with ⟨old, hold, hid, rfl⟩ | ⟨hrow, -⟩
    · exact .inr ⟨old, hold, by simpa using hid, rfl⟩
    · exact .inl hrow
  · exact .inl hrow

/-- The rows of other ids stay. -/
theorem mem_applyUpdate_other {update : JobUpdate} {row : Job ι} (hne : row.id ≠ update.id) :
    row ∈ applyUpdate update rows ↔ row ∈ rows := by
  unfold applyUpdate
  split
  · rw [Rows.mem_updateWhere]
    constructor
    · rintro (⟨old, -, hid, rfl⟩ | ⟨hrow, -⟩)
      · exact absurd (by simpa using hid) hne
      · exact hrow
    · intro hrow
      exact .inr ⟨hrow, by simpa using hne⟩
  · exact Iff.rfl

theorem applyUpdate_keys (update : JobUpdate) (hkeys : Rows.KeysDistinct Job.id rows) :
    Rows.KeysDistinct Job.id (applyUpdate update rows) := by
  unfold applyUpdate
  split
  · exact hkeys.updateWhere fun row _ _ => rfl
  · exact hkeys

theorem above_applyUpdate {update : JobUpdate} (hid : update.id = id) (second : ℕ) :
    Above (applyUpdate update rows) id second ↔ Above rows id second := by
  unfold Above
  constructor
  · intro h row hrow hne
    exact h row ((mem_applyUpdate_other (by rw [hid]; exact hne)).mpr hrow) hne
  · intro h row hrow hne
    exact h row ((mem_applyUpdate_other (by rw [hid]; exact hne)).mp hrow) hne

/-- **Step.** The update of a heartbeat moves the start time of its row, which stays the latest. -/
theorem Held.applyUpdate {update : JobUpdate} (h : Held rows clock owner id)
    (hid : update.id = id) (hend : ∀ endTime ∈ update.endTime, endTime = none)
    (hstart : ∀ second ∈ update.startTime, Above rows id second ∧ second ≤ stored clock) :
    Held (applyUpdate update rows) clock owner id := by
  obtain ⟨row, hrow, hrowid, hrowend, hby, hrowstart, habove⟩ := h
  by_cases hadmits : (update.startTime.all fun startTime =>
      admitsStart rows update.id startTime) = true
  · refine ⟨{ row with
        startTime := update.startTime.getD row.startTime
        endTime := update.endTime.getD row.endTime }, ?_, hrowid, ?_, hby, ?_, ?_⟩
    · unfold SafeCron.applyUpdate
      rw [if_pos hadmits]
      refine Rows.mem_updateWhere.mpr (.inl ⟨row, hrow, ?_, rfl⟩)
      rw [hrowid, hid, beq_self_eq_true]
    · show update.endTime.getD row.endTime = none
      cases hupdate : update.endTime with
      | none => exact hrowend
      | some endTime => exact hend endTime hupdate
    · show update.startTime.getD row.startTime ≤ stored clock
      cases hupdate : update.startTime with
      | none => exact hrowstart
      | some second => exact (hstart second hupdate).2
    · show Above _ id (update.startTime.getD row.startTime)
      rw [above_applyUpdate hid]
      cases hupdate : update.startTime with
      | none => exact habove
      | some second => exact (hstart second hupdate).1
  · have hsame : SafeCron.applyUpdate update rows = rows := by
      unfold SafeCron.applyUpdate
      rw [if_neg hadmits]
    rw [hsame]
    exact ⟨row, hrow, hrowid, hrowend, hby, hrowstart, habove⟩

/-! ### The invariant -/

/-- What an instance knows of the rows. -/
def PhaseOk (s : CronState ι) (owner : ι) : Phase ι → Prop
  | .idle | .judging _ | .creating => True
  | .inserting startTime => startTime ≤ s.clock
  | .holding id | .releasing id => Held s.rows s.clock owner id
  | .ending id lastJob => Held s.rows s.clock owner id ∧ lastJob.id = id
  | .selecting id entity => Held s.rows s.clock owner id ∧ entity.id = id
  | .updating id update => Held s.rows s.clock owner id ∧ update.id = id

/-- What a heartbeat knows of the rows, while its lock is held. -/
def BeatOk (s : CronState ι) (lock : ℕ) : BeatPhase ι → Prop
  | .checking | .judging _ | .finding => True
  | .found lastJob => ∀ job ∈ lastJob, job.id = lock ∧ Above s.rows lock job.startTime ∧
      job.startTime ≤ stored s.clock
  | .selecting entity => entity.id = lock ∧ entity.endTime = none ∧
      Above s.rows lock (stored entity.startTime) ∧ entity.startTime ≤ s.clock
  | .updating update => update.id = lock ∧ (∀ endTime ∈ update.endTime, endTime = none) ∧
      ∀ second ∈ update.startTime, Above s.rows lock second ∧ second ≤ stored s.clock

/-- A heartbeat is one of a lock that was acquired. -/
def BeatInv (s : CronState ι) (b : Beat ι) : Prop :=
  b.lock < s.nextId ∧ ((s.phase b.owner).lock = some b.lock → BeatOk s b.lock b.phase)

structure Inv (s : CronState ι) : Prop where
  keys : Rows.KeysDistinct Job.id s.rows
  fresh : ∀ row ∈ s.rows, row.id < s.nextId
  phases : ∀ i, PhaseOk s i (s.phase i)
  beats : ∀ b ∈ s.beats, BeatInv s b

variable {s : CronState ι}

theorem PhaseOk.held {p : Phase ι} (h : PhaseOk s owner p) (hlock : p.lock = some id) :
    Held s.rows s.clock owner id := by
  cases p with
  | idle | judging | creating | inserting => cases hlock
  | holding i | releasing i =>
      obtain rfl := Option.some.inj hlock
      exact h
  | ending i | selecting i | updating i =>
      obtain rfl := Option.some.inj hlock
      exact h.1

theorem Inv.held (h : Inv s) (hlock : (s.phase owner).lock = some id) :
    Held s.rows s.clock owner id := (h.phases owner).held hlock

/-- **Step.** The invariant excludes two locks. -/
theorem Inv.exclusion (h : Inv s) : MutualExclusion s := by
  intro i j hi hj
  obtain ⟨id, hi⟩ := Option.ne_none_iff_exists'.mp hi
  obtain ⟨id', hj⟩ := Option.ne_none_iff_exists'.mp hj
  exact ((h.held hi).unique h.keys (h.held hj)).2

/-- While an instance has the lock, the others are without. -/
theorem Inv.others_free (h : Inv s) (hlock : (s.phase owner).lock = some id) {j : ι}
    (hj : j ≠ owner) : (s.phase j).lock = none := by
  by_contra hne
  exact hj (h.exclusion j owner hne (by rw [hlock]; exact Option.some_ne_none _))

/-- What is known without the lock is known whatever the rows are. -/
theorem PhaseOk.of_free {s' : CronState ι} {p : Phase ι} (h : PhaseOk s owner p)
    (hfree : p.lock = none) (hclock : s.clock ≤ s'.clock) : PhaseOk s' owner p := by
  cases p with
  | idle | judging | creating => trivial
  | inserting startTime => exact Nat.le_trans h hclock
  | holding | releasing | ending | selecting | updating => cases hfree

theorem PhaseOk.mono {p : Phase ι} (h : PhaseOk s owner p) {s' : CronState ι}
    (hrows : s'.rows = s.rows) (hclock : s.clock ≤ s'.clock) : PhaseOk s' owner p := by
  cases p with
  | idle | judging | creating => trivial
  | inserting startTime => exact Nat.le_trans h hclock
  | holding id | releasing id =>
      show Held s'.rows s'.clock owner id
      rw [hrows]
      exact Held.mono h hclock
  | ending id lastJob =>
      refine ⟨?_, h.2⟩
      rw [hrows]
      exact h.1.mono hclock
  | selecting id entity =>
      refine ⟨?_, h.2⟩
      rw [hrows]
      exact h.1.mono hclock
  | updating id update =>
      refine ⟨?_, h.2⟩
      rw [hrows]
      exact h.1.mono hclock

theorem BeatOk.mono {lock : ℕ} {p : BeatPhase ι} (h : BeatOk s lock p) {s' : CronState ι}
    (habove : ∀ second, Above s.rows lock second → Above s'.rows lock second)
    (hclock : s.clock ≤ s'.clock) : BeatOk s' lock p := by
  have hstored := stored_mono hclock
  cases p with
  | checking | judging | finding => trivial
  | found lastJob =>
      intro job hjob
      obtain ⟨hid, hold, hstart⟩ := h job hjob
      exact ⟨hid, habove _ hold, hstart.trans hstored⟩
  | selecting entity =>
      obtain ⟨hid, hend, hold, hstart⟩ := h
      exact ⟨hid, hend, habove _ hold, hstart.trans hclock⟩
  | updating update =>
      obtain ⟨hid, hend, hstart⟩ := h
      refine ⟨hid, hend, fun second hsecond => ?_⟩
      exact ⟨habove _ (hstart second hsecond).1, (hstart second hsecond).2.trans hstored⟩

/-! ### Steps of the clock and of heartbeats -/

theorem tick_inv (h : Inv s) (milliseconds : ℕ) :
    Inv { s with clock := s.clock + milliseconds } where
  keys := h.keys
  fresh := h.fresh
  phases := fun i => (h.phases i).mono rfl (Nat.le_add_right _ _)
  beats := fun b hb => ⟨(h.beats b hb).1, fun hlock =>
    ((h.beats b hb).2 hlock).mono (fun _ habove => habove) (Nat.le_add_right _ _)⟩

theorem setBeats_inv (h : Inv s) {beats : List (Beat ι)}
    (hbeats : ∀ b ∈ beats, b ∈ s.beats ∨ BeatInv s b) : Inv { s with beats := beats } where
  keys := h.keys
  fresh := h.fresh
  phases := fun i => (h.phases i).mono rfl (Nat.le_refl _)
  beats := by
    intro b hb
    have hinv : BeatInv s b := (hbeats b hb).elim (h.beats b) id
    exact ⟨hinv.1, fun hlock => (hinv.2 hlock).mono (fun _ habove => habove) (Nat.le_refl _)⟩

/-- The update of a heartbeat of a lock that is held. -/
theorem beat_inv (h : Inv s) {id : ℕ} (hlock : (s.phase owner).lock = some id)
    {update : JobUpdate} (hok : BeatOk s id (.updating update)) :
    Inv { s with rows := applyUpdate update s.rows } := by
  obtain ⟨hid, hend, hstart⟩ := hok
  have hheld : Held (applyUpdate update s.rows) s.clock owner id :=
    (h.held hlock).applyUpdate hid hend hstart
  refine { keys := applyUpdate_keys update h.keys, fresh := ?_, phases := ?_, beats := ?_ }
  · intro row hrow
    rcases mem_applyUpdate hrow with hrow | ⟨old, hold, -, rfl⟩
    · exact h.fresh row hrow
    · exact h.fresh old hold
  · intro i
    by_cases hi : (s.phase i).lock = none
    · exact (h.phases i).of_free hi (Nat.le_refl _)
    · -- the instance that has the lock
      obtain rfl := h.exclusion i owner hi (by rw [hlock]; exact Option.some_ne_none _)
      have hknown := h.phases i
      cases hphase : s.phase i with
      | idle | judging | creating | inserting =>
          rw [hphase] at hlock
          cases hlock
      | holding j | releasing j =>
          rw [hphase] at hlock
          obtain rfl := Option.some.inj hlock
          exact hheld
      | ending j lastJob =>
          rw [hphase] at hlock hknown
          obtain rfl := Option.some.inj hlock
          exact ⟨hheld, hknown.2⟩
      | selecting j entity =>
          rw [hphase] at hlock hknown
          obtain rfl := Option.some.inj hlock
          exact ⟨hheld, hknown.2⟩
      | updating j write =>
          rw [hphase] at hlock hknown
          obtain rfl := Option.some.inj hlock
          exact ⟨hheld, hknown.2⟩
  · intro b hb
    refine ⟨(h.beats b hb).1, fun hbheld => ?_⟩
    have hsame : b.lock = id := by
      have hunique := (h.held hbheld).unique h.keys (h.held hlock)
      exact hunique.1
    refine ((h.beats b hb).2 hbheld).mono (fun second habove => ?_) (Nat.le_refl _)
    show Above (applyUpdate update s.rows) b.lock second
    rw [above_applyUpdate (hid.trans hsame.symm)]
    exact habove

/-! ### Steps of an instance -/

variable [DecidableEq ι]

/-- **Step.** Where an instance has the lock, `findLastJob` finds its row. -/
theorem findLastJob_held (hkeys : Rows.KeysDistinct Job.id rows) (h : Held rows clock owner id) :
    ∃ row ∈ rows, findLastJob rows = some row ∧ row.id = id ∧ row.endTime = none ∧
      row.insertedBy = some owner ∧ row.startTime ≤ stored clock ∧ Above rows id row.startTime := by
  obtain ⟨row, hrow, hid, hend, hby, hstart, habove⟩ := h
  refine ⟨row, hrow, ?_, hid, hend, hby, hstart, habove⟩
  have hother : ∀ x ∈ rows, x = row ∨ x.startTime < row.startTime := by
    intro x hx
    by_cases hxid : x.id = id
    · exact .inl (hkeys.eq_of_mem hx hrow (hxid.trans hid.symm))
    · exact .inr (habove x hx hxid)
  show rows.argmax Job.startTime = some row
  rw [List.argmax_eq_some_iff]
  refine ⟨hrow, fun x hx => ?_, fun x hx hle => ?_⟩
  · rcases hother x hx with rfl | hlt
    · exact Nat.le_refl _
    · exact hlt.le
  · rcases hother x hx with rfl | hlt
    · exact Nat.le_refl _
    · exact absurd hle (Nat.not_le.mpr hlt)

/-- The step of an instance that gives it no lock. -/
theorem setPhase_inv (h : Inv s) {p : Phase ι} (hok : PhaseOk s owner p)
    (hlock : ∀ id, p.lock = some id → (s.phase owner).lock = some id) :
    Inv { s with phase := Function.update s.phase owner p } where
  keys := h.keys
  fresh := h.fresh
  phases := by
    intro i
    show PhaseOk _ i (Function.update s.phase owner p i)
    by_cases hi : i = owner
    · rw [hi, Function.update_self]
      exact hok.mono rfl (Nat.le_refl _)
    · rw [Function.update_of_ne hi]
      exact (h.phases i).mono rfl (Nat.le_refl _)
  beats := by
    intro b hb
    refine ⟨(h.beats b hb).1, fun hb' => ?_⟩
    have hold : (s.phase b.owner).lock = some b.lock := by
      by_cases hi : b.owner = owner
      · rw [hi]
        apply hlock
        rw [← hb', hi]
        exact (congrArg Phase.lock (Function.update_self owner p s.phase)).symm
      · rw [← hb']
        exact (congrArg Phase.lock (Function.update_of_ne hi p s.phase)).symm
    exact ((h.beats b hb).2 hold).mono (fun _ habove => habove) (Nat.le_refl _)

/-- The update of a release: afterwards no instance has the lock. -/
theorem release_inv (h : Inv s) {id : ℕ} {update : JobUpdate}
    (hphase : s.phase owner = .updating id update) :
    Inv { s with
      rows := applyUpdate update s.rows
      phase := Function.update s.phase owner .idle } := by
  have hlock : (s.phase owner).lock = some id := by
    rw [hphase]
    rfl
  have hfree : ∀ i, (Function.update s.phase owner .idle i).lock = none := by
    intro i
    by_cases hi : i = owner
    · rw [hi, Function.update_self]
      rfl
    · rw [Function.update_of_ne hi]
      exact h.others_free hlock hi
  refine { keys := applyUpdate_keys update h.keys, fresh := ?_, phases := ?_, beats := ?_ }
  · intro row hrow
    rcases mem_applyUpdate hrow with hrow | ⟨old, hold, -, rfl⟩
    · exact h.fresh row hrow
    · exact h.fresh old hold
  · intro i
    show PhaseOk _ i (Function.update s.phase owner .idle i)
    by_cases hi : i = owner
    · rw [hi, Function.update_self]
      trivial
    · rw [Function.update_of_ne hi]
      exact (h.phases i).of_free (h.others_free hlock hi) (Nat.le_refl _)
  · intro b hb
    refine ⟨(h.beats b hb).1, fun hheld => ?_⟩
    have hnone := hfree b.owner
    change (Function.update s.phase owner .idle b.owner).lock = some b.lock at hheld
    rw [hnone] at hheld
    cases hheld

/-- Where a check still holds, nobody has the lock. -/
theorem free_of_notRunning (h : Inv s) (htime : OnTime s)
    (hnot : isJobRunning s.clock (findLastJob s.rows) = false) (i : ι) :
    (s.phase i).lock = none := by
  cases hlock : (s.phase i).lock with
  | none => rfl
  | some id =>
      exfalso
      obtain ⟨row, hrow, hfind, hid, hend, -⟩ := findLastJob_held h.keys (h.held hlock)
      have hfresh := htime i id hlock row hrow hid
      rw [hfind] at hnot
      change (!isLockExpired s.clock row && row.endTime.isNone) = false at hnot
      rw [hfresh, hend] at hnot
      cases hnot

/-- The insert of an instance, where its check still holds. -/
theorem insert_inv (h : Inv s) (htime : OnTime s) {startTime : ℕ}
    (hphase : s.phase owner = .inserting startTime) (hlast : InsertsInTime s startTime) :
    Inv { (insertJob owner startTime s).2 with
      phase := Function.update s.phase owner (insertJob owner startTime s).1 } := by
  have hknown : startTime ≤ s.clock := by
    have hok := h.phases owner
    rw [hphase] at hok
    exact hok
  unfold insertJob
  split
  · rename_i hadmits
    obtain ⟨hnot, hlater⟩ := hlast hadmits
    have hfree := free_of_notRunning h htime hnot
    have hheld : Held (s.rows ++ [⟨s.nextId, stored startTime, none, some owner⟩]) s.clock owner
        s.nextId := by
      refine ⟨⟨s.nextId, stored startTime, none, some owner⟩, by simp, rfl, rfl, rfl,
        stored_mono hknown, fun row hrow hne => ?_⟩
      rcases List.mem_append.mp hrow with hrow | hrow
      · exact hlater row hrow
      · exact absurd (by rw [List.mem_singleton.mp hrow]) hne
    refine { keys := ?_, fresh := ?_, phases := ?_, beats := ?_ }
    · exact h.keys.append_new fun row hrow => (h.fresh row hrow).ne
    · intro row hrow
      rcases List.mem_append.mp hrow with hrow | hrow
      · exact Nat.lt_succ_of_lt (h.fresh row hrow)
      · rw [List.mem_singleton.mp hrow]
        exact Nat.lt_succ_self _
    · intro i
      show PhaseOk _ i (Function.update s.phase owner (.holding s.nextId) i)
      by_cases hi : i = owner
      · rw [hi, Function.update_self]
        exact hheld
      · rw [Function.update_of_ne hi]
        exact (h.phases i).of_free (hfree i) (Nat.le_refl _)
    · intro b hb
      have hold := (h.beats b hb).1
      refine ⟨Nat.lt_succ_of_lt hold, fun hbheld => ?_⟩
      -- the lock is new, and no heartbeat was started under it
      exfalso
      change (Function.update s.phase owner (.holding s.nextId) b.owner).lock = some b.lock at hbheld
      by_cases hi : b.owner = owner
      · rw [hi, Function.update_self] at hbheld
        have heq : s.nextId = b.lock := Option.some.inj hbheld
        omega
      · rw [Function.update_of_ne hi, hfree] at hbheld
        cases hbheld
  · exact setPhase_inv h trivial nofun

/-! ### Every step -/

/-- What a heartbeat knows after its next step, while its lock is held. -/
theorem stepBeat_ok (h : Inv s) {lock : ℕ} (hheld : Held s.rows s.clock owner lock)
    {p p' : BeatPhase ι} (hok : BeatOk s lock p) (hstep : (stepBeat s p).1 = some p') :
    BeatOk s lock p' := by
  obtain ⟨row, -, hfind, hid, hend, -, hstart, habove⟩ := findLastJob_held h.keys hheld
  cases p with
  | checking =>
      obtain rfl := Option.some.inj hstep
      trivial
  | judging lastJob =>
      change (if isJobRunning s.clock lastJob = true then some BeatPhase.finding else none) = _ at hstep
      split at hstep
      · obtain rfl := Option.some.inj hstep
        trivial
      · cases hstep
  | finding =>
      obtain rfl := Option.some.inj hstep
      intro job hjob
      rw [hfind] at hjob
      obtain rfl := Option.some.inj hjob
      exact ⟨hid, habove, hstart⟩
  | found lastJob =>
      cases lastJob with
      | none => cases hstep
      | some job =>
          change (if job.endTime.isNone = true then some (BeatPhase.selecting ⟨job.id, s.clock, none⟩)
            else none) = _ at hstep
          split at hstep
          · obtain rfl := Option.some.inj hstep
            obtain ⟨hjob, hjobAbove, hjobStart⟩ := hok job rfl
            refine ⟨hjob, rfl, fun x hx hne => ?_, Nat.le_refl _⟩
            exact (hjobAbove x hx hne).trans_le hjobStart
          · cases hstep
  | selecting entity =>
      obtain rfl := Option.some.inj hstep
      obtain ⟨hentity, hnone, hentityAbove, hentityStart⟩ := hok
      refine ⟨hentity, fun endTime hendTime => ?_, fun second hsecond => ?_⟩
      · change endTime ∈ (if _ then none else some (entity.endTime.map stored)) at hendTime
        split at hendTime
        · cases hendTime
        · obtain rfl := Option.some.inj hendTime
          rw [hnone]
          rfl
      · change second ∈ (if _ then none else some (stored entity.startTime)) at hsecond
        split at hsecond
        · cases hsecond
        · obtain rfl := Option.some.inj hsecond
          exact ⟨hentityAbove, stored_mono hentityStart⟩
  | updating update => cases hstep

omit [DecidableEq ι] in
/-- A heartbeat that writes no row. -/
theorem stepBeat_rows {p : BeatPhase ι} (hp : ∀ update, p ≠ .updating update) :
    (stepBeat s p).2 = s := by
  cases p with
  | checking | judging | finding | selecting => rfl
  | found lastJob => cases lastJob <;> rfl
  | updating update => exact absurd rfl (hp update)

theorem advance_eq {p : Phase ι} (hphase : s.phase owner = p) :
    s.step (.advance owner) = { (stepPhase owner s p).2 with
      phase := Function.update s.phase owner (stepPhase owner s p).1 } := by
  rw [← hphase]
  rfl

/-- **Step.** The step of an instance keeps the invariant. -/
theorem advance_inv (h : Inv s) (htime : OnTime s) (hin : InTime s (.advance owner)) :
    Inv (s.step (.advance owner)) := by
  have hok := h.phases owner
  cases hphase : s.phase owner with
  | idle =>
      rw [advance_eq hphase]
      exact setPhase_inv h trivial nofun
  | judging lastJob =>
      rw [advance_eq hphase]
      show Inv { s with phase := Function.update s.phase owner (if _ then .idle else .creating) }
      split
      · exact setPhase_inv h trivial nofun
      · exact setPhase_inv h trivial nofun
  | creating =>
      rw [advance_eq hphase]
      exact setPhase_inv h (Nat.le_refl s.clock) nofun
  | inserting startTime =>
      rw [advance_eq hphase]
      apply insert_inv h htime hphase
      apply hin
      rw [hphase]
      rfl
  | holding id =>
      have hlock : (s.phase owner).lock = some id := congrArg Phase.lock hphase
      rw [advance_eq hphase]
      exact setPhase_inv h (h.held hlock) fun id' hid' => hlock.trans hid'
  | releasing id =>
      have hlock : (s.phase owner).lock = some id := congrArg Phase.lock hphase
      obtain ⟨row, -, hfind, hid, -⟩ := findLastJob_held h.keys (h.held hlock)
      have hstep : stepPhase owner s (.releasing id) = (.ending id row, s) := by
        unfold stepPhase
        rw [hfind]
      rw [advance_eq hphase, hstep]
      exact setPhase_inv h ⟨h.held hlock, hid⟩ fun id' hid' => hlock.trans hid'
  | ending id lastJob =>
      have hlock : (s.phase owner).lock = some id := congrArg Phase.lock hphase
      rw [hphase] at hok
      rw [advance_eq hphase]
      exact setPhase_inv h ⟨h.held hlock, hok.2⟩ fun id' hid' => hlock.trans hid'
  | selecting id entity =>
      have hlock : (s.phase owner).lock = some id := congrArg Phase.lock hphase
      rw [hphase] at hok
      rw [advance_eq hphase]
      exact setPhase_inv h ⟨h.held hlock, hok.2⟩ fun id' hid' => hlock.trans hid'
  | updating id update =>
      rw [advance_eq hphase]
      exact release_inv h hphase

theorem beat_eq {index : ℕ} {b : Beat ι} (hbeat : s.beats[index]? = some b) :
    s.step (.beat index) = { (stepBeat s b.phase).2 with
      beats := match (stepBeat s b.phase).1 with
        | some phase => s.beats.set index { b with phase := phase }
        | none => s.beats.eraseIdx index } := by
  unfold CronState.step
  dsimp only
  split
  · rename_i hnone
    rw [hbeat] at hnone
    cases hnone
  · rename_i b' hfound
    obtain rfl := Option.some.inj (hbeat.symm.trans hfound)
    rfl

theorem beat_none {index : ℕ} (hbeat : s.beats[index]? = none) : s.step (.beat index) = s := by
  unfold CronState.step
  dsimp only
  rw [hbeat]

/-- **Step.** The step of a heartbeat keeps the invariant. -/
theorem stepBeat_inv (h : Inv s) {index : ℕ} (hin : InTime s (.beat index)) :
    Inv (s.step (.beat index)) := by
  cases hbeat : s.beats[index]? with
  | none =>
      rw [beat_none hbeat]
      exact h
  | some b =>
      have hmem : b ∈ s.beats := List.mem_of_getElem? hbeat
      obtain ⟨hlt, hknown⟩ := h.beats b hmem
      rw [beat_eq hbeat]
      by_cases hwrites : ∃ update, b.phase = .updating update
      · obtain ⟨update, hphase⟩ := hwrites
        have hheld : (s.phase b.owner).lock = some b.lock := hin b hbeat (by rw [hphase]; rfl)
        have hwritten := hknown hheld
        rw [hphase] at hwritten ⊢
        have hinv := beat_inv h hheld hwritten
        exact setBeats_inv hinv fun x hx => .inl (List.mem_of_mem_eraseIdx hx)
      · have hsame : (stepBeat s b.phase).2 = s :=
          stepBeat_rows fun update hupdate => hwrites ⟨update, hupdate⟩
        rw [hsame]
        apply setBeats_inv h
        intro x hx
        cases hnext : (stepBeat s b.phase).1 with
        | none =>
            rw [hnext] at hx
            exact .inl (List.mem_of_mem_eraseIdx hx)
        | some phase =>
            rw [hnext] at hx
            rcases List.mem_or_eq_of_mem_set hx with hx | rfl
            · exact .inl hx
            · right
              exact ⟨hlt, fun hheld => stepBeat_ok h (h.held hheld) (hknown hheld) hnext⟩

/-- **Step.** A step that comes in time keeps the invariant. -/
theorem step_inv (h : Inv s) {a : Action ι} (htime : OnTime s) (hin : InTime s a) :
    Inv (s.step a) := by
  cases a with
  | tick milliseconds => exact tick_inv h milliseconds
  | advance owner => exact advance_inv h htime hin
  | beat index => exact stepBeat_inv h hin
  | fire owner =>
      unfold CronState.step
      dsimp only
      cases hphase : s.phase owner with
      | holding id =>
          apply setBeats_inv h
          intro b hb
          rcases List.mem_append.mp hb with hb | hb
          · exact .inl hb
          · right
            rw [List.mem_singleton.mp hb]
            obtain ⟨row, hrow, hid, -⟩ := h.held (congrArg Phase.lock hphase)
            refine ⟨?_, fun _ => trivial⟩
            show id < s.nextId
            rw [← hid]
            exact h.fresh row hrow
      | idle | judging | creating | inserting | releasing | ending | selecting | updating => exact h

/-! ### Whose row a step changes -/

/-- A step changes only rows that its own instance inserted, and of those only the row of the lock
under which it is taken. -/
def ChangesOwnRow (s : CronState ι) (a : Action ι) : Prop :=
  ∀ row ∈ s.rows, row ∈ (s.step a).rows ∨
    ∃ owner, a.lockOf s = some (owner, row.id) ∧ row.insertedBy = some owner

omit [DecidableEq ι] in
/-- An update by the id of a lock that is held. -/
theorem applyUpdate_own (h : Inv s) {lock : ℕ} (hheld : Held s.rows s.clock owner lock)
    {update : JobUpdate} (hid : update.id = lock) :
    ∀ row ∈ s.rows, row ∈ applyUpdate update s.rows ∨
      row.id = lock ∧ row.insertedBy = some owner := by
  intro row hrow
  by_cases hrowid : row.id = lock
  · obtain ⟨own, hown, hownid, -, hby, -⟩ := hheld
    right
    rw [h.keys.eq_of_mem hrow hown (hrowid.trans hownid.symm)]
    exact ⟨hownid, hby⟩
  · left
    exact (mem_applyUpdate_other (by rw [hid]; exact hrowid)).mpr hrow

theorem step_changesOwnRow (h : Inv s) {a : Action ι} (hin : InTime s a) : ChangesOwnRow s a := by
  intro row hrow
  cases a with
  | tick milliseconds => exact .inl hrow
  | fire owner =>
      left
      unfold CronState.step
      dsimp only
      cases s.phase owner <;> exact hrow
  | advance owner =>
      have hok := h.phases owner
      cases hphase : s.phase owner with
      | idle | judging | creating | holding | ending | selecting =>
          left
          rw [advance_eq hphase]
          exact hrow
      | releasing id =>
          left
          rw [advance_eq hphase]
          unfold stepPhase
          dsimp only
          cases findLastJob s.rows <;> exact hrow
      | inserting startTime =>
          left
          rw [advance_eq hphase]
          show row ∈ (insertJob owner startTime s).2.rows
          unfold insertJob
          split
          · exact List.mem_append_left _ hrow
          · exact hrow
      | updating id update =>
          rw [hphase] at hok
          rw [advance_eq hphase]
          rcases applyUpdate_own h hok.1 hok.2 row hrow with hkept | ⟨hid, hby⟩
          · exact .inl hkept
          · right
            refine ⟨owner, ?_, hby⟩
            show (s.phase owner).lock.map _ = _
            rw [hphase, hid]
            rfl
  | beat index =>
      cases hbeat : s.beats[index]? with
      | none =>
          left
          rw [beat_none hbeat]
          exact hrow
      | some b =>
          obtain ⟨lockOwner, lock, phase⟩ := b
          have hrows : (s.step (.beat index)).rows = (stepBeat s phase).2.rows := by
            rw [beat_eq hbeat]
          rw [hrows]
          by_cases hwrites : ∃ update, phase = .updating update
          · obtain ⟨update, rfl⟩ := hwrites
            have hheld : (s.phase lockOwner).lock = some lock := hin _ hbeat rfl
            have hknown := (h.beats _ (List.mem_of_getElem? hbeat)).2 hheld
            rcases applyUpdate_own h (h.held hheld) hknown.1 row hrow with hkept | ⟨hid, hby⟩
            · exact .inl hkept
            · right
              refine ⟨lockOwner, ?_, hby⟩
              show Option.map _ s.beats[index]? = _
              rw [hbeat, hid]
              rfl
          · left
            rw [stepBeat_rows fun update hupdate => hwrites ⟨update, hupdate⟩]
            exact hrow

/-! ### Runs -/

/-- No instance has started, whatever rows there are. -/
structure Initial (s : CronState ι) : Prop where
  keys : Rows.KeysDistinct Job.id s.rows
  fresh : ∀ row ∈ s.rows, row.id < s.nextId
  idle : ∀ i, s.phase i = .idle
  silent : s.beats = []

omit [DecidableEq ι] in
theorem Initial.inv (h : Initial s) : Inv s where
  keys := h.keys
  fresh := h.fresh
  phases := fun i => by
    rw [h.idle i]
    trivial
  beats := fun b hb => by
    rw [h.silent] at hb
    cases hb

/-- **Main result.** Along every run in which heartbeats are on time, inserts come while their check
still holds, and updates of heartbeats while their lock is held: no two instances have the lock, and
heartbeats and releases change only the row of their own lock. -/
theorem exclusion_along_runs (s : CronState ι) (hs : Initial s) (actions : List (Action ι))
    (h : Runs.Along CronState.step (fun s a => OnTime s ∧ InTime s a) s actions) :
    MutualExclusion (Runs.run CronState.step s actions) ∧
      Runs.Along CronState.step (fun s a => MutualExclusion s ∧ ChangesOwnRow s a) s actions := by
  have hstep : ∀ (s : CronState ι) a, Inv s → OnTime s ∧ InTime s a → Inv (s.step a) :=
    fun s a hinv hC => step_inv hinv hC.1 hC.2
  constructor
  · exact (Runs.invariant_along hstep hs.inv h).exclusion
  · apply Runs.along_of_invariant hstep _ hs.inv h
    exact fun s a hinv hC => ⟨hinv.exclusion, step_changesOwnRow hinv hC.2⟩

/-! ### Two instances -/

/-- Two instances, and no rows. -/
def twoInstances : CronState Bool := ⟨[], 1, 0, fun _ => .idle, []⟩

theorem twoInstances_initial : Initial twoInstances where
  keys := by decide
  fresh := by decide
  idle := by decide
  silent := rfl

/-- One instance acquires the lock, and after four minutes its heartbeat moves the start time; it
releases the lock, and the other instance acquires it. -/
def inTurn : List (Action Bool) :=
  List.replicate 4 (.advance false) ++ [.tick 240000, .fire false] ++ List.replicate 6 (.beat 0) ++
    [.tick 100000] ++ List.replicate 5 (.advance false) ++ List.replicate 4 (.advance true)

/-- In turn, both run. -/
theorem inTurn_excludes :
    MutualExclusion (Runs.run CronState.step twoInstances inTurn) ∧
      Runs.Along CronState.step (fun s a => MutualExclusion s ∧ ChangesOwnRow s a) twoInstances
        inTurn := by
  apply exclusion_along_runs twoInstances twoInstances_initial inTurn
  decide

/-- Both instances check before either inserts, and their start times are two seconds apart. -/
def raced : List (Action Bool) :=
  [.advance false, .advance true, .advance false, .advance true, .advance false, .advance false,
    .tick 2000, .advance true, .advance true]

/-- Both have the lock, with no heartbeat due, and the first to finish ends the row of the other. -/
theorem raced_instances_overlap :
    Initial twoInstances ∧
    Runs.Along CronState.step (fun s _ => OnTime s) twoInstances
      (raced ++ List.replicate 5 (.advance false)) ∧
    ¬ MutualExclusion (Runs.run CronState.step twoInstances raced) ∧
    ¬ ChangesOwnRow (Runs.run CronState.step twoInstances
      (raced ++ List.replicate 4 (.advance false))) (.advance false) := by
  refine ⟨twoInstances_initial, by decide, fun hexcludes => ?_, fun hown => ?_⟩
  · cases hexcludes false true (by decide) (by decide)
  · rcases hown ⟨2, 2, none, some true⟩ (by decide) with hkept | ⟨owner, hlock, -⟩
    · revert hkept
      decide
    · have hfirst : Action.lockOf (Runs.run CronState.step twoInstances
          (raced ++ List.replicate 4 (.advance false))) (.advance false) = some (false, 1) := by decide
      rw [hfirst] at hlock
      cases hlock

end SafeCron

end UploadService
