import Mathlib.Data.List.MinMax
import Mathlib.Logic.Function.Basic
import UploadService.Lib.Rows

/-!
# Jobs that run on one instance at a time

`SafeCronService` with the decorator `TimeoutRepeatTask`: every instance of the service tries to
acquire the lock of the job, which is a row of `cron_job_time_management` without an end time,
runs the task, and releases the lock. While the task runs, a heartbeat moves the start time of the
row every four minutes, so that the lock does not expire.

Several instances run on one database. Every query, every update and every look at the clock is a
step of its own, and the steps of the instances and of their heartbeats come in any order. All
instances share a clock, in milliseconds, that does not go back; the columns keep seconds.

Only the rows of the job are in the model: each query names the job, and the unique constraint
relates no rows of different names. Failures of the database other than a violated constraint, and
the release on shutdown, are left out.
-/

namespace UploadService

namespace SafeCron

variable {ι : Type}

/-! ### Rows and entities -/

/-- A row of `cron_job_time_management` with the name of the job, times in seconds. -/
structure Job (ι : Type) where
  id : ℕ
  startTime : ℕ
  endTime : Option ℕ
  /-- the instance that inserted the row, which is not a column -/
  insertedBy : Option ι
  deriving DecidableEq, Repr

/-- A row in memory, times in milliseconds. -/
structure JobEntity where
  id : ℕ
  startTime : ℕ
  endTime : Option ℕ
  deriving DecidableEq, Repr

/-- An update of a row: the columns that are written. -/
structure JobUpdate where
  id : ℕ
  startTime : Option ℕ
  endTime : Option (Option ℕ)
  deriving DecidableEq, Repr

/-- `timestamptz` with precision 0: a time is rounded to the nearest second. -/
def stored (time : ℕ) : ℕ := (time + 500) / 1000

/-- The time of a stored second, `getTime()`. -/
def getTime (second : ℕ) : ℕ := 1000 * second

/-- `LOCK_TIMEOUT_MS`. -/
def lockTimeoutMs : ℕ := 5 * 60 * 1000

/-! ### Queries -/

/-- `findLastJob`: `ORDER BY start_time DESC`, the first row. -/
def findLastJob (rows : List (Job ι)) : Option (Job ι) := rows.argmax Job.startTime

/-- `Date.now() - startTime.getTime() > LOCK_TIMEOUT_MS`. -/
def isLockExpired (now : ℕ) (job : Job ι) : Bool :=
  decide (lockTimeoutMs < now - getTime job.startTime)

/-- `isJobRunning`, from the row that was found. -/
def isJobRunning (now : ℕ) : Option (Job ι) → Bool
  | none => false
  | some lastJob => !isLockExpired now lastJob && lastJob.endTime.isNone

/-- `start_time_job_name_unique_constraint` admits the time for the row. -/
def admitsStart (rows : List (Job ι)) (id startTime : ℕ) : Bool :=
  !rows.any fun row => row.id != id && row.startTime == startTime

/-- `save` of an entity with an id first selects the row, to find the changed columns. -/
def changedColumns (rows : List (Job ι)) (entity : JobEntity) : JobUpdate :=
  let row := Rows.findKey Job.id entity.id rows
  { id := entity.id
    startTime :=
      if row.map (fun r => getTime r.startTime) = some entity.startTime then none
      else some (stored entity.startTime)
    endTime :=
      if row.map (fun r => r.endTime.map getTime) = some entity.endTime then none
      else some (entity.endTime.map stored) }

/-- The update of the changed columns; a violated constraint leaves the row. -/
def applyUpdate (update : JobUpdate) (rows : List (Job ι)) : List (Job ι) :=
  if (update.startTime.all fun startTime => admitsStart rows update.id startTime) then
    Rows.updateWhere (fun row => row.id == update.id)
      (fun row => { row with
        startTime := update.startTime.getD row.startTime
        endTime := update.endTime.getD row.endTime }) rows
  else rows

/-! ### Instances -/

/-- Where an instance is in `acquireLock`, the task and `releaseLock`. -/
inductive Phase (ι : Type) where
  | idle
  /-- `findLastJob` of `acquireLock` has answered -/
  | judging (lastJob : Option (Job ι))
  /-- the job is not running: the row is about to get its start time -/
  | creating
  | inserting (startTime : ℕ)
  /-- the lock is acquired, by the row -/
  | holding (id : ℕ)
  /-- `releaseLock` is called -/
  | releasing (id : ℕ)
  | ending (id : ℕ) (lastJob : Job ι)
  | selecting (id : ℕ) (entity : JobEntity)
  | updating (id : ℕ) (update : JobUpdate)
  deriving DecidableEq, Repr

/-- The row by which the instance has the lock, until its release is written. -/
def Phase.lock : Phase ι → Option ℕ
  | holding id | releasing id | ending id _ | selecting id _ | updating id _ => some id
  | _ => none

/-- Where a heartbeat is in `updateJobStartTime`. -/
inductive BeatPhase (ι : Type) where
  | checking
  | judging (lastJob : Option (Job ι))
  | finding
  | found (lastJob : Option (Job ι))
  | selecting (entity : JobEntity)
  | updating (update : JobUpdate)
  deriving DecidableEq, Repr

/-- A heartbeat that runs. -/
structure Beat (ι : Type) where
  owner : ι
  /-- the lock under which the interval fired -/
  lock : ℕ
  phase : BeatPhase ι
  deriving DecidableEq, Repr

structure CronState (ι : Type) where
  rows : List (Job ι)
  nextId : ℕ
  clock : ℕ
  phase : ι → Phase ι
  beats : List (Beat ι)

/-! ### Steps -/

/-- The rows without and with a new one, and what the instance makes of it. -/
def insertJob (owner : ι) (startTime : ℕ) (s : CronState ι) : Phase ι × CronState ι :=
  if admitsStart s.rows s.nextId (stored startTime) then
    (.holding s.nextId, { s with
      rows := s.rows ++ [⟨s.nextId, stored startTime, none, some owner⟩]
      nextId := s.nextId + 1 })
  else (.idle, s)

/-- The next step of an instance. -/
def stepPhase (owner : ι) (s : CronState ι) : Phase ι → Phase ι × CronState ι
  | .idle => (.judging (findLastJob s.rows), s)
  | .judging lastJob => (if isJobRunning s.clock lastJob then .idle else .creating, s)
  | .creating => (.inserting s.clock, s)
  | .inserting startTime => insertJob owner startTime s
  | .holding id => (.releasing id, s)
  | .releasing id => match findLastJob s.rows with
    | none => (.idle, s)
    | some lastJob => (.ending id lastJob, s)
  | .ending id lastJob =>
      (.selecting id ⟨lastJob.id, getTime lastJob.startTime, some s.clock⟩, s)
  | .selecting id entity => (.updating id (changedColumns s.rows entity), s)
  | .updating _ update => (.idle, { s with rows := applyUpdate update s.rows })

/-- The next step of a heartbeat; `none` where it ends. -/
def stepBeat (s : CronState ι) : BeatPhase ι → Option (BeatPhase ι) × CronState ι
  | .checking => (some (.judging (findLastJob s.rows)), s)
  | .judging lastJob => (if isJobRunning s.clock lastJob then some .finding else none, s)
  | .finding => (some (.found (findLastJob s.rows)), s)
  | .found none => (none, s)
  | .found (some lastJob) =>
      (if lastJob.endTime.isNone then some (.selecting ⟨lastJob.id, s.clock, none⟩) else none, s)
  | .selecting entity => (some (.updating (changedColumns s.rows entity)), s)
  | .updating update => (none, { s with rows := applyUpdate update s.rows })

inductive Action (ι : Type) where
  /-- the clock goes on -/
  | tick (milliseconds : ℕ)
  /-- the instance takes its next step -/
  | advance (owner : ι)
  /-- the interval of the instance fires, while its task runs -/
  | fire (owner : ι)
  /-- a heartbeat takes its next step -/
  | beat (index : ℕ)
  deriving DecidableEq, Repr

variable [DecidableEq ι]

def CronState.step (s : CronState ι) : Action ι → CronState ι
  | .tick milliseconds => { s with clock := s.clock + milliseconds }
  | .advance owner =>
      let next := stepPhase owner s (s.phase owner)
      { next.2 with phase := Function.update s.phase owner next.1 }
  | .fire owner => match s.phase owner with
    | .holding id => { s with beats := s.beats ++ [⟨owner, id, .checking⟩] }
    | _ => s
  | .beat index => match s.beats[index]? with
    | none => s
    | some b =>
        let next := stepBeat s b.phase
        { next.2 with beats := match next.1 with
            | some phase => s.beats.set index { b with phase := phase }
            | none => s.beats.eraseIdx index }

end SafeCron

end UploadService
