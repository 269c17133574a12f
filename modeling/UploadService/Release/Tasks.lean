import UploadService.Lib.Runs
import UploadService.Release.Service

/-!
# Pending tasks

The calls a handler has started and not waited for run after it, one at a time and
in any order; a task may start further ones.
-/

namespace UploadService

def PendingTask.run (env : UploadEnv) : PendingTask → UploadProg Unit
  | refreshReleaseState projectId version =>
      ReleaseService.refreshReleaseState env projectId version
  | maybeRestoreReleasedStatus catalogId => FileUploadService.maybeRestoreReleasedStatus catalogId

/-- Takes the task at the position out and runs it. -/
def UploadDb.runPending (env : UploadEnv) (db : UploadDb) (i : ℕ) : UploadDb :=
  match db.pending[i]? with
  | none => db
  | some task => (task.run env { db with pending := db.pending.eraseIdx i }).2

/-- Runs pending tasks, chosen by their positions in turn. -/
def UploadDb.drain (env : UploadEnv) (db : UploadDb) (choices : List ℕ) : UploadDb :=
  Runs.run (UploadDb.runPending env) db choices

end UploadService
