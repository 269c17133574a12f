import UploadService.Life.ImportFiles

/-!
# Downloads, statement by statement

`uploadFileFromUrl` cut at its awaits: each of its statements may fail, and others may run
between two of them. The saves of the progress write the status, the progress and the error that
the row has in memory, which the saves before and after them write too; they are left out.

Main results:

- `UploadJob.alone_eq`: without failures and interruptions the statements do what
  `uploadFileFromUrl` does.
-/

namespace UploadService

open Prog ReleaseService FileUploadService

variable {env : UploadEnv} {db : UploadDb}

/-- The statement that `uploadFileFromUrl` issues next. -/
inductive UploadPhase where
  | saveUploading
  | get
  | putObject (content : Download)
  /-- the checksum is not the one that is expected -/
  | deleteObjects
  | saveMismatch
  | getObjectStat (content : Download)
  | saveUploaded (content : Download)
  /-- the catch, with the message of the error -/
  | saveFailed (message : String)
  | uploaded
  /-- thrown, with the message of the error -/
  | failed (message : String)
  deriving DecidableEq, Repr

/-- A call of `uploadFileFromUrl`, with what the download gives. -/
structure UploadJob where
  id : ℕ
  fileName : String
  objectKey : String
  bucketName : String
  download : Option Download
  expectedSha256 : Option String
  deriving DecidableEq, Repr

namespace UploadJob

/-- `expectedSha256 && calculatedChecksum !== expectedSha256`. -/
def mismatches (job : UploadJob) (content : Download) : Bool :=
  (truthy job.expectedSha256).any fun sha => sha != content.sha256

/-- The message of a statement that fails. -/
def failureMessage : String := "the statement failed"

/-- One statement of the call; `fails` tells that it is the one that fails. -/
def step (job : UploadJob) (fails : Bool) (db : UploadDb) : UploadPhase → UploadPhase × UploadDb
  | .saveUploading =>
      if fails then (.saveFailed failureMessage, db)
      else (.get, updateFileUpload job.id uploading db)
  | .get => match job.download with
      | none => (.saveFailed "Request failed", db)
      | some content =>
          if fails then (.saveFailed failureMessage, db) else (.putObject content, db)
  | .putObject content =>
      if fails then (.saveFailed failureMessage, db)
      else (if job.mismatches content then .deleteObjects else .getObjectStat content,
        ReleaseService.putObject job.bucketName job.objectKey content db)
  | .deleteObjects =>
      if fails then (.saveFailed failureMessage, db)
      else (.saveMismatch, ReleaseService.deleteObjects job.bucketName job.objectKey db)
  | .saveMismatch =>
      if fails then (.saveFailed failureMessage, db)
      else (.saveFailed s!"Checksum mismatch for file {job.fileName}",
        updateFileUpload job.id (failUpload "Checksum mismatch") db)
  | .getObjectStat content =>
      if fails then (.saveFailed failureMessage, db) else (.saveUploaded content, db)
  | .saveUploaded content =>
      if fails then (.saveFailed failureMessage, db)
      else (.uploaded, updateFileUpload job.id (arrived content) db)
  | .saveFailed message =>
      if fails then (.failed failureMessage, db)
      else (.failed s!"Failed to download or upload file {job.fileName}: {message}",
        updateFileUpload job.id (failUpload message) db)
  | .uploaded => (.uploaded, db)
  | .failed message => (.failed message, db)

/-- The statements that are left, without failures and interruptions. -/
def alone (job : UploadJob) : ℕ → UploadPhase × UploadDb → UploadPhase × UploadDb
  | 0, s => s
  | n + 1, s => alone job n (job.step false s.2 s.1)

/-- What a call that ends is for its caller. -/
def ends : UploadPhase → Except Exception Unit
  | .failed message => .error (.badRequest message)
  | _ => .ok ()

theorem deleteObjects_putObject (bucketName key : String) (content : Download) (db : UploadDb) :
    ReleaseService.deleteObjects bucketName key (ReleaseService.putObject bucketName key content db) =
      ReleaseService.deleteObjects bucketName key db := by
  unfold ReleaseService.deleteObjects ReleaseService.putObject
  dsimp only
  congr 1
  rw [Rows.deleteWhere, List.filter_cons_of_neg (by simp)]
  exact Rows.deleteWhere_idem _ db.storage

/-- **Spec.** Alone, the statements are `uploadFileFromUrl`. -/
theorem alone_eq (job : UploadJob) (db : UploadDb) :
    (ends (job.alone 6 (.saveUploading, db)).1, (job.alone 6 (.saveUploading, db)).2) =
      uploadFileFromUrl job.id job.fileName job.objectKey job.bucketName job.download
        job.expectedSha256 db := by
  unfold uploadFileFromUrl
  cases hdownload : job.download with
  | none =>
      simp only [alone, step, hdownload]
      rfl
  | some content =>
      cases hmismatch : job.mismatches content with
      | true =>
          have hcheck : ((truthy job.expectedSha256).any fun sha => sha != content.sha256) = true :=
            hmismatch
          simp only [alone, step, hdownload, hmismatch, Bool.false_eq_true, if_false, if_true, hcheck,
            deleteObjects_putObject]
          rfl
      | false =>
          have hcheck : ((truthy job.expectedSha256).any fun sha => sha != content.sha256) = false :=
            hmismatch
          simp only [alone, step, hdownload, hmismatch, Bool.false_eq_true, if_false, hcheck]
          rfl

/-- The call has ended. -/
def ended : UploadPhase → Bool
  | .uploaded => true
  | .failed _ => true
  | _ => false

theorem alone_of_ended (job : UploadJob) {phase : UploadPhase} (h : ended phase = true) (n : ℕ)
    (db : UploadDb) : job.alone n (phase, db) = (phase, db) := by
  have hstep : job.step false db phase = (phase, db) := by
    cases phase with
    | uploaded => rfl
    | failed message => rfl
    | saveUploading => cases h
    | get => cases h
    | putObject content => cases h
    | deleteObjects => cases h
    | saveMismatch => cases h
    | getObjectStat content => cases h
    | saveUploaded content => cases h
    | saveFailed message => cases h
  induction n with
  | zero => rfl
  | succ n ih =>
      show job.alone n (job.step false db phase) = _
      rw [hstep]
      exact ih

/-- Six statements are enough. -/
theorem alone_ended (job : UploadJob) (db : UploadDb) :
    ended (job.alone 6 (.saveUploading, db)).1 = true := by
  cases hdownload : job.download with
  | none => simp only [alone, step, hdownload, Bool.false_eq_true, if_false, ended]
  | some content =>
      cases hmismatch : job.mismatches content <;>
        simp only [alone, step, hdownload, hmismatch, Bool.false_eq_true, if_false, if_true, ended]

end UploadJob

end UploadService
