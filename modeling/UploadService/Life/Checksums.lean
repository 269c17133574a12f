import UploadService.Life.Downloads
import UploadService.Life.SyncPass
import UploadService.Life.TotalRuns

/-!
# An upload and what its object sets off

A download that brings another content than expected is put into the bucket, deleted, and recorded
in its row as an error. The bucket reports the put and the delete, late or more than once, and
passes of the storage synchronisation look at the row meanwhile. Each of these goes on statement by
statement, and none looks at what the row holds when it writes. What a pass writes to releases is
left out: no statement here reads it.

Main results:

- `created_alone`, `digest_alone`: a handling that is not interrupted does what `updateUploadFile`
  and `processAndSaveFile` do;
- `looked_alone`: a pass that is not interrupted leaves the row as `synced` says.
-/

namespace UploadService

open Prog ReleaseService FileUploadService

variable {env : UploadEnv} {cosign : Bool} {db : UploadDb} {key : String}

/-- The next statement of something that handles an object key. -/
inductive KeyTask where
  /-- `updateUploadFile` for a created object -/
  | created (size : Option ℕ)
  /-- it has read the row -/
  | notify (size : Option ℕ)
  /-- the event `fileCreated` -/
  | emit
  /-- `updateUploadFile` for a removed object -/
  | removed
  /-- `processAndSaveFile` -/
  | digest (calculateSha256 : Bool)
  /-- it has found the row, and read the object -/
  | save (id : ℕ) (calculateSha256 : Bool) (stored : StoredObject)
  /-- a pass of the synchronisation has read the row -/
  | looked (file : FileUpload)
  /-- the object is there, and its digest is looked at -/
  | compares (file : FileUpload)
  | restores (id : ℕ)
  | marks (id : ℕ)
  deriving DecidableEq

namespace KeyTask

/-- The file uploads after the update of a notification. -/
def written (file : UpdateFileUploadDto) (db : UploadDb) : UploadDb :=
  { db with
    fileUploads := Rows.updateWhere (fun f => f.objectKey == file.objectKey) (notified file)
      db.fileUploads }

/-- One statement: what is left to do, and the state. -/
def step (env : UploadEnv) (cosign : Bool) (key : String) (db : UploadDb) :
    KeyTask → List KeyTask × UploadDb
  | created size => match Rows.findKey FileUpload.objectKey key db.fileUploads with
      | none => ([], db)
      | some existingFile =>
          let needsSha256 := (truthy existingFile.sha256).isNone
          (notify size :: if needsSha256 || cosign then [digest needsSha256] else [], db)
  | notify size =>
      if db.fileUploads.any fun f => f.objectKey == key then
        ([emit], written ⟨key, .uploaded, size⟩ db)
      else ([], db)
  | emit => ([], (onFileChange (some key) db).2)
  | removed => ([], (updateUploadFile (removedFile key) db).2)
  | digest calculateSha256 => match Rows.findKey FileUpload.objectKey key db.fileUploads,
        db.getObjectStat env.bucketName key with
      | some file, some stored => ([save file.id calculateSha256 stored], db)
      | _, _ => ([], db)
  | save id calculateSha256 stored =>
      (if calculateSha256 && stored.sha256.isSome then [emit] else [],
        updateFileUpload id (processed calculateSha256 stored) db)
  | looked file => match UploadDb.statOf env db file with
      | none => (if file.status == .uploaded then [marks file.id] else [], db)
      | some _ =>
          (if file.status == .removed then
            if (truthy file.sha256).isSome then [compares file] else [restores file.id]
          else [], db)
  | compares file => match UploadDb.statOf env db file with
      | none => ([], db)
      | some stored => (if isRestored file stored then [restores file.id] else [], db)
  | restores id => ([], updateFileUpload id repaired db)
  | marks id => ([], updateFileUpload id markMissing db)

/-- The statements that are left of these, one after the other. -/
def alone (env : UploadEnv) (cosign : Bool) (key : String) : ℕ → List KeyTask → UploadDb → UploadDb
  | 0, _, db => db
  | _, [], db => db
  | n + 1, task :: rest, db =>
      let next := task.step env cosign key db
      alone env cosign key n (next.1 ++ rest) next.2

/-- **Spec.** Alone, the handling of a created object is `updateUploadFile`. -/
theorem created_alone (size : Option ℕ) :
    alone env cosign key 3 [created size] db = (updateUploadFile ⟨key, .uploaded, size⟩ db).2 := by
  cases hfind : Rows.findKey FileUpload.objectKey key db.fileUploads with
  | none =>
      have hmissing : ¬ ∃ f ∈ db.fileUploads, f.objectKey = key := by
        rw [← findKey_isSome, hfind]
        exact Bool.false_ne_true
      rw [updateUploadFile_missing hmissing]
      simp only [alone, step, hfind, List.append_nil]
  | some file =>
      have hthere : ∃ f ∈ db.fileUploads, f.objectKey = key := by
        rw [← findKey_isSome, hfind]
        rfl
      have hany : (db.fileUploads.any fun f => f.objectKey == key) = true := by
        obtain ⟨f, hf, hkey⟩ := hthere
        exact List.any_eq_true.mpr ⟨f, hf, by simpa using hkey⟩
      rw [@updateUploadFile_eq ⟨key, .uploaded, size⟩ (.inl rfl) db hthere]
      simp only [alone, step, hfind, hany, if_true, List.cons_append, List.nil_append]
      rfl

/-- **Spec.** Alone, the computation of a digest is `processAndSaveFile`. -/
theorem digest_alone (calculateSha256 : Bool) :
    alone env cosign key 3 [digest calculateSha256] db =
      (processAndSaveFile env key calculateSha256 db).2 := by
  unfold processAndSaveFile
  rw [gets_bind_run]
  cases hfind : Rows.findKey FileUpload.objectKey key db.fileUploads with
  | none => simp only [alone, step, hfind, List.append_nil, pure_run]
  | some file =>
      dsimp only
      rw [gets_bind_run]
      cases hstat : db.getObjectStat env.bucketName key with
      | none => simp only [alone, step, hfind, hstat, List.append_nil, throw_run]
      | some stored =>
          simp only [alone, step, hfind, hstat, List.append_nil, modify_bind_run]
          cases calculateSha256 && stored.sha256.isSome with
          | true => rfl
          | false => rfl

/-- **Spec.** Alone, a pass makes of the row what `synced` says. -/
theorem looked_alone (file : FileUpload) :
    alone env cosign key 3 [looked file] db =
      if file.status == .uploaded && isMissing env db file then updateFileUpload file.id markMissing db
      else if comesBack env db file then updateFileUpload file.id repaired db
      else db := by
  unfold isMissing comesBack isRestored
  cases hstat : UploadDb.statOf env db file with
  | none =>
      cases huploaded : file.status == .uploaded with
      | true => simp only [alone, step, hstat, huploaded, if_true, List.append_nil, Option.isNone_none,
          Bool.and_self]
      | false => simp [alone, step, hstat, huploaded]
  | some stored =>
      cases hremoved : file.status == .removed with
      | false => simp [alone, step, hstat, hremoved]
      | true =>
          cases hsha : truthy file.sha256 with
          | none => simp [alone, step, hstat, hremoved, hsha]
          | some sha =>
              by_cases hsame : (stored.sha256 == some sha) = true
              · simp [alone, step, hstat, hremoved, hsha, isRestored, hsame]
              · simp [alone, step, hstat, hremoved, hsha, isRestored, hsame]

end KeyTask

end UploadService
