import UploadService.Release.Store

/-!
# File uploads and the object storage

`FileUploadService`: the rows behind upload URLs, the check of files against the
object storage, and the recovery of releases whose files came back.

A release that was released before and whose files are all healthy is promoted back
to `RELEASED` by `maybeRestoreReleasedStatus`; nothing but the files is checked there.
-/

namespace UploadService

namespace FileUploadService

open Prog

/-- `STORAGE_MISSING_ERROR_PREFIX`. -/
def storageMissingErrorPrefix : String := "[storage-sync] "

/-- `createObjectKey` for a request with an object key that is not empty. -/
def createObjectKey (userId objectKey fileName : String) : String :=
  let suffix := if objectKey.toList.getLast? = some '/' then "" else "/"
  s!"upload/{userId}/{objectKey}{suffix}{fileName}"

/-- A row of a new file upload: the column defaults. -/
def newFileUpload (id : ℕ) (fileName userId objectKey bucketName : String) : FileUpload where
  id := id
  fileName := fileName
  userId := userId
  objectKey := objectKey
  status := .pending
  bucketName := bucketName
  size := none
  sha256 := none
  progress := 0
  error := none

/-- The upsert of `createFileUploadUrl` on the object key: the id of the row. -/
def upsertFileUpload (fileName userId objectKey bucketName : String) (db : UploadDb) :
    ℕ × UploadDb :=
  match Rows.findKey FileUpload.objectKey objectKey db.fileUploads with
  | some file => (file.id, { db with
      fileUploads := Rows.updateWhere (fun f => f.objectKey == objectKey)
        (fun f => { f with fileName := fileName, userId := userId, bucketName := bucketName })
        db.fileUploads })
  | none => (db.nextId, { db with
      fileUploads := db.fileUploads ++
        [newFileUpload db.nextId fileName userId objectKey bucketName]
      nextId := db.nextId + 1 })

def createFileUploadUrl (env : UploadEnv) (userId objectKey fileName : String) : UploadProg ℕ :=
  modifyGet (upsertFileUpload fileName userId (createObjectKey userId objectKey fileName)
    env.bucketName)

def areFilesUploaded (db : UploadDb) (ids : List ℕ) : Bool :=
  (db.fileUploads.filter fun f => ids.contains f.id && f.status == .uploaded).length == ids.length

def updateFileUpload (id : ℕ) (f : FileUpload → FileUpload) (db : UploadDb) : UploadDb :=
  { db with fileUploads := Rows.updateWhere (fun file => file.id == id) f db.fileUploads }

/-- The object of the file is missing in the storage. -/
def markMissing (file : FileUpload) : FileUpload :=
  { file with
    status := .removed
    progress := 0
    error := some (storageMissingErrorPrefix ++
      "File not found in object storage during sync check.") }

/-- One file of `syncAndCheckMissingFiles`. -/
def checkMissingFile (env : UploadEnv) (anyMissing : Bool) (file : FileUpload) :
    UploadProg Bool := do
  match ← gets fun db => UploadDb.statOf env db file with
  | some _ => pure anyMissing
  | none => do
    when (file.status != .removed) (modify (updateFileUpload file.id markMissing))
    pure true

def syncAndCheckMissingFiles (env : UploadEnv) (ids : List ℕ) : UploadProg Bool := do
  let files ← gets fun db : UploadDb => db.fileUploads.filter fun f => ids.contains f.id
  foldEach (checkMissingFile env) false files

def removeFile (env : UploadEnv) (id : ℕ) : UploadProg Unit := do
  match ← gets fun db : UploadDb => Rows.findKey FileUpload.id id db.fileUploads with
  | none => pure ()
  | some file => do
    when (file.status == .uploaded) (modify fun db => { db with
      storage := Rows.deleteWhere
        (fun o => o.bucketName == env.bucketName && o.objectKey == file.objectKey) db.storage })
    modify (updateFileUpload id fun f => { f with status := .removed })

def deleteItemRow (id : ℕ) : UploadProg Unit :=
  modify fun db => { db with fileUploads := Rows.deleteWhere (fun f => f.id == id) db.fileUploads }

/-! ### Recovery -/

/-- The file upload of an artifact is healthy; an artifact without one is not looked at. -/
def isHealthy : Option FileUpload → Bool
  | none => true
  | some f => f.status == .uploaded &&
      !(f.error.any fun e => storageMissingErrorPrefix.toList.isPrefixOf e.toList)

def allHealthy (db : UploadDb) (catalogId : String) : Bool :=
  ((db.artifactsOf catalogId).filter fun a => a.type == .file).all fun a =>
    isHealthy (db.fileUploadOf a)

def setReleaseStatus (catalogId : String) (status : ReleaseStatus) (db : UploadDb) : UploadDb :=
  { db with
    releases := Rows.updateWhere (fun r => r.catalogId == catalogId)
      (fun r => { r with status := status }) db.releases }

/-- The release was released before and left that status. -/
def mayBeRestored (r : Release) : Bool :=
  (r.status == .error || r.status == .inReview) && r.releasedAt.isSome

def maybeRestoreReleasedStatus (catalogId : String) : UploadProg Unit := do
  match ← gets fun db : UploadDb => Rows.findKey Release.catalogId catalogId db.releases with
  | none => pure ()
  | some release => do
    let healthy ← gets fun db => allHealthy db catalogId
    when (mayBeRestored release && healthy) (modify (setReleaseStatus catalogId .released))

/-! ### The synchronisation with the storage -/

/-- A file artifact with its file upload and its release, as the synchronisation loads it. -/
structure SyncedArtifact where
  artifact : ReleaseArtifact
  fileUpload : FileUpload
  release : Release

/-- The artifacts the synchronisation looks at: file artifacts whose file is uploaded or
removed. -/
def relevantArtifacts (db : UploadDb) : List SyncedArtifact :=
  (db.artifacts.filter fun a => a.type == .file).filterMap fun a =>
    match db.fileUploadOf a, Rows.findKey Release.catalogId a.releaseId db.releases with
    | some f, some r =>
        if f.status = .uploaded ∨ f.status = .removed then some ⟨a, f, r⟩ else none
    | _, _ => none

/-- The file is back in the storage with the content it had. -/
def isRestored (file : FileUpload) (stored : StoredObject) : Bool :=
  match truthy file.sha256 with
  | none => true
  | some sha => stored.sha256 == some sha

/-- One artifact of a batch; the releases to check again afterwards. -/
def syncArtifact (env : UploadEnv) (recheck : List String) (a : SyncedArtifact) :
    UploadProg (List String) := do
  match ← gets fun db => UploadDb.statOf env db a.fileUpload with
  | none =>
    if a.fileUpload.status = .uploaded then do
      modify (updateFileUpload a.fileUpload.id markMissing)
      when (a.release.status == .released) (modify (setReleaseStatus a.release.catalogId .error))
      pure recheck
    else pure recheck
  | some stored =>
    if a.fileUpload.status = .removed ∧ isRestored a.fileUpload stored = true then do
      modify (updateFileUpload a.fileUpload.id fun f =>
        { f with status := .uploaded, error := none, progress := 100 })
      if a.release.releasedAt.isSome ∧ a.release.status = .error then
        pure (ObjectMap.addKeys recheck [a.release.catalogId])
      else pure recheck
    else pure recheck

def syncBatch (env : UploadEnv) (batch : List SyncedArtifact) : UploadProg Unit := do
  let releasesToRecheck ← foldEach (syncArtifact env) [] batch
  forEach maybeRestoreReleasedStatus releasesToRecheck

/-- `syncArtifactsStorageStatus`, in batches of ten. -/
def syncArtifactsStorageStatus (env : UploadEnv) : UploadProg Unit := do
  let relevant ← gets relevantArtifacts
  forEach (syncBatch env) (relevant.toChunks 10)

end FileUploadService

end UploadService
