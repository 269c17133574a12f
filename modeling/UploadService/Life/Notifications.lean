import UploadService.Release.Service

/-!
# Notifications

What the service does when it is told of a change: the storage reports that an object was
created or removed, the project management reports that a regulation was created or
deleted, and a project is deleted with all its releases.

The bucket notifications go by the object key. They set the status of the file upload and
nothing else that the storage synchronisation wrote.
-/

namespace UploadService

/-- `UpdateFileUploadDto`, as a bucket notification fills it. -/
structure UpdateFileUploadDto where
  objectKey : String
  status : FileUploadStatus
  size : Option ℕ
  deriving DecidableEq, Repr

inductive RegulationChangedEventType where
  | created | updated | deleted
  deriving DecidableEq, Repr

structure RegulationChangedEvent where
  type : RegulationChangedEventType
  projectId : ℕ
  /-- the name of the regulation -/
  regulation : Option String
  deriving DecidableEq, Repr

namespace FileUploadService

open Prog ReleaseService

/-- The columns that `uploadRepo.update` writes from the notification. -/
def notified (file : UpdateFileUploadDto) (f : FileUpload) : FileUpload :=
  { f with status := file.status, size := file.size.or f.size }

/-- `updateUploadFile` and the listener of its event. The checksum of a created object is
computed by `processAndSaveFile`, which is not waited for. -/
def updateUploadFile (file : UpdateFileUploadDto) : UploadProg Unit := do
  let found ← gets fun db : UploadDb => Rows.findKey FileUpload.objectKey file.objectKey db.fileUploads
  match file.status, found with
  | .uploaded, none => throw (.plain "Cannot read properties of null (reading 'sha256')")
  | _, none => pure ()
  | status, some _ => do
    modify fun db => { db with
      fileUploads := Rows.updateWhere (fun f => f.objectKey == file.objectKey) (notified file)
        db.fileUploads }
    when (status == .uploaded || status == .removed) (onFileChange (some file.objectKey))

/-- The columns that `processAndSaveFile` writes. -/
def processed (calculateSha256 : Bool) (stored : StoredObject) (f : FileUpload) : FileUpload :=
  { f with
    sha256 := if calculateSha256 then stored.sha256.or f.sha256 else f.sha256
    progress := 100 }

/-- `processAndSaveFile`: the checksum of the stored object, and the event again. -/
def processAndSaveFile (env : UploadEnv) (objectKey : String) (calculateSha256 : Bool) :
    UploadProg Unit := do
  match ← gets fun db : UploadDb => Rows.findKey FileUpload.objectKey objectKey db.fileUploads with
  | none => pure ()
  | some file => do
    match ← gets fun db : UploadDb => db.getObjectStat env.bucketName objectKey with
    | none => throw (.plain "The specified key does not exist.")
    | some stored => do
      modify (updateFileUpload file.id (processed calculateSha256 stored))
      when (calculateSha256 && stored.sha256.isSome) (onFileChange (some objectKey))

end FileUploadService

namespace ReleaseService

open Prog FileUploadService RegulationStatusService

/-- The releases that a change of the regulations concerns. -/
def openReleases (db : UploadDb) (projectId : ℕ) : List Release :=
  db.releases.filter fun r =>
    r.projectId == projectId && (r.status == .draft || r.status == .inReview)

def onProjectRegulationCreated (env : UploadEnv) (event : RegulationChangedEvent) :
    UploadProg Unit := do
  let releases ← gets (openReleases · event.projectId)
  forEach (fun r => refreshReleaseState env event.projectId r.version) releases

/-- One release of `onProjectRegulationDeleted`. -/
def forgetRegulation (env : UploadEnv) (event : RegulationChangedEvent) (r : Release) :
    UploadProg Unit := do
  tryCatch (do
    let _ ← deleteVersionRegulationStatus event.projectId r.version event.regulation
    pure ()) fun _ => pure ()
  deleteOrphanRegulationStatuses event.projectId r.version
  refreshReleaseState env event.projectId r.version

def onProjectRegulationDeleted (env : UploadEnv) (event : RegulationChangedEvent) :
    UploadProg Unit := do
  let releases ← gets (openReleases · event.projectId)
  forEach (forgetRegulation env event) releases

def onProjectRegulationChanged (env : UploadEnv) (event : RegulationChangedEvent) :
    UploadProg Unit :=
  match event.type with
  | .created => onProjectRegulationCreated env event
  | .updated => pure ()
  | .deleted => onProjectRegulationDeleted env event

/-- The links by which other releases depend on these. -/
def clearDependents (catalogIds : List String) (db : UploadDb) : UploadDb :=
  { db with
    dependencies := Rows.deleteWhere (fun d => catalogIds.contains d.dependencyReleaseId)
      db.dependencies }

/-- `deleteProjectReleases`; what fails is logged. -/
def deleteProjectReleases (env : UploadEnv) (projectId : ℕ) : UploadProg Unit := do
  let releases ← gets fun db : UploadDb => db.releases.filter fun r => r.projectId == projectId
  when (!releases.isEmpty) (modify (clearDependents (releases.map (·.catalogId))))
  forEach (fun r => tryCatch (do
    let _ ← deleteRelease env ⟨some (.id projectId), projectId, r.version⟩
    pure ()) fun _ => pure ()) releases

end ReleaseService

end UploadService
