import UploadService.Access.Requests
import UploadService.Life.Imports
import UploadService.Life.Notifications

/-!
# Calls and runs

Everything that writes releases, artifacts, file uploads and regulation statuses: the
handlers behind the guard, the calls of the other services, the notifications and the
scheduled synchronisation. A run is a list of calls, each by its caller, of pending tasks,
chosen by their positions, and of changes outside the service: objects come to the storage
and go, and time passes.
-/

namespace UploadService

open Prog ReleaseService FileUploadService

/-- The user of a call. -/
structure Caller where
  email : Option String
  /-- the role `edit-released-release` -/
  canEditReleased : Bool
  deriving DecidableEq, Repr

def UploadEnv.calledBy (env : UploadEnv) (caller : Caller) : UploadEnv :=
  { env with userEmail := caller.email, canEditReleased := caller.canEditReleased }

inductive ServiceCall where
  /-- a handler, with the project the guard put in -/
  | handle (projectIdentifier : Option Identifier) (projectId : ℕ) (body : GuardedBody)
  | importRelease (dto : ImportReleaseDto)
  | importArtifactsInBackground (projectId : ℕ) (version : String)
      (artifacts : List ImportArtifactDto) (downloads : String → Option Download)
  | archiveProjectReleases (projectId : ℕ)
  | restoreProjectReleases (projectId : ℕ)
  | deleteProjectReleases (projectId : ℕ)
  | onProjectRegulationChanged (event : RegulationChangedEvent)
  | updateUploadFile (file : UpdateFileUploadDto)
  | processAndSaveFile (objectKey : String) (calculateSha256 : Bool)
  | syncArtifactsStorageStatus
  | refreshReleaseState (projectId : ℕ) (version : String)
  | maybeRestoreReleasedStatus (catalogId : String)

def ServiceCall.run (env : UploadEnv) : ServiceCall → UploadProg Unit
  | handle projectIdentifier projectId body => body.handle env projectIdentifier projectId
  | importRelease dto => ReleaseService.importRelease env dto
  | importArtifactsInBackground projectId version artifacts downloads =>
      ReleaseService.importArtifactsInBackground env projectId version artifacts downloads
  | archiveProjectReleases projectId => modify (ReleaseService.archiveProjectReleases projectId)
  | restoreProjectReleases projectId => modify (ReleaseService.restoreProjectReleases projectId)
  | deleteProjectReleases projectId => ReleaseService.deleteProjectReleases env projectId
  | onProjectRegulationChanged event => ReleaseService.onProjectRegulationChanged env event
  | updateUploadFile file => FileUploadService.updateUploadFile file
  | processAndSaveFile objectKey calculateSha256 =>
      FileUploadService.processAndSaveFile env objectKey calculateSha256
  | syncArtifactsStorageStatus => FileUploadService.syncArtifactsStorageStatus env
  | refreshReleaseState projectId version =>
      ReleaseService.refreshReleaseState env projectId version
  | maybeRestoreReleasedStatus catalogId => FileUploadService.maybeRestoreReleasedStatus catalogId

inductive ServiceEvent where
  | call (caller : Caller) (call : ServiceCall)
  /-- the pending task at the position -/
  | task (i : ℕ)
  | storage (objects : List StoredObject)
  | clock (now : ℕ)

/-- One event. A call that fails keeps what it has written. -/
def UploadDb.step (env : UploadEnv) (db : UploadDb) : ServiceEvent → UploadDb
  | .call caller call => (call.run (env.calledBy caller) db).2
  | .task i => db.runPending env i
  | .storage objects => { db with storage := objects }
  | .clock now => { db with now := now }

/-- A request of `eve`, who has not the role, on the first project. -/
def requestOfEve (body : GuardedBody) : ServiceEvent :=
  .call ⟨some "eve", false⟩ (.handle (some (.id 1)) 1 body)

end UploadService
