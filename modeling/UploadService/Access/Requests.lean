import UploadService.Access.SingleProject
import UploadService.Release.Tasks
import UploadService.Release.Uploads

/-!
# Guarded requests

The handlers of `UploadController` that write under `ValidateProjectAnyAccess`: file
metadata, upload status, releases, artifacts and regulation statuses. A request brings
what its sender wrote; the guard puts the id of the authorised project in its place.
-/

namespace UploadService

/-- The body of a request. Its `projectIdentifier` and `projectId` are those of the
request. -/
inductive GuardedBody where
  | updateFileMetadata (dto : UpdateFilePropertiesDto)
  | updateUploadStatus (dto : UpdateUploadStatusDto)
  | setRelease (dto : SetReleaseDto)
  | setReleaseArtifact (dto : SetReleaseArtifactDto)
  | deleteReleaseArtifact (version : String) (artifactId : ℕ)
  | deleteRelease (version : String)
  | setRegulationStatus (version regulation value : String) (reportDetails : Option String)
  | setComplianceStatus (version regulation : String) (isCompliant : Bool)
  | deleteVersionRegulationStatus (version regulation : String)
  deriving DecidableEq, Repr

structure GuardedRequest where
  projectIdentifier : Option Identifier
  projectId : Option Identifier
  body : GuardedBody
  deriving DecidableEq, Repr

namespace GuardedBody

open Prog

/-- The roles the decorator of the handler asks for. -/
def roles : GuardedBody → List String
  | setComplianceStatus .. => ["project-owner"]
  | _ => []

/-- The handler of `UploadController`, with the project id the guard put in. -/
def handle (env : UploadEnv) (projectIdentifier : Option Identifier) (projectId : ℕ) :
    GuardedBody → UploadProg Unit
  | updateFileMetadata dto => ReleaseService.updateFileMetadata env { dto with
      projectIdentifier := projectIdentifier
      projectId := projectId }
  | updateUploadStatus dto => ComponentUploads.updateUploadStatus dto
  | setRelease dto => do
    let _ ← ReleaseService.setRelease env { dto with
      projectIdentifier := projectIdentifier
      projectId := projectId }
    pure ()
  | setReleaseArtifact dto => do
    let _ ← ReleaseService.setReleaseArtifact env { dto with
      projectIdentifier := projectIdentifier
      projectId := projectId }
    pure ()
  | deleteReleaseArtifact version artifactId => do
    let _ ← ReleaseService.deleteReleaseArtifact env projectId version artifactId false
    pure ()
  | deleteRelease version => do
    let id ← ReleaseService.deleteRelease env ⟨projectIdentifier, projectId, version⟩
    modify (ReleaseService.updateLatestForProject id)
  | setRegulationStatus version regulation value reportDetails => do
    let _ ← RegulationStatusService.setRegulationStatus env
      ⟨projectIdentifier, projectId, version, regulation⟩ value reportDetails
    modify (ReleaseService.start (.refreshReleaseState projectId version))
  | setComplianceStatus version regulation isCompliant => do
    let _ ← RegulationStatusService.setComplianceStatus
      ⟨projectIdentifier, projectId, version, regulation⟩ isCompliant
    modify (ReleaseService.start (.refreshReleaseState projectId version))
  | deleteVersionRegulationStatus version regulation => do
    let _ ← RegulationStatusService.deleteVersionRegulationStatus projectId version
      (some regulation)
    modify (ReleaseService.start (.refreshReleaseState projectId version))

end GuardedBody

namespace GuardedRequest

/-- The project the guard authorises the request for. -/
def authorised (access : AccessService) (headers : Headers) (request : GuardedRequest) :
    Except Exception Project :=
  ProjectAccessGuard.canActivate access headers request.body.roles request.projectIdentifier
    request.projectId

/-- The handler behind its guard. -/
def run (access : AccessService) (env : UploadEnv) (headers : Headers) (request : GuardedRequest) :
    UploadProg Unit := do
  let project ← fun db => (request.authorised access headers, db)
  request.body.handle env request.projectIdentifier project.id

end GuardedRequest

end UploadService
