import UploadService.Release.Service

/-!
# Imported releases

`importRelease` creates a release as a draft, with its dependencies and images, and starts
the import of its files without waiting for it. When every file has come, the import sets
the release to `RELEASED` by itself, then looks at it again.
-/

namespace UploadService

structure ImportArtifactDto where
  name : String
  downloadUrl : Option String
  sha256 : Option String
  isExecutable : Option Bool
  arguments : Option String
  metadata : Option Object
  deriving DecidableEq, Repr

structure ImportDockerImageDto where
  /-- may be null, as the column of the artifact -/
  name : Option String
  imageUrl : String
  metadata : Option Object
  deriving DecidableEq, Repr

structure ImportReleaseDto where
  projectIdentifier : Identifier
  version : String
  name : Option String
  releaseNotes : Option String
  metadata : Option ReleaseMetadata
  author : Option String
  dependencies : List String
  dockerImages : List ImportDockerImageDto
  artifacts : List ImportArtifactDto
  deriving DecidableEq, Repr

/-- The content a download gives. -/
structure Download where
  sha256 : String
  size : ℕ
  deriving DecidableEq, Repr

namespace ReleaseService

open Prog FileUploadService RegulationStatusService

/-! ### The release -/

/-- The row of an imported release. -/
def importedRelease (dto : ImportReleaseDto) (projectId required : ℕ) : Release :=
  { Release.create projectId dto.version with
    name := some ((truthy dto.name).getD dto.version)
    releaseNotes := some (dto.releaseNotes.getD "")
    metadata := dto.metadata.getD ⟨none, none, []⟩
    createdBy := dto.author
    isImported := true
    requiredRegulationsCount := required }

/-- The row of an imported image; an image the release has already refuses it. -/
def importDockerImage (catalogId : String) (image : ImportDockerImageDto) : UploadProg Unit :=
  fun db =>
    if db.artifacts.any fun a => a.releaseId == catalogId && a.type == .dockerImage &&
        a.dockerImageUrl == some image.imageUrl then
      (.error (.queryFailed "duplicate key value violates unique constraint"), db)
    else (.ok (), { db with
      artifacts := db.artifacts ++ [{ newArtifact db.nextId catalogId with
        type := .dockerImage
        artifactName := image.name
        dockerImageUrl := some image.imageUrl
        metadata := image.metadata.getD []
        isInstallationFile := true }]
      nextId := db.nextId + 1 })

/-- The dependencies of an import; an empty list is none. -/
def importedDependencies (dto : ImportReleaseDto) (projectId : ℕ) :
    UploadProg (Option (List Release)) :=
  if dto.dependencies.isEmpty then pure none
  else do
    let entities ← getAndValidateDependenciesForRelease projectId dto.version dto.dependencies
    pure (some entities)

/-- `importRelease` on the project it found, without the import of the files. -/
def importReleaseInto (env : UploadEnv) (dto : ImportReleaseDto) (projectId : ℕ) :
    UploadProg Unit := do
  match ← gets (UploadDb.findRelease · projectId dto.version) with
  | some _ => throw (.conflict
      s!"Release version {dto.version} already exists for project {projectId}")
  | none => do
    let required ← gets fun db => (regulationsOf db projectId).length
    let dependencies ← importedDependencies dto projectId
    let catalogId ← saveRelease env true (importedRelease dto projectId required)
    modify fun db => match dependencies with
      | none => db
      | some entities => saveDependencies catalogId entities db
    modify (linkDefaultRuleToRelease catalogId)
    forEach (fun image => tryCatch (importDockerImage catalogId image) fun _ => pure ())
      dto.dockerImages
    refreshReleaseState env projectId dto.version

/-- `importRelease`. The import of the files is not waited for:
`importArtifactsInBackground`. -/
def importRelease (env : UploadEnv) (dto : ImportReleaseDto) : UploadProg Unit := do
  let projectId ← resolveProject (some dto.projectIdentifier) 0
  importReleaseInto env dto projectId

/-! ### The files -/

/-- `uploadRepo.save` of a new file upload: its key. -/
def saveNewFile (fileName objectKey bucketName : String) : UploadProg ℕ := fun db =>
  if db.fileUploads.any fun f => f.objectKey == objectKey then
    (.error (.queryFailed "duplicate key value violates unique constraint"), db)
  else (.ok db.nextId, { db with
    fileUploads := db.fileUploads ++ [newFileUpload db.nextId fileName "release" objectKey bucketName]
    nextId := db.nextId + 1 })

/-- `artifactRepo.save` of an imported file; without its release the reference refuses it. -/
def saveImportedArtifact (projectId : ℕ) (version : String) (artifact : ImportArtifactDto)
    (fileUploadId : ℕ) : UploadProg Unit := fun db =>
  match db.findRelease projectId version with
  | none => (.error (.queryFailed "insert or update violates foreign key constraint"), db)
  | some release => (.ok (), { db with
      artifacts := db.artifacts ++ [{ newArtifact db.nextId release.catalogId with
        artifactName := some artifact.name
        fileUploadId := some fileUploadId
        isInstallationFile := true
        isExecutable := artifact.isExecutable.getD false
        arguments := artifact.arguments
        metadata := artifact.metadata.getD [] }]
      nextId := db.nextId + 1 })

/-- The object of the key is the one that was downloaded. -/
def putObject (bucketName objectKey : String) (content : Download) (db : UploadDb) : UploadDb :=
  { db with storage := ⟨bucketName, objectKey, some content.sha256⟩ ::
      Rows.deleteWhere (fun o => o.bucketName == bucketName && o.objectKey == objectKey) db.storage }

/-- The object of the key is deleted. -/
def deleteObjects (bucketName objectKey : String) (db : UploadDb) : UploadDb :=
  { db with
    storage := Rows.deleteWhere (fun o => o.bucketName == bucketName && o.objectKey == objectKey)
      db.storage }

/-- A failed upload. -/
def failUpload (error : String) (f : FileUpload) : FileUpload :=
  { f with status := .error, error := some error }

/-- The catch of `uploadFileFromUrl`: the error is saved, and thrown in another text. -/
def uploadFailed (id : ℕ) (fileName message : String) : UploadProg Unit := do
  modify (updateFileUpload id (failUpload message))
  throw (.badRequest s!"Failed to download or upload file {fileName}: {message}")

/-- `uploadFileFromUrl`, with what the download gives: the row is uploaded, or marked as
failed before the exception. -/
def uploadFileFromUrl (id : ℕ) (fileName objectKey bucketName : String) (download : Option Download)
    (expectedSha256 : Option String) : UploadProg Unit := do
  modify (updateFileUpload id fun f => { f with status := .uploading, progress := 0 })
  match download with
  | none => uploadFailed id fileName "Request failed"
  | some content =>
    if (truthy expectedSha256).any fun sha => sha != content.sha256 then do
      -- the object was put before the check, in place of the one that was there
      modify (deleteObjects bucketName objectKey)
      modify (updateFileUpload id (failUpload "Checksum mismatch"))
      uploadFailed id fileName s!"Checksum mismatch for file {fileName}"
    else do
      modify (putObject bucketName objectKey content)
      modify (updateFileUpload id fun f => { f with
        status := .uploaded
        size := some content.size
        sha256 := some content.sha256
        progress := 100 })

/-- `importArtifact`. -/
def importArtifact (env : UploadEnv) (projectId : ℕ) (version : String)
    (downloads : String → Option Download) (artifact : ImportArtifactDto) : UploadProg Unit := do
  let objectKey := createObjectKey "release" s!"{projectId}/{version}" artifact.name
  let id ← saveNewFile artifact.name objectKey env.bucketName
  saveImportedArtifact projectId version artifact id
  uploadFileFromUrl id artifact.name objectKey env.bucketName (artifact.downloadUrl.bind downloads)
    artifact.sha256

/-- An artifact of the import: whether it came. The row of one that did not is marked, by
its object key. -/
def tryImportArtifact (env : UploadEnv) (projectId : ℕ) (version : String)
    (downloads : String → Option Download) (allCame : Bool) (artifact : ImportArtifactDto) :
    UploadProg Bool :=
  tryCatch (do
    importArtifact env projectId version downloads artifact
    pure allCame) fun e => do
    modify fun db => { db with
      fileUploads := Rows.updateWhere (fun f => f.objectKey ==
          createObjectKey "release" s!"{projectId}/{version}" artifact.name)
        (failUpload e.message) db.fileUploads }
    pure false

/-- The release of the import becomes `RELEASED`, whatever it was. -/
def releaseImported (projectId : ℕ) (version : String) (db : UploadDb) : UploadDb :=
  updateLatestForProject projectId (promote projectId version db)

/-- `importArtifactsInBackground`. -/
def importArtifactsInBackground (env : UploadEnv) (projectId : ℕ) (version : String)
    (artifacts : List ImportArtifactDto) (downloads : String → Option Download) :
    UploadProg Unit := do
  let validArtifacts := artifacts.filter fun a => (truthy a.downloadUrl).isSome
  if validArtifacts.isEmpty then pure ()
  else do
    let allSucceeded ← foldEach (tryImportArtifact env projectId version downloads) true validArtifacts
    if allSucceeded then do
      modify (releaseImported projectId version)
      refreshReleaseState env projectId version
    else pure ()

end ReleaseService

end UploadService
