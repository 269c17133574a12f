import UploadService.Release.Subscriber
import UploadService.Policy.Rules

/-!
# The tables of the upload service

The rows of releases, artifacts, file uploads, regulations and component uploads,
the object storage behind the file uploads, and the work the service has started
and not waited for. A read that loads a release with its relations is a
`LoadedRelease`.

Notification stamps, signatures and scan results are written by the service and
read by no modelled function, so they are left out.
-/

namespace UploadService

/-! ### Rows -/

inductive ArtifactType where
  | file | dockerImage | rpm | deb
  deriving DecidableEq, Repr

inductive FileUploadStatus where
  | uploaded | pending | uploading | removed | error
  deriving DecidableEq, Repr

structure FileUpload where
  id : ℕ
  fileName : String
  userId : String
  objectKey : String
  status : FileUploadStatus
  bucketName : String
  size : Option ℕ
  sha256 : Option String
  progress : ℕ
  error : Option String
  deriving DecidableEq, Repr

structure ReleaseArtifact where
  id : ℕ
  artifactName : Option String
  type : ArtifactType
  dockerImageUrl : Option String
  isInstallationFile : Bool
  metadata : Object
  releaseId : String
  fileUploadId : Option ℕ
  isExecutable : Bool
  arguments : Option String
  enableSbomScan : Bool
  packageVersion : Option String
  deriving DecidableEq, Repr

/-- A row of `release_dependencies`: the release depends on the other. -/
structure ReleaseDependency where
  releaseId : String
  dependencyReleaseId : String
  deriving DecidableEq, Repr

structure RegulationType where
  id : ℕ
  name : String
  deriving DecidableEq, Repr

structure Regulation where
  id : ℕ
  name : String
  displayName : Option String
  description : Option String
  type : RegulationType
  projectId : ℕ
  config : Option String
  order : ℕ
  deriving DecidableEq, Repr

structure RegulationSnapshot where
  name : String
  description : Option String
  config : Option String
  typeId : ℕ
  deriving DecidableEq, Repr

structure RegulationStatus where
  id : ℕ
  /-- the catalog id of the release -/
  versionId : String
  /-- null where the regulation was deleted -/
  regulationId : Option ℕ
  regulationSnapshot : Option RegulationSnapshot
  isCompliant : Bool
  value : Option String
  reportDetails : Option String
  deriving DecidableEq, Repr

inductive UploadStatus where
  | started | downloadingFromUrl | failToDownload | uploadingToS3 | failToUpload | inProgress
  | ready | error
  deriving DecidableEq, Repr

/-- A row of `upload_version`: a component upload. -/
structure UploadVersion where
  catalogId : String
  platform : String
  component : String
  formation : String
  version : String
  createdDate : ℕ
  uploadStatus : UploadStatus
  latest : Bool
  projectId : Option ℕ
  deriving DecidableEq, Repr

/-- An object of the storage, with the checksum of its content where it can be read. -/
structure StoredObject where
  bucketName : String
  objectKey : String
  sha256 : Option String
  deriving DecidableEq, Repr

/-- A call that was started and not waited for. -/
inductive PendingTask where
  | refreshReleaseState (projectId : ℕ) (version : String)
  | maybeRestoreReleasedStatus (catalogId : String)
  deriving DecidableEq, Repr

structure UploadDb where
  projects : List Project
  releases : List Release
  dependencies : List ReleaseDependency
  artifacts : List ReleaseArtifact
  fileUploads : List FileUpload
  regulations : List Regulation
  regulationStatuses : List RegulationStatus
  rules : List Rule
  ruleReleases : List RuleRelease
  uploadVersions : List UploadVersion
  /-- the objects the storage answers for -/
  storage : List StoredObject
  /-- the next key of the tables with generated keys -/
  nextId : ℕ
  now : ℕ
  pending : List PendingTask
  deriving DecidableEq

/-- What the service is given from outside. -/
structure UploadEnv where
  semver : SemverLib
  /-- `BUCKET_NAME` -/
  bucketName : String
  /-- the verdict of the enforcement service on a value, which writes nothing -/
  enforce : UploadDb → Regulation → String → Except Exception Bool
  userEmail : Option String
  /-- the user has the role `edit-released-release` -/
  canEditReleased : Bool

/-- A user without the role `edit-released-release`. -/
def plainUploadEnv : UploadEnv where
  semver := plainSemver
  bucketName := "artifacts"
  enforce := fun _ _ _ => .ok true
  userEmail := some "eve"
  canEditReleased := false

abbrev UploadProg : Type → Type := Prog UploadDb Exception

/-- One project without releases. -/
def oneProject : UploadDb where
  projects := [⟨1, "one", .product⟩]
  releases := []
  dependencies := []
  artifacts := []
  fileUploads := []
  regulations := []
  regulationStatuses := []
  rules := []
  ruleReleases := []
  uploadVersions := []
  storage := []
  nextId := 1
  now := 0
  pending := []

/-! ### Reads -/

/-- A release with the relations `getReleaseEntity` loads. -/
structure LoadedRelease where
  release : Release
  artifacts : List (ReleaseArtifact × Option FileUpload)
  dependencies : List Release
  dependentReleases : List Release
  deriving DecidableEq

namespace UploadDb

/-- `{ project: { id }, version }`. -/
def isRelease (projectId : ℕ) (version : String) (r : Release) : Bool :=
  r.projectId == projectId && r.version == version

def findRelease (db : UploadDb) (projectId : ℕ) (version : String) : Option Release :=
  db.releases.find? (isRelease projectId version)

def artifactsOf (db : UploadDb) (catalogId : String) : List ReleaseArtifact :=
  db.artifacts.filter fun a => a.releaseId == catalogId

def fileUploadOf (db : UploadDb) (a : ReleaseArtifact) : Option FileUpload :=
  a.fileUploadId.bind fun id => Rows.findKey FileUpload.id id db.fileUploads

/-- The releases this one depends on. -/
def dependenciesOf (db : UploadDb) (catalogId : String) : List Release :=
  (db.dependencies.filter fun d => d.releaseId == catalogId).filterMap fun d =>
    Rows.findKey Release.catalogId d.dependencyReleaseId db.releases

/-- The releases that depend on this one. -/
def dependentReleasesOf (db : UploadDb) (catalogId : String) : List Release :=
  (db.dependencies.filter fun d => d.dependencyReleaseId == catalogId).filterMap fun d =>
    Rows.findKey Release.catalogId d.releaseId db.releases

/-- The relations of a release. -/
def load (db : UploadDb) (release : Release) : LoadedRelease where
  release := release
  artifacts := (db.artifactsOf release.catalogId).map fun a => (a, db.fileUploadOf a)
  dependencies := db.dependenciesOf release.catalogId
  dependentReleases := db.dependentReleasesOf release.catalogId

/-- `getReleaseEntity`. -/
def getReleaseEntity (db : UploadDb) (projectId : ℕ) (version : String) : Option LoadedRelease :=
  (db.findRelease projectId version).map db.load

/-- What the storage answers for an object. -/
def getObjectStat (db : UploadDb) (bucketName objectKey : String) : Option StoredObject :=
  db.storage.find? fun o => o.bucketName == bucketName && o.objectKey == objectKey

/-- `fileUpload.bucketName || this.bucketName`. -/
def statOf (env : UploadEnv) (db : UploadDb) (file : FileUpload) : Option StoredObject :=
  db.getObjectStat (if file.bucketName = "" then env.bucketName else file.bucketName) file.objectKey

/-- The unique keys and the references of the tables. -/
structure Constraints (db : UploadDb) : Prop where
  projectKeys : Rows.KeysDistinct Project.id db.projects
  projectNames : Rows.KeysDistinct Project.name db.projects
  releaseKeys : Rows.KeysDistinct Release.catalogId db.releases
  releaseVersions : Rows.KeysDistinct (fun r : Release => (r.projectId, r.version)) db.releases
  artifactKeys : Rows.KeysDistinct ReleaseArtifact.id db.artifacts
  artifactReleases : ∀ a ∈ db.artifacts, ∃ r ∈ db.releases, r.catalogId = a.releaseId
  /-- a file upload belongs to one artifact -/
  artifactFiles : ∀ a ∈ db.artifacts, ∀ b ∈ db.artifacts, ∀ id,
    a.fileUploadId = some id → b.fileUploadId = some id → a = b
  fileKeys : Rows.KeysDistinct FileUpload.id db.fileUploads
  fileObjectKeys : Rows.KeysDistinct FileUpload.objectKey db.fileUploads
  /-- `CHECK (… file_upload_id IS NOT NULL AND type = 'file' …)` -/
  fileArtifacts : ∀ a ∈ db.artifacts, a.type = .file → a.fileUploadId ≠ none
  artifactUploads : ∀ a ∈ db.artifacts, ∀ id, a.fileUploadId = some id →
    ∃ f ∈ db.fileUploads, f.id = id
  statusKeys : Rows.KeysDistinct RegulationStatus.id db.regulationStatuses
  statusReleases : ∀ s ∈ db.regulationStatuses, ∃ r ∈ db.releases, r.catalogId = s.versionId
  dependencyReleases : ∀ d ∈ db.dependencies, (∃ r ∈ db.releases, r.catalogId = d.releaseId) ∧
    ∃ r ∈ db.releases, r.catalogId = d.dependencyReleaseId
  ruleReleases : ∀ a ∈ db.ruleReleases, ∃ r ∈ db.releases, r.catalogId = a.releaseCatalogId
  uploadKeys : Rows.KeysDistinct UploadVersion.catalogId db.uploadVersions
  /-- the sequences are ahead of the keys they gave -/
  freshArtifacts : ∀ a ∈ db.artifacts, a.id < db.nextId
  freshFiles : ∀ f ∈ db.fileUploads, f.id < db.nextId
  freshStatuses : ∀ s ∈ db.regulationStatuses, s.id < db.nextId

theorem findRelease_some {db : UploadDb} {projectId : ℕ} {version : String} {r : Release}
    (h : db.findRelease projectId version = some r) :
    r ∈ db.releases ∧ r.projectId = projectId ∧ r.version = version := by
  refine ⟨List.mem_of_find?_eq_some h, ?_⟩
  simpa [isRelease] using List.find?_some h

theorem getReleaseEntity_some {db : UploadDb} {projectId : ℕ} {version : String}
    {loaded : LoadedRelease} (h : db.getReleaseEntity projectId version = some loaded) :
    db.findRelease projectId version = some loaded.release ∧ loaded = db.load loaded.release := by
  unfold getReleaseEntity at h
  obtain ⟨r, hr, rfl⟩ := Option.map_eq_some_iff.mp h
  exact ⟨hr, rfl⟩

/-- A release is found under its project and version. -/
theorem Constraints.findRelease_of_mem {db : UploadDb} (hdb : db.Constraints) {r : Release}
    (hr : r ∈ db.releases) : db.findRelease r.projectId r.version = some r := by
  cases hfind : db.findRelease r.projectId r.version with
  | none =>
      have hnone := List.find?_eq_none.mp hfind r hr
      simp [isRelease] at hnone
  | some x =>
      obtain ⟨hx, hp, hv⟩ := findRelease_some hfind
      rw [hdb.releaseVersions.eq_of_mem hx hr (by rw [hp, hv])]

end UploadDb

theorem oneProject_constraints : oneProject.Constraints where
  projectKeys := by decide
  projectNames := by decide
  releaseKeys := by decide
  releaseVersions := by decide
  artifactKeys := by decide
  artifactReleases := by decide
  artifactFiles := by simp [oneProject]
  fileKeys := by decide
  fileObjectKeys := by decide
  fileArtifacts := by decide
  artifactUploads := by simp [oneProject]
  statusKeys := by decide
  statusReleases := by decide
  dependencyReleases := by decide
  ruleReleases := by decide
  uploadKeys := by decide
  freshArtifacts := by decide
  freshFiles := by decide
  freshStatuses := by decide

end UploadService
