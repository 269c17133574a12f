import UploadService.Life.Imports

/-!
# Exported releases

`exportRelease` writes a release into a request that `importRelease` of another deployment
takes: the texts of the release, its dependencies by their catalog ids, its images, and its
files, each with its checksum and a link to its object. A checksum that the row does not have
is computed from the bucket and saved.

Main results:

- `exportRelease_run`: what the export of a release is.
-/

namespace UploadService

structure ExportArtifactDto where
  name : String
  size : ℕ
  sha256 : String
  downloadUrl : String
  metadata : Object
  deriving DecidableEq, Repr

structure ExportDockerImageDto where
  /-- may be null, as the column of the artifact -/
  name : Option String
  imageUrl : String
  metadata : Object
  deriving DecidableEq, Repr

structure ExportDependencyDto where
  catalogId : String
  name : String
  version : String
  deriving DecidableEq, Repr

structure ExportReleaseDto where
  name : String
  version : String
  tag : String
  /-- the name of the project -/
  project : String
  status : ReleaseStatus
  releaseNotes : String
  author : String
  metadata : ReleaseMetadata
  artifacts : List ExportArtifactDto
  dockerImages : List ExportDockerImageDto
  dependencies : List ExportDependencyDto
  deriving DecidableEq, Repr

namespace ReleaseService

open Prog FileUploadService

/-! ### The export -/

/-- `calculateSha256FromBucket`. -/
def calculateSha256FromBucket (bucketName objectKey : String) : UploadProg String := do
  match ← gets fun db => (UploadDb.getObjectStat db bucketName objectKey).bind (·.sha256) with
  | none => throw (.queryFailed "The specified key does not exist.")
  | some sha256 => pure sha256

/-- The checksum of a file: that of its row, or of its object, or none. -/
def exportSha256 (env : UploadEnv) (file : FileUpload) : UploadProg String :=
  match truthy file.sha256 with
  | some sha256 => pure sha256
  | none => tryCatch (do
      let sha256 ← calculateSha256FromBucket env.bucketName file.objectKey
      modify (updateFileUpload file.id fun f => { f with sha256 := some sha256 })
      pure sha256) fun _ => pure ""

/-- A file of the release. `presign` is `generatePresignedDownloadUrl`. -/
def exportArtifact (env : UploadEnv) (presign : String → String → String) (a : ReleaseArtifact)
    (file : FileUpload) : UploadProg ExportArtifactDto := do
  let sha256 ← exportSha256 env file
  pure {
    name := file.fileName
    size := file.size.getD 0
    sha256 := sha256
    downloadUrl := presign env.bucketName file.objectKey
    metadata := a.metadata }

/-- The image that the artifact is. -/
def exportDockerImage (a : ReleaseArtifact) : ExportDockerImageDto where
  name := a.artifactName
  imageUrl := a.dockerImageUrl.getD ""
  metadata := a.metadata

/-- One artifact: a file, an image, or one that is left out. -/
def exportEach (env : UploadEnv) (presign : String → String → String)
    (acc : List ExportArtifactDto × List ExportDockerImageDto)
    (item : ReleaseArtifact × Option FileUpload) :
    UploadProg (List ExportArtifactDto × List ExportDockerImageDto) :=
  match item.1.type, item.2 with
  | .file, some file => do
    let artifact ← exportArtifact env presign item.1 file
    pure (acc.1 ++ [artifact], acc.2)
  | .dockerImage, _ => pure (acc.1, acc.2 ++ [exportDockerImage item.1])
  | _, _ => pure acc

/-- The project of the request: a number leaves the id of the request as it is. -/
def exportedProject (params : ReleaseParams) : UploadProg ℕ :=
  match params.projectIdentifier with
  | some (.id _) => pure params.projectId
  | some (.name s) => do
    match ← gets fun db : UploadDb => Rows.findKey Project.name s db.projects with
    | none => throw (.notFound s!"Project not found: {s}")
    | some project => pure project.id
  -- a condition on an undefined name is no condition
  | none => do
    match ← gets fun db : UploadDb => db.projects.head? with
    | none => throw (.notFound "Project not found: undefined")
    | some project => pure project.id

def exportDependency (dependency : Release) : ExportDependencyDto where
  catalogId := dependency.catalogId
  name := (truthy dependency.name).getD ""
  version := dependency.version

/-- `exportRelease`. -/
def exportRelease (env : UploadEnv) (presign : String → String → String) (params : ReleaseParams) :
    UploadProg ExportReleaseDto := do
  let projectId ← exportedProject params
  match ← gets (UploadDb.getReleaseEntity · projectId params.version) with
  | none => throw (.notFound
      s!"Release not found for project: {projectId}, version: {params.version}")
  | some loaded => do
    let projectName ← gets fun db : UploadDb =>
      (Rows.findKey Project.id loaded.release.projectId db.projects).map (·.name)
    let exported ← foldEach (exportEach env presign) ([], []) loaded.artifacts
    pure {
      name := (truthy loaded.release.name).getD ""
      version := loaded.release.version
      tag := s!"v{loaded.release.version}"
      project := projectName.getD ""
      status := loaded.release.status
      releaseNotes := (truthy loaded.release.releaseNotes).getD ""
      author := (truthy loaded.release.createdBy).getD "unknown@example.com"
      metadata := loaded.release.metadata
      artifacts := exported.1
      dockerImages := exported.2
      dependencies := loaded.dependencies.map exportDependency }

/-! ### What it exports -/

/-- The checksum that goes into the export. -/
def exportedSha256 (env : UploadEnv) (db : UploadDb) (file : FileUpload) : String :=
  ((truthy file.sha256).or ((db.getObjectStat env.bucketName file.objectKey).bind (·.sha256))).getD ""

def exportedFile (env : UploadEnv) (presign : String → String → String) (db : UploadDb)
    (a : ReleaseArtifact) (file : FileUpload) : ExportArtifactDto where
  name := file.fileName
  size := file.size.getD 0
  sha256 := exportedSha256 env db file
  downloadUrl := presign env.bucketName file.objectKey
  metadata := a.metadata

/-- The file artifacts with their file uploads. -/
def filesOf (items : List (ReleaseArtifact × Option FileUpload)) :
    List (ReleaseArtifact × FileUpload) :=
  items.filterMap fun item => match item.1.type with
    | .file => item.2.map fun file => (item.1, file)
    | _ => none

def imagesOf (items : List (ReleaseArtifact × Option FileUpload)) : List ReleaseArtifact :=
  (items.map (·.1)).filter fun a => a.type == .dockerImage

/-- The export of a release that was loaded. -/
def exportedRelease (env : UploadEnv) (presign : String → String → String) (db : UploadDb)
    (loaded : LoadedRelease) : ExportReleaseDto where
  name := (truthy loaded.release.name).getD ""
  version := loaded.release.version
  tag := s!"v{loaded.release.version}"
  project := ((Rows.findKey Project.id loaded.release.projectId db.projects).map (·.name)).getD ""
  status := loaded.release.status
  releaseNotes := (truthy loaded.release.releaseNotes).getD ""
  author := (truthy loaded.release.createdBy).getD "unknown@example.com"
  metadata := loaded.release.metadata
  artifacts := (filesOf loaded.artifacts).map fun (a, file) => exportedFile env presign db a file
  dockerImages := (imagesOf loaded.artifacts).map exportDockerImage
  dependencies := loaded.dependencies.map exportDependency

variable {env : UploadEnv} {db : UploadDb}

theorem exportSha256_run {s : UploadDb} (hs : s.storage = db.storage) (file : FileUpload) :
    ∃ s', exportSha256 env file s = (.ok (exportedSha256 env db file), s') ∧
      s'.storage = db.storage := by
  unfold exportSha256 exportedSha256
  cases truthy file.sha256 with
  | some sha256 => exact ⟨s, rfl, hs⟩
  | none =>
      have hstat : s.getObjectStat env.bucketName file.objectKey =
          db.getObjectStat env.bucketName file.objectKey := by
        unfold UploadDb.getObjectStat
        rw [hs]
      have hread : calculateSha256FromBucket env.bucketName file.objectKey s =
          match (db.getObjectStat env.bucketName file.objectKey).bind (·.sha256) with
          | none => (.error (.queryFailed "The specified key does not exist."), s)
          | some sha256 => (.ok sha256, s) := by
        unfold calculateSha256FromBucket
        rw [gets_bind_run, hstat]
        cases (db.getObjectStat env.bucketName file.objectKey).bind (·.sha256) <;> rfl
      cases hsha : (db.getObjectStat env.bucketName file.objectKey).bind (·.sha256) with
      | none =>
          rw [hsha] at hread
          exact ⟨s, tryCatch_run_error (bind_run_error hread _) _, hs⟩
      | some sha256 =>
          rw [hsha] at hread
          refine ⟨updateFileUpload file.id (fun f => { f with sha256 := some sha256 }) s, ?_, hs⟩
          apply tryCatch_run_ok
          rw [bind_run_ok hread]
          rfl

/-- **Step.** One artifact, with the files and the images that are done. -/
theorem exportEach_run {presign : String → String → String} {s : UploadDb}
    (hs : s.storage = db.storage) (done : List (ReleaseArtifact × Option FileUpload))
    (item : ReleaseArtifact × Option FileUpload) :
    ∃ s', exportEach env presign ((filesOf done).map fun (a, file) => exportedFile env presign db a file,
        (imagesOf done).map exportDockerImage) item s =
      (.ok ((filesOf (done ++ [item])).map fun (a, file) => exportedFile env presign db a file,
        (imagesOf (done ++ [item])).map exportDockerImage), s') ∧ s'.storage = db.storage := by
  obtain ⟨a, file⟩ := item
  have hfiles : filesOf (done ++ [(a, file)]) = filesOf done ++ filesOf [(a, file)] :=
    List.filterMap_append
  have himages : imagesOf (done ++ [(a, file)]) = imagesOf done ++ imagesOf [(a, file)] := by
    unfold imagesOf
    rw [List.map_append, List.filter_append]
  rw [hfiles, himages, List.map_append, List.map_append]
  unfold exportEach
  cases htype : a.type with
  | file =>
      cases file with
      | none => exact ⟨s, by simp [filesOf, imagesOf, htype], hs⟩
      | some file =>
          obtain ⟨s', hrun, hs'⟩ := @exportSha256_run env db s hs file
          have hartifact : exportArtifact env presign a file s =
              (.ok (exportedFile env presign db a file), s') := bind_run_ok hrun _
          refine ⟨s', (bind_run_ok hartifact _).trans ?_, hs'⟩
          simp [filesOf, imagesOf, htype]
  | dockerImage => exact ⟨s, by simp [filesOf, imagesOf, htype], hs⟩
  | rpm => exact ⟨s, by simp [filesOf, imagesOf, htype], hs⟩
  | deb => exact ⟨s, by simp [filesOf, imagesOf, htype], hs⟩

/-- **Spec.** The export of the release with the version. -/
theorem exportRelease_run (presign : String → String → String) {params : ReleaseParams} {p : ℕ}
    (hproject : exportedProject params db = (.ok p, db)) {loaded : LoadedRelease}
    (hload : db.getReleaseEntity p params.version = some loaded) :
    (exportRelease env presign params db).1 = .ok (exportedRelease env presign db loaded) := by
  have hstep : ∀ done item acc (s : UploadDb), item ∈ loaded.artifacts →
      (acc = ((filesOf done).map fun (a, file) => exportedFile env presign db a file,
        (imagesOf done).map exportDockerImage) ∧ s.storage = db.storage) →
      ∃ acc' s', exportEach env presign acc item s = (.ok acc', s') ∧
        (acc' = ((filesOf (done ++ [item])).map fun (a, file) => exportedFile env presign db a file,
          (imagesOf (done ++ [item])).map exportDockerImage) ∧ s'.storage = db.storage) := by
    rintro done item acc s - ⟨rfl, hs⟩
    obtain ⟨s', hrun, hs'⟩ := @exportEach_run env db presign s hs done item
    exact ⟨_, s', hrun, rfl, hs'⟩
  obtain ⟨acc, s, hrun, rfl, -⟩ := Prog.foldEach_run
    (I := fun done acc (s : UploadDb) => acc = ((filesOf done).map fun (a, file) =>
      exportedFile env presign db a file, (imagesOf done).map exportDockerImage) ∧
        s.storage = db.storage) hstep [] ([], []) ⟨rfl, rfl⟩
  unfold exportRelease
  rw [bind_run_ok hproject, gets_bind_run, hload]
  show ((gets _ >>= fun projectName => _ : UploadProg ExportReleaseDto) db).1 = _
  rw [gets_bind_run, bind_run_ok hrun]
  rfl

end ReleaseService

/-! ### The export as a request to import -/

def ExportArtifactDto.asImport (dto : ExportArtifactDto) : ImportArtifactDto where
  name := dto.name
  downloadUrl := some dto.downloadUrl
  sha256 := some dto.sha256
  isExecutable := none
  arguments := none
  metadata := some dto.metadata

def ExportDockerImageDto.asImport (dto : ExportDockerImageDto) : ImportDockerImageDto where
  name := dto.name
  imageUrl := dto.imageUrl
  metadata := some dto.metadata

/-- The export as the request to import, for a project of the other deployment. -/
def ExportReleaseDto.asImport (dto : ExportReleaseDto) (projectIdentifier : Identifier) :
    ImportReleaseDto where
  projectIdentifier := projectIdentifier
  version := dto.version
  name := some dto.name
  releaseNotes := some dto.releaseNotes
  metadata := some dto.metadata
  author := some dto.author
  dependencies := dto.dependencies.map (·.catalogId)
  dockerImages := dto.dockerImages.map (·.asImport)
  artifacts := dto.artifacts.map (·.asImport)

end UploadService
