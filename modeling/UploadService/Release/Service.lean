import UploadService.Release.Refresh

/-!
# The release service

`ReleaseService`: the handlers that create, change and delete releases and their
artifacts, and what the service does when a file or a regulation changes. A handler
that starts a refresh without waiting for it leaves it among the pending tasks.

A request names its project twice: by the identifier its sender wrote and by the id
the guard put in. Most handlers use the id; `getRelease` goes by the identifier.
-/

namespace UploadService

/-! ### Requests -/

structure SetReleaseDto where
  projectIdentifier : Option Identifier
  projectId : ℕ
  version : String
  name : Option String
  releaseNotes : Option String
  metadata : Option ReleaseMetadata
  isDraft : Option Bool
  status : Option ReleaseStatus
  dependencies : Option (List String)
  deriving DecidableEq, Repr

structure ReleaseParams where
  projectIdentifier : Option Identifier
  projectId : ℕ
  version : String
  deriving DecidableEq, Repr

structure SetReleaseArtifactDto where
  projectIdentifier : Option Identifier
  projectId : ℕ
  version : String
  artifactName : String
  type : ArtifactType
  isInstallationFile : Bool
  dockerImageUrl : Option String
  metadata : Option Object
  isExecutable : Option Bool
  arguments : Option String
  enableSbomScan : Option Bool
  packageVersion : Option String
  deriving DecidableEq, Repr

structure UpdateFilePropertiesDto where
  projectIdentifier : Option Identifier
  projectId : ℕ
  version : String
  id : Option ℕ
  arguments : Option String
  isExecutable : Option Bool
  isInstallationFile : Option Bool
  metadata : Option Object
  deriving DecidableEq, Repr

namespace ReleaseService

open Prog FileUploadService RegulationStatusService

def defaultRuleId : String := "00000000-0000-0000-0000-000000000001"

/-! ### Shared steps -/

/-- `RELEASED` and `ERROR` are read-only without the role. -/
def isReadonly (env : UploadEnv) (status : ReleaseStatus) : Bool :=
  (status == .released || status == .error) && !env.canEditReleased

def checkReadonlyReleasePermission (env : UploadEnv) (status : ReleaseStatus) : UploadProg Unit :=
  let name := status.toText
  if isReadonly env status then
    throw (.forbidden (s!"This release is in {name} status and is read-only. " ++
      "You need the \"edit-released-release\" permission to modify it."))
  else pure ()

/-- `Number.isFinite(Number(size)) ? Number(size) : 0`. -/
def finiteSize : Option SizeValue → ℤ
  | some (.finite n) => n
  | _ => 0

/-- `totalSize`: the installation size and the sizes of the files. -/
def totalSizeOf (loaded : LoadedRelease) : ℤ :=
  finiteSize loaded.release.metadata.installationSize +
    ((loaded.artifacts.filterMap fun a => a.2.bind (·.size)).map Int.ofNat).sum

def updateTotalSize (projectId : ℕ) (version : String) (db : UploadDb) : UploadDb :=
  match db.getReleaseEntity projectId version with
  | none => db
  | some loaded => updateReleases (UploadDb.isRelease projectId version) (fun r => { r with
      metadata := { loaded.release.metadata with totalSize := some (totalSizeOf loaded) } }) db

/-- The project that `getRelease` goes by: the identifier decides, where it is there. -/
def resolveProject (projectIdentifier : Option Identifier) (projectId : ℕ) : UploadProg ℕ :=
  match projectIdentifier with
  | none => pure projectId
  | some (.id n) => pure n
  | some (.name s) => do
    match ← gets fun db : UploadDb => Rows.findKey Project.name s db.projects with
    | none => throw (.notFound s!"Project not found: {s}")
    | some project => pure project.id

/-- `getRelease`: the release, and the project id it leaves in the request. -/
def getRelease (projectIdentifier : Option Identifier) (projectId : ℕ) (version : String) :
    UploadProg (ℕ × LoadedRelease) := do
  let id ← resolveProject projectIdentifier projectId
  match ← gets (UploadDb.getReleaseEntity · id version) with
  | none => throw (.notFound s!"Release not found for project: {id}, version: {version}")
  | some loaded => pure (id, loaded)

/-! ### Setting a release -/

/-- The status a request asks for; an explicit status goes before `isDraft`. -/
def requestedStatus (dto : SetReleaseDto) (status : ReleaseStatus) : ReleaseStatus :=
  match dto.status, dto.isDraft with
  | some .archived, _ => .archived
  | some .draft, _ => .draft
  | some .inReview, _ => if status ≠ .released ∧ status ≠ .error then .inReview else status
  | some .released, _ => .released
  | _, some true => .draft
  | _, some false => if status ≠ .error ∧ status ≠ .released then .inReview else status
  | _, none => status

/-- `getAndValidateDependenciesForRelease`. -/
def getAndValidateDependenciesForRelease (projectId : ℕ) (version : String)
    (dependencies : List String) : UploadProg (List Release) := do
  let dependencyEntities ← gets fun db : UploadDb =>
    db.releases.filter fun r => dependencies.contains r.catalogId
  if dependencyEntities.length < dependencies.length then
    throw (.notFound "Some dependencies do not exist")
  else if dependencyEntities.any (UploadDb.isRelease projectId version) then
    throw (.conflict s!"Release {version} cannot depend on itself.")
  else pure dependencyEntities

/-- The dependencies the request brings, where it brings some. -/
def requestedDependencies (dto : SetReleaseDto) : UploadProg (Option (List Release)) :=
  match dto.dependencies with
  | none => pure none
  | some dependencies => do
    let entities ← getAndValidateDependenciesForRelease dto.projectId dto.version dependencies
    pure (some entities)

/-- The dependencies of a release become these. -/
def saveDependencies (catalogId : String) (dependencies : List Release) (db : UploadDb) :
    UploadDb :=
  let wanted := dependencies.map (·.catalogId)
  let kept := Rows.deleteWhere
    (fun d => d.releaseId == catalogId && !wanted.contains d.dependencyReleaseId) db.dependencies
  let added := (wanted.map fun c => (⟨catalogId, c⟩ : ReleaseDependency)).filter
    fun d => !kept.contains d
  { db with dependencies := kept ++ added }

/-- The metadata of a request, with a finite installation size. -/
def normalizedMetadata (metadata : ReleaseMetadata) : ReleaseMetadata :=
  { metadata with
    installationSize := metadata.installationSize.map fun s => .finite (finiteSize (some s)) }

/-- The row as the request changes it. -/
def changedRelease (env : UploadEnv) (dto : SetReleaseDto) (projectName : String) (isNew : Bool)
    (required : ℕ) (r : Release) : Release :=
  let version := dto.version
  { r with
    name := some (dto.name.getD s!"{projectName}-v{version}")
    releaseNotes := dto.releaseNotes.or r.releaseNotes
    metadata := (dto.metadata.map normalizedMetadata).getD r.metadata
    status := requestedStatus dto r.status
    requiredRegulationsCount := required
    createdBy := if isNew then (truthy env.userEmail).or r.createdBy else r.createdBy
    updatedBy := (truthy env.userEmail).or r.updatedBy }

/-- `releaseRepo.save`; a new row goes through the subscriber. -/
def saveRelease (env : UploadEnv) (isNew : Bool) (row : Release) : UploadProg String :=
  if isNew then fun db =>
    match insertRelease env.semver db.projects row db.releases with
    | none => (.error (.queryFailed "duplicate key value violates unique constraint"), db)
    | some (inserted, releases) => (.ok inserted.catalogId, { db with releases := releases })
  else do
    modify (updateReleases (fun r => r.catalogId == row.catalogId) fun _ => row)
    pure row.catalogId

/-- `linkDefaultRuleToRelease`. -/
def linkDefaultRuleToRelease (catalogId : String) (db : UploadDb) : UploadDb :=
  if (db.rules.any fun rule => rule.id == defaultRuleId && rule.isActive) &&
      !db.ruleReleases.contains ⟨defaultRuleId, catalogId⟩ then
    { db with ruleReleases := db.ruleReleases ++ [⟨defaultRuleId, catalogId⟩] }
  else db

/-- `setRelease` up to the save: the row, its dependencies, and whether it is new. -/
def prepareRelease (env : UploadEnv) (dto : SetReleaseDto) :
    UploadProg (Bool × Release × Option (List Release)) := do
  let existing ← gets (UploadDb.findRelease · dto.projectId dto.version)
  let isNew := existing.isNone
  let release := existing.getD (Release.create dto.projectId dto.version)
  let ofProject ← gets fun db : UploadDb =>
    existing.bind fun _ => Rows.findKey Project.id dto.projectId db.projects
  let projectName := ((ofProject.map (·.name)).or
    (dto.projectIdentifier.map (·.toText))).getD "undefined"
  checkReadonlyReleasePermission env release.status
  let required ← gets fun db => (regulationsOf db dto.projectId).length
  let dependencies ← requestedDependencies dto
  pure (isNew, changedRelease env dto projectName isNew required release, dependencies)

/-- The dependencies that were given, the default rule of a new row, and the total size. -/
def saveRelations (dto : SetReleaseDto) (isNew : Bool) (dependencies : Option (List Release))
    (catalogId : String) : UploadProg Unit := do
  modify fun db => match dependencies with
    | none => db
    | some entities => saveDependencies catalogId entities db
  when isNew (modify (linkDefaultRuleToRelease catalogId))
  modify (updateTotalSize dto.projectId dto.version)

/-- The writes of `setRelease` before the status is looked at again. -/
def storeRelease (env : UploadEnv) (dto : SetReleaseDto) : UploadProg Unit := do
  let (isNew, row, dependencies) ← prepareRelease env dto
  let catalogId ← saveRelease env isNew row
  saveRelations dto isNew dependencies catalogId

/-- An archived release gives up the latest flag; any other is looked at again. -/
def followStatus (env : UploadEnv) (dto : SetReleaseDto) : UploadProg Unit :=
  if dto.status = some .archived then modify (updateLatestForProject dto.projectId)
  else refreshReleaseState env dto.projectId dto.version

def setRelease (env : UploadEnv) (dto : SetReleaseDto) : UploadProg LoadedRelease := do
  storeRelease env dto
  followStatus env dto
  let (_, loaded) ← getRelease dto.projectIdentifier dto.projectId dto.version
  pure loaded

/-! ### Artifacts -/

/-- The row the request describes, over what is there. -/
def changedArtifact (dto : SetReleaseArtifactDto) (a : ReleaseArtifact) : ReleaseArtifact :=
  { a with
    artifactName := some dto.artifactName
    type := dto.type
    isInstallationFile := dto.isInstallationFile
    metadata := dto.metadata.getD a.metadata
    arguments := dto.arguments.or a.arguments
    isExecutable := dto.isExecutable.getD a.isExecutable
    enableSbomScan := dto.enableSbomScan.getD true }

/-- The columns that belong to the type of the artifact. -/
def typeColumns (dto : SetReleaseArtifactDto) (fileUploadId : Option ℕ) (a : ReleaseArtifact) :
    ReleaseArtifact :=
  match dto.type with
  | .file => { a with fileUploadId := fileUploadId }
  | .dockerImage => { a with dockerImageUrl := dto.dockerImageUrl.or a.dockerImageUrl }
  | .rpm | .deb => { a with packageVersion := dto.packageVersion.or a.packageVersion }

/-- The row is one that the conflict paths of the upsert name. -/
def isSameArtifact (dto : SetReleaseArtifactDto) (catalogId : String) (fileUploadId : Option ℕ)
    (a : ReleaseArtifact) : Bool :=
  a.releaseId == catalogId && match dto.type with
    | .file => a.type == .file && a.fileUploadId.isSome && a.fileUploadId == fileUploadId
    | .dockerImage => a.type == .dockerImage && a.dockerImageUrl.isSome &&
        a.dockerImageUrl == dto.dockerImageUrl
    | .rpm | .deb => a.type == dto.type && a.artifactName == some dto.artifactName &&
        a.fileUploadId.isNone && a.dockerImageUrl.isNone

/-- A new row of an artifact: the column defaults. -/
def newArtifact (id : ℕ) (catalogId : String) : ReleaseArtifact where
  id := id
  artifactName := none
  type := .file
  dockerImageUrl := none
  isInstallationFile := false
  metadata := []
  releaseId := catalogId
  fileUploadId := none
  isExecutable := false
  arguments := none
  enableSbomScan := false
  packageVersion := none

/-- `artifactRepo.upsert`; a file upload that another artifact holds refuses the row. -/
def upsertArtifact (dto : SetReleaseArtifactDto) (catalogId : String)
    (fileUploadId : Option ℕ) : UploadProg ℕ := fun db =>
  match db.artifacts.find? (isSameArtifact dto catalogId fileUploadId) with
  | some a => (.ok a.id, { db with
      artifacts := Rows.updateWhere (isSameArtifact dto catalogId fileUploadId)
        (fun b => typeColumns dto fileUploadId (changedArtifact dto b)) db.artifacts })
  | none =>
      if fileUploadId.isSome && db.artifacts.any fun a => a.fileUploadId == fileUploadId then
        (.error (.queryFailed "duplicate key value violates unique constraint"), db)
      else (.ok db.nextId, { db with
        artifacts := db.artifacts ++
          [typeColumns dto fileUploadId (changedArtifact dto (newArtifact db.nextId catalogId))]
        nextId := db.nextId + 1 })

/-- The file upload behind a file artifact. -/
def artifactFile (env : UploadEnv) (dto : SetReleaseArtifactDto) : UploadProg (Option ℕ) :=
  match dto.type with
  | .file => do
    let projectId := dto.projectId
    let version := dto.version
    let id ← createFileUploadUrl env "release" s!"{projectId}/{version}" dto.artifactName
    pure (some id)
  | _ => pure none

def setReleaseArtifact (env : UploadEnv) (dto : SetReleaseArtifactDto) : UploadProg ℕ := do
  match ← gets (UploadDb.findRelease · dto.projectId dto.version) with
  | none => throw (.notFound s!"Release not found for id: {dto.version}")
  | some release => do
    checkReadonlyReleasePermission env release.status
    let fileUploadId ← artifactFile env dto
    let artifactId ← upsertArtifact dto release.catalogId fileUploadId
    modify (updateTotalSize dto.projectId dto.version)
    when (dto.type != .file) (modify (start (.refreshReleaseState dto.projectId dto.version)))
    pure artifactId

/-- The release that a changed file belongs to. A missing key is no condition. -/
def releaseOfFile (db : UploadDb) (objectKey : Option String) : Option Release :=
  match objectKey with
  | none => db.releases.head?
  | some key => db.releases.find? fun r => (db.artifactsOf r.catalogId).any fun a =>
      (db.fileUploadOf a).any fun f => f.objectKey == key

/-- `onFileCreate` and `onFileDelete`, which do the same. -/
def onFileChange (objectKey : Option String) : UploadProg Unit := do
  match ← gets (releaseOfFile · objectKey) with
  | none => pure ()
  | some release => do
    modify (updateTotalSize release.projectId release.version)
    modify (start (.refreshReleaseState release.projectId release.version))
    when (release.status == .error) (modify (start (.maybeRestoreReleasedStatus release.catalogId)))

def deleteArtifact (id : ℕ) (db : UploadDb) : UploadDb :=
  { db with artifacts := Rows.deleteWhere (fun a => a.id == id) db.artifacts }

/-- The artifact of the release with the id, and the status of the release. -/
def findArtifact (db : UploadDb) (projectId : ℕ) (version : String) (artifactId : ℕ) :
    Option (ReleaseArtifact × ReleaseStatus) :=
  (db.findRelease projectId version).bind fun r =>
    ((db.artifactsOf r.catalogId).find? fun a => a.id == artifactId).map fun a => (a, r.status)

/-- The deletes of `deleteReleaseArtifact`. Of the file upload of another artifact than a
file only the id is loaded, so that `onFileDelete` gets no object key. -/
def removeArtifact (env : UploadEnv) (artifact : ReleaseArtifact) : UploadProg Unit :=
  match artifact.type, artifact.fileUploadId with
  | .file, none => throw (.plain "Cannot read properties of null (reading 'id')")
  | .file, some fileId => do
    removeFile env fileId
    modify (deleteArtifact artifact.id)
    deleteItemRow fileId
  | _, some _ => do
    onFileChange none
    modify (deleteArtifact artifact.id)
  | _, none => modify (deleteArtifact artifact.id)

def deleteReleaseArtifact (env : UploadEnv) (projectId : ℕ) (version : String) (artifactId : ℕ)
    (skipPermissionCheck : Bool) : UploadProg String := do
  match ← gets (findArtifact · projectId version artifactId) with
  | none => throw (.notFound (s!"Release artifact not found for project: {projectId} " ++
      s!"release: {version}, artifact Id: {artifactId}"))
  | some (artifact, status) => do
    when (!skipPermissionCheck) (checkReadonlyReleasePermission env status)
    removeArtifact env artifact
    pure "Release Artifact deleted"

/-- Some property is given. -/
def hasProperties (dto : UpdateFilePropertiesDto) : Bool :=
  dto.isExecutable.isSome || dto.isInstallationFile.isSome || dto.arguments.isSome ||
    dto.metadata.isSome

/-- The artifact with the properties that are given. -/
def withProperties (dto : UpdateFilePropertiesDto) (a : ReleaseArtifact) : ReleaseArtifact :=
  { a with
    isExecutable := dto.isExecutable.getD a.isExecutable
    isInstallationFile := dto.isInstallationFile.getD a.isInstallationFile
    arguments := dto.arguments.or a.arguments
    metadata := dto.metadata.getD a.metadata }

/-- `updateFileMetadata` on the artifact it found: the release decides, the id selects. -/
def updateFoundArtifact (env : UploadEnv) (dto : UpdateFilePropertiesDto)
    (artifact : ReleaseArtifact) : UploadProg Unit := do
  match ← gets fun db : UploadDb =>
      Rows.findKey Release.catalogId artifact.releaseId db.releases with
  | none => throw (.plain "Cannot read properties of null (reading 'status')")
  | some release => do
    checkReadonlyReleasePermission env release.status
    if hasProperties dto then modify fun db => { db with
      artifacts := Rows.updateWhere (fun a => some a.id == dto.id) (withProperties dto)
        db.artifacts }
    else throw (.queryFailed
      "Cannot perform update query because update values are not defined.")

/-- `updateFileMetadata`: the artifact is found by its id alone. -/
def updateFileMetadata (env : UploadEnv) (dto : UpdateFilePropertiesDto) : UploadProg Unit := do
  let id := (dto.id.map toString).getD "undefined"
  match ← gets fun db : UploadDb => match dto.id with
      | none => db.artifacts.head?
      | some id => Rows.findKey ReleaseArtifact.id id db.artifacts with
  | none => throw (.notFound s!"Artifact not found with id: {id}")
  | some artifact => updateFoundArtifact env dto artifact

/-! ### Deleting, archiving and restoring -/

/-- A release that others depend on is not deleted. -/
def checkNoDependents (loaded : LoadedRelease) : UploadProg Unit :=
  if loaded.dependentReleases.isEmpty then pure ()
  else throw (.app "RELEASE.hasDependents"
    "Cannot delete release because other releases depend on it.")

/-- The policies of a release; the default rule is not one of them. -/
def policyRuleIdsOf (db : UploadDb) (catalogId : String) : List String :=
  ((db.ruleReleases.filter fun a => a.releaseCatalogId == catalogId).filterMap fun a =>
    (Rows.findKey Rule.id a.ruleId db.rules).filter fun rule =>
      rule.type == .policy && rule.id != defaultRuleId).map (·.id)

/-- The delete of the release row. Its dependencies and associations go with it;
artifacts, regulation statuses and dependent releases refuse it. -/
def deleteReleaseRow (catalogId : String) : UploadProg Unit := fun db =>
  if (db.artifacts.any fun a => a.releaseId == catalogId) ||
      (db.regulationStatuses.any fun s => s.versionId == catalogId) ||
      (db.dependencies.any fun d =>
        d.dependencyReleaseId == catalogId && d.releaseId != catalogId) then
    (.error (.queryFailed "update or delete on table \"release\" violates foreign key constraint"),
      db)
  else (.ok (), { db with
    releases := Rows.deleteWhere (fun r => r.catalogId == catalogId) db.releases
    dependencies := Rows.deleteWhere (fun d => d.releaseId == catalogId) db.dependencies
    ruleReleases := Rows.deleteWhere (fun a => a.releaseCatalogId == catalogId) db.ruleReleases })

/-- The policies without an association left are deleted. -/
def deleteOrphanedPolicies (policyRuleIds : List String) (db : UploadDb) : UploadDb :=
  let orphaned := policyRuleIds.filter fun id => !db.ruleReleases.any fun a => a.ruleId == id
  { db with rules := Rows.deleteWhere (fun rule => orphaned.contains rule.id) db.rules }

/-- The regulation statuses of the release are deleted; what fails is logged. -/
def deleteStatuses (projectId : ℕ) (version : String) :
    List RegulationStatusDto → UploadProg Unit :=
  forEach fun s => tryCatch (do
    let _ ← deleteVersionRegulationStatus projectId version s.regulation
    pure ()) fun _ => pure ()

/-- The artifacts of the release are deleted; what fails is logged. -/
def deleteArtifacts (env : UploadEnv) (projectId : ℕ) (version : String) :
    List (ReleaseArtifact × Option FileUpload) → UploadProg Unit :=
  forEach fun a => tryCatch (do
    let _ ← deleteReleaseArtifact env projectId version a.1.id true
    pure ()) fun _ => pure ()

def deleteContents (env : UploadEnv) (projectId : ℕ) (version : String) (loaded : LoadedRelease) :
    UploadProg Unit := do
  let statuses ← gets (getVersionRegulationsStatuses · projectId version)
  deleteStatuses projectId version statuses
  deleteArtifacts env projectId version loaded.artifacts

/-- `deleteRelease`: the project id it leaves in the request. -/
def deleteRelease (env : UploadEnv) (params : ReleaseParams) : UploadProg ℕ := do
  let (projectId, loaded) ← getRelease params.projectIdentifier params.projectId params.version
  checkNoDependents loaded
  deleteContents env projectId params.version loaded
  let policyRuleIds ← gets (policyRuleIdsOf · loaded.release.catalogId)
  deleteReleaseRow loaded.release.catalogId
  modify (deleteOrphanedPolicies policyRuleIds)
  pure projectId

def archiveProjectReleases (projectId : ℕ) : UploadDb → UploadDb :=
  updateReleases (fun r => r.projectId == projectId && r.status != .archived)
    fun r => { r with status := .archived, latest := false }

def restoreProjectReleases (projectId : ℕ) (db : UploadDb) : UploadDb :=
  updateLatestForProject projectId
    (updateReleases (fun r => r.projectId == projectId && r.status == .archived)
      (fun r => { r with status := .draft }) db)

/-! ### Small releases -/

def draftOf (projectId : ℕ) (catalogId : String) : Release :=
  { Release.create projectId "1.0" with catalogId := catalogId }

def imageOf (id : ℕ) (catalogId : String) : ReleaseArtifact :=
  { newArtifact id catalogId with type := .dockerImage, dockerImageUrl := some "registry/app" }

/-- A release of the first project, with an image to install. -/
def releaseWithImage (status : ReleaseStatus) : UploadDb :=
  { oneProject with
    releases := [{ draftOf 1 "one@1.0" with status := status }]
    artifacts := [{ imageOf 1 "one@1.0" with isInstallationFile := true }]
    nextId := 2 }

end ReleaseService

end UploadService
