import UploadService.Release.Files
import UploadService.Release.Regulations

/-!
# The refresh of a release

`refreshReleaseState` re-evaluates a release after something it rests on has changed:
its regulations, its dependencies, its installation artifacts. It reads the release
once, then looks at the regulations, the files and the storage, and at the end writes
the status that the reading and the looks give together.

A change of the status starts a refresh of every release that depends on this one;
those refreshes are not waited for.
-/

namespace UploadService

namespace ReleaseService

open Prog FileUploadService RegulationStatusService

/-! ### What a refresh looks at -/

/-- The regulation has a status, and the first one found is compliant. -/
def isCompliantWith (statuses : List RegulationStatusDto) (g : Regulation) : Bool :=
  match statuses.find? fun s => s.regulation == some g.name with
  | some s => s.isCompliant
  | none => false

def numCompliant (regulations : List Regulation) (statuses : List RegulationStatusDto) : ℕ :=
  (regulations.filter (isCompliantWith statuses)).length

def dependenciesReleased (loaded : LoadedRelease) : Bool :=
  !loaded.dependencies.isEmpty && loaded.dependencies.all fun dep => dep.status == .released

def installationArtifacts (loaded : LoadedRelease) : List (ReleaseArtifact × Option FileUpload) :=
  loaded.artifacts.filter fun a => a.1.isInstallationFile

def fileInstallationArtifacts (loaded : LoadedRelease) :
    List (ReleaseArtifact × Option FileUpload) :=
  (installationArtifacts loaded).filter fun a => a.1.type == .file

def dockerInstallationArtifacts (loaded : LoadedRelease) :
    List (ReleaseArtifact × Option FileUpload) :=
  (installationArtifacts loaded).filter fun a => a.1.type == .dockerImage

def packageInstallationArtifacts (loaded : LoadedRelease) :
    List (ReleaseArtifact × Option FileUpload) :=
  (installationArtifacts loaded).filter fun a => a.1.type == .rpm || a.1.type == .deb

def fileIds (loaded : LoadedRelease) : List ℕ :=
  (fileInstallationArtifacts loaded).filterMap fun a => a.2.map (·.id)

/-- The installation artifacts are ready. -/
def fileUploaded (db : UploadDb) (loaded : LoadedRelease) : Bool :=
  !(installationArtifacts loaded).isEmpty &&
    if (fileInstallationArtifacts loaded).isEmpty then
      !(dockerInstallationArtifacts loaded).isEmpty || !(packageInstallationArtifacts loaded).isEmpty
    else areFilesUploaded db (fileIds loaded)

/-- What a refresh has found out when it comes to the status. -/
structure Verdict where
  regulationsCompliant : Bool
  dependenciesReleased : Bool
  storageMissing : Bool
  fileUploaded : Bool
  deriving DecidableEq, Repr

/-- The release may be `RELEASED`. -/
def Verdict.passes (v : Verdict) : Bool :=
  v.regulationsCompliant && (v.dependenciesReleased || v.fileUploaded)

/-! ### The writes of a refresh -/

def updateReleases (p : Release → Bool) (f : Release → Release) (db : UploadDb) : UploadDb :=
  { db with releases := Rows.updateWhere p f db.releases }

/-- The counts of the regulations; a released row keeps its own. -/
def updateRegulationCounts (projectId : ℕ) (version : String) (required compliant : ℕ) :
    UploadDb → UploadDb :=
  updateReleases (fun r => UploadDb.isRelease projectId version r && r.status != .released)
    fun r => { r with requiredRegulationsCount := required, compliantRegulationsCount := compliant }

/-- A demotion, to `ERROR` or to `IN_REVIEW`: its condition repeats the expected status. -/
def demote (projectId : ℕ) (version : String) (status : ReleaseStatus) : UploadDb → UploadDb :=
  updateReleases (fun r => UploadDb.isRelease projectId version r && r.status == .released)
    fun r => { r with
      status := status
      releasedAt := if status = .error then r.releasedAt else none }

/-- The promotion: its condition is the release alone. -/
def promote (projectId : ℕ) (version : String) (db : UploadDb) : UploadDb :=
  updateReleases (UploadDb.isRelease projectId version)
    (fun r => { r with status := .released, releasedAt := r.releasedAt.or (some db.now) }) db

/-- The released row of the project with the greatest sort order. -/
def latestReleased (db : UploadDb) (projectId : ℕ) : Option Release :=
  ((db.releases.filter fun r => r.projectId == projectId && r.status == .released).insertionSort
    fun a b => b.sortOrder ≤ a.sortOrder).head?

def updateLatestForProject (projectId : ℕ) (db : UploadDb) : UploadDb :=
  let latest := latestReleased db projectId
  updateReleases (fun r => r.projectId == projectId)
    (fun r => { r with latest := latest.any fun l => l.catalogId == r.catalogId }) db

/-- Starts a call that is not waited for. -/
def start (task : PendingTask) (db : UploadDb) : UploadDb := { db with pending := db.pending ++ [task] }

/-- The refreshes of the releases that depend on this one. -/
def startDependents (loaded : LoadedRelease) (db : UploadDb) : UploadDb :=
  { db with pending := db.pending ++
      loaded.dependentReleases.map fun dep => PendingTask.refreshReleaseState dep.projectId dep.version }

/-- What follows a change of the status. -/
def afterChange (projectId : ℕ) (loaded : LoadedRelease) (db : UploadDb) : UploadDb :=
  startDependents loaded (updateLatestForProject projectId db)

/-- The status that the release, as it was read, and the verdict give; `none` leaves it. -/
def decideStatus (read : ReleaseStatus) (v : Verdict) : Option ReleaseStatus :=
  if !v.passes && read == .released then
    some (if v.storageMissing then .error else .inReview)
  else if v.passes && read == .inReview then some .released
  else none

/-- The rows that the write of the status may hit. -/
def statusTarget (projectId : ℕ) (version : String) (target : ReleaseStatus) (r : Release) : Bool :=
  UploadDb.isRelease projectId version r && (target == .released || r.status == .released)

/-- The write of the status. -/
def writeStatus (projectId : ℕ) (version : String) : ReleaseStatus → UploadDb → UploadDb
  | .released => promote projectId version
  | status => demote projectId version status

/-- The write of the status, and what follows where it affected a row. -/
def settle (projectId : ℕ) (version : String) (loaded : LoadedRelease) (v : Verdict)
    (db : UploadDb) : UploadDb :=
  match decideStatus loaded.release.status v with
  | none => db
  | some status =>
      if db.releases.any (statusTarget projectId version status) then
        afterChange projectId loaded (writeStatus projectId version status db)
      else db

/-! ### The refresh -/

/-- `ERROR` and `ARCHIVED` are terminal for a refresh. -/
def isTerminal (status : ReleaseStatus) : Bool := status == .error || status == .archived

/-- A refresh from the point on where the release is read. -/
def refreshLoaded (env : UploadEnv) (projectId : ℕ) (version : String) (loaded : LoadedRelease) :
    UploadProg Unit := do
  let regulations ← gets (regulationsOf · projectId)
  let statuses ← gets (getVersionRegulationsStatuses · projectId version)
  modify (updateRegulationCounts projectId version regulations.length
    (numCompliant regulations statuses))
  let storageMissing ← syncAndCheckMissingFiles env (fileIds loaded)
  let fileUploaded ← gets (fileUploaded · loaded)
  modify (settle projectId version loaded {
    regulationsCompliant := regulations.all (isCompliantWith statuses)
    dependenciesReleased := dependenciesReleased loaded
    storageMissing := storageMissing
    fileUploaded := fileUploaded })

def refreshReleaseState (env : UploadEnv) (projectId : ℕ) (version : String) :
    UploadProg Unit := do
  match ← gets (UploadDb.getReleaseEntity · projectId version) with
  | none => pure ()
  | some loaded =>
    if isTerminal loaded.release.status then pure ()
    else refreshLoaded env projectId version loaded

end ReleaseService

end UploadService
