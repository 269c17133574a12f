import UploadService.Release.Store

/-!
# Regulation statuses

`RegulationStatusService`: the compliance of a release with the regulations of its
project. A status refers to its regulation, and keeps a snapshot of it from the time
it became compliant; the snapshot stays when the regulation is deleted.

Every write is confined to statuses of releases of the project of the request.
-/

namespace UploadService

/-- `RegulationStatusDto`: the verdict, and the name under which a status is shown. -/
structure RegulationStatusDto where
  value : Option String
  reportDetails : Option String
  isCompliant : Bool
  regulation : Option String
  projectId : Option ℕ
  /-- shown only of a deleted regulation -/
  regulationSnapshot : Option RegulationSnapshot
  deriving DecidableEq, Repr

/-- `SetRegulationStatusDto` and `SetRegulationCompliancyDto`, without their verdict. -/
structure RegulationStatusParams where
  projectIdentifier : Option Identifier
  projectId : ℕ
  version : String
  regulation : String
  deriving DecidableEq, Repr

namespace RegulationStatusService

open Prog

def regulationsOf (db : UploadDb) (projectId : ℕ) : List Regulation :=
  db.regulations.filter fun g => g.projectId == projectId

/-- The regulation a status refers to. -/
def regulationOf (db : UploadDb) (s : RegulationStatus) : Option Regulation :=
  s.regulationId.bind fun id => Rows.findKey Regulation.id id db.regulations

/-- The status is one of the release `{ project: { id }, version }`. -/
def isStatusOf (db : UploadDb) (projectId : ℕ) (version : String) (s : RegulationStatus) : Bool :=
  db.releases.any fun r => r.catalogId == s.versionId && UploadDb.isRelease projectId version r

def createRegulationSnapshot (g : Regulation) : RegulationSnapshot where
  name := g.displayName.getD g.name
  description := g.description
  config := g.config
  typeId := g.type.id

/-- `fromRegulationStatusEntity`. -/
def toDto (db : UploadDb) (s : RegulationStatus) : RegulationStatusDto where
  value := s.value
  reportDetails := s.reportDetails
  isCompliant := s.isCompliant
  regulation := ((regulationOf db s).map (·.name)).or (s.regulationSnapshot.map (·.name))
  projectId := (regulationOf db s).map (·.projectId)
  regulationSnapshot := if (regulationOf db s).isNone then s.regulationSnapshot else none

/-- `ORDER BY regulation.order ASC`: statuses without a regulation come last. -/
def regulationOrder (db : UploadDb) (s t : RegulationStatus) : Prop :=
  match regulationOf db s, regulationOf db t with
  | some g, some h => g.order ≤ h.order
  | none, some _ => False
  | _, none => True

instance (db : UploadDb) : DecidableRel (regulationOrder db) := fun s t =>
  match hs : regulationOf db s, ht : regulationOf db t with
  | some g, some h => decidable_of_iff (g.order ≤ h.order) (by simp [regulationOrder, hs, ht])
  | none, some _ => isFalse (by simp [regulationOrder, hs, ht])
  | some _, none => isTrue (by simp [regulationOrder, hs, ht])
  | none, none => isTrue (by simp [regulationOrder, hs, ht])

def getVersionRegulationsStatuses (db : UploadDb) (projectId : ℕ) (version : String) :
    List RegulationStatusDto :=
  ((db.regulationStatuses.filter (isStatusOf db projectId version)).insertionSort
    (regulationOrder db)).map (toDto db)

/-- `getRegulationAndRelease`. -/
def getRegulationAndRelease (params : RegulationStatusParams) :
    UploadProg (Regulation × Release) := do
  let regulationEntity ← gets fun db : UploadDb => db.regulations.find? fun g =>
    g.name == params.regulation && g.projectId == params.projectId
  let releaseEntity ← gets fun db : UploadDb => db.findRelease params.projectId params.version
  match releaseEntity, regulationEntity with
  | none, _ => throw (.notFound
      s!"Version {params.version} for Project ID {params.projectId} not found")
  | some _, none => throw (.notFound
      s!"Regulation {params.regulation} for Project ID {params.projectId} not found")
  | some release, some regulation => pure (regulation, release)

/-- `regulation_version_unique_constraint`. -/
def isSameStatus (row s : RegulationStatus) : Bool :=
  s.regulationId == row.regulationId && s.versionId == row.versionId

/-- The insert on the unique constraint of regulation and version; an existing row is
changed by `f`. -/
def upsertStatus (row : RegulationStatus) (f : RegulationStatus → RegulationStatus)
    (db : UploadDb) : UploadDb :=
  if db.regulationStatuses.any (isSameStatus row) then
    { db with regulationStatuses := Rows.updateWhere (isSameStatus row) f db.regulationStatuses }
  else
    { db with
      regulationStatuses := db.regulationStatuses ++ [{ row with id := db.nextId }]
      nextId := db.nextId + 1 }

/-- A status is shown or deleted under the name of its regulation or of its snapshot. A
missing name is no condition. -/
def isNamed (db : UploadDb) (regulation : Option String) (s : RegulationStatus) : Bool :=
  match regulation with
  | none => true
  | some name => (s.regulationSnapshot.any fun snapshot => snapshot.name == name) ||
      ((regulationOf db s).any fun g => g.name == name)

def getVersionRegulationStatus (params : RegulationStatusParams) :
    UploadProg RegulationStatusDto := do
  match ← gets fun db : UploadDb => (db.regulationStatuses.find? fun s =>
      isStatusOf db params.projectId params.version s && isNamed db (some params.regulation) s).map
      (toDto db) with
  | none => throw (.notFound (s!"Regulation status with regulation {params.regulation} for " ++
      s!"Project ID {params.projectId} not found"))
  | some dto => pure dto

def setRegulationStatus (env : UploadEnv) (params : RegulationStatusParams) (value : String)
    (reportDetails : Option String) : UploadProg RegulationStatusDto := do
  let (regulation, release) ← getRegulationAndRelease params
  let isCompliant ← fun db => (env.enforce db regulation value, db)
  let snapshot := if isCompliant then some (createRegulationSnapshot regulation) else none
  modify (upsertStatus ⟨0, release.catalogId, some regulation.id, snapshot, isCompliant,
      some value, reportDetails⟩
    fun s => { s with
      value := some value
      reportDetails := reportDetails
      isCompliant := isCompliant
      regulationSnapshot := snapshot })
  getVersionRegulationStatus params

def setComplianceStatus (params : RegulationStatusParams) (isCompliant : Bool) :
    UploadProg RegulationStatusDto := do
  let (regulation, release) ← getRegulationAndRelease params
  let snapshot := if isCompliant then some (createRegulationSnapshot regulation) else none
  modify (upsertStatus ⟨0, release.catalogId, some regulation.id, snapshot, isCompliant,
      none, none⟩
    fun s => { s with isCompliant := isCompliant, regulationSnapshot := snapshot })
  getVersionRegulationStatus params

/-- `deleteVersionRegulationStatus`, of the project the request names by id. -/
def deleteVersionRegulationStatus (projectId : ℕ) (version : String) (regulation : Option String) :
    UploadProg String := do
  let status ← gets fun db : UploadDb => db.regulationStatuses.find? fun s =>
    isStatusOf db projectId version s && isNamed db regulation s
  match status with
  | none =>
    let name := regulation.getD "undefined"
    throw (.notFound (s!"Regulation status with regulation {name} for Project ID {projectId} " ++
      s!"and versionId {version} not found"))
  | some status => do
    modify fun db => { db with
      regulationStatuses := Rows.deleteWhere (fun s => s.id == status.id) db.regulationStatuses }
    pure "Regulation status deleted"

def deleteOrphanRegulationStatuses (projectId : ℕ) (version : String) : UploadProg Unit :=
  modify fun db => { db with
    regulationStatuses := Rows.deleteWhere (fun s => isStatusOf db projectId version s &&
      s.regulationId.isNone && s.regulationSnapshot.isNone) db.regulationStatuses }

end RegulationStatusService

end UploadService
