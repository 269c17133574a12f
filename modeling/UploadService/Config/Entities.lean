import UploadService.Lib.Rows
import UploadService.Config.Vault
import UploadService.Release.Subscriber

/-!
# Config revisions, groups and associations

The rows of the config service, the answers the other services give it, and the
one-statement reads and writes of its repositories. Keys come from one sequence
shared by all tables. The device tables are the device service's, in the same
database. The release and offering tables are those of the config projects; the
bucket holds the objects of `ConfigCacheService`.
-/

namespace UploadService

inductive ConfigRevisionStatus where
  | draft | active | archived
  deriving DecidableEq, Repr

structure ConfigRevision where
  id : ℕ
  projectId : ℕ
  revisionNumber : ℕ
  status : ConfigRevisionStatus
  appliedBy : Option String
  appliedAt : Option ℕ
  semVer : Option String
  deriving DecidableEq, Repr

structure ConfigGroup where
  id : ℕ
  revisionId : ℕ
  name : String
  displayName : Option String
  isGlobal : Bool
  gitFilePath : Option String
  yamlContent : Option YamlText
  sensitiveKeys : List String
  position : ℕ
  deriving DecidableEq, Repr

structure ConfigMapAssociation where
  id : ℕ
  configMapProjectId : ℕ
  deviceTypeId : Option ℕ
  deviceId : Option String
  configProjectId : Option ℕ
  deriving DecidableEq, Repr

inductive OfferingAction where
  | offering | push
  deriving DecidableEq, Repr

structure ComponentOffering where
  deviceId : String
  releaseCatalogId : String
  action : OfferingAction
  deriving DecidableEq, Repr

/-- The assembled config of one device. -/
structure DeviceConfigDto where
  deviceId : String
  configRevisionId : Option ℕ
  semVer : Option String
  groups : List (String × Object)
  computedAt : ℕ
  deriving DecidableEq, Repr

/-- A device with its `device_device_types` rows. -/
structure Device where
  id : String
  typeIds : List ℕ
  deriving DecidableEq, Repr

structure ConfigDb where
  projects : List Project
  deviceTypes : List ℕ
  devices : List Device
  revisions : List ConfigRevision
  groups : List ConfigGroup
  assocs : List ConfigMapAssociation
  releases : List Release
  offerings : List ComponentOffering
  vault : Vault
  bucket : List (String × DeviceConfigDto)
  nextId : ℕ

/-- What the other services answer during one call. An RPC that fails answers as
the caller's `catch` does: no project, no device type, no device. -/
structure Peers where
  /-- GET_PROJECT_BY_IDENTIFIER, fresh or from the project cache -/
  project : Identifier → Option Project
  /-- the first project GET_PROJECTS lists for a name and a type -/
  projectNamed : String → ProjectType → Option Project
  /-- GET_DEVICE_TYPE_BY_NAME -/
  deviceTypeExists : ℕ → Bool
  /-- GET_DEVICE_TYPE_IDS_FOR_DEVICE -/
  deviceTypeIds : String → List ℕ
  /-- GET_DEVICE_IDS_BY_TYPE_IDS -/
  deviceIdsByTypeIds : List ℕ → List String
  semver : SemverLib
  /-- whether the bucket takes the object of this call -/
  bucketUp : Bool
  now : ℕ

abbrev ConfigProg : Type → Type := Prog ConfigDb Exception

namespace ConfigDb

/-- The project's revisions in a status. -/
def revisionsIn (db : ConfigDb) (projectId : ℕ) (status : ConfigRevisionStatus) :
    List ConfigRevision :=
  db.revisions.filter fun r => r.projectId == projectId && r.status == status

/-- `revisionRepo.findOne({ where: { projectId, status } })`. -/
def findRevision (db : ConfigDb) (projectId : ℕ) (status : ConfigRevisionStatus) :
    Option ConfigRevision :=
  db.revisions.find? fun r => r.projectId == projectId && r.status == status

/-- The groups of a revision, by its `groups` relation. -/
def groupsOf (db : ConfigDb) (revisionId : ℕ) : List ConfigGroup :=
  db.groups.filter fun g => g.revisionId == revisionId

def findGroup (db : ConfigDb) (revisionId : ℕ) (name : String) : Option ConfigGroup :=
  db.groups.find? fun g => g.revisionId == revisionId && g.name == name

/-- `MAX(r.revisionNumber)` over the project. -/
def maxRevisionNumber (db : ConfigDb) (projectId : ℕ) : Option ℕ :=
  Rows.maxOf ConfigRevision.revisionNumber (db.revisions.filter fun r => r.projectId == projectId)

/-- The types of a device. -/
def typesOf (db : ConfigDb) (deviceId : String) : List ℕ :=
  (db.devices.filter fun d => d.id == deviceId).flatMap (·.typeIds)

/-- The rows the foreign keys of an association refer to are there. -/
def acceptsAssoc (db : ConfigDb) (a : ConfigMapAssociation) : Bool :=
  (db.projects.any fun project => project.id == a.configMapProjectId) &&
  (match a.deviceTypeId with
    | some t => db.deviceTypes.contains t
    | none => true) &&
  (match a.deviceId with
    | some d => db.devices.any fun device => device.id == d
    | none => true) &&
  (match a.configProjectId with
    | some p => db.projects.any fun project => project.id == p
    | none => true)

/-- The newest archived revision of the project. -/
def findLastArchived (db : ConfigDb) (projectId : ℕ) : Option ConfigRevision :=
  ((db.revisionsIn projectId .archived).insertionSort
    fun a b => b.revisionNumber ≤ a.revisionNumber).head?

end ConfigDb

/-! ### Write statements -/

namespace ConfigRepo

/-- An insert of a DRAFT revision. -/
def insertDraft (projectId revisionNumber : ℕ) : ConfigProg ConfigRevision :=
  Prog.modifyGet fun db =>
    let row : ConfigRevision := {
      id := db.nextId, projectId := projectId, revisionNumber := revisionNumber,
      status := .draft, appliedBy := none, appliedAt := none, semVer := none }
    (row, { db with revisions := db.revisions ++ [row], nextId := db.nextId + 1 })

def updateRevisions (p : ConfigRevision → Bool) (f : ConfigRevision → ConfigRevision) :
    ConfigProg Unit :=
  Prog.modify fun db => { db with revisions := Rows.updateWhere p f db.revisions }

/-- `update({ projectId, status: ACTIVE }, { status: ARCHIVED })`. -/
def archiveActive (projectId : ℕ) : ConfigProg Unit :=
  updateRevisions (fun r => r.projectId == projectId && r.status == .active)
    fun r => { r with status := .archived }

/-- The removal of a revision; its groups go with it (ON DELETE CASCADE). -/
def removeRevision (id : ℕ) : ConfigProg Unit :=
  Prog.modify fun db => { db with
    revisions := Rows.deleteWhere (fun r => r.id == id) db.revisions
    groups := Rows.deleteWhere (fun g => g.revisionId == id) db.groups }

def insertGroup (group : ConfigGroup) : ConfigProg ConfigGroup :=
  Prog.modifyGet fun db =>
    let row := { group with id := db.nextId }
    (row, { db with groups := db.groups ++ [row], nextId := db.nextId + 1 })

/-- `groupRepo.save` of a loaded group. -/
def saveGroup (group : ConfigGroup) : ConfigProg Unit :=
  Prog.modify fun db => { db with groups := Rows.save ConfigGroup.id group db.groups }

def removeGroup (id : ℕ) : ConfigProg Unit :=
  Prog.modify fun db => { db with groups := Rows.deleteWhere (fun g => g.id == id) db.groups }

/-- An insert of an association; a missing row it refers to violates the foreign key. -/
def insertAssoc (assoc : ConfigMapAssociation) : ConfigProg ConfigMapAssociation := fun db =>
  let row := { assoc with id := db.nextId }
  if db.acceptsAssoc assoc then
    (.ok row, { db with assocs := db.assocs ++ [row], nextId := db.nextId + 1 })
  else (.error (.queryFailed
    "insert or update on table config_map_association violates foreign key constraint"), db)

def removeAssoc (id : ℕ) : ConfigProg Unit :=
  Prog.modify fun db => { db with assocs := Rows.deleteWhere (fun a => a.id == id) db.assocs }

end ConfigRepo

/-- A Vault call of the config service. -/
def vaultCall {α : Type} (p : VaultProg α) : ConfigProg α :=
  Prog.zoom ConfigDb.vault (fun v db => { db with vault := v }) p

end UploadService
