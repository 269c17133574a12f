import UploadService.Config.Revisions

/-!
# Config-map associations

The operations that associate a config map with device types and devices, and
the calls a config client can make, as events of one transition system: each
event carries the answers the other services give during it.
-/

namespace UploadService

namespace ConfigService

structure AddConfigMapAssociationDto where
  configMapProjectIdentifier : Option Identifier
  deviceTypeId : Option ℕ
  deviceIds : Option (List String)

/-- The row for a device type, found or inserted; `true` when it is new. -/
def associateDeviceType (configMapProjectId deviceTypeId : ℕ) :
    ConfigProg (ConfigMapAssociation × Bool) := do
  match ← Prog.gets fun db => db.assocs.find? fun a =>
      a.configMapProjectId == configMapProjectId && a.deviceTypeId == some deviceTypeId with
  | some existing => pure (existing, false)
  | none => do
    let assoc ← ConfigRepo.insertAssoc ⟨0, configMapProjectId, some deviceTypeId, none, none⟩
    pure (assoc, true)

/-- The row for a device, found or inserted; `true` when it is new. -/
def associateDevice (configMapProjectId : ℕ) (deviceId : String) :
    ConfigProg (ConfigMapAssociation × Bool) := do
  match ← Prog.gets fun db => db.assocs.find? fun a =>
      a.configMapProjectId == configMapProjectId && a.deviceId == some deviceId with
  | some existing => pure (existing, false)
  | none => do
    let assoc ← ConfigRepo.insertAssoc ⟨0, configMapProjectId, none, some deviceId, none⟩
    pure (assoc, true)

/-- The device type of the request, which the device service must know. -/
def associateRequestedType (peers : Peers) (configMapProjectId : ℕ) :
    Option ℕ → ConfigProg (List ConfigMapAssociation)
  | none => pure []
  | some deviceTypeId =>
      if peers.deviceTypeExists deviceTypeId then do
        let assoc ← associateDeviceType configMapProjectId deviceTypeId
        pure [assoc.1]
      else Prog.throw (.notFound s!"Device type {deviceTypeId} not found")

/-- `addConfigMapAssociation`. The cascade to the newly associated devices is
started and not awaited: it is an operation of its own. -/
def addConfigMapAssociation (peers : Peers) (dto : AddConfigMapAssociationDto) :
    ConfigProg (List ConfigMapAssociation) :=
  match dto.configMapProjectIdentifier with
  | none => Prog.throw (.badRequest "configMapProjectIdentifier is required")
  | some identifier =>
      if dto.deviceTypeId.isNone && (dto.deviceIds.getD []).isEmpty then
        Prog.throw (.badRequest
          "At least one association target must be provided: deviceTypeId or deviceIds")
      else do
        let project ← requireProject peers identifier [.configMap]
        let forType ← associateRequestedType peers project.id dto.deviceTypeId
        Prog.foldEach (fun created deviceId => do
          let assoc ← associateDevice project.id deviceId
          pure (created ++ [assoc.1])) forType (dto.deviceIds.getD [])

/-- `removeConfigMapAssociation`. -/
def removeConfigMapAssociation (associationId : ℕ) : ConfigProg Bool := do
  match ← Prog.gets fun db => Rows.findKey ConfigMapAssociation.id associationId db.assocs with
  | none => Prog.throw (.notFound s!"Association {associationId} not found")
  | some assoc => do
    ConfigRepo.removeAssoc assoc.id
    pure true

end ConfigService

/-! ### Calls as events -/

open ConfigService in
inductive ConfigCall where
  | provisionProjectContent (dto : ProvisionDto)
  | upsertGroup (dto : UpsertConfigGroupDto)
  | deleteGroup (dto : DeleteConfigGroupDto)
  | createDraftRevision (dto : ProjectIdentifierDto)
  | deleteDraftRevision (dto : ProjectIdentifierDto)
  | applyRevision (dto : ApplyConfigRevisionDto)
  /-- one device of a config-map cascade -/
  | refreshConfigProjectRevision (projectId : ℕ) (deviceId : String)
  | addConfigMapAssociation (dto : AddConfigMapAssociationDto)
  | removeConfigMapAssociation (associationId : ℕ)

structure ConfigEvent where
  peers : Peers
  call : ConfigCall

namespace ConfigEvent

/-- Runs a call for its effect: an error leaves the writes made before it. -/
def effect {α : Type} (p : ConfigProg α) (db : ConfigDb) : ConfigDb := (p db).2

/-- One call, run to its end. -/
def step (db : ConfigDb) (e : ConfigEvent) : ConfigDb :=
  match e.call with
  | .provisionProjectContent dto => effect (ConfigService.provisionProjectContent e.peers dto) db
  | .upsertGroup dto => effect (ConfigService.upsertGroup e.peers dto) db
  | .deleteGroup dto => effect (ConfigService.deleteGroup e.peers dto) db
  | .createDraftRevision dto => effect (ConfigService.createDraftRevision e.peers dto) db
  | .deleteDraftRevision dto => effect (ConfigService.deleteDraftRevision e.peers dto) db
  | .applyRevision dto => effect (ConfigService.applyRevision e.peers dto) db
  | .refreshConfigProjectRevision projectId deviceId =>
      effect (ConfigService.refreshConfigProjectRevision e.peers projectId deviceId) db
  | .addConfigMapAssociation dto => effect (ConfigService.addConfigMapAssociation e.peers dto) db
  | .removeConfigMapAssociation id => effect (ConfigService.removeConfigMapAssociation id) db

end ConfigEvent

/-! ### A small world -/

/-- A store with one device project, one config-map project and two devices. -/
def smallDb : ConfigDb where
  projects := [⟨1, "config:dev-1", .config⟩, ⟨2, "maps", .configMap⟩]
  deviceTypes := [5]
  devices := [⟨"dev-1", [5]⟩, ⟨"dev-2", []⟩]
  revisions := []
  groups := []
  assocs := []
  releases := []
  offerings := []
  vault := ⟨false, "getapp-secrets", [], []⟩
  bucket := []
  nextId := 1

/-- Services that know the projects of `smallDb`, and a device of type 5. -/
def smallPeers : Peers where
  project := fun identifier => smallDb.projects.find? fun p => identifier == .id p.id || identifier == .name p.name
  projectNamed := fun name type => smallDb.projects.find? fun p => p.name == name && p.projectType == type
  deviceTypeExists := fun t => t == 5
  deviceTypeIds := fun d => if d = "dev-1" then [5] else []
  deviceIdsByTypeIds := fun ts => if ts.contains 5 then ["dev-1"] else []
  semver := plainSemver
  bucketUp := true
  now := 0

end UploadService
