import UploadService.Config.Groups

/-!
# Config maps and the delivered device config

Which config maps reach a device, how their groups are merged into a draft
(`populateDraftFromConfigMaps`) and into the payload a device is served
(`buildDeviceConfigPayload`), the versioned cache of that payload, and the
release row that carries a config project's current version.
-/

namespace UploadService

namespace ConfigService

/-! ### Applicable config maps -/

/-- One row of the three-way `where` of the association queries. -/
def assocApplies (deviceTypeIds : List ℕ) (deviceId : String) (a : ConfigMapAssociation) : Bool :=
  (a.deviceTypeId.isNone && a.deviceId.isNone && a.configProjectId.isNone) ||
  (match a.deviceTypeId with
    | some t => deviceTypeIds.contains t
    | none => false) ||
  a.deviceId == some deviceId

def applicableAssocs (db : ConfigDb) (deviceTypeIds : List ℕ) (deviceId : String) :
    List ConfigMapAssociation :=
  db.assocs.filter (assocApplies deviceTypeIds deviceId)

/-- The ACTIVE revisions of the config maps of some associations. -/
def activeMapRevisions (db : ConfigDb) (assocs : List ConfigMapAssociation) :
    List ConfigRevision :=
  db.revisions.filter fun r =>
    (assocs.map (·.configMapProjectId)).contains r.projectId && r.status == .active

/-- The ACTIVE config-map revisions that reach a device of the given types. -/
def reachingRevisions (db : ConfigDb) (deviceTypeIds : List ℕ) (deviceId : String) :
    List ConfigRevision :=
  activeMapRevisions db (applicableAssocs db deviceTypeIds deviceId)

/-! ### Merging into a draft -/

/-- What the applicable config maps say about one group name. -/
structure MergedGroup where
  isGlobal : Bool
  gitFilePath : Option String
  sensitiveKeys : List String
  data : Object
  deriving DecidableEq, Repr

/-- The entry of a group name after one more config-map group, `resolved` merged in. -/
def mergeGroup (entry : Option MergedGroup) (cmGroup : ConfigGroup) (resolved : Object) :
    MergedGroup :=
  match entry with
  | none =>
      { isGlobal := cmGroup.isGlobal
        gitFilePath := cmGroup.gitFilePath
        sensitiveKeys := ObjectMap.addKeys [] cmGroup.sensitiveKeys
        data := ObjectMap.assign [] resolved }
  | some m =>
      { m with
        sensitiveKeys := ObjectMap.addKeys m.sensitiveKeys cmGroup.sensitiveKeys
        data := ObjectMap.assign m.data resolved }

/-- The groups of some revisions, merged by name in order. -/
def mergeConfigMaps (revisions : List ConfigRevision) :
    ConfigProg (List (String × MergedGroup)) := do
  let groups ← Prog.gets fun db => revisions.flatMap fun r => db.groupsOf r.id
  Prog.foldEach (fun merged cmGroup => do
    let resolved ← resolveGroupYaml cmGroup []
    pure (ObjectMap.set merged cmGroup.name
      (mergeGroup (ObjectMap.get? merged cmGroup.name) cmGroup resolved))) [] groups

/-- One sensitive key of a merged group: its value moves to Vault. -/
def storeMergedKey (groupId : ℕ) (mergedObj : Object) (keyPath : String) : ConfigProg Object :=
  match getByPath mergedObj keyPath with
  | none | some .null => pure mergedObj
  | some value => do
      let strValue := match value with
        | .str s => s
        | v => v.json
      let vaultRef ← vaultCall (Vault.storeSecret (configVaultKeySecretName groupId keyPath)
        configVaultField strValue)
      Prog.ofExcept (assignText mergedObj keyPath vaultRef)

/-- The draft's row for a merged group: the group that is there, emptied of its
secrets and given the merged key list, or a new one. -/
def draftGroupFor (draftId : ℕ) (groupName : String) (m : MergedGroup) : ConfigProg ConfigGroup := do
  match ← Prog.gets fun db => db.findGroup draftId groupName with
  | none => do
    let position ← Prog.gets fun db => nextGroupPosition db draftId
    ConfigRepo.insertGroup { newGroup draftId groupName position with
      isGlobal := m.isGlobal, gitFilePath := m.gitFilePath, sensitiveKeys := m.sensitiveKeys }
  | some draftGroup => do
    deleteGroupVaultSecrets draftGroup
    let row := { draftGroup with sensitiveKeys := m.sensitiveKeys }
    ConfigRepo.saveGroup row
    pure row

/-- One group of the second loop of `populateDraftFromConfigMaps`. -/
def writeMergedGroup (draftId : ℕ) (entry : String × MergedGroup) : ConfigProg Unit := do
  let draftGroup ← draftGroupFor draftId entry.1 entry.2
  let enabled ← Prog.gets fun db => db.vault.enabled
  let data ← (
    if !entry.2.sensitiveKeys.isEmpty && enabled then
      Prog.foldEach (storeMergedKey draftGroup.id) entry.2.data entry.2.sensitiveKeys
    else pure entry.2.data : ConfigProg Object)
  ConfigRepo.saveGroup { draftGroup with yamlContent := dumpNonEmpty data }

/-- `populateDraftFromConfigMaps`; `knownDeviceTypeIds` replaces the question to the
device service. -/
def populateDraftFromConfigMaps (peers : Peers) (draftId : ℕ) (deviceId : String)
    (knownDeviceTypeIds : Option (List ℕ)) : ConfigProg Unit := do
  let deviceTypeIds := knownDeviceTypeIds.getD (peers.deviceTypeIds deviceId)
  let activeRevisions ← Prog.gets fun db => reachingRevisions db deviceTypeIds deviceId
  let merged ← mergeConfigMaps activeRevisions
  Prog.forEach (writeMergedGroup draftId) merged

/-! ### The payload of a device -/

/-- `groups[name] = { ...(groups[name] ?? {}), ...data }` for the groups that are not global. -/
def collectGroups (groups : List ConfigGroup) (start : List (String × Object)) :
    ConfigProg (List (String × Object)) :=
  Prog.foldEach (fun acc group =>
    if group.isGlobal then pure acc
    else do
      let groupData ← resolveGroupYaml group []
      pure (ObjectMap.set acc group.name
        (ObjectMap.assign ((ObjectMap.get? acc group.name).getD []) groupData))) start groups

/-- The groups and the global entries of the config maps that reach a device. -/
def collectConfigMaps (revisions : List ConfigRevision) :
    ConfigProg (List (String × Object) × Object) :=
  Prog.foldEach (fun acc rev => do
    let groups ← Prog.gets fun db => db.groupsOf rev.id
    let globalsEntries ← collectGlobals groups
    let configMapGroups ← collectGroups groups acc.1
    pure (configMapGroups, ObjectMap.assign acc.2 globalsEntries)) ([], []) revisions

/-- `deviceGroups[group.name] = groupData`: a later group of a name replaces an earlier one. -/
def collectDeviceGroups (groups : List ConfigGroup) : ConfigProg (List (String × Object)) :=
  Prog.foldEach (fun acc group =>
    if group.isGlobal then pure acc
    else do
      let groupData ← resolveGroupYaml group []
      pure (ObjectMap.set acc group.name groupData)) [] groups

/-- `delete` of every entry whose value is null. -/
def dropNulls (o : Object) : Object := o.filter fun e => present (some e.2)

/-- The merged view of one group name: globals, then config maps, then the device's own. -/
def mergeForDevice (globals : Object) (configMapGroups deviceGroups : List (String × Object))
    (name : String) : Object :=
  dropNulls (ObjectMap.assign (ObjectMap.assign globals
    ((ObjectMap.get? configMapGroups name).getD [])) ((ObjectMap.get? deviceGroups name).getD []))

def buildDeviceConfigPayload (peers : Peers) (deviceId : String) : ConfigProg DeviceConfigDto := do
  let configProject := peers.projectNamed s!"config:{deviceId}" .config
  let revisions ← Prog.gets fun db =>
    reachingRevisions db (peers.deviceTypeIds deviceId) deviceId
  let maps ← collectConfigMaps revisions
  let activeRevision ← Prog.gets fun db =>
    configProject.bind fun project => db.findRevision project.id .active
  let deviceRows ← Prog.gets fun db =>
    match activeRevision with
    | some rev => db.groupsOf rev.id
    | none => []
  let globalDeviceEntries ← collectGlobals deviceRows
  let deviceGroups ← collectDeviceGroups deviceRows
  let combinedGlobals := ObjectMap.assign maps.2 globalDeviceEntries
  let allGroupNames := ObjectMap.addKeys (ObjectMap.keys maps.1) (ObjectMap.keys deviceGroups)
  pure {
    deviceId := deviceId
    configRevisionId := activeRevision.map (·.id)
    semVer := activeRevision.bind (·.semVer)
    groups := allGroupNames.map fun name =>
      (name, mergeForDevice combinedGlobals maps.1 deviceGroups name)
    computedAt := peers.now }

/-! ### The versioned cache -/

/-- `versionedObjectKey`. -/
def versionedObjectKey (deviceId semver : String) : String :=
  s!"config-cache/{deviceId}/{semver}.json"

/-- `setByVersion`: a failed write is only logged. -/
def setByVersion (peers : Peers) (deviceId semver : String) (payload : DeviceConfigDto) :
    ConfigProg Unit :=
  Prog.when peers.bucketUp <| Prog.modify fun db =>
    { db with bucket := ObjectMap.set db.bucket (versionedObjectKey deviceId semver) payload }

def assembleAndCacheDeviceConfig (peers : Peers) (deviceId semVer : String) : ConfigProg Unit := do
  let payload ← buildDeviceConfigPayload peers deviceId
  setByVersion peers deviceId semVer payload

/-! ### The release of a config project -/

/-- The release of the project with the greatest sort order. -/
def lastRelease (db : ConfigDb) (projectId : ℕ) : Option Release :=
  ((db.releases.filter fun r => r.projectId == projectId).insertionSort
    fun a b => b.sortOrder ≤ a.sortOrder).head?

/-- The devices a release was pushed to. -/
def pushedDevices (db : ConfigDb) (catalogId : String) : List String :=
  (db.offerings.filter fun o => o.releaseCatalogId == catalogId && o.action == .push).map (·.deviceId)

/-- `releaseRepo.delete`, where there is an old release: its offerings go with it. -/
def deleteConfigRelease : Option Release → ConfigProg Unit
  | none => pure ()
  | some old => Prog.modify fun db => { db with
      releases := Rows.deleteWhere (fun r => r.catalogId == old.catalogId) db.releases
      offerings := Rows.deleteWhere (fun o => o.releaseCatalogId == old.catalogId) db.offerings }

/-- The insert of the new release; a refused row is a failed query. -/
def insertConfigRelease (peers : Peers) (projectId : ℕ) (semVer : String) :
    ConfigProg Release := fun db =>
  let row := { Release.create projectId semVer with status := .released }
  match insertRelease peers.semver db.projects row db.releases with
  | some (saved, releases) => (.ok saved, { db with releases := releases })
  | none => (.error (.queryFailed "duplicate key value violates unique constraint"), db)

/-- `updateConfigProjectRelease`: the old release goes, a new one carries the
version, and the devices the old one was pushed to are pushed again. -/
def updateConfigProjectRelease (peers : Peers) (projectId : ℕ) (newSemVer : String) :
    ConfigProg Unit := do
  let oldRelease ← Prog.gets fun db => lastRelease db projectId
  let pushedDeviceIds ← Prog.gets fun db =>
    match oldRelease with
    | some r => pushedDevices db r.catalogId
    | none => []
  deleteConfigRelease oldRelease
  let newRelease ← insertConfigRelease peers projectId newSemVer
  Prog.modify fun db => { db with offerings := pushedDeviceIds.foldl (fun rows deviceId =>
    Rows.save (fun o => (o.deviceId, o.releaseCatalogId))
      ⟨deviceId, newRelease.catalogId, .push⟩ rows) db.offerings }

end ConfigService

end UploadService
