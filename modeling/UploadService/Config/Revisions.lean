import UploadService.Config.Delivery

/-!
# The revision lifecycle operations

The revision half of `ConfigService`: the version a revision gets when it becomes
ACTIVE (`computeNextSemVer`), and the operations that move revisions between
DRAFT, ACTIVE and ARCHIVED. Each runs to its end, or to the statement that
throws, before the next one starts.
-/

namespace UploadService

namespace ConfigService

/-! ### Version numbers -/

/-- `Number(text)` of one version part: `none` is NaN, the empty text is 0. -/
def versionNumber (part : String) : Option ℕ := if part = "" then some 0 else decimal? part

/-- The first three parts of a version text; a missing part is 0. -/
def versionTriple (semVer : Option String) : Option ℕ × Option ℕ × Option ℕ :=
  match semVer with
  | none => (some 0, some 0, some 0)
  | some text =>
      if text = "" then (some 0, some 0, some 0)
      else
        let parts := (pathParts text).map versionNumber
        (parts.getD 0 (some 0), parts.getD 1 (some 0), parts.getD 2 (some 0))

/-- `${n}` of a number that may be NaN. -/
def showNumber : Option ℕ → String
  | some n => toString n
  | none => "NaN"

def showVersion (major minor patch : Option ℕ) : String :=
  s!"{showNumber major}.{showNumber minor}.{showNumber patch}"

/-- The parsed content by group name; a later group of a name replaces an earlier one. -/
def contentByName (groups : List ConfigGroup) : List (String × Object) :=
  groups.foldl (fun acc g => ObjectMap.set acc g.name (parseYaml g.yamlContent)) []

/-- A removed group, a new group, or a removed top-level key. -/
def hasMajorChange (prevMap draftMap : List (String × Object)) : Bool :=
  draftMap.any (fun e => match ObjectMap.get? prevMap e.1 with
    | none => true
    | some prevParsed => prevParsed.any fun kv => !ObjectMap.has e.2 kv.1) ||
  prevMap.any (fun e => !ObjectMap.has draftMap e.1)

/-- A new top-level key, or one whose JSON text changed, in a group that was there before. -/
def hasMinorChange (prevMap draftMap : List (String × Object)) : Bool :=
  draftMap.any fun e => match ObjectMap.get? prevMap e.1 with
    | none => false
    | some prevParsed => e.2.any fun kv =>
        match ObjectMap.get? prevParsed kv.1, ObjectMap.get? e.2 kv.1 with
        | some old, some new => old.json != new.json
        | _, _ => true

/-- `computeNextSemVer`; `none` for the groups is a revision that is not there. -/
def computeNextSemVer (prevGroups : Option (List ConfigGroup)) (draftGroups : List ConfigGroup)
    (prevSemVer : Option String) : String :=
  match prevGroups with
  | none | some [] => "1.0.0"
  | some prev =>
      let (major, minor, patch) := versionTriple prevSemVer
      if hasMajorChange (contentByName prev) (contentByName draftGroups) then
        showVersion (major.map (· + 1)) (some 0) (some 0)
      else if hasMinorChange (contentByName prev) (contentByName draftGroups) then
        showVersion major (minor.map (· + 1)) (some 0)
      else showVersion major minor (patch.map (· + 1))

/-! ### Results -/

structure ConfigRevisionDto where
  id : ℕ
  projectId : ℕ
  revisionNumber : ℕ
  status : ConfigRevisionStatus
  appliedBy : Option String
  appliedAt : Option ℕ
  semVer : Option String
  groups : Option (List ConfigGroupDto)
  deriving DecidableEq, Repr

def ConfigRevisionDto.of (revision : ConfigRevision) (groups : Option (List ConfigGroupDto)) :
    ConfigRevisionDto where
  id := revision.id
  projectId := revision.projectId
  revisionNumber := revision.revisionNumber
  status := revision.status
  appliedBy := revision.appliedBy
  appliedAt := revision.appliedAt
  semVer := revision.semVer
  groups := groups

/-- `mapRevisionToDto`; the groups, when asked for, come in display order. -/
def mapRevisionToDto (revision : ConfigRevision) (groups : Option (List ConfigGroup)) :
    Except Exception ConfigRevisionDto :=
  match groups with
  | none => .ok (.of revision none)
  | some gs => ((gs.insertionSort fun a b => a.position ≤ b.position).mapM mapGroupToDto).map
      fun shown => .of revision (some shown)

/-- A revision with its `groups` relation loaded. -/
def findWithGroups (projectId : ℕ) (status : ConfigRevisionStatus) :
    ConfigProg (Option (ConfigRevision × List ConfigGroup)) :=
  Prog.gets fun db => (db.findRevision projectId status).map fun r => (r, db.groupsOf r.id)

/-! ### Applying, creating and deleting drafts -/

structure ApplyConfigRevisionDto where
  projectIdentifier : Identifier
  appliedBy : Option String

/-- The device of a project named `config:{deviceId}`. -/
def deviceOfName (name : String) : Option String :=
  if "config:".toList.isPrefixOf name.toList then some (String.ofList (name.toList.drop 7))
  else none

/-- The release and the cache object of a device project after its version changed. -/
def publishToDevice (peers : Peers) (project : Project) (semVer : String) : ConfigProg Unit :=
  match deviceOfName project.name with
  | none => pure ()
  | some deviceId =>
      if project.projectType = .config then do
        updateConfigProjectRelease peers project.id semVer
        assembleAndCacheDeviceConfig peers deviceId semVer
      else pure ()

/-- `applyRevision`. The cascade of a config map to its devices is started and not
awaited: it is an operation of its own (`refreshConfigProjectRevision`). -/
def applyRevision (peers : Peers) (dto : ApplyConfigRevisionDto) : ConfigProg ConfigRevisionDto := do
  let project ← requireProject peers dto.projectIdentifier [.config, .configMap]
  let draft ← findWithGroups project.id .draft
  let previousActive ← findWithGroups project.id .active
  match draft with
  | none =>
    Prog.throw (.notFound s!"No draft revision found for project '{dto.projectIdentifier.toText}'")
  | some (draft, draftGroups) => do
    ConfigRepo.archiveActive project.id
    let semVer := computeNextSemVer (previousActive.map (·.2)) draftGroups
      (previousActive.bind (·.1.semVer))
    let applied := { draft with
      semVer := some semVer, status := .active, appliedBy := dto.appliedBy,
      appliedAt := some peers.now }
    ConfigRepo.updateRevisions (fun r => r.id == draft.id) fun _ => applied
    publishToDevice peers project semVer
    Prog.ofExcept (mapRevisionToDto applied (some draftGroups))

structure GetConfigRevisionsDto where
  projectIdentifier : Identifier
  includeGroups : Option Bool

/-- The groups that come with a revision. -/
def relatedGroups (db : ConfigDb) (includeGroups : Option Bool) (revision : ConfigRevision) :
    Option (List ConfigGroup) :=
  if includeGroups.getD false then some (db.groupsOf revision.id) else none

/-- `getRevisions`: the newest revision first. -/
def getRevisions (peers : Peers) (dto : GetConfigRevisionsDto) :
    ConfigProg (List ConfigRevisionDto) := do
  let project ← requireProject peers dto.projectIdentifier [.config, .configMap]
  let revisions ← Prog.gets fun db => (db.revisions.filter fun r => r.projectId == project.id).insertionSort
    fun a b => b.revisionNumber ≤ a.revisionNumber
  let related ← Prog.gets fun db => relatedGroups db dto.includeGroups
  Prog.ofExcept (revisions.mapM fun r => mapRevisionToDto r (related r))

structure GetConfigRevisionByIdDto where
  revisionId : ℕ
  includeGroups : Option Bool

def getRevisionById (dto : GetConfigRevisionByIdDto) : ConfigProg ConfigRevisionDto := do
  let found ← Prog.gets fun db => db.revisions.find? fun r => r.id == dto.revisionId
  match found with
  | none => Prog.throw (.notFound s!"Revision {dto.revisionId} not found")
  | some revision => do
    let related ← Prog.gets fun db => relatedGroups db dto.includeGroups
    Prog.ofExcept (mapRevisionToDto revision (related revision))

structure ProjectIdentifierDto where
  projectIdentifier : Identifier

/-- The copy of the ACTIVE revision, or else of the newest archived one, into a new draft. -/
def copySourceGroups (projectId draftId : ℕ) : ConfigProg Unit := do
  let activeSource ← Prog.gets fun db => db.findRevision projectId .active
  let archivedSource ← Prog.gets fun db => db.findLastArchived projectId
  let sourceGroups ← Prog.gets fun db =>
    match activeSource.or archivedSource with
    | some source => db.groupsOf source.id
    | none => []
  Prog.forEach (fun g => do
    let _ ← cloneGroupToRevision g draftId g.position
    pure ()) sourceGroups

def createDraftRevision (peers : Peers) (dto : ProjectIdentifierDto) :
    ConfigProg ConfigRevisionDto := do
  let project ← requireProject peers dto.projectIdentifier [.config, .configMap]
  let existing ← Prog.gets fun db => db.findRevision project.id .draft
  let max ← Prog.gets fun db => db.maxRevisionNumber project.id
  match existing with
  | some _ =>
    Prog.throw (.badRequest s!"A draft revision already exists for project '{dto.projectIdentifier.toText}'")
  | none => do
    let draft ← ConfigRepo.insertDraft project.id (max.getD 0 + 1)
    copySourceGroups project.id draft.id
    Prog.ofExcept (mapRevisionToDto draft none)

def deleteDraftRevision (peers : Peers) (dto : ProjectIdentifierDto) : ConfigProg Bool := do
  let project ← requireProject peers dto.projectIdentifier [.config, .configMap]
  match ← findWithGroups project.id .draft with
  | none =>
    Prog.throw (.notFound s!"No draft revision found for project '{dto.projectIdentifier.toText}'")
  | some (draft, draftGroups) => do
    let enabled ← Prog.gets fun db => db.vault.enabled
    Prog.when enabled (Prog.forEach deleteGroupVaultSecrets draftGroups)
    ConfigRepo.removeRevision draft.id
    pure true

/-! ### Provisioning -/

def defaultGroups : List String := ["getapp_enrollment", "getapp_config"]

/-- `provisionDefaultConfigProject`. -/
def provisionDefaultConfigProject (projectId : ℕ) : ConfigProg Unit := do
  let draft ← getOrCreateDraftRevision projectId
  let existingCount ← Prog.gets fun db => (db.groupsOf draft.id).length
  Prog.when (existingCount = 0) <|
    Prog.forEach (fun entry => do
      let _ ← ConfigRepo.insertGroup (newGroup draft.id entry.1 entry.2)
      pure ()) (defaultGroups.zipIdx)

def initialSemVer : String := "1.0.0"

/-- The statements of `autoPublishInitialRevision` and of the cascade that turn a
draft into the ACTIVE revision and open the next draft. -/
def publishDraft (peers : Peers) (draft : ConfigRevision) (semVer : String) : ConfigProg Unit := do
  ConfigRepo.updateRevisions (fun r => r.id == draft.id) fun r =>
    { r with status := .active, appliedAt := some peers.now, semVer := some semVer }
  let _ ← ConfigRepo.insertDraft draft.projectId (draft.revisionNumber + 1)
  pure ()

/-- The draft that `autoPublishInitialRevision` publishes, filled from the config maps. -/
def populateInitialDraft (peers : Peers) (projectId : ℕ) (deviceId : String)
    (knownDeviceTypeIds : Option (List ℕ)) : ConfigProg (Option ConfigRevision) := do
  match ← Prog.gets fun db => db.findRevision projectId .draft with
  | none => pure none
  | some draft => do
    populateDraftFromConfigMaps peers draft.id deviceId knownDeviceTypeIds
    pure (some draft)

/-- `autoPublishInitialRevision`: unlike the other ways to publish, it archives
no ACTIVE revision. The cache write at its end is best effort. -/
def autoPublishInitialRevision (peers : Peers) (projectId : ℕ) (deviceId : String)
    (knownDeviceTypeIds : Option (List ℕ)) : ConfigProg Unit := do
  match ← populateInitialDraft peers projectId deviceId knownDeviceTypeIds with
  | none => pure ()
  | some draft => do
    publishDraft peers draft initialSemVer
    updateConfigProjectRelease peers projectId initialSemVer
    Prog.tryCatch (assembleAndCacheDeviceConfig peers deviceId initialSemVer) fun _ => pure ()

structure ProvisionDto where
  projectId : ℕ
  deviceId : String
  deviceTypeIds : Option (List ℕ)

/-- `provisionProjectContent`, the handler of an event that may be delivered again. -/
def provisionProjectContent (peers : Peers) (dto : ProvisionDto) : ConfigProg Unit := do
  provisionDefaultConfigProject dto.projectId
  autoPublishInitialRevision peers dto.projectId dto.deviceId dto.deviceTypeIds

/-! ### The config-map cascade -/

/-- The groups of the previous ACTIVE revision whose names the draft still misses. -/
def cloneMissingGroups (draftId : ℕ) (previousGroups : List ConfigGroup) : ConfigProg Unit := do
  let draftGroupNames ← Prog.gets fun db => (db.groupsOf draftId).map (·.name)
  Prog.forEach (fun group =>
    if draftGroupNames.contains group.name then pure ()
    else do
      let _ ← cloneGroupToRevision group draftId group.position
      pure ()) previousGroups

/-- The part of the cascade before the publication: the draft, with the groups of the
config maps and the missing groups of the previous ACTIVE revision. -/
def prepareCascade (peers : Peers) (projectId : ℕ) (deviceId : String) :
    ConfigProg (ConfigRevision × Option (ConfigRevision × List ConfigGroup)) := do
  let draft ← getOrCreateDraftRevision projectId
  let previousActive ← findWithGroups projectId .active
  populateDraftFromConfigMaps peers draft.id deviceId none
  cloneMissingGroups draft.id ((previousActive.map (·.2)).getD [])
  pure (draft, previousActive)

/-- `refreshConfigProjectRevision`: one device's step of a config-map cascade. -/
def refreshConfigProjectRevision (peers : Peers) (projectId : ℕ) (deviceId : String) :
    ConfigProg Unit := do
  let prepared ← prepareCascade peers projectId deviceId
  let newGroups ← Prog.gets fun db => db.groupsOf prepared.1.id
  let newSemVer := computeNextSemVer (prepared.2.map (·.2)) newGroups
    (prepared.2.bind (·.1.semVer))
  ConfigRepo.archiveActive projectId
  publishDraft peers prepared.1 newSemVer
  updateConfigProjectRelease peers projectId newSemVer
  assembleAndCacheDeviceConfig peers deviceId newSemVer

/-- The devices of `cascadeConfigMapRevisionToDevices`: those an association names,
then those of the associated types. -/
def cascadeDevices (peers : Peers) (db : ConfigDb) (configMapProjectId : ℕ) : List String :=
  let assocs := db.assocs.filter fun a =>
    a.configMapProjectId == configMapProjectId && a.configProjectId.isNone
  let typeIds := assocs.filterMap (·.deviceTypeId)
  ObjectMap.addKeys [] (assocs.filterMap (fun a => a.deviceId.filter (· ≠ "")) ++
    if typeIds.isEmpty then [] else peers.deviceIdsByTypeIds typeIds.dedup)

/-- One device of a cascade: a device without a config project is skipped, and an
error of one device does not stop the others. -/
def cascadeToDevice (peers : Peers) (deviceId : String) : ConfigProg Unit :=
  match peers.projectNamed s!"config:{deviceId}" .config with
  | none => pure ()
  | some configProject =>
      Prog.tryCatch (refreshConfigProjectRevision peers configProject.id deviceId) fun _ => pure ()

/-- `cascadeConfigMapRevisionToDevices`. -/
def cascadeConfigMapRevisionToDevices (peers : Peers) (configMapProjectId : ℕ) :
    ConfigProg Unit := do
  let devices ← Prog.gets fun db => cascadeDevices peers db configMapProjectId
  Prog.forEach (cascadeToDevice peers) devices

example : computeNextSemVer (some [newGroup 1 "net" 0]) [newGroup 2 "net" 0] (some "1.4.9") =
    "1.4.10" := by decide

end ConfigService

end UploadService
