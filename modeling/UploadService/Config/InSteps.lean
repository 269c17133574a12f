import UploadService.Lib.Script
import UploadService.Config.Frames
import UploadService.Config.Reads

/-!
# The calls of a device project, step by step

The two reads of a device's config, `applyRevision` and `refreshConfigProjectRevision` wait for
each access of the database and of the cache, and other calls go on meanwhile. Here each of them
is a `Script`: one step is one access. The requests to Vault are made in a step of their own, or
in the step of the rows they are made for.

The label of a step says what would be lost if another revision were published before it. A call
is `bound` from the read of a version, or of a draft to publish, up to the read of the ACTIVE
revision that it stores under that version.

Main results: `exec_getDeviceConfig` to `exec_applyRevision`, each call without interruption is
the program of the module it comes from.
-/

namespace UploadService

namespace ConfigService

namespace InSteps

open Prog Script

/-- The label of a step. -/
inductive Turn where
  | free
  | bound
  /-- bound as well, and the step changes which revision is ACTIVE -/
  | publishing
  deriving DecidableEq

abbrev Steps : Type → Type := Script ConfigDb Exception Turn

/-! ### The payload -/

/-- The rows of the config maps, and their groups. -/
def readConfigMaps (assocs : List ConfigMapAssociation) :
    ConfigProg (List (String × Object) × Object) := do
  let revisions ← Prog.gets fun db => activeMapRevisions db assocs
  collectConfigMaps revisions

/-- The ACTIVE revision with its global entries and its groups. -/
structure OwnConfig where
  revision : Option ConfigRevision
  globals : Object
  groups : List (String × Object)

def readOwnConfig (configProject : Option Project) : ConfigProg OwnConfig := do
  let activeRevision ← Prog.gets fun db =>
    configProject.bind fun project => db.findRevision project.id .active
  let deviceRows ← Prog.gets fun db =>
    match activeRevision with
    | some rev => db.groupsOf rev.id
    | none => []
  let globalDeviceEntries ← collectGlobals deviceRows
  let deviceGroups ← collectDeviceGroups deviceRows
  pure ⟨activeRevision, globalDeviceEntries, deviceGroups⟩

/-- The payload of the config maps and the device's own config. -/
def payloadOf (peers : Peers) (deviceId : String) (maps : List (String × Object) × Object)
    (own : OwnConfig) : DeviceConfigDto where
  deviceId := deviceId
  configRevisionId := own.revision.map (·.id)
  semVer := own.revision.bind (·.semVer)
  groups := (ObjectMap.addKeys (ObjectMap.keys maps.1) (ObjectMap.keys own.groups)).map fun name =>
    (name, mergeForDevice (ObjectMap.assign maps.2 own.globals) maps.1 own.groups name)
  computedAt := peers.now

def buildDeviceConfigPayload (turn : Turn) (peers : Peers) (deviceId : String) :
    Steps DeviceConfigDto := do
  let configProject := peers.projectNamed s!"config:{deviceId}" .config
  let assocs ← atomic turn
    (Prog.gets fun db => applicableAssocs db (peers.deviceTypeIds deviceId) deviceId)
  let maps ← (if assocs.isEmpty then pure ([], []) else atomic turn (readConfigMaps assocs) :
    Steps (List (String × Object) × Object))
  let own ← atomic turn (readOwnConfig configProject)
  pure (payloadOf peers deviceId maps own)

/-! ### The two reads -/

/-- The version that `getDeviceConfig` reads; without a project no row is read. -/
def readVersion (peers : Peers) (deviceId : String) : Steps (Option String) :=
  match peers.projectNamed s!"config:{deviceId}" .config with
  | none => pure none
  | some _ => atomic .free (Prog.gets (activeSemVer peers deviceId))

/-- The config of the version that was read: the cached one, or one that is assembled and stored. -/
def configForVersion (peers : Peers) (deviceId semVer : String) : Steps DeviceConfigDto := do
  match ← atomic .bound (getByVersion peers deviceId semVer) with
  | some cached => pure cached
  | none => do
    let assembled ← buildDeviceConfigPayload .bound peers deviceId
    atomic .free (setByVersion peers deviceId semVer assembled)
    pure assembled

def getDeviceConfig (peers : Peers) (deviceId : String) : Steps DeviceConfigDto := do
  match ← readVersion peers deviceId with
  | none => buildDeviceConfigPayload .free peers deviceId
  | some semVer => configForVersion peers deviceId semVer

/-- The revision of a version, read with its groups, and its payload. -/
def readVersionConfig (deviceId semver : String) (projectId : ℕ) :
    ConfigProg (Option DeviceConfigDto) := do
  match ← Prog.gets fun db => findVersion db projectId semver with
  | none => pure none
  | some revision => do
    let rows ← Prog.gets fun db => db.groupsOf revision.id
    let globalsData ← collectGlobals rows
    let groups ← collectVersionGroups globalsData rows
    pure (some {
      deviceId := deviceId
      configRevisionId := some revision.id
      semVer := revision.semVer
      groups := groups
      computedAt := revision.appliedAt.getD 0 })

def getDeviceConfigByVersion (peers : Peers) (deviceId semver : String) :
    Steps DeviceConfigDto := do
  match ← atomic .free (getByVersion peers deviceId semver) with
  | some cached => pure cached
  | none =>
    match peers.projectNamed s!"config:{deviceId}" .config with
    | none => Script.throw (.notFound s!"No config project found for device '{deviceId}'")
    | some configProject => do
      match ← atomic .free (readVersionConfig deviceId semver configProject.id) with
      | none => Script.throw (.notFound
          s!"No revision with semver '{semver}' found for device '{deviceId}'")
      | some payload => do
        atomic .free (setByVersion peers deviceId semver payload)
        pure payload

/-! ### The publication -/

def assembleAndCacheDeviceConfig (peers : Peers) (deviceId semVer : String) : Steps Unit := do
  let payload ← buildDeviceConfigPayload .bound peers deviceId
  atomic .free (setByVersion peers deviceId semVer payload)

/-- The devices the old release was pushed to, and its removal. -/
def removeOldRelease : Option Release → Steps (List String)
  | none => pure []
  | some old => do
      let pushedDeviceIds ← atomic .bound (Prog.gets fun db => pushedDevices db old.catalogId)
      atomic .bound (deleteConfigRelease (some old))
      pure pushedDeviceIds

def updateConfigProjectRelease (peers : Peers) (projectId : ℕ) (newSemVer : String) :
    Steps Unit := do
  let oldRelease ← atomic .bound (Prog.gets fun db => lastRelease db projectId)
  let pushedDeviceIds ← removeOldRelease oldRelease
  let newRelease ← atomic .bound (insertConfigRelease peers projectId newSemVer)
  if pushedDeviceIds.isEmpty then pure ()
  else atomic .bound (Prog.modify fun db => { db with
    offerings := pushedDeviceIds.foldl (fun rows deviceId =>
      Rows.save (fun o => (o.deviceId, o.releaseCatalogId))
        ⟨deviceId, newRelease.catalogId, .push⟩ rows) db.offerings })

def publishToDevice (peers : Peers) (project : Project) (semVer : String) : Steps Unit :=
  match deviceOfName project.name with
  | none => pure ()
  | some deviceId =>
      if project.projectType = .config then do
        updateConfigProjectRelease peers project.id semVer
        assembleAndCacheDeviceConfig peers deviceId semVer
      else pure ()

/-- The DRAFT and the ACTIVE revision: the two queries run at once, in either order. -/
def findDraftAndActive (draftFirst : Bool) (projectId : ℕ) :
    Steps (Option (ConfigRevision × List ConfigGroup) × Option (ConfigRevision × List ConfigGroup)) :=
  if draftFirst then do
    let draft ← atomic .free (findWithGroups projectId .draft)
    let previousActive ← atomic .bound (findWithGroups projectId .active)
    pure (draft, previousActive)
  else do
    let previousActive ← atomic .free (findWithGroups projectId .active)
    let draft ← atomic .bound (findWithGroups projectId .draft)
    pure (draft, previousActive)

/-- `revisionRepo.save` of a revision that was loaded with its groups: the groups are written back
with it, in one transaction. A group that came after they were read would be left without its
revision, which is refused, and then nothing is written. -/
def saveWithGroups (revision : ConfigRevision) (groups : List ConfigGroup) : ConfigProg Unit :=
  fun db =>
    if (db.groupsOf revision.id).all fun g => groups.any fun g' => g'.id == g.id then
      (do
        Prog.forEach ConfigRepo.saveGroup groups
        ConfigRepo.updateRevisions (fun r => r.id == revision.id) fun _ => revision :
          ConfigProg Unit) db
    else (.error (.queryFailed "null value in column revision_id violates not-null constraint"), db)

def applyRevision (draftFirst : Bool) (peers : Peers) (dto : ApplyConfigRevisionDto) :
    Steps ConfigRevisionDto := do
  let project ← atomic .free (requireProject peers dto.projectIdentifier [.config, .configMap])
  let found ← findDraftAndActive draftFirst project.id
  match found.1 with
  | none =>
    Script.throw (.notFound s!"No draft revision found for project '{dto.projectIdentifier.toText}'")
  | some (draft, draftGroups) => do
    atomic .publishing (ConfigRepo.archiveActive project.id)
    let semVer := computeNextSemVer (found.2.map (·.2)) draftGroups (found.2.bind (·.1.semVer))
    let applied := { draft with
      semVer := some semVer, status := .active, appliedBy := dto.appliedBy,
      appliedAt := some peers.now }
    atomic .publishing (saveWithGroups applied draftGroups)
    publishToDevice peers project semVer
    .done (mapRevisionToDto applied (some draftGroups))

/-! ### The cascade to one device -/

def getOrCreateDraftRevision (projectId : ℕ) : Steps ConfigRevision := do
  match ← atomic .free (Prog.gets fun db => db.findRevision projectId .draft) with
  | some existing => pure existing
  | none => do
    let max ← atomic .free (Prog.gets fun db => db.maxRevisionNumber projectId)
    atomic .free (ConfigRepo.insertDraft projectId (max.getD 0 + 1))

def draftGroupFor (draftId : ℕ) (groupName : String) (m : MergedGroup) : Steps ConfigGroup := do
  match ← atomic .bound (Prog.gets fun db => db.findGroup draftId groupName) with
  | none => do
    let position ← atomic .bound (Prog.gets fun db => nextGroupPosition db draftId)
    atomic .bound (ConfigRepo.insertGroup { newGroup draftId groupName position with
      isGlobal := m.isGlobal, gitFilePath := m.gitFilePath, sensitiveKeys := m.sensitiveKeys })
  | some draftGroup => do
    atomic .bound (deleteGroupVaultSecrets draftGroup)
    let row := { draftGroup with sensitiveKeys := m.sensitiveKeys }
    atomic .bound (ConfigRepo.saveGroup row)
    pure row

/-- The merged entries with their secrets moved to Vault. -/
def storeMergedKeys (groupId : ℕ) (m : MergedGroup) : ConfigProg Object := do
  let enabled ← Prog.gets fun db => db.vault.enabled
  if !m.sensitiveKeys.isEmpty && enabled then
    Prog.foldEach (storeMergedKey groupId) m.data m.sensitiveKeys
  else pure m.data

def writeMergedGroup (draftId : ℕ) (entry : String × MergedGroup) : Steps Unit := do
  let draftGroup ← draftGroupFor draftId entry.1 entry.2
  let data ← atomic .bound (storeMergedKeys draftGroup.id entry.2)
  atomic .bound (ConfigRepo.saveGroup { draftGroup with yamlContent := dumpNonEmpty data })

/-- The groups of the ACTIVE revisions of the config maps, merged by name. -/
def readMergedMaps (assocs : List ConfigMapAssociation) : ConfigProg (List (String × MergedGroup)) := do
  let revisions ← Prog.gets fun db => activeMapRevisions db assocs
  mergeConfigMaps revisions

def populateDraftFromConfigMaps (peers : Peers) (draftId : ℕ) (deviceId : String) : Steps Unit := do
  let assocs ← atomic .bound
    (Prog.gets fun db => applicableAssocs db (peers.deviceTypeIds deviceId) deviceId)
  if assocs.isEmpty then pure ()
  else do
    let merged ← atomic .bound (readMergedMaps assocs)
    Script.forEach (writeMergedGroup draftId) merged

/-- The document of a group with its secrets copied for the new group. -/
def copiedYaml (newGroupId : ℕ) (source : ConfigGroup) : ConfigProg Object := do
  let enabled ← Prog.gets fun db => db.vault.enabled
  if enabled && !source.sensitiveKeys.isEmpty then
    Prog.foldEach (cloneKey newGroupId) (parseYaml source.yamlContent) source.sensitiveKeys
  else pure (parseYaml source.yamlContent)

def cloneGroupToRevision (source : ConfigGroup) (targetRevisionId position : ℕ) :
    Steps ConfigGroup := do
  let newGroup ← atomic .bound (ConfigRepo.insertGroup { source with
    revisionId := targetRevisionId, yamlContent := none, position := position })
  if source.yamlContent.isSome then do
    let parsed ← atomic .bound (copiedYaml newGroup.id source)
    let copied := { newGroup with yamlContent := dumpNonEmpty parsed }
    atomic .bound (ConfigRepo.saveGroup copied)
    pure copied
  else pure newGroup

/-- The groups of the previous ACTIVE revision whose names the draft still misses. The names are
not read where there is no such group. -/
def cloneMissingGroups (draftId : ℕ) (previousGroups : List ConfigGroup) : Steps Unit :=
  if previousGroups.isEmpty then pure ()
  else do
    let draftGroupNames ← atomic .bound (Prog.gets fun db => (db.groupsOf draftId).map (·.name))
    Script.forEach (fun group =>
      if draftGroupNames.contains group.name then pure ()
      else do
        let _ ← cloneGroupToRevision group draftId group.position
        pure ()) previousGroups

/-- The statements that turn the draft into the ACTIVE revision and open the next one. -/
def publishDraft (peers : Peers) (draft : ConfigRevision) (semVer : String) : Steps Unit := do
  atomic .publishing (ConfigRepo.updateRevisions (fun r => r.id == draft.id) fun r =>
    { r with status := .active, appliedAt := some peers.now, semVer := some semVer })
  let _ ← atomic .bound (ConfigRepo.insertDraft draft.projectId (draft.revisionNumber + 1))
  pure ()

def refreshConfigProjectRevision (peers : Peers) (projectId : ℕ) (deviceId : String) :
    Steps Unit := do
  let draft ← getOrCreateDraftRevision projectId
  let previousActive ← atomic .bound (findWithGroups projectId .active)
  populateDraftFromConfigMaps peers draft.id deviceId
  cloneMissingGroups draft.id ((previousActive.map (·.2)).getD [])
  let newGroups ← atomic .bound (Prog.gets fun db => db.groupsOf draft.id)
  let newSemVer := computeNextSemVer (previousActive.map (·.2)) newGroups
    (previousActive.bind (·.1.semVer))
  atomic .publishing (ConfigRepo.archiveActive projectId)
  publishDraft peers draft newSemVer
  updateConfigProjectRelease peers projectId newSemVer
  assembleAndCacheDeviceConfig peers deviceId newSemVer

/-! ### Calls without interruption -/

theorem exec_ite {α : Type} (c : Prop) [Decidable c] (p q : Steps α) :
    (if c then p else q).exec = if c then p.exec else q.exec := by
  split <;> rfl

theorem activeMapRevisions_nil (db : ConfigDb) : activeMapRevisions db [] = [] := by
  unfold activeMapRevisions
  simp

theorem exec_build (turn : Turn) (peers : Peers) (deviceId : String) :
    (buildDeviceConfigPayload turn peers deviceId).exec =
      ConfigService.buildDeviceConfigPayload peers deviceId := by
  have hmaps : ∀ assocs : List ConfigMapAssociation,
      ((if assocs.isEmpty then pure ([], []) else atomic turn (readConfigMaps assocs) :
        Steps (List (String × Object) × Object))).exec = readConfigMaps assocs := by
    intro assocs
    rw [exec_ite]
    split
    · rename_i hempty
      obtain rfl := List.isEmpty_iff.mp hempty
      funext db
      unfold readConfigMaps
      rw [gets_bind_run, activeMapRevisions_nil]
      rfl
    · rfl
  unfold buildDeviceConfigPayload
  simp only [exec_bind, exec_atomic, exec_pure, hmaps]
  unfold ConfigService.buildDeviceConfigPayload readConfigMaps readOwnConfig
  simp only [bind_assoc, pure_bind]
  rfl

theorem exec_configForVersion (peers : Peers) (deviceId semVer : String) :
    (configForVersion peers deviceId semVer).exec =
      getByVersion peers deviceId semVer >>= fun cached =>
        match cached with
        | some cached => pure cached
        | none => assembleForVersion peers deviceId (some semVer) := by
  unfold configForVersion assembleForVersion
  simp only [exec_bind, exec_atomic]
  refine bind_congr fun cached => ?_
  cases cached with
  | some config => rfl
  | none => simp only [exec_bind, exec_atomic, exec_pure, exec_build]

theorem exec_getDeviceConfig (peers : Peers) (deviceId : String) :
    (getDeviceConfig peers deviceId).exec = ConfigService.getDeviceConfig peers deviceId := by
  have hread : (readVersion peers deviceId).exec = Prog.gets (activeSemVer peers deviceId) := by
    unfold readVersion
    cases hproject : peers.projectNamed s!"config:{deviceId}" .config with
    | some project => rfl
    | none =>
        funext db
        have hversion : activeSemVer peers deviceId db = none := by
          unfold activeSemVer activeOf
          rw [hproject]
          rfl
        rw [gets_run, hversion]
        rfl
  unfold getDeviceConfig ConfigService.getDeviceConfig
  rw [exec_bind, hread]
  refine bind_congr fun version => ?_
  cases version with
  | some semVer => exact exec_configForVersion peers deviceId semVer
  | none =>
      show (buildDeviceConfigPayload .free peers deviceId).exec = assembleForVersion peers deviceId none
      unfold assembleForVersion
      rw [exec_build, bind_pure]

theorem exec_getDeviceConfigByVersion (peers : Peers) (deviceId semver : String) :
    (getDeviceConfigByVersion peers deviceId semver).exec =
      ConfigService.getDeviceConfigByVersion peers deviceId semver := by
  unfold getDeviceConfigByVersion ConfigService.getDeviceConfigByVersion
  simp only [exec_bind, exec_atomic]
  refine bind_congr fun cached => ?_
  cases cached with
  | some config => rfl
  | none =>
      cases peers.projectNamed s!"config:{deviceId}" .config with
      | none => rfl
      | some project =>
          simp only [exec_bind, exec_atomic]
          unfold readVersionConfig
          rw [bind_assoc]
          refine bind_congr fun found => ?_
          cases found with
          | none => rfl
          | some revision =>
              unfold assembleRevision
              simp only [bind_assoc, pure_bind, exec_bind, exec_atomic, exec_pure]

theorem exec_updateConfigProjectRelease (peers : Peers) (projectId : ℕ) (newSemVer : String) :
    (updateConfigProjectRelease peers projectId newSemVer).exec =
      ConfigService.updateConfigProjectRelease peers projectId newSemVer := by
  have hpush : ∀ (pushed : List String) (row : Release),
      (if pushed.isEmpty then pure ()
        else atomic .bound (Prog.modify fun db => { db with
          offerings := pushed.foldl (fun rows deviceId =>
            Rows.save (fun o => (o.deviceId, o.releaseCatalogId))
              ⟨deviceId, row.catalogId, .push⟩ rows) db.offerings }) : Steps Unit).exec =
        Prog.modify fun db => { db with
          offerings := pushed.foldl (fun rows deviceId =>
            Rows.save (fun o => (o.deviceId, o.releaseCatalogId))
              ⟨deviceId, row.catalogId, .push⟩ rows) db.offerings } := by
    intro pushed row
    cases pushed <;> rfl
  unfold updateConfigProjectRelease ConfigService.updateConfigProjectRelease
  simp only [exec_bind, exec_atomic, hpush]
  refine bind_congr fun oldRelease => ?_
  cases oldRelease with
  | none => rfl
  | some old =>
      unfold removeOldRelease
      simp only [exec_bind, exec_atomic, exec_pure, bind_assoc, pure_bind]

theorem exec_assembleAndCache (peers : Peers) (deviceId semVer : String) :
    (assembleAndCacheDeviceConfig peers deviceId semVer).exec =
      ConfigService.assembleAndCacheDeviceConfig peers deviceId semVer := by
  unfold assembleAndCacheDeviceConfig ConfigService.assembleAndCacheDeviceConfig
  rw [exec_bind, exec_build]
  rfl

theorem exec_getOrCreateDraftRevision (projectId : ℕ) :
    (getOrCreateDraftRevision projectId).exec = ConfigService.getOrCreateDraftRevision projectId := by
  unfold getOrCreateDraftRevision ConfigService.getOrCreateDraftRevision
  simp only [exec_bind, exec_atomic]
  refine bind_congr fun found => ?_
  cases found <;> rfl

theorem exec_writeMergedGroup (draftId : ℕ) (entry : String × MergedGroup) :
    (writeMergedGroup draftId entry).exec = ConfigService.writeMergedGroup draftId entry := by
  have hgroup : (draftGroupFor draftId entry.1 entry.2).exec =
      ConfigService.draftGroupFor draftId entry.1 entry.2 := by
    unfold draftGroupFor ConfigService.draftGroupFor
    simp only [exec_bind, exec_atomic]
    refine bind_congr fun found => ?_
    cases found with
    | none => simp only [exec_bind, exec_atomic]
    | some draftGroup => simp only [exec_bind, exec_atomic, exec_pure]
  unfold writeMergedGroup ConfigService.writeMergedGroup storeMergedKeys
  simp only [exec_bind, exec_atomic, hgroup, bind_assoc]

theorem exec_populateDraft (peers : Peers) (draftId : ℕ) (deviceId : String) :
    (populateDraftFromConfigMaps peers draftId deviceId).exec =
      ConfigService.populateDraftFromConfigMaps peers draftId deviceId none := by
  unfold populateDraftFromConfigMaps
  simp only [exec_bind, exec_atomic, exec_ite, exec_forEach, exec_writeMergedGroup, exec_pure]
  funext db
  unfold ConfigService.populateDraftFromConfigMaps reachingRevisions readMergedMaps
  rw [gets_bind_run, gets_bind_run]
  dsimp only [Option.getD_none]
  split
  · rename_i hempty
    obtain hnil := List.isEmpty_iff.mp hempty
    rw [hnil, activeMapRevisions_nil]
    rfl
  · rw [bind_assoc, gets_bind_run]

theorem exec_cloneGroupToRevision (source : ConfigGroup) (targetRevisionId position : ℕ) :
    (cloneGroupToRevision source targetRevisionId position).exec =
      ConfigService.cloneGroupToRevision source targetRevisionId position := by
  unfold cloneGroupToRevision ConfigService.cloneGroupToRevision copiedYaml
  simp only [exec_bind, exec_atomic, exec_ite, exec_pure, bind_assoc]

theorem exec_cloneMissingGroups (draftId : ℕ) (previousGroups : List ConfigGroup) :
    (cloneMissingGroups draftId previousGroups).exec =
      ConfigService.cloneMissingGroups draftId previousGroups := by
  unfold cloneMissingGroups ConfigService.cloneMissingGroups
  cases previousGroups with
  | nil => rfl
  | cons g gs =>
      simp only [List.isEmpty_cons, Bool.false_eq_true, if_false, exec_bind, exec_atomic,
        exec_forEach, exec_ite, exec_pure, exec_cloneGroupToRevision]

theorem exec_refreshConfigProjectRevision (peers : Peers) (projectId : ℕ) (deviceId : String) :
    (refreshConfigProjectRevision peers projectId deviceId).exec =
      ConfigService.refreshConfigProjectRevision peers projectId deviceId := by
  unfold refreshConfigProjectRevision ConfigService.refreshConfigProjectRevision prepareCascade
    publishDraft ConfigService.publishDraft
  simp only [exec_bind, exec_atomic, exec_pure, exec_getOrCreateDraftRevision, exec_populateDraft,
    exec_cloneMissingGroups, exec_updateConfigProjectRelease, exec_assembleAndCache, bind_assoc,
    pure_bind]

/-! ### The save of a loaded revision -/

/-- The save of a row that is in the table writes nothing. -/
theorem saveGroup_stored {db : ConfigDb} (hkeys : Rows.KeysDistinct ConfigGroup.id db.groups)
    {group : ConfigGroup} (h : group ∈ db.groups) : ConfigRepo.saveGroup group db = (.ok (), db) := by
  have hsame : Rows.save ConfigGroup.id group db.groups = db.groups := by
    rw [Rows.save_existing h rfl]
    refine Rows.updateWhere_eq_self fun row hrow hid => ?_
    exact hkeys.eq_of_mem h hrow (beq_iff_eq.mp hid).symm
  show (Except.ok (), { db with groups := Rows.save ConfigGroup.id group db.groups }) = _
  rw [hsame]

/-- Where the groups are those of the table, only the revision changes. -/
theorem saveWithGroups_run {db : ConfigDb} (hkeys : Rows.KeysDistinct ConfigGroup.id db.groups)
    (revision : ConfigRevision) : saveWithGroups revision (db.groupsOf revision.id) db =
      ConfigRepo.updateRevisions (fun r => r.id == revision.id) (fun _ => revision) db := by
  have hloaded : ((db.groupsOf revision.id).all fun g =>
      (db.groupsOf revision.id).any fun g' => g'.id == g.id) = true := by
    rw [List.all_eq_true]
    intro g hg
    rw [List.any_eq_true]
    exact ⟨g, hg, beq_self_eq_true g.id⟩
  have hgroups : ∀ gs : List ConfigGroup, (∀ g ∈ gs, g ∈ db.groups) →
      Prog.forEach ConfigRepo.saveGroup gs db = (.ok (), db) := by
    intro gs
    induction gs with
    | nil => exact fun _ => rfl
    | cons g gs ih =>
        intro hgs
        show (ConfigRepo.saveGroup g >>= fun _ => Prog.forEach ConfigRepo.saveGroup gs) db = _
        rw [bind_run_ok (saveGroup_stored hkeys (hgs g List.mem_cons_self))]
        exact ih fun x hx => hgs x (List.mem_cons_of_mem g hx)
  unfold saveWithGroups
  rw [if_pos hloaded]
  exact bind_run_ok (hgroups _ fun g hg => (List.mem_filter.mp hg).1) _

theorem exec_publishToDevice (peers : Peers) (project : Project) (semVer : String) :
    (publishToDevice peers project semVer).exec =
      ConfigService.publishToDevice peers project semVer := by
  unfold publishToDevice ConfigService.publishToDevice
  cases deviceOfName project.name with
  | none => rfl
  | some deviceId =>
      simp only [exec_ite, exec_bind, exec_updateConfigProjectRelease, exec_assembleAndCache,
        exec_pure]

theorem exec_findDraftAndActive (draftFirst : Bool) (projectId : ℕ) (db : ConfigDb) :
    (findDraftAndActive draftFirst projectId).exec db =
      (.ok ((db.findRevision projectId .draft).map (fun r => (r, db.groupsOf r.id)),
        (db.findRevision projectId .active).map fun r => (r, db.groupsOf r.id)), db) := by
  cases draftFirst <;> rfl

/-- From a table of groups with distinct keys. -/
theorem exec_applyRevision (draftFirst : Bool) (peers : Peers) (dto : ApplyConfigRevisionDto)
    {db : ConfigDb} (hkeys : Rows.KeysDistinct ConfigGroup.id db.groups) :
    (applyRevision draftFirst peers dto).exec db = ConfigService.applyRevision peers dto db := by
  unfold applyRevision ConfigService.applyRevision
  rw [exec_bind, exec_atomic]
  rcases requireProject_run peers dto.projectIdentifier [.config, .configMap] db with
    ⟨e, hrun⟩ | ⟨project, -, hrun⟩
  · rw [bind_run_error hrun, bind_run_error hrun]
  · rw [bind_run_ok hrun, bind_run_ok hrun, exec_bind,
      bind_run_ok (exec_findDraftAndActive draftFirst project.id db)]
    unfold findWithGroups
    dsimp only
    rw [gets_bind_run, gets_bind_run]
    cases hdraft : db.findRevision project.id .draft with
    | none => rfl
    | some draft =>
        simp only [Option.map_some, exec_bind, exec_atomic, exec_publishToDevice]
        exact bind_run_congr (@saveWithGroups_run (ConfigRepo.archiveActive project.id db).2 hkeys _) _

end InSteps

end ConfigService

end UploadService
