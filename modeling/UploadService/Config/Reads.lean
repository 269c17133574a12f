import UploadService.Lib.Runs
import UploadService.Config.MapAssociations
import UploadService.Config.Resolution

/-!
# The config a device is served

The two reads of the agent: the current config of a device, and the config of one version. Both
look for the cached payload of a version first, and store the payload they assemble; the first
assembles it from the config maps and the device's ACTIVE revision, the second from the groups of
the revision of that version alone.

Main results:

- `getDeviceConfig_run`: the read of the current config, and what it stores;
- `failures_not_cached`: what is stored where the calls that fail take nothing away.
-/

namespace UploadService

namespace ConfigService

open Prog

variable {db : ConfigDb}

/-- The cached payload of a version; an object that cannot be read counts as absent. -/
def cachedVersion (peers : Peers) (deviceId semver : String) (db : ConfigDb) :
    Option DeviceConfigDto :=
  if peers.bucketUp then ObjectMap.get? db.bucket (versionedObjectKey deviceId semver) else none

/-- `getByVersion`. -/
def getByVersion (peers : Peers) (deviceId semver : String) :
    ConfigProg (Option DeviceConfigDto) :=
  Prog.gets (cachedVersion peers deviceId semver)

/-- The version of the device's ACTIVE revision; an empty text is no version. -/
def activeSemVer (peers : Peers) (deviceId : String) (db : ConfigDb) : Option String :=
  ((activeOf peers deviceId db).bind (·.semVer)).filter (· ≠ "")

/-- The assembly of `getDeviceConfig`, and the cache write for the version it has read. -/
def assembleForVersion (peers : Peers) (deviceId : String) (version : Option String) :
    ConfigProg DeviceConfigDto := do
  let assembled ← buildDeviceConfigPayload peers deviceId
  match version with
  | none => pure assembled
  | some semVer => do
    setByVersion peers deviceId semVer assembled
    pure assembled

/-- `getDeviceConfig`. -/
def getDeviceConfig (peers : Peers) (deviceId : String) : ConfigProg DeviceConfigDto := do
  match ← Prog.gets (activeSemVer peers deviceId) with
  | none => assembleForVersion peers deviceId none
  | some semVer => do
    match ← getByVersion peers deviceId semVer with
    | some cached => pure cached
    | none => assembleForVersion peers deviceId (some semVer)

/-- The groups of a revision under its own globals: null entries are deleted. -/
def collectVersionGroups (globalsData : Object) (groups : List ConfigGroup) :
    ConfigProg (List (String × Object)) :=
  Prog.foldEach (fun acc group =>
    if group.isGlobal then pure acc
    else do
      let groupData ← resolveGroupYaml group globalsData
      pure (ObjectMap.set acc group.name (dropNulls groupData))) [] groups

/-- A revision of a version with its groups. -/
def findVersion (db : ConfigDb) (projectId : ℕ) (semver : String) : Option ConfigRevision :=
  db.revisions.find? fun r => r.projectId == projectId && r.semVer == some semver

/-- The payload of one revision; a revision with a version has been applied. -/
def assembleRevision (peers : Peers) (deviceId semver : String) (revision : ConfigRevision) :
    ConfigProg DeviceConfigDto := do
  let rows ← Prog.gets fun db => db.groupsOf revision.id
  let globalsData ← collectGlobals rows
  let groups ← collectVersionGroups globalsData rows
  let payload : DeviceConfigDto := {
    deviceId := deviceId
    configRevisionId := some revision.id
    semVer := revision.semVer
    groups := groups
    computedAt := revision.appliedAt.getD 0 }
  setByVersion peers deviceId semver payload
  pure payload

/-- `getDeviceConfigByVersion`. -/
def getDeviceConfigByVersion (peers : Peers) (deviceId semver : String) :
    ConfigProg DeviceConfigDto := do
  match ← getByVersion peers deviceId semver with
  | some cached => pure cached
  | none =>
    match peers.projectNamed s!"config:{deviceId}" .config with
    | none => Prog.throw (.notFound s!"No config project found for device '{deviceId}'")
    | some configProject => do
      match ← Prog.gets fun db => findVersion db configProject.id semver with
      | none => Prog.throw (.notFound
          s!"No revision with semver '{semver}' found for device '{deviceId}'")
      | some revision => assembleRevision peers deviceId semver revision

/-! ### What is stored -/

/-- The only object that changes is that of the version, and it is the payload. -/
def StoresOnly (key : String) (payload : DeviceConfigDto) (db db' : ConfigDb) : Prop :=
  ∀ k, ObjectMap.get? db'.bucket k = ObjectMap.get? db.bucket k ∨
    (k = key ∧ ObjectMap.get? db'.bucket k = some payload)

theorem setByVersion_run (peers : Peers) (deviceId semver : String) (payload : DeviceConfigDto)
    (db : ConfigDb) : ∃ db', setByVersion peers deviceId semver payload db = (.ok (), db') ∧
      StoresOnly (versionedObjectKey deviceId semver) payload db db' := by
  unfold setByVersion
  cases peers.bucketUp with
  | false => exact ⟨db, rfl, fun k => .inl rfl⟩
  | true =>
      refine ⟨_, rfl, fun k => ?_⟩
      rw [ObjectMap.get?_set]
      by_cases hk : k = versionedObjectKey deviceId semver
      · right
        exact ⟨hk, if_pos hk⟩
      · left
        exact if_neg hk

/-- The payload is the one that the tables and the secrets give, also where requests fail that
would have found no secret. -/
theorem buildDeviceConfigPayload_run {peers : Peers} {deviceId : String}
    (h : db.vault.Harmless (assemblyRefs db.vault
      (reachingMaps db (peers.deviceTypeIds deviceId) deviceId) (activeRows peers deviceId db))) :
    ∃ db', buildDeviceConfigPayload peers deviceId db =
      (.ok (assembledConfig peers deviceId db), db') ∧ db'.bucket = db.bucket :=
  ⟨_, (buildDeviceConfigPayload_answered peers deviceId db).run h, rfl⟩

theorem assembleForVersion_run {peers : Peers} {deviceId : String} (version : Option String)
    (h : db.vault.Harmless (assemblyRefs db.vault
      (reachingMaps db (peers.deviceTypeIds deviceId) deviceId) (activeRows peers deviceId db))) :
    ∃ db', assembleForVersion peers deviceId version db =
        (.ok (assembledConfig peers deviceId db), db') ∧
      ∀ k, ObjectMap.get? db'.bucket k = ObjectMap.get? db.bucket k ∨
        (version.map (versionedObjectKey deviceId) = some k ∧
          ObjectMap.get? db'.bucket k = some (assembledConfig peers deviceId db)) := by
  obtain ⟨db₁, hbuild, hsame⟩ := buildDeviceConfigPayload_run h
  unfold assembleForVersion
  rw [bind_run_ok hbuild]
  cases version with
  | none => exact ⟨db₁, rfl, fun k => .inl (by rw [hsame])⟩
  | some semVer =>
      obtain ⟨db₂, hset, hstores⟩ := setByVersion_run peers deviceId semVer
        (assembledConfig peers deviceId db) db₁
      refine ⟨db₂, ?_, fun k => ?_⟩
      · show (setByVersion peers deviceId semVer _ >>= _) db₁ = _
        rw [bind_run_ok hset]
        rfl
      · rw [← hsame]
        rcases hstores k with hkept | ⟨rfl, hstored⟩
        · exact .inl hkept
        · exact .inr ⟨rfl, hstored⟩

/-- The read returns, and what it stores is its payload. Where the version is not cached, it
returns the payload. -/
theorem getDeviceConfig_run {peers : Peers} {deviceId : String}
    (h : db.vault.Harmless (assemblyRefs db.vault
      (reachingMaps db (peers.deviceTypeIds deviceId) deviceId) (activeRows peers deviceId db))) :
    ∃ config db', getDeviceConfig peers deviceId db = (.ok config, db') ∧
      (∀ k, ObjectMap.get? db'.bucket k = ObjectMap.get? db.bucket k ∨
        ObjectMap.get? db'.bucket k = some (assembledConfig peers deviceId db)) ∧
      ((activeSemVer peers deviceId db).bind (cachedVersion peers deviceId · db) = none →
        config = assembledConfig peers deviceId db) := by
  unfold getDeviceConfig
  rw [gets_bind_run]
  cases activeSemVer peers deviceId db with
  | none =>
      obtain ⟨db', hrun, hstores⟩ := assembleForVersion_run none h
      exact ⟨_, db', hrun, fun k => (hstores k).imp_right And.right, fun _ => rfl⟩
  | some semVer =>
      dsimp only
      unfold getByVersion
      rw [gets_bind_run]
      cases hcached : cachedVersion peers deviceId semVer db with
      | some cached =>
          refine ⟨cached, db, rfl, fun k => .inl rfl, fun hnone => ?_⟩
          rw [Option.bind_some, hcached] at hnone
          cases hnone
      | none =>
          obtain ⟨db', hrun, hstores⟩ := assembleForVersion_run (some semVer) h
          exact ⟨_, db', hrun, fun k => (hstores k).imp_right And.right, fun _ => rfl⟩

/-- What `assembleAndCacheDeviceConfig` stores is its payload. -/
theorem assembleAndCacheDeviceConfig_stores {peers : Peers} {deviceId : String}
    (h : db.vault.Harmless (assemblyRefs db.vault
      (reachingMaps db (peers.deviceTypeIds deviceId) deviceId) (activeRows peers deviceId db)))
    (semVer k : String) :
    ObjectMap.get? (assembleAndCacheDeviceConfig peers deviceId semVer db).2.bucket k =
        ObjectMap.get? db.bucket k ∨
      ObjectMap.get? (assembleAndCacheDeviceConfig peers deviceId semVer db).2.bucket k =
        some (assembledConfig peers deviceId db) := by
  obtain ⟨db₁, hbuild, hsame⟩ := buildDeviceConfigPayload_run h
  obtain ⟨db₂, hset, hstores⟩ := setByVersion_run peers deviceId semVer
    (assembledConfig peers deviceId db) db₁
  unfold assembleAndCacheDeviceConfig
  rw [bind_run_ok hbuild, hset, ← hsame]
  exact (hstores k).imp_right And.right

/-! ### Failing calls -/

/-- The services when the device service answers with these types. -/
def withTypes (types : List ℕ) (peers : Peers) : Peers :=
  { peers with deviceTypeIds := fun _ => types }

/-- A store whose Vault answers every request. -/
def answering (db : ConfigDb) : ConfigDb := { db with vault := { db.vault with faults := [] } }

/-- The calls that fail take nothing away: the device service answers, or no config map reaches
the device through its types; and a request to Vault that fails would have found no secret. -/
structure FailsHarmlessly (peers : Peers) (types : List ℕ) (deviceId : String) (db : ConfigDb) :
    Prop where
  maps : reachingRevisions db (peers.deviceTypeIds deviceId) deviceId =
    reachingRevisions db types deviceId
  secrets : db.vault.Harmless
    (assemblyRefs db.vault (reachingMaps db types deviceId) (activeRows peers deviceId db))

/-- **Main result.** Where the calls that fail take nothing away, what the two assemblies store
has the groups of the payload that is assembled with no failure. -/
theorem failures_not_cached (peers : Peers) (types : List ℕ) (deviceId : String) (db : ConfigDb)
    (h : FailsHarmlessly peers types deviceId db) :
    ∃ intact, (buildDeviceConfigPayload (withTypes types peers) deviceId (answering db)).1 =
        .ok intact ∧
      (∀ k stored, ObjectMap.get? (getDeviceConfig peers deviceId db).2.bucket k = some stored →
        ObjectMap.get? db.bucket k = some stored ∨ stored.groups = intact.groups) ∧
      ∀ semVer k stored,
        ObjectMap.get? (assembleAndCacheDeviceConfig peers deviceId semVer db).2.bucket k =
          some stored →
        ObjectMap.get? db.bucket k = some stored ∨ stored.groups = intact.groups := by
  have hmaps : reachingMaps db (peers.deviceTypeIds deviceId) deviceId =
      reachingMaps db types deviceId := by
    unfold reachingMaps
    rw [h.maps]
  have hharmless : db.vault.Harmless (assemblyRefs db.vault
      (reachingMaps db (peers.deviceTypeIds deviceId) deviceId) (activeRows peers deviceId db)) := by
    rw [hmaps]
    exact h.secrets
  have hanswers : (answering db).vault.Harmless (assemblyRefs (answering db).vault
      (reachingMaps (answering db) ((withTypes types peers).deviceTypeIds deviceId) deviceId)
      (activeRows (withTypes types peers) deviceId (answering db))) :=
    Vault.harmless_of_answers (fun _ hfault => absurd hfault List.not_mem_nil) _
  obtain ⟨_, hintact, -⟩ := buildDeviceConfigPayload_run hanswers
  have hgroups : (assembledConfig peers deviceId db).groups =
      (assembledConfig (withTypes types peers) deviceId (answering db)).groups := by
    show assembledGroups db.vault _ _ = assembledGroups (answering db).vault _ _
    rw [hmaps]
    rfl
  refine ⟨_, by rw [hintact], fun k stored hstored => ?_, fun semVer k stored hstored => ?_⟩
  · obtain ⟨_, db', hrun, hstores, -⟩ := getDeviceConfig_run hharmless
    rw [hrun] at hstored
    rcases hstores k with hkept | hnew
    · exact .inl (hkept.symm.trans hstored)
    · right
      obtain rfl := Option.some.inj (hnew.symm.trans hstored)
      exact hgroups
  · rcases assembleAndCacheDeviceConfig_stores hharmless semVer k with hkept | hnew
    · exact .inl (hkept.symm.trans hstored)
    · right
      obtain rfl := Option.some.inj (hnew.symm.trans hstored)
      exact hgroups

end ConfigService

/-! ### A device with a secret -/

open ConfigService

/-- The services of the small world, where the bucket takes no object. -/
def bucketDown : Peers := { smallPeers with bucketUp := false }

/-- A group of the draft of the first project with a token as its secret. -/
def submitToken : UpsertConfigGroupDto where
  projectIdentifier := .id 1
  name := "app"
  isGlobal := none
  displayName := none
  gitFilePath := none
  sensitiveKeys := some ["token"]
  yamlContent := some (yamlDump [("token", .str "s3cret")])

/-- The device project of the small world, with Vault, applies a group with a secret. -/
def tokenDb : ConfigDb :=
  Runs.run ConfigEvent.step { smallDb with vault := ⟨true, "getapp-secrets", [], []⟩ }
    [⟨bucketDown, .provisionProjectContent ⟨1, "dev-1", none⟩⟩,
      ⟨bucketDown, .upsertGroup submitToken⟩, ⟨bucketDown, .applyRevision ⟨.id 1, none⟩⟩]

/-- The store with the outcomes of the next requests to Vault. -/
def withFaults (faults : List (Option String)) (db : ConfigDb) : ConfigDb :=
  { db with vault := { db.vault with faults := faults } }

/-- The request that the assembly makes is answered; the failure comes after it. -/
theorem answered_assembly_cached :
    ∃ intact, (buildDeviceConfigPayload (withTypes [5] smallPeers) "dev-1"
        (answering (withFaults [none, some "503"] tokenDb))).1 = .ok intact ∧
      (∀ k stored, ObjectMap.get? (getDeviceConfig smallPeers "dev-1"
          (withFaults [none, some "503"] tokenDb)).2.bucket k = some stored →
        ObjectMap.get? (withFaults [none, some "503"] tokenDb).bucket k = some stored ∨
          stored.groups = intact.groups) ∧
      ∀ semVer k stored, ObjectMap.get? (assembleAndCacheDeviceConfig smallPeers "dev-1" semVer
          (withFaults [none, some "503"] tokenDb)).2.bucket k = some stored →
        ObjectMap.get? (withFaults [none, some "503"] tokenDb).bucket k = some stored ∨
          stored.groups = intact.groups :=
  failures_not_cached smallPeers [5] "dev-1" (withFaults [none, some "503"] tokenDb)
    ⟨by decide +kernel, by decide +kernel⟩

/-- The request fails: the payload without the secret is stored under the version, and the one
that is assembled with no failure has it. -/
theorem failed_secret_cached :
    ((ObjectMap.get? (getDeviceConfig smallPeers "dev-1"
        (withFaults [some "503"] tokenDb)).2.bucket (versionedObjectKey "dev-1" "2.0.0")).map
          (·.groups)) = some [("app", [])] ∧
      (buildDeviceConfigPayload smallPeers "dev-1" tokenDb).1.toOption.map (·.groups) =
        some [("app", [("token", .str "s3cret")])] := by
  decide +kernel

end UploadService
