import UploadService.Lib.Runs
import UploadService.Config.Frames

/-!
# Which devices a config map reaches

A config map should reach a device only if an earlier `addConfigMapAssociation` named
the device, or a type the device has. Rows also change without a call: the foreign
keys of an association delete the row with its device, and set the column to null
with its device type. A row whose columns are all null stands for every device.

Main results:

- `targetsInv_step`: a call or a deletion keeps every row one that was named, unless
  it deletes a device type that a row refers to;
- `maps_confined_along_runs`: in every run without such a deletion, only named config
  maps are merged for a device;
- `deleted_type_reaches_every_device`: the row of a deleted device type reaches a
  device that no call named.
-/

namespace UploadService

open Prog Runs

/-! ### What a merge reads -/

namespace ConfigService

/-- The config-map revisions whose groups `populateDraftFromConfigMaps` merges. -/
def draftMaps (peers : Peers) (deviceId : String) (knownDeviceTypeIds : Option (List ℕ))
    (db : ConfigDb) : List ConfigRevision :=
  reachingRevisions db (knownDeviceTypeIds.getD (peers.deviceTypeIds deviceId)) deviceId

/-- The config-map revisions whose groups `buildDeviceConfigPayload` merges. -/
def payloadMaps (peers : Peers) (deviceId : String) (db : ConfigDb) : List ConfigRevision :=
  reachingRevisions db (peers.deviceTypeIds deviceId) deviceId

theorem mem_reachingRevisions {db : ConfigDb} {typeIds : List ℕ} {deviceId : String}
    {r : ConfigRevision} (hr : r ∈ reachingRevisions db typeIds deviceId) :
    ∃ a ∈ db.assocs, assocApplies typeIds deviceId a = true ∧ a.configMapProjectId = r.projectId := by
  have hproject := (List.mem_filter.mp hr).2
  simp only [Bool.and_eq_true, List.contains_iff_mem] at hproject
  obtain ⟨a, ha, hid⟩ := List.mem_map.mp hproject.1
  obtain ⟨hmem, happlies⟩ := List.mem_filter.mp ha
  exact ⟨a, hmem, happlies, hid⟩

end ConfigService

/-! ### Events -/

/-- A config call, or a change of the device tables by the device service. -/
inductive FleetEvent where
  | call (e : ConfigEvent)
  | createDeviceType (id : ℕ)
  | deleteDeviceType (id : ℕ)
  /-- a device registers, or its types change -/
  | saveDevice (device : Device)
  | deleteDevice (id : String)

namespace FleetEvent

/-- The deletion of a device type: ON DELETE SET NULL in the associations, ON DELETE
CASCADE in `device_device_types`. -/
def dropType (id : ℕ) (db : ConfigDb) : ConfigDb :=
  { db with
    deviceTypes := db.deviceTypes.filter (· != id)
    devices := db.devices.map fun d => { d with typeIds := d.typeIds.filter (· != id) }
    assocs := Rows.updateWhere (fun a => a.deviceTypeId == some id)
      (fun a => { a with deviceTypeId := none }) db.assocs }

/-- The deletion of a device: ON DELETE CASCADE in the associations. -/
def dropDevice (id : String) (db : ConfigDb) : ConfigDb :=
  { db with
    devices := Rows.deleteWhere (fun d => d.id == id) db.devices
    assocs := Rows.deleteWhere (fun a => a.deviceId == some id) db.assocs }

def step (db : ConfigDb) : FleetEvent → ConfigDb
  | .call e => ConfigEvent.step db e
  | .createDeviceType id => { db with deviceTypes := db.deviceTypes ++ [id] }
  | .deleteDeviceType id => dropType id db
  | .saveDevice device => { db with devices := Rows.save Device.id device db.devices }
  | .deleteDevice id => dropDevice id db

end FleetEvent

/-- What an association can name. -/
inductive MapTarget where
  | device (id : String)
  | deviceType (id : ℕ)
  deriving DecidableEq, Repr

/-- The config map and the targets an `addConfigMapAssociation` request names. -/
def requestedTargets (peers : Peers) (dto : ConfigService.AddConfigMapAssociationDto) :
    List (ℕ × MapTarget) :=
  match dto.configMapProjectIdentifier.bind peers.project with
  | none => []
  | some project =>
      dto.deviceTypeId.toList.map (fun t => (project.id, .deviceType t)) ++
        (dto.deviceIds.getD []).map fun d => (project.id, .device d)

/-- What the event names: nothing but `addConfigMapAssociation` names a target. -/
def FleetEvent.named (_ : ConfigDb) : FleetEvent → List (ℕ × MapTarget)
  | .call ⟨peers, .addConfigMapAssociation dto⟩ => requestedTargets peers dto
  | _ => []

/-- Some request named the device for the config map, or a device type that exists and
that the device has. -/
def NamedFor (named : List (ℕ × MapTarget)) (db : ConfigDb) (configMap : ℕ) (deviceId : String) :
    Prop :=
  (configMap, .device deviceId) ∈ named ∨
  ∃ t ∈ db.deviceTypes, t ∈ db.typesOf deviceId ∧ (configMap, .deviceType t) ∈ named

/-- Only named config maps are merged for a device, into its draft or into its payload,
as far as the device service answers with types the device has. -/
structure MapsConfined (named : List (ℕ × MapTarget)) (db : ConfigDb) : Prop where
  draft : ∀ peers deviceId known,
    (∀ t ∈ Option.getD known (peers.deviceTypeIds deviceId), t ∈ db.typesOf deviceId) →
    ∀ r ∈ ConfigService.draftMaps peers deviceId known db, NamedFor named db r.projectId deviceId
  payload : ∀ (peers : Peers) (deviceId : String),
    (∀ t ∈ peers.deviceTypeIds deviceId, t ∈ db.typesOf deviceId) →
    ∀ r ∈ ConfigService.payloadMaps peers deviceId db, NamedFor named db r.projectId deviceId

/-! ### The invariant -/

/-- A row that a request named, of a device type that exists where it is one. -/
inductive RowNamed (named : List (ℕ × MapTarget)) (deviceTypes : List ℕ) :
    ConfigMapAssociation → Prop
  | device (id configMap : ℕ) (d : String) (h : (configMap, .device d) ∈ named) :
      RowNamed named deviceTypes ⟨id, configMap, none, some d, none⟩
  | deviceType (id configMap t : ℕ) (ht : t ∈ deviceTypes)
      (h : (configMap, .deviceType t) ∈ named) :
      RowNamed named deviceTypes ⟨id, configMap, some t, none, none⟩

def TargetsInv (named : List (ℕ × MapTarget)) (db : ConfigDb) : Prop :=
  ∀ a ∈ db.assocs, RowNamed named db.deviceTypes a

theorem RowNamed.mono {named named' : List (ℕ × MapTarget)} {types types' : List ℕ}
    {a : ConfigMapAssociation} (h : RowNamed named types a) (hn : ∀ x ∈ named, x ∈ named')
    (ht : ∀ t ∈ types, a.deviceTypeId = some t → t ∈ types') : RowNamed named' types' a := by
  cases h with
  | device id configMap d h => exact .device id configMap d (hn _ h)
  | deviceType id configMap t hmem h => exact .deviceType id configMap t (ht t hmem rfl) (hn _ h)

/-- A named row that applies to a device was named for it. -/
theorem RowNamed.namedFor {named : List (ℕ × MapTarget)} {db : ConfigDb} {a : ConfigMapAssociation}
    (h : RowNamed named db.deviceTypes a) {typeIds : List ℕ} {deviceId : String}
    (hhonest : ∀ t ∈ typeIds, t ∈ db.typesOf deviceId)
    (happlies : ConfigService.assocApplies typeIds deviceId a = true) :
    NamedFor named db a.configMapProjectId deviceId := by
  cases h with
  | device id configMap d h =>
      have hd : d = deviceId := by simpa [ConfigService.assocApplies] using happlies
      exact .inl (hd ▸ h)
  | deviceType id configMap t ht h =>
      have hmem : t ∈ typeIds := by simpa [ConfigService.assocApplies] using happlies
      exact .inr ⟨t, ht, hhonest t hmem, h⟩

theorem TargetsInv.mapsConfined {named : List (ℕ × MapTarget)} {db : ConfigDb}
    (h : TargetsInv named db) : MapsConfined named db where
  draft := by
    intro peers deviceId known hhonest r hr
    obtain ⟨a, ha, happlies, hid⟩ := ConfigService.mem_reachingRevisions hr
    exact hid ▸ (h a ha).namedFor hhonest happlies
  payload := by
    intro peers deviceId hhonest r hr
    obtain ⟨a, ha, happlies, hid⟩ := ConfigService.mem_reachingRevisions hr
    exact hid ▸ (h a ha).namedFor hhonest happlies

/-! ### The two calls on associations -/

theorem targetsInv_configWrites (named : List (ℕ × MapTarget)) :
    ConfigWrites (TargetsInv named) where
  groups := fun _ _ h => h
  vault := fun _ _ h => h
  nextId := fun _ h => h
  revisions := fun _ _ h => h
  bucket := fun _ _ h => h
  releases := fun _ _ h => h
  offerings := fun _ _ h => h

namespace ConfigService

variable {named : List (ℕ × MapTarget)}

/-- An inserted row is named when its target is; the foreign key says that its type exists. -/
theorem insertAssoc_named {a : ConfigMapAssociation}
    (h : ∀ types id, (∀ t, a.deviceTypeId = some t → t ∈ types) →
      RowNamed named types { a with id := id }) :
    Keeps (TargetsInv named) (ConfigRepo.insertAssoc a) := by
  intro db hdb
  simp only [ConfigRepo.insertAssoc]
  split
  · rename_i haccepts
    intro b hb
    rcases List.mem_append.mp hb with hb | hb
    · exact hdb b hb
    · rw [List.mem_singleton.mp hb]
      apply h
      intro t ht
      simp only [ConfigDb.acceptsAssoc, ht, Bool.and_eq_true, List.contains_iff_mem] at haccepts
      exact haccepts.1.1.2
  · exact hdb

theorem associateDeviceType_named {configMap t : ℕ} (h : (configMap, .deviceType t) ∈ named) :
    Keeps (TargetsInv named) (associateDeviceType configMap t) := by
  refine Keeps.bind (Keeps.gets _) fun found => ?_
  cases found with
  | some existing => exact Keeps.pure _
  | none =>
      refine Keeps.bind (insertAssoc_named fun types id ht => ?_) fun _ => Keeps.pure _
      exact .deviceType id configMap t (ht t rfl) h

theorem associateDevice_named {configMap : ℕ} {d : String} (h : (configMap, .device d) ∈ named) :
    Keeps (TargetsInv named) (associateDevice configMap d) := by
  refine Keeps.bind (Keeps.gets _) fun found => ?_
  cases found with
  | some existing => exact Keeps.pure _
  | none =>
      refine Keeps.bind (insertAssoc_named fun types id _ => ?_) fun _ => Keeps.pure _
      exact .device id configMap d h

/-- The rows a request adds are rows it names. -/
theorem addConfigMapAssociation_named {peers : Peers} {dto : AddConfigMapAssociationDto}
    (h : ∀ x ∈ requestedTargets peers dto, x ∈ named) :
    Keeps (TargetsInv named) (addConfigMapAssociation peers dto) := by
  unfold requestedTargets at h
  unfold addConfigMapAssociation
  cases hid : dto.configMapProjectIdentifier with
  | none => exact Keeps.throw _
  | some identifier =>
      refine Keeps.ite (Keeps.throw _) ?_
      intro db hdb
      rcases requireProject_run peers identifier [.configMap] db with ⟨e, he⟩ | ⟨project, hproject, hok⟩
      · rw [bind_run_error he]
        exact hdb
      · rw [bind_run_ok hok]
        simp only [hid, Option.bind_some, hproject, List.mem_append, List.mem_map] at h
        refine Keeps.bind ?_ (fun forType => Keeps.foldEach (fun created d hd => ?_) forType) db hdb
        · cases ht : dto.deviceTypeId with
          | none => exact Keeps.pure _
          | some t =>
              refine Keeps.ite (Keeps.bind (associateDeviceType_named ?_) fun _ => Keeps.pure _)
                (Keeps.throw _)
              exact h _ (.inl ⟨t, by simp [ht], rfl⟩)
        · refine Keeps.bind (associateDevice_named ?_) fun _ => Keeps.pure _
          exact h _ (.inr ⟨d, hd, rfl⟩)

theorem removeConfigMapAssociation_named (id : ℕ) :
    Keeps (TargetsInv named) (removeConfigMapAssociation id) := by
  apply removeConfigMapAssociation_keeps
  intro _ db hdb a ha
  exact hdb a ((Rows.deleteWhere_sublist _ _).subset ha)

end ConfigService

/-! ### One event -/

/-- A device type is deleted only where no association row refers to it. -/
def DropsUnreferenced (db : ConfigDb) : FleetEvent → Prop
  | .deleteDeviceType id => ∀ a ∈ db.assocs, a.deviceTypeId ≠ some id
  | _ => True

theorem dropType_named {named : List (ℕ × MapTarget)} {db : ConfigDb} {id : ℕ}
    (h : TargetsInv named db) (hfree : ∀ a ∈ db.assocs, a.deviceTypeId ≠ some id) :
    TargetsInv named (FleetEvent.dropType id db) := by
  -- no row is set to null, and a row's own type is not the one that goes
  have hrows : (FleetEvent.dropType id db).assocs = db.assocs := by
    apply Rows.updateWhere_eq_self
    intro a ha hid
    exact absurd (by simpa using hid) (hfree a ha)
  intro a ha
  rw [hrows] at ha
  refine (h a ha).mono (fun _ hx => hx) fun t ht hat => ?_
  have hne : t ≠ id := by
    rintro rfl
    exact hfree a ha hat
  exact List.mem_filter.mpr ⟨ht, by simpa using hne⟩

/-- **Step.** An event keeps every row one that was named, unless it deletes a device
type that a row refers to. -/
theorem targetsInv_step {named : List (ℕ × MapTarget)} {db : ConfigDb} (e : FleetEvent)
    (h : TargetsInv named db) (hC : DropsUnreferenced db e) :
    TargetsInv (named ++ FleetEvent.named db e) (FleetEvent.step db e) := by
  have hmono : TargetsInv (named ++ FleetEvent.named db e) db := fun a ha =>
    (h a ha).mono (fun _ hx => List.mem_append_left _ hx) fun _ ht _ => ht
  cases e with
  | call e =>
      by_cases hadd : ∃ dto, e.call = .addConfigMapAssociation dto
      · obtain ⟨peers, call⟩ := e
        obtain ⟨dto, rfl⟩ := hadd
        apply ConfigService.addConfigMapAssociation_named _ db hmono
        exact fun x hx => List.mem_append_right _ hx
      · by_cases hremove : ∃ id, e.call = .removeConfigMapAssociation id
        · obtain ⟨peers, call⟩ := e
          obtain ⟨id, rfl⟩ := hremove
          exact ConfigService.removeConfigMapAssociation_named id db hmono
        · apply e.step_keeps (targetsInv_configWrites _) _ _ hmono
          · exact fun dto hdto => hadd ⟨dto, hdto⟩
          · exact fun id hid => hremove ⟨id, hid⟩
  | createDeviceType id =>
      intro a ha
      exact (hmono a ha).mono (fun _ hx => hx) fun t ht _ => List.mem_append_left _ ht
  | deleteDeviceType id => exact dropType_named hmono hC
  | saveDevice device => exact hmono
  | deleteDevice id => exact fun a ha => hmono a ((Rows.deleteWhere_sublist _ _).subset ha)

/-! ### Runs -/

/-- What the requests of a run named. -/
def namedTargets (db : ConfigDb) (es : List FleetEvent) : List (ℕ × MapTarget) :=
  outputs FleetEvent.step FleetEvent.named db es

/-- **Main result.** In every run from an empty association table that deletes no device
type a row refers to, only config maps that were named for a device are merged for it. -/
theorem maps_confined_along_runs (db : ConfigDb) (hempty : db.assocs = []) (es : List FleetEvent)
    (hC : Along FleetEvent.step DropsUnreferenced db es) :
    MapsConfined (namedTargets db es) (run FleetEvent.step db es) := by
  have hstart : TargetsInv [] db := by
    intro a ha
    rw [hempty] at ha
    cases ha
  have hrun := outputs_along (J := TargetsInv) (fun named s e => targetsInv_step e) hstart hC
  exact hrun.mapsConfined

/-- The config map of the small world is applied with one group and associated with type 5. -/
def associateType : List FleetEvent :=
  [.call ⟨smallPeers, .upsertGroup ⟨.id 2, "net", none, none, none, none, none⟩⟩,
   .call ⟨smallPeers, .applyRevision ⟨.id 2, none⟩⟩,
   .call ⟨smallPeers, .addConfigMapAssociation ⟨some (.id 2), some 5, none⟩⟩]

theorem maps_confined_after_association :
    MapsConfined (namedTargets smallDb (associateType ++ [.deleteDevice "dev-2"]))
      (run FleetEvent.step smallDb (associateType ++ [.deleteDevice "dev-2"])) :=
  maps_confined_along_runs smallDb rfl _ ⟨trivial, trivial, trivial, trivial, trivial⟩

/-- When type 5 is deleted its row is left with no target: the config map is merged for
`dev-2`, which no request named and which never had the type. -/
theorem deleted_type_reaches_every_device :
    ¬ MapsConfined (namedTargets smallDb (associateType ++ [.deleteDeviceType 5]))
      (run FleetEvent.step smallDb (associateType ++ [.deleteDeviceType 5])) := by
  intro h
  let db := run FleetEvent.step smallDb (associateType ++ [.deleteDeviceType 5])
  have hnamed : namedTargets smallDb (associateType ++ [.deleteDeviceType 5]) =
      [(2, .deviceType 5)] := by decide
  have hmaps : (ConfigService.payloadMaps smallPeers "dev-2" db).map (·.projectId) = [2] := by
    decide
  have htypes : db.deviceTypes = [] := by decide
  obtain ⟨r, hr, hid⟩ := List.mem_map.mp (hmaps ▸ List.mem_singleton.mpr rfl : 2 ∈ _)
  rcases h.payload smallPeers "dev-2" (by decide) r hr with hdevice | ⟨t, ht, -⟩
  · rw [hnamed] at hdevice
    simp at hdevice
  · rw [show (run FleetEvent.step smallDb (associateType ++ [.deleteDeviceType 5])).deviceTypes = []
      from htypes] at ht
    cases ht

end UploadService
