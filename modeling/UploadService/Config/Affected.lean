import Mathlib.Data.List.Dedup
import UploadService.Config.Targeting

/-!
# Which devices a config map affects

Five places decide which devices a config map is for: the cascade after a revision of the map
is applied, the list of affected devices, the list of the maps of a device project, and the two
merges. The first two go from the map to devices, through the rows that name something; the
others go from the device to maps, and a row that names nothing stands for every device.

Main results:

- `mem_cascadeDevices`, `mem_affectedDevices`, `mem_mapsForProject`, `mem_payloadMaps`: what each
  place asks of the rows;
- `refreshed_iff_affected`: in every state reached the places agree on a map and a device exactly
  where the rows that name something cover the one that does not.
-/

namespace UploadService

open Prog Runs

namespace ConfigService

/-! ### The two listings -/

inductive AssociationType where
  | deviceId | deviceType
  deriving DecidableEq, Repr

structure ConfigMapAffectedDeviceDto where
  deviceId : String
  associationType : AssociationType
  associationValue : String
  deriving DecidableEq, Repr

/-- The devices that the rows name, then those that the device service lists for each type. -/
def affectedDevices (peers : Peers) (assocs : List ConfigMapAssociation) :
    List ConfigMapAffectedDeviceDto :=
  let typeIds := (assocs.filterMap (·.deviceTypeId)).eraseDups
  (assocs.filterMap fun a => a.deviceId.filter (· ≠ "")).map (fun d => ⟨d, .deviceId, d⟩) ++
    typeIds.flatMap fun t => (peers.deviceIdsByTypeIds [t]).map fun d =>
      ⟨d, .deviceType, toString t⟩

/-- `getConfigMapAffectedDevices`. -/
def getConfigMapAffectedDevices (peers : Peers) (identifier : Identifier) :
    ConfigProg (List ConfigMapAffectedDeviceDto) := do
  let project ← requireProject peers identifier [.configMap]
  let assocs ← Prog.gets fun db =>
    db.assocs.filter fun a => a.configMapProjectId == project.id && a.configProjectId.isNone
  pure (affectedDevices peers assocs)

structure ConfigMapForProjectDto where
  associationId : ℕ
  configMapProjectId : ℕ
  configMapProjectName : String
  deviceTypeId : Option ℕ
  deriving DecidableEq, Repr

/-- The device of a config project; an empty id counts as none. -/
def projectDevice (project : Project) : Option String := (deviceOfName project.name).filter (· ≠ "")

/-- The rows that apply to a project that may be no device's. -/
def assocAppliesTo (peers : Peers) (deviceId : Option String) (a : ConfigMapAssociation) : Bool :=
  (a.deviceTypeId.isNone && a.deviceId.isNone && a.configProjectId.isNone) ||
  (match deviceId, a.deviceTypeId with
    | some d, some t => (peers.deviceTypeIds d).contains t
    | _, _ => false) ||
  (deviceId.isSome && a.deviceId == deviceId)

/-- The name of a config map, among the projects that were found. -/
def mapName (peers : Peers) (ids : List ℕ) (configMapProjectId : ℕ) : String :=
  let found := ids.eraseDups.filterMap fun id => peers.project (.id id)
  match found.reverse.find? fun p => p.id == configMapProjectId with
  | some p => p.name
  | none => ""

/-- The first row of each config map. -/
def firstOfEachMap (assocs : List ConfigMapAssociation) : List ConfigMapAssociation :=
  assocs.foldl (fun seen a =>
    if seen.any fun b => b.configMapProjectId == a.configMapProjectId then seen
    else seen ++ [a]) []

/-- `getConfigMapsForProject`. -/
def getConfigMapsForProject (peers : Peers) (identifier : Identifier) :
    ConfigProg (List ConfigMapForProjectDto) := do
  let project ← requireProject peers identifier [.config]
  let applicable ← Prog.gets fun db => db.assocs.filter (assocAppliesTo peers (projectDevice project))
  pure ((firstOfEachMap applicable).map fun a => {
    associationId := a.id
    configMapProjectId := a.configMapProjectId
    configMapProjectName := mapName peers (applicable.map (·.configMapProjectId)) a.configMapProjectId
    deviceTypeId := a.deviceTypeId })

/-! ### What each place asks of the rows -/

variable {peers : Peers} {db : ConfigDb} {m : ℕ} {d : String}

/-- A row of the config map names the device. -/
def NamesDevice (db : ConfigDb) (m : ℕ) (d : String) : Prop :=
  ∃ a ∈ db.assocs, a.configMapProjectId = m ∧ a.deviceId = some d

/-- A row of the config map names one of the types. -/
def NamesType (db : ConfigDb) (m : ℕ) (types : List ℕ) : Prop :=
  ∃ a ∈ db.assocs, a.configMapProjectId = m ∧ ∃ t ∈ types, a.deviceTypeId = some t

/-- A row of the config map names nothing. -/
def NamesNothing (db : ConfigDb) (m : ℕ) : Prop :=
  ∃ a ∈ db.assocs, a.configMapProjectId = m ∧ a.deviceTypeId = none ∧ a.deviceId = none

/-- No row has a config project. -/
def NoConfigProjects (db : ConfigDb) : Prop := ∀ a ∈ db.assocs, a.configProjectId = none

/-- The two answers of the device service are inverse to each other. -/
def Inverse (peers : Peers) : Prop :=
  ∀ types d, d ∈ peers.deviceIdsByTypeIds types ↔ ∃ t ∈ types, t ∈ peers.deviceTypeIds d

/-- The rows that the cascade and the list of affected devices look at. -/
theorem mem_rowsOfMap {a : ConfigMapAssociation} (hrows : NoConfigProjects db) :
    a ∈ db.assocs.filter (fun a => a.configMapProjectId == m && a.configProjectId.isNone) ↔
      a ∈ db.assocs ∧ a.configMapProjectId = m := by
  rw [List.mem_filter]
  constructor
  · rintro ⟨hmem, hof⟩
    simp only [Bool.and_eq_true, beq_iff_eq] at hof
    exact ⟨hmem, hof.1⟩
  · rintro ⟨hmem, hm⟩
    exact ⟨hmem, by simp [hm, hrows a hmem]⟩

theorem mem_cascadeDevices (hrows : NoConfigProjects db) (hinverse : Inverse peers) :
    d ∈ cascadeDevices peers db m ↔
      (d ≠ "" ∧ NamesDevice db m d) ∨ NamesType db m (peers.deviceTypeIds d) := by
  unfold cascadeDevices NamesDevice NamesType
  rw [ObjectMap.mem_addKeys, List.mem_append]
  constructor
  · rintro (hnil | hdirect | htype)
    · cases hnil
    · obtain ⟨a, ha, hd⟩ := List.mem_filterMap.mp hdirect
      obtain ⟨hmem, hm⟩ := (mem_rowsOfMap hrows).mp ha
      obtain ⟨hid, hne⟩ := Option.filter_eq_some_iff.mp hd
      exact .inl ⟨by simpa using hne, a, hmem, hm, hid⟩
    · split at htype
      · cases htype
      · obtain ⟨t, ht, hdt⟩ := (hinverse _ _).mp htype
        obtain ⟨a, ha, hat⟩ := List.mem_filterMap.mp (List.mem_dedup.mp ht)
        obtain ⟨hmem, hm⟩ := (mem_rowsOfMap hrows).mp ha
        exact .inr ⟨a, hmem, hm, t, hdt, hat⟩
  · rintro (⟨hne, a, hmem, hm, hid⟩ | ⟨a, hmem, hm, t, hdt, hat⟩)
    · right; left
      refine List.mem_filterMap.mpr ⟨a, (mem_rowsOfMap hrows).mpr ⟨hmem, hm⟩, ?_⟩
      rw [hid]
      exact Option.filter_eq_some_iff.mpr ⟨rfl, by simpa using hne⟩
    · right; right
      have ht := List.mem_filterMap.mpr ⟨a, (mem_rowsOfMap hrows).mpr ⟨hmem, hm⟩, hat⟩
      split
      · rename_i hempty
        rw [List.isEmpty_iff] at hempty
        rw [hempty] at ht
        cases ht
      · exact (hinverse _ _).mpr ⟨t, List.mem_dedup.mpr ht, hdt⟩

theorem mem_affectedDevices (hrows : NoConfigProjects db) (hinverse : Inverse peers) :
    (∃ e ∈ affectedDevices peers (db.assocs.filter fun a =>
        a.configMapProjectId == m && a.configProjectId.isNone), e.deviceId = d) ↔
      (d ≠ "" ∧ NamesDevice db m d) ∨ NamesType db m (peers.deviceTypeIds d) := by
  unfold affectedDevices NamesDevice NamesType
  constructor
  · rintro ⟨e, he, rfl⟩
    rcases List.mem_append.mp he with hdirect | htype
    · obtain ⟨x, hx, rfl⟩ := List.mem_map.mp hdirect
      obtain ⟨a, ha, hd⟩ := List.mem_filterMap.mp hx
      obtain ⟨hmem, hm⟩ := (mem_rowsOfMap hrows).mp ha
      obtain ⟨hid, hne⟩ := Option.filter_eq_some_iff.mp hd
      exact .inl ⟨by simpa using hne, a, hmem, hm, hid⟩
    · obtain ⟨t, ht, he⟩ := List.mem_flatMap.mp htype
      obtain ⟨x, hx, rfl⟩ := List.mem_map.mp he
      obtain ⟨a, ha, hat⟩ := List.mem_filterMap.mp (List.mem_eraseDups.mp ht)
      obtain ⟨hmem, hm⟩ := (mem_rowsOfMap hrows).mp ha
      obtain ⟨t', ht', hdt⟩ := (hinverse _ _).mp hx
      rw [List.mem_singleton.mp ht'] at hdt
      exact .inr ⟨a, hmem, hm, t, hdt, hat⟩
  · rintro (⟨hne, a, hmem, hm, hid⟩ | ⟨a, hmem, hm, t, hdt, hat⟩)
    · refine ⟨⟨d, .deviceId, d⟩, List.mem_append_left _ (List.mem_map.mpr ⟨d, ?_, rfl⟩), rfl⟩
      refine List.mem_filterMap.mpr ⟨a, (mem_rowsOfMap hrows).mpr ⟨hmem, hm⟩, ?_⟩
      rw [hid]
      exact Option.filter_eq_some_iff.mpr ⟨rfl, by simpa using hne⟩
    · refine ⟨⟨d, .deviceType, toString t⟩, List.mem_append_right _ (List.mem_flatMap.mpr
        ⟨t, List.mem_eraseDups.mpr ?_, List.mem_map.mpr ⟨d, ?_, rfl⟩⟩), rfl⟩
      · exact List.mem_filterMap.mpr ⟨a, (mem_rowsOfMap hrows).mpr ⟨hmem, hm⟩, hat⟩
      · exact (hinverse _ _).mpr ⟨t, List.mem_singleton_self t, hdt⟩

theorem mem_firstOfEachMap {assocs : List ConfigMapAssociation} :
    (∃ a ∈ firstOfEachMap assocs, a.configMapProjectId = m) ↔
      ∃ a ∈ assocs, a.configMapProjectId = m := by
  have hfold : ∀ (rows seen : List ConfigMapAssociation),
      (∃ a ∈ rows.foldl (fun seen a =>
        if seen.any fun b => b.configMapProjectId == a.configMapProjectId then seen
        else seen ++ [a]) seen, a.configMapProjectId = m) ↔
      (∃ a ∈ seen, a.configMapProjectId = m) ∨ ∃ a ∈ rows, a.configMapProjectId = m := by
    intro rows
    induction rows with
    | nil => simp
    | cons x rows ih =>
        intro seen
        rw [List.foldl_cons, ih]
        by_cases hx : seen.any (fun b => b.configMapProjectId == x.configMapProjectId) = true
        · rw [if_pos hx]
          obtain ⟨b, hb, hbx⟩ := List.any_eq_true.mp hx
          have hbx : b.configMapProjectId = x.configMapProjectId := by simpa using hbx
          constructor
          · rintro (h | ⟨a, ha, hm⟩)
            · exact .inl h
            · exact .inr ⟨a, List.mem_cons_of_mem x ha, hm⟩
          · rintro (h | ⟨a, ha, hm⟩)
            · exact .inl h
            · rcases List.mem_cons.mp ha with rfl | ha
              · exact .inl ⟨b, hb, hbx.trans hm⟩
              · exact .inr ⟨a, ha, hm⟩
        · rw [if_neg hx]
          simp only [List.mem_append, List.mem_cons, List.not_mem_nil, or_false, or_and_right,
            exists_or, exists_eq_left, or_assoc]
  unfold firstOfEachMap
  rw [hfold]
  simp

/-- The rows that apply to a device, as the list of its config maps asks for them. -/
theorem mem_mapsForProject {project : Project} (hname : deviceOfName project.name = some d)
    (hrows : NoConfigProjects db) :
    (∃ a ∈ firstOfEachMap (db.assocs.filter (assocAppliesTo peers (projectDevice project))),
        a.configMapProjectId = m) ↔
      NamesNothing db m ∨ (d ≠ "" ∧ (NamesType db m (peers.deviceTypeIds d) ∨ NamesDevice db m d)) := by
  rw [mem_firstOfEachMap]
  unfold projectDevice NamesNothing NamesType NamesDevice
  rw [hname]
  by_cases hd : d = ""
  · have hnone : (some d).filter (fun x => decide (x ≠ "")) = none := by simp [hd]
    rw [hnone]
    constructor
    · rintro ⟨a, ha, hm⟩
      obtain ⟨hmem, happlies⟩ := List.mem_filter.mp ha
      have hnothing : (a.deviceTypeId = none ∧ a.deviceId = none) ∧ a.configProjectId = none := by
        simpa [assocAppliesTo] using happlies
      exact .inl ⟨a, hmem, hm, hnothing.1⟩
    · rintro (⟨a, hmem, hm, ht, hid⟩ | ⟨hne, -⟩)
      · exact ⟨a, List.mem_filter.mpr ⟨hmem, by simp [assocAppliesTo, ht, hid, hrows a hmem]⟩, hm⟩
      · exact absurd hd hne
  · have hsome : (some d).filter (fun x => decide (x ≠ "")) = some d := by simp [hd]
    rw [hsome]
    constructor
    · rintro ⟨a, ha, hm⟩
      obtain ⟨hmem, happlies⟩ := List.mem_filter.mp ha
      simp only [assocAppliesTo, Option.isSome_some, Bool.true_and, Bool.or_eq_true] at happlies
      rcases happlies with (hnothing | htype) | hdevice
      · have hall : (a.deviceTypeId = none ∧ a.deviceId = none) ∧ a.configProjectId = none := by
          simpa using hnothing
        exact .inl ⟨a, hmem, hm, hall.1⟩
      · cases hat : a.deviceTypeId with
        | none =>
            rw [hat] at htype
            cases htype
        | some t =>
            rw [hat] at htype
            exact .inr ⟨hd, .inl ⟨a, hmem, hm, t, by simpa using htype, hat⟩⟩
      · exact .inr ⟨hd, .inr ⟨a, hmem, hm, by simpa using hdevice⟩⟩
    · rintro (⟨a, hmem, hm, ht, hid⟩ | ⟨-, ⟨a, hmem, hm, t, htd, hat⟩ | ⟨a, hmem, hm, hid⟩⟩)
      · exact ⟨a, List.mem_filter.mpr ⟨hmem, by simp [assocAppliesTo, ht, hid, hrows a hmem]⟩, hm⟩
      · exact ⟨a, List.mem_filter.mpr ⟨hmem, by simp [assocAppliesTo, hat, htd]⟩, hm⟩
      · exact ⟨a, List.mem_filter.mpr ⟨hmem, by simp [assocAppliesTo, hid]⟩, hm⟩

/-- The ACTIVE revision of the config map is among those that are merged for the device. -/
theorem mem_payloadMaps {r : ConfigRevision} (hr : r ∈ db.revisions) (hstatus : r.status = .active)
    (hrows : NoConfigProjects db) :
    r ∈ payloadMaps peers d db ↔ NamesNothing db r.projectId ∨
      NamesType db r.projectId (peers.deviceTypeIds d) ∨ NamesDevice db r.projectId d := by
  unfold NamesNothing NamesType NamesDevice
  constructor
  · intro h
    obtain ⟨a, hmem, happlies, hm⟩ := mem_reachingRevisions h
    simp only [assocApplies, Bool.or_eq_true] at happlies
    rcases happlies with (hnothing | htype) | hdevice
    · have hall : (a.deviceTypeId = none ∧ a.deviceId = none) ∧ a.configProjectId = none := by
        simpa using hnothing
      exact .inl ⟨a, hmem, hm, hall.1⟩
    · cases hat : a.deviceTypeId with
      | none =>
          rw [hat] at htype
          cases htype
      | some t =>
          rw [hat] at htype
          exact .inr (.inl ⟨a, hmem, hm, t, by simpa using htype, hat⟩)
    · exact .inr (.inr ⟨a, hmem, hm, by simpa using hdevice⟩)
  · intro h
    have hrow : ∃ a ∈ db.assocs, assocApplies (peers.deviceTypeIds d) d a = true ∧
        a.configMapProjectId = r.projectId := by
      rcases h with ⟨a, hmem, hm, ht, hid⟩ | ⟨a, hmem, hm, t, htd, hat⟩ | ⟨a, hmem, hm, hid⟩
      · exact ⟨a, hmem, by simp [assocApplies, ht, hid, hrows a hmem], hm⟩
      · exact ⟨a, hmem, by simp [assocApplies, hat, htd], hm⟩
      · exact ⟨a, hmem, by simp [assocApplies, hid], hm⟩
    obtain ⟨a, hmem, happlies, hm⟩ := hrow
    refine List.mem_filter.mpr ⟨hr, ?_⟩
    rw [Bool.and_eq_true, List.contains_iff_mem, hstatus]
    exact ⟨List.mem_map.mpr ⟨a, List.mem_filter.mpr ⟨hmem, happlies⟩, hm⟩, rfl⟩

/-! ### Agreement -/

/-- The cascade of the config map refreshes the device: it is one of its devices, and its config
project is found. -/
def Refreshed (peers : Peers) (db : ConfigDb) (m : ℕ) (d : String) : Prop :=
  d ∈ cascadeDevices peers db m ∧ peers.projectNamed s!"config:{d}" .config ≠ none

/-- What the project service answers about a config map and the config project of a device. -/
structure MapAndDevice (peers : Peers) (m : ℕ) (mapIdentifier : Identifier) (d : String)
    (projectIdentifier : Identifier) : Prop where
  map : ∃ p, peers.project mapIdentifier = some p ∧ p.id = m ∧ p.projectType = .configMap
  device : ∃ p, peers.project projectIdentifier = some p ∧ p.name = s!"config:{d}" ∧
    p.projectType = .config
  found : peers.projectNamed s!"config:{d}" .config ≠ none

/-- The two listings and the two merges agree with the cascade. -/
structure Agree (peers : Peers) (db : ConfigDb) (r : ConfigRevision) (mapIdentifier : Identifier)
    (d : String) (projectIdentifier : Identifier) : Prop where
  affected : (∃ entries, (getConfigMapAffectedDevices peers mapIdentifier db).1 = .ok entries ∧
    ∃ e ∈ entries, e.deviceId = d) ↔ Refreshed peers db r.projectId d
  listed : (∃ entries, (getConfigMapsForProject peers projectIdentifier db).1 = .ok entries ∧
    ∃ e ∈ entries, e.configMapProjectId = r.projectId) ↔ Refreshed peers db r.projectId d
  payload : r ∈ payloadMaps peers d db ↔ Refreshed peers db r.projectId d
  draft : r ∈ draftMaps peers d none db ↔ Refreshed peers db r.projectId d

/-- The rows of the config map that name something cover those that do not: a row that names
nothing stands for every device, and the cascade leaves out the direct rows of an empty id. -/
def Covered (peers : Peers) (db : ConfigDb) (m : ℕ) (d : String) : Prop :=
  (NamesNothing db m ∨ NamesDevice db m d →
    NamesType db m (peers.deviceTypeIds d) ∨ (d ≠ "" ∧ NamesDevice db m d)) ∧
  (d = "" → NamesType db m (peers.deviceTypeIds d) → NamesNothing db m)

theorem deviceOfName_config (d : String) : deviceOfName s!"config:{d}" = some d := by
  have htext : (s!"config:{d}").toList = "config:".toList ++ d.toList := by
    have happend : s!"config:{d}" = "config:" ++ d := rfl
    rw [happend, String.toList_append]
  unfold deviceOfName
  rw [htext, if_pos (List.isPrefixOf_iff_prefix.mpr (List.prefix_append _ _))]
  have hdrop : ("config:".toList ++ d.toList).drop 7 = d.toList := rfl
  rw [hdrop, String.ofList_toList]

theorem affected_iff {mapIdentifier projectIdentifier : Identifier}
    (hrows : NoConfigProjects db) (hinverse : Inverse peers)
    (h : MapAndDevice peers m mapIdentifier d projectIdentifier) :
    (∃ entries, (getConfigMapAffectedDevices peers mapIdentifier db).1 = .ok entries ∧
        ∃ e ∈ entries, e.deviceId = d) ↔
      (d ≠ "" ∧ NamesDevice db m d) ∨ NamesType db m (peers.deviceTypeIds d) := by
  obtain ⟨p, hp, rfl, htype⟩ := h.map
  have hrun : getConfigMapAffectedDevices peers mapIdentifier db =
      (.ok (affectedDevices peers (db.assocs.filter fun a =>
        a.configMapProjectId == p.id && a.configProjectId.isNone)), db) :=
    bind_run_ok (requireProject_ok hp (by simp [htype])) _
  rw [hrun, ← mem_affectedDevices hrows hinverse]
  constructor
  · rintro ⟨entries, hentries, h⟩
    rw [Except.ok.inj hentries]
    exact h
  · exact fun h => ⟨_, rfl, h⟩

theorem listed_iff {mapIdentifier projectIdentifier : Identifier} (hrows : NoConfigProjects db)
    (h : MapAndDevice peers m mapIdentifier d projectIdentifier) :
    (∃ entries, (getConfigMapsForProject peers projectIdentifier db).1 = .ok entries ∧
        ∃ e ∈ entries, e.configMapProjectId = m) ↔
      NamesNothing db m ∨
        (d ≠ "" ∧ (NamesType db m (peers.deviceTypeIds d) ∨ NamesDevice db m d)) := by
  obtain ⟨p, hp, hname, htype⟩ := h.device
  have hdevice : deviceOfName p.name = some d := hname ▸ deviceOfName_config d
  rw [← mem_mapsForProject hdevice hrows]
  constructor
  · rintro ⟨entries, hentries, e, he, hm⟩
    unfold getConfigMapsForProject at hentries
    rw [bind_run_ok (requireProject_ok hp (by simp [htype]))] at hentries
    rw [← Except.ok.inj hentries] at he
    obtain ⟨a, ha, rfl⟩ := List.mem_map.mp he
    exact ⟨a, ha, hm⟩
  · rintro ⟨a, ha, hm⟩
    unfold getConfigMapsForProject
    rw [bind_run_ok (requireProject_ok hp (by simp [htype]))]
    exact ⟨_, rfl, _, List.mem_map.mpr ⟨a, ha, rfl⟩, hm⟩

/-- The places agree on a config map and a device exactly where its rows cover each other. -/
theorem agree_iff_covered {r : ConfigRevision} (hr : r ∈ db.revisions) (hstatus : r.status = .active)
    (hrows : NoConfigProjects db) (hinverse : Inverse peers)
    {mapIdentifier projectIdentifier : Identifier}
    (h : MapAndDevice peers r.projectId mapIdentifier d projectIdentifier) :
    Agree peers db r mapIdentifier d projectIdentifier ↔ Covered peers db r.projectId d := by
  have hcascade : Refreshed peers db r.projectId d ↔
      (d ≠ "" ∧ NamesDevice db r.projectId d) ∨
        NamesType db r.projectId (peers.deviceTypeIds d) := by
    rw [← mem_cascadeDevices hrows hinverse]
    exact and_iff_left h.found
  have haffected := affected_iff hrows hinverse h
  have hlisted := listed_iff hrows h
  have hpayload := @mem_payloadMaps peers db d r hr hstatus hrows
  have hdraft : draftMaps peers d none db = payloadMaps peers d db := rfl
  unfold Covered
  constructor
  · intro hagree
    have hl := hlisted.symm.trans (hagree.listed.trans hcascade)
    have hm := hpayload.symm.trans (hagree.payload.trans hcascade)
    refine ⟨fun hany => ?_, fun hempty htype => ?_⟩
    · have := hm.mp (hany.imp id Or.inr)
      exact this.symm
    · rcases hl.mpr (.inr htype) with hnothing | ⟨hne, -⟩
      · exact hnothing
      · exact absurd hempty hne
  · rintro ⟨hcover, hempty⟩
    have hall : NamesNothing db r.projectId ∨ NamesType db r.projectId (peers.deviceTypeIds d) ∨
        NamesDevice db r.projectId d ↔ Refreshed peers db r.projectId d := by
      rw [hcascade]
      constructor
      · rintro (hn | ht | hd)
        · exact (hcover (.inl hn)).symm
        · exact .inr ht
        · exact (hcover (.inr hd)).symm
      · rintro (⟨-, hd⟩ | ht)
        · exact .inr (.inr hd)
        · exact .inr (.inl ht)
    refine ⟨haffected.trans hcascade.symm, hlisted.trans (Iff.trans ?_ hall), hpayload.trans hall,
      hdraft ▸ hpayload.trans hall⟩
    constructor
    · rintro (hn | ⟨-, hrest⟩)
      · exact .inl hn
      · exact .inr hrest
    · rintro (hn | hrest)
      · exact .inl hn
      · by_cases hd : d = ""
        · left
          rcases hrest with ht | hdev
          · exact hempty hd ht
          · rcases hcover (.inr hdev) with ht | ⟨hne, -⟩
            · exact hempty hd ht
            · exact absurd hd hne
        · exact .inr ⟨hd, hrest⟩

end ConfigService

/-! ### Runs -/

open ConfigService

theorem noConfigProjects_configWrites : ConfigWrites NoConfigProjects where
  groups := fun _ _ h => h
  vault := fun _ _ h => h
  nextId := fun _ h => h
  revisions := fun _ _ h => h
  bucket := fun _ _ h => h
  releases := fun _ _ h => h
  offerings := fun _ _ h => h

theorem insertAssoc_noConfigProjects {a : ConfigMapAssociation} (ha : a.configProjectId = none) :
    Keeps NoConfigProjects (ConfigRepo.insertAssoc a) := by
  intro db hdb
  simp only [ConfigRepo.insertAssoc]
  split
  · intro b hb
    rcases List.mem_append.mp hb with hb | hb
    · exact hdb b hb
    · rw [List.mem_singleton.mp hb]
      exact ha
  · exact hdb

/-- **Step.** No event gives a row a config project. -/
theorem noConfigProjects_step {db : ConfigDb} (h : NoConfigProjects db) (e : FleetEvent) :
    NoConfigProjects (FleetEvent.step db e) := by
  have hsub : ∀ p : ConfigMapAssociation → Bool, ∀ a ∈ Rows.deleteWhere p db.assocs,
      a.configProjectId = none := fun p a ha => h a ((Rows.deleteWhere_sublist _ _).subset ha)
  cases e with
  | call e =>
      by_cases hadd : ∃ dto, e.call = .addConfigMapAssociation dto
      · obtain ⟨peers, call⟩ := e
        obtain ⟨dto, rfl⟩ := hadd
        exact addConfigMapAssociation_keeps (fun _ => insertAssoc_noConfigProjects) peers dto db h
      · by_cases hremove : ∃ id, e.call = .removeConfigMapAssociation id
        · obtain ⟨peers, call⟩ := e
          obtain ⟨id, rfl⟩ := hremove
          have hrows : Keeps NoConfigProjects (removeConfigMapAssociation id) := by
            apply removeConfigMapAssociation_keeps
            intro _ s hs a ha
            exact hs a ((Rows.deleteWhere_sublist _ _).subset ha)
          exact hrows db h
        · apply e.step_keeps noConfigProjects_configWrites _ _ h
          · exact fun dto hdto => hadd ⟨dto, hdto⟩
          · exact fun id hid => hremove ⟨id, hid⟩
  | createDeviceType id => exact h
  | deleteDeviceType id =>
      intro a ha
      rcases Rows.mem_updateWhere.mp ha with ⟨b, hb, -, rfl⟩ | ⟨hb, -⟩
      · exact h b hb
      · exact h a hb
  | saveDevice device => exact h
  | deleteDevice id => exact hsub _

/-- **Main result.** In every state reached from an empty association table, the cascade, the
two listings and the two merges agree on a config map and a device exactly where the rows of the
map that name something cover those that do not. -/
theorem refreshed_iff_affected (db : ConfigDb) (hempty : db.assocs = []) (es : List FleetEvent)
    (peers : Peers) (hinverse : Inverse peers) (r : ConfigRevision)
    (hr : r ∈ (run FleetEvent.step db es).revisions) (hstatus : r.status = .active) (d : String)
    (mapIdentifier projectIdentifier : Identifier)
    (h : MapAndDevice peers r.projectId mapIdentifier d projectIdentifier) :
    Agree peers (run FleetEvent.step db es) r mapIdentifier d projectIdentifier ↔
      Covered peers (run FleetEvent.step db es) r.projectId d := by
  have hstart : NoConfigProjects db := by
    intro a ha
    rw [hempty] at ha
    cases ha
  have hrows := invariant_run (I := NoConfigProjects) (fun s e hs => noConfigProjects_step hs e)
    hstart es
  exact agree_iff_covered hr hstatus hrows hinverse h

/-! ### A map with a device type -/

theorem smallPeers_inverse : Inverse smallPeers := by
  intro types d
  show d ∈ (if types.contains 5 then ["dev-1"] else []) ↔
    ∃ t ∈ types, t ∈ (if d = "dev-1" then [5] else [])
  by_cases hd : d = "dev-1"
  · by_cases ht : 5 ∈ types <;> simp [hd, ht]
  · by_cases ht : 5 ∈ types <;> simp [hd, ht]

theorem smallPeers_mapAndDevice : MapAndDevice smallPeers 2 (.id 2) "dev-1" (.id 1) where
  map := ⟨⟨2, "maps", .configMap⟩, by decide⟩
  device := ⟨⟨1, "config:dev-1", .config⟩, by decide⟩
  found := by decide

/-- The applied revision of the config map of the small world. -/
def netRevision : ConfigRevision := ⟨1, 2, 1, .active, none, some 0, some "1.0.0"⟩

/-- The map is for type 5, which `dev-1` has: the places agree. -/
theorem typed_map_agrees :
    Agree smallPeers (run FleetEvent.step smallDb associateType) netRevision (.id 2) "dev-1" (.id 1) ↔
      Covered smallPeers (run FleetEvent.step smallDb associateType) 2 "dev-1" :=
  refreshed_iff_affected smallDb rfl associateType smallPeers smallPeers_inverse netRevision
    (by decide) rfl "dev-1" (.id 2) (.id 1) smallPeers_mapAndDevice

/-- The services once the type is gone. -/
def untypedPeers : Peers :=
  { smallPeers with deviceTypeIds := fun _ => [], deviceIdsByTypeIds := fun _ => [] }

/-- When type 5 is deleted, the map is merged for `dev-1` and listed for its project, and neither
the cascade nor the list of affected devices finds a device. -/
theorem deleted_type_not_refreshed :
    Inverse untypedPeers ∧ MapAndDevice untypedPeers 2 (.id 2) "dev-1" (.id 1) ∧
      netRevision ∈ (run FleetEvent.step smallDb (associateType ++ [.deleteDeviceType 5])).revisions ∧
      ¬ Agree untypedPeers (run FleetEvent.step smallDb (associateType ++ [.deleteDeviceType 5]))
        netRevision (.id 2) "dev-1" (.id 1) := by
  refine ⟨fun types d => by simp [untypedPeers], ⟨⟨⟨2, "maps", .configMap⟩, by decide⟩,
    ⟨⟨1, "config:dev-1", .config⟩, by decide⟩, by decide⟩, by decide, fun h => ?_⟩
  have hmerged : netRevision ∈ payloadMaps untypedPeers "dev-1"
      (run FleetEvent.step smallDb (associateType ++ [.deleteDeviceType 5])) := by decide
  have hdevices : cascadeDevices untypedPeers
      (run FleetEvent.step smallDb (associateType ++ [.deleteDeviceType 5])) 2 = [] := by decide
  have hrefreshed := (h.payload.mp hmerged).1
  change "dev-1" ∈ cascadeDevices untypedPeers _ 2 at hrefreshed
  rw [hdevices] at hrefreshed
  cases hrefreshed

end UploadService
