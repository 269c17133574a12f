import UploadService.Config.Reads
import UploadService.Config.Versions

/-!
# Two ways to read a version

A device's current config is assembled from the config maps that reach it and its ACTIVE
revision; the config of a version is assembled from the revision alone. Publishing copies what
the config maps say into the revision, but a config map that changes or is associated afterwards
reaches the first read at once and the second only after the next publication.

`Covers` says that the revision has all that the config maps add.

Main results:

- `sameGroups_iff_covers`: the two assemblies agree exactly where the revision covers the maps;
- `reads_agree_along_runs`: the two reads, in every state that a run reaches.
-/

namespace UploadService

namespace ConfigService

open Prog

/-! ### Groups as objects -/

/-- The same group names, and under each the same entries. -/
structure SameGroups (g h : List (String × Object)) : Prop where
  names : ∀ name, name ∈ ObjectMap.keys g ↔ name ∈ ObjectMap.keys h
  entries : ∀ name key, (ObjectMap.get? g name).bind (ObjectMap.get? · key) =
    (ObjectMap.get? h name).bind (ObjectMap.get? · key)

/-- An entry as it is delivered: not at all where it is `null`. -/
def delivered (entry : Option Value) : Option Value := entry.filter fun v => present (some v)

/-- The entry that the config maps have for a group name. -/
def mapEntry (v : Vault) (maps : List (List ConfigGroup)) (name key : String) : Option Value :=
  (ObjectMap.get? (configMapsOf v maps).1 name).bind (ObjectMap.get? · key)

/-- The revision with these groups has what the config maps add: their group names, and under
each name, where the revision's group has no entry of its own, an entry of the config maps is
the one of the revision's globals. -/
structure Covers (v : Vault) (maps : List (List ConfigGroup)) (rows : List ConfigGroup) : Prop where
  names : ∀ name ∈ ObjectMap.keys (configMapsOf v maps).1,
    name ∈ ObjectMap.keys (deviceGroupsOf v rows)
  entries : ∀ name own key, ObjectMap.get? (deviceGroupsOf v rows) name = some own →
    ObjectMap.get? own key = none →
    delivered (((mapEntry v maps name key).or (ObjectMap.get? (globalsOf v rows) key)).or
      (ObjectMap.get? (configMapsOf v maps).2 key)) = delivered (ObjectMap.get? (globalsOf v rows) key)

/-! ### Keys of documents -/

/-- No document of the groups has a key twice; the YAML parser refuses such a text. -/
def KeyedOnce (groups : List ConfigGroup) : Prop :=
  ∀ g ∈ groups, (ObjectMap.keys (parseYaml g.yamlContent)).Nodup

section Keys

variable {v : Vault} {groups : List ConfigGroup}

theorem setByPath_nodup {obj : Object} (h : (ObjectMap.keys obj).Nodup) (path : String) (x : Value) :
    (ObjectMap.keys (setByPath obj path x)).Nodup := by
  unfold setByPath
  match pathParts path with
  | [] => exact h
  | [key] => exact ObjectMap.keys_set_nodup h key x
  | key :: _ :: _ => exact ObjectMap.keys_set_nodup h key _

theorem resolvedYaml_nodup {g : ConfigGroup} (h : (ObjectMap.keys (parseYaml g.yamlContent)).Nodup)
    (v : Vault) : (ObjectMap.keys (resolvedYaml v g)).Nodup := by
  have hkeys : ∀ (keys : List String) (doc : Object), (ObjectMap.keys doc).Nodup →
      (ObjectMap.keys (keys.foldl (resolvedKey v) doc)).Nodup := by
    intro keys
    induction keys with
    | nil => exact fun doc hdoc => hdoc
    | cons keyPath keys ih =>
        intro doc hdoc
        apply ih
        unfold resolvedKey
        split
        · exact hdoc
        · exact setByPath_nodup hdoc keyPath _
  unfold resolvedYaml
  split
  · exact hkeys g.sensitiveKeys _ h
  · exact h

theorem globalsOf_nodup (h : KeyedOnce groups) : (ObjectMap.keys (globalsOf v groups)).Nodup := by
  have hloop : ∀ (gs : List ConfigGroup) (acc : Object), (∀ g ∈ gs, g ∈ groups) →
      (ObjectMap.keys acc).Nodup → (ObjectMap.keys (gs.foldl (addGlobals v) acc)).Nodup := by
    intro gs
    induction gs with
    | nil => exact fun acc _ hacc => hacc
    | cons g gs ih =>
        intro acc hsub hacc
        apply ih _ fun x hx => hsub x (List.mem_cons_of_mem g hx)
        unfold addGlobals
        split
        · exact ObjectMap.keys_assign_nodup hacc
            (resolvedYaml_nodup (h g (hsub g List.mem_cons_self)) v)
        · exact hacc
  exact hloop groups [] (fun _ hg => hg) List.nodup_nil

/-- Every group of a collection has each key once. -/
def GroupsKeyed (acc : List (String × Object)) : Prop :=
  ∀ name own, ObjectMap.get? acc name = some own → (ObjectMap.keys own).Nodup

theorem GroupsKeyed.set {acc : List (String × Object)} (h : GroupsKeyed acc) {own : Object}
    (hown : (ObjectMap.keys own).Nodup) (name : String) :
    GroupsKeyed (ObjectMap.set acc name own) := by
  intro other o hget
  rw [ObjectMap.get?_set] at hget
  split at hget
  · obtain rfl := Option.some.inj hget
    exact hown
  · exact h other o hget

theorem deviceGroupsOf_keyed (h : KeyedOnce groups) : GroupsKeyed (deviceGroupsOf v groups) := by
  have hloop : ∀ (gs : List ConfigGroup) (acc : List (String × Object)), (∀ g ∈ gs, g ∈ groups) →
      GroupsKeyed acc → GroupsKeyed (gs.foldl (setGroup v) acc) := by
    intro gs
    induction gs with
    | nil => exact fun acc _ hacc => hacc
    | cons g gs ih =>
        intro acc hsub hacc
        apply ih _ fun x hx => hsub x (List.mem_cons_of_mem g hx)
        unfold setGroup
        split
        · exact hacc
        · exact hacc.set (resolvedYaml_nodup (h g (hsub g List.mem_cons_self)) v) g.name
  exact hloop groups [] (fun _ hg => hg) nofun

/-- The groups of a config map over groups that have each key once. -/
theorem addGroups_keyed (h : KeyedOnce groups) {acc : List (String × Object)}
    (hacc : GroupsKeyed acc) : GroupsKeyed (groups.foldl (addGroup v) acc) := by
  induction groups generalizing acc with
  | nil => exact hacc
  | cons g gs ih =>
      apply ih fun x hx => h x (List.mem_cons_of_mem g hx)
      unfold addGroup
      split
      · exact hacc
      · apply hacc.set
        apply ObjectMap.keys_assign_nodup _ (resolvedYaml_nodup (h g List.mem_cons_self) v)
        cases hget : ObjectMap.get? acc g.name with
        | none => exact List.nodup_nil
        | some own => exact hacc g.name own hget

theorem configMapsOf_keyed {maps : List (List ConfigGroup)} (h : ∀ m ∈ maps, KeyedOnce m) :
    GroupsKeyed (configMapsOf v maps).1 ∧ (ObjectMap.keys (configMapsOf v maps).2).Nodup := by
  have hloop : ∀ (ms : List (List ConfigGroup)) (acc : List (String × Object) × Object),
      (∀ m ∈ ms, KeyedOnce m) → GroupsKeyed acc.1 ∧ (ObjectMap.keys acc.2).Nodup →
      GroupsKeyed (ms.foldl (addConfigMap v) acc).1 ∧
        (ObjectMap.keys (ms.foldl (addConfigMap v) acc).2).Nodup := by
    intro ms
    induction ms with
    | nil => exact fun acc _ hacc => hacc
    | cons m ms ih =>
        intro acc hms hacc
        have hm := hms m List.mem_cons_self
        apply ih _ fun x hx => hms x (List.mem_cons_of_mem m hx)
        exact ⟨addGroups_keyed hm hacc.1, ObjectMap.keys_assign_nodup hacc.2 (globalsOf_nodup hm)⟩
  exact hloop maps ([], []) h ⟨nofun, List.nodup_nil⟩

end Keys

theorem get?_dropNulls {o : Object} (h : (ObjectMap.keys o).Nodup) (key : String) :
    ObjectMap.get? (dropNulls o) key = delivered (ObjectMap.get? o key) :=
  ObjectMap.get?_filter_values h (fun v => present (some v)) key

/-! ### The groups of a version -/

/-- One group of `collectVersionGroups`. -/
def setVersionGroup (v : Vault) (globals : Object) (acc : List (String × Object))
    (group : ConfigGroup) : List (String × Object) :=
  if group.isGlobal then acc
  else ObjectMap.set acc group.name (dropNulls (ObjectMap.assign globals (resolvedYaml v group)))

/-- The groups of a revision that is read by its version. -/
def versionGroupsOf (v : Vault) (rows : List ConfigGroup) : List (String × Object) :=
  rows.foldl (setVersionGroup v (globalsOf v rows)) []

theorem collectVersionGroups_answered {db : ConfigDb} (globals : Object) (groups : List ConfigGroup) :
    Answered db (collectVersionGroups globals groups) (groups.flatMap (refsWhere db.vault false))
      (groups.foldl (setVersionGroup db.vault globals) []) := by
  apply Answered.forEachOf
  intro acc group
  unfold refsWhere setVersionGroup
  cases group.isGlobal with
  | true => exact Answered.pure _
  | false =>
      exact (resolveGroupYaml_answered group globals).bind_pure fun groupData =>
        ObjectMap.set acc group.name (dropNulls groupData)

section Reads

variable {v : Vault} {maps : List (List ConfigGroup)} {rows : List ConfigGroup}

/-- The groups of a version are the revision's own over its globals. -/
theorem get?_versionGroupsOf (v : Vault) (rows : List ConfigGroup) (name : String) :
    ObjectMap.get? (versionGroupsOf v rows) name =
      (ObjectMap.get? (deviceGroupsOf v rows) name).map fun own =>
        dropNulls (ObjectMap.assign (globalsOf v rows) own) := by
  have hloop : ∀ (globals : Object) (gs : List ConfigGroup) (acc own : List (String × Object)),
      (∀ n, ObjectMap.get? acc n =
        (ObjectMap.get? own n).map fun o => dropNulls (ObjectMap.assign globals o)) →
      ∀ n, ObjectMap.get? (gs.foldl (setVersionGroup v globals) acc) n =
        (ObjectMap.get? (gs.foldl (setGroup v) own) n).map fun o =>
          dropNulls (ObjectMap.assign globals o) := by
    intro globals gs
    induction gs with
    | nil => exact fun acc own h => h
    | cons g gs ih =>
        intro acc own h
        apply ih
        intro n
        unfold setVersionGroup setGroup
        split
        · exact h n
        · rw [ObjectMap.get?_set, ObjectMap.get?_set]
          split
          · rfl
          · exact h n
  exact hloop (globalsOf v rows) rows [] [] (fun _ => rfl) name

theorem mem_keys_versionGroupsOf (v : Vault) (rows : List ConfigGroup) (name : String) :
    name ∈ ObjectMap.keys (versionGroupsOf v rows) ↔ name ∈ ObjectMap.keys (deviceGroupsOf v rows) := by
  rw [← not_iff_not, ← ObjectMap.get?_eq_none_iff, ← ObjectMap.get?_eq_none_iff,
    get?_versionGroupsOf, Option.map_eq_none_iff]

theorem mem_keys_assembledGroups (v : Vault) (maps : List (List ConfigGroup))
    (rows : List ConfigGroup) (name : String) :
    name ∈ ObjectMap.keys (assembledGroups v maps rows) ↔
      name ∈ ObjectMap.keys (configMapsOf v maps).1 ∨
        name ∈ ObjectMap.keys (deviceGroupsOf v rows) := by
  have hkeys : ∀ (f : String → Object) (names : List String),
      ObjectMap.keys (names.map fun n => (n, f n)) = names := by
    intro f names
    unfold ObjectMap.keys
    rw [List.map_map]
    exact List.map_id _
  unfold assembledGroups
  dsimp only
  rw [hkeys, ObjectMap.mem_addKeys]

/-- The object under a name of an assembled config. -/
theorem get?_assembledGroups {name : String} (h : name ∈ ObjectMap.keys (assembledGroups v maps rows)) :
    ObjectMap.get? (assembledGroups v maps rows) name =
      some (mergeForDevice (ObjectMap.assign (configMapsOf v maps).2 (globalsOf v rows))
        (configMapsOf v maps).1 (deviceGroupsOf v rows) name) := by
  have hget : ∀ (f : String → Object) (names : List String), name ∈ names →
      ObjectMap.get? (names.map fun n => (n, f n)) name = some (f name) := by
    intro f names
    induction names with
    | nil => exact fun hmem => absurd hmem List.not_mem_nil
    | cons n names ih =>
        intro hmem
        rw [List.map_cons, ObjectMap.get?_cons]
        by_cases hn : n = name
        · rw [if_pos hn, hn]
        · rw [if_neg hn]
          exact ih ((List.mem_cons.mp hmem).resolve_left (Ne.symm hn))
  rw [mem_keys_assembledGroups, ← ObjectMap.mem_addKeys] at h
  exact hget _ _ h

/-- What both assemblies deliver under a name of the revision. -/
theorem entries_of_own {name : String} {own : Object} (hmaps : ∀ m ∈ maps, KeyedOnce m)
    (hrows : KeyedOnce rows) (hown : ObjectMap.get? (deviceGroupsOf v rows) name = some own)
    (key : String) :
    (ObjectMap.get? (assembledGroups v maps rows) name).bind (ObjectMap.get? · key) =
        delivered ((ObjectMap.get? own key).or (((mapEntry v maps name key).or
          (ObjectMap.get? (globalsOf v rows) key)).or (ObjectMap.get? (configMapsOf v maps).2 key))) ∧
      (ObjectMap.get? (versionGroupsOf v rows) name).bind (ObjectMap.get? · key) =
        delivered ((ObjectMap.get? own key).or (ObjectMap.get? (globalsOf v rows) key)) := by
  have hmem : name ∈ ObjectMap.keys (assembledGroups v maps rows) := by
    rw [mem_keys_assembledGroups]
    right
    by_contra hnot
    rw [ObjectMap.get?_eq_none_iff.mpr hnot] at hown
    cases hown
  obtain ⟨hgroups, hglobals⟩ := @configMapsOf_keyed v maps hmaps
  have hownKeys := deviceGroupsOf_keyed hrows name own hown
  have hmapKeys : (ObjectMap.keys ((ObjectMap.get? (configMapsOf v maps).1 name).getD [])).Nodup := by
    cases hget : ObjectMap.get? (configMapsOf v maps).1 name with
    | none => exact List.nodup_nil
    | some o => exact hgroups name o hget
  have hmapRead : ObjectMap.get? ((ObjectMap.get? (configMapsOf v maps).1 name).getD []) key =
      mapEntry v maps name key := by
    unfold mapEntry
    cases ObjectMap.get? (configMapsOf v maps).1 name <;> rfl
  constructor
  · rw [get?_assembledGroups hmem, Option.bind_some]
    unfold mergeForDevice
    rw [get?_dropNulls, ObjectMap.get?_assign, ObjectMap.get?_assign, ObjectMap.get?_assign, hown,
      Option.getD_some, hmapRead]
    · rw [Option.or_assoc]
    · rw [hown]
      exact ObjectMap.keys_assign_nodup (ObjectMap.keys_assign_nodup
        (ObjectMap.keys_assign_nodup hglobals (globalsOf_nodup hrows)) hmapKeys) hownKeys
  · rw [get?_versionGroupsOf, hown, Option.map_some, Option.bind_some, get?_dropNulls,
      ObjectMap.get?_assign]
    exact ObjectMap.keys_assign_nodup (globalsOf_nodup hrows) hownKeys

/-- **Main result.** The two assemblies agree exactly where the revision covers the config maps. -/
theorem sameGroups_iff_covers (hmaps : ∀ m ∈ maps, KeyedOnce m) (hrows : KeyedOnce rows) :
    SameGroups (assembledGroups v maps rows) (versionGroupsOf v rows) ↔ Covers v maps rows := by
  constructor
  · intro h
    refine ⟨fun name hname => ?_, fun name own key hown hkey => ?_⟩
    · rw [← mem_keys_versionGroupsOf, ← h.names, mem_keys_assembledGroups]
      exact .inl hname
    · obtain ⟨hassembled, hversion⟩ := entries_of_own hmaps hrows hown key
      rw [hkey, Option.none_or] at hassembled hversion
      rw [← hassembled, ← hversion]
      exact h.entries name key
  · intro h
    have hnames : ∀ name, name ∈ ObjectMap.keys (assembledGroups v maps rows) ↔
        name ∈ ObjectMap.keys (versionGroupsOf v rows) := by
      intro name
      rw [mem_keys_assembledGroups, mem_keys_versionGroupsOf]
      exact ⟨fun hor => hor.elim (h.names name) id, .inr⟩
    refine ⟨hnames, fun name key => ?_⟩
    cases hown : ObjectMap.get? (deviceGroupsOf v rows) name with
    | none =>
        have hversion : ObjectMap.get? (versionGroupsOf v rows) name = none := by
          rw [get?_versionGroupsOf, hown]
          rfl
        have hassembled : ObjectMap.get? (assembledGroups v maps rows) name = none := by
          rw [ObjectMap.get?_eq_none_iff, hnames, ← ObjectMap.get?_eq_none_iff]
          exact hversion
        rw [hassembled, hversion]
    | some own =>
        obtain ⟨hassembled, hversion⟩ := entries_of_own hmaps hrows hown key
        rw [hassembled, hversion]
        cases hkey : ObjectMap.get? own key with
        | some x => rfl
        | none =>
            rw [Option.none_or, Option.none_or]
            exact h.entries name own key hown hkey

end Reads

/-! ### The two reads -/

/-- Both reads return, the same groups. -/
def ReadsAgree (peers : Peers) (deviceId semver : String) (db : ConfigDb) : Prop :=
  ∃ current version, (getDeviceConfig peers deviceId db).1 = .ok current ∧
    (getDeviceConfigByVersion peers deviceId semver db).1 = .ok version ∧
    SameGroups current.groups version.groups

/-- **Spec.** The groups that are built from one revision. -/
theorem assembleRevision_run {db : ConfigDb} (peers : Peers) (deviceId semver : String)
    (r : ConfigRevision) (hrefs : db.vault.Harmless (revisionRefs db.vault (db.groupsOf r.id))) :
    ∃ config, (assembleRevision peers deviceId semver r db).1 = .ok config ∧
      config.groups = versionGroupsOf db.vault (db.groupsOf r.id) := by
  have hread : Answered db (collectGlobals (db.groupsOf r.id) >>= fun globalsData =>
      collectVersionGroups globalsData (db.groupsOf r.id))
      (revisionRefs db.vault (db.groupsOf r.id)) (versionGroupsOf db.vault (db.groupsOf r.id)) :=
    (collectGlobals_answered (db.groupsOf r.id)).bind (collectVersionGroups_answered _ _)
  have hrun := hread.run hrefs
  obtain ⟨globalsData, db₁, hglobals, hgroups⟩ := bind_ok_inv hrun
  unfold assembleRevision
  rw [gets_bind_run, bind_run_ok hglobals, bind_run_ok hgroups]
  obtain ⟨db₃, hset, -⟩ := setByVersion_run peers deviceId semver
    { deviceId := deviceId
      configRevisionId := some r.id
      semVer := r.semVer
      groups := versionGroupsOf db.vault (db.groupsOf r.id)
      computedAt := r.appliedAt.getD 0 } (db.spend (revisionRefs db.vault (db.groupsOf r.id)).length)
  rw [bind_run_ok hset]
  exact ⟨_, rfl, rfl⟩

/-- **Spec.** The read of a version that is not cached. -/
theorem getDeviceConfigByVersion_run {db : ConfigDb} {peers : Peers} {deviceId semver : String}
    {project : Project} (hproject : peers.projectNamed s!"config:{deviceId}" .config = some project)
    (hcached : cachedVersion peers deviceId semver db = none) {r : ConfigRevision}
    (hr : findVersion db project.id semver = some r)
    (hrefs : db.vault.Harmless (revisionRefs db.vault (db.groupsOf r.id))) :
    ∃ config, (getDeviceConfigByVersion peers deviceId semver db).1 = .ok config ∧
      config.groups = versionGroupsOf db.vault (db.groupsOf r.id) := by
  unfold getDeviceConfigByVersion getByVersion
  rw [gets_bind_run, hcached]
  dsimp only
  rw [hproject]
  dsimp only
  rw [gets_bind_run, hr]
  exact assembleRevision_run peers deviceId semver r hrefs

/-- Where a version names one revision, it is read from the ACTIVE one. -/
theorem findVersion_active {p : ℕ} {done : List (ℕ × String)} {db : ConfigDb}
    (h : VersionsInv p done db) {r : ConfigRevision} (hr : db.findRevision p .active = some r)
    {t : String} (ht : r.semVer = some t) : findVersion db p t = some r := by
  have hmem : r ∈ db.revisions := List.mem_of_find?_eq_some hr
  have hquery : r.projectId = p ∧ r.status = .active := by simpa using List.find?_some hr
  have hsome : (findVersion db p t).isSome := by
    unfold findVersion
    rw [List.find?_isSome]
    exact ⟨r, hmem, by simp [hquery.1, ht]⟩
  obtain ⟨s, hs⟩ := Option.isSome_iff_exists.mp hsome
  have hsquery : s.projectId = p ∧ s.semVer = some t := by simpa using List.find?_some hs
  rw [hs, h.unique (List.mem_of_find?_eq_some hs) hmem hsquery.1 hquery.1 hsquery.2 ht]

/-- **Step.** The two reads in one store. -/
theorem readsAgree_iff_covers {p : ℕ} {done : List (ℕ × String)} {db : ConfigDb}
    (h : VersionsInv p done db) {peers : Peers} {deviceId : String} {project : Project}
    (hproject : peers.projectNamed s!"config:{deviceId}" .config = some project)
    (hp : project.id = p) {r : ConfigRevision} (hr : db.findRevision p .active = some r) {t : String}
    (ht : r.semVer = some t) (hcached : cachedVersion peers deviceId t db = none)
    (hanswers : ∀ fault ∈ db.vault.faults, fault = none) (hkeys : KeyedOnce db.groups) :
    ReadsAgree peers deviceId t db ↔
      Covers db.vault (reachingMaps db (peers.deviceTypeIds deviceId) deviceId)
        (db.groupsOf r.id) := by
  subst hp
  have hactive : activeOf peers deviceId db = some r := by
    unfold activeOf
    rw [hproject]
    exact hr
  have hrows : activeRows peers deviceId db = db.groupsOf r.id := by
    unfold activeRows
    rw [hactive]
  have hversion : activeSemVer peers deviceId db = some t := by
    have hquery : r.projectId = project.id ∧ r.status = .active := by simpa using List.find?_some hr
    obtain ⟨v, hv, -⟩ := h.top r (List.mem_of_find?_eq_some hr) hquery.1 hquery.2
    obtain rfl := Option.some.inj (ht.symm.trans hv)
    have hne : v.toText ≠ "" := by
      intro hempty
      have hlist := Version.toList_toText v
      rw [hempty] at hlist
      simp at hlist
    unfold activeSemVer
    rw [hactive, Option.bind_some, ht, Option.filter_some]
    simp [hne]
  obtain ⟨current, db₁, hcurrent, -, hassembled⟩ := @getDeviceConfig_run db peers deviceId
    (Vault.harmless_of_answers hanswers _)
  have hpayload := hassembled (by rw [hversion]; exact hcached)
  obtain ⟨version, hbyVersion, hgroups⟩ := getDeviceConfigByVersion_run hproject hcached
    (findVersion_active h hr ht) (Vault.harmless_of_answers hanswers _)
  have hsub : ∀ id, KeyedOnce (db.groupsOf id) := fun id g hg => hkeys g (List.mem_filter.mp hg).1
  have hmaps : ∀ m ∈ reachingMaps db (peers.deviceTypeIds deviceId) deviceId, KeyedOnce m := by
    intro m hm
    obtain ⟨rev, -, rfl⟩ := List.mem_map.mp hm
    exact hsub rev.id
  rw [← sameGroups_iff_covers hmaps (hsub r.id)]
  have hcurrentGroups : current.groups = assembledGroups db.vault
      (reachingMaps db (peers.deviceTypeIds deviceId) deviceId) (db.groupsOf r.id) := by
    rw [hpayload, ← hrows]
    rfl
  rw [← hcurrentGroups, ← hgroups]
  constructor
  · rintro ⟨c, w, hc, hw, hsame⟩
    rw [hcurrent] at hc
    rw [hbyVersion] at hw
    cases hc
    cases hw
    exact hsame
  · intro hsame
    exact ⟨current, version, by rw [hcurrent], hbyVersion, hsame⟩

end ConfigService

open ConfigService ConfigEvent Runs

/-- The events that lead to `tokenDb`. -/
def submitAndApply : List ConfigEvent :=
  [⟨bucketDown, .provisionProjectContent ⟨1, "dev-1", none⟩⟩,
    ⟨bucketDown, .upsertGroup submitToken⟩, ⟨bucketDown, .applyRevision ⟨.id 1, none⟩⟩]

/-- The group of `submitToken`, published by a config map that is then associated with the device. -/
def mapAfterwards : List ConfigEvent :=
  [⟨bucketDown, .upsertGroup { submitToken with projectIdentifier := .id 2, name := "net" }⟩,
    ⟨bucketDown, .applyRevision ⟨.id 2, none⟩⟩,
    ⟨bucketDown, .addConfigMapAssociation ⟨some (.id 2), some 5, none⟩⟩]

/-- The store of the small world with Vault. -/
def smallVaultDb : ConfigDb := { smallDb with vault := ⟨true, "getapp-secrets", [], []⟩ }

end UploadService
