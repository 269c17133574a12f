import UploadService.Config.InSteps
import UploadService.Config.ReadPaths

/-!
# What is filed under a version in the cache

Three calls store a payload under a version they have read or assigned before, and the payload
comes from a later query. So a publication between the two files the payload of one revision under
the version of another. A call that has read a version, or a draft to publish, is `bound`, and no
other call may publish until it has read the revision that it stores.

`FiledRight p d db` says of every object of the device's cache that it is the payload of a revision
with its version. `Quiet` and `Grows` say what a step does that does not publish, and one that does.

Main results:

- `insertGroup_quiet`, `saveGroup_quiet`, `insertDraft_quiet`, `archiveActive_grows`,
  `activate_grows`, `setByVersion_quiet`: one lemma for each write;
- `getDeviceConfig_sound` to `refreshConfigProjectRevision_sound`: each call keeps to the protocol;
- `cache_filed_along_runs`: the cache is filed right along every run without such a publication.
-/

namespace UploadService

namespace ConfigService

namespace InSteps

open Prog Script

/-! ### What is stored -/

/-- The groups that are assembled from a revision's rows over those of the config maps. -/
def groupsOver (maps : List (String × Object) × Object) (v : Vault) (rows : List ConfigGroup) :
    List (String × Object) :=
  (ObjectMap.addKeys (ObjectMap.keys maps.1) (ObjectMap.keys (deviceGroupsOf v rows))).map fun name =>
    (name, mergeForDevice (ObjectMap.assign maps.2 (globalsOf v rows)) maps.1 (deviceGroupsOf v rows)
      name)

/-- The groups are assembled from these rows, with the secrets and the config maps that the call
has read: over the config maps, or by the version alone. -/
def BuiltFrom (rows : List ConfigGroup) (groups : List (String × Object)) : Prop :=
  ∃ v : Vault, groups = versionGroupsOf v rows ∨
    ∃ v' maps, groups = groupsOver (configMapsOf v' maps) v rows

/-- The payload is that of a revision with the version. -/
def Filed (p : ℕ) (db : ConfigDb) (version : String) (payload : DeviceConfigDto) : Prop :=
  ∃ r ∈ db.revisions, r.projectId = p ∧ r.semVer = some version ∧
    payload.configRevisionId = some r.id ∧ payload.semVer = some version ∧
    BuiltFrom (db.groupsOf r.id) payload.groups

/-- Every object of the device's cache is filed under its version. -/
def FiledRight (p : ℕ) (d : String) (db : ConfigDb) : Prop :=
  ∀ version payload, ObjectMap.get? db.bucket (versionedObjectKey d version) = some payload →
    Filed p db version payload

/-- The tables of a device project, and its cache. -/
structure Filing (p : ℕ) (d : String) (db : ConfigDb) : Prop where
  ids : Rows.KeysDistinct ConfigRevision.id db.revisions
  fresh : ∀ r ∈ db.revisions, r.id < db.nextId
  groupIds : Rows.KeysDistinct ConfigGroup.id db.groups
  groupsFresh : ∀ g ∈ db.groups, g.id < db.nextId
  drafts : ∀ r ∈ db.revisions, r.projectId = p → r.status = .draft → r.semVer = none
  filed : FiledRight p d db

/-! ### What a step may do -/

/-- The revisions with a version keep it, and their groups. -/
structure Grows (p : ℕ) (db db' : ConfigDb) : Prop where
  versions : ∀ r ∈ db.revisions, r.projectId = p → ∀ version, r.semVer = some version →
    ∃ r' ∈ db'.revisions, r'.id = r.id ∧ r'.projectId = p ∧ r'.semVer = some version
  groups : ∀ r ∈ db.revisions, r.projectId = p → r.semVer ≠ none →
    db'.groupsOf r.id = db.groupsOf r.id

/-- No revision is changed, new ones are drafts, and each group stays in its revision. -/
structure Quiet (p : ℕ) (db db' : ConfigDb) : Prop where
  revisions : ∃ added, db'.revisions = db.revisions ++ added ∧ ∀ r ∈ added, r.status = .draft
  groups : ∀ r ∈ db.revisions, r.projectId = p → r.semVer ≠ none →
    db'.groupsOf r.id = db.groupsOf r.id
  placed : ∀ g ∈ db.groups, ∃ g' ∈ db'.groups, g'.id = g.id ∧ g'.revisionId = g.revisionId

/-- The tables of the config service and the cache are the same. -/
structure Untouched (db db' : ConfigDb) : Prop where
  revisions : db'.revisions = db.revisions
  groups : db'.groups = db.groups
  bucket : db'.bucket = db.bucket
  nextId : db'.nextId = db.nextId

section Steps

variable {p : ℕ} {d : String} {db db' : ConfigDb}

theorem Untouched.refl (db : ConfigDb) : Untouched db db := ⟨rfl, rfl, rfl, rfl⟩

theorem Untouched.groupsOf (h : Untouched db db') (id : ℕ) : db'.groupsOf id = db.groupsOf id := by
  unfold ConfigDb.groupsOf
  rw [h.groups]

theorem Untouched.quiet (h : Untouched db db') : Quiet p db db' where
  revisions := ⟨[], by rw [h.revisions, List.append_nil], nofun⟩
  groups := fun r _ _ _ => h.groupsOf r.id
  placed := fun g hg => ⟨g, h.groups ▸ hg, rfl, rfl⟩

theorem Quiet.mem (h : Quiet p db db') {r : ConfigRevision} (hr : r ∈ db.revisions) :
    r ∈ db'.revisions := by
  obtain ⟨added, hrows, -⟩ := h.revisions
  rw [hrows]
  exact List.mem_append_left added hr

theorem Quiet.grows (h : Quiet p db db') : Grows p db db' where
  versions := fun r hr hp _ hversion => ⟨r, h.mem hr, rfl, hp, hversion⟩
  groups := h.groups

theorem Quiet.trans {db'' : ConfigDb} (h : Quiet p db db') (h' : Quiet p db' db'') :
    Quiet p db db'' where
  revisions := by
    obtain ⟨added, hrows, hdrafts⟩ := h.revisions
    obtain ⟨added', hrows', hdrafts'⟩ := h'.revisions
    refine ⟨added ++ added', by rw [hrows', hrows, List.append_assoc], fun r hr => ?_⟩
    rcases List.mem_append.mp hr with hr | hr
    · exact hdrafts r hr
    · exact hdrafts' r hr
  groups := fun r hr hp hversion =>
    (h'.groups r (h.mem hr) hp hversion).trans (h.groups r hr hp hversion)
  placed := by
    intro g hg
    obtain ⟨g', hg', hid, hrev⟩ := h.placed g hg
    obtain ⟨g'', hg'', hid', hrev'⟩ := h'.placed g' hg'
    exact ⟨g'', hg'', hid'.trans hid, hrev'.trans hrev⟩

theorem Quiet.grows_trans {db'' : ConfigDb} (h : Quiet p db db') (h' : Grows p db' db'') :
    Grows p db db'' where
  versions := fun r hr hp version hversion => h'.versions r (h.mem hr) hp version hversion
  groups := fun r hr hp hversion =>
    (h'.groups r (h.mem hr) hp hversion).trans (h.groups r hr hp hversion)

/-- What is filed under a version stays so, as the revision keeps its version and its groups. -/
theorem Grows.filed (h : Grows p db db') {version : String} {payload : DeviceConfigDto}
    (hfiled : Filed p db version payload) : Filed p db' version payload := by
  obtain ⟨r, hr, hp, hversion, hid, hsemVer, hbuilt⟩ := hfiled
  obtain ⟨r', hr', hid', hp', hversion'⟩ := h.versions r hr hp version hversion
  have hgroups := h.groups r hr hp (by rw [hversion]; nofun)
  refine ⟨r', hr', hp', hversion', by rw [hid', hid], hsemVer, ?_⟩
  rw [hid', hgroups]
  exact hbuilt

theorem Grows.filedRight (h : Grows p db db') (hbucket : db'.bucket = db.bucket)
    (hfiled : FiledRight p d db) : FiledRight p d db' := by
  intro version payload hget
  rw [hbucket] at hget
  exact h.filed (hfiled version payload hget)

theorem Untouched.filing (h : Untouched db db') (hs : Filing p d db) : Filing p d db' where
  ids := h.revisions ▸ hs.ids
  fresh := by
    rw [h.revisions, h.nextId]
    exact hs.fresh
  groupIds := h.groups ▸ hs.groupIds
  groupsFresh := by
    rw [h.groups, h.nextId]
    exact hs.groupsFresh
  drafts := h.revisions ▸ hs.drafts
  filed := h.quiet.grows.filedRight h.bucket hs.filed

/-! ### What a call knows -/

/-- The draft that the call is to publish is still there. -/
structure HoldsDraft (p : ℕ) (draft : ConfigRevision) (db : ConfigDb) : Prop where
  mem : draft ∈ db.revisions
  project : draft.projectId = p
  status : draft.status = .draft

/-- The group is a row of its revision. -/
def Placed (group : ConfigGroup) (db : ConfigDb) : Prop :=
  ∃ row ∈ db.groups, row.id = group.id ∧ row.revisionId = group.revisionId

/-- The ACTIVE revision has the version. -/
def Serves (p : ℕ) (version : String) (db : ConfigDb) : Prop :=
  ∃ r, db.findRevision p .active = some r ∧ r.semVer = some version

theorem HoldsDraft.quiet {draft : ConfigRevision} (h : HoldsDraft p draft db)
    (hquiet : Quiet p db db') : HoldsDraft p draft db' := ⟨hquiet.mem h.mem, h.project, h.status⟩

theorem Placed.quiet {group : ConfigGroup} (h : Placed group db) (hquiet : Quiet p db db') :
    Placed group db' := by
  obtain ⟨row, hrow, hid, hrev⟩ := h
  obtain ⟨row', hrow', hid', hrev'⟩ := hquiet.placed row hrow
  exact ⟨row', hrow', hid'.trans hid, hrev'.trans hrev⟩

theorem Serves.quiet {version : String} (h : Serves p version db) (hquiet : Quiet p db db') :
    Serves p version db' := by
  obtain ⟨r, hr, hversion⟩ := h
  obtain ⟨added, hrows, -⟩ := hquiet.revisions
  refine ⟨r, ?_, hversion⟩
  unfold ConfigDb.findRevision at hr ⊢
  rw [hrows, List.find?_append, hr]
  rfl

/-- A revision with a version is not the draft. -/
theorem HoldsDraft.id_ne {draft r : ConfigRevision} (h : HoldsDraft p draft db)
    (hs : Filing p d db) (hr : r ∈ db.revisions) (hversion : r.semVer ≠ none) : r.id ≠ draft.id := by
  intro hid
  obtain rfl := hs.ids.eq_of_mem hr h.mem hid
  exact hversion (hs.drafts r hr h.project h.status)

theorem HoldsDraft.of_find {r : ConfigRevision} (h : db.findRevision p .draft = some r) :
    HoldsDraft p r db := by
  have hquery : r.projectId = p ∧ r.status = .draft := by simpa using List.find?_some h
  exact ⟨List.mem_of_find?_eq_some h, hquery.1, hquery.2⟩

/-- The draft is there, and the groups that were loaded with it. -/
structure LoadedDraft (p : ℕ) (draft : ConfigRevision) (groups : List ConfigGroup) (db : ConfigDb) :
    Prop where
  held : HoldsDraft p draft db
  placed : ∀ g ∈ groups, g.revisionId = draft.id ∧ Placed g db

theorem LoadedDraft.quiet {draft : ConfigRevision} {groups : List ConfigGroup}
    (h : LoadedDraft p draft groups db) (hquiet : Quiet p db db') : LoadedDraft p draft groups db' :=
  ⟨h.held.quiet hquiet, fun g hg => ⟨(h.placed g hg).1, (h.placed g hg).2.quiet hquiet⟩⟩

theorem HoldsDraft.loaded {draft : ConfigRevision} (h : HoldsDraft p draft db) :
    LoadedDraft p draft [] db := ⟨h, nofun⟩

theorem placed_of_mem {group : ConfigGroup} (h : group ∈ db.groups) : Placed group db :=
  ⟨group, h, rfl, rfl⟩

/-! ### Writes to the groups of the draft -/

/-- A write to the groups of the draft alone. -/
theorem groups_quiet {draft : ConfigRevision} (hs : Filing p d db) (hdraft : HoldsDraft p draft db)
    (gs : List ConfigGroup) (n : ℕ)
    (hothers : ∀ id, id ≠ draft.id → (gs.filter fun g => g.revisionId == id) = db.groupsOf id)
    (hplaced : ∀ g ∈ db.groups, ∃ g' ∈ gs, g'.id = g.id ∧ g'.revisionId = g.revisionId)
    (hkeys : Rows.KeysDistinct ConfigGroup.id gs) (hfresh : ∀ g ∈ gs, g.id < n)
    (hn : db.nextId ≤ n) :
    Quiet p db { db with groups := gs, nextId := n } ∧
      Filing p d { db with groups := gs, nextId := n } := by
  have hquiet : Quiet p db { db with groups := gs, nextId := n } :=
    { revisions := ⟨[], (List.append_nil _).symm, nofun⟩
      groups := fun r hr _ hversion => hothers r.id (hdraft.id_ne hs hr hversion)
      placed := hplaced }
  exact ⟨hquiet, {
    ids := hs.ids
    fresh := fun r hr => (hs.fresh r hr).trans_le hn
    groupIds := hkeys
    groupsFresh := hfresh
    drafts := hs.drafts
    filed := hquiet.grows.filedRight rfl hs.filed }⟩

theorem insertGroup_quiet {draft : ConfigRevision} (hs : Filing p d db)
    (hdraft : HoldsDraft p draft db) {group : ConfigGroup} (hrev : group.revisionId = draft.id) :
    Quiet p db (ConfigRepo.insertGroup group db).2 ∧
      Filing p d (ConfigRepo.insertGroup group db).2 := by
  refine groups_quiet hs hdraft (db.groups ++ [{ group with id := db.nextId }]) (db.nextId + 1)
    ?_ ?_ ?_ ?_ (Nat.le_succ _)
  · intro id hid
    have hother : (group.revisionId == id) = false := by
      rw [hrev]
      exact beq_false_of_ne (Ne.symm hid)
    rw [List.filter_append, List.filter_singleton, hother]
    simp [ConfigDb.groupsOf]
  · exact fun g hg => ⟨g, List.mem_append_left _ hg, rfl, rfl⟩
  · exact hs.groupIds.append_new fun g hg => (hs.groupsFresh g hg).ne
  · intro g hg
    rcases List.mem_append.mp hg with hold | hnew
    · exact (hs.groupsFresh g hold).trans (Nat.lt_succ_self _)
    · rw [List.mem_singleton.mp hnew]
      exact Nat.lt_succ_self _

theorem saveGroup_quiet {draft : ConfigRevision} (hs : Filing p d db)
    (hdraft : HoldsDraft p draft db) {group : ConfigGroup} (hplaced : Placed group db)
    (hrev : group.revisionId = draft.id) :
    Quiet p db (ConfigRepo.saveGroup group db).2 ∧ Filing p d (ConfigRepo.saveGroup group db).2 := by
  obtain ⟨row, hrow, hid, hrowRev⟩ := hplaced
  have hsame : ∀ g ∈ db.groups, g.id = group.id → g.revisionId = draft.id := by
    intro g hg hgid
    rw [hs.groupIds.eq_of_mem hg hrow (hgid.trans hid.symm), hrowRev, hrev]
  refine groups_quiet hs hdraft (Rows.save ConfigGroup.id group db.groups) db.nextId
    ?_ ?_ (hs.groupIds.save group) ?_ le_rfl
  · intro id hne
    refine Rows.filter_save ?_ fun g hg hgid => ?_
    · rw [hrev]
      exact beq_false_of_ne (Ne.symm hne)
    · rw [hsame g hg hgid]
      exact beq_false_of_ne (Ne.symm hne)
  · intro g hg
    by_cases hgid : g.id = group.id
    · exact ⟨group, Rows.mem_save.mpr (.inl rfl), hgid.symm, hrev.trans (hsame g hg hgid).symm⟩
    · exact ⟨g, Rows.mem_save.mpr (.inr ⟨hg, hgid⟩), rfl, rfl⟩
  · intro g hg
    rcases Rows.mem_save.mp hg with rfl | ⟨hold, -⟩
    · rw [← hid]
      exact hs.groupsFresh row hrow
    · exact hs.groupsFresh g hold

/-! ### Writes to the revisions and to the cache -/

theorem insertDraft_quiet (hs : Filing p d db) (project revisionNumber : ℕ) :
    Quiet p db (ConfigRepo.insertDraft project revisionNumber db).2 ∧
      Filing p d (ConfigRepo.insertDraft project revisionNumber db).2 := by
  have hquiet : Quiet p db (ConfigRepo.insertDraft project revisionNumber db).2 :=
    { revisions := ⟨_, rfl, fun r hr => by rw [List.mem_singleton.mp hr]⟩
      groups := fun _ _ _ _ => rfl
      placed := fun g hg => ⟨g, hg, rfl, rfl⟩ }
  refine ⟨hquiet, {
    ids := hs.ids.append_new fun r hr => (hs.fresh r hr).ne
    fresh := fun r hr => ?_
    groupIds := hs.groupIds
    groupsFresh := fun g hg => (hs.groupsFresh g hg).trans (Nat.lt_succ_self _)
    drafts := fun r hr hp hstatus => ?_
    filed := hquiet.grows.filedRight rfl hs.filed }⟩
  · rcases List.mem_append.mp hr with hold | hnew
    · exact (hs.fresh r hold).trans (Nat.lt_succ_self _)
    · rw [List.mem_singleton.mp hnew]
      exact Nat.lt_succ_self _
  · rcases List.mem_append.mp hr with hold | hnew
    · exact hs.drafts r hold hp hstatus
    · rw [List.mem_singleton.mp hnew]

/-- No revision of the project is ACTIVE. -/
def NoneActive (p : ℕ) (db : ConfigDb) : Prop :=
  ∀ r ∈ db.revisions, r.projectId = p → r.status ≠ .active

theorem NoneActive.quiet (h : NoneActive p db) (hquiet : Quiet p db db') : NoneActive p db' := by
  obtain ⟨added, hrows, hdrafts⟩ := hquiet.revisions
  intro r hr hp
  rw [hrows] at hr
  rcases List.mem_append.mp hr with hold | hnew
  · exact h r hold hp
  · rw [hdrafts r hnew]
    nofun

theorem archiveActive_grows (hs : Filing p d db) :
    Grows p db (ConfigRepo.archiveActive p db).2 ∧ Filing p d (ConfigRepo.archiveActive p db).2 ∧
      NoneActive p (ConfigRepo.archiveActive p db).2 := by
  have hmem : ∀ r, r ∈ (ConfigRepo.archiveActive p db).2.revisions ↔ _ := fun r => Rows.mem_updateWhere
  have hgrows : Grows p db (ConfigRepo.archiveActive p db).2 := by
    refine ⟨fun r hr hp version hversion => ?_, fun _ _ _ _ => rfl⟩
    by_cases hactive : (r.projectId == p && r.status == .active) = true
    · exact ⟨_, (hmem _).mpr (.inl ⟨r, hr, hactive, rfl⟩), rfl, hp, hversion⟩
    · exact ⟨r, (hmem _).mpr (.inr ⟨hr, by simpa using hactive⟩), rfl, hp, hversion⟩
  refine ⟨hgrows, {
    ids := hs.ids.updateWhere fun _ _ _ => rfl
    fresh := fun r hr => ?_
    groupIds := hs.groupIds
    groupsFresh := hs.groupsFresh
    drafts := fun r hr hp hstatus => ?_
    filed := hgrows.filedRight rfl hs.filed }, fun r hr hp hstatus => ?_⟩
  · rcases (hmem r).mp hr with ⟨x, hx, -, rfl⟩ | ⟨hold, -⟩
    · exact hs.fresh x hx
    · exact hs.fresh r hold
  · rcases (hmem r).mp hr with ⟨x, hx, -, rfl⟩ | ⟨hold, -⟩
    · cases hstatus
    · exact hs.drafts r hold hp hstatus
  · rcases (hmem r).mp hr with ⟨x, hx, -, rfl⟩ | ⟨hold, hnot⟩
    · cases hstatus
    · simp [hp, hstatus] at hnot

theorem LoadedDraft.archive {draft : ConfigRevision} {groups : List ConfigGroup}
    (h : LoadedDraft p draft groups db) :
    LoadedDraft p draft groups (ConfigRepo.archiveActive p db).2 := by
  refine ⟨⟨Rows.mem_updateWhere.mpr (.inr ⟨h.held.mem, ?_⟩), h.held.project, h.held.status⟩, h.placed⟩
  rw [h.held.status]
  simp

/-- The draft becomes the ACTIVE revision, of the version. -/
theorem activate_grows {draft : ConfigRevision} (hs : Filing p d db) (hdraft : HoldsDraft p draft db)
    (hnone : NoneActive p db) {f : ConfigRevision → ConfigRevision} {version : String}
    (hid : (f draft).id = draft.id) (hproject : (f draft).projectId = p)
    (hstatus : (f draft).status = .active) (hversion : (f draft).semVer = some version) :
    Grows p db (ConfigRepo.updateRevisions (fun r => r.id == draft.id) f db).2 ∧
      Filing p d (ConfigRepo.updateRevisions (fun r => r.id == draft.id) f db).2 ∧
      Serves p version (ConfigRepo.updateRevisions (fun r => r.id == draft.id) f db).2 := by
  have honly : ∀ r ∈ db.revisions, (r.id == draft.id) = true → r = draft := fun r hr h =>
    hs.ids.eq_of_mem hr hdraft.mem (beq_iff_eq.mp h)
  have hrows : ∀ r, r ∈ (ConfigRepo.updateRevisions (fun r => r.id == draft.id) f db).2.revisions →
      r = f draft ∨ r ∈ db.revisions := by
    intro r hr
    rcases Rows.mem_updateWhere.mp hr with ⟨x, hx, hxid, rfl⟩ | ⟨hold, -⟩
    · exact .inl (by rw [honly x hx hxid])
    · exact .inr hold
  have hnew : f draft ∈ (ConfigRepo.updateRevisions (fun r => r.id == draft.id) f db).2.revisions :=
    Rows.mem_updateWhere.mpr (.inl ⟨draft, hdraft.mem, beq_self_eq_true _, rfl⟩)
  have hgrows : Grows p db (ConfigRepo.updateRevisions (fun r => r.id == draft.id) f db).2 := by
    refine ⟨fun r hr hp t ht => ?_, fun _ _ _ _ => rfl⟩
    have hne : r.id ≠ draft.id := hdraft.id_ne hs hr (by rw [ht]; nofun)
    exact ⟨r, Rows.mem_updateWhere.mpr (.inr ⟨hr, beq_false_of_ne hne⟩), rfl, hp, ht⟩
  refine ⟨hgrows, {
    ids := hs.ids.updateWhere fun r hr h => by rw [honly r hr h, hid]
    fresh := fun r hr => ?_
    groupIds := hs.groupIds
    groupsFresh := hs.groupsFresh
    drafts := fun r hr hp hdraftStatus => ?_
    filed := hgrows.filedRight rfl hs.filed }, ?_⟩
  · rcases hrows r hr with rfl | hold
    · rw [hid]
      exact hs.fresh draft hdraft.mem
    · exact hs.fresh r hold
  · rcases hrows r hr with rfl | hold
    · rw [hstatus] at hdraftStatus
      cases hdraftStatus
    · exact hs.drafts r hold hp hdraftStatus
  · have hsome : ((ConfigRepo.updateRevisions (fun r => r.id == draft.id) f db).2.findRevision p
        .active).isSome := by
      unfold ConfigDb.findRevision
      rw [List.find?_isSome]
      exact ⟨f draft, hnew, by simp [hproject, hstatus]⟩
    obtain ⟨r, hr⟩ := Option.isSome_iff_exists.mp hsome
    have hquery : r.projectId = p ∧ r.status = .active := by simpa using List.find?_some hr
    rcases hrows r (List.mem_of_find?_eq_some hr) with rfl | hold
    · exact ⟨_, hr, hversion⟩
    · exact absurd hquery.2 (hnone r hold hquery.1)

/-- The loaded groups are written back, and the draft becomes the ACTIVE revision. -/
theorem saveWithGroups_grows {draft : ConfigRevision} {groups : List ConfigGroup}
    (hs : Filing p d db) (hdraft : LoadedDraft p draft groups db) (hnone : NoneActive p db)
    {revision : ConfigRevision} {version : String} (hid : revision.id = draft.id)
    (hproject : revision.projectId = p) (hstatus : revision.status = .active)
    (hversion : revision.semVer = some version) :
    Grows p db (saveWithGroups revision groups db).2 ∧
      Filing p d (saveWithGroups revision groups db).2 ∧
      ∀ a, (saveWithGroups revision groups db).1 = .ok a →
        Serves p version (saveWithGroups revision groups db).2 := by
  unfold saveWithGroups
  split
  · obtain ⟨db₁, hrun, hquiet, hs₁, hdraft₁, hnone₁⟩ := @forEach_run ConfigDb Exception ConfigGroup
      (fun _ db' => Quiet p db db' ∧ Filing p d db' ∧ LoadedDraft p draft groups db' ∧
        NoneActive p db') ConfigRepo.saveGroup groups
      (by
        rintro done g db' hg ⟨hquiet, hs', hdraft', hnone'⟩
        obtain ⟨hrev, hplaced⟩ := hdraft'.placed g hg
        obtain ⟨hstep, hnext⟩ := saveGroup_quiet hs' hdraft'.held hplaced hrev
        exact ⟨_, rfl, hquiet.trans hstep, hnext, hdraft'.quiet hstep, hnone'.quiet hstep⟩)
      [] db ⟨(Untouched.refl db).quiet, hs, hdraft, hnone⟩
    obtain ⟨hgrows, hnext, hserves⟩ := activate_grows hs₁ hdraft₁.held hnone₁
      (f := fun _ => revision) hid hproject hstatus hversion
    rw [bind_run_ok hrun, hid]
    exact ⟨hquiet.grows_trans hgrows, hnext, fun _ _ => hserves⟩
  · exact ⟨(Untouched.refl db).quiet.grows, hs, nofun⟩

/-- Two versions of one device have two keys. -/
theorem versionedObjectKey_inj {t u : String}
    (h : versionedObjectKey d t = versionedObjectKey d u) : t = u := by
  have hkey : ∀ x : String, (versionedObjectKey d x).toList =
      ("config-cache/" ++ d ++ "/").toList ++ (x.toList ++ ".json".toList) := by
    intro x
    have htext : versionedObjectKey d x = "config-cache/" ++ d ++ "/" ++ x ++ ".json" := rfl
    rw [htext, String.toList_append, String.toList_append, List.append_assoc]
  have hlists := congrArg String.toList h
  rw [hkey, hkey] at hlists
  exact String.toList_inj.mp (List.append_cancel_right (List.append_cancel_left hlists))

theorem setByVersion_quiet (hs : Filing p d db) (peers : Peers) {version : String}
    {payload : DeviceConfigDto} (hfiled : Filed p db version payload) :
    Quiet p db (setByVersion peers d version payload db).2 ∧
      Filing p d (setByVersion peers d version payload db).2 := by
  unfold setByVersion
  cases peers.bucketUp with
  | false => exact ⟨(Untouched.refl db).quiet, hs⟩
  | true =>
      have hquiet : Quiet p db { db with
          bucket := ObjectMap.set db.bucket (versionedObjectKey d version) payload } :=
        ⟨⟨[], (List.append_nil _).symm, nofun⟩, fun _ _ _ _ => rfl, fun g hg => ⟨g, hg, rfl, rfl⟩⟩
      refine ⟨hquiet, hs.ids, hs.fresh, hs.groupIds, hs.groupsFresh, hs.drafts, fun t x hx => ?_⟩
      have hget : ObjectMap.get? (ObjectMap.set db.bucket (versionedObjectKey d version) payload)
          (versionedObjectKey d t) = some x := hx
      rw [ObjectMap.get?_set] at hget
      by_cases hkey : versionedObjectKey d t = versionedObjectKey d version
      · rw [if_pos hkey] at hget
        rw [versionedObjectKey_inj hkey, ← Option.some.inj hget]
        exact hquiet.grows.filed hfiled
      · rw [if_neg hkey] at hget
        exact hquiet.grows.filed (hs.filed t x hget)

end Steps

end InSteps

end ConfigService

end UploadService
