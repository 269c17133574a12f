import UploadService.Config.Drafts

/-!
# How drafts are filled

The contracts of the calls on drafts, on top of those for one group. Only `writeMergedGroup` may
stop between two settled stores: it deletes the secrets of a group before it stores the new ones,
and a store that fails then leaves references of that one group dangling
(`writeMergedGroup_found`).

Main results: `writeMergedGroup_new`, `writeMergedGroup_found` and `writeMergedGroup_kept` for
one group of the config maps, `populateDraftFromConfigMaps_drafting` for all of them, and one
`_kept` lemma for each call.
-/

namespace UploadService

open Prog

namespace ConfigService

variable {σ : Scope} {db₀ db : ConfigDb} {d : ℕ}

/-! ### Groups of the config maps -/

/-- The end of `writeMergedGroup`: the secrets of the merged document, and the row. -/
def writeData (row : ConfigGroup) (m : MergedGroup) : ConfigProg Unit := do
  let enabled ← Prog.gets fun db => db.vault.enabled
  let data ← (
    if !m.sensitiveKeys.isEmpty && enabled then
      Prog.foldEach (storeMergedKey row.id) m.data m.sensitiveKeys
    else pure m.data : ConfigProg Object)
  ConfigRepo.saveGroup { row with yamlContent := dumpNonEmpty data }

theorem writeMergedGroup_eq (draftId : ℕ) (entry : String × MergedGroup) :
    writeMergedGroup draftId entry =
      draftGroupFor draftId entry.1 entry.2 >>= fun row => writeData row entry.2 := rfl

/-- A merged group is written into a row of the draft; the groups `ids` stay lost where that
fails. -/
theorem writeData_drafting {ids : Set ℕ} {row : ConfigGroup} {m : MergedGroup}
    (hmerged : MergedOk σ db₀.vault m) (hid : row.id ∉ σ.frozen) (hrevision : row.revisionId = d)
    (hkeys : row.sensitiveKeys = m.sensitiveKeys) (hids : ∀ i ∈ ids, i = row.id) :
    Meets (fun db => Drafting (σ.losing ids) db₀ d db ∧ row.id < db.nextId)
      (writeData row m) (fun _ => Drafting σ db₀ d) fun _ => Drafting (σ.losing ids) db₀ d := by
  obtain ⟨hdata, hnodup, hok⟩ := hmerged
  have hsave : ∀ data : Object, Meets (Filling σ ids db₀ d row.id data)
      (ConfigRepo.saveGroup { row with yamlContent := dumpNonEmpty data })
      (fun _ => Drafting σ db₀ d) fun _ => Drafting (σ.losing ids) db₀ d := by
    intro data db' h'
    have hrow : ∀ keyPath ∈ row.sensitiveKeys, σ.keyOk keyPath := by
      rw [hkeys]
      exact hok
    exact @Filling.save σ db₀ db' d ids { row with yamlContent := dumpNonEmpty data } data h' hid
      hrevision hrow (parseYaml_dumpNonEmpty data) hids
  have hstore := @storeMergedKeys_filling σ db₀ ids d row.id hid m.sensitiveKeys hnodup hok m.data hdata
  have hwrite : ∀ enabled : Bool, Meets (Filling σ ids db₀ d row.id m.data)
      (((if !m.sensitiveKeys.isEmpty && enabled then
          Prog.foldEach (storeMergedKey row.id) m.data m.sensitiveKeys
        else pure m.data : ConfigProg Object)) >>= fun data =>
        ConfigRepo.saveGroup { row with yamlContent := dumpNonEmpty data })
      (fun _ => Drafting σ db₀ d) fun _ => Drafting (σ.losing ids) db₀ d := by
    intro enabled
    refine Meets.bind ?_ hsave
    exact hstore.ite (Meets.pure fun db h => h)
  rintro db ⟨h, hused⟩
  refine hwrite _ db ⟨h, hused, hdata.mono fun t ht => ?_⟩
  exact Scope.Names.mono ((show Unmoved σ db₀ db from ⟨h.unmoved.revisions, h.unmoved.groups,
    h.unmoved.secrets⟩).names t |>.mpr ht) (Set.subset_insert _ _)

/-- The new row for a merged group. -/
def mergedRow (draftId : ℕ) (name : String) (m : MergedGroup) (position : ℕ) : ConfigGroup :=
  { newGroup draftId name position with
    isGlobal := m.isGlobal, gitFilePath := m.gitFilePath, sensitiveKeys := m.sensitiveKeys }

/-- **Main result.** A group that the draft does not have yet: a store that fails leaves the new
row without a document. -/
theorem writeMergedGroup_new (h : Drafting σ db₀ d db) {entry : String × MergedGroup}
    (hmerged : MergedOk σ db₀.vault entry.2) (hnone : db.findGroup d entry.1 = none) :
    Drafting σ db₀ d (writeMergedGroup d entry db).2 := by
  have hinserted := @Drafting.insertGroup σ db₀ db d h
    (mergedRow d entry.1 entry.2 (nextGroupPosition db d)) rfl hmerged.2.2 Object.nil_refs
  have hrun : draftGroupFor d entry.1 entry.2 db =
      ConfigRepo.insertGroup (mergedRow d entry.1 entry.2 (nextGroupPosition db d)) db := by
    unfold draftGroupFor
    rw [gets_bind_run, hnone]
    rfl
  have hwrite := @writeData_drafting σ db₀ d ∅
    { mergedRow d entry.1 entry.2 (nextGroupPosition db d) with id := db.nextId } entry.2 hmerged
    h.fresh rfl rfl fun i hi => (by cases hi)
  rw [Scope.losing_empty] at hwrite
  rw [writeMergedGroup_eq, bind_run, hrun]
  exact hwrite.exit ⟨hinserted, Nat.lt_succ_self _⟩

/-- **Main result.** A group that the draft has: where a store fails, its references are lost. -/
theorem writeMergedGroup_found (h : Drafting σ db₀ d db) {entry : String × MergedGroup}
    (hmerged : MergedOk σ db₀.vault entry.2) {group : ConfigGroup}
    (hfound : db.findGroup d entry.1 = some group) :
    Meets (fun s => s = db) (writeMergedGroup d entry) (fun _ => Drafting σ db₀ d)
      fun _ => Drafting (σ.losing {group.id}) db₀ d := by
  obtain ⟨hmem, hrevision, hid, hused⟩ := h.of_findGroup hfound
  have hkeys := hmerged.2.2
  have hdelete := @deleteGroupVaultSecrets_drafting σ db₀ d {group.id} db.groups group hid rfl
  have hsave : Meets (fun db' => Drafting (σ.losing {group.id}) db₀ d db' ∧ db'.groups = db.groups)
      (do
        ConfigRepo.saveGroup { group with sensitiveKeys := entry.2.sensitiveKeys }
        writeData { group with sensitiveKeys := entry.2.sensitiveKeys } entry.2)
      (fun _ => Drafting σ db₀ d) fun _ => Drafting (σ.losing {group.id}) db₀ d := by
    rintro db' ⟨h', hgroups⟩
    have hmem' : group ∈ db'.groups := hgroups ▸ hmem
    have hused' := (h'.settled.used group hmem').1
    have hsaved := @Drafting.saveGroup (σ.losing {group.id}) db₀ db' d h'
      { group with sensitiveKeys := entry.2.sensitiveKeys } hid hused' hrevision hkeys
      (h'.settled.docs group hmem')
    exact @writeData_drafting σ db₀ d {group.id} { group with sensitiveKeys := entry.2.sensitiveKeys }
      entry.2 hmerged hid hrevision rfl (fun i hi => hi) _ ⟨hsaved, hused'⟩
  have hrun : writeMergedGroup d entry db = (deleteGroupVaultSecrets group >>= fun _ => do
      ConfigRepo.saveGroup { group with sensitiveKeys := entry.2.sensitiveKeys }
      writeData { group with sensitiveKeys := entry.2.sensitiveKeys } entry.2) db := by
    rw [writeMergedGroup_eq]
    unfold draftGroupFor
    rw [bind_bind_run, gets_bind_run, hfound]
    dsimp only
    rw [bind_bind_run]
    rfl
  rintro s rfl
  rw [hrun]
  exact (hdelete.never_throws.bind fun _ => hsave) s ⟨h.losing _, rfl⟩

/-- The stores that differ from `db` in the secrets, and in the requests still to come. -/
def SameButSecrets (db s : ConfigDb) : Prop :=
  ∃ secrets faults, s = { db with vault := { db.vault with secrets := secrets, faults := faults } }

/-- A deletion of secrets changes nothing but the secrets. -/
theorem deleteGroupVaultSecrets_meets (henabled : db.vault.enabled = true) (group : ConfigGroup) :
    Meets (SameButSecrets db) (deleteGroupVaultSecrets group) (fun _ => SameButSecrets db)
      fun _ _ => False := by
  apply deleteGroupVaultSecrets_of_each
  rintro keyPath s ⟨secrets, faults, rfl⟩
  obtain ⟨r, secrets', faults', hrun, -, -⟩ := @Vault.deleteSecret_outcome
    { db.vault with secrets := secrets, faults := faults } henabled
    (configVaultKeySecretName group.id keyPath) configVaultField
  unfold Prog.tryCatch
  rw [vaultCall_run hrun]
  cases r with
  | ok _ => exact ⟨secrets', faults', rfl⟩
  | error e => exact ⟨secrets', faults', rfl⟩

theorem deleteGroupVaultSecrets_run (henabled : db.vault.enabled = true) (group : ConfigGroup) :
    ∃ secrets faults, deleteGroupVaultSecrets group db =
      (.ok (), { db with vault := { db.vault with secrets := secrets, faults := faults } }) := by
  have hmeets := deleteGroupVaultSecrets_meets henabled group db ⟨_, _, rfl⟩
  rcases hrun : deleteGroupVaultSecrets group db with ⟨r, s⟩
  rw [hrun] at hmeets
  cases r with
  | ok _ =>
      obtain ⟨secrets, faults, rfl⟩ := hmeets
      exact ⟨secrets, faults, rfl⟩
  | error e => exact hmeets.elim

/-- The deletion of the group's secrets takes nothing away: the group has no reference at a
sensitive key, or every deletion fails. -/
def RemovesNothing (group : ConfigGroup) (db : ConfigDb) : Prop :=
  (deleteGroupVaultSecrets group db).2.vault.secrets = db.vault.secrets

/-- A group of the draft that lost no secret is written as a new one is. -/
theorem writeMergedGroup_kept (h : Drafting σ db₀ d db) {entry : String × MergedGroup}
    (hmerged : MergedOk σ db₀.vault entry.2) {group : ConfigGroup}
    (hfound : db.findGroup d entry.1 = some group) (hkept : RemovesNothing group db) :
    Drafting σ db₀ d (writeMergedGroup d entry db).2 := by
  obtain ⟨hmem, hrevision, hid, hused⟩ := h.of_findGroup hfound
  obtain ⟨secrets, faults, hdelete⟩ := deleteGroupVaultSecrets_run h.settled.enabled group
  obtain rfl : secrets = db.vault.secrets := by
    unfold RemovesNothing at hkept
    rw [hdelete] at hkept
    exact hkept
  have hspent : Drafting σ db₀ d { db with vault := { db.vault with faults := faults } } :=
    ⟨⟨h.settled.faults faults, h.unmoved.faults faults⟩, h.draft⟩
  have hsaved := @Drafting.saveGroup σ db₀ _ d hspent
    { group with sensitiveKeys := entry.2.sensitiveKeys } hid hused hrevision hmerged.2.2
    (h.settled.docs group hmem)
  have hrun : draftGroupFor d entry.1 entry.2 db =
      (.ok { group with sensitiveKeys := entry.2.sensitiveKeys },
        (ConfigRepo.saveGroup { group with sensitiveKeys := entry.2.sensitiveKeys }
          { db with vault := { db.vault with faults := faults } }).2) := by
    unfold draftGroupFor
    rw [gets_bind_run, hfound]
    dsimp only
    rw [bind_run_ok hdelete]
    rfl
  have hwrite := @writeData_drafting σ db₀ d ∅ { group with sensitiveKeys := entry.2.sensitiveKeys }
    entry.2 hmerged hid hrevision rfl fun i hi => (by cases hi)
  rw [Scope.losing_empty] at hwrite
  rw [writeMergedGroup_eq, bind_run_ok hrun]
  exact hwrite.exit ⟨hsaved, hused⟩

/-- Where the write of a group stops on the way, none of its secrets had been removed. -/
def WritesWhole (draftId : ℕ) : List (String × MergedGroup) → ConfigDb → Prop
  | [], _ => True
  | entry :: rest, db => match writeMergedGroup draftId entry db with
    | (.ok _, db') => WritesWhole draftId rest db'
    | (.error _, _) => ∀ group, db.findGroup draftId entry.1 = some group → RemovesNothing group db

theorem writeMergedGroup_ok (h : Drafting σ db₀ d db) {entry : String × MergedGroup}
    (hmerged : MergedOk σ db₀.vault entry.2) {db' : ConfigDb}
    (hrun : writeMergedGroup d entry db = (.ok (), db')) : Drafting σ db₀ d db' := by
  cases hfound : db.findGroup d entry.1 with
  | none =>
      have hnew := writeMergedGroup_new h hmerged hfound
      rw [hrun] at hnew
      exact hnew
  | some group =>
      have hold := writeMergedGroup_found h hmerged hfound db rfl
      rw [hrun] at hold
      exact hold

theorem writeMergedGroup_error (h : Drafting σ db₀ d db) {entry : String × MergedGroup}
    (hmerged : MergedOk σ db₀.vault entry.2) {db' : ConfigDb} {e : Exception}
    (hrun : writeMergedGroup d entry db = (.error e, db'))
    (hsafe : σ.lost = Set.univ ∨
      ∀ group, db.findGroup d entry.1 = some group → RemovesNothing group db) :
    Drafting σ db₀ d db' := by
  cases hfound : db.findGroup d entry.1 with
  | none =>
      have hnew := writeMergedGroup_new h hmerged hfound
      rw [hrun] at hnew
      exact hnew
  | some group =>
      rcases hsafe with hall | hkept
      · have hold := writeMergedGroup_found h hmerged hfound db rfl
        rw [hrun] at hold
        have hsame : σ.losing {group.id} = σ := by
          refine Scope.eq_of_fields rfl rfl ?_ rfl
          show {group.id} ∪ σ.lost = σ.lost
          rw [hall, Set.union_univ]
        rw [hsame] at hold
        exact hold
      · have hnew := writeMergedGroup_kept h hmerged hfound (hkept group hfound)
        rw [hrun] at hnew
        exact hnew

/-- The groups of the config maps, written one after the other. -/
theorem writeMergedGroups_drafting (merged : List (String × MergedGroup)) (h : Drafting σ db₀ d db)
    (hmerged : ∀ entry ∈ merged, MergedOk σ db₀.vault entry.2)
    (hwhole : σ.lost = Set.univ ∨ WritesWhole d merged db) :
    Drafting σ db₀ d (Prog.forEach (writeMergedGroup d) merged db).2 := by
  induction merged generalizing db with
  | nil => exact h
  | cons entry rest ih =>
      have hentry := hmerged entry List.mem_cons_self
      have hrest : ∀ e ∈ rest, MergedOk σ db₀.vault e.2 :=
        fun e he => hmerged e (List.mem_cons_of_mem entry he)
      show Drafting σ db₀ d
        ((writeMergedGroup d entry >>= fun _ => Prog.forEach (writeMergedGroup d) rest) db).2
      rcases hr : writeMergedGroup d entry db with ⟨r, db'⟩
      cases r with
      | ok _ =>
          rw [bind_run_ok hr]
          apply ih (writeMergedGroup_ok h hentry hr) hrest
          refine hwhole.imp id fun hwhole => ?_
          unfold WritesWhole at hwhole
          rw [hr] at hwhole
          exact hwhole
      | error e =>
          rw [bind_run_error hr]
          apply writeMergedGroup_error h hentry hr
          refine hwhole.imp id fun hwhole => ?_
          unfold WritesWhole at hwhole
          rw [hr] at hwhole
          exact hwhole

theorem reachingRevisions_published {deviceTypeIds : List ℕ} {deviceId : String} {r : ConfigRevision}
    (hr : r ∈ reachingRevisions db deviceTypeIds deviceId) :
    r ∈ db.revisions ∧ r.status ≠ .draft := by
  obtain ⟨hmem, hactive⟩ := List.mem_filter.mp hr
  rw [Bool.and_eq_true] at hactive
  have hstatus : r.status = .active := by simpa using hactive.2
  exact ⟨hmem, by rw [hstatus]; decide⟩

/-- The write of the config maps' groups comes through, or stops where no secret was removed. -/
def PopulatesWhole (peers : Peers) (draftId : ℕ) (deviceId : String)
    (knownDeviceTypeIds : Option (List ℕ)) (db : ConfigDb) : Prop :=
  ∀ merged db', mergeConfigMaps (reachingRevisions db
      (knownDeviceTypeIds.getD (peers.deviceTypeIds deviceId)) deviceId) db = (.ok merged, db') →
    WritesWhole draftId merged db'

/-- **Main result.** A draft is filled from the config maps. -/
theorem populateDraftFromConfigMaps_drafting (peers : Peers) (deviceId : String)
    (known : Option (List ℕ)) (h : Drafting σ db₀ d db)
    (hwhole : σ.lost = Set.univ ∨ PopulatesWhole peers d deviceId known db) :
    Drafting σ db₀ d (populateDraftFromConfigMaps peers d deviceId known db).2 := by
  obtain ⟨merged, n, hrun, hmerged⟩ := mergeConfigMaps_reads h.toKept
    (fun r hr => @reachingRevisions_published db (known.getD (peers.deviceTypeIds deviceId)) deviceId r hr)
  have hspent : Drafting σ db₀ d (db.spend n) := ⟨h.toKept.spend n, h.draft⟩
  unfold populateDraftFromConfigMaps
  rw [gets_bind_run, bind_run_ok hrun]
  apply writeMergedGroups_drafting merged hspent
  · intro entry hentry
    obtain ⟨hdata, hkeys⟩ := hmerged entry hentry
    exact ⟨hdata.mono fun t ht => (h.unmoved.names t).mp ht, hkeys⟩
  · exact hwhole.imp id fun hwhole => hwhole merged _ hrun

/-! ### Copies of published revisions -/

theorem cloneGroups_drafting {groups : List ConfigGroup} (hgroups : ∀ g ∈ groups, PublishedIn db₀ g)
    (skip : ConfigGroup → Bool) :
    Keeps (Drafting σ db₀ d) (Prog.forEach (fun g =>
      if skip g then pure ()
      else do
        let _ ← cloneGroupToRevision g d g.position
        pure ()) groups) := by
  apply Keeps.forEach
  intro g hg
  refine Keeps.ite (Keeps.pure _) ?_
  exact Keeps.bind (cloneGroupToRevision_drafting (hgroups g hg) g.position) fun _ => Keeps.pure _

theorem cloneMissingGroups_drafting {groups : List ConfigGroup}
    (hgroups : ∀ g ∈ groups, PublishedIn db₀ g) :
    Keeps (Drafting σ db₀ d) (cloneMissingGroups d groups) := by
  refine Keeps.bind (Keeps.gets _) fun names => ?_
  exact cloneGroups_drafting hgroups fun g => names.contains g.name

theorem copySourceGroups_drafting (projectId : ℕ) :
    Keeps (Drafting σ db₀ d) (copySourceGroups projectId d) := by
  intro db h
  unfold copySourceGroups
  rw [gets_bind_run, gets_bind_run, gets_bind_run]
  refine cloneGroups_drafting ?_ (fun _ => false) db h
  intro g hg
  split at hg
  · rename_i source hfound
    obtain ⟨hmem, hpublished⟩ := copySource_published hfound
    exact h.toKept.publishedIn hmem hpublished hg
  · cases hg

/-- The default groups of a draft. -/
theorem insertDefaultGroups_drafting (entries : List (String × ℕ)) :
    Keeps (Drafting σ db₀ d) (Prog.forEach (fun entry => do
      let _ ← ConfigRepo.insertGroup (newGroup d entry.1 entry.2)
      pure ()) entries) := by
  apply Keeps.forEach
  intro entry _
  refine Keeps.bind ?_ fun _ => Keeps.pure _
  exact fun db h => h.insertGroup rfl (fun _ hmem => by cases hmem) Object.nil_refs

/-! ### The draft itself -/

/-- The draft of a project, found or opened. -/
theorem getOrCreateDraftRevision_kept (h : Kept σ db₀ db) (projectId : ℕ) :
    ∃ r db', getOrCreateDraftRevision projectId db = (.ok r, db') ∧ Drafting σ db₀ r.id db' := by
  unfold getOrCreateDraftRevision
  rw [gets_bind_run]
  cases hfound : db.findRevision projectId .draft with
  | some existing =>
      have hp := List.find?_some hfound
      simp only [Bool.and_eq_true, beq_iff_eq] at hp
      exact ⟨existing, db, rfl, h, existing, List.mem_of_find?_eq_some hfound, rfl, hp.2⟩
  | none =>
      dsimp only
      rw [gets_bind_run]
      have hopened : Kept σ db₀ (ConfigRepo.insertDraft projectId
          ((db.maxRevisionNumber projectId).getD 0 + 1) db).2 :=
        ⟨h.settled.insertDraft _ _, h.unmoved.insertDraft _ _⟩
      exact ⟨_, _, rfl, hopened, _, List.mem_append_right _ (List.mem_singleton.mpr rfl), rfl, rfl⟩

theorem upsertGroup_kept (peers : Peers) {dto : UpsertConfigGroupDto} (hdto : EditOk σ dto) :
    Keeps (Kept σ db₀) (upsertGroup peers dto) := by
  refine Keeps.bind (requireProject_keeps peers _ _) fun project => ?_
  intro db h
  obtain ⟨r, db', hrun, hdrafting⟩ := getOrCreateDraftRevision_kept h project.id
  rw [bind_run_ok hrun]
  exact (editDraftGroup_drafting hdto db' hdrafting).toKept

theorem deleteGroup_kept (peers : Peers) (dto : DeleteConfigGroupDto) :
    Keeps (Kept σ db₀) (deleteGroup peers dto) := by
  refine Keeps.bind (requireProject_keeps peers _ _) fun project => ?_
  intro db h
  obtain ⟨r, db', hrun, hdrafting⟩ := getOrCreateDraftRevision_kept h project.id
  rw [bind_run_ok hrun]
  exact (deleteDraftGroup_drafting dto.groupName db' hdrafting).toKept

theorem createDraftRevision_kept (peers : Peers) (dto : ProjectIdentifierDto) :
    Keeps (Kept σ db₀) (createDraftRevision peers dto) := by
  refine Keeps.bind (requireProject_keeps peers _ _) fun project => ?_
  refine Keeps.bind (Keeps.gets _) fun existing => Keeps.bind (Keeps.gets _) fun max => ?_
  cases existing with
  | some _ => exact Keeps.throw _
  | none =>
      intro db h
      have hopened : Kept σ db₀ (ConfigRepo.insertDraft project.id (max.getD 0 + 1) db).2 :=
        ⟨h.settled.insertDraft _ _, h.unmoved.insertDraft _ _⟩
      have hdrafting : Drafting σ db₀ db.nextId
          (ConfigRepo.insertDraft project.id (max.getD 0 + 1) db).2 :=
        ⟨hopened, _, List.mem_append_right _ (List.mem_singleton.mpr rfl), rfl, rfl⟩
      have hcopied := Keeps.bind (@copySourceGroups_drafting σ db₀ db.nextId project.id)
        (fun _ => Keeps.ofExcept (mapRevisionToDto (draftRow db.nextId project.id (max.getD 0 + 1)) none))
        _ hdrafting
      exact hcopied.toKept

/-- A draft is deleted, after the secrets of its groups. -/
theorem deleteDraftRevision_kept (peers : Peers) (dto : ProjectIdentifierDto) :
    Keeps (Kept σ db₀) (deleteDraftRevision peers dto) := by
  refine Keeps.bind (requireProject_keeps peers _ _) fun project => ?_
  intro db h
  unfold findWithGroups
  rw [gets_bind_run]
  cases hfound : db.findRevision project.id .draft with
  | none => exact h
  | some draft =>
      rw [Option.map_some]
      dsimp only
      rw [gets_bind_run, h.settled.enabled]
      have hp := List.find?_some hfound
      simp only [Bool.and_eq_true, beq_iff_eq] at hp
      have hdraft : db.IsDraft draft.id := ⟨draft, List.mem_of_find?_eq_some hfound, rfl, hp.2⟩
      have hdrafting : Drafting σ db₀ draft.id db := ⟨h, hdraft⟩
      generalize hids : { i | ∃ g ∈ db.groupsOf draft.id, g.id = i } = ids
      have hgroup : ∀ g ∈ db.groupsOf draft.id, g ∈ db.groups ∧ g.revisionId = draft.id ∧
          g.id ∉ σ.frozen := by
        intro g hg
        obtain ⟨hmem, hrevision⟩ := List.mem_filter.mp hg
        have hrevision' : g.revisionId = draft.id := by simpa using hrevision
        exact ⟨hmem, hrevision', fun hfrozen => (h.settled.frozen g hmem).mp hfrozen (hrevision' ▸ hdraft)⟩
      have hdelete : Meets (fun db' => Drafting (σ.losing ids) db₀ draft.id db' ∧ db'.groups = db.groups)
          (Prog.forEach deleteGroupVaultSecrets (db.groupsOf draft.id))
          (fun _ db' => Drafting (σ.losing ids) db₀ draft.id db' ∧ db'.groups = db.groups)
          fun _ _ => False := by
        apply Meets.forEach
        intro g hg
        exact deleteGroupVaultSecrets_drafting (hgroup g hg).2.2 (hids ▸ ⟨g, hg, rfl⟩)
      have hremove : Meets (fun db' => Drafting (σ.losing ids) db₀ draft.id db' ∧ db'.groups = db.groups)
          (do
            ConfigRepo.removeRevision draft.id
            pure true : ConfigProg Bool)
          (fun _ => Kept σ db₀) fun _ => Kept σ db₀ := by
        rintro db' ⟨h', hgroups⟩
        have hunmoved := h'.unmoved.removeRevision h'.settled.ids h'.draft
        refine ⟨h'.settled.removeRevision.restore ?_ ?_, hunmoved.revisions, hunmoved.groups,
          hunmoved.secrets⟩
        · rintro i hi
          rw [← hids] at hi
          obtain ⟨g, hg, rfl⟩ := hi
          exact (hgroup g hg).2.2
        · intro g hg hlost
          -- the groups that were lost went with the draft
          rw [← hids] at hlost
          obtain ⟨g', hg', hid⟩ := hlost
          obtain ⟨hmem, hne⟩ := Rows.mem_deleteWhere.mp hg
          rw [hgroups] at hmem
          have heq := h.settled.groupIds.eq_of_mem hmem (hgroup g' hg').1 hid.symm
          rw [heq, (hgroup g' hg').2.1] at hne
          simp at hne
      exact (hdelete.never_throws.bind fun _ => hremove).exit ⟨hdrafting.losing ids, rfl⟩

/-- The draft of a project is filled from the config maps. -/
theorem populateInitialDraft_kept (peers : Peers) (projectId : ℕ) (deviceId : String)
    (known : Option (List ℕ)) (h : Kept σ db₀ db)
    (hwhole : σ.lost = Set.univ ∨ ∀ draft, db.findRevision projectId .draft = some draft →
      PopulatesWhole peers draft.id deviceId known db) :
    Kept σ db₀ (populateInitialDraft peers projectId deviceId known db).2 := by
  unfold populateInitialDraft
  rw [gets_bind_run]
  cases hfound : db.findRevision projectId .draft with
  | none => exact h
  | some draft =>
      have hp := List.find?_some hfound
      simp only [Bool.and_eq_true, beq_iff_eq] at hp
      have hdrafting : Drafting σ db₀ draft.id db :=
        ⟨h, draft, List.mem_of_find?_eq_some hfound, rfl, hp.2⟩
      have hfilled := populateDraftFromConfigMaps_drafting peers deviceId known hdrafting
        (hwhole.imp id fun hwhole => hwhole draft hfound)
      exact Keeps.bind_after hfilled.toKept fun _ => Keeps.pure _

end ConfigService

end UploadService
