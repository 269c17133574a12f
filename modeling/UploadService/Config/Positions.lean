import UploadService.Config.Shelves

/-!
# The order of a revision's groups

The groups of a revision should have distinct names and distinct positions. Each call moves the
groups of one draft at most. The cascade is the one that may put two groups at one position: it
places the groups of the config maps in the draft, and then copies the missing groups of the
previous ACTIVE revision with the positions they have there.

Main results:

- `wellOrdered_step_iff`: a call keeps the groups in order exactly where the positions of the
  groups it copies are free;
- `wellOrdered_along_runs_iff`: from an empty table the groups are in order in every state of a
  run exactly where that holds of each of its calls;
- `namesOnce_along_runs`: the names are distinct in every state of every run;
- `cascade_repeats_position`: the first cascade to a provisioned device, with one group in its
  config map, puts two groups at position 0.
-/

namespace UploadService

open Prog ConfigEvent Runs

/-- The groups of every revision have distinct names and distinct positions. -/
def WellOrdered (db : ConfigDb) : Prop :=
  ∀ r ∈ db.revisions, ((db.groupsOf r.id).map (·.name)).Nodup ∧
    ((db.groupsOf r.id).map (·.position)).Nodup

instance (db : ConfigDb) : Decidable (WellOrdered db) := List.decidableBAll _ _

/-- The keys of the revisions and of the groups are distinct and drawn. -/
structure TablesOk (db : ConfigDb) : Prop where
  revisions : IdsOk db
  slots : SlotsOk db.slots db.nextId

theorem ordered_places (db : ConfigDb) (id : ℕ) : Places.Ordered (db.places id) ↔
    ((db.groupsOf id).map (·.name)).Nodup ∧ ((db.groupsOf id).map (·.position)).Nodup := by
  have hpositions : (db.groupsOf id).map (·.position) = Places.positions (db.places id) := by
    unfold Places.positions ConfigDb.places
    rw [List.map_map]
    rfl
  rw [ConfigService.names_places, hpositions]
  exact ⟨fun h => ⟨h.names, h.positions⟩, fun h => ⟨h.1, h.2⟩⟩

/-- The groups of every revision stand in places with the property. -/
def AllShelved (O : List (String × ℕ) → Prop) (db : ConfigDb) : Prop :=
  ∀ r ∈ db.revisions, O (db.places r.id)

theorem wellOrdered_iff {db : ConfigDb} : WellOrdered db ↔ AllShelved Places.Ordered db :=
  forall_congr' fun r => forall_congr' fun _ => (ordered_places db r.id).symm

variable {O : List (String × ℕ) → Prop}

/-! ### What a call moves -/

theorem WithDraft.old_or_new {db : ConfigDb} {p : ℕ} {d : ConfigRevision}
    {rows : List ConfigRevision} (h : WithDraft db p d rows) {r : ConfigRevision} (hr : r ∈ rows) :
    r ∈ db.revisions ∨ ∃ n, r = draftRow db.nextId p n := by
  cases h with
  | found _ => exact .inl hr
  | opened _ =>
      rcases List.mem_append.mp hr with hr | hr
      · exact .inl hr
      · rw [List.mem_singleton.mp hr]
        exact .inr ⟨_, rfl⟩

/-- The draft of a project is one. -/
theorem WithDraft.unique {db : ConfigDb} {p : ℕ} {d d' : ConfigRevision}
    {rows rows' : List ConfigRevision} (h : WithDraft db p d rows) (h' : WithDraft db p d' rows') :
    d = d' := by
  cases h with
  | found h =>
      cases h' with
      | found h' => exact Option.some.inj (h.symm.trans h')
      | opened h' => cases h.symm.trans h'
  | opened h =>
      cases h' with
      | found h' => cases h.symm.trans h'
      | opened h' => rfl

/-- **Spec.** A revision after a call was there before, or has a key that the call drew. -/
theorem step_revision_ids {db : ConfigDb} (hids : IdsOk db) (e : ConfigEvent) {r : ConfigRevision}
    (hr : r ∈ (step db e).revisions) : (∃ r₀ ∈ db.revisions, r₀.id = r.id) ∨ db.nextId ≤ r.id := by
  have hold : ∀ {p d rows r}, WithDraft db p d rows → r ∈ rows →
      (∃ r₀ ∈ db.revisions, r₀.id = r.id) ∨ db.nextId ≤ r.id := by
    intro p d rows r hd hr
    rcases hd.old_or_new hr with hmem | ⟨n, rfl⟩
    · exact .inl ⟨r, hmem, rfl⟩
    · exact .inr (Nat.le_refl _)
  cases step_effect hids e with
  | still h _ _ => exact .inl ⟨r, h ▸ hr, rfl⟩
  | ensured p d h => exact hold h.draft hr
  | dropped d _ _ h _ _ =>
      rw [h] at hr
      exact .inl ⟨r, (Rows.deleteWhere_sublist _ _).subset hr, rfl⟩
  | published p _ v d applied rows tail h =>
      rw [h.revisions_eq] at hr
      rcases List.mem_append.mp hr with hr | hr
      · rcases mem_setRow hr with rfl | ⟨hr, -⟩
        · rw [h.applied_id]
          exact hold h.draft h.draft.mem
        · obtain ⟨r₀, hr₀, hid, -⟩ := mem_publicationRows hr
          rw [hid]
          exact hold h.draft hr₀
      · rcases h.tail with htail | ⟨id, htail, hnew, -⟩
        · rw [htail] at hr
          cases hr
        · rw [htail] at hr
          rw [List.mem_singleton.mp hr]
          exact .inr hnew

/-- The groups of one draft moved at most, and stand in places with the property. -/
inductive Reordered (O : List (String × ℕ) → Prop) (db db' : ConfigDb) : Prop
  | still (h : db'.slots = db.slots) (hn : db.nextId ≤ db'.nextId)
  | moved (d : ℕ) (h : OrderlyShelved O db d db')

theorem Reordered.slotsOk {db db' : ConfigDb} (h : Reordered O db db') (hok : TablesOk db) :
    SlotsOk db'.slots db'.nextId := by
  cases h with
  | still h hn =>
      refine ⟨h ▸ hok.slots.distinct, fun s hs => ?_⟩
      have := hok.slots.used s (h ▸ hs)
      omega
  | moved d h =>
      obtain ⟨places, -, hshelved⟩ := h
      exact hshelved.slots

/-- The groups of a revision that did not move. -/
theorem unmoved_shelved {db db' : ConfigDb} {e : ConfigEvent} (hO : Places.Placing O)
    (hok : TablesOk db) (h : AllShelved O db) {r : ConfigRevision} (hr : r ∈ (step db e).revisions)
    (hsame : db'.places r.id = db.places r.id) : O (db'.places r.id) := by
  rw [hsame]
  rcases step_revision_ids hok.revisions e hr with ⟨r₀, hr₀, hid⟩ | hnew
  · exact hid ▸ h r₀ hr₀
  · rw [hok.slots.places_fresh hnew]
    exact hO.nil

theorem Reordered.allShelved {db : ConfigDb} {e : ConfigEvent} (hmoves : Reordered O db (step db e))
    (hO : Places.Placing O) (hok : TablesOk db) (h : AllShelved O db) :
    AllShelved O (step db e) := by
  intro r hr
  cases hmoves with
  | still hslots _ =>
      apply unmoved_shelved hO hok h hr
      rw [places_eq, places_eq, hslots]
  | moved d hd =>
      obtain ⟨places, hplaces, hshelved⟩ := hd
      by_cases hid : r.id = d
      · rw [hid, hshelved.here]
        exact hplaces
      · exact unmoved_shelved hO hok h hr (hshelved.others r.id hid)

namespace ConfigService

variable {db₀ db : ConfigDb} {d : ℕ} {places : List (String × ℕ)}

/-! ### Writes that move no group -/

theorem shelved_deliveryWrites (db₀ : ConfigDb) (d : ℕ) (places : List (String × ℕ))
    (key : Option String) : DeliveryWrites key (Shelved db₀ d places) where
  requests := fun _ _ h => h.of_slots rfl (Nat.le_refl _)
  bucket := fun _ _ _ _ h => h.of_slots rfl (Nat.le_refl _)
  releases := fun _ _ h => h.of_slots rfl (Nat.le_refl _)
  offerings := fun _ _ h => h.of_slots rfl (Nat.le_refl _)

theorem updateRevisions_shelved (q : ConfigRevision → Bool) (f : ConfigRevision → ConfigRevision) :
    Keeps (Shelved db₀ d places) (ConfigRepo.updateRevisions q f) :=
  fun _ h => h.of_slots rfl (Nat.le_refl _)

theorem publishDraft_shelved (peers : Peers) (draft : ConfigRevision) (semVer : String) :
    Keeps (Shelved db₀ d places) (publishDraft peers draft semVer) := by
  apply Keeps.bind (updateRevisions_shelved _ _)
  intro _
  exact Keeps.bind (fun _ h => h.of_slots rfl (Nat.le_succ _)) fun _ => Keeps.pure _

/-- What holds of places in any order holds of places in order. -/
theorem orderly_keeps {α : Type} {p : ConfigProg α}
    (h : ∀ places, Keeps (Shelved db₀ d places) p) : Keeps (OrderlyShelved O db₀ d) p := by
  rintro s ⟨places, hordered, hshelved⟩
  exact ⟨places, hordered, h places s hshelved⟩

/-! ### The draft of a call -/

/-- The draft that a call starts from. -/
theorem drafted_shelved (hok : TablesOk db) {p n : ℕ} {draft : ConfigRevision}
    {rows : List ConfigRevision}
    (hens : Ensured db p draft { db with revisions := rows, nextId := n }) :
    Shelved db draft.id (db.places draft.id) { db with revisions := rows, nextId := n } := by
  refine ⟨⟨hok.slots.distinct, fun s hs => ?_⟩, hens.used, fun _ _ => rfl, rfl⟩
  have hused := hok.slots.used s hs
  have hnext : db.nextId ≤ n := hens.next
  show s.id < n ∧ s.revisionId < n
  omega

/-- A revision that was there has its groups, and a new draft has none. -/
theorem withDraft_shelved (hO : Places.Placing O) (hok : TablesOk db) (h : AllShelved O db) {p : ℕ}
    {draft : ConfigRevision} {rows : List ConfigRevision} (hdraft : WithDraft db p draft rows)
    {r : ConfigRevision} (hr : r ∈ rows) : O (db.places r.id) := by
  rcases hdraft.old_or_new hr with hmem | ⟨n, rfl⟩
  · exact h r hmem
  · show O (db.places db.nextId)
    rw [hok.slots.places_fresh (Nat.le_refl _)]
    exact hO.nil

theorem drafted_ordered (hO : Places.Placing O) (hok : TablesOk db) (h : AllShelved O db) {p : ℕ}
    {draft : ConfigRevision} {rows : List ConfigRevision} (hdraft : WithDraft db p draft rows) :
    O (db.places draft.id) := withDraft_shelved hO hok h hdraft hdraft.mem

/-- A call that starts with the draft of a project, and keeps its groups in order. -/
theorem draft_reordered {α : Type} (hO : Places.Placing O) (hok : TablesOk db)
    (h : AllShelved O db) (p : ℕ)
    {rest : ConfigRevision → ConfigProg α}
    (hrest : ∀ draft, Keeps (OrderlyShelved O db draft.id) (rest draft)) :
    Reordered O db ((getOrCreateDraftRevision p >>= rest) db).2 := by
  obtain ⟨draft, rows, n, hrun, hens⟩ := getOrCreateDraftRevision_run hok.revisions p
  rw [bind_run_ok hrun]
  apply Reordered.moved draft.id
  exact hrest draft _ ⟨_, drafted_ordered hO hok h hens.draft, drafted_shelved hok hens⟩

/-- A call that a project's type refuses changes nothing. -/
theorem required_reordered {α : Type} (peers : Peers) (identifier : Identifier)
    (types : List ProjectType) {rest : Project → ConfigProg α}
    (hrest : ∀ project, Reordered O db (rest project db).2) :
    Reordered O db ((requireProject peers identifier types >>= rest) db).2 := by
  rcases requireProject_run peers identifier types db with ⟨e, he⟩ | ⟨project, -, hok⟩
  · rw [bind_run_error he]
    exact .still rfl (Nat.le_refl _)
  · rw [bind_run_ok hok]
    exact hrest project

theorem upsertGroup_reordered (hO : Places.Placing O) (hok : TablesOk db)
    (h : AllShelved O db) (peers : Peers)
    (dto : UpsertConfigGroupDto) : Reordered O db (upsertGroup peers dto db).2 := by
  apply required_reordered
  intro project
  exact draft_reordered hO hok h project.id fun draft => editDraftGroup_ordered hO dto

theorem deleteGroup_reordered (hO : Places.Placing O) (hok : TablesOk db)
    (h : AllShelved O db) (peers : Peers)
    (dto : DeleteConfigGroupDto) : Reordered O db (deleteGroup peers dto db).2 := by
  apply required_reordered
  intro project
  exact draft_reordered hO hok h project.id fun draft => deleteDraftGroup_ordered hO dto.groupName

/-- The copy of a revision whose groups are in order. -/
theorem copySourceGroups_ordered (projectId : ℕ) {s : ConfigDb} (h : Shelved db₀ d [] s)
    (hO : Places.Placing O) (hordered : AllShelved O s) :
    OrderlyShelved O db₀ d (copySourceGroups projectId d s).2 := by
  unfold copySourceGroups
  rw [gets_bind_run, gets_bind_run, gets_bind_run]
  have hcopy : ∀ groups : List ConfigGroup,
      O (groups.map fun g => (g.name, g.position)) →
      OrderlyShelved O db₀ d (Prog.forEach (fun g => do
        let _ ← cloneGroupToRevision g d g.position
        pure ()) groups s).2 := by
    intro groups hgroups
    exact ⟨_, hgroups, (@cloneGroups_shelved db₀ d [] groups).exit_total h⟩
  apply hcopy
  split
  · rename_i source hsource
    exact hordered source (copySource_published hsource).1
  · exact hO.nil

theorem createDraftRevision_reordered (hO : Places.Placing O) (hok : TablesOk db)
    (h : AllShelved O db) (peers : Peers)
    (dto : ProjectIdentifierDto) : Reordered O db (createDraftRevision peers dto db).2 := by
  apply required_reordered
  intro project
  rw [gets_bind_run, gets_bind_run]
  cases hfind : db.findRevision project.id .draft with
  | some existing => exact .still rfl (Nat.le_refl _)
  | none =>
      let opened := draftRow db.nextId project.id ((db.maxRevisionNumber project.id).getD 0 + 1)
      have hens : Ensured db project.id opened
          { db with revisions := db.revisions ++ [opened], nextId := db.nextId + 1 } :=
        ⟨WithDraft.opened hfind, Nat.le_succ _, Nat.lt_succ_self _, rfl⟩
      have hstart := drafted_shelved hok hens
      have hnone : db.places opened.id = [] := hok.slots.places_fresh (Nat.le_refl _)
      rw [hnone] at hstart
      have hcopy : OrderlyShelved O db opened.id (copySourceGroups project.id opened.id
          { db with revisions := db.revisions ++ [opened], nextId := db.nextId + 1 }).2 := by
        exact copySourceGroups_ordered project.id hstart hO fun r hr =>
          withDraft_shelved hO hok h hens.draft hr
      apply Reordered.moved opened.id
      show OrderlyShelved O db opened.id ((copySourceGroups project.id opened.id >>= fun _ =>
        Prog.ofExcept (mapRevisionToDto opened none))
          { db with revisions := db.revisions ++ [opened], nextId := db.nextId + 1 }).2
      exact Keeps.bind_after hcopy fun _ => Keeps.ofExcept _

/-- A revision of the table before anything moved. -/
theorem shelved_start (hok : TablesOk db) {r : ConfigRevision} (hr : r ∈ db.revisions) :
    Shelved db r.id (db.places r.id) db :=
  ⟨hok.slots, hok.revisions.used r hr, fun _ _ => rfl, rfl⟩

theorem deleteDraftRevision_reordered (hO : Places.Placing O) (hok : TablesOk db)
    (h : AllShelved O db) (peers : Peers)
    (dto : ProjectIdentifierDto) : Reordered O db (deleteDraftRevision peers dto db).2 := by
  apply required_reordered
  intro project
  unfold findWithGroups
  rw [gets_bind_run]
  cases hfind : db.findRevision project.id .draft with
  | none => exact .still rfl (Nat.le_refl _)
  | some draft =>
      have hmem : draft ∈ db.revisions := List.mem_of_find?_eq_some hfind
      have hstart : OrderlyShelved O db draft.id db :=
        ⟨_, h _ hmem, shelved_start hok hmem⟩
      have hremove : Keeps (OrderlyShelved O db draft.id) (ConfigRepo.removeRevision draft.id) := by
        intro s hs
        have hgone := deleteWhere_orderly hO hs (q := fun g => g.revisionId == draft.id)
          fun g _ hg => beq_iff_eq.mp hg
        obtain ⟨places, hordered, hshelved⟩ := hgone
        exact ⟨places, hordered, hshelved.of_slots rfl (Nat.le_refl _)⟩
      apply Reordered.moved draft.id
      refine Keeps.bind (Keeps.gets _) (fun enabled => ?_) db hstart
      apply Keeps.bind (Keeps.when (Keeps.forEach fun g _ =>
        deleteGroupVaultSecrets_keeps orderly_vault g))
      exact fun _ => Keeps.bind hremove fun _ => Keeps.pure true

theorem applyRevision_reordered (hok : TablesOk db) (h : AllShelved O db) (peers : Peers)
    (dto : ApplyConfigRevisionDto) : Reordered O db (applyRevision peers dto db).2 := by
  apply required_reordered
  intro project
  unfold findWithGroups
  rw [gets_bind_run, gets_bind_run]
  cases hfind : db.findRevision project.id .draft with
  | none => exact .still rfl (Nat.le_refl _)
  | some draft =>
      have hmem : draft ∈ db.revisions := List.mem_of_find?_eq_some hfind
      apply Reordered.moved draft.id
      refine orderly_keeps (fun places => ?_) db ⟨_, h _ hmem, shelved_start hok hmem⟩
      apply Keeps.bind (updateRevisions_shelved _ _)
      intro _
      apply Keeps.bind (updateRevisions_shelved _ _)
      intro _
      exact Keeps.bind (publishToDevice_keeps (shelved_deliveryWrites _ _ _ _) peers project _ rfl)
        fun _ => Keeps.ofExcept _

/-! ### Provisioning -/

/-- The default groups come into an empty draft. -/
theorem provisionDefaultConfigProject_ordered (hO : Places.Placing O) (hok : TablesOk db)
    (h : AllShelved O db) {p n : ℕ}
    {draft : ConfigRevision} {rows : List ConfigRevision}
    (hrun : getOrCreateDraftRevision p db = (.ok draft, { db with revisions := rows, nextId := n }))
    (hens : Ensured db p draft { db with revisions := rows, nextId := n }) :
    OrderlyShelved O db draft.id (provisionDefaultConfigProject p db).2 := by
  have hstart := drafted_shelved hok hens
  unfold provisionDefaultConfigProject
  rw [bind_run_ok hrun, gets_bind_run]
  unfold Prog.when
  split
  · rename_i hempty
    have hgroups : db.groupsOf draft.id = [] :=
      List.length_eq_zero_iff.mp (of_decide_eq_true hempty)
    have hnone : db.places draft.id = [] := by
      unfold ConfigDb.places
      rw [hgroups]
      rfl
    rw [hnone] at hstart
    have hmeets := @insertDefaultGroups_shelved db draft.id [] defaultGroups.zipIdx
    have hdefaults : O ([] ++ defaultGroups.zipIdx) := by
      have hplaced := hO.placeAll hO.nil defaultGroups
      rwa [show Places.placeAll [] defaultGroups = [] ++ defaultGroups.zipIdx by decide] at hplaced
    exact ⟨_, hdefaults, hmeets.exit_total hstart⟩
  · exact ⟨_, drafted_ordered hO hok h hens.draft, hstart⟩

/-- A draft filled from the config maps is in order, also where the fill throws. -/
theorem populateDraftFromConfigMaps_ordered (hO : Places.Placing O) (peers : Peers) (deviceId : String)
    (known : Option (List ℕ)) :
    Keeps (OrderlyShelved O db₀ d) (populateDraftFromConfigMaps peers d deviceId known) := by
  rintro s ⟨places, hordered, hshelved⟩
  rcases populateDraftFromConfigMaps_shelved hshelved peers deviceId known with
    ⟨-, hfilled⟩ | ⟨-, added, hpart⟩
  · exact ⟨_, hO.placeAll hordered _, hfilled⟩
  · exact ⟨_, hO.placeAll hordered _, hpart⟩

theorem provisionProjectContent_reordered (hO : Places.Placing O) (hok : TablesOk db)
    (h : AllShelved O db) (peers : Peers)
    (dto : ProvisionDto) : Reordered O db (provisionProjectContent peers dto db).2 := by
  obtain ⟨draft, rows, n, hrun, hens⟩ := getOrCreateDraftRevision_run hok.revisions dto.projectId
  have hdefault := provisionDefaultConfigProject_ordered hO hok h hrun hens
  have hfound := provisionDefaultConfigProject_ensured hrun hens
  apply Reordered.moved draft.id
  unfold provisionProjectContent
  rcases hr : provisionDefaultConfigProject dto.projectId db with ⟨result, s⟩
  rw [hr] at hdefault hfound
  cases result with
  | error e =>
      rw [bind_run_error hr]
      exact hdefault
  | ok _ =>
      rw [bind_run_ok hr]
      have hpopulate : OrderlyShelved O db draft.id (populateInitialDraft peers dto.projectId
          dto.deviceId dto.deviceTypeIds s).2 := by
        unfold populateInitialDraft
        rw [gets_bind_run]
        unfold ConfigDb.findRevision
        rw [hfound.draft.find_draft]
        exact Keeps.bind (populateDraftFromConfigMaps_ordered hO peers dto.deviceId dto.deviceTypeIds)
          (fun _ => Keeps.pure _) s hdefault
      refine Keeps.bind_after hpopulate fun prepared => ?_
      cases prepared with
      | none => exact Keeps.pure ()
      | some published =>
          refine orderly_keeps fun places => ?_
          apply Keeps.bind (publishDraft_shelved _ _ _)
          intro _
          apply Keeps.bind (updateConfigProjectRelease_keeps (shelved_deliveryWrites _ _ _ none) peers _ _)
          intro _
          exact Keeps.tryCatch (assembleAndCacheDeviceConfig_keeps (shelved_deliveryWrites _ _ _ _)
            peers _ _ rfl) fun _ => Keeps.pure ()

/-! ### The cascade -/

/-- The places of the groups of the project's draft. -/
def draftPlaces (db : ConfigDb) (projectId : ℕ) : List (String × ℕ) :=
  match db.findRevision projectId .draft with
  | none => []
  | some draft => db.places draft.id

/-- The places of the draft once the groups of the config maps are in it. -/
def filledPlaces (peers : Peers) (projectId : ℕ) (deviceId : String) (db : ConfigDb) :
    List (String × ℕ) :=
  Places.placeAll (draftPlaces db projectId)
    (groupNames db (reachingRevisions db (peers.deviceTypeIds deviceId) deviceId))

/-- The places that the cascade copies from the ACTIVE revision. -/
def copiedPlaces (peers : Peers) (projectId : ℕ) (deviceId : String) (db : ConfigDb) :
    List (String × ℕ) :=
  Places.missing (filledPlaces peers projectId deviceId db)
    (((db.findRevision projectId .active).map fun r => db.places r.id).getD [])

/-- Vault takes the secrets of the groups that the cascade writes, so that it goes on to copy. -/
def fillReturns (peers : Peers) (projectId : ℕ) (deviceId : String) (db : ConfigDb) : Bool :=
  ((getOrCreateDraftRevision projectId >>= fun draft =>
    populateDraftFromConfigMaps peers draft.id deviceId none) db).1.toBool

theorem draftPlaces_eq (hok : TablesOk db) {p : ℕ} {draft : ConfigRevision}
    {rows : List ConfigRevision} (hdraft : WithDraft db p draft rows) :
    draftPlaces db p = db.places draft.id := by
  unfold draftPlaces
  cases hdraft with
  | found h => rw [h]
  | opened h =>
      rw [h]
      exact (hok.slots.places_fresh (Nat.le_refl _)).symm

/-- Opening a draft changes nothing of what reaches a device. -/
theorem groupNames_of_draft {p n : ℕ} {draft : ConfigRevision} {rows : List ConfigRevision}
    (hdraft : WithDraft db p draft rows) (typeIds : List ℕ) (deviceId : String) :
    groupNames { db with revisions := rows, nextId := n }
        (reachingRevisions { db with revisions := rows, nextId := n } typeIds deviceId) =
      groupNames db (reachingRevisions db typeIds deviceId) := by
  have hsame : reachingRevisions { db with revisions := rows, nextId := n } typeIds deviceId =
      reachingRevisions db typeIds deviceId := by
    cases hdraft with
    | found h => rfl
    | opened h =>
        show List.filter _ (db.revisions ++ [_]) = _
        rw [List.filter_append]
        simp [reachingRevisions, activeMapRevisions, draftRow, applicableAssocs]
  rw [hsame]
  rfl

/-- What the preparation of a cascade leaves: the filled draft with the copied groups, or a part
of the fill. -/
theorem prepareCascade_shelved (hok : TablesOk db) (peers : Peers) (p : ℕ) (deviceId : String) :
    ∃ draft, Ensured db p draft (prepareCascade peers p deviceId db).2 ∧
      ((fillReturns peers p deviceId db = true ∧
        (prepareCascade peers p deviceId db).1 = .ok (draft, replaced db p) ∧
        Shelved db draft.id (filledPlaces peers p deviceId db ++ copiedPlaces peers p deviceId db)
          (prepareCascade peers p deviceId db).2) ∨
      (fillReturns peers p deviceId db = false ∧
        (∃ e, (prepareCascade peers p deviceId db).1 = .error e) ∧
        ∃ added, Shelved db draft.id (Places.placeAll (draftPlaces db p) added)
          (prepareCascade peers p deviceId db).2)) := by
  obtain ⟨draft, hens, hprepared⟩ := prepareCascade_run hok.revisions peers p deviceId
  obtain ⟨draft', rows, n, hrun, hopened⟩ := getOrCreateDraftRevision_run hok.revisions p
  obtain rfl : draft' = draft := hopened.draft.unique hens.draft
  refine ⟨draft', hens, ?_⟩
  have hfill := populateDraftFromConfigMaps_shelved (drafted_shelved hok hopened) peers deviceId none
  have hrest : prepareCascade peers p deviceId db =
      ((populateDraftFromConfigMaps peers draft'.id deviceId none >>= fun _ => do
        cloneMissingGroups draft'.id (((replaced db p).map (·.2)).getD [])
        pure (draft', replaced db p)) { db with revisions := rows, nextId := n }) := by
    unfold prepareCascade
    rw [bind_run_ok hrun, findWithGroups_active, gets_bind_run, replaced_of_ensured hopened.draft p]
  have hreturns : fillReturns peers p deviceId db = (populateDraftFromConfigMaps peers draft'.id
      deviceId none { db with revisions := rows, nextId := n }).1.toBool := by
    unfold fillReturns
    rw [bind_run_ok hrun]
  rw [groupNames_of_draft hopened.draft, ← draftPlaces_eq hok hopened.draft] at hfill
  rw [hreturns, hrest]
  rcases hpopulate : populateDraftFromConfigMaps peers draft'.id deviceId none
    { db with revisions := rows, nextId := n } with ⟨result, s⟩
  rw [hpopulate] at hfill
  rcases hfill with ⟨hok', hfilled⟩ | ⟨⟨e, herror⟩, added, hpart⟩
  · obtain rfl : result = .ok () := hok'
    rw [bind_run_ok hpopulate]
    have hclone := @cloneMissingGroups_shelved db draft'.id (filledPlaces peers p deviceId db)
      (((replaced db p).map (·.2)).getD []) s hfilled
    rcases hcopies : cloneMissingGroups draft'.id (((replaced db p).map (·.2)).getD []) s with
      ⟨result, s'⟩
    rw [hcopies] at hclone
    have hprevious : ((((replaced db p).map (·.2)).getD []).map fun g => (g.name, g.position)) =
        ((db.findRevision p .active).map fun r => db.places r.id).getD [] := by
      unfold replaced
      cases db.findRevision p .active with
      | none => rfl
      | some r => rfl
    cases result with
    | error e => exact hclone.elim
    | ok _ =>
        rw [bind_run_ok hcopies]
        rw [hprevious] at hclone
        exact .inl ⟨rfl, rfl, hclone⟩
  · obtain rfl : result = .error e := herror
    rw [bind_run_error hpopulate]
    exact .inr ⟨rfl, ⟨e, rfl⟩, added, hpart⟩

/-- The revision stays in the table. -/
def HasRevision (id : ℕ) (db : ConfigDb) : Prop := ∃ r ∈ db.revisions, r.id = id

theorem hasRevision_deliveryWrites (id : ℕ) (key : Option String) :
    DeliveryWrites key (HasRevision id) where
  requests := fun _ _ h => h
  bucket := fun _ _ _ _ h => h
  releases := fun _ _ h => h
  offerings := fun _ _ h => h

theorem updateRevisions_hasRevision {id : ℕ} (q : ConfigRevision → Bool)
    {f : ConfigRevision → ConfigRevision} (hf : ∀ r, (f r).id = r.id) :
    Keeps (HasRevision id) (ConfigRepo.updateRevisions q f) := by
  rintro s ⟨r, hr, hid⟩
  have hmem := List.mem_map_of_mem (f := fun r => if q r then f r else r) hr
  refine ⟨_, hmem, ?_⟩
  show (if q r then f r else r).id = id
  split
  · rw [hf, hid]
  · exact hid

theorem publishDraft_hasRevision {id : ℕ} (peers : Peers) (draft : ConfigRevision) (semVer : String) :
    Keeps (HasRevision id) (publishDraft peers draft semVer) := by
  refine Keeps.bind (updateRevisions_hasRevision _ fun _ => rfl) fun _ => ?_
  refine Keeps.bind ?_ fun _ => Keeps.pure ()
  rintro s ⟨r, hr, hid⟩
  exact ⟨r, List.mem_append_left _ hr, hid⟩

/-- The publication of the cascade moves no group, and keeps the revision. -/
theorem publishCascade_keeps {I : ConfigDb → Prop} (peers : Peers) (hupdate : ∀ q, Keeps I
      (ConfigRepo.updateRevisions q fun r => { r with status := .archived }))
    (hpublish : ∀ draft semVer, Keeps I (publishDraft peers draft semVer))
    (hdelivery : ∀ key, DeliveryWrites key I) (projectId : ℕ) (deviceId : String)
    (prepared : ConfigRevision × Option (ConfigRevision × List ConfigGroup)) :
    Keeps I (do
      let newGroups ← Prog.gets fun db => db.groupsOf prepared.1.id
      let newSemVer := computeNextSemVer (prepared.2.map (·.2)) newGroups
        (prepared.2.bind (·.1.semVer))
      ConfigRepo.archiveActive projectId
      publishDraft peers prepared.1 newSemVer
      updateConfigProjectRelease peers projectId newSemVer
      assembleAndCacheDeviceConfig peers deviceId newSemVer : ConfigProg Unit) := by
  refine Keeps.bind (Keeps.gets _) fun newGroups => ?_
  refine Keeps.bind (hupdate _) fun _ => ?_
  refine Keeps.bind (hpublish _ _) fun _ => ?_
  refine Keeps.bind (updateConfigProjectRelease_keeps (hdelivery none) peers _ _) fun _ => ?_
  exact assembleAndCacheDeviceConfig_keeps (hdelivery _) peers _ _ rfl

/-- **Spec.** Where the groups of the draft stand after a cascade. -/
theorem refreshConfigProjectRevision_shelved (hok : TablesOk db) (peers : Peers) (p : ℕ)
    (deviceId : String) :
    ∃ d, (fillReturns peers p deviceId db = true ∧
        Shelved db d (filledPlaces peers p deviceId db ++ copiedPlaces peers p deviceId db)
          (refreshConfigProjectRevision peers p deviceId db).2 ∧
        HasRevision d (refreshConfigProjectRevision peers p deviceId db).2) ∨
      (fillReturns peers p deviceId db = false ∧ ∃ added,
        Shelved db d (Places.placeAll (draftPlaces db p) added)
          (refreshConfigProjectRevision peers p deviceId db).2) := by
  obtain ⟨draft, hens, hcases⟩ := prepareCascade_shelved hok peers p deviceId
  refine ⟨draft.id, ?_⟩
  unfold refreshConfigProjectRevision
  rcases hrun : prepareCascade peers p deviceId db with ⟨result, s⟩
  rw [hrun] at hens hcases
  rcases hcases with ⟨hreturns, hresult, hshelved⟩ | ⟨hthrows, ⟨e, hresult⟩, hpart⟩
  · obtain rfl : result = .ok (draft, replaced db p) := hresult
    rw [bind_run_ok hrun]
    have hmoves := publishCascade_keeps
      (I := Shelved db draft.id (filledPlaces peers p deviceId db ++ copiedPlaces peers p deviceId db))
      peers (fun q => updateRevisions_shelved q _) (publishDraft_shelved peers)
      (shelved_deliveryWrites _ _ _) p deviceId (draft, replaced db p) s hshelved
    have hstays := publishCascade_keeps (I := HasRevision draft.id) peers
      (fun q => updateRevisions_hasRevision q fun _ => rfl) (publishDraft_hasRevision peers)
      (hasRevision_deliveryWrites _) p deviceId (draft, replaced db p) s
      ⟨draft, hens.draft.mem, rfl⟩
    exact .inl ⟨hreturns, hmoves, hstays⟩
  · obtain rfl : result = .error e := hresult
    rw [bind_run_error hrun]
    exact .inr ⟨hthrows, hpart⟩

theorem draftPlaces_ordered (hO : Places.Placing O) (hok : TablesOk db) (h : AllShelved O db)
    (p : ℕ) : O (draftPlaces db p) := by
  obtain ⟨draft, rows, n, -, hens⟩ := getOrCreateDraftRevision_run hok.revisions p
  rw [draftPlaces_eq hok hens.draft]
  exact drafted_ordered hO hok h hens.draft

theorem activePlaces_ordered (hO : Places.Placing O) (h : AllShelved O db) (p : ℕ) :
    O (((db.findRevision p .active).map fun r => db.places r.id).getD []) := by
  cases hfind : db.findRevision p .active with
  | none => exact hO.nil
  | some r => exact h r (List.mem_of_find?_eq_some hfind)

theorem addConfigMapAssociation_reordered (peers : Peers) (dto : AddConfigMapAssociationDto) :
    Reordered O db (addConfigMapAssociation peers dto db).2 := by
  let I : ConfigDb → Prop := fun s => s.slots = db.slots ∧ db.nextId ≤ s.nextId
  have hkeeps : Keeps I (addConfigMapAssociation peers dto) := by
    apply addConfigMapAssociation_keeps
    intro a _ s hs
    simp only [ConfigRepo.insertAssoc]
    split
    · exact ⟨hs.1, Nat.le_succ_of_le hs.2⟩
    · exact hs
  obtain ⟨hslots, hnext⟩ := hkeeps db ⟨rfl, Nat.le_refl _⟩
  exact .still hslots hnext

theorem removeConfigMapAssociation_reordered (id : ℕ) :
    Reordered O db (removeConfigMapAssociation id db).2 := by
  let I : ConfigDb → Prop := fun s => s.slots = db.slots ∧ db.nextId ≤ s.nextId
  have hkeeps : Keeps I (removeConfigMapAssociation id) :=
    removeConfigMapAssociation_keeps (fun _ _ hs => hs) id
  obtain ⟨hslots, hnext⟩ := hkeeps db ⟨rfl, Nat.le_refl _⟩
  exact .still hslots hnext

end ConfigService

/-! ### Steps and runs -/

open ConfigService

/-- No group that a cascade copies from the ACTIVE revision has the position of a group that
stands in the draft by then. -/
def CopiesFit (db : ConfigDb) (e : ConfigEvent) : Prop :=
  match e.call with
  | .refreshConfigProjectRevision projectId deviceId =>
      fillReturns e.peers projectId deviceId db = true →
        ∀ copied ∈ copiedPlaces e.peers projectId deviceId db,
          copied.2 ∉ Places.positions (filledPlaces e.peers projectId deviceId db)
  | _ => True

instance (db : ConfigDb) : ∀ e, Decidable (CopiesFit db e)
  | ⟨peers, .refreshConfigProjectRevision projectId deviceId⟩ =>
      inferInstanceAs (Decidable (fillReturns peers projectId deviceId db = true →
        ∀ copied ∈ copiedPlaces peers projectId deviceId db,
          copied.2 ∉ Places.positions (filledPlaces peers projectId deviceId db)))
  | ⟨_, .provisionProjectContent _⟩ | ⟨_, .upsertGroup _⟩ | ⟨_, .deleteGroup _⟩
  | ⟨_, .createDraftRevision _⟩ | ⟨_, .deleteDraftRevision _⟩ | ⟨_, .applyRevision _⟩
  | ⟨_, .addConfigMapAssociation _⟩ | ⟨_, .removeConfigMapAssociation _⟩ => .isTrue trivial

/-- **Spec.** Every call but the cascade of one device. -/
theorem step_reordered {db : ConfigDb} (hO : Places.Placing O) (hok : TablesOk db)
    (h : AllShelved O db) (e : ConfigEvent)
    (hcall : ∀ p deviceId, e.call ≠ .refreshConfigProjectRevision p deviceId) :
    Reordered O db (step db e) := by
  obtain ⟨peers, call⟩ := e
  cases call with
  | provisionProjectContent dto => exact provisionProjectContent_reordered hO hok h peers dto
  | upsertGroup dto => exact upsertGroup_reordered hO hok h peers dto
  | deleteGroup dto => exact deleteGroup_reordered hO hok h peers dto
  | createDraftRevision dto => exact createDraftRevision_reordered hO hok h peers dto
  | deleteDraftRevision dto => exact deleteDraftRevision_reordered hO hok h peers dto
  | applyRevision dto => exact applyRevision_reordered hok h peers dto
  | refreshConfigProjectRevision p deviceId => exact absurd rfl (hcall p deviceId)
  | addConfigMapAssociation dto => exact addConfigMapAssociation_reordered peers dto
  | removeConfigMapAssociation id => exact removeConfigMapAssociation_reordered id

/-- **Spec.** The cascade of one device: the filled draft with the copied groups decides. -/
theorem refresh_allShelved_iff {db : ConfigDb} (hO : Places.Placing O) (hok : TablesOk db)
    (h : AllShelved O db) (peers : Peers) (p : ℕ) (deviceId : String) :
    AllShelved O (step db ⟨peers, .refreshConfigProjectRevision p deviceId⟩) ↔
      (fillReturns peers p deviceId db = true →
        O (filledPlaces peers p deviceId db ++ copiedPlaces peers p deviceId db)) := by
  obtain ⟨d, ⟨hreturns, hshelved, r, hr, hid⟩ | ⟨hthrows, added, hshelved⟩⟩ :=
    refreshConfigProjectRevision_shelved hok peers p deviceId
  · constructor
    · intro hafter _
      rw [← hshelved.here, ← hid]
      exact hafter r hr
    · intro hplaces
      exact (Reordered.moved d ⟨_, hplaces hreturns, hshelved⟩).allShelved hO hok h
  · refine iff_of_true ?_ fun hreturns => ?_
    · have hplaces := hO.placeAll (draftPlaces_ordered hO hok h p) added
      exact (Reordered.moved d ⟨_, hplaces, hshelved⟩).allShelved hO hok h
    · rw [hthrows] at hreturns
      cases hreturns

/-- **Step.** A call keeps the groups in order exactly where the positions of the groups it copies
are free. -/
theorem wellOrdered_step_iff {db : ConfigDb} (hok : TablesOk db) (h : WellOrdered db)
    (e : ConfigEvent) : WellOrdered (step db e) ↔ CopiesFit db e := by
  have hshelved := wellOrdered_iff.mp h
  have hO := @Places.ordered_placing String
  by_cases hcall : ∃ p deviceId, e.call = .refreshConfigProjectRevision p deviceId
  · obtain ⟨peers, call⟩ := e
    obtain ⟨p, deviceId, rfl⟩ := hcall
    have hfilled : Places.Ordered (filledPlaces peers p deviceId db) :=
      hO.placeAll (draftPlaces_ordered hO hok hshelved p) _
    rw [wellOrdered_iff, refresh_allShelved_iff hO hok hshelved]
    exact imp_congr_right fun _ =>
      Places.missing_ordered_iff hfilled (activePlaces_ordered hO hshelved p)
  · push Not at hcall
    apply iff_of_true
    · exact wellOrdered_iff.mpr ((step_reordered hO hok hshelved e hcall).allShelved hO hok hshelved)
    · unfold CopiesFit
      split
      · rename_i p deviceId heq
        exact absurd heq (hcall p deviceId)
      · trivial

/-- No name stands twice in a revision. -/
def NamesOnce (db : ConfigDb) : Prop := AllShelved (fun places => (Places.names places).Nodup) db

/-- **Step.** No call puts a name into a revision twice. -/
theorem namesOnce_step {db : ConfigDb} (hok : TablesOk db) (h : NamesOnce db) (e : ConfigEvent) :
    NamesOnce (step db e) := by
  have hO := @Places.names_placing String
  by_cases hcall : ∃ p deviceId, e.call = .refreshConfigProjectRevision p deviceId
  · obtain ⟨peers, call⟩ := e
    obtain ⟨p, deviceId, rfl⟩ := hcall
    refine (refresh_allShelved_iff hO hok h peers p deviceId).mpr fun _ => ?_
    exact Places.missing_names (hO.placeAll (draftPlaces_ordered hO hok h p) _)
      (activePlaces_ordered hO h p)
  · push Not at hcall
    exact (step_reordered hO hok h e hcall).allShelved hO hok h

/-- **Step.** A call keeps the keys distinct and drawn. -/
theorem tablesOk_step {db : ConfigDb} (hok : TablesOk db) (e : ConfigEvent) :
    TablesOk (step db e) := by
  refine ⟨idsOk_step hok.revisions e, ?_⟩
  by_cases hcall : ∃ p deviceId, e.call = .refreshConfigProjectRevision p deviceId
  · obtain ⟨peers, call⟩ := e
    obtain ⟨p, deviceId, rfl⟩ := hcall
    obtain ⟨d, ⟨-, hshelved, -⟩ | ⟨-, added, hshelved⟩⟩ :=
      refreshConfigProjectRevision_shelved hok peers p deviceId
    · exact hshelved.slots
    · exact hshelved.slots
  · push Not at hcall
    have hO : Places.Placing fun _ : List (String × ℕ) => True :=
      ⟨trivial, fun _ _ => trivial, fun _ _ => trivial⟩
    exact (step_reordered hO hok (fun _ _ => trivial) e hcall).slotsOk hok

theorem tablesOk_empty {db : ConfigDb} (hrevisions : db.revisions = []) (hgroups : db.groups = []) :
    TablesOk db := by
  refine ⟨⟨?_, ?_⟩, ?_, ?_⟩ <;> simp [hrevisions, hgroups, Rows.KeysDistinct, ConfigDb.slots]

/-- **Main result.** From empty tables, the groups of every revision are in order in every state
of a run exactly where no call of it copies a group to a position that is taken. -/
theorem wellOrdered_along_runs_iff (db : ConfigDb) (hrevisions : db.revisions = [])
    (hgroups : db.groups = []) (es : List ConfigEvent) :
    (∀ done, done <+: es → WellOrdered (run step db done)) ↔ Along step CopiesFit db es := by
  have hstart : WellOrdered db := by
    intro r hr
    rw [hrevisions] at hr
    cases hr
  have hall : Along step (fun _ _ => True) db es := along_of_forall step (fun _ _ _ => trivial) db
  exact along_iff_within (J := TablesOk) (fun s e hs _ _ => tablesOk_step hs e)
    (fun s e hs hordered _ => wellOrdered_step_iff hs hordered e)
    (tablesOk_empty hrevisions hgroups) hstart hall

/-- **Run.** The names are distinct in every state of every run. -/
theorem namesOnce_along_runs (db : ConfigDb) (hrevisions : db.revisions = [])
    (hgroups : db.groups = []) (es : List ConfigEvent) :
    TablesOk (run step db es) ∧ NamesOnce (run step db es) := by
  refine invariant_run (I := fun s => TablesOk s ∧ NamesOnce s) ?_ ⟨?_, ?_⟩ es
  · exact fun s e hs => ⟨tablesOk_step hs.1 e, namesOnce_step hs.1 hs.2 e⟩
  · exact tablesOk_empty hrevisions hgroups
  · intro r hr
    rw [hrevisions] at hr
    cases hr

/-- The groups of the device come into an empty draft: the cascade copies them to their places. -/
theorem wellOrdered_after_cascade : WellOrdered (run step smallDb
    [provisionEvent, ⟨smallPeers, .refreshConfigProjectRevision 1 "dev-1"⟩]) :=
  (wellOrdered_along_runs_iff smallDb rfl rfl _).mpr (by decide +kernel) _ (List.prefix_refl _)

/-- A config map with one group, associated with the provisioned device, and its cascade. -/
def firstCascade : List ConfigEvent :=
  [provisionEvent,
    ⟨smallPeers, .upsertGroup ⟨.id 2, "net", none, none, none, none, none⟩⟩,
    ⟨smallPeers, .applyRevision ⟨.id 2, none⟩⟩,
    ⟨smallPeers, .addConfigMapAssociation ⟨some (.id 2), none, some ["dev-1"]⟩⟩,
    ⟨smallPeers, .refreshConfigProjectRevision 1 "dev-1"⟩]

/-- The group of the config map gets the first position of the new draft, and the first group of
the device is copied to the same one. -/
theorem cascade_repeats_position : ¬ WellOrdered (run step smallDb firstCascade) := by
  decide +kernel

end UploadService
