import UploadService.Config.MapAssociations

/-!
# What the config operations leave alone

Three classes of writes: group writes (the group table, Vault and the key
sequence), delivery writes (requests to Vault, the bucket, the releases and offerings), and all
writes but those to the associations. An assertion that the writes of a class keep
is kept by every operation made of them, so that the proofs about revisions and
associations never look inside the merging of groups.

Main results: `populateDraftFromConfigMaps_keeps`, `cloneMissingGroups_keeps`,
`updateConfigProjectRelease_keeps`, `assembleAndCacheDeviceConfig_keeps`, and
`ConfigEvent.step_keeps` for whole calls.
-/

namespace UploadService

open Prog

/-- Writes to the groups and to Vault, and drawing a key, keep `I`. -/
structure GroupWrites (I : ConfigDb → Prop) : Prop where
  groups : ∀ db gs, I db → I { db with groups := gs }
  vault : ∀ db v, I db → I { db with vault := v }
  nextId : ∀ db, I db → I { db with nextId := db.nextId + 1 }

/-- Requests to Vault that write nothing keep `I`. -/
def VaultRequests (I : ConfigDb → Prop) : Prop :=
  ∀ db faults, I db → I { db with vault := { db.vault with faults := faults } }

theorem GroupWrites.requests {I : ConfigDb → Prop} (h : GroupWrites I) : VaultRequests I :=
  fun db _ hdb => h.vault db _ hdb

/-- Reads of Vault, writes to the releases and offerings, and to the one bucket object `key`
keep `I`. -/
structure DeliveryWrites (key : Option String) (I : ConfigDb → Prop) : Prop where
  requests : VaultRequests I
  bucket : ∀ db k payload, key = some k → I db →
    I { db with bucket := ObjectMap.set db.bucket k payload }
  releases : ∀ db rs, I db → I { db with releases := rs }
  offerings : ∀ db os, I db → I { db with offerings := os }

/-- All writes of the config service but those to the associations keep `I`. -/
structure ConfigWrites (I : ConfigDb → Prop) : Prop extends GroupWrites I where
  revisions : ∀ db rs, I db → I { db with revisions := rs }
  bucket : ∀ db objects, I db → I { db with bucket := objects }
  releases : ∀ db rs, I db → I { db with releases := rs }
  offerings : ∀ db os, I db → I { db with offerings := os }

theorem ConfigWrites.delivery {I : ConfigDb → Prop} (h : ConfigWrites I) (key : Option String) :
    DeliveryWrites key I where
  requests := h.toGroupWrites.requests
  bucket := fun db _ _ _ hdb => h.bucket db _ hdb
  releases := h.releases
  offerings := h.offerings

namespace ConfigService

variable {I : ConfigDb → Prop}

theorem vaultCall_keeps (hv : ∀ db v, I db → I { db with vault := v }) {α : Type}
    (p : VaultProg α) : Keeps I (vaultCall p) :=
  fun db hdb => hv db _ hdb

theorem requireProject_keeps (peers : Peers) (identifier : Identifier) (types : List ProjectType) :
    Keeps I (requireProject peers identifier types) := by
  unfold requireProject
  cases peers.project identifier with
  | none => exact Keeps.throw _
  | some project => exact Keeps.ite (Keeps.pure _) (Keeps.throw _)

/-- A request for a project reads nothing of the store: it throws or has the project. -/
theorem requireProject_run (peers : Peers) (identifier : Identifier) (types : List ProjectType)
    (db : ConfigDb) :
    (∃ e, requireProject peers identifier types db = (.error e, db)) ∨
    ∃ project, peers.project identifier = some project ∧
      requireProject peers identifier types db = (.ok project, db) := by
  unfold requireProject
  cases h : peers.project identifier with
  | none => exact .inl ⟨_, rfl⟩
  | some project =>
      by_cases ht : types.contains project.projectType = true
      · exact .inr ⟨project, rfl, by simp only [ht, if_true]; rfl⟩
      · exact .inl ⟨_, by simp only [ht]; rfl⟩

theorem requireProject_ok {peers : Peers} {db : ConfigDb} {identifier : Identifier}
    {types : List ProjectType} {project : Project}
    (h : peers.project identifier = some project) (ht : project.projectType ∈ types) :
    requireProject peers identifier types db = (.ok project, db) := by
  unfold requireProject
  rw [h]
  show (if types.contains project.projectType then _ else _ : ConfigProg Project) db = _
  rw [if_pos (List.contains_iff_mem.mpr ht)]
  rfl

/-! ### Secrets and resolution -/

/-- Resolving a reference takes outcomes of the schedule, and writes nothing. -/
theorem resolveSecret_faults (value : String) (v : Vault) :
    ∃ faults, (Vault.resolveSecret value v).2 = { v with faults := faults } := by
  have hkeeps : Keeps (fun w => ∃ faults, w = { v with faults := faults })
      (Vault.resolveSecret value) := by
    have hrequest : Keeps (fun w => ∃ faults, w = { v with faults := faults }) Vault.request := by
      rintro w ⟨faults, rfl⟩
      exact ⟨faults.tail, rfl⟩
    unfold Vault.resolveSecret Vault.assertEnabled
    refine Keeps.ite (Keeps.pure _) ?_
    refine Keeps.bind (Keeps.bind (Keeps.gets _) fun _ => Keeps.ite (Keeps.pure _) (Keeps.throw _))
      fun _ => Keeps.bind hrequest fun fault => ?_
    cases fault with
    | some detail => exact Keeps.throw _
    | none =>
        refine Keeps.bind (Keeps.gets _) fun stored => ?_
        cases stored with
        | none => exact Keeps.throw _
        | some fields => exact Keeps.pure _
  exact hkeeps v ⟨v.faults, rfl⟩

theorem resolveSecret_keeps (hv : VaultRequests I) (value : String) :
    Keeps I (vaultCall (Vault.resolveSecret value)) := by
  intro db hdb
  obtain ⟨faults, hrun⟩ := resolveSecret_faults value db.vault
  show I { db with vault := (Vault.resolveSecret value db.vault).2 }
  rw [hrun]
  exact hv db faults hdb

theorem resolveKey_keeps (hv : VaultRequests I) (parsed : Object) (keyPath : String) :
    Keeps I (resolveKey parsed keyPath) := by
  unfold resolveKey
  cases vaultRefAt parsed keyPath with
  | none => exact Keeps.pure _
  | some ref =>
      refine Keeps.tryCatch ?_ fun _ => Keeps.pure _
      exact Keeps.bind (resolveSecret_keeps hv _) fun _ => Keeps.pure _

theorem resolveGroupYaml_keeps (hv : VaultRequests I) (group : ConfigGroup)
    (globals : Object) : Keeps I (resolveGroupYaml group globals) := by
  refine Keeps.bind (Keeps.gets _) fun enabled => ?_
  refine Keeps.bind ?_ fun _ => Keeps.pure _
  refine Keeps.ite (Keeps.foldEach (fun parsed keyPath _ => ?_) _) (Keeps.pure _)
  exact resolveKey_keeps hv parsed keyPath

theorem collectGlobals_keeps (hv : VaultRequests I) (groups : List ConfigGroup) : Keeps I (collectGlobals groups) := by
  refine Keeps.foldEach (fun result group _ => ?_) _
  refine Keeps.ite ?_ (Keeps.pure _)
  exact Keeps.bind (resolveGroupYaml_keeps hv group []) fun _ => Keeps.pure _

theorem deleteGroupVaultSecrets_keeps (hv : ∀ db v, I db → I { db with vault := v })
    (group : ConfigGroup) : Keeps I (deleteGroupVaultSecrets group) := by
  refine Keeps.bind (Keeps.gets _) fun enabled => ?_
  refine Keeps.when (Keeps.forEach fun keyPath _ => ?_)
  cases vaultRefAt (parseYaml group.yamlContent) keyPath with
  | none => exact Keeps.pure _
  | some _ => exact Keeps.tryCatch (vaultCall_keeps hv _) fun _ => Keeps.pure _

theorem mergeConfigMaps_keeps (hv : VaultRequests I) (revisions : List ConfigRevision) :
    Keeps I (mergeConfigMaps revisions) := by
  refine Keeps.bind (Keeps.gets _) fun groups => Keeps.foldEach (fun merged cmGroup _ => ?_) _
  exact Keeps.bind (resolveGroupYaml_keeps hv cmGroup []) fun _ => Keeps.pure _

section VaultWrites

variable (hv : ∀ db v, I db → I { db with vault := v })
include hv

theorem cloneKey_keeps (newGroupId : ℕ) (parsed : Object) (keyPath : String) :
    Keeps I (cloneKey newGroupId parsed keyPath) := by
  unfold cloneKey
  cases vaultRefAt parsed keyPath with
  | none => exact Keeps.pure _
  | some ref =>
      refine Keeps.tryCatch (Keeps.bind (vaultCall_keeps hv _) fun resolved => ?_)
        fun _ => Keeps.pure _
      cases resolved with
      | none => exact Keeps.pure _
      | some plaintext => exact Keeps.bind (vaultCall_keeps hv _) fun _ => Keeps.pure _

theorem storeKey_keeps (groupId : ℕ) (parsed : Object) (keyPath : String) :
    Keeps I (storeKey groupId parsed keyPath) := by
  unfold storeKey
  split
  · exact Keeps.pure _
  · exact Keeps.pure _
  · refine Keeps.ite (Keeps.pure _) ?_
    exact Keeps.bind (vaultCall_keeps hv _) fun _ => Keeps.ofExcept _

theorem storeMergedKey_keeps (groupId : ℕ) (mergedObj : Object) (keyPath : String) :
    Keeps I (storeMergedKey groupId mergedObj keyPath) := by
  unfold storeMergedKey
  split
  · exact Keeps.pure _
  · exact Keeps.pure _
  · exact Keeps.bind (vaultCall_keeps hv _) fun _ => Keeps.ofExcept _

end VaultWrites

/-! ### Group writes -/

section GroupWrites

variable (h : GroupWrites I)
include h

theorem saveGroup_keeps (group : ConfigGroup) : Keeps I (ConfigRepo.saveGroup group) :=
  fun db hdb => h.groups db _ hdb

theorem insertGroup_keeps (group : ConfigGroup) : Keeps I (ConfigRepo.insertGroup group) :=
  fun db hdb => h.groups _ _ (h.nextId db hdb)

theorem cloneGroupToRevision_keeps (source : ConfigGroup) (targetRevisionId position : ℕ) :
    Keeps I (cloneGroupToRevision source targetRevisionId position) := by
  refine Keeps.bind (insertGroup_keeps h _) fun row => ?_
  refine Keeps.ite ?_ (Keeps.pure _)
  refine Keeps.bind (Keeps.gets _) fun enabled => ?_
  refine Keeps.bind ?_ fun parsed => Keeps.bind (saveGroup_keeps h _) fun _ => Keeps.pure _
  refine Keeps.ite (Keeps.foldEach (fun parsed keyPath _ => ?_) _) (Keeps.pure _)
  exact cloneKey_keeps h.vault row.id parsed keyPath

theorem cloneMissingGroups_keeps (draftId : ℕ) (previousGroups : List ConfigGroup) :
    Keeps I (cloneMissingGroups draftId previousGroups) := by
  refine Keeps.bind (Keeps.gets _) fun names => Keeps.forEach fun group _ => ?_
  refine Keeps.ite (Keeps.pure _) ?_
  exact Keeps.bind (cloneGroupToRevision_keeps h group draftId _) fun _ => Keeps.pure _

theorem draftGroupFor_keeps (draftId : ℕ) (groupName : String) (m : MergedGroup) :
    Keeps I (draftGroupFor draftId groupName m) := by
  refine Keeps.bind (Keeps.gets _) fun found => ?_
  cases found with
  | none => exact Keeps.bind (Keeps.gets _) fun _ => insertGroup_keeps h _
  | some draftGroup =>
      refine Keeps.bind (deleteGroupVaultSecrets_keeps h.vault draftGroup) fun _ => ?_
      exact Keeps.bind (saveGroup_keeps h _) fun _ => Keeps.pure _

theorem writeMergedGroup_keeps (draftId : ℕ) (entry : String × MergedGroup) :
    Keeps I (writeMergedGroup draftId entry) := by
  refine Keeps.bind (draftGroupFor_keeps h draftId entry.1 entry.2) fun draftGroup => ?_
  refine Keeps.bind (Keeps.gets _) fun enabled => ?_
  refine Keeps.bind ?_ fun _ => saveGroup_keeps h _
  refine Keeps.ite (Keeps.foldEach (fun mergedObj keyPath _ => ?_) _) (Keeps.pure _)
  exact storeMergedKey_keeps h.vault draftGroup.id mergedObj keyPath

theorem populateDraftFromConfigMaps_keeps (peers : Peers) (draftId : ℕ) (deviceId : String)
    (known : Option (List ℕ)) :
    Keeps I (populateDraftFromConfigMaps peers draftId deviceId known) := by
  refine Keeps.bind (Keeps.gets _) fun activeRevisions => ?_
  refine Keeps.bind (mergeConfigMaps_keeps h.requests activeRevisions) fun merged => ?_
  exact Keeps.forEach fun entry _ => writeMergedGroup_keeps h draftId entry

theorem saveLoaded_keeps (group : ConfigGroup) (stored : Bool) :
    Keeps I (saveLoaded group stored) :=
  Keeps.ite (Keeps.bind (saveGroup_keeps h group) fun _ => Keeps.pure _) (insertGroup_keeps h group)

theorem editDraftGroup_keeps (draftId : ℕ) (dto : UpsertConfigGroupDto) :
    Keeps I (editDraftGroup draftId dto) := by
  have hload : Keeps I (loadGroup draftId dto.name) := by
    refine Keeps.bind (Keeps.gets _) fun found => ?_
    cases found with
    | none => exact Keeps.bind (Keeps.gets _) fun _ => Keeps.pure _
    | some group => exact Keeps.pure _
  refine Keeps.bind hload fun loaded => ?_
  cases dto.yamlContent with
  | none => exact Keeps.bind (saveLoaded_keeps h _ _) fun _ => Keeps.ofExcept _
  | some text =>
      refine Keeps.bind (Keeps.gets _) fun enabled => Keeps.ite ?_ ?_
      · refine Keeps.bind (Keeps.ite (Keeps.pure _) (insertGroup_keeps h _)) fun row => ?_
        refine Keeps.bind (Keeps.foldEach (fun parsed keyPath _ => ?_) _) fun parsed => ?_
        · exact storeKey_keeps h.vault row.id parsed keyPath
        · exact Keeps.bind (saveGroup_keeps h _) fun _ => Keeps.ofExcept _
      · exact Keeps.bind (saveLoaded_keeps h _ _) fun _ => Keeps.ofExcept _

theorem deleteDraftGroup_keeps (draftId : ℕ) (groupName : String) :
    Keeps I (deleteDraftGroup draftId groupName) := by
  refine Keeps.bind (Keeps.gets _) fun found => ?_
  cases found with
  | none => exact Keeps.throw _
  | some group =>
      refine Keeps.bind (deleteGroupVaultSecrets_keeps h.vault group) fun _ => ?_
      refine Keeps.bind ?_ fun _ => Keeps.pure _
      exact fun db hdb => h.groups db _ hdb

theorem copySourceGroups_keeps (projectId draftId : ℕ) :
    Keeps I (copySourceGroups projectId draftId) := by
  refine Keeps.bind (Keeps.gets _) fun activeSource => ?_
  refine Keeps.bind (Keeps.gets _) fun archivedSource => ?_
  refine Keeps.bind (Keeps.gets _) fun sourceGroups => Keeps.forEach fun g _ => ?_
  exact Keeps.bind (cloneGroupToRevision_keeps h g draftId g.position) fun _ => Keeps.pure _

/-- The default groups of a draft that has none. -/
theorem insertDefaultGroups_keeps (draftId : ℕ) (entries : List (String × ℕ)) :
    Keeps I (Prog.forEach (fun entry => do
      let _ ← ConfigRepo.insertGroup (newGroup draftId entry.1 entry.2)
      pure ()) entries) :=
  Keeps.forEach fun _ _ => Keeps.bind (insertGroup_keeps h _) fun _ => Keeps.pure _

end GroupWrites

/-! ### Delivery writes -/

theorem collectGroups_keeps (hv : VaultRequests I) (groups : List ConfigGroup)
    (start : List (String × Object)) : Keeps I (collectGroups groups start) := by
  refine Keeps.foldEach (fun acc group _ => ?_) _
  refine Keeps.ite (Keeps.pure _) ?_
  exact Keeps.bind (resolveGroupYaml_keeps hv group []) fun _ => Keeps.pure _

theorem collectDeviceGroups_keeps (hv : VaultRequests I) (groups : List ConfigGroup) :
    Keeps I (collectDeviceGroups groups) := by
  refine Keeps.foldEach (fun acc group _ => ?_) _
  refine Keeps.ite (Keeps.pure _) ?_
  exact Keeps.bind (resolveGroupYaml_keeps hv group []) fun _ => Keeps.pure _

theorem collectConfigMaps_keeps (hv : VaultRequests I) (revisions : List ConfigRevision) :
    Keeps I (collectConfigMaps revisions) := by
  refine Keeps.foldEach (fun acc rev _ => ?_) _
  refine Keeps.bind (Keeps.gets _) fun groups => ?_
  refine Keeps.bind (collectGlobals_keeps hv groups) fun globals => ?_
  exact Keeps.bind (collectGroups_keeps hv groups acc.1) fun _ => Keeps.pure _

/-- The payload of a device is read, and Vault asked for its secrets. -/
theorem buildDeviceConfigPayload_keeps (hv : VaultRequests I) (peers : Peers) (deviceId : String) :
    Keeps I (buildDeviceConfigPayload peers deviceId) := by
  refine Keeps.bind (Keeps.gets _) fun revisions => ?_
  refine Keeps.bind (collectConfigMaps_keeps hv revisions) fun maps => ?_
  refine Keeps.bind (Keeps.gets _) fun activeRevision => ?_
  refine Keeps.bind (Keeps.gets _) fun deviceRows => ?_
  refine Keeps.bind (collectGlobals_keeps hv deviceRows) fun globals => ?_
  exact Keeps.bind (collectDeviceGroups_keeps hv deviceRows) fun _ => Keeps.pure _

section DeliveryWrites

variable {key : Option String} (h : DeliveryWrites key I)
include h

theorem updateConfigProjectRelease_keeps (peers : Peers) (projectId : ℕ) (semVer : String) :
    Keeps I (updateConfigProjectRelease peers projectId semVer) := by
  refine Keeps.bind (Keeps.gets _) fun oldRelease => ?_
  refine Keeps.bind (Keeps.gets _) fun pushedDeviceIds => ?_
  refine Keeps.bind ?_ fun _ => Keeps.bind ?_ fun newRelease => ?_
  · cases oldRelease with
    | none => exact Keeps.pure _
    | some old =>
        intro db hdb
        have hdel := h.releases db
          (Rows.deleteWhere (fun r => r.catalogId == old.catalogId) db.releases) hdb
        exact h.offerings _ (Rows.deleteWhere (fun o => o.releaseCatalogId == old.catalogId)
          db.offerings) hdel
  · intro db hdb
    simp only [insertConfigRelease]
    split
    · exact h.releases db _ hdb
    · exact hdb
  · exact fun db hdb => h.offerings db _ hdb

theorem assembleAndCacheDeviceConfig_keeps (peers : Peers) (deviceId semVer : String)
    (hkey : key = some (versionedObjectKey deviceId semVer)) :
    Keeps I (assembleAndCacheDeviceConfig peers deviceId semVer) := by
  refine Keeps.bind (buildDeviceConfigPayload_keeps h.requests peers deviceId) fun payload => ?_
  exact Keeps.when fun db hdb => h.bucket db _ payload hkey hdb

theorem publishToDevice_keeps (peers : Peers) (project : Project) (semVer : String)
    (hkey : key = (deviceOfName project.name).map (versionedObjectKey · semVer)) :
    Keeps I (publishToDevice peers project semVer) := by
  unfold publishToDevice
  cases hd : deviceOfName project.name with
  | none => exact Keeps.pure _
  | some deviceId =>
      refine Keeps.ite (Keeps.bind (updateConfigProjectRelease_keeps h peers _ _) fun _ => ?_)
        (Keeps.pure _)
      exact assembleAndCacheDeviceConfig_keeps h peers deviceId semVer (by rw [hkey, hd]; rfl)

end DeliveryWrites

/-! ### All writes but those to associations -/

theorem updateRevisions_keeps (h : ConfigWrites I) (p : ConfigRevision → Bool)
    (f : ConfigRevision → ConfigRevision) : Keeps I (ConfigRepo.updateRevisions p f) :=
  fun db hdb => h.revisions db _ hdb

theorem removeRevision_keeps (h : ConfigWrites I) (id : ℕ) :
    Keeps I (ConfigRepo.removeRevision id) := by
  intro db hdb
  have hrevisions := h.revisions db (Rows.deleteWhere (fun r => r.id == id) db.revisions) hdb
  exact h.groups _ (Rows.deleteWhere (fun g => g.revisionId == id) db.groups) hrevisions

theorem insertDraft_keeps (h : ConfigWrites I) (projectId revisionNumber : ℕ) :
    Keeps I (ConfigRepo.insertDraft projectId revisionNumber) :=
  fun db hdb => h.revisions _ _ (h.nextId db hdb)

theorem getOrCreateDraftRevision_keeps (h : ConfigWrites I) (projectId : ℕ) :
    Keeps I (getOrCreateDraftRevision projectId) := by
  refine Keeps.bind (Keeps.gets _) fun found => ?_
  cases found with
  | some existing => exact Keeps.pure _
  | none => exact Keeps.bind (Keeps.gets _) fun _ => insertDraft_keeps h _ _

theorem publishDraft_keeps (h : ConfigWrites I) (peers : Peers) (draft : ConfigRevision)
    (semVer : String) : Keeps I (publishDraft peers draft semVer) := by
  refine Keeps.bind (updateRevisions_keeps h _ _) fun _ => ?_
  exact Keeps.bind (insertDraft_keeps h _ _) fun _ => Keeps.pure _

theorem upsertGroup_keeps (h : ConfigWrites I) (peers : Peers) (dto : UpsertConfigGroupDto) :
    Keeps I (upsertGroup peers dto) := by
  refine Keeps.bind (requireProject_keeps peers _ _) fun project => ?_
  refine Keeps.bind (getOrCreateDraftRevision_keeps h _) fun draft => ?_
  exact editDraftGroup_keeps h.toGroupWrites draft.id dto

theorem deleteGroup_keeps (h : ConfigWrites I) (peers : Peers) (dto : DeleteConfigGroupDto) :
    Keeps I (deleteGroup peers dto) := by
  refine Keeps.bind (requireProject_keeps peers _ _) fun project => ?_
  refine Keeps.bind (getOrCreateDraftRevision_keeps h _) fun draft => ?_
  exact deleteDraftGroup_keeps h.toGroupWrites draft.id dto.groupName

theorem createDraftRevision_keeps (h : ConfigWrites I) (peers : Peers) (dto : ProjectIdentifierDto) :
    Keeps I (createDraftRevision peers dto) := by
  refine Keeps.bind (requireProject_keeps peers _ _) fun project => ?_
  refine Keeps.bind (Keeps.gets _) fun existing => Keeps.bind (Keeps.gets _) fun max => ?_
  cases existing with
  | some _ => exact Keeps.throw _
  | none =>
      refine Keeps.bind (insertDraft_keeps h _ _) fun draft => ?_
      exact Keeps.bind (copySourceGroups_keeps h.toGroupWrites _ _) fun _ => Keeps.ofExcept _

theorem deleteDraftRevision_keeps (h : ConfigWrites I) (peers : Peers) (dto : ProjectIdentifierDto) :
    Keeps I (deleteDraftRevision peers dto) := by
  refine Keeps.bind (requireProject_keeps peers _ _) fun project => ?_
  refine Keeps.bind (Keeps.gets _) fun found => ?_
  cases found with
  | none => exact Keeps.throw _
  | some draft =>
      refine Keeps.bind (Keeps.gets _) fun enabled => Keeps.bind (Keeps.when ?_) fun _ => ?_
      · exact Keeps.forEach fun g _ => deleteGroupVaultSecrets_keeps h.vault g
      · exact Keeps.bind (removeRevision_keeps h _) fun _ => Keeps.pure _

theorem applyRevision_keeps (h : ConfigWrites I) (peers : Peers) (dto : ApplyConfigRevisionDto) :
    Keeps I (applyRevision peers dto) := by
  refine Keeps.bind (requireProject_keeps peers _ _) fun project => ?_
  refine Keeps.bind (Keeps.gets _) fun draft => Keeps.bind (Keeps.gets _) fun previous => ?_
  cases draft with
  | none => exact Keeps.throw _
  | some draft =>
      refine Keeps.bind (updateRevisions_keeps h _ _) fun _ => ?_
      refine Keeps.bind (updateRevisions_keeps h _ _) fun _ => ?_
      exact Keeps.bind (publishToDevice_keeps (h.delivery _) peers project _ rfl)
        fun _ => Keeps.ofExcept _

theorem provisionProjectContent_keeps (h : ConfigWrites I) (peers : Peers) (dto : ProvisionDto) :
    Keeps I (provisionProjectContent peers dto) := by
  refine Keeps.bind ?_ fun _ => Keeps.bind ?_ fun draft => ?_
  · refine Keeps.bind (getOrCreateDraftRevision_keeps h _) fun draft => ?_
    refine Keeps.bind (Keeps.gets _) fun count => Keeps.when ?_
    exact insertDefaultGroups_keeps h.toGroupWrites draft.id _
  · refine Keeps.bind (Keeps.gets _) fun found => ?_
    cases found with
    | none => exact Keeps.pure _
    | some draft =>
        exact Keeps.bind (populateDraftFromConfigMaps_keeps h.toGroupWrites peers _ _ _)
          fun _ => Keeps.pure _
  · cases draft with
    | none => exact Keeps.pure _
    | some draft =>
        refine Keeps.bind (publishDraft_keeps h peers draft _) fun _ => ?_
        refine Keeps.bind (updateConfigProjectRelease_keeps (h.delivery none) peers _ _) fun _ => ?_
        exact Keeps.tryCatch (assembleAndCacheDeviceConfig_keeps (h.delivery _) peers _ _ rfl)
          fun _ => Keeps.pure _

theorem refreshConfigProjectRevision_keeps (h : ConfigWrites I) (peers : Peers) (projectId : ℕ)
    (deviceId : String) : Keeps I (refreshConfigProjectRevision peers projectId deviceId) := by
  refine Keeps.bind ?_ fun prepared => Keeps.bind (Keeps.gets _) fun newGroups => ?_
  · refine Keeps.bind (getOrCreateDraftRevision_keeps h _) fun draft => ?_
    refine Keeps.bind (Keeps.gets _) fun previous => ?_
    refine Keeps.bind (populateDraftFromConfigMaps_keeps h.toGroupWrites peers _ _ _) fun _ => ?_
    exact Keeps.bind (cloneMissingGroups_keeps h.toGroupWrites _ _) fun _ => Keeps.pure _
  · refine Keeps.bind (updateRevisions_keeps h _ _) fun _ => ?_
    refine Keeps.bind (publishDraft_keeps h peers _ _) fun _ => ?_
    refine Keeps.bind (updateConfigProjectRelease_keeps (h.delivery none) peers _ _) fun _ => ?_
    exact assembleAndCacheDeviceConfig_keeps (h.delivery _) peers _ _ rfl

/-! ### Sources -/

/-- The revision that a new draft is copied from is there, and no draft. -/
theorem copySource_published {db : ConfigDb} {projectId : ℕ} {source : ConfigRevision}
    (hsource : (db.findRevision projectId .active).or (db.findLastArchived projectId) = some source) :
    source ∈ db.revisions ∧ source.status ≠ .draft := by
  cases hactive : db.findRevision projectId .active with
  | some r =>
      rw [hactive] at hsource
      obtain rfl := Option.some.inj hsource
      have hp := List.find?_some hactive
      simp only [Bool.and_eq_true, beq_iff_eq] at hp
      exact ⟨List.mem_of_find?_eq_some hactive, by rw [hp.2]; decide⟩
  | none =>
      rw [hactive] at hsource
      have hmem := List.mem_of_mem_head? (Option.mem_def.mpr hsource)
      rw [List.mem_insertionSort] at hmem
      obtain ⟨hmem, hp⟩ := List.mem_filter.mp hmem
      simp only [Bool.and_eq_true, beq_iff_eq] at hp
      exact ⟨hmem, by rw [hp.2]; decide⟩

/-! ### Associations -/

/-- What an insert of an association keeps, the request for one keeps. -/
theorem addConfigMapAssociation_keeps
    (hinsert : ∀ a : ConfigMapAssociation, a.configProjectId = none → Keeps I (ConfigRepo.insertAssoc a))
    (peers : Peers) (dto : AddConfigMapAssociationDto) : Keeps I (addConfigMapAssociation peers dto) := by
  have htype : ∀ p t, Keeps I (associateDeviceType p t) := by
    intro p t
    refine Keeps.bind (Keeps.gets _) fun found => ?_
    cases found with
    | none => exact Keeps.bind (hinsert _ rfl) fun _ => Keeps.pure _
    | some existing => exact Keeps.pure _
  have hdevice : ∀ p d, Keeps I (associateDevice p d) := by
    intro p d
    refine Keeps.bind (Keeps.gets _) fun found => ?_
    cases found with
    | none => exact Keeps.bind (hinsert _ rfl) fun _ => Keeps.pure _
    | some existing => exact Keeps.pure _
  unfold addConfigMapAssociation
  cases dto.configMapProjectIdentifier with
  | none => exact Keeps.throw _
  | some identifier =>
      refine Keeps.ite (Keeps.throw _) ?_
      refine Keeps.bind (requireProject_keeps peers identifier _) fun project => ?_
      refine Keeps.bind ?_ fun forType => Keeps.foldEach (fun created deviceId _ => ?_) _
      · cases dto.deviceTypeId with
        | none => exact Keeps.pure _
        | some t => exact Keeps.ite (Keeps.bind (htype _ _) fun _ => Keeps.pure _) (Keeps.throw _)
      · exact Keeps.bind (hdevice _ _) fun _ => Keeps.pure _

theorem removeConfigMapAssociation_keeps (hremove : ∀ id, Keeps I (ConfigRepo.removeAssoc id))
    (id : ℕ) : Keeps I (removeConfigMapAssociation id) := by
  refine Keeps.bind (Keeps.gets _) fun found => ?_
  cases found with
  | none => exact Keeps.throw _
  | some assoc => exact Keeps.bind (hremove _) fun _ => Keeps.pure _

end ConfigService

/-- **Frame.** A call on no association keeps every assertion about the associations and
the device tables. -/
theorem ConfigEvent.step_keeps {I : ConfigDb → Prop} (h : ConfigWrites I) {db : ConfigDb}
    (e : ConfigEvent) (hadd : ∀ dto, e.call ≠ .addConfigMapAssociation dto)
    (hremove : ∀ id, e.call ≠ .removeConfigMapAssociation id) (hdb : I db) : I (step db e) := by
  obtain ⟨peers, call⟩ := e
  cases call with
  | provisionProjectContent dto => exact ConfigService.provisionProjectContent_keeps h peers dto db hdb
  | upsertGroup dto => exact ConfigService.upsertGroup_keeps h peers dto db hdb
  | deleteGroup dto => exact ConfigService.deleteGroup_keeps h peers dto db hdb
  | createDraftRevision dto => exact ConfigService.createDraftRevision_keeps h peers dto db hdb
  | deleteDraftRevision dto => exact ConfigService.deleteDraftRevision_keeps h peers dto db hdb
  | applyRevision dto => exact ConfigService.applyRevision_keeps h peers dto db hdb
  | refreshConfigProjectRevision p deviceId =>
      exact ConfigService.refreshConfigProjectRevision_keeps h peers p deviceId db hdb
  | addConfigMapAssociation dto => exact absurd rfl (hadd dto)
  | removeConfigMapAssociation id => exact absurd rfl (hremove id)

end UploadService
