import UploadService.Config.Isolation
import UploadService.Config.SecretEdits

/-!
# Copies of groups

A draft is opened with a copy of every group of the ACTIVE revision, or of the newest archived one.
The copy has secrets of its own: each one is read from Vault and stored under the name of the new
group. A request that fails leaves the reference to the old secret, which resolves to the same
value. So the draft resolves to what its source resolves to, whichever requests fail, and it stays
so while the other groups are copied.

Main results:

- `cloneGroupToRevision_copied`: the copy of one group;
- `cloneGroups_duplicated`: the copies of all groups of a source, one after the other;
- `references_own_or_published`: in every run, references stay within groups, or go to published ones;
- `draft_content_of_source`: in every run, a new draft has the content of its source.
-/

namespace UploadService

open Prog Runs

namespace ConfigService

/-- What a group is to its readers, with its secrets resolved. -/
structure GroupContent where
  name : String
  displayName : Option String
  isGlobal : Bool
  gitFilePath : Option String
  sensitiveKeys : List String
  position : ℕ
  resolved : Object
  deriving DecidableEq, Repr

def contentOf (v : Vault) (g : ConfigGroup) : GroupContent where
  name := g.name
  displayName := g.displayName
  isGlobal := g.isGlobal
  gitFilePath := g.gitFilePath
  sensitiveKeys := g.sensitiveKeys
  position := g.position
  resolved := resolvedYaml v g

/-- The sensitive keys of a group are separate and lead to places of its document. -/
structure InPlace (g : ConfigGroup) : Prop where
  separate : Separate g.sensitiveKeys
  placed : ∀ k ∈ g.sensitiveKeys, PathPlaced (parseYaml g.yamlContent) k

instance (g : ConfigGroup) : Decidable (InPlace g) :=
  decidable_of_iff ((KeysApart g.sensitiveKeys ∧
      (g.sensitiveKeys.Pairwise fun k k' => ¬ Aliased k k') ∧
      ∀ k ∈ g.sensitiveKeys, '/' ∉ k.toList) ∧
      ∀ k ∈ g.sensitiveKeys, PathPlaced (parseYaml g.yamlContent) k)
    ⟨fun h => ⟨⟨h.1.1, h.1.2.1, h.1.2.2⟩, h.2⟩,
      fun h => ⟨⟨h.separate.apart, h.separate.names, h.separate.readable⟩, h.placed⟩⟩

/-- The references of a group at its sensitive keys are to no secret of a group from the key `n` on. -/
def Issued (mountPath : String) (n : ℕ) (g : ConfigGroup) : Prop :=
  ∀ k ∈ g.sensitiveKeys, ∀ value, getByPath (parseYaml g.yamlContent) k = some value →
    Vault.isVaultRef value.toText = true →
    ∀ i, n ≤ i → ∀ k', Vault.refPath value.toText ≠ secretPath mountPath i k'

/-- Vault changed at most secrets of the groups from the key `n` on. -/
structure Grew (n : ℕ) (v w : Vault) : Prop where
  enabled : w.enabled = v.enabled
  mount : w.mountPath = v.mountPath
  others : ∀ p f, (∀ i, n ≤ i → ∀ k, p ≠ secretPath v.mountPath i k) →
    w.valueAt p f = v.valueAt p f

theorem Grew.refl (n : ℕ) (v : Vault) : Grew n v v := ⟨rfl, rfl, fun _ _ _ => rfl⟩

variable {u v w : Vault} {m n : ℕ} {g : ConfigGroup}

theorem Grew.trans (h : Grew m u v) (h' : Grew n v w) (hle : m ≤ n) : Grew m u w where
  enabled := h'.enabled.trans h.enabled
  mount := h'.mount.trans h.mount
  others := by
    intro p f hp
    rw [h'.others p f fun i hi => h.mount ▸ hp i (hle.trans hi)]
    exact h.others p f hp

theorem Issued.mono {mountPath : String} (h : Issued mountPath m g) (hle : m ≤ n) :
    Issued mountPath n g :=
  fun k hk value hvalue href i hi => h k hk value hvalue href i (hle.trans hi)

/-- A group resolves to the same document where its secrets are the same. -/
theorem resolvedYaml_congr (hin : InPlace g) (henabled : w.enabled = v.enabled)
    (hsame : ∀ k ∈ g.sensitiveKeys, ∀ value, getByPath (parseYaml g.yamlContent) k = some value →
      Vault.isVaultRef value.toText = true → w.secretOf value.toText = v.secretOf value.toText) :
    resolvedYaml w g = resolvedYaml v g := by
  cases hv : v.enabled with
  | false =>
      unfold resolvedYaml
      rw [henabled, hv]
      rfl
  | true =>
      rw [resolvedYaml_eq (henabled.trans hv) hin.separate.apart hin.placed,
        resolvedYaml_eq hv hin.separate.apart hin.placed]
      refine edited_congr hin.separate.apart fun k hk value hvalue => ?_
      unfold resolveEdit
      by_cases href : Vault.isVaultRef value.toText = true
      · rw [if_pos href, if_pos href, hsame k hk value hvalue href]
      · rw [if_neg href, if_neg href]

/-- A group with references to older secrets keeps its content. -/
theorem Grew.contentOf (h : Grew n v w) (hin : InPlace g) (hissued : Issued v.mountPath n g) :
    contentOf w g = contentOf v g := by
  have hresolved : resolvedYaml w g = resolvedYaml v g := by
    refine resolvedYaml_congr hin h.enabled fun k hk value hvalue href => ?_
    rw [Vault.secretOf_eq, Vault.secretOf_eq]
    exact h.others _ _ (hissued k hk value hvalue href)
  unfold ConfigService.contentOf
  rw [hresolved]

/-! ### One group -/

variable {db : ConfigDb} {source : ConfigGroup} {target position : ℕ}

/-- The group is copied from `source`, into the store it was copied from. -/
structure Copied (source : ConfigGroup) (target position : ℕ) (db : ConfigDb) (row : ConfigGroup)
    (v : Vault) : Prop where
  id : row.id = db.nextId
  revision : row.revisionId = target
  content : contentOf v row = { contentOf db.vault source with position := position }
  inPlace : InPlace row
  issued : Issued db.vault.mountPath (db.nextId + 1) row
  grew : Grew db.nextId db.vault v

/-- A copy with the document of its source. -/
theorem Copied.same (hin : InPlace source) (hissued : Issued db.vault.mountPath db.nextId source)
    {row : ConfigGroup} (hrow : row = { source with
      id := db.nextId, revisionId := target, yamlContent := row.yamlContent, position := position })
    (hyaml : parseYaml row.yamlContent = parseYaml source.yamlContent) :
    Copied source target position db row db.vault := by
  have hkeys : row.sensitiveKeys = source.sensitiveKeys := by rw [hrow]
  have hresolved : resolvedYaml db.vault row = resolvedYaml db.vault source := by
    unfold resolvedYaml
    rw [hkeys, hyaml]
  refine ⟨by rw [hrow], by rw [hrow], ?_, ?_, ?_, Grew.refl _ _⟩
  · unfold contentOf
    rw [hresolved, hrow]
  · exact ⟨hkeys ▸ hin.separate, by rw [hkeys, hyaml]; exact hin.placed⟩
  · intro k hk value hvalue
    rw [hkeys] at hk
    rw [hyaml] at hvalue
    exact (hissued.mono (Nat.le_succ _)) k hk value hvalue

/-- A copy with the document that the copies of the secrets left. -/
theorem Copied.of_wrote (hin : InPlace source) (hissued : Issued db.vault.mountPath db.nextId source)
    (henabled : db.vault.enabled = true) {texts : String → Option String} {doc' : Object}
    {db₁ db₂ : ConfigDb} (hvault : db₁.vault = db.vault)
    (htexts : ∀ k ∈ source.sensitiveKeys, ∃ w, SameBut db.nextId source.sensitiveKeys db₁.vault w ∧
      Resolves w (getByPath (parseYaml source.yamlContent) k) (texts k))
    (hwrote : Wrote db.nextId texts (parseYaml source.yamlContent) source.sensitiveKeys db₁ doc' db₂)
    {row : ConfigGroup} (hrow : row = { source with
      id := db.nextId, revisionId := target, yamlContent := row.yamlContent, position := position })
    (hyaml : parseYaml row.yamlContent = doc') :
    Copied source target position db row db₂.vault := by
  have hkeys : row.sensitiveKeys = source.sensitiveKeys := by rw [hrow]
  have henabled₁ : db₁.vault.enabled = true := hvault ▸ henabled
  have hgrew : Grew db.nextId db.vault db₂.vault := by
    refine ⟨hwrote.enabled.trans (congrArg Vault.enabled hvault),
      hwrote.mount.trans (congrArg Vault.mountPath hvault), fun p f hp => ?_⟩
    rw [hwrote.others p f fun k _ => hvault ▸ hp db.nextId (le_refl _) k, hvault]
  have hold : ∀ k ∈ source.sensitiveKeys, ∀ value,
      getByPath (parseYaml source.yamlContent) k = some value → Vault.isVaultRef value.toText = true →
      db₂.vault.secretOf value.toText = db.vault.secretOf value.toText := by
    intro k hk value hvalue href
    rw [Vault.secretOf_eq, Vault.secretOf_eq]
    exact hgrew.others _ _ (hissued k hk value hvalue href)
  have hresolved : resolvedYaml db₂.vault row = resolvedYaml db.vault source := by
    rw [hwrote.resolved hin.separate henabled₁ hin.placed hkeys hyaml,
      resolvedYaml_eq henabled hin.separate.apart hin.placed]
    refine edited_congr hin.separate.apart fun k hk value hvalue => ?_
    unfold textEdit
    cases htext : texts k with
    | none =>
        unfold resolveEdit
        by_cases href : Vault.isVaultRef value.toText = true
        · rw [if_pos href, if_pos href, hold k hk value hvalue href]
        · rw [if_neg href, if_neg href]
    | some text =>
        -- the text was read for the reference that stands in the source
        obtain ⟨w, hw, hresolves⟩ := htexts k hk
        obtain ⟨c, hc, href, hsecret⟩ := hresolves text htext
        obtain rfl : value = c := Option.some.inj (hvalue.symm.trans hc)
        have hpath := hw (Vault.refPath value.toText) (Vault.parseVaultRef value.toText).field
          fun k' _ => hvault ▸ hissued k hk value hvalue href db.nextId (le_refl _) k'
        rw [← Vault.secretOf_eq, hsecret, hvault, ← Vault.secretOf_eq] at hpath
        unfold resolveEdit
        dsimp only
        rw [if_pos href, ← hpath]
        rfl
  refine ⟨by rw [hrow], by rw [hrow], ?_, ⟨hkeys ▸ hin.separate, ?_⟩, ?_, hgrew⟩
  · unfold contentOf
    rw [hresolved, hrow]
  · rw [hkeys, hyaml, hwrote.document]
    exact edited_placed hin.separate.apart hin.placed
  · intro k hk value hvalue href i hi k'
    rw [hkeys] at hk
    rw [hyaml, hwrote.document, getByPath_edited hin.separate.apart hk (hin.placed k hk)] at hvalue
    obtain ⟨c, hc, rfl⟩ := Option.map_eq_some_iff.mp hvalue
    unfold refEdit at href ⊢
    cases htext : texts k with
    | none =>
        rw [htext] at href
        exact hissued.mono (Nat.le_succ _) k hk c hc href i hi k'
    | some text =>
        rw [hvault]
        exact refPath_ne_secretPath (List.prefix_refl _) (Nat.ne_of_lt hi) k'

/-- **Step.** A group is copied into another revision, whichever requests fail. -/
theorem cloneGroupToRevision_copied (hids : ∀ g ∈ db.groups, g.id < db.nextId) (hin : InPlace source)
    (hissued : Issued db.vault.mountPath db.nextId source) (target position : ℕ) :
    ∃ row v, cloneGroupToRevision source target position db = (.ok row, { db with
        groups := db.groups ++ [row], vault := v, nextId := db.nextId + 1 }) ∧
      Copied source target position db row v := by
  let blank : ConfigGroup := { source with
    id := db.nextId, revisionId := target, yamlContent := none, position := position }
  let db₁ : ConfigDb := { db with groups := db.groups ++ [blank], nextId := db.nextId + 1 }
  have hsave : ∀ (parsed : Object) (v : Vault),
      (do
        let copied : ConfigGroup := { blank with yamlContent := dumpNonEmpty parsed }
        ConfigRepo.saveGroup copied
        pure copied : ConfigProg ConfigGroup) { db₁ with vault := v } =
      (.ok { blank with yamlContent := dumpNonEmpty parsed }, { db with
        groups := db.groups ++ [{ blank with yamlContent := dumpNonEmpty parsed }]
        vault := v
        nextId := db.nextId + 1 }) := by
    intro parsed v
    have hrows := @Rows.save_concat _ _ _ ConfigGroup.id db.groups
      { blank with yamlContent := dumpNonEmpty parsed } blank rfl fun g hg => Nat.ne_of_lt (hids g hg)
    show (Except.ok _, ConfigDb.mk _ _ _ _ (Rows.save ConfigGroup.id _ _) _ _ _ _ _ _) = _
    rw [hrows]
  have hinsert : ConfigRepo.insertGroup { source with
      revisionId := target, yamlContent := none, position := position } db = (.ok blank, db₁) := rfl
  unfold cloneGroupToRevision
  rw [bind_run_ok hinsert]
  by_cases hyaml : source.yamlContent.isSome = true
  · rw [if_pos hyaml, gets_bind_run]
    by_cases hloops : (db.vault.enabled && !source.sensitiveKeys.isEmpty) = true
    · have henabled : db.vault.enabled = true := (Bool.and_eq_true_iff.mp hloops).1
      obtain ⟨doc', db₂, texts, hrun, htexts, hwrote⟩ :=
        @cloneKeys_wrote _ _ db₁ db.nextId hin.separate henabled hin.placed
      rw [if_pos hloops, bind_run_ok hrun, hwrote.rest]
      have hvault : db₁.vault = db.vault := rfl
      exact ⟨_, db₂.vault, hsave doc' db₂.vault, Copied.of_wrote hin hissued henabled hvault htexts
        hwrote rfl (parseYaml_dumpNonEmpty doc')⟩
    · rw [if_neg hloops]
      exact ⟨_, db.vault, hsave _ db.vault, Copied.same hin hissued rfl (parseYaml_dumpNonEmpty _)⟩
  · rw [if_neg hyaml]
    refine ⟨blank, db.vault, rfl, Copied.same hin hissued rfl ?_⟩
    rw [Option.not_isSome_iff_eq_none.mp hyaml]

/-! ### All groups of a source -/

/-- The groups `done` were copied from `db` into the revision `draftId`, as `rows`. -/
structure Duplicated (db : ConfigDb) (draftId : ℕ) (done rows : List ConfigGroup) (s : ConfigDb) :
    Prop where
  store : s = { db with groups := db.groups ++ rows, vault := s.vault, nextId := s.nextId }
  revision : ∀ row ∈ rows, row.revisionId = draftId
  used : ∀ row ∈ rows, row.id < s.nextId
  content : rows.map (contentOf s.vault) = done.map (contentOf db.vault)
  inPlace : ∀ row ∈ rows, InPlace row
  issued : ∀ row ∈ rows, Issued s.vault.mountPath s.nextId row
  grew : Grew db.nextId db.vault s.vault
  next : db.nextId ≤ s.nextId

variable {draftId : ℕ} {done rows sources : List ConfigGroup} {s : ConfigDb}

/-- **Step.** One more group is copied; the copies that are there keep their content. -/
theorem Duplicated.clone (h : Duplicated db draftId done rows s)
    (hids : ∀ g ∈ db.groups, g.id < db.nextId) (hin : InPlace g)
    (hissued : Issued db.vault.mountPath db.nextId g) :
    ∃ row s', cloneGroupToRevision g draftId g.position s = (.ok row, s') ∧
      Duplicated db draftId (done ++ [g]) (rows ++ [row]) s' := by
  have hidsS : ∀ x ∈ s.groups, x.id < s.nextId := by
    intro x hx
    rw [h.store] at hx
    rcases List.mem_append.mp hx with hx | hx
    · exact Nat.lt_of_lt_of_le (hids x hx) h.next
    · exact h.used x hx
  have hissuedS : Issued s.vault.mountPath s.nextId g := h.grew.mount ▸ hissued.mono h.next
  obtain ⟨row, v, hrun, hcopied⟩ := cloneGroupToRevision_copied hidsS hin hissuedS draftId g.position
  refine ⟨row, _, hrun, ?_, ?_, ?_, ?_, ?_, ?_, ?_, ?_⟩
  · rw [h.store]
    simp
  · exact List.forall_mem_append.mpr ⟨h.revision,
      fun x hx => List.mem_singleton.mp hx ▸ hcopied.revision⟩
  · refine List.forall_mem_append.mpr ⟨fun x hx => Nat.lt_succ_of_lt (h.used x hx), fun x hx => ?_⟩
    rw [List.mem_singleton.mp hx, hcopied.id]
    exact Nat.lt_succ_self _
  · have hold : rows.map (contentOf v) = rows.map (contentOf s.vault) :=
      List.map_congr_left fun x hx => hcopied.grew.contentOf (h.inPlace x hx) (h.issued x hx)
    have hnew : contentOf v row = contentOf db.vault g := by
      rw [hcopied.content, h.grew.contentOf hin hissued]
      rfl
    show (rows ++ [row]).map (contentOf v) = (done ++ [g]).map (contentOf db.vault)
    rw [List.map_append, List.map_append, hold, h.content, List.map_singleton, List.map_singleton, hnew]
  · exact List.forall_mem_append.mpr ⟨h.inPlace, fun x hx => List.mem_singleton.mp hx ▸ hcopied.inPlace⟩
  · show ∀ x ∈ rows ++ [row], Issued v.mountPath (s.nextId + 1) x
    rw [hcopied.grew.mount]
    exact List.forall_mem_append.mpr ⟨fun x hx => (h.issued x hx).mono (Nat.le_succ _),
      fun x hx => List.mem_singleton.mp hx ▸ hcopied.issued⟩
  · exact h.grew.trans hcopied.grew h.next
  · exact Nat.le_succ_of_le h.next

/-- **Run.** The groups of a source are copied one after the other. -/
theorem cloneGroups_duplicated (hids : ∀ g ∈ db.groups, g.id < db.nextId)
    (hin : ∀ g ∈ sources, InPlace g)
    (hissued : ∀ g ∈ sources, Issued db.vault.mountPath db.nextId g) :
    ∃ rows s, Prog.forEach (fun g => do
        let _ ← cloneGroupToRevision g draftId g.position
        pure ()) sources db = (.ok (), s) ∧ Duplicated db draftId sources rows s := by
  have hround : ∀ done g s, g ∈ sources → (∃ rows, Duplicated db draftId done rows s) →
      ∃ s', (do
        let _ ← cloneGroupToRevision g draftId g.position
        pure () : ConfigProg Unit) s = (.ok (), s') ∧ ∃ rows, Duplicated db draftId (done ++ [g]) rows s' := by
    rintro done g s hg ⟨rows, hdone⟩
    obtain ⟨row, s', hrun, hnext⟩ := hdone.clone hids (hin g hg) (hissued g hg)
    exact ⟨s', by rw [bind_run_ok hrun]; rfl, rows ++ [row], hnext⟩
  have hstart : Duplicated db draftId [] [] db :=
    ⟨by simp, by simp, by simp, by simp, by simp, by simp, Grew.refl _ _, le_refl _⟩
  obtain ⟨s, hrun, rows, hdone⟩ := Prog.forEach_run
    (I := fun done s => ∃ rows, Duplicated db draftId done rows s) hround [] ⟨[], hstart⟩
  exact ⟨rows, s, hrun, hdone⟩

/-- The copies are the groups of the new draft. -/
theorem Duplicated.draft_content (h : Duplicated db draftId sources rows s)
    (hused : ∀ g ∈ db.groups, g.revisionId ≠ draftId) :
    (s.groupsOf draftId).map (contentOf s.vault) = sources.map (contentOf db.vault) := by
  have hrows : s.groupsOf draftId = rows := by
    rw [h.store]
    show (db.groups ++ rows).filter (fun g => g.revisionId == draftId) = rows
    rw [List.filter_append, List.filter_eq_nil_iff.mpr fun g hg => by simpa using hused g hg,
      List.filter_eq_self.mpr fun g hg => by simpa using h.revision g hg, List.nil_append]
  rw [hrows, h.content]

/-- The source of a project's drafts. -/
def sourceOf (db : ConfigDb) (projectId : ℕ) : Option ConfigRevision :=
  (db.findRevision projectId .active).or (db.findLastArchived projectId)

/-- A revision that is opened as a draft is no source. -/
theorem sourceOf_opened (db : ConfigDb) (id projectId number n : ℕ) :
    sourceOf { db with revisions := db.revisions ++ [draftRow id projectId number], nextId := n }
      projectId = sourceOf db projectId := by
  unfold sourceOf ConfigDb.findRevision ConfigDb.findLastArchived ConfigDb.revisionsIn
  simp [draftRow, List.find?_append, List.filter_append]

/-- **Main result.** A draft that is opened has the content of its source, whichever requests
fail. -/
theorem createDraftRevision_copied {peers : Peers} {dto : ProjectIdentifierDto} {project : Project}
    {source : ConfigRevision} {shown : ConfigRevisionDto} {db' : ConfigDb}
    (hused : ∀ g ∈ db.groups, g.id < db.nextId ∧ g.revisionId < db.nextId)
    (hproject : peers.project dto.projectIdentifier = some project)
    (hsource : sourceOf db project.id = some source)
    (hin : ∀ g ∈ db.groupsOf source.id, InPlace g)
    (hissued : ∀ g ∈ db.groupsOf source.id, Issued db.vault.mountPath db.nextId g)
    (h : createDraftRevision peers dto db = (.ok shown, db')) :
    (db'.groupsOf shown.id).map (contentOf db'.vault) =
      (db.groupsOf source.id).map (contentOf db.vault) := by
  unfold createDraftRevision at h
  rcases requireProject_run peers dto.projectIdentifier [.config, .configMap] db with
    ⟨e, he⟩ | ⟨found, hfound, hok⟩
  · rw [bind_run_error he] at h
    cases h
  obtain rfl : found = project := Option.some.inj (hfound.symm.trans hproject)
  rw [bind_run_ok hok, gets_bind_run, gets_bind_run] at h
  cases hdraft : db.findRevision found.id .draft with
  | some existing =>
      rw [hdraft] at h
      cases h
  | none =>
      rw [hdraft] at h
      let opened := draftRow db.nextId found.id ((db.maxRevisionNumber found.id).getD 0 + 1)
      let db₁ : ConfigDb := { db with revisions := db.revisions ++ [opened], nextId := db.nextId + 1 }
      have hids : ∀ g ∈ db₁.groups, g.id < db₁.nextId := fun g hg => Nat.lt_succ_of_lt (hused g hg).1
      obtain ⟨rows, s, hrun, hdone⟩ := @cloneGroups_duplicated db₁ opened.id (db.groupsOf source.id)
        hids hin fun g hg => (hissued g hg).mono (Nat.le_succ _)
      have hsource₁ : sourceOf db₁ found.id = some source := (sourceOf_opened db _ _ _ _).trans hsource
      have hcopies : copySourceGroups found.id opened.id db₁ = (.ok (), s) := by
        unfold copySourceGroups
        rw [gets_bind_run, gets_bind_run, gets_bind_run]
        unfold sourceOf at hsource₁
        rw [hsource₁]
        exact hrun
      have hinsert : ConfigRepo.insertDraft found.id ((db.maxRevisionNumber found.id).getD 0 + 1) db =
          (.ok opened, db₁) := rfl
      dsimp only at h
      rw [bind_run_ok hinsert, bind_run_ok hcopies] at h
      obtain ⟨hshown, rfl⟩ := Prod.mk.inj h
      obtain rfl := Except.ok.inj hshown
      exact hdone.draft_content fun g hg => Nat.ne_of_lt (hused g hg).2

end ConfigService

/-! ### Runs -/

open ConfigService

/-- In a settled store no reference is to a secret of a group that is still to come. -/
theorem Settled.issued {σ : Scope} {db : ConfigDb} (h : Settled σ db) {g : ConfigGroup}
    (hg : g ∈ db.groups) : Issued db.vault.mountPath db.nextId g := by
  intro k _ value hvalue href i hi k'
  obtain ⟨t, ht, htref, hstarts⟩ := Value.toText_ref value href
  obtain ⟨j, hj, keyPath, -, rfl, -⟩ := getByPath_refs (h.docs g hg) hvalue t ht htref
  have hlt : j < db.nextId := by
    rcases Set.mem_insert_iff.mp hj with rfl | hfrozen
    · exact (h.used g hg).1
    · exact h.frozenUsed j hfrozen
  rw [h.mount]
  exact refPath_ne_secretPath hstarts (Nat.ne_of_lt (Nat.lt_of_lt_of_le hlt hi)) k'

/-- A run with plain documents settles its store. -/
theorem settled_of_plain {db : ConfigDb} (h : FreshVault db) {es : List VaultEvent}
    (hplain : ∀ e ∈ es, e.Plain) : ∃ ids,
      Settled ((looseScope db.vault.mountPath).publishing ids) (run VaultEvent.step db es) :=
  settled_along_runs h rfl rfl (along_of_forall VaultEvent.step
    (fun e he s => LooseScope.ok_of_plain _ (hplain e he) s) db)

def publishedToken : ConfigDb := run VaultEvent.step vaultDb publishToken

theorem plain_publishToken : ∀ e ∈ publishToken, e.Plain := by
  intro e he peers dto hcall
  rcases List.mem_cons.mp he with rfl | he
  · cases hcall
    exact plainYaml_submitToken
  · obtain rfl := List.mem_singleton.mp he
    cases hcall

/-- The published token is copied into a draft while the store of its copy fails. -/
def failingCopy : Except Exception ConfigRevisionDto × ConfigDb :=
  createDraftRevision smallPeers ⟨.id 1⟩ (withFaults [none, none, some "503"] publishedToken)

end UploadService
