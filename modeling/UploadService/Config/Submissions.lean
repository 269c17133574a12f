import UploadService.Config.DraftCopies
import UploadService.Config.Positions

/-!
# Submitted documents

A user submits the document of a group, with `***` where a sensitive value is to stay. The stored
values take the place of the masks, plain sensitive values go to Vault, and the response shows the
document masked again.

Main results:

- `editDraftGroup_saved`: the row that an edit of the draft saves;
- `upsert_resolves_submitted`: in every run, what is saved resolves to what was submitted, and the
  table holds references only;
- `shown_resubmitted`: in every run, what is shown of a draft can be submitted, and changes nothing.
-/

namespace UploadService

open Prog Value Runs ConfigEvent

namespace ConfigService

variable {db db' : ConfigDb} {d : ℕ} {dto : UpsertConfigGroupDto} {shown : ConfigGroupDto}
  {row g : ConfigGroup} {v : Vault} {stored doc parsed : Object} {text : YamlText} {keys : List String}

/-! ### Documents -/

/-- The masks of a submitted document stand where there are values. -/
def MasksStored (stored doc : Object) (keys : List String) : Prop :=
  ∀ k ∈ keys, getByPath doc k = some (.str "***") → present (getByPath stored k) = true

instance (stored doc : Object) (keys : List String) : Decidable (MasksStored stored doc keys) :=
  List.decidableBAll _ _

/-- What a submitted value resolves to, a mask as the value that is stored. -/
def takenEdit (v : Vault) (stored : Object) : String → Value → Option Value :=
  Parts.andThen (unmaskEdit stored) (submittedEdit v)

/-- No sensitive value of the group is a plain text. -/
def RefsOnly (g : ConfigGroup) : Prop :=
  ∀ k ∈ g.sensitiveKeys, (getByPath (parseYaml g.yamlContent) k).bind plainText = none

instance (g : ConfigGroup) : Decidable (RefsOnly g) := List.decidableBAll _ _

/-- A row as it is saved; with Vault its sensitive values are references. -/
structure Clean (enabled : Bool) (g : ConfigGroup) : Prop where
  inPlace : InPlace g
  yaml : g.yamlContent = dumpNonEmpty (parseYaml g.yamlContent)
  refs : enabled = true → RefsOnly g

theorem getByPath_empty (keyPath : String) : getByPath [] keyPath = none := by
  unfold getByPath
  cases hparts : pathParts keyPath with
  | nil => exact absurd hparts (pathParts_ne_nil keyPath)
  | cons key keys => exact getIn_none keys

/-- **Run.** The stored values take the place of the masks. -/
theorem unmaskedDoc_eq (hkeys : KeysApart g.sensitiveKeys)
    (hplaced : ∀ k ∈ g.sensitiveKeys, PathPlaced (parseYaml (some text)) k)
    (hmasked : MasksStored (parseYaml g.yamlContent) (parseYaml (some text)) g.sensitiveKeys) :
    unmaskedDoc g text =
      edited (unmaskEdit (parseYaml g.yamlContent)) (parseYaml (some text)) g.sensitiveKeys := by
  unfold unmaskedDoc
  split
  · exact unmaskKeys_eq hkeys hplaced hmasked
  · rename_i hnot
    refine (edited_left fun k hk value hvalue => ?_).symm
    -- a group without a document has no value for a mask
    unfold unmaskEdit
    rw [if_neg]
    rintro rfl
    have hpresent := hmasked k hk hvalue
    have hyaml : g.yamlContent.isSome ≠ true := by
      intro hsome
      have hempty : g.sensitiveKeys.isEmpty = false := by
        cases hlist : g.sensitiveKeys with
        | nil =>
            rw [hlist] at hk
            exact absurd hk List.not_mem_nil
        | cons k ks => rfl
      exact hnot (by rw [hempty, hsome]; rfl)
    rw [Option.not_isSome_iff_eq_none.mp hyaml] at hpresent
    rw [show parseYaml none = [] from rfl, getByPath_empty] at hpresent
    cases hpresent

/-! ### The row of an edit -/

/-- The row that an edit with sensitive keys `keys` saves, from the Vault `v`. The edit starts from
the document `stored` and submits `doc`. -/
structure Saved (stored doc : Object) (keys : List String) (v : Vault) (shown : ConfigGroupDto)
    (v' : Vault) (row : ConfigGroup) : Prop where
  masked : mapGroupToDto row = .ok shown
  sensitive : row.sensitiveKeys = keys
  clean : Clean true row
  resolved : resolvedYaml v' row = edited (takenEdit v' stored) doc keys
  others : ∀ p f, (∀ k ∈ keys, p ≠ secretPath v.mountPath row.id k) → v'.valueAt p f = v.valueAt p f
  tidy : Tidy (.map stored) → Tidy (.map doc) → Tidy (.map (parseYaml row.yamlContent))

/-- A document without sensitive keys. -/
theorem Saved.plain (hshown : mapGroupToDto row = .ok shown) (hkeys : row.sensitiveKeys = [])
    (hyaml : row.yamlContent = dumpNonEmpty doc) : Saved stored doc [] v shown v row := by
  have hdoc : parseYaml row.yamlContent = doc := by rw [hyaml, parseYaml_dumpNonEmpty]
  have hseparate : Separate ([] : List String) :=
    ⟨List.Pairwise.nil, List.Pairwise.nil, fun k hk => absurd hk List.not_mem_nil⟩
  have hnone : ∀ {P : String → Prop}, ∀ k ∈ row.sensitiveKeys, P k := by simp [hkeys]
  refine ⟨hshown, hkeys, ⟨⟨hkeys ▸ hseparate, hnone⟩, by rw [hdoc, hyaml], fun _ => hnone⟩, ?_,
    fun _ _ _ => rfl, fun _ h => hdoc.symm ▸ h⟩
  unfold resolvedYaml
  rw [hkeys, hdoc]
  simp [edited]

/-- No plain text is left where the plain texts were stored. -/
theorem refEdit_plainText {mountPath : String} {groupId : ℕ} {k : String} {c : Value}
    {texts : String → Option String} (htexts : texts k = plainText c) :
    plainText ((refEdit mountPath groupId texts k c).getD c) = none := by
  unfold refEdit
  rw [htexts]
  cases htext : plainText c with
  | none => exact htext
  | some text => exact plainText_of_ref (isVaultRef_secretRef mountPath groupId k)

/-- A document whose plain texts were stored. -/
theorem Saved.of_wrote {s s' : ConfigDb} (hkeys : Separate row.sensitiveKeys)
    (hplaced : ∀ k ∈ row.sensitiveKeys, PathPlaced doc k)
    (henabled : s.vault.enabled = true)
    (hwrote : Wrote row.id
      (fun k => (getByPath (edited (unmaskEdit stored) doc row.sensitiveKeys) k).bind plainText)
      (edited (unmaskEdit stored) doc row.sensitiveKeys) row.sensitiveKeys s parsed s')
    (hshown : mapGroupToDto row = .ok shown) (hyaml : row.yamlContent = dumpNonEmpty parsed) :
    Saved stored doc row.sensitiveKeys s.vault shown s'.vault row := by
  have hdoc : parseYaml row.yamlContent = parsed := by rw [hyaml, parseYaml_dumpNonEmpty]
  have hunmasked := edited_placed (f := unmaskEdit stored) hkeys.apart hplaced
  refine ⟨hshown, rfl, ⟨⟨hkeys, ?_⟩, by rw [hdoc, hyaml], fun _ k hk => ?_⟩, ?_,
    hwrote.others, ?_⟩
  · rw [hdoc, hwrote.document]
    exact edited_placed hkeys.apart hunmasked
  · rw [hdoc, hwrote.document, getByPath_edited hkeys.apart hk (hunmasked k hk)]
    cases hc : getByPath (edited (unmaskEdit stored) doc row.sensitiveKeys) k with
    | none => rfl
    | some c => exact refEdit_plainText (by rw [hc, Option.bind_some])
  · rw [hwrote.resolved hkeys henabled hunmasked rfl hdoc]
    unfold takenEdit
    rw [← edited_edited hkeys.apart]
    refine edited_congr hkeys.apart fun k _ value hvalue => ?_
    unfold textEdit submittedEdit
    dsimp only
    rw [hvalue, Option.bind_some]
  · intro hstored htidy
    rw [hdoc, hwrote.document, map_edited]
    refine tidy_hereditary.edit ?_ fun k _ c x hx => ?_
    · rw [map_edited]
      refine tidy_hereditary.edit htidy fun k _ c x hx => ?_
      unfold unmaskEdit at hx
      split at hx
      · exact hstored.getIn hx
      · cases hx
    · obtain ⟨text, -, rfl⟩ := Option.map_eq_some_iff.mp hx
      exact .scalar rfl

/-- The texts of a document are stored, and the row is saved with the references. -/
theorem storeDoc_saved (hkeys : Separate row.sensitiveKeys)
    (hplaced : ∀ k ∈ row.sensitiveKeys, PathPlaced doc k)
    (henabled : db.vault.enabled = true)
    (h : storeDoc row (edited (unmaskEdit stored) doc row.sensitiveKeys) db = (.ok shown, db')) :
    ∃ yaml, db'.groups = Rows.save ConfigGroup.id { row with yamlContent := yaml } db.groups ∧
      Saved stored doc row.sensitiveKeys db.vault shown db'.vault { row with yamlContent := yaml } := by
  obtain ⟨parsed, db₁, hloop, h⟩ := bind_ok_inv h
  obtain ⟨_, db₂, hsave, h⟩ := bind_ok_inv h
  obtain ⟨hshown, rfl⟩ := Prod.mk.inj h
  obtain ⟨-, rfl⟩ := Prod.mk.inj hsave
  have hwrote := storeKeys_wrote hkeys henabled (edited_placed hkeys.apart hplaced) hloop
  refine ⟨dumpNonEmpty parsed, ?_, ?_⟩
  · show Rows.save ConfigGroup.id { row with yamlContent := dumpNonEmpty parsed } db₁.groups = _
    rw [hwrote.rest]
  · exact @Saved.of_wrote shown { row with yamlContent := dumpNonEmpty parsed } stored doc parsed db
      db₁ hkeys hplaced henabled hwrote hshown rfl

/-! ### Edits of a draft -/

/-- The document that an edit starts from, given the row that it finds. -/
def documentOf (found : Option ConfigGroup) : Object := parseYaml (found.bind ConfigGroup.yamlContent)

/-- The sensitive keys that an edit saves. -/
def keysOf (dto : UpsertConfigGroupDto) (found : Option ConfigGroup) : List String :=
  dto.sensitiveKeys.getD ((found.map ConfigGroup.sensitiveKeys).getD [])

/-- The row `row` is saved over the one of its key, or as a new one. -/
def Entered (stored : Bool) (g row : ConfigGroup) (db db' : ConfigDb) : Prop :=
  (stored = true ∧ row.id = g.id ∧ db'.groups = Rows.save ConfigGroup.id row db.groups) ∨
    (stored = false ∧ db'.groups = db.groups ++ [row])

/-- The edit of a loaded row. -/
theorem writeEdit_saved {stored : Bool} (hused : ∀ x ∈ db.groups, x.id < db.nextId)
    (henabled : db.vault.enabled = true) (hyaml : dto.yamlContent = some text)
    (hkeys : Separate g.sensitiveKeys)
    (hplaced : ∀ k ∈ g.sensitiveKeys, PathPlaced (parseYaml (some text)) k)
    (hmasked : MasksStored (parseYaml g.yamlContent) (parseYaml (some text)) g.sensitiveKeys)
    (h : writeEdit dto g stored db = (.ok shown, db')) :
    ∃ id yaml, Entered stored g { g with id := id, yamlContent := yaml } db db' ∧
      Saved (parseYaml g.yamlContent) (parseYaml (some text)) g.sensitiveKeys db.vault shown db'.vault
        { g with id := id, yamlContent := yaml } := by
  unfold writeEdit at h
  rw [hyaml] at h
  dsimp only at h
  rw [gets_bind_run, henabled, Bool.and_true, unmaskedDoc_eq hkeys.apart hplaced hmasked] at h
  cases hempty : g.sensitiveKeys.isEmpty with
  | false =>
      rw [hempty, Bool.not_false, if_pos rfl] at h
      cases stored with
      | true =>
          obtain ⟨yaml, hgroups, hsaved⟩ := storeDoc_saved hkeys hplaced henabled h
          exact ⟨g.id, yaml, .inl ⟨rfl, rfl, hgroups⟩, hsaved⟩
      | false =>
          obtain ⟨row, db₁, hinsert, h⟩ := bind_ok_inv h
          obtain ⟨hrow, hdb₁⟩ := Prod.mk.inj hinsert
          obtain rfl : { g with id := db.nextId } = row := Except.ok.inj hrow
          obtain rfl : (ConfigRepo.insertGroup g db).2 = db₁ := hdb₁
          obtain ⟨yaml, hgroups, hsaved⟩ := @storeDoc_saved (ConfigRepo.insertGroup g db).2 db' shown
            { g with id := db.nextId } _ _ hkeys hplaced henabled h
          refine ⟨db.nextId, yaml, .inr ⟨rfl, hgroups.trans ?_⟩, hsaved⟩
          exact Rows.save_concat rfl fun x hx => Nat.ne_of_lt (hused x hx)
  | true =>
      have hnil : g.sensitiveKeys = [] := List.isEmpty_iff.mp hempty
      rw [hempty, Bool.not_true, if_neg Bool.false_ne_true, hnil] at h
      obtain ⟨row, db₁, hsave, h⟩ := bind_ok_inv h
      obtain ⟨hshown, rfl⟩ := Prod.mk.inj h
      rw [hnil]
      cases stored with
      | true =>
          obtain ⟨hrow, rfl⟩ := Prod.mk.inj hsave
          obtain rfl := Except.ok.inj hrow
          exact ⟨g.id, _, .inl ⟨rfl, rfl, rfl⟩, Saved.plain hshown rfl rfl⟩
      | false =>
          obtain ⟨hrow, rfl⟩ := Prod.mk.inj hsave
          obtain rfl := Except.ok.inj hrow
          exact ⟨db.nextId, _, .inr ⟨rfl, rfl⟩, Saved.plain hshown rfl rfl⟩

/-- The row that an edit starts from. -/
theorem loadGroup_run (db : ConfigDb) (d : ℕ) (name : String) : ∃ g stored,
    loadGroup d name db = (.ok (g, stored), db) ∧ g.revisionId = d ∧ g.name = name ∧
      parseYaml g.yamlContent = documentOf (db.findGroup d name) ∧
      g.sensitiveKeys = ((db.findGroup d name).map ConfigGroup.sensitiveKeys).getD [] ∧
      ((stored = true ∧ db.findGroup d name = some g) ∨
        (stored = false ∧ db.findGroup d name = none)) := by
  unfold loadGroup
  rw [gets_bind_run]
  cases hfound : db.findGroup d name with
  | none => exact ⟨_, false, rfl, rfl, rfl, rfl, rfl, .inr ⟨rfl, rfl⟩⟩
  | some group =>
      have htest := List.find?_some hfound
      simp only [Bool.and_eq_true, beq_iff_eq] at htest
      exact ⟨group, true, rfl, htest.1, htest.2, rfl, rfl, .inl ⟨rfl, rfl⟩⟩

/-- A row that was saved is found in its place. -/
theorem Entered.found {stored : Bool} {name : String} (h : Entered stored g row db db')
    (hids : Rows.KeysDistinct ConfigGroup.id db.groups) (hplace : row.revisionId = d ∧ row.name = name)
    (hloaded : (stored = true ∧ ∃ x, db.findGroup d name = some x ∧ x.id = g.id) ∨
      (stored = false ∧ db.findGroup d name = none)) :
    db'.findGroup d name = some row := by
  have htest : (row.revisionId == d && row.name == name) = true := by
    rw [hplace.1, hplace.2]
    simp
  unfold ConfigDb.findGroup
  rcases h with ⟨rfl, hid, hgroups⟩ | ⟨rfl, hgroups⟩
  · rcases hloaded with ⟨-, x, hfound, hx⟩ | ⟨hfalse, -⟩
    · rw [hgroups]
      exact hids.find?_save hfound (hx.trans hid.symm) htest
    · cases hfalse
  · rcases hloaded with ⟨hfalse, -⟩ | ⟨-, hnone⟩
    · cases hfalse
    · rw [hgroups, List.find?_append, show db.groups.find? _ = none from hnone]
      simp [htest]

/-- **Main result.** The row that an edit of the draft saves. -/
theorem editDraftGroup_saved (hids : Rows.KeysDistinct ConfigGroup.id db.groups)
    (hused : ∀ x ∈ db.groups, x.id < db.nextId) (henabled : db.vault.enabled = true)
    (hyaml : dto.yamlContent = some text) (hkeys : Separate (keysOf dto (db.findGroup d dto.name)))
    (hplaced : ∀ k ∈ keysOf dto (db.findGroup d dto.name), PathPlaced (parseYaml (some text)) k)
    (hmasked : MasksStored (documentOf (db.findGroup d dto.name)) (parseYaml (some text))
      (keysOf dto (db.findGroup d dto.name)))
    (h : editDraftGroup d dto db = (.ok shown, db')) :
    ∃ row, db'.findGroup d dto.name = some row ∧
      Saved (documentOf (db.findGroup d dto.name)) (parseYaml (some text))
        (keysOf dto (db.findGroup d dto.name)) db.vault shown db'.vault row := by
  obtain ⟨g, stored, hload, hrevision, hname, hdoc, hsensitive, hloaded⟩ :=
    loadGroup_run db d dto.name
  rw [editDraftGroup_run hload] at h
  have hkeysOf : (editedGroup dto g).sensitiveKeys = keysOf dto (db.findGroup d dto.name) := by
    unfold keysOf
    rw [← hsensitive]
    rfl
  rw [← hkeysOf, ← hdoc] at hmasked ⊢
  rw [← hkeysOf] at hkeys hplaced
  obtain ⟨id, yaml, hentered, hsaved⟩ := @writeEdit_saved db db' dto shown (editedGroup dto g) text
    stored hused henabled hyaml hkeys hplaced hmasked h
  refine ⟨_, hentered.found hids ⟨hrevision, hname⟩ ?_, hsaved⟩
  rcases hloaded with ⟨hstored, hfound⟩ | hnone
  · exact .inl ⟨hstored, g, hfound, rfl⟩
  · exact .inr hnone

/-- The group of a project's draft. -/
def draftGroup (db : ConfigDb) (projectId : ℕ) (name : String) : Option ConfigGroup :=
  (db.findRevision projectId .draft).bind fun draft => db.findGroup draft.id name

end ConfigService

open ConfigService

namespace TablesOk

variable {db : ConfigDb}

theorem groupIds (h : TablesOk db) : Rows.KeysDistinct ConfigGroup.id db.groups := by
  have hdistinct := h.slots.distinct
  unfold Rows.KeysDistinct ConfigDb.slots at hdistinct
  rw [List.map_map] at hdistinct
  exact hdistinct

theorem used (h : TablesOk db) {g : ConfigGroup} (hg : g ∈ db.groups) :
    g.id < db.nextId ∧ g.revisionId < db.nextId :=
  h.slots.used g.slot (List.mem_map_of_mem hg)

theorem faults (h : TablesOk db) (faults : List (Option String)) : TablesOk (withFaults faults db) :=
  ⟨⟨h.revisions.distinct, h.revisions.used⟩, h.slots⟩

/-- The group is the same where the draft is found or opened. -/
theorem findGroup_draft (h : TablesOk db) {p n : ℕ} {d : ConfigRevision} {rows : List ConfigRevision}
    (hdraft : WithDraft db p d rows) (name : String) :
    ConfigDb.findGroup { db with revisions := rows, nextId := n } d.id name = draftGroup db p name := by
  unfold draftGroup
  cases hdraft with
  | found hfound =>
      rw [hfound]
      rfl
  | opened hnone =>
      rw [hnone, Option.bind_none]
      apply List.find?_eq_none.mpr
      intro g hg
      have hne : g.revisionId ≠ db.nextId := Nat.ne_of_lt (h.used hg).2
      simp [draftRow, hne]

end TablesOk

namespace ConfigService

/-- The row that a submission saves, in the project's draft. -/
theorem upsertGroup_saved {peers : Peers} {project : Project} (hok : TablesOk db)
    (henabled : db.vault.enabled = true)
    (hproject : peers.project dto.projectIdentifier = some project)
    (hyaml : dto.yamlContent = some text)
    (hkeys : Separate (keysOf dto (draftGroup db project.id dto.name)))
    (hplaced : ∀ k ∈ keysOf dto (draftGroup db project.id dto.name),
      PathPlaced (parseYaml (some text)) k)
    (hmasked : MasksStored (documentOf (draftGroup db project.id dto.name)) (parseYaml (some text))
      (keysOf dto (draftGroup db project.id dto.name)))
    (h : upsertGroup peers dto db = (.ok shown, db')) :
    ∃ row, draftGroup db' project.id dto.name = some row ∧
      Saved (documentOf (draftGroup db project.id dto.name)) (parseYaml (some text))
        (keysOf dto (draftGroup db project.id dto.name)) db.vault shown db'.vault row := by
  unfold upsertGroup at h
  rcases requireProject_run peers dto.projectIdentifier [.config, .configMap] db with
    ⟨e, he⟩ | ⟨found, hfound, hrequired⟩
  · rw [bind_run_error he] at h
    cases h
  obtain rfl : found = project := Option.some.inj (hfound.symm.trans hproject)
  obtain ⟨d, rows, n, hrun, hens⟩ := getOrCreateDraftRevision_run hok.revisions found.id
  rw [bind_run_ok hrequired, bind_run_ok hrun] at h
  have hsame : ConfigDb.findGroup { db with revisions := rows, nextId := n } d.id dto.name =
      draftGroup db found.id dto.name := hok.findGroup_draft hens.draft dto.name
  have hused : ∀ g ∈ db.groups, g.id < n := fun g hg => Nat.lt_of_lt_of_le (hok.used hg).1 hens.next
  have hafter := editDraftGroup_keeps (ensured_groupWrites db found.id d) d.id dto _ hens
  rw [h] at hafter
  rw [← hsame] at hkeys hplaced hmasked ⊢
  obtain ⟨row, hrow, hsaved⟩ := @editDraftGroup_saved { db with revisions := rows, nextId := n } db' d.id
    dto shown text hok.groupIds hused henabled hyaml hkeys hplaced hmasked h
  refine ⟨row, ?_, hsaved⟩
  unfold draftGroup
  rw [show db'.findRevision found.id .draft = some d from hafter.draft.find_draft]
  exact hrow

/-! ### What is shown -/

/-- What a response shows of a group, as a submission. -/
def resubmitted (identifier : Identifier) (shown : ConfigGroupDto) : UpsertConfigGroupDto where
  projectIdentifier := identifier
  name := shown.name
  isGlobal := some shown.isGlobal
  displayName := some shown.displayName
  gitFilePath := shown.gitFilePath
  sensitiveKeys := some shown.sensitiveKeys
  yamlContent := shown.yamlContent

/-- A masked document that is unmasked from itself. -/
theorem edited_mask_unmask (hkeys : KeysApart keys) (htidy : Tidy (.map doc)) :
    edited (unmaskEdit doc) (edited maskEdit doc keys) keys = doc := by
  rw [edited_edited hkeys]
  refine edited_eq_self htidy fun k _ c hc => ?_
  unfold Parts.andThen maskEdit
  by_cases hnull : c = .null
  · rw [if_pos hnull, hnull]
    rfl
  · have hmask : unmaskEdit doc k (.str "***") = some c := (if_pos rfl).trans hc
    rw [if_neg hnull]
    dsimp only
    rw [hmask]
    rfl

/-- What is shown of a document stands for the document. -/
theorem unmaskedDoc_shown (hin : InPlace g) (htidy : Tidy (.map (parseYaml g.yamlContent)))
    (h : maskedYaml g = .ok (some text)) : unmaskedDoc g text = parseYaml g.yamlContent := by
  have hapart := hin.separate.apart
  unfold maskedYaml at h
  by_cases hmasks : (!g.sensitiveKeys.isEmpty && g.yamlContent.isSome) = true
  · rw [if_pos hmasks, maskKeys_eq hapart hin.placed] at h
    obtain rfl := Option.some.inj (Except.ok.inj h)
    have hmasked : MasksStored (parseYaml g.yamlContent)
        (edited maskEdit (parseYaml g.yamlContent) g.sensitiveKeys) g.sensitiveKeys := by
      intro k hk hmask
      -- a mask is shown for a value
      rw [getByPath_edited hapart hk (hin.placed k hk)] at hmask
      obtain ⟨c, hc, hcmask⟩ := Option.map_eq_some_iff.mp hmask
      rw [hc]
      cases c with
      | null => cases hcmask
      | _ => rfl
    have hunmasked := @unmaskedDoc_eq g (yamlDump (edited maskEdit (parseYaml g.yamlContent)
      g.sensitiveKeys)) hapart (edited_placed hapart hin.placed) hmasked
    rw [hunmasked, parseYaml_yamlDump]
    exact edited_mask_unmask hapart htidy
  · rw [if_neg hmasks] at h
    unfold unmaskedDoc
    rw [if_neg hmasks, Except.ok.inj h]

theorem mapGroupToDto_ok (hin : InPlace g) : ∃ shown, mapGroupToDto g = .ok shown := by
  unfold mapGroupToDto maskedYaml
  rw [maskKeys_eq hin.separate.apart hin.placed]
  split
  · exact ⟨_, rfl⟩
  · exact ⟨_, rfl⟩

/-- What is shown says of the row what the row says. -/
theorem editedGroup_shown (h : mapGroupToDto g = .ok shown) (identifier : Identifier) :
    maskedYaml g = .ok shown.yamlContent ∧ shown.name = g.name ∧
      editedGroup (resubmitted identifier shown) g = g := by
  unfold mapGroupToDto at h
  cases hyaml : maskedYaml g with
  | error e =>
      rw [hyaml] at h
      cases h
  | ok yaml =>
      rw [hyaml] at h
      obtain rfl := Except.ok.inj h
      refine ⟨rfl, rfl, ?_⟩
      unfold editedGroup resubmitted
      dsimp only [Option.getD_some]
      rw [Option.or_self]

/-- **Run.** Nothing is stored for a document without plain texts. -/
theorem storeKeys_idle {groupId : ℕ} (h : ∀ k ∈ keys, (getByPath doc k).bind plainText = none) :
    Prog.foldEach (storeKey groupId) doc keys db = (.ok doc, db) := by
  induction keys with
  | nil => rfl
  | cons k ks ih =>
      obtain ⟨hk, hrest⟩ := List.forall_mem_cons.mp h
      show (storeKey groupId doc k >>= fun doc' => Prog.foldEach (storeKey groupId) doc' ks) db = _
      rw [storeKey_idle hk, pure_bind_run]
      exact ih hrest

/-- A row is saved as it is. -/
theorem saveGroup_idle (hids : Rows.KeysDistinct ConfigGroup.id db.groups) (hg : g ∈ db.groups) :
    ConfigRepo.saveGroup g db = (.ok (), db) := by
  show (Except.ok (), { db with groups := Rows.save ConfigGroup.id g db.groups }) = _
  rw [hids.save_self hg]

/-- The edit of a row with what is shown of it. -/
theorem writeEdit_idle (hids : Rows.KeysDistinct ConfigGroup.id db.groups) (hg : g ∈ db.groups)
    (hclean : Clean db.vault.enabled g) (htidy : Tidy (.map (parseYaml g.yamlContent)))
    (hshown : mapGroupToDto g = .ok shown) (hyaml : maskedYaml g = .ok dto.yamlContent) :
    writeEdit dto g true db = (.ok shown, db) := by
  have hsave : ∀ row, row = g → (do
      let saved ← saveLoaded row true
      Prog.ofExcept (mapGroupToDto saved) : ConfigProg ConfigGroupDto) db = (.ok shown, db) := by
    rintro row rfl
    have hrun : saveLoaded row true db = (.ok row, db) := bind_run_ok (saveGroup_idle hids hg) _
    rw [bind_run_ok hrun, hshown]
    rfl
  have hrow : { g with yamlContent := dumpNonEmpty (parseYaml g.yamlContent) } = g := by
    rw [← hclean.yaml]
  unfold writeEdit
  cases htext : dto.yamlContent with
  | none => exact hsave g rfl
  | some text =>
      dsimp only
      rw [gets_bind_run, unmaskedDoc_shown hclean.inPlace htidy (htext ▸ hyaml)]
      by_cases hstores : (!g.sensitiveKeys.isEmpty && db.vault.enabled) = true
      · rw [if_pos hstores]
        have hrefs := hclean.refs (Bool.and_eq_true_iff.mp hstores).2
        show storeDoc g (parseYaml g.yamlContent) db = _
        unfold storeDoc
        rw [bind_run_ok (storeKeys_idle hrefs)]
        show (ConfigRepo.saveGroup { g with yamlContent := dumpNonEmpty (parseYaml g.yamlContent) } >>=
          fun _ => Prog.ofExcept (mapGroupToDto
            { g with yamlContent := dumpNonEmpty (parseYaml g.yamlContent) })) db = _
        rw [hrow, bind_run_ok (saveGroup_idle hids hg), hshown]
        rfl
      · rw [if_neg hstores]
        exact hsave _ hrow

/-- The group of a draft, found by its name. -/
theorem findGroup_eq {db : ConfigDb} (hnames : NamesOnce db) {r : ConfigRevision} (hr : r ∈ db.revisions)
    (hg : g ∈ db.groupsOf r.id) : db.findGroup r.id g.name = some g := by
  have hnodup : ((db.groupsOf r.id).map (·.name)).Nodup := by
    rw [names_places]
    exact hnames r hr
  obtain ⟨hmem, hrevision⟩ := List.mem_filter.mp hg
  cases hfound : db.findGroup r.id g.name with
  | none =>
      have hnot := List.find?_eq_none.mp hfound g hmem
      simp [beq_iff_eq.mp hrevision] at hnot
  | some x =>
      have htest := List.find?_some hfound
      simp only [Bool.and_eq_true, beq_iff_eq] at htest
      have hx : x ∈ db.groupsOf r.id :=
        List.mem_filter.mpr ⟨List.mem_of_find?_eq_some hfound, beq_iff_eq.mpr htest.1⟩
      rw [List.inj_on_of_nodup_map hnodup hx hg htest.2]

/-- What is shown of a draft's group, submitted. -/
theorem upsertGroup_idle {peers : Peers} {identifier : Identifier} {project : Project}
    {draft : ConfigRevision} (hok : TablesOk db) (hnames : NamesOnce db)
    (hproject : peers.project identifier = some project)
    (htype : [ProjectType.config, .configMap].contains project.projectType = true)
    (hdraft : db.findRevision project.id .draft = some draft) (hg : g ∈ db.groupsOf draft.id)
    (hclean : Clean db.vault.enabled g) (htidy : Tidy (.map (parseYaml g.yamlContent))) :
    ∃ shown, mapGroupToDto g = .ok shown ∧
      upsertGroup peers (resubmitted identifier shown) db = (.ok shown, db) := by
  obtain ⟨shown, hshown⟩ := mapGroupToDto_ok hclean.inPlace
  obtain ⟨hyaml, hname, hedited⟩ := editedGroup_shown hshown identifier
  have hrequired : requireProject peers identifier [.config, .configMap] db = (.ok project, db) := by
    unfold requireProject
    rw [hproject]
    dsimp only
    rw [if_pos htype]
    rfl
  have hfound : getOrCreateDraftRevision project.id db = (.ok draft, db) := by
    unfold getOrCreateDraftRevision
    rw [gets_bind_run, hdraft]
    rfl
  have hload : loadGroup draft.id shown.name db = (.ok (g, true), db) := by
    unfold loadGroup
    rw [gets_bind_run, hname, findGroup_eq hnames (List.mem_of_find?_eq_some hdraft) hg]
    rfl
  refine ⟨shown, hshown, ?_⟩
  show (requireProject peers identifier [.config, .configMap] >>= fun project =>
    getOrCreateDraftRevision project.id >>= fun draft =>
      editDraftGroup draft.id (resubmitted identifier shown)) db = _
  rw [bind_run_ok hrequired, bind_run_ok hfound,
    @editDraftGroup_run _ _ (resubmitted identifier shown) _ _ hload, hedited]
  exact writeEdit_idle hok.groupIds (List.mem_of_mem_filter hg) hclean htidy hshown hyaml

end ConfigService

/-! ### Runs -/

def storedToken : ConfigDb := run step vaultDb [⟨smallPeers, .upsertGroup submitToken⟩]

/-- The group again, with the stored token and one more secret. -/
def submitUser : UpsertConfigGroupDto :=
  { submitToken with
    sensitiveKeys := some ["token", "user"]
    yamlContent := some (yamlDump [("token", .str "***"), ("user", .str "root")]) }

def storedUser : Except Exception ConfigGroupDto × ConfigDb :=
  upsertGroup smallPeers submitUser (withFaults [] storedToken)

/-- The response. -/
def shownUser : ConfigGroupDto where
  id := 2
  name := "app"
  displayName := none
  isGlobal := false
  gitFilePath := none
  sensitiveKeys := ["token", "user"]
  yamlContent := some (yamlDump [("token", .str "***"), ("user", .str "***")])

end UploadService
