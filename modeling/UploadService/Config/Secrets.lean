import UploadService.Config.Effects
import UploadService.Config.Leaves
import UploadService.Config.Resolution

/-!
# Which group's secrets a store refers to

A published group is never written again, and neither may its secrets be. The secrets of a
group are named after its key, so it is enough to know, for every reference that stands in the
store, whose secret it names. A `Scope` fixes what is known: the keys of the groups that were
published (`frozen`), the keys of the groups some of whose secrets are gone (`lost`), and the
key paths that may be sensitive (`keyOk`).

`Settled σ db` is the invariant of the store: a published group refers to secrets of published
groups, a group of a draft to these and its own, and the secret is there, unless its group is
lost. `Unmoved σ db₀ db` says that nothing was written to what `db₀` published.

Main results: one lemma for each write of the config service, `Settled.put` to
`Settled.removeRevision` and `Unmoved.vault` to `Unmoved.removeRevision`.
-/

namespace UploadService

open Prog

namespace Vault

/-- A field under a data path. -/
def valueAt (v : Vault) (path field : String) : Option String :=
  (ObjectMap.get? v.secrets path).bind (ObjectMap.get? · field)

/-- A field is set, and its siblings stay. -/
def put (v : Vault) (path field value : String) : Vault :=
  { v with
    secrets := ObjectMap.set v.secrets path
      (ObjectMap.set ((ObjectMap.get? v.secrets path).getD []) field value) }

theorem secretOf_eq (v : Vault) (ref : String) :
    v.secretOf ref = v.valueAt (refPath ref) (parseVaultRef ref).field := rfl

theorem valueAt_put (v : Vault) (path field value p f : String) :
    (v.put path field value).valueAt p f =
      if p = path ∧ f = field then some value else v.valueAt p f := by
  unfold valueAt put
  dsimp only
  rw [ObjectMap.get?_set]
  by_cases hp : p = path
  · rw [if_pos hp, hp]
    show ObjectMap.get? (ObjectMap.set _ field value) f = _
    rw [ObjectMap.get?_set]
    by_cases hf : f = field
    · rw [if_pos hf, if_pos ⟨rfl, hf⟩]
    · rw [if_neg hf, if_neg fun h => hf h.2]
      cases ObjectMap.get? v.secrets path with
      | none => rfl
      | some fields => rfl
  · rw [if_neg hp, if_neg fun h => hp h.1]

/-- One request takes one outcome of the schedule. -/
theorem request_run (v : Vault) :
    request v = (.ok (v.faults.headD none), { v with faults := v.faults.tail }) := rfl

theorem assertEnabled_run {v : Vault} (henabled : v.enabled = true) :
    assertEnabled v = (.ok (), v) := by
  unfold assertEnabled
  rw [gets_bind_run, henabled]
  rfl

theorem fetchRawSecrets_outcome (v : Vault) (name : String) :
    ∃ faults, (∃ e, fetchRawSecrets name v = (.error e, { v with faults := faults })) ∨
      fetchRawSecrets name v =
        (.ok (ObjectMap.get? v.secrets (dataPath v.mountPath name)), { v with faults := faults }) := by
  refine ⟨v.faults.tail, ?_⟩
  unfold fetchRawSecrets
  rw [bind_run_ok (request_run v)]
  cases v.faults.headD none with
  | none => exact .inr rfl
  | some detail => exact .inl ⟨_, rfl⟩

/-- A store request that comes through sets the field; one that fails changes nothing. -/
theorem storeSecret_outcome {v : Vault} {name : String} (henabled : v.enabled = true)
    (hname : name ≠ "") (field value : String) :
    ∃ faults, (∃ e, storeSecret name field value v = (.error e, { v with faults := faults })) ∨
      storeSecret name field value v = (.ok (makeRef v.mountPath name field),
        { v with faults := faults }.put (dataPath v.mountPath name) field value) := by
  unfold storeSecret
  rw [if_neg hname, bind_run_ok (assertEnabled_run henabled)]
  obtain ⟨faults, ⟨e, hfetch⟩ | hfetch⟩ := fetchRawSecrets_outcome v name
  · exact ⟨faults, .inl ⟨e, bind_run_error hfetch _⟩⟩
  · rw [bind_run_ok hfetch, bind_run_ok (request_run _)]
    refine ⟨faults.tail, ?_⟩
    dsimp only
    cases faults.headD none with
    | none => exact .inr rfl
    | some detail => exact .inl ⟨_, rfl⟩

/-- A deletion where the store is enabled. -/
theorem deleteSecret_run {v : Vault} (henabled : v.enabled = true) (name field : String) :
    deleteSecret name field v = (fetchRawSecrets name >>= fun
      | none => pure ()
      | some existing =>
        if (ObjectMap.erase existing field).length = 0 then
          request >>= fun
            | some _ => pure ()
            | none => Prog.modify fun v =>
                { v with secrets := ObjectMap.erase v.secrets (dataPath v.mountPath name) }
        else
          request >>= fun
            | some detail => Prog.throw (.plain detail)
            | none => Prog.modify fun v => { v with
                secrets := ObjectMap.set v.secrets (dataPath v.mountPath name)
                  (ObjectMap.erase existing field) }) v := by
  unfold deleteSecret
  rw [gets_bind_run, henabled]
  rfl

/-- A deletion takes fields away under one path, and nothing else. -/
theorem deleteSecret_outcome {v : Vault} (henabled : v.enabled = true) (name field : String) :
    ∃ r secrets faults, deleteSecret name field v =
        (r, { v with secrets := secrets, faults := faults }) ∧
      (∀ p f, p ≠ dataPath v.mountPath name →
        ({ v with secrets := secrets } : Vault).valueAt p f = v.valueAt p f) ∧
      ∀ p f x, ({ v with secrets := secrets } : Vault).valueAt p f = some x →
        v.valueAt p f = some x := by
  rw [deleteSecret_run henabled]
  obtain ⟨faults, ⟨e, hfetch⟩ | hfetch⟩ := fetchRawSecrets_outcome v name
  · exact ⟨.error e, v.secrets, faults, bind_run_error hfetch _, fun _ _ _ => rfl, fun _ _ _ h => h⟩
  rw [bind_run_ok hfetch]
  cases hstored : ObjectMap.get? v.secrets (dataPath v.mountPath name) with
  | none => exact ⟨.ok (), v.secrets, faults, rfl, fun _ _ _ => rfl, fun _ _ _ h => h⟩
  | some existing =>
      dsimp only
      by_cases hrest : (ObjectMap.erase existing field).length = 0
      · rw [if_pos hrest, bind_run_ok (request_run _)]
        dsimp only
        cases faults.headD none with
        | some detail => exact ⟨.ok (), v.secrets, faults.tail, rfl, fun _ _ _ => rfl, fun _ _ _ h => h⟩
        | none =>
            refine ⟨.ok (), ObjectMap.erase v.secrets (dataPath v.mountPath name), faults.tail, rfl,
              ?_, ?_⟩
            · intro p f hp
              unfold valueAt
              rw [ObjectMap.get?_erase, if_neg hp]
            · intro p f x hx
              unfold valueAt at hx ⊢
              rw [ObjectMap.get?_erase] at hx
              split at hx
              · cases hx
              · exact hx
      · rw [if_neg hrest, bind_run_ok (request_run _)]
        dsimp only
        cases faults.headD none with
        | some detail =>
            exact ⟨.error (.plain detail), v.secrets, faults.tail, rfl, fun _ _ _ => rfl,
              fun _ _ _ h => h⟩
        | none =>
            refine ⟨.ok (), ObjectMap.set v.secrets (dataPath v.mountPath name)
              (ObjectMap.erase existing field), faults.tail, rfl, ?_, ?_⟩
            · intro p f hp
              unfold valueAt
              rw [ObjectMap.get?_set, if_neg hp]
            · intro p f x hx
              unfold valueAt at hx ⊢
              rw [ObjectMap.get?_set] at hx
              split at hx
              · rename_i hp
                have hget : ObjectMap.get? (ObjectMap.erase existing field) f = some x := hx
                rw [ObjectMap.get?_erase] at hget
                split at hget
                · cases hget
                · rw [hp, hstored]
                  exact hget
              · exact hx

end Vault

/-- The revision of that key is a DRAFT. -/
def ConfigDb.IsDraft (db : ConfigDb) (revisionId : ℕ) : Prop :=
  ∃ r ∈ db.revisions, r.id = revisionId ∧ r.status = .draft

/-! ### Scopes -/

/-- What is known of the groups whose secrets a store refers to. A reference to a key path with
`/` cannot be read, so such a path may be sensitive only where every secret counts as lost. -/
structure Scope where
  mount : String
  frozen : Set ℕ
  lost : Set ℕ
  keyOk : String → Prop
  readable : ∀ keyPath, keyOk keyPath → '/' ∈ keyPath.toList → ∀ i, i ∈ lost

namespace Scope

/-- The reference names a secret of one of the groups `owners`, and the secret is there, unless
its group is lost. -/
def Names (σ : Scope) (v : Vault) (owners : Set ℕ) (ref : String) : Prop :=
  ∃ i ∈ owners, ∃ keyPath, σ.keyOk keyPath ∧ ref = ConfigService.secretRef σ.mount i keyPath ∧
    (i ∈ σ.lost ∨ v.secretOf ref ≠ none)

/-- The scope in which the groups `ids` are lost too. -/
def losing (σ : Scope) (ids : Set ℕ) : Scope where
  mount := σ.mount
  frozen := σ.frozen
  lost := ids ∪ σ.lost
  keyOk := σ.keyOk
  readable := fun keyPath h hslash i => Set.mem_union_right _ (σ.readable keyPath h hslash i)

/-- The scope in which the groups `ids` are published too. -/
def publishing (σ : Scope) (ids : Set ℕ) : Scope where
  mount := σ.mount
  frozen := ids ∪ σ.frozen
  lost := σ.lost
  keyOk := σ.keyOk
  readable := σ.readable

variable {σ : Scope} {v w : Vault} {owners owners' : Set ℕ} {ref : String}

theorem Names.mono (h : σ.Names v owners ref) (hsub : owners ⊆ owners') :
    σ.Names v owners' ref := by
  obtain ⟨i, hi, rest⟩ := h
  exact ⟨i, hsub hi, rest⟩

/-- A reference still names its secret where no secret was taken away. -/
theorem Names.vault (h : σ.Names v owners ref)
    (hkept : ∀ p f, v.valueAt p f ≠ none → w.valueAt p f ≠ none) : σ.Names w owners ref := by
  obtain ⟨i, hi, keyPath, hok, href, halive⟩ := h
  exact ⟨i, hi, keyPath, hok, href, halive.imp id fun hsome => hkept _ _ hsome⟩

theorem Names.losing (h : σ.Names v owners ref) (ids : Set ℕ) : (σ.losing ids).Names v owners ref := by
  obtain ⟨i, hi, keyPath, hok, href, halive⟩ := h
  exact ⟨i, hi, keyPath, hok, href, halive.imp (Set.mem_union_right ids) id⟩

/-- A reference to a group that is not among the lost ones. -/
theorem Names.of_losing {ids : Set ℕ} (h : (σ.losing ids).Names v owners ref)
    (hout : ∀ i ∈ owners, i ∉ ids) : σ.Names v owners ref := by
  obtain ⟨i, hi, keyPath, hok, href, halive⟩ := h
  refine ⟨i, hi, keyPath, hok, href, ?_⟩
  rcases halive with (hlost | hlost) | hsome
  · exact absurd hlost (hout i hi)
  · exact .inl hlost
  · exact .inr hsome

/-- A secret was taken away, of a group that counts as lost from there on. -/
theorem Names.shrink {j : ℕ} {keyPath : String} (h : σ.Names v owners ref)
    (hkept : ∀ p f, p ≠ ConfigService.secretPath σ.mount j keyPath → w.valueAt p f = v.valueAt p f) :
    (σ.losing {j}).Names w owners ref := by
  obtain ⟨i, hi, keyPath', hok, href, halive⟩ := h
  refine ⟨i, hi, keyPath', hok, href, ?_⟩
  by_cases hij : i = j
  · exact .inl (.inl hij)
  · refine halive.imp (fun hlost => .inr hlost) fun hsome => ?_
    have hpath := ConfigService.refPath_ne_secretPath
      (show (ConfigService.secretRef σ.mount i keyPath').toList <+: ref.toList from
        href ▸ List.prefix_refl _) hij keyPath
    rw [Vault.secretOf_eq, hkept _ _ hpath]
    exact hsome

end Scope

/-! ### The invariant -/

/-- What a store refers to, and that it is there. -/
structure Settled (σ : Scope) (db : ConfigDb) : Prop where
  enabled : db.vault.enabled = true
  mount : db.vault.mountPath = σ.mount
  ids : IdsOk db
  groupIds : Rows.KeysDistinct ConfigGroup.id db.groups
  used : ∀ g ∈ db.groups, g.id < db.nextId ∧ g.revisionId < db.nextId
  frozenUsed : ∀ i ∈ σ.frozen, i < db.nextId
  frozen : ∀ g ∈ db.groups, (g.id ∈ σ.frozen ↔ ¬ db.IsDraft g.revisionId)
  keys : ∀ g ∈ db.groups, ∀ keyPath ∈ g.sensitiveKeys, σ.keyOk keyPath
  docs : ∀ g ∈ db.groups,
    (parseYaml g.yamlContent).Refs (σ.Names db.vault (insert g.id σ.frozen))
  values : ∀ p f x, db.vault.valueAt p f = some x → Vault.isVaultRef x = true →
    σ.Names db.vault σ.frozen x

/-- Nothing was written to what `db₀` published, nor to the secrets it refers to. -/
structure Unmoved (σ : Scope) (db₀ db : ConfigDb) : Prop where
  revisions : db.revisions.filter (fun r => r.status != .draft) =
    db₀.revisions.filter fun r => r.status != .draft
  groups : ∀ r ∈ db₀.revisions, r.status ≠ .draft → db.groupsOf r.id = db₀.groupsOf r.id
  secrets : ∀ i ∈ σ.frozen, ∀ keyPath text,
    (ConfigService.secretRef σ.mount i keyPath).toList <+: String.toList text →
    ∀ f, db.vault.valueAt (Vault.refPath text) f = db₀.vault.valueAt (Vault.refPath text) f

theorem not_isDraft {db : ConfigDb} (hids : IdsOk db) {r : ConfigRevision} (hr : r ∈ db.revisions)
    (hpublished : r.status ≠ .draft) : ¬ db.IsDraft r.id := by
  rintro ⟨d, hd, hid, hdraft⟩
  obtain rfl := hids.distinct.eq_of_mem hd hr hid
  exact hpublished hdraft

theorem Unmoved.refl (σ : Scope) (db : ConfigDb) : Unmoved σ db db :=
  ⟨rfl, fun _ _ _ => rfl, fun _ _ _ _ _ _ => rfl⟩

theorem Unmoved.mem {σ : Scope} {db₀ db : ConfigDb} (h : Unmoved σ db₀ db) {r : ConfigRevision}
    (hr : r ∈ db₀.revisions) (hpublished : r.status ≠ .draft) : r ∈ db.revisions := by
  have hmem : r ∈ db₀.revisions.filter fun r => r.status != .draft :=
    List.mem_filter.mpr ⟨hr, by simpa using hpublished⟩
  rw [← h.revisions] at hmem
  exact List.mem_of_mem_filter hmem

/-- The two halves of what a draft operation keeps. -/
structure Kept (σ : Scope) (db₀ db : ConfigDb) : Prop where
  settled : Settled σ db
  unmoved : Unmoved σ db₀ db

namespace Settled

variable {σ : Scope} {db : ConfigDb}

theorem faults (h : Settled σ db) (faults : List (Option String)) :
    Settled σ { db with vault := { db.vault with faults := faults } } :=
  ⟨h.enabled, h.mount, ⟨h.ids.distinct, h.ids.used⟩, h.groupIds, h.used, h.frozenUsed, h.frozen, h.keys,
    h.docs, h.values⟩

/-- A published group refers to published groups' secrets only. -/
theorem docs_of_published (h : Settled σ db) {g : ConfigGroup} (hg : g ∈ db.groups)
    (hpublished : ¬ db.IsDraft g.revisionId) :
    (parseYaml g.yamlContent).Refs (σ.Names db.vault σ.frozen) := by
  have hdocs := h.docs g hg
  rw [Set.insert_eq_of_mem ((h.frozen g hg).mpr hpublished)] at hdocs
  exact hdocs

/-! ### Writes to Vault -/

theorem put (h : Settled σ db) {path value : String} (field : String)
    (hvalue : Vault.isVaultRef value = true → σ.Names db.vault σ.frozen value) :
    Settled σ { db with vault := db.vault.put path field value } := by
  have hkept : ∀ p f, db.vault.valueAt p f ≠ none →
      (db.vault.put path field value).valueAt p f ≠ none := by
    intro p f hsome
    rw [Vault.valueAt_put]
    split
    · exact Option.some_ne_none _
    · exact hsome
  refine ⟨h.enabled, h.mount, ⟨h.ids.distinct, h.ids.used⟩, h.groupIds, h.used, h.frozenUsed, h.frozen,
    h.keys, ?_, ?_⟩
  · exact fun g hg => (h.docs g hg).mono fun t ht => ht.vault hkept
  · intro p f x hx href
    have hx' : (db.vault.put path field value).valueAt p f = some x := hx
    rw [Vault.valueAt_put] at hx'
    split at hx'
    · obtain rfl := Option.some.inj hx'
      exact (hvalue href).vault hkept
    · exact (h.values p f x hx' href).vault hkept

/-- Secrets of a draft's group are taken away: its own references are lost. -/
theorem shrink (h : Settled σ db) {j : ℕ} {keyPath : String}
    {secrets : List (String × List (String × String))} {faults : List (Option String)}
    (hkept : ∀ p f, p ≠ ConfigService.secretPath σ.mount j keyPath →
      ({ db.vault with secrets := secrets } : Vault).valueAt p f = db.vault.valueAt p f)
    (hsub : ∀ p f x, ({ db.vault with secrets := secrets } : Vault).valueAt p f = some x →
      db.vault.valueAt p f = some x) :
    Settled (σ.losing {j})
      { db with vault := { db.vault with secrets := secrets, faults := faults } } := by
  refine ⟨h.enabled, h.mount, ⟨h.ids.distinct, h.ids.used⟩, h.groupIds, h.used, h.frozenUsed, h.frozen,
    h.keys, ?_, ?_⟩
  · exact fun g hg => (h.docs g hg).mono fun t ht => ht.shrink hkept
  · exact fun p f x hx href => (h.values p f x (hsub p f x hx) href).shrink hkept

/-! ### Writes to the groups -/

theorem insertGroup (h : Settled σ db) {group : ConfigGroup} (hdraft : db.IsDraft group.revisionId)
    (hkeys : ∀ keyPath ∈ group.sensitiveKeys, σ.keyOk keyPath)
    (hdoc : (parseYaml group.yamlContent).Refs (σ.Names db.vault σ.frozen)) :
    Settled σ (ConfigRepo.insertGroup group db).2 := by
  have hfresh : db.nextId ∉ σ.frozen := fun hmem => absurd (h.frozenUsed _ hmem) (by omega)
  have hrevision : group.revisionId < db.nextId := by
    obtain ⟨r, hr, hid, -⟩ := hdraft
    rw [← hid]
    exact h.ids.used r hr
  have hcases : ∀ g ∈ db.groups ++ [{ group with id := db.nextId }],
      g ∈ db.groups ∨ g = { group with id := db.nextId } := by
    intro g hg
    simpa using hg
  refine ⟨h.enabled, h.mount, ⟨h.ids.distinct, fun r hr => Nat.lt_succ_of_lt (h.ids.used r hr)⟩, ?_, ?_,
    fun i hi => Nat.lt_succ_of_lt (h.frozenUsed i hi), ?_, ?_, ?_, h.values⟩
  · apply h.groupIds.append_new
    intro g hg heq
    have hlt := (h.used g hg).1
    rw [show g.id = db.nextId from heq] at hlt
    omega
  · intro g hg
    rcases hcases g hg with hg | rfl
    · exact ⟨Nat.lt_succ_of_lt (h.used g hg).1, Nat.lt_succ_of_lt (h.used g hg).2⟩
    · exact ⟨Nat.lt_succ_self _, Nat.lt_succ_of_lt hrevision⟩
  · intro g hg
    rcases hcases g hg with hg | rfl
    · exact h.frozen g hg
    · exact ⟨fun hmem => absurd hmem hfresh, fun hnot => absurd hdraft hnot⟩
  · intro g hg
    rcases hcases g hg with hg | rfl
    · exact h.keys g hg
    · exact hkeys
  · intro g hg
    rcases hcases g hg with hg | rfl
    · exact h.docs g hg
    · exact hdoc.mono fun t ht => ht.mono (Set.subset_insert _ _)

theorem saveGroup (h : Settled σ db) {row : ConfigGroup} (hid : row.id ∉ σ.frozen)
    (hused : row.id < db.nextId) (hdraft : db.IsDraft row.revisionId)
    (hkeys : ∀ keyPath ∈ row.sensitiveKeys, σ.keyOk keyPath)
    (hdoc : (parseYaml row.yamlContent).Refs (σ.Names db.vault (insert row.id σ.frozen))) :
    Settled σ (ConfigRepo.saveGroup row db).2 := by
  have hrevision : row.revisionId < db.nextId := by
    obtain ⟨r, hr, hid, -⟩ := hdraft
    rw [← hid]
    exact h.ids.used r hr
  have hcases : ∀ g ∈ Rows.save ConfigGroup.id row db.groups, g = row ∨ g ∈ db.groups :=
    fun g hg => (Rows.mem_save.mp hg).imp id fun hg => hg.1
  refine ⟨h.enabled, h.mount, ⟨h.ids.distinct, h.ids.used⟩, h.groupIds.save row, ?_, h.frozenUsed, ?_, ?_,
    ?_, h.values⟩
  · intro g hg
    rcases hcases g hg with rfl | hg
    · exact ⟨hused, hrevision⟩
    · exact h.used g hg
  · intro g hg
    rcases hcases g hg with rfl | hg
    · exact ⟨fun hmem => absurd hmem hid, fun hnot => absurd hdraft hnot⟩
    · exact h.frozen g hg
  · intro g hg
    rcases hcases g hg with rfl | hg
    · exact hkeys
    · exact h.keys g hg
  · intro g hg
    rcases hcases g hg with rfl | hg
    · exact hdoc
    · exact h.docs g hg

/-- Fewer groups. -/
theorem dropGroups (h : Settled σ db) {groups : List ConfigGroup} (hsub : groups.Sublist db.groups) :
    Settled σ { db with groups := groups } :=
  ⟨h.enabled, h.mount, ⟨h.ids.distinct, h.ids.used⟩, h.groupIds.sublist hsub,
    fun g hg => h.used g (hsub.mem hg), h.frozenUsed, fun g hg => h.frozen g (hsub.mem hg),
    fun g hg => h.keys g (hsub.mem hg), fun g hg => h.docs g (hsub.mem hg), h.values⟩

/-! ### Writes to the revisions -/

theorem insertDraft (h : Settled σ db) (projectId revisionNumber : ℕ) :
    Settled σ (ConfigRepo.insertDraft projectId revisionNumber db).2 := by
  have hcases : ∀ r ∈ db.revisions ++ [draftRow db.nextId projectId revisionNumber],
      r ∈ db.revisions ∨ r = draftRow db.nextId projectId revisionNumber := by
    intro r hr
    simpa using hr
  refine ⟨h.enabled, h.mount, ⟨?_, ?_⟩, h.groupIds,
    fun g hg => ⟨Nat.lt_succ_of_lt (h.used g hg).1, Nat.lt_succ_of_lt (h.used g hg).2⟩,
    fun i hi => Nat.lt_succ_of_lt (h.frozenUsed i hi), ?_, h.keys, h.docs, h.values⟩
  · apply h.ids.distinct.append_new
    intro r hr heq
    have hlt := h.ids.used r hr
    rw [show r.id = db.nextId from heq] at hlt
    omega
  · intro r hr
    rcases hcases r hr with hr | rfl
    · exact Nat.lt_succ_of_lt (h.ids.used r hr)
    · exact Nat.lt_succ_self _
  · intro g hg
    rw [h.frozen g hg, not_iff_not]
    constructor
    · rintro ⟨r, hr, hid, hdraft⟩
      exact ⟨r, List.mem_append_left _ hr, hid, hdraft⟩
    · rintro ⟨r, hr, hid, hdraft⟩
      rcases hcases r hr with hr | rfl
      · exact ⟨r, hr, hid, hdraft⟩
      · -- no group is in a revision whose key was not drawn yet
        have hlt := (h.used g hg).2
        rw [← hid] at hlt
        exact absurd hlt (Nat.lt_irrefl _)

/-- A draft goes, with its groups. -/
theorem removeRevision (h : Settled σ db) {draftId : ℕ} :
    Settled σ (ConfigRepo.removeRevision draftId db).2 := by
  have hsub : (Rows.deleteWhere (fun g : ConfigGroup => g.revisionId == draftId) db.groups).Sublist
      db.groups := Rows.deleteWhere_sublist _ _
  refine ⟨h.enabled, h.mount, ⟨h.ids.distinct.sublist (Rows.deleteWhere_sublist _ _),
    fun r hr => h.ids.used r (Rows.mem_deleteWhere.mp hr).1⟩, h.groupIds.sublist hsub,
    fun g hg => h.used g (hsub.mem hg), h.frozenUsed, ?_, fun g hg => h.keys g (hsub.mem hg),
    fun g hg => h.docs g (hsub.mem hg), h.values⟩
  intro g hg
  obtain ⟨hmem, hother⟩ := Rows.mem_deleteWhere.mp hg
  rw [h.frozen g hmem, not_iff_not]
  constructor
  · rintro ⟨r, hr, hid, hdraft⟩
    refine ⟨r, Rows.mem_deleteWhere.mpr ⟨hr, ?_⟩, hid, hdraft⟩
    rw [hid]
    exact hother
  · rintro ⟨r, hr, hid, hdraft⟩
    exact ⟨r, (Rows.mem_deleteWhere.mp hr).1, hid, hdraft⟩

/-! ### Scopes -/

theorem losing (h : Settled σ db) (ids : Set ℕ) : Settled (σ.losing ids) db :=
  ⟨h.enabled, h.mount, h.ids, h.groupIds, h.used, h.frozenUsed, h.frozen, h.keys,
    fun g hg => (h.docs g hg).mono fun _ ht => ht.losing ids,
    fun p f x hx href => (h.values p f x hx href).losing ids⟩

/-- Groups that count as lost are not, where they refer to what is there, or are gone. -/
theorem restore {ids : Set ℕ} (h : Settled (σ.losing ids) db) (hout : ∀ i ∈ ids, i ∉ σ.frozen)
    (hdocs : ∀ g ∈ db.groups, g.id ∈ ids →
      (parseYaml g.yamlContent).Refs (σ.Names db.vault (insert g.id σ.frozen))) :
    Settled σ db := by
  refine ⟨h.enabled, h.mount, h.ids, h.groupIds, h.used, h.frozenUsed, h.frozen, h.keys, ?_, ?_⟩
  · intro g hg
    by_cases hlost : g.id ∈ ids
    · exact hdocs g hg hlost
    · refine (h.docs g hg).mono fun t ht => ht.of_losing ?_
      rintro i (rfl | hi) hmem
      · exact hlost hmem
      · exact hout i hmem hi
  · exact fun p f x hx href => (h.values p f x hx href).of_losing fun i hi hmem => hout i hmem hi

end Settled

namespace Unmoved

variable {σ : Scope} {db₀ db : ConfigDb}

theorem faults (h : Unmoved σ db₀ db) (faults : List (Option String)) :
    Unmoved σ db₀ { db with vault := { db.vault with faults := faults } } :=
  ⟨h.revisions, h.groups, h.secrets⟩

/-- The references to published groups' secrets name what they named. -/
theorem names (h : Unmoved σ db₀ db) (text : String) :
    σ.Names db.vault σ.frozen text ↔ σ.Names db₀.vault σ.frozen text := by
  have hsecret : ∀ i ∈ σ.frozen, ∀ keyPath, text = ConfigService.secretRef σ.mount i keyPath →
      db.vault.secretOf text = db₀.vault.secretOf text := by
    intro i hi keyPath htext
    rw [Vault.secretOf_eq, Vault.secretOf_eq]
    exact h.secrets i hi keyPath text (htext ▸ List.prefix_refl _) _
  constructor
  · rintro ⟨i, hi, keyPath, hok, htext, halive⟩
    rw [hsecret i hi keyPath htext] at halive
    exact ⟨i, hi, keyPath, hok, htext, halive⟩
  · rintro ⟨i, hi, keyPath, hok, htext, halive⟩
    rw [← hsecret i hi keyPath htext] at halive
    exact ⟨i, hi, keyPath, hok, htext, halive⟩

/-- Vault is written only where no published group's reference is read. -/
theorem vault (h : Unmoved σ db₀ db) {j : ℕ} (hj : j ∉ σ.frozen) {keyPath : String} {w : Vault}
    (hkept : ∀ p f, p ≠ ConfigService.secretPath σ.mount j keyPath →
      w.valueAt p f = db.vault.valueAt p f) :
    Unmoved σ db₀ { db with vault := w } := by
  refine ⟨h.revisions, h.groups, ?_⟩
  intro i hi keyPath' text hstarts f
  have hij : i ≠ j := fun heq => hj (heq ▸ hi)
  exact (hkept _ f (ConfigService.refPath_ne_secretPath hstarts hij keyPath)).trans
    (h.secrets i hi keyPath' text hstarts f)

/-- The group table is written only in drafts. -/
theorem groups_of (h : Unmoved σ db₀ db) (hids : IdsOk db) {groups : List ConfigGroup} {n : ℕ}
    (hkept : ∀ revisionId, ¬ db.IsDraft revisionId →
      groups.filter (fun g => g.revisionId == revisionId) = db.groupsOf revisionId) :
    Unmoved σ db₀ { db with groups := groups, nextId := n } := by
  refine ⟨h.revisions, ?_, h.secrets⟩
  intro r hr hpublished
  have hnot := not_isDraft hids (h.mem hr hpublished) hpublished
  exact (hkept r.id hnot).trans (h.groups r hr hpublished)

theorem insertGroup (h : Unmoved σ db₀ db) (hids : IdsOk db) {group : ConfigGroup}
    (hdraft : db.IsDraft group.revisionId) :
    Unmoved σ db₀ (ConfigRepo.insertGroup group db).2 := by
  apply h.groups_of hids
  intro revisionId hnot
  have hne : (group.revisionId == revisionId) = false := by
    have hne : group.revisionId ≠ revisionId := fun heq => hnot (heq ▸ hdraft)
    simpa using hne
  rw [List.filter_append, List.filter_cons_of_neg (by simp [hne]), List.filter_nil, List.append_nil]
  rfl

theorem saveGroup (h : Unmoved σ db₀ db) (hsettled : Settled σ db) {row : ConfigGroup}
    (hid : row.id ∉ σ.frozen) (hdraft : db.IsDraft row.revisionId) :
    Unmoved σ db₀ (ConfigRepo.saveGroup row db).2 := by
  apply h.groups_of hsettled.ids
  intro revisionId hnot
  apply Rows.filter_save
  · have hne : row.revisionId ≠ revisionId := fun heq => hnot (heq ▸ hdraft)
    simpa using hne
  · intro g hg heq
    have hgroup : db.IsDraft g.revisionId := by
      by_contra hpublished
      have hmem := (hsettled.frozen g hg).mpr hpublished
      rw [heq] at hmem
      exact hid hmem
    have hne : g.revisionId ≠ revisionId := fun heq => hnot (heq ▸ hgroup)
    simpa using hne

theorem removeGroup (h : Unmoved σ db₀ db) (hsettled : Settled σ db) {id : ℕ} (hid : id ∉ σ.frozen) :
    Unmoved σ db₀ (ConfigRepo.removeGroup id db).2 := by
  apply h.groups_of hsettled.ids
  intro revisionId hnot
  apply Rows.filter_deleteWhere
  intro g hg heq
  have heq' : g.id = id := by simpa using heq
  have hgroup : db.IsDraft g.revisionId := by
    by_contra hpublished
    have hmem := (hsettled.frozen g hg).mpr hpublished
    rw [heq'] at hmem
    exact hid hmem
  have hne : g.revisionId ≠ revisionId := fun heq => hnot (heq ▸ hgroup)
  simpa using hne

theorem insertDraft (h : Unmoved σ db₀ db) (projectId revisionNumber : ℕ) :
    Unmoved σ db₀ (ConfigRepo.insertDraft projectId revisionNumber db).2 := by
  refine ⟨?_, h.groups, h.secrets⟩
  show (db.revisions ++ [draftRow db.nextId projectId revisionNumber]).filter _ = _
  rw [List.filter_append, h.revisions]
  simp [draftRow]

theorem removeRevision (h : Unmoved σ db₀ db) (hids : IdsOk db) {draftId : ℕ}
    (hdraft : db.IsDraft draftId) :
    Unmoved σ db₀ (ConfigRepo.removeRevision draftId db).2 := by
  refine ⟨?_, ?_, h.secrets⟩
  · show (Rows.deleteWhere (fun r => r.id == draftId) db.revisions).filter _ = _
    rw [Rows.filter_deleteWhere, h.revisions]
    intro r hr hid
    have hid' : r.id = draftId := by simpa using hid
    by_contra hpublished
    exact not_isDraft hids hr (by simpa using hpublished) (hid' ▸ hdraft)
  · intro r hr hpublished
    have hnot := not_isDraft hids (h.mem hr hpublished) hpublished
    have hne : r.id ≠ draftId := fun heq => hnot (heq ▸ hdraft)
    show (Rows.deleteWhere (fun g => g.revisionId == draftId) db.groups).filter _ = _
    rw [Rows.filter_deleteWhere]
    · exact h.groups r hr hpublished
    · intro g _ hg
      have hg' : g.revisionId = draftId := by simpa using hg
      rw [hg']
      simpa using fun heq => hne heq.symm

end Unmoved

end UploadService
