import UploadService.Config.Secrets

/-!
# What an operation on a draft writes

One contract for each function that works on a draft, on top of the writes of
`Config/Secrets.lean`: each keeps `Drafting σ db₀ d`, which says that the store is settled, that
what `db₀` published has not moved, and that `d` is a draft. Reading a published group gives
texts that name secrets of published groups only; what is stored for a group of the draft goes
under that group's own names.

Main results: `mergeConfigMaps_reads`, `cloneGroupToRevision_drafting`,
`editDraftGroup_drafting`, `deleteDraftGroup_drafting`.
-/

namespace UploadService

open Prog

namespace Scope

theorem eq_of_fields {σ τ : Scope} (hmount : σ.mount = τ.mount) (hfrozen : σ.frozen = τ.frozen)
    (hlost : σ.lost = τ.lost) (hkeys : σ.keyOk = τ.keyOk) : σ = τ := by
  cases σ
  cases τ
  cases hmount
  cases hfrozen
  cases hlost
  cases hkeys
  rfl

theorem losing_losing (σ : Scope) {ids more : Set ℕ} (h : more ⊆ ids) :
    (σ.losing ids).losing more = σ.losing ids := by
  refine eq_of_fields rfl rfl ?_ rfl
  show more ∪ (ids ∪ σ.lost) = ids ∪ σ.lost
  rw [← Set.union_assoc, Set.union_eq_self_of_subset_left h]

theorem losing_empty (σ : Scope) : σ.losing ∅ = σ := by
  refine eq_of_fields rfl rfl ?_ rfl
  exact Set.empty_union _

end Scope

/-- The store while an operation works on the draft `d`. -/
structure Drafting (σ : Scope) (db₀ : ConfigDb) (d : ℕ) (db : ConfigDb) : Prop
    extends Kept σ db₀ db where
  draft : db.IsDraft d

/-- A group of a revision that `db₀` published. -/
def PublishedIn (db₀ : ConfigDb) (g : ConfigGroup) : Prop :=
  ∃ r ∈ db₀.revisions, r.status ≠ .draft ∧ g ∈ db₀.groupsOf r.id

namespace Kept

variable {σ : Scope} {db₀ db : ConfigDb}

/-- A published group is still there, and names secrets of published groups. -/
theorem docs_of_published (h : Kept σ db₀ db) {g : ConfigGroup} (hg : PublishedIn db₀ g) :
    (parseYaml g.yamlContent).Refs (σ.Names db.vault σ.frozen) ∧
      ∀ keyPath ∈ g.sensitiveKeys, σ.keyOk keyPath := by
  obtain ⟨r, hr, hpublished, hgroup⟩ := hg
  rw [← h.unmoved.groups r hr hpublished] at hgroup
  obtain ⟨hmem, hrevision⟩ := List.mem_filter.mp hgroup
  have hnot := not_isDraft h.settled.ids (h.unmoved.mem hr hpublished) hpublished
  have hrevision' : g.revisionId = r.id := by simpa using hrevision
  exact ⟨h.settled.docs_of_published hmem (hrevision' ▸ hnot), h.settled.keys g hmem⟩

/-- A group of a published revision was published by `db₀`. -/
theorem publishedIn (h : Kept σ db₀ db) {r : ConfigRevision} (hr : r ∈ db.revisions)
    (hpublished : r.status ≠ .draft) {g : ConfigGroup} (hg : g ∈ db.groupsOf r.id) :
    PublishedIn db₀ g := by
  have hmem : r ∈ db.revisions.filter fun r => r.status != .draft :=
    List.mem_filter.mpr ⟨hr, by simpa using hpublished⟩
  rw [h.unmoved.revisions] at hmem
  have hr₀ := List.mem_of_mem_filter hmem
  rw [h.unmoved.groups r hr₀ hpublished] at hg
  exact ⟨r, hr₀, hpublished, hg⟩

theorem spend (h : Kept σ db₀ db) (n : ℕ) : Kept σ db₀ (db.spend n) :=
  ⟨h.settled.faults _, h.unmoved.faults _⟩

end Kept

namespace ConfigService

variable {σ : Scope} {db₀ db : ConfigDb}

/-! ### Reading secrets -/

theorem spend_spend (db : ConfigDb) (m n : ℕ) : (db.spend m).spend n = db.spend (m + n) := by
  unfold ConfigDb.spend
  rw [Vault.spend_spend]

/-- From `db`, after any number of requests, the program makes requests only, and returns an
answer in `P`. -/
def Reads {α : Type} (db : ConfigDb) (p : ConfigProg α) (P : α → Prop) : Prop :=
  ∀ n, ∃ a m, p (db.spend n) = (.ok a, db.spend m) ∧ P a

namespace Reads

variable {α β : Type}

theorem pure {P : α → Prop} {a : α} (h : P a) : Reads db (Pure.pure a) P := fun n => ⟨a, n, rfl, h⟩

theorem bind {P : α → Prop} {Q : β → Prop} {p : ConfigProg α} {f : α → ConfigProg β}
    (hp : Reads db p P) (hf : ∀ a, P a → Reads db (f a) Q) : Reads db (p >>= f) Q := by
  intro n
  obtain ⟨a, m, hrun, ha⟩ := hp n
  obtain ⟨b, k, hrest, hb⟩ := hf a ha m
  exact ⟨b, k, (bind_run_ok hrun f).trans hrest, hb⟩

theorem foldEach {P : β → Prop} {f : β → α → ConfigProg β} {xs : List α}
    (hf : ∀ acc, ∀ x ∈ xs, P acc → Reads db (f acc x) P) {acc : β} (hacc : P acc) :
    Reads db (Prog.foldEach f acc xs) P := by
  induction xs generalizing acc with
  | nil => exact pure hacc
  | cons x xs ih =>
      apply bind (hf acc x List.mem_cons_self hacc)
      exact fun acc' hacc' => ih (fun acc y hy => hf acc y (List.mem_cons_of_mem x hy)) hacc'

/-- The run from the store itself. -/
theorem run {P : α → Prop} {p : ConfigProg α} (h : Reads db p P) :
    ∃ a n, p db = (.ok a, db.spend n) ∧ P a := h 0

end Reads

/-- A reference that is read gives a secret that Vault holds, or an error. -/
theorem resolveSecret_reads (henabled : db.vault.enabled = true) {ref : String}
    (href : Vault.isVaultRef ref = true) :
    (∃ e, vaultCall (Vault.resolveSecret ref) db = (.error e, db.spend 1)) ∨
    vaultCall (Vault.resolveSecret ref) db = (.ok (db.vault.secretOf ref), db.spend 1) := by
  rcases resolveSecret_run henabled href with ⟨e, hrun, -⟩ | ⟨-, hrun⟩
  · exact .inl ⟨e, vaultCall_run hrun⟩
  · exact .inr (vaultCall_run hrun)

/-- A text that Vault holds names secrets of published groups. -/
theorem secretOf_names (h : Settled σ db) {ref text : String}
    (hsecret : db.vault.secretOf ref = some text) :
    Vault.isVaultRef text = true → σ.Names db.vault σ.frozen text := by
  rw [Vault.secretOf_eq] at hsecret
  exact h.values _ _ _ hsecret

theorem resolveKey_reads (h : Settled σ db) {parsed : Object}
    (hdoc : parsed.Refs (σ.Names db.vault σ.frozen)) (keyPath : String) :
    Reads db (resolveKey parsed keyPath) (Object.Refs (σ.Names db.vault σ.frozen)) := by
  unfold resolveKey
  cases hat : vaultRefAt parsed keyPath with
  | none => exact Reads.pure hdoc
  | some ref =>
      intro n
      dsimp only
      have henabled : (db.spend n).vault.enabled = true := h.enabled
      rcases resolveSecret_reads henabled (vaultRefAt_isVaultRef hat) with ⟨e, hrun⟩ | hrun
      · rw [spend_spend] at hrun
        refine ⟨setByPath parsed keyPath .null, n + 1, ?_, setByPath_refs keyPath hdoc Value.null_refs⟩
        rw [tryCatch_run_error (bind_run_error hrun _)]
        rfl
      · rw [spend_spend] at hrun
        refine ⟨_, n + 1, tryCatch_run_ok (bind_run_ok hrun _) _, setByPath_refs keyPath hdoc ?_⟩
        cases hsecret : (db.spend n).vault.secretOf ref with
        | none => exact Value.null_refs
        | some text => exact Value.str_refs (secretOf_names h hsecret)

/-- Reading a published group. -/
theorem resolveGroupYaml_reads (h : Settled σ db) {g : ConfigGroup}
    (hdoc : (parseYaml g.yamlContent).Refs (σ.Names db.vault σ.frozen)) :
    Reads db (resolveGroupYaml g []) (Object.Refs (σ.Names db.vault σ.frozen)) := by
  have hlast : ∀ parsed : Object, parsed.Refs (σ.Names db.vault σ.frozen) →
      Reads db (pure (ObjectMap.assign [] parsed)) (Object.Refs (σ.Names db.vault σ.frozen)) := by
    intro parsed hparsed
    rw [ObjectMap.nil_assign]
    exact Reads.pure hparsed
  intro n
  unfold resolveGroupYaml
  rw [gets_bind_run, show (db.spend n).vault.enabled = true from h.enabled, Bool.true_and]
  by_cases hkeys : (!g.sensitiveKeys.isEmpty) = true
  · rw [if_pos hkeys]
    have hround : ∀ parsed : Object, ∀ keyPath ∈ g.sensitiveKeys,
        parsed.Refs (σ.Names db.vault σ.frozen) →
        Reads db (resolveKey parsed keyPath) (Object.Refs (σ.Names db.vault σ.frozen)) :=
      fun parsed keyPath _ hparsed => resolveKey_reads h hparsed keyPath
    exact (Reads.foldEach hround hdoc).bind hlast n
  · rw [if_neg hkeys]
    exact (Reads.pure hdoc).bind hlast n

/-- What the config maps say, as far as a draft needs to know it. -/
def MergedOk (σ : Scope) (v : Vault) (m : MergedGroup) : Prop :=
  m.data.Refs (σ.Names v σ.frozen) ∧ m.sensitiveKeys.Nodup ∧ ∀ keyPath ∈ m.sensitiveKeys, σ.keyOk keyPath

theorem mergeGroup_ok {v : Vault} {entry : Option MergedGroup} {g : ConfigGroup} {resolved : Object}
    (hentry : ∀ m, entry = some m → MergedOk σ v m) (hdoc : resolved.Refs (σ.Names v σ.frozen))
    (hkeys : ∀ keyPath ∈ g.sensitiveKeys, σ.keyOk keyPath) :
    MergedOk σ v (mergeGroup entry g resolved) := by
  have hadd : ∀ set : List String, (∀ keyPath ∈ set, σ.keyOk keyPath) →
      ∀ keyPath ∈ ObjectMap.addKeys set g.sensitiveKeys, σ.keyOk keyPath := by
    intro set hset keyPath hmem
    rcases ObjectMap.mem_addKeys.mp hmem with hmem | hmem
    · exact hset keyPath hmem
    · exact hkeys keyPath hmem
  cases entry with
  | none =>
      exact ⟨Object.assign_refs Object.nil_refs hdoc, ObjectMap.addKeys_nodup List.nodup_nil _,
        hadd [] fun _ h => by cases h⟩
  | some m =>
      obtain ⟨hdata, hnodup, hset⟩ := hentry m rfl
      exact ⟨Object.assign_refs hdata hdoc, ObjectMap.addKeys_nodup hnodup _, hadd _ hset⟩

/-- **Main result.** Merging published groups reads, and gives texts that name secrets of
published groups only. -/
theorem mergeConfigMaps_reads (h : Kept σ db₀ db) {revisions : List ConfigRevision}
    (hactive : ∀ r ∈ revisions, r ∈ db.revisions ∧ r.status ≠ .draft) :
    ∃ merged n, mergeConfigMaps revisions db = (.ok merged, db.spend n) ∧
      ∀ entry ∈ merged, MergedOk σ db.vault entry.2 := by
  have hgroups : ∀ g ∈ revisions.flatMap (fun r => db.groupsOf r.id), PublishedIn db₀ g := by
    intro g hg
    obtain ⟨r, hr, hgroup⟩ := List.mem_flatMap.mp hg
    obtain ⟨hmem, hpublished⟩ := hactive r hr
    exact h.publishedIn hmem hpublished hgroup
  have hround : ∀ merged : List (String × MergedGroup),
      ∀ g ∈ revisions.flatMap (fun r => db.groupsOf r.id),
      (∀ entry ∈ merged, MergedOk σ db.vault entry.2) →
      Reads db (resolveGroupYaml g [] >>= fun resolved => pure (ObjectMap.set merged g.name
        (mergeGroup (ObjectMap.get? merged g.name) g resolved)))
        fun merged => ∀ entry ∈ merged, MergedOk σ db.vault entry.2 := by
    intro merged g hg hmerged
    obtain ⟨hdoc, hkeys⟩ := h.docs_of_published (hgroups g hg)
    refine (resolveGroupYaml_reads h.settled hdoc).bind fun resolved hresolved => Reads.pure ?_
    intro entry hentry
    rcases ObjectMap.mem_set hentry with rfl | hentry
    · exact mergeGroup_ok (fun m hm => hmerged _ (ObjectMap.mem_of_get? hm)) hresolved hkeys
    · exact hmerged entry hentry
  exact (Reads.foldEach hround fun _ hentry => absurd hentry List.not_mem_nil).run

/-! ### Storing secrets -/

/-- While the group `j` of the draft is written: `doc` names secrets of published groups and of
the group itself. The groups `ids` count as lost until the document is saved. -/
structure Filling (σ : Scope) (ids : Set ℕ) (db₀ : ConfigDb) (d j : ℕ) (doc : Object)
    (db : ConfigDb) : Prop where
  drafting : Drafting (σ.losing ids) db₀ d db
  used : j < db.nextId
  doc : doc.Refs (σ.Names db.vault (insert j σ.frozen))

variable {ids : Set ℕ} {d j : ℕ} {doc : Object}

/-- A reference just stored names its secret. -/
theorem names_put {v : Vault} (hmount : v.mountPath = σ.mount) {keyPath : String}
    (hok : σ.keyOk keyPath) (value : String) :
    σ.Names (v.put (secretPath σ.mount j keyPath) configVaultField value) (insert j σ.frozen)
      (Vault.makeRef v.mountPath (configVaultKeySecretName j keyPath) configVaultField) := by
  refine ⟨j, Set.mem_insert _ _, keyPath, hok, by rw [hmount]; rfl, ?_⟩
  by_cases hslash : '/' ∈ keyPath.toList
  · exact .inl (σ.readable keyPath hok hslash j)
  · right
    have href : Vault.makeRef v.mountPath (configVaultKeySecretName j keyPath) configVaultField =
        secretRef σ.mount j keyPath := by
      rw [hmount]
      rfl
    rw [href, Vault.secretOf_eq, refPath_secretRef hslash, parseVaultRef_secretRef hslash,
      Vault.valueAt_put, if_pos ⟨rfl, rfl⟩]
    exact Option.some_ne_none _

/-- **Step.** One value goes to Vault, and its reference into the document, where the document
takes it. -/
theorem storeInto_filling (hj : j ∉ σ.frozen) {keyPath : String} (hok : σ.keyOk keyPath)
    {value : String}
    (hvalue : Vault.isVaultRef value = true → σ.Names db₀.vault σ.frozen value)
    {assign : String → Except Exception Object}
    (hassign : ∀ ref doc', assign ref = .ok doc' → doc' = setByPath doc keyPath (.str ref)) :
    Meets (Filling σ ids db₀ d j doc)
      (vaultCall (Vault.storeSecret (configVaultKeySecretName j keyPath) configVaultField value) >>=
        fun ref => Prog.ofExcept (assign ref))
      (fun doc' db => Filling σ ids db₀ d j doc' db ∧
        ∃ ref, doc' = setByPath doc keyPath (.str ref))
      fun _ => Filling σ ids db₀ d j doc := by
  intro db h
  have hsettled := h.drafting.settled
  have hmount : db.vault.mountPath = σ.mount := hsettled.mount
  obtain ⟨faults, ⟨e, hrun⟩ | hrun⟩ := @Vault.storeSecret_outcome db.vault _ hsettled.enabled
    (configVaultKeySecretName_ne_empty j keyPath) configVaultField value
  · rw [bind_run_error (vaultCall_run hrun)]
    exact ⟨⟨⟨hsettled.faults faults, h.drafting.unmoved.faults faults⟩, h.drafting.draft⟩, h.used,
      h.doc⟩
  · rw [bind_run_ok (vaultCall_run hrun)]
    have hpath : Vault.dataPath db.vault.mountPath (configVaultKeySecretName j keyPath) =
        secretPath σ.mount j keyPath := by
      rw [hmount]
      rfl
    rw [hpath]
    have hkept : ∀ p f, db.vault.valueAt p f ≠ none →
        (db.vault.put (secretPath σ.mount j keyPath) configVaultField value).valueAt p f ≠ none := by
      intro p f hsome
      rw [Vault.valueAt_put]
      split
      · exact Option.some_ne_none _
      · exact hsome
    have hstored : Filling σ ids db₀ d j doc { db with
        vault := ({ db.vault with faults := faults } : Vault).put (secretPath σ.mount j keyPath)
          configVaultField value } := by
      refine ⟨⟨⟨?_, ?_⟩, h.drafting.draft⟩, h.used, h.doc.mono fun t ht => ht.vault hkept⟩
      · exact (hsettled.faults faults).put configVaultField
          fun href => (h.drafting.unmoved.names value).mpr ((hvalue href).losing ids)
      · apply h.drafting.unmoved.vault hj
        intro p f hp
        rw [Vault.valueAt_put, if_neg fun hand => hp hand.1]
        rfl
    rw [ofExcept_run]
    cases hdoc : assign (Vault.makeRef db.vault.mountPath (configVaultKeySecretName j keyPath)
        configVaultField) with
    | error e => exact hstored
    | ok doc' =>
        obtain rfl := hassign _ doc' hdoc
        refine ⟨⟨hstored.drafting, hstored.used, setByPath_refs keyPath hstored.doc ?_⟩, _, rfl⟩
        exact Value.str_refs fun _ => names_put hmount hok value

/-- One sensitive key of a merged group. A value that is no text and no number is stored as a
text that is no reference. -/
theorem storeMergedKey_filling (hj : j ∉ σ.frozen) {keyPath : String} (hok : σ.keyOk keyPath)
    (hdoc : ∀ w s, getByPath doc keyPath = some w → w.scalar? = some s →
      Vault.isVaultRef s = true → σ.Names db₀.vault σ.frozen s) :
    Meets (Filling σ ids db₀ d j doc) (storeMergedKey j doc keyPath)
      (fun doc' db => Filling σ ids db₀ d j doc' db ∧
        (doc' = doc ∨ ∃ ref, doc' = setByPath doc keyPath (.str ref)))
      fun _ => Filling σ ids db₀ d j doc := by
  unfold storeMergedKey
  split
  · exact Meets.pure fun db h => ⟨h, .inl rfl⟩
  · exact Meets.pure fun db h => ⟨h, .inl rfl⟩
  · rename_i value _ hvalue
    refine (storeInto_filling hj hok ?_ fun _ _ => assignText_ok).consequence (fun _ h => h)
      (fun _ _ h => ⟨h.1, .inr h.2⟩) fun _ _ h => h
    intro href
    cases value with
    | str s => exact hdoc _ s hvalue rfl href
    | null => exact hdoc _ _ hvalue (Value.json_ref _ href) href
    | bool b => exact hdoc _ _ hvalue (Value.json_ref _ href) href
    | num n => exact hdoc _ _ hvalue (Value.json_ref _ href) href
    | list xs => exact hdoc _ _ hvalue (Value.json_ref _ href) href
    | map m => exact hdoc _ _ hvalue (Value.json_ref _ href) href

/-- A text or number that stands at a path of a document. -/
theorem scalar_names {v : Vault} {owners : Set ℕ} (hdoc : doc.Refs (σ.Names v owners)) {path s : String}
    {w : Value} (hw : getByPath doc path = some w) (hs : w.scalar? = some s)
    (href : Vault.isVaultRef s = true) : σ.Names v owners s := by
  have hrefs := getByPath_refs hdoc hw
  cases w with
  | str t =>
      obtain rfl := Option.some.inj hs
      exact hrefs t (List.mem_singleton.mpr rfl) href
  | num n =>
      obtain rfl := Option.some.inj hs
      exact hrefs n (List.mem_singleton.mpr rfl) href
  | null => cases hs
  | bool b => cases hs
  | list xs => cases hs
  | map m => cases hs

/-- All sensitive keys of a merged group. No key is stored twice, so what is stored under one is
never the reference that was put under another. -/
theorem storeMergedKeys_filling (hj : j ∉ σ.frozen) {keys : List String} (hnodup : keys.Nodup)
    (hok : ∀ keyPath ∈ keys, σ.keyOk keyPath) {data : Object}
    (hdata : data.Refs (σ.Names db₀.vault σ.frozen)) :
    Meets (Filling σ ids db₀ d j data) (Prog.foldEach (storeMergedKey j) data keys)
      (fun doc' => Filling σ ids db₀ d j doc')
      fun _ db => Drafting (σ.losing ids) db₀ d db := by
  have hloop : ∀ (rest : List String) (doc : Object), rest.Nodup → (∀ keyPath ∈ rest, keyPath ∈ keys) →
      (∀ keyPath ∈ rest, ∀ w s, getByPath doc keyPath = some w → w.scalar? = some s →
        Vault.isVaultRef s = true → σ.Names db₀.vault σ.frozen s) →
      Meets (Filling σ ids db₀ d j doc) (Prog.foldEach (storeMergedKey j) doc rest)
        (fun doc' => Filling σ ids db₀ d j doc')
        fun _ db => Drafting (σ.losing ids) db₀ d db := by
    intro rest
    induction rest with
    | nil => exact fun doc _ _ _ => Meets.pure fun db h => h
    | cons keyPath rest ih =>
        intro doc hnodup hsub hdoc
        obtain ⟨hnot, hrest⟩ := List.nodup_cons.mp hnodup
        have hkey := @storeMergedKey_filling σ db₀ ids d j doc hj keyPath
          (hok keyPath (hsub keyPath List.mem_cons_self)) (hdoc keyPath List.mem_cons_self)
        have hkey' := hkey.consequence (fun _ h => h) (fun _ _ h => h) fun _ _ h => h.drafting
        refine hkey'.bind fun doc' => ?_
        intro db hdb
        obtain ⟨hfilling, hcases⟩ := hdb
        refine ih doc' hrest (fun q hq => hsub q (List.mem_cons_of_mem _ hq)) ?_ db hfilling
        intro q hq w s hw hs href
        rcases hcases with rfl | ⟨ref, rfl⟩
        · exact hdoc q (List.mem_cons_of_mem _ hq) w s hw hs href
        · have hne : q ≠ keyPath := fun heq => hnot (heq ▸ hq)
          obtain ⟨w', hw', hs'⟩ := getByPath_setByPath_ne hne hw hs href
          exact hdoc q (List.mem_cons_of_mem _ hq) w' s hw' hs' href
  exact hloop keys data hnodup (fun _ h => h) fun _ _ _ _ hw hs href => scalar_names hdata hw hs href

/-- One sensitive key of an edit: what is stored is no reference. -/
theorem storeKey_filling (hj : j ∉ σ.frozen) {keyPath : String} (hok : σ.keyOk keyPath) :
    Meets (Filling σ ids db₀ d j doc) (storeKey j doc keyPath)
      (fun doc' => Filling σ ids db₀ d j doc') fun _ => Filling σ ids db₀ d j doc := by
  unfold storeKey
  split
  · exact Meets.pure fun db h => h
  · exact Meets.pure fun db h => h
  · by_cases href : Vault.isVaultRef (Value.toText ‹_›) = true
    · rw [if_pos href]
      exact Meets.pure fun db h => h
    · rw [if_neg href]
      refine (storeInto_filling hj hok (fun h => absurd h href) fun _ _ => assignText_ok).consequence
        (fun _ h => h) (fun _ _ h => h.1) fun _ _ h => h

/-- One sensitive key of a copy: what is stored was read from Vault, and a copy that fails
leaves the reference that was there. -/
theorem cloneKey_filling (hj : j ∉ σ.frozen) {keyPath : String} (hok : σ.keyOk keyPath) :
    Meets (Filling σ ∅ db₀ d j doc) (cloneKey j doc keyPath)
      (fun doc' => Filling σ ∅ db₀ d j doc') fun _ _ => False := by
  unfold cloneKey
  cases hat : vaultRefAt doc keyPath with
  | none => exact Meets.pure fun db h => h
  | some ref =>
      have hfail : Meets (Filling σ ∅ db₀ d j doc) (pure doc : ConfigProg Object)
          (fun doc' => Filling σ ∅ db₀ d j doc') fun _ _ => False := Meets.pure fun db h => h
      refine Meets.tryCatch (R := fun _ => Filling σ ∅ db₀ d j doc) ?_ fun _ => hfail
      intro db h
      have hspent : Filling σ ∅ db₀ d j doc (db.spend 1) :=
        ⟨⟨h.drafting.toKept.spend 1, h.drafting.draft⟩, h.used, h.doc⟩
      rcases resolveSecret_reads h.drafting.settled.enabled (vaultRefAt_isVaultRef hat) with
        ⟨e, hrun⟩ | hrun
      · rw [bind_run_error hrun]
        exact hspent
      · rw [bind_run_ok hrun]
        cases hsecret : db.vault.secretOf ref with
        | none => exact hspent
        | some plaintext =>
            have hnames := secretOf_names h.drafting.settled hsecret
            have hdb₀ : Vault.isVaultRef plaintext = true → σ.Names db₀.vault σ.frozen plaintext := by
              intro href
              have hlosing := (h.drafting.unmoved.names plaintext).mp (hnames href)
              rw [Scope.losing_empty] at hlosing
              exact hlosing
            have hstore := @storeInto_filling σ db₀ ∅ d j doc hj keyPath hok plaintext hdb₀
              (fun newRef => .ok (setByPath doc keyPath (.str newRef)))
              fun _ _ h => (Except.ok.inj h).symm
            exact hstore.consequence (fun _ h => h) (fun _ _ h => h.1) (fun _ _ h => h) _ hspent

end ConfigService

/-! ### Rows of the draft -/

namespace Drafting

variable {σ : Scope} {db₀ db : ConfigDb} {d : ℕ}

theorem losing (h : Drafting σ db₀ d db) (ids : Set ℕ) : Drafting (σ.losing ids) db₀ d db :=
  ⟨⟨h.settled.losing ids, h.unmoved.revisions, h.unmoved.groups, h.unmoved.secrets⟩, h.draft⟩

/-- The next key is no published group's. -/
theorem fresh (h : Drafting σ db₀ d db) : db.nextId ∉ σ.frozen :=
  fun hmem => absurd (h.settled.frozenUsed _ hmem) (Nat.lt_irrefl _)

theorem insertGroup (h : Drafting σ db₀ d db) {group : ConfigGroup} (hrevision : group.revisionId = d)
    (hkeys : ∀ keyPath ∈ group.sensitiveKeys, σ.keyOk keyPath)
    (hdoc : (parseYaml group.yamlContent).Refs (σ.Names db.vault σ.frozen)) :
    Drafting σ db₀ d (ConfigRepo.insertGroup group db).2 := by
  have hdraft : db.IsDraft group.revisionId := hrevision ▸ h.draft
  exact ⟨⟨h.settled.insertGroup hdraft hkeys hdoc, h.unmoved.insertGroup h.settled.ids hdraft⟩, h.draft⟩

theorem saveGroup (h : Drafting σ db₀ d db) {row : ConfigGroup} (hid : row.id ∉ σ.frozen)
    (hused : row.id < db.nextId) (hrevision : row.revisionId = d)
    (hkeys : ∀ keyPath ∈ row.sensitiveKeys, σ.keyOk keyPath)
    (hdoc : (parseYaml row.yamlContent).Refs (σ.Names db.vault (insert row.id σ.frozen))) :
    Drafting σ db₀ d (ConfigRepo.saveGroup row db).2 := by
  have hdraft : db.IsDraft row.revisionId := hrevision ▸ h.draft
  exact ⟨⟨h.settled.saveGroup hid hused hdraft hkeys hdoc, h.unmoved.saveGroup h.settled hid hdraft⟩,
    h.draft⟩

/-- A group that the draft has by a name. -/
theorem of_findGroup (h : Drafting σ db₀ d db) {name : String} {g : ConfigGroup}
    (hfound : db.findGroup d name = some g) :
    g ∈ db.groups ∧ g.revisionId = d ∧ g.id ∉ σ.frozen ∧ g.id < db.nextId := by
  have hmem := List.mem_of_find?_eq_some hfound
  have hrevision : g.revisionId = d := by
    have hp := List.find?_some hfound
    simp only [Bool.and_eq_true, beq_iff_eq] at hp
    exact hp.1
  refine ⟨hmem, hrevision, fun hfrozen => ?_, (h.settled.used g hmem).1⟩
  exact (h.settled.frozen g hmem).mp hfrozen (hrevision ▸ h.draft)

end Drafting

namespace ConfigService

variable {σ : Scope} {db₀ db : ConfigDb} {d : ℕ}

/-- The document is saved: the group's references are there again. -/
theorem Filling.save {ids : Set ℕ} {row : ConfigGroup} {data : Object}
    (h : Filling σ ids db₀ d row.id data db) (hid : row.id ∉ σ.frozen)
    (hrevision : row.revisionId = d) (hkeys : ∀ keyPath ∈ row.sensitiveKeys, σ.keyOk keyPath)
    (hyaml : parseYaml row.yamlContent = data) (hids : ∀ i ∈ ids, i = row.id) :
    Drafting σ db₀ d (ConfigRepo.saveGroup row db).2 := by
  have hdoc : (parseYaml row.yamlContent).Refs (σ.Names db.vault (insert row.id σ.frozen)) := by
    rw [hyaml]
    exact h.doc
  have hsaved := h.drafting.saveGroup hid h.used hrevision hkeys
    (hdoc.mono fun t ht => ht.losing ids)
  refine ⟨⟨hsaved.settled.restore (fun i hi => hids i hi ▸ hid) ?_, hsaved.unmoved.revisions,
    hsaved.unmoved.groups, hsaved.unmoved.secrets⟩, hsaved.draft⟩
  intro g hg hlost
  rcases Rows.mem_save.mp hg with rfl | ⟨-, hne⟩
  · exact hdoc
  · exact absurd (hids g.id hlost) hne

/-- **Main result.** A published group is copied into the draft. -/
theorem cloneGroupToRevision_drafting {source : ConfigGroup} (hsource : PublishedIn db₀ source)
    (position : ℕ) : Keeps (Drafting σ db₀ d) (cloneGroupToRevision source d position) := by
  intro db h
  obtain ⟨hdoc, hkeys⟩ := h.toKept.docs_of_published hsource
  have hinserted : Drafting σ db₀ d (ConfigRepo.insertGroup { source with
      revisionId := d, yamlContent := none, position := position } db).2 :=
    h.insertGroup rfl hkeys Object.nil_refs
  have hrun : ∀ row : ConfigGroup, ConfigRepo.insertGroup row db =
      (.ok { row with id := db.nextId }, (ConfigRepo.insertGroup row db).2) := fun _ => rfl
  have hvault : (ConfigRepo.insertGroup { source with
      revisionId := d, yamlContent := none, position := position } db).2.vault = db.vault := rfl
  have hnext : db.nextId < (ConfigRepo.insertGroup { source with
      revisionId := d, yamlContent := none, position := position } db).2.nextId := Nat.lt_succ_self _
  unfold cloneGroupToRevision
  rw [bind_run_ok (hrun _)]
  generalize (ConfigRepo.insertGroup { source with
      revisionId := d, yamlContent := none, position := position } db).2 = db₁ at hinserted hvault hnext ⊢
  by_cases hyaml : source.yamlContent.isSome = true
  · rw [if_pos hyaml, gets_bind_run, hinserted.settled.enabled, Bool.true_and]
    have hfilling : Filling σ ∅ db₀ d db.nextId (parseYaml source.yamlContent) db₁ := by
      refine ⟨by rw [Scope.losing_empty]; exact hinserted, hnext, ?_⟩
      rw [hvault]
      exact hdoc.mono fun t ht => ht.mono (Set.subset_insert _ _)
    have hsave : ∀ parsed : Object, Meets (Filling σ ∅ db₀ d db.nextId parsed)
        (do
          let copied : ConfigGroup := { source with
            id := db.nextId, revisionId := d, yamlContent := dumpNonEmpty parsed, position := position }
          ConfigRepo.saveGroup copied
          pure copied)
        (fun _ => Drafting σ db₀ d) (fun _ => Drafting σ db₀ d) := by
      intro parsed db₂ hdb
      exact @Filling.save σ db₀ db₂ d ∅ { source with
          id := db.nextId, revisionId := d, yamlContent := dumpNonEmpty parsed, position := position }
        parsed hdb h.fresh rfl hkeys (parseYaml_dumpNonEmpty parsed) fun i hi => by cases hi
    have hloop : Meets (Filling σ ∅ db₀ d db.nextId (parseYaml source.yamlContent))
        (if (!source.sensitiveKeys.isEmpty) = true then
          Prog.foldEach (cloneKey db.nextId) (parseYaml source.yamlContent) source.sensitiveKeys
        else pure (parseYaml source.yamlContent) : ConfigProg Object)
        (fun parsed => Filling σ ∅ db₀ d db.nextId parsed) fun _ => Drafting σ db₀ d := by
      apply Meets.ite
      · have hfold : Meets (Filling σ ∅ db₀ d db.nextId (parseYaml source.yamlContent))
            (Prog.foldEach (cloneKey db.nextId) (parseYaml source.yamlContent) source.sensitiveKeys)
            (fun parsed => Filling σ ∅ db₀ d db.nextId parsed) fun _ _ => False :=
          Meets.foldEach (fun parsed keyPath hmem => cloneKey_filling h.fresh (hkeys keyPath hmem)) _
        exact hfold.never_throws
      · exact Meets.pure fun db h => h
    exact (hloop.bind hsave).exit hfilling
  · rw [if_neg hyaml]
    exact hinserted

/-! ### Edits -/

/-- The key paths and the document of an edit. -/
structure EditOk (σ : Scope) (dto : UpsertConfigGroupDto) : Prop where
  keys : ∀ keys, dto.sensitiveKeys = some keys → ∀ keyPath ∈ keys, σ.keyOk keyPath
  yaml : (parseYaml dto.yamlContent).Refs fun _ => False

theorem unmaskKey_refs {R : String → Prop} {existingParsed parsed : Object}
    (hexisting : existingParsed.Refs R) (hparsed : parsed.Refs R) (keyPath : String) :
    (unmaskKey existingParsed parsed keyPath).Refs R := by
  unfold unmaskKey
  split
  · split
    · exact deleteByPath_refs keyPath hparsed
    · exact deleteByPath_refs keyPath hparsed
    · rename_i existingValue _ hvalue
      exact setByPath_refs keyPath hparsed (getByPath_refs hexisting hvalue)
  · exact hparsed

theorem unmaskKeys_refs {R : String → Prop} {existingParsed parsed : Object}
    (hexisting : existingParsed.Refs R) (hparsed : parsed.Refs R) (keys : List String) :
    (keys.foldl (unmaskKey existingParsed) parsed).Refs R := by
  induction keys generalizing parsed with
  | nil => exact hparsed
  | cons keyPath keys ih => exact ih (unmaskKey_refs hexisting hparsed keyPath)

/-- A row that an edit loaded: a group of the draft, or a new one. -/
structure RowOk (σ : Scope) (d : ℕ) (row : ConfigGroup) (stored : Bool) (db : ConfigDb) : Prop where
  revision : row.revisionId = d
  keys : ∀ keyPath ∈ row.sensitiveKeys, σ.keyOk keyPath
  doc : (parseYaml row.yamlContent).Refs (σ.Names db.vault (insert row.id σ.frozen))
  old : stored = true → row.id ∉ σ.frozen ∧ row.id < db.nextId
  new : stored = false → (parseYaml row.yamlContent).Refs fun _ => False

theorem loadGroup_drafting (h : Drafting σ db₀ d db) (name : String) :
    ∃ row stored, loadGroup d name db = (.ok (row, stored), db) ∧ RowOk σ d row stored db ∧
      (stored = false → row.yamlContent = none) := by
  unfold loadGroup
  rw [gets_bind_run]
  cases hfound : db.findGroup d name with
  | none =>
      refine ⟨newGroup d name (nextGroupPosition db d), false, rfl, ?_, fun _ => rfl⟩
      exact ⟨rfl, fun _ hmem => (by cases hmem), Object.nil_refs, fun hold => (by cases hold),
        fun _ => Object.nil_refs⟩
  | some group =>
      obtain ⟨hmem, hrevision, hid, hused⟩ := h.of_findGroup hfound
      refine ⟨group, true, rfl, ?_, fun hnew => (by cases hnew)⟩
      exact ⟨hrevision, h.settled.keys group hmem, h.settled.docs group hmem, fun _ => ⟨hid, hused⟩,
        fun hnew => (by cases hnew)⟩

theorem saveLoaded_drafting (h : Drafting σ db₀ d db) {row : ConfigGroup} {stored : Bool}
    (hrow : RowOk σ d row stored db) :
    ∃ saved db', saveLoaded row stored db = (.ok saved, db') ∧ Drafting σ db₀ d db' := by
  unfold saveLoaded
  cases stored with
  | true =>
      obtain ⟨hid, hused⟩ := hrow.old rfl
      exact ⟨row, _, rfl, h.saveGroup hid hused hrow.revision hrow.keys hrow.doc⟩
  | false =>
      refine ⟨_, _, rfl, h.insertGroup hrow.revision hrow.keys ?_⟩
      exact (hrow.new rfl).mono fun _ hfalse => hfalse.elim

/-- The loaded row with the fields of the edit. -/
def editedGroup (dto : UpsertConfigGroupDto) (row : ConfigGroup) : ConfigGroup :=
  { row with
    isGlobal := dto.isGlobal.getD row.isGlobal
    displayName := dto.displayName.getD row.displayName
    gitFilePath := dto.gitFilePath.or row.gitFilePath
    sensitiveKeys := dto.sensitiveKeys.getD row.sensitiveKeys }

/-- The document of the edit, with the stored values where it is masked. -/
def unmaskedDoc (group : ConfigGroup) (text : YamlText) : Object :=
  if !group.sensitiveKeys.isEmpty && group.yamlContent.isSome then
    group.sensitiveKeys.foldl (unmaskKey (parseYaml group.yamlContent)) (parseYaml (some text))
  else parseYaml (some text)

/-- The end of an edit: the secrets of a document, stored under a key of the group, and the row. -/
def storeDoc (row : ConfigGroup) (doc : Object) : ConfigProg ConfigGroupDto := do
  let parsed ← Prog.foldEach (storeKey row.id) doc row.sensitiveKeys
  let saved := { row with yamlContent := dumpNonEmpty parsed }
  ConfigRepo.saveGroup saved
  Prog.ofExcept (mapGroupToDto saved)

/-- The edit of a loaded row. -/
def writeEdit (dto : UpsertConfigGroupDto) (group : ConfigGroup) (stored : Bool) :
    ConfigProg ConfigGroupDto :=
  match dto.yamlContent with
  | none => do
    let saved ← saveLoaded group stored
    Prog.ofExcept (mapGroupToDto saved)
  | some text => do
    let enabled ← Prog.gets fun db => db.vault.enabled
    if !group.sensitiveKeys.isEmpty && enabled then do
      let row ← (if stored then pure group else ConfigRepo.insertGroup group :
        ConfigProg ConfigGroup)
      storeDoc row (unmaskedDoc group text)
    else do
      let saved ← saveLoaded { group with yamlContent := dumpNonEmpty (unmaskedDoc group text) } stored
      Prog.ofExcept (mapGroupToDto saved)

theorem storeDoc_drafting {row : ConfigGroup} {doc : Object} (hid : row.id ∉ σ.frozen)
    (hrevision : row.revisionId = d) (hkeys : ∀ keyPath ∈ row.sensitiveKeys, σ.keyOk keyPath)
    (h : Filling σ ∅ db₀ d row.id doc db) : Drafting σ db₀ d (storeDoc row doc db).2 := by
  have hloop : Meets (Filling σ ∅ db₀ d row.id doc)
      (Prog.foldEach (storeKey row.id) doc row.sensitiveKeys)
      (fun parsed => Filling σ ∅ db₀ d row.id parsed) fun _ => Drafting σ db₀ d := by
    apply Meets.foldEach
    intro parsed keyPath hmem
    refine (storeKey_filling hid (hkeys keyPath hmem)).consequence (fun _ h => h) (fun _ _ h => h)
      fun _ db₂ h₂ => ?_
    have hdrafting := h₂.drafting
    rw [Scope.losing_empty] at hdrafting
    exact hdrafting
  refine Meets.exit (hloop.bind fun parsed => Meets.bind (R := fun _ => Drafting σ db₀ d) ?_
    fun _ => Meets.of_keeps (Keeps.ofExcept _)) h
  intro db₂ h₂
  exact @Filling.save σ db₀ db₂ d ∅ { row with yamlContent := dumpNonEmpty parsed } parsed h₂ hid
    hrevision hkeys (parseYaml_dumpNonEmpty parsed) fun i hi => (by cases hi)

theorem writeEdit_drafting (h : Drafting σ db₀ d db) {dto : UpsertConfigGroupDto}
    (hdto : EditOk σ dto) {group : ConfigGroup} {stored : Bool} (hgroup : RowOk σ d group stored db)
    (hblank : stored = false → group.yamlContent = none) :
    Drafting σ db₀ d (writeEdit dto group stored db).2 := by
  unfold writeEdit
  cases hyaml : dto.yamlContent with
  | none =>
      obtain ⟨saved, db', hsave, hdb'⟩ := saveLoaded_drafting h hgroup
      dsimp only
      rw [bind_run_ok hsave]
      exact hdb'
  | some text =>
      have htext : (parseYaml (some text)).Refs fun _ => False := hyaml ▸ hdto.yaml
      have hdoc : (unmaskedDoc group text).Refs (σ.Names db.vault (insert group.id σ.frozen)) := by
        have hplain : (parseYaml (some text)).Refs (σ.Names db.vault (insert group.id σ.frozen)) :=
          htext.mono fun _ hfalse => hfalse.elim
        unfold unmaskedDoc
        split
        · exact unmaskKeys_refs hgroup.doc hplain _
        · exact hplain
      have hnew : stored = false → (unmaskedDoc group text).Refs fun _ => False := by
        intro hstored
        have hnone : (!group.sensitiveKeys.isEmpty && group.yamlContent.isSome) = false := by
          rw [hblank hstored, Option.isSome_none, Bool.and_false]
        unfold unmaskedDoc
        rw [hnone]
        exact htext
      dsimp only
      rw [gets_bind_run]
      split
      · -- the secrets of the edit go under the group's key, which a new group gets first
        cases stored with
        | true =>
            obtain ⟨hold, hused⟩ := hgroup.old rfl
            apply storeDoc_drafting hold hgroup.revision hgroup.keys
            exact ⟨by rw [Scope.losing_empty]; exact h, hused, hdoc⟩
        | false =>
            have hinserted := h.insertGroup hgroup.revision hgroup.keys
              ((hgroup.new rfl).mono fun _ hfalse => hfalse.elim)
            apply @storeDoc_drafting σ db₀ (ConfigRepo.insertGroup group db).2 d
              { group with id := db.nextId } (unmaskedDoc group text) h.fresh hgroup.revision hgroup.keys
            exact ⟨by rw [Scope.losing_empty]; exact hinserted, Nat.lt_succ_self _,
              (hnew rfl).mono fun _ hfalse => hfalse.elim⟩
      · have hsaveOk : RowOk σ d { group with yamlContent := dumpNonEmpty (unmaskedDoc group text) }
            stored db := by
          refine ⟨hgroup.revision, hgroup.keys, ?_, hgroup.old, ?_⟩
          · rw [parseYaml_dumpNonEmpty]
            exact hdoc
          · rw [parseYaml_dumpNonEmpty]
            exact hnew
        obtain ⟨saved, db', hsave, hdb'⟩ := saveLoaded_drafting h hsaveOk
        rw [bind_run_ok hsave]
        exact hdb'

theorem editDraftGroup_run {dto : UpsertConfigGroupDto} {row : ConfigGroup} {stored : Bool}
    (hload : loadGroup d dto.name db = (.ok (row, stored), db)) :
    editDraftGroup d dto db = writeEdit dto (editedGroup dto row) stored db := by
  unfold editDraftGroup writeEdit
  rw [bind_run_ok hload]
  dsimp only
  cases dto.yamlContent with
  | none => rfl
  | some text =>
      dsimp only
      rw [gets_bind_run, gets_bind_run]
      unfold storeDoc unmaskedDoc editedGroup
      dsimp only
      split
      · cases stored with
        | true => rfl
        | false => rfl
      · rfl

/-- **Main result.** An edit of the draft. -/
theorem editDraftGroup_drafting {dto : UpsertConfigGroupDto} (hdto : EditOk σ dto) :
    Keeps (Drafting σ db₀ d) (editDraftGroup d dto) := by
  intro db h
  obtain ⟨row, stored, hload, hrow, hblank⟩ := loadGroup_drafting h dto.name
  have hkeys : ∀ keyPath ∈ dto.sensitiveKeys.getD row.sensitiveKeys, σ.keyOk keyPath := by
    cases hdtoKeys : dto.sensitiveKeys with
    | none => exact hrow.keys
    | some keys => exact hdto.keys keys hdtoKeys
  rw [editDraftGroup_run hload]
  exact writeEdit_drafting h hdto ⟨hrow.revision, hkeys, hrow.doc, hrow.old, hrow.new⟩ hblank

/-! ### Deletions -/

/-- What the deletion of one sensitive key keeps, the deletion of all of them keeps. -/
theorem deleteGroupVaultSecrets_of_each {P : ConfigDb → Prop} {group : ConfigGroup}
    (hkey : ∀ keyPath, Meets P
      (Prog.tryCatch
        (vaultCall (Vault.deleteSecret (configVaultKeySecretName group.id keyPath) configVaultField))
        fun _ => pure ())
      (fun _ => P) fun _ _ => False) :
    Meets P (deleteGroupVaultSecrets group) (fun _ => P) fun _ _ => False := by
  unfold deleteGroupVaultSecrets
  refine Meets.gets_bind fun enabled => ?_
  refine Meets.consequence (P := P) (Meets.ite (Meets.forEach fun keyPath _ => ?_)
    (Meets.pure fun s h => h)) (fun _ h => h.1) (fun _ _ h => h) fun _ _ h => h
  cases vaultRefAt (parseYaml group.yamlContent) keyPath with
  | none => exact Meets.pure fun s h => h
  | some _ => exact hkey keyPath

/-- The secrets of a group of the draft are deleted: the group counts as lost. -/
theorem deleteGroupVaultSecrets_drafting {ids : Set ℕ} {rows : List ConfigGroup} {group : ConfigGroup}
    (hid : group.id ∉ σ.frozen) (hmem : group.id ∈ ids) :
    Meets (fun db => Drafting (σ.losing ids) db₀ d db ∧ db.groups = rows)
      (deleteGroupVaultSecrets group)
      (fun _ db => Drafting (σ.losing ids) db₀ d db ∧ db.groups = rows) fun _ _ => False := by
  apply deleteGroupVaultSecrets_of_each
  intro keyPath db ⟨h, hrows⟩
  obtain ⟨r, secrets, faults, hrun, hkept, hsub⟩ := Vault.deleteSecret_outcome h.settled.enabled
    (configVaultKeySecretName group.id keyPath) configVaultField
  have hpath : Vault.dataPath db.vault.mountPath (configVaultKeySecretName group.id keyPath) =
      secretPath σ.mount group.id keyPath := by
    rw [h.settled.mount]
    rfl
  rw [hpath] at hkept
  have hshrunk := @Settled.shrink _ _ h.settled _ _ secrets faults hkept hsub
  rw [Scope.losing_losing σ (Set.singleton_subset_iff.mpr hmem)] at hshrunk
  have hafter : Drafting (σ.losing ids) db₀ d
      { db with vault := { db.vault with secrets := secrets, faults := faults } } :=
    ⟨⟨hshrunk, h.unmoved.vault hid hkept⟩, h.draft⟩
  unfold Prog.tryCatch
  rw [vaultCall_run hrun]
  cases r with
  | ok _ => exact ⟨hafter, hrows⟩
  | error e => exact ⟨hafter, hrows⟩

/-- A lost group leaves the draft. -/
theorem removeGroup_drafting {id : ℕ} (hid : id ∉ σ.frozen) (h : Drafting (σ.losing {id}) db₀ d db) :
    Drafting σ db₀ d (ConfigRepo.removeGroup id db).2 := by
  have hunmoved := h.unmoved.removeGroup h.settled hid
  have hsettled := h.settled.dropGroups (Rows.deleteWhere_sublist (fun g => g.id == id) db.groups)
  refine ⟨⟨hsettled.restore (fun i hi => (show i = id from hi) ▸ hid) ?_, hunmoved.revisions,
    hunmoved.groups, hunmoved.secrets⟩, h.draft⟩
  intro g hg hlost
  have hne := (Rows.mem_deleteWhere.mp hg).2
  exact absurd (show g.id = id from hlost) (by simpa using hne)

/-- **Main result.** A group of the draft is deleted with its secrets. -/
theorem deleteDraftGroup_drafting (name : String) :
    Keeps (Drafting σ db₀ d) (deleteDraftGroup d name) := by
  intro db h
  unfold deleteDraftGroup
  rw [gets_bind_run]
  cases hfound : db.findGroup d name with
  | none => exact h
  | some group =>
      obtain ⟨-, -, hid, -⟩ := h.of_findGroup hfound
      have hdelete := @deleteGroupVaultSecrets_drafting σ db₀ d {group.id} db.groups group hid rfl
      have hremove : Meets (fun db' => Drafting (σ.losing {group.id}) db₀ d db' ∧ db'.groups = db.groups)
          (do
            ConfigRepo.removeGroup group.id
            pure true : ConfigProg Bool)
          (fun _ => Drafting σ db₀ d) fun _ => Drafting σ db₀ d :=
        fun db' h' => removeGroup_drafting hid h'.1
      exact (hdelete.never_throws.bind fun _ => hremove).exit ⟨h.losing _, rfl⟩

end ConfigService

end UploadService
