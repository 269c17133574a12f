import Mathlib.Logic.Relation
import UploadService.Config.Population

/-!
# The names of secrets

`CONFIG_VAULT_KEY_SECRET_NAME` writes a dot of a key path as two underscores, so a key path with
underscores of its own may get the name of another one. And a secret's reference is split at its
last `/`, so a key path with a `/` is not read back.

Main results:

- `storedRef_decodes_iff`: the reference a store returns is decoded to what was stored exactly where
  the key path has no `/`;
- `configVaultKeySecretName_eq_iff`: two names are one exactly where the groups are one and the key
  paths are the same up to `.` and `__`;
- `secretNames_alias_iff`: what follows for the value that a key resolves to, for a single store and
  for the calls that store and delete secrets.
-/

namespace UploadService

open Prog

namespace Vault

/-! ### References -/

/-- A text after the last `c` has no `c`. -/
theorem not_mem_afterLast (c : Char) (s : List Char) : c ∉ afterLast c s := by
  intro h
  unfold afterLast at h
  have hall := List.all_eq_true.mp List.all_takeWhile c (List.mem_reverse.mp h)
  simp at hall

/-- What a reference names has no `/`. -/
theorem slash_not_mem_secretId (ref : String) : '/' ∉ (parseVaultRef ref).secretId.toList := by
  unfold parseVaultRef
  dsimp only
  rw [String.toList_ofList]
  exact not_mem_afterLast '/' _

/-- **Spec.** A store that comes through returns the reference of the secret. -/
theorem storeSecret_ref {name field value ref : String} {v v' : Vault}
    (h : storeSecret name field value v = (.ok ref, v')) : ref = makeRef v.mountPath name field := by
  by_cases hname : name = ""
  · unfold storeSecret at h
    rw [if_pos hname] at h
    cases h
  cases henabled : v.enabled with
  | false =>
      have hthrows : ∃ e, assertEnabled v = (.error e, v) := by
        unfold assertEnabled
        rw [gets_bind_run, henabled]
        exact ⟨_, rfl⟩
      obtain ⟨e, hthrows⟩ := hthrows
      unfold storeSecret at h
      rw [if_neg hname, bind_run_error hthrows] at h
      cases h
  | true =>
      obtain ⟨faults, ⟨e, hrun⟩ | hrun⟩ := storeSecret_outcome henabled hname field value
      · rw [hrun] at h
        cases h
      · rw [hrun] at h
        exact (Except.ok.inj (Prod.mk.inj h).1).symm

/-! ### One value under the other requests -/

/-- Vault has the mount path, and the field under the data path has the value. -/
def Holds (mountPath path field : String) (x : Option String) (v : Vault) : Prop :=
  v.mountPath = mountPath ∧ v.valueAt path field = x

section Holds

variable {mountPath path field name : String} {x : Option String}

theorem fetchRawSecrets_holds (name : String) :
    Keeps (Holds mountPath path field x) (fetchRawSecrets name) := by
  unfold fetchRawSecrets
  refine Keeps.bind (fun v h => h) fun fault => ?_
  cases fault with
  | some detail => exact Keeps.throw _
  | none => exact Keeps.gets _

/-- What is written under another path. -/
theorem Holds.setPath {v : Vault} (h : Holds mountPath path field x v)
    (hne : path ≠ dataPath mountPath name) (fields : List (String × String)) :
    Holds mountPath path field x
      { v with secrets := ObjectMap.set v.secrets (dataPath v.mountPath name) fields } := by
  refine ⟨h.1, ?_⟩
  rw [← h.2, h.1]
  unfold valueAt
  dsimp only
  rw [ObjectMap.get?_set, if_neg hne]

theorem storeSecret_holds (hne : path ≠ dataPath mountPath name) (field' value : String) :
    Keeps (Holds mountPath path field x) (storeSecret name field' value) := by
  unfold storeSecret
  refine Keeps.ite (Keeps.throw _) (Keeps.bind ?_ fun _ => ?_)
  · exact Keeps.bind (Keeps.gets _) fun _ => Keeps.ite (Keeps.pure _) (Keeps.throw _)
  refine Keeps.bind (fetchRawSecrets_holds name) fun existing => ?_
  refine Keeps.bind (fun v h => h) fun fault => ?_
  cases fault with
  | some detail => exact Keeps.throw _
  | none =>
      refine Keeps.bind (Keeps.modify fun v h => ?_) fun _ => Keeps.gets _
      exact h.setPath hne _

theorem deleteSecret_holds (hne : path ≠ dataPath mountPath name) (field' : String) :
    Keeps (Holds mountPath path field x) (deleteSecret name field') := by
  unfold deleteSecret
  refine Keeps.bind (Keeps.gets _) fun enabled => Keeps.ite (Keeps.pure _) ?_
  refine Keeps.bind (fetchRawSecrets_holds name) fun existing => ?_
  cases existing with
  | none => exact Keeps.pure _
  | some existing =>
      refine Keeps.ite (Keeps.bind (fun v h => h) fun fault => ?_)
        (Keeps.bind (fun v h => h) fun fault => ?_)
      · cases fault with
        | some detail => exact Keeps.pure _
        | none =>
            refine Keeps.modify fun v h => ⟨h.1, ?_⟩
            rw [← h.2, h.1]
            unfold valueAt
            dsimp only
            rw [ObjectMap.get?_erase, if_neg hne]
      · cases fault with
        | some detail => exact Keeps.throw _
        | none => exact Keeps.modify fun v h => h.setPath hne _

end Holds

end Vault

namespace ConfigService

/-! ### Reading a stored secret back -/

/-- **Main result.** The reference that a store returns is decoded to the mount path, the name and
the field of the secret exactly where the key path has no `/`. -/
theorem storedRef_decodes_iff {v v' : Vault} {groupId : ℕ} {keyPath value ref : String}
    (h : Vault.storeSecret (configVaultKeySecretName groupId keyPath) configVaultField value v =
      (.ok ref, v')) :
    (Vault.parseVaultRef ref =
        ⟨v.mountPath, configVaultKeySecretName groupId keyPath, configVaultField⟩ ∧
      Vault.isVaultRef ref = true) ↔ '/' ∉ keyPath.toList := by
  have href : ref = secretRef v.mountPath groupId keyPath := Vault.storeSecret_ref h
  rw [href]
  constructor
  · rintro ⟨hparsed, -⟩ hslash
    have hnot := Vault.slash_not_mem_secretId (secretRef v.mountPath groupId keyPath)
    rw [hparsed] at hnot
    exact hnot (slash_mem_name_iff.mpr hslash)
  · exact fun hslash => ⟨parseVaultRef_secretRef hslash, isVaultRef_secretRef _ _ _⟩

/-- A Vault that answers and holds nothing. -/
def answeringVault (mountPath : String) : Vault where
  enabled := true
  mountPath := mountPath
  secrets := []
  faults := []

theorem storedRef_decodes_hash :
    Vault.parseVaultRef (secretRef "a/b" 7 "x#y:z") =
        ⟨"a/b", configVaultKeySecretName 7 "x#y:z", configVaultField⟩ ∧
      Vault.isVaultRef (secretRef "a/b" 7 "x#y:z") = true :=
  (@storedRef_decodes_iff (answeringVault "a/b") _ 7 "x#y:z" "s" _ rfl).mpr (by decide)

/-- A key path with a slash is stored under one path and read from another one. -/
theorem storedRef_slash_lost :
    (Vault.storeSecret (configVaultKeySecretName 7 "tls/key") configVaultField "s"
        (answeringVault "m")).1 = .ok (secretRef "m" 7 "tls/key") ∧
      Vault.parseVaultRef (secretRef "m" 7 "tls/key") =
        ⟨"m/config-group-7-key-tls", "key", configVaultField⟩ ∧
      Vault.parseVaultRef (secretRef "m" 7 "tls/key") ≠
        ⟨"m", configVaultKeySecretName 7 "tls/key", configVaultField⟩ := by
  decide +kernel

/-! ### Names -/

/-- One dot of the first key path is two underscores in the second one. -/
def Respelled (k k' : List Char) : Prop := ∃ a b, k = a ++ '.' :: b ∧ k' = a ++ '_' :: '_' :: b

/-- Key paths that are the same up to `.` and `__`. -/
def Aliased (keyPath keyPath' : String) : Prop :=
  Relation.EqvGen Respelled keyPath.toList keyPath'.toList

/-- The characters of a key path in the name of its secret. -/
def underscoredChars (k : List Char) : List Char :=
  k.flatMap fun c => if c = '.' then ['_', '_'] else [c]

theorem underscoredChars_of_aliased {k k' : List Char} (h : Relation.EqvGen Respelled k k') :
    underscoredChars k = underscoredChars k' := by
  induction h with
  | rel k k' hstep =>
      obtain ⟨a, b, rfl, rfl⟩ := hstep
      unfold underscoredChars
      simp [List.flatMap_append]
  | refl k => rfl
  | symm k k' _ ih => exact ih.symm
  | trans k k' k'' _ _ ih ih' => exact ih.trans ih'

/-- A character in front keeps key paths the same. -/
theorem Respelled.cons (c : Char) {k k' : List Char} (h : Relation.EqvGen Respelled k k') :
    Relation.EqvGen Respelled (c :: k) (c :: k') := by
  induction h with
  | rel k k' hstep =>
      obtain ⟨a, b, rfl, rfl⟩ := hstep
      exact .rel _ _ ⟨c :: a, b, rfl, rfl⟩
  | refl k => exact .refl _
  | symm k k' _ ih => exact .symm _ _ ih
  | trans k k' k'' _ _ ih ih' => exact .trans _ _ _ ih ih'

/-- All dots are written as underscores, one after the other. -/
theorem aliased_underscoredChars (k : List Char) :
    Relation.EqvGen Respelled k (underscoredChars k) := by
  induction k with
  | nil => exact .refl _
  | cons c k ih =>
      by_cases hdot : c = '.'
      · have hfirst : Respelled (c :: k) ('_' :: '_' :: k) := ⟨[], k, by rw [hdot]; rfl, rfl⟩
        have hrest := Respelled.cons '_' (Respelled.cons '_' ih)
        have hchars : underscoredChars (c :: k) = '_' :: '_' :: underscoredChars k := by
          unfold underscoredChars
          rw [List.flatMap_cons, if_pos hdot]
          rfl
        rw [hchars]
        exact .trans _ _ _ (.rel _ _ hfirst) hrest
      · have hchars : underscoredChars (c :: k) = c :: underscoredChars k := by
          unfold underscoredChars
          rw [List.flatMap_cons, if_neg hdot]
          rfl
        rw [hchars]
        exact Respelled.cons c ih

/-- **Main result.** Two key paths are written alike exactly where they are the same up to `.` and
`__`. -/
theorem underscored_eq_iff {keyPath keyPath' : String} :
    underscored keyPath = underscored keyPath' ↔ Aliased keyPath keyPath' := by
  have hchars : ∀ k : String, (underscored k).toList = underscoredChars k.toList :=
    fun k => String.toList_ofList
  rw [← String.toList_inj, hchars, hchars]
  constructor
  · intro h
    have hback := (aliased_underscoredChars keyPath'.toList).symm
    exact .trans _ _ _ (h ▸ aliased_underscoredChars keyPath.toList) hback
  · exact underscoredChars_of_aliased

instance (keyPath keyPath' : String) : Decidable (Aliased keyPath keyPath') :=
  decidable_of_iff _ underscored_eq_iff

/-- **Main result.** Two secrets have one name exactly where they are secrets of one group, for key
paths that are the same up to `.` and `__`. -/
theorem configVaultKeySecretName_eq_iff {i j : ℕ} {keyPath keyPath' : String} :
    configVaultKeySecretName i keyPath = configVaultKeySecretName j keyPath' ↔
      i = j ∧ Aliased keyPath keyPath' := by
  rw [← String.toList_inj, toList_configVaultKeySecretName, toList_configVaultKeySecretName]
  constructor
  · intro h
    obtain rfl := namePrefix_inj h
    exact ⟨rfl, underscored_eq_iff.mp (String.toList_inj.mp (List.append_cancel_left h))⟩
  · rintro ⟨rfl, halias⟩
    rw [underscored_eq_iff.mpr halias]

/-- The secret of another name is read from another path, whatever the key path holds. -/
theorem refPath_ne_of_not_aliased {mountPath : String} {i j : ℕ} {keyPath keyPath' : String}
    (h : ¬ (i = j ∧ Aliased keyPath keyPath')) :
    Vault.refPath (secretRef mountPath j keyPath') ≠ secretPath mountPath i keyPath := by
  by_cases hslash : '/' ∈ keyPath'.toList
  · have hpart := (beforeLast_secretRef mountPath j keyPath').2
    rw [toList_configVaultKeySecretName] at hpart
    have hrest : '/' ∈ (underscored keyPath').toList := by
      have hname := (@slash_mem_name_iff j keyPath').mpr hslash
      rw [toList_configVaultKeySecretName] at hname
      exact (List.mem_append.mp hname).resolve_left (slash_not_mem_namePrefix j)
    exact refPath_ne_of_slash hpart hrest i keyPath
  · rw [refPath_secretRef hslash]
    intro heq
    apply h
    unfold secretPath at heq
    rw [← String.toList_inj, toList_dataPath, toList_dataPath] at heq
    have hname := List.append_cancel_left (List.cons.inj (List.append_cancel_left heq)).2
    obtain ⟨rfl, halias⟩ := configVaultKeySecretName_eq_iff.mp (String.toList_inj.mp hname)
    exact ⟨rfl, halias.symm⟩

/-! ### One key at a time -/

/-- The value in Vault, and a property of the groups and of the next key. -/
def Holding (mountPath path field : String) (x : Option String)
    (E : List ConfigGroup → ℕ → Prop) (db : ConfigDb) : Prop :=
  Vault.Holds mountPath path field x db.vault ∧ E db.groups db.nextId

section Keys

variable {mountPath path field : String} {x : Option String} {E : List ConfigGroup → ℕ → Prop}

theorem vaultCall_holding {α : Type} {p : VaultProg α}
    (hp : Keeps (Vault.Holds mountPath path field x) p) :
    Keeps (Holding mountPath path field x E) (vaultCall p) :=
  fun db h => ⟨hp db.vault h.1, h.2⟩

theorem holding_requests : VaultRequests (Holding mountPath path field x E) :=
  fun _ _ h => h

/-- One sensitive key of `upsertGroup`. -/
theorem storeKey_holding {groupId : ℕ} {keyPath : String}
    (hne : path ≠ secretPath mountPath groupId keyPath) (parsed : Object) :
    Keeps (Holding mountPath path field x E) (storeKey groupId parsed keyPath) := by
  unfold storeKey
  split
  · exact Keeps.pure _
  · exact Keeps.pure _
  · refine Keeps.ite (Keeps.pure _) ?_
    exact Keeps.bind (vaultCall_holding (Vault.storeSecret_holds hne _ _)) fun _ => Keeps.ofExcept _

/-- One sensitive key of `populateDraftFromConfigMaps`. -/
theorem storeMergedKey_holding {groupId : ℕ} {keyPath : String}
    (hne : path ≠ secretPath mountPath groupId keyPath) (mergedObj : Object) :
    Keeps (Holding mountPath path field x E) (storeMergedKey groupId mergedObj keyPath) := by
  unfold storeMergedKey
  split
  · exact Keeps.pure _
  · exact Keeps.pure _
  · exact Keeps.bind (vaultCall_holding (Vault.storeSecret_holds hne _ _)) fun _ => Keeps.ofExcept _

/-- One sensitive key of `cloneGroupToRevision`. -/
theorem cloneKey_holding {newGroupId : ℕ} {keyPath : String}
    (hne : path ≠ secretPath mountPath newGroupId keyPath) (parsed : Object) :
    Keeps (Holding mountPath path field x E) (cloneKey newGroupId parsed keyPath) := by
  unfold cloneKey
  cases vaultRefAt parsed keyPath with
  | none => exact Keeps.pure _
  | some ref =>
      refine Keeps.tryCatch (Keeps.bind (resolveSecret_keeps holding_requests _) fun resolved => ?_)
        fun _ => Keeps.pure _
      cases resolved with
      | none => exact Keeps.pure _
      | some plaintext =>
          exact Keeps.bind (vaultCall_holding (Vault.storeSecret_holds hne _ _)) fun _ => Keeps.pure _

/-- All sensitive keys of `deleteGroupVaultSecrets`. -/
theorem deleteGroupVaultSecrets_holding {group : ConfigGroup}
    (hne : ∀ keyPath ∈ group.sensitiveKeys, path ≠ secretPath mountPath group.id keyPath) :
    Keeps (Holding mountPath path field x E) (deleteGroupVaultSecrets group) := by
  refine Keeps.bind (Keeps.gets _) fun enabled => ?_
  refine Keeps.when (Keeps.forEach fun keyPath hkey => ?_)
  cases vaultRefAt (parseYaml group.yamlContent) keyPath with
  | none => exact Keeps.pure _
  | some _ =>
      exact Keeps.tryCatch (vaultCall_holding (Vault.deleteSecret_holds (hne keyPath hkey) _))
        fun _ => Keeps.pure _

end Keys

/-! ### Whole calls -/

/-- The calls of the config service that store and delete secrets. -/
inductive SecretCaller where
  | upsertGroup (peers : Peers) (dto : UpsertConfigGroupDto)
  | cloneGroupToRevision (source : ConfigGroup) (targetRevisionId position : ℕ)
  | populateDraftFromConfigMaps (peers : Peers) (draftId : ℕ) (deviceId : String)
      (knownDeviceTypeIds : Option (List ℕ))
  | deleteGroupVaultSecrets (group : ConfigGroup)

/-- The store after the call. -/
def SecretCaller.exec (db : ConfigDb) : SecretCaller → ConfigDb
  | upsertGroup peers dto => (ConfigService.upsertGroup peers dto db).2
  | cloneGroupToRevision source targetRevisionId position =>
      (ConfigService.cloneGroupToRevision source targetRevisionId position db).2
  | populateDraftFromConfigMaps peers draftId deviceId known =>
      (ConfigService.populateDraftFromConfigMaps peers draftId deviceId known db).2
  | deleteGroupVaultSecrets group => (ConfigService.deleteGroupVaultSecrets group db).2

/-- The groups of the config maps that reach a device. -/
def mapGroups (db : ConfigDb) (peers : Peers) (deviceId : String) (known : Option (List ℕ)) :
    List ConfigGroup :=
  (reachingRevisions db (known.getD (peers.deviceTypeIds deviceId)) deviceId).flatMap fun r =>
    db.groupsOf r.id

/-- The groups and key paths whose secrets the call may store or delete. -/
def SecretCaller.Handles (db : ConfigDb) : SecretCaller → ℕ → String → Prop
  | upsertGroup _ dto, i, keyPath =>
      (∃ g ∈ db.groups, g.id = i ∧ g.name = dto.name ∧ keyPath ∈ dto.sensitiveKeys.getD g.sensitiveKeys) ∨
      (db.nextId ≤ i ∧ keyPath ∈ dto.sensitiveKeys.getD [])
  | cloneGroupToRevision source _ _, i, keyPath => i = db.nextId ∧ keyPath ∈ source.sensitiveKeys
  | populateDraftFromConfigMaps peers draftId deviceId known, i, keyPath =>
      (∃ g ∈ db.groupsOf draftId, g.id = i ∧ ∃ cm ∈ mapGroups db peers deviceId known,
        cm.name = g.name ∧ (keyPath ∈ g.sensitiveKeys ∨ keyPath ∈ cm.sensitiveKeys)) ∨
      (db.nextId ≤ i ∧ ∃ cm ∈ mapGroups db peers deviceId known, keyPath ∈ cm.sensitiveKeys)
  | deleteGroupVaultSecrets group, i, keyPath => i = group.id ∧ keyPath ∈ group.sensitiveKeys

section Calls

variable {mountPath path field : String} {x : Option String} {db : ConfigDb}

theorem cloneGroupToRevision_holds (h : Vault.Holds mountPath path field x db.vault)
    (source : ConfigGroup) (targetRevisionId position : ℕ)
    (hne : ∀ keyPath ∈ source.sensitiveKeys, path ≠ secretPath mountPath db.nextId keyPath) :
    Vault.Holds mountPath path field x
      (cloneGroupToRevision source targetRevisionId position db).2.vault := by
  refine And.left (b := True) ?_
  show Holding mountPath path field x (fun _ _ => True) _
  unfold cloneGroupToRevision
  refine Keeps.bind_after_ok ⟨h, trivial⟩ fun row s' hinsert => ?_
  have hid : row.id = db.nextId := by
    cases hinsert
    rfl
  refine Keeps.ite (Keeps.bind (Keeps.gets _) fun enabled => ?_) (Keeps.pure _)
  refine Keeps.bind (Keeps.ite (Keeps.foldEach (fun parsed keyPath hkey => ?_) _) (Keeps.pure _))
    fun parsed => Keeps.bind (fun db h => h) fun _ => Keeps.pure _
  exact cloneKey_holding (hid ▸ hne keyPath hkey) parsed

/-- `upsertGroup` in a store that has the groups of `db`, and maybe a new draft. -/
theorem editDraftGroup_holds {s : ConfigDb} (h : Vault.Holds mountPath path field x s.vault)
    (hgroups : s.groups = db.groups) (hnext : db.nextId ≤ s.nextId) (draftId : ℕ)
    (peers : Peers) (dto : UpsertConfigGroupDto)
    (hne : ∀ i keyPath, (SecretCaller.upsertGroup peers dto).Handles db i keyPath →
      path ≠ secretPath mountPath i keyPath) :
    Vault.Holds mountPath path field x (editDraftGroup draftId dto s).2.vault := by
  refine And.left (b := db.nextId ≤ (editDraftGroup draftId dto s).2.nextId) ?_
  show Holding mountPath path field x (fun _ n => db.nextId ≤ n) _
  -- what the edited row is, and which keys it has
  have hload : ∀ loaded s', loadGroup draftId dto.name s = (.ok loaded, s') →
      (loaded.2 = true → ∀ keyPath ∈ dto.sensitiveKeys.getD loaded.1.sensitiveKeys,
        path ≠ secretPath mountPath loaded.1.id keyPath) ∧
      (loaded.2 = false → loaded.1.sensitiveKeys = []) := by
    intro loaded s' hrun
    unfold loadGroup at hrun
    rw [gets_bind_run] at hrun
    cases hfound : s.findGroup draftId dto.name with
    | none =>
        rw [hfound] at hrun
        cases hrun
        exact ⟨fun heq => (by cases heq), fun _ => rfl⟩
    | some group =>
        rw [hfound] at hrun
        cases hrun
        have hmem : group ∈ db.groups := hgroups ▸ List.mem_of_find?_eq_some hfound
        have hname : group.name = dto.name := by
          have hboth := List.find?_some hfound
          simp only [Bool.and_eq_true, beq_iff_eq] at hboth
          exact hboth.2
        exact ⟨fun _ keyPath hkey => hne group.id keyPath (.inl ⟨group, hmem, rfl, hname, hkey⟩),
          fun heq => (by cases heq)⟩
  have hkeeps : Keeps (Holding mountPath path field x fun _ n => db.nextId ≤ n)
      (loadGroup draftId dto.name) := by
    refine Keeps.bind (Keeps.gets _) fun found => ?_
    cases found with
    | none => exact Keeps.bind (Keeps.gets _) fun _ => Keeps.pure _
    | some group => exact Keeps.pure _
  have hsave : ∀ group : ConfigGroup, Keeps (Holding mountPath path field x fun _ n => db.nextId ≤ n)
      (ConfigRepo.saveGroup group) := fun _ _ h => h
  have hinsert : ∀ group : ConfigGroup, Keeps (Holding mountPath path field x fun _ n => db.nextId ≤ n)
      (ConfigRepo.insertGroup group) := fun _ _ h => ⟨h.1, Nat.le_succ_of_le h.2⟩
  have hsaveLoaded : ∀ (group : ConfigGroup) (stored : Bool),
      Keeps (Holding mountPath path field x fun _ n => db.nextId ≤ n) (saveLoaded group stored) :=
    fun group stored => Keeps.ite (Keeps.bind (hsave group) fun _ => Keeps.pure _) (hinsert group)
  unfold editDraftGroup
  refine Keeps.bind_after_ok (hkeeps s ⟨h, hnext⟩) fun loaded s' hrun => ?_
  obtain ⟨hstored, hfresh⟩ := hload loaded s' hrun
  cases dto.yamlContent with
  | none => exact Keeps.bind (hsaveLoaded _ _) fun _ => Keeps.ofExcept _
  | some text =>
      refine Keeps.bind (Keeps.gets _) fun enabled => Keeps.ite ?_ ?_
      · refine Keeps.bind_post (P := fun row =>
          ∀ keyPath ∈ dto.sensitiveKeys.getD loaded.1.sensitiveKeys,
            path ≠ secretPath mountPath row.id keyPath)
          (Keeps.ite (Keeps.pure _) (hinsert _)) ?_ fun row hapart => ?_
        · intro s₁ h₁ row s₂ hrow
          cases hold : loaded.2 with
          | true =>
              rw [hold] at hrow
              cases hrow
              exact hstored hold
          | false =>
              rw [hold] at hrow
              cases hrow
              intro keyPath hkey
              rw [hfresh hold] at hkey
              exact hne s₁.nextId keyPath (.inr ⟨h₁.2, hkey⟩)
        · refine Keeps.bind (Keeps.foldEach (fun parsed keyPath hkey => ?_) _) fun parsed => ?_
          · exact storeKey_holding (hapart keyPath hkey) parsed
          · exact Keeps.bind (hsave _) fun _ => Keeps.ofExcept _
      · exact Keeps.bind (hsaveLoaded _ _) fun _ => Keeps.ofExcept _

theorem upsertGroup_holds (h : Vault.Holds mountPath path field x db.vault) (peers : Peers)
    (dto : UpsertConfigGroupDto)
    (hne : ∀ i keyPath, (SecretCaller.upsertGroup peers dto).Handles db i keyPath →
      path ≠ secretPath mountPath i keyPath) :
    Vault.Holds mountPath path field x (upsertGroup peers dto db).2.vault := by
  have hstill : ∀ s : ConfigDb, Holding mountPath path field x
      (fun groups n => groups = db.groups ∧ db.nextId ≤ n) s →
      Vault.Holds mountPath path field x s.vault := fun _ hs => hs.1
  have hdraft : ∀ projectId, Keeps (Holding mountPath path field x
      fun groups n => groups = db.groups ∧ db.nextId ≤ n) (getOrCreateDraftRevision projectId) := by
    intro projectId
    refine Keeps.bind (Keeps.gets _) fun found => ?_
    cases found with
    | some existing => exact Keeps.pure _
    | none =>
        refine Keeps.bind (Keeps.gets _) fun max => ?_
        exact fun s hs => ⟨hs.1, hs.2.1, Nat.le_succ_of_le hs.2.2⟩
  unfold upsertGroup
  refine Keeps.bind_to (J := fun s => Vault.Holds mountPath path field x s.vault)
    (requireProject_keeps peers _ _) hstill (fun project s hs => ?_) ⟨h, rfl, Nat.le_refl _⟩
  exact Keeps.bind_to (J := fun s => Vault.Holds mountPath path field x s.vault)
    (hdraft project.id) hstill
    (fun draft s hs => editDraftGroup_holds hs.1 hs.2.1 hs.2.2 draft.id peers dto hne) hs

/-- The names and the sensitive keys of the merged groups are those of the groups that are merged. -/
def MergedFrom (maps : List ConfigGroup) (entry : String × MergedGroup) : Prop :=
  (∃ cm ∈ maps, cm.name = entry.1) ∧
    ∀ keyPath ∈ entry.2.sensitiveKeys, ∃ cm ∈ maps, cm.name = entry.1 ∧ keyPath ∈ cm.sensitiveKeys

theorem mergeGroup_mergedFrom {maps : List ConfigGroup} {cm : ConfigGroup} (hcm : cm ∈ maps)
    {merged : List (String × MergedGroup)} (h : ∀ entry ∈ merged, MergedFrom maps entry)
    (resolved : Object) :
    MergedFrom maps (cm.name, mergeGroup (ObjectMap.get? merged cm.name) cm resolved) := by
  refine ⟨⟨cm, hcm, rfl⟩, fun keyPath hkey => ?_⟩
  cases hentry : ObjectMap.get? merged cm.name with
  | none =>
      rw [hentry] at hkey
      rcases ObjectMap.mem_addKeys.mp hkey with hold | hnew
      · cases hold
      · exact ⟨cm, hcm, rfl, hnew⟩
  | some m =>
      rw [hentry] at hkey
      rcases ObjectMap.mem_addKeys.mp hkey with hold | hnew
      · exact (h _ (ObjectMap.mem_of_get? hentry)).2 keyPath hold
      · exact ⟨cm, hcm, rfl, hnew⟩

theorem mergeConfigMaps_mergedFrom {revisions : List ConfigRevision}
    {merged : List (String × MergedGroup)} {s' : ConfigDb}
    (h : mergeConfigMaps revisions db = (.ok merged, s')) :
    ∀ entry ∈ merged, MergedFrom (revisions.flatMap fun r => db.groupsOf r.id) entry := by
  have hloop : Prog.Returns
      (fun merged => ∀ entry ∈ merged, MergedFrom (revisions.flatMap fun r => db.groupsOf r.id) entry)
      (Prog.foldEach (fun merged cmGroup => do
        let resolved ← resolveGroupYaml cmGroup []
        pure (ObjectMap.set merged cmGroup.name
          (mergeGroup (ObjectMap.get? merged cmGroup.name) cmGroup resolved)) :
        List (String × MergedGroup) → ConfigGroup → ConfigProg _) []
        (revisions.flatMap fun r => db.groupsOf r.id)) := by
    refine Returns.foldEach (fun merged cm hcm hmerged => ?_) fun _ hentry => by cases hentry
    refine Returns.bind fun resolved => Returns.pure fun entry hentry => ?_
    rcases ObjectMap.mem_set hentry with rfl | hentry
    · exact mergeGroup_mergedFrom hcm hmerged resolved
    · exact hmerged entry hentry
  unfold mergeConfigMaps at h
  rw [gets_bind_run] at h
  exact hloop db merged s' h

/-- The secrets of a row of the draft that a merged group may be written into are in `H`. -/
def RowHandled (maps : List ConfigGroup) (H : ℕ → String → Prop) (g : ConfigGroup) : Prop :=
  (∃ cm ∈ maps, cm.name = g.name) → ∀ keyPath,
    keyPath ∈ g.sensitiveKeys ∨ (∃ cm ∈ maps, cm.name = g.name ∧ keyPath ∈ cm.sensitiveKeys) →
    H g.id keyPath

/-- The rows of the draft are in `H`, and so are the secrets of rows still to come. -/
def DraftHandled (maps : List ConfigGroup) (H : ℕ → String → Prop) (draftId : ℕ)
    (groups : List ConfigGroup) (nextId : ℕ) : Prop :=
  (∀ g ∈ groups, g.revisionId = draftId → RowHandled maps H g) ∧
    ∀ i, nextId ≤ i → ∀ cm ∈ maps, ∀ keyPath ∈ cm.sensitiveKeys, H i keyPath

section Merged

variable {maps : List ConfigGroup} {H : ℕ → String → Prop} {draftId : ℕ}

theorem saveGroup_draftHandled {row : ConfigGroup} (hrow : RowHandled maps H row) :
    Keeps (Holding mountPath path field x (DraftHandled maps H draftId)) (ConfigRepo.saveGroup row) := by
  refine Keeps.modify fun s hs => ⟨hs.1, fun g hg hdraft => ?_, hs.2.2⟩
  rcases Rows.mem_save.mp hg with rfl | ⟨hmem, -⟩
  · exact hrow
  · exact hs.2.1 g hmem hdraft

/-- The row that a merged group is written into. -/
theorem draftGroupFor_draftHandled {entry : String × MergedGroup} (hentry : MergedFrom maps entry)
    (hne : ∀ i keyPath, H i keyPath → path ≠ secretPath mountPath i keyPath) :
    Keeps (Holding mountPath path field x (DraftHandled maps H draftId))
        (draftGroupFor draftId entry.1 entry.2) ∧
      ∀ s, Holding mountPath path field x (DraftHandled maps H draftId) s →
        ∀ row s', draftGroupFor draftId entry.1 entry.2 s = (.ok row, s') →
          row.name = entry.1 ∧ row.sensitiveKeys = entry.2.sensitiveKeys ∧ RowHandled maps H row := by
  have hnew : ∀ (s : ConfigDb) (position : ℕ),
      Holding mountPath path field x (DraftHandled maps H draftId) s →
      RowHandled maps H { mergedRow draftId entry.1 entry.2 position with id := s.nextId } := by
    intro s position hs _ keyPath hkey
    rcases hkey with hkey | ⟨cm, hcm, -, hkey⟩
    · obtain ⟨cm, hcm, -, hkey⟩ := hentry.2 keyPath hkey
      exact hs.2.2 s.nextId (Nat.le_refl _) cm hcm keyPath hkey
    · exact hs.2.2 s.nextId (Nat.le_refl _) cm hcm keyPath hkey
  have hfound : ∀ (s : ConfigDb) (group : ConfigGroup),
      Holding mountPath path field x (DraftHandled maps H draftId) s →
      s.findGroup draftId entry.1 = some group →
      group.name = entry.1 ∧ RowHandled maps H group ∧
        RowHandled maps H { group with sensitiveKeys := entry.2.sensitiveKeys } := by
    intro s group hs hfind
    have hboth := List.find?_some hfind
    simp only [Bool.and_eq_true, beq_iff_eq] at hboth
    have hold := hs.2.1 group (List.mem_of_find?_eq_some hfind) hboth.1
    refine ⟨hboth.2, hold, fun hmaps keyPath hkey => ?_⟩
    rcases hkey with hkey | hkey
    · obtain ⟨cm, hcm, hname, hkey⟩ := hentry.2 keyPath hkey
      exact hold hmaps keyPath (.inr ⟨cm, hcm, hname.trans hboth.2.symm, hkey⟩)
    · exact hold hmaps keyPath (.inr hkey)
  have hdelete : ∀ (s : ConfigDb) (group : ConfigGroup),
      Holding mountPath path field x (DraftHandled maps H draftId) s →
      s.findGroup draftId entry.1 = some group →
      Keeps (Holding mountPath path field x (DraftHandled maps H draftId))
        (deleteGroupVaultSecrets group) := by
    intro s group hs hfind
    obtain ⟨hname, hold, -⟩ := hfound s group hs hfind
    obtain ⟨cm, hcm, hcmName⟩ := hentry.1
    refine deleteGroupVaultSecrets_holding fun keyPath hkey => hne _ _ ?_
    exact hold ⟨cm, hcm, hcmName.trans hname.symm⟩ keyPath (.inl hkey)
  constructor
  · intro s hs
    unfold draftGroupFor
    rw [gets_bind_run]
    cases hfind : s.findGroup draftId entry.1 with
    | none =>
        refine ⟨hs.1, fun g hg hdraft => ?_, fun i hi => hs.2.2 i (Nat.le_of_succ_le hi)⟩
        rcases List.mem_append.mp hg with hmem | hmem
        · exact hs.2.1 g hmem hdraft
        · rw [List.mem_singleton.mp hmem]
          exact hnew s (nextGroupPosition s draftId) hs
    | some group =>
        refine (hdelete s group hs hfind).bind (fun _ => ?_) s hs
        exact Keeps.bind (saveGroup_draftHandled (hfound s group hs hfind).2.2) fun _ => Keeps.pure _
  · intro s hs row s' hrun
    unfold draftGroupFor at hrun
    rw [gets_bind_run] at hrun
    cases hfind : s.findGroup draftId entry.1 with
    | none =>
        rw [hfind] at hrun
        cases hrun
        exact ⟨rfl, rfl, hnew s (nextGroupPosition s draftId) hs⟩
    | some group =>
        rw [hfind] at hrun
        obtain ⟨_, s₁, -, hrest⟩ := bind_ok_inv hrun
        cases hrest
        exact ⟨(hfound s group hs hfind).1, rfl, (hfound s group hs hfind).2.2⟩

/-- **Step.** A merged group writes only secrets in `H`. -/
theorem writeMergedGroup_draftHandled {entry : String × MergedGroup} (hentry : MergedFrom maps entry)
    (hne : ∀ i keyPath, H i keyPath → path ≠ secretPath mountPath i keyPath) :
    Keeps (Holding mountPath path field x (DraftHandled maps H draftId))
      (writeMergedGroup draftId entry) := by
  obtain ⟨hkeeps, hreturns⟩ := @draftGroupFor_draftHandled mountPath path field x maps H draftId entry
    hentry hne
  refine Keeps.bind_post (P := fun row => row.name = entry.1 ∧
    row.sensitiveKeys = entry.2.sensitiveKeys ∧ RowHandled maps H row) hkeeps hreturns
    fun row hrow => Keeps.bind (Keeps.gets _) fun enabled => ?_
  obtain ⟨hname, hkeys, hhandled⟩ := hrow
  refine Keeps.bind (Keeps.ite (Keeps.foldEach (fun mergedObj keyPath hkey => ?_) _) (Keeps.pure _))
    fun data => saveGroup_draftHandled hhandled
  obtain ⟨cm, hcm, hcmName⟩ := hentry.1
  refine storeMergedKey_holding (hne _ _ ?_) mergedObj
  exact hhandled ⟨cm, hcm, hcmName.trans hname.symm⟩ keyPath (.inl (hkeys ▸ hkey))

end Merged

theorem populateDraftFromConfigMaps_holds (h : Vault.Holds mountPath path field x db.vault)
    (peers : Peers) (draftId : ℕ) (deviceId : String) (known : Option (List ℕ))
    (hne : ∀ i keyPath,
      (SecretCaller.populateDraftFromConfigMaps peers draftId deviceId known).Handles db i keyPath →
      path ≠ secretPath mountPath i keyPath) :
    Vault.Holds mountPath path field x
      (populateDraftFromConfigMaps peers draftId deviceId known db).2.vault := by
  let maps := mapGroups db peers deviceId known
  let H := (SecretCaller.populateDraftFromConfigMaps peers draftId deviceId known).Handles db
  have hstart : DraftHandled maps H draftId db.groups db.nextId := by
    refine ⟨fun g hg hdraft hmaps keyPath hkey => .inl ⟨g, ?_, rfl, ?_⟩, fun i hi cm hcm keyPath hkey =>
      .inr ⟨hi, cm, hcm, hkey⟩⟩
    · exact List.mem_filter.mpr ⟨hg, by simpa using hdraft⟩
    · rcases hkey with hkey | ⟨cm, hcm, hname, hkey⟩
      · obtain ⟨cm, hcm, hname⟩ := hmaps
        exact ⟨cm, hcm, hname, .inl hkey⟩
      · exact ⟨cm, hcm, hname, .inr hkey⟩
  refine And.left (b := DraftHandled maps H draftId
    (populateDraftFromConfigMaps peers draftId deviceId known db).2.groups
    (populateDraftFromConfigMaps peers draftId deviceId known db).2.nextId) ?_
  show Holding mountPath path field x (DraftHandled maps H draftId) _
  unfold populateDraftFromConfigMaps
  rw [gets_bind_run]
  refine Keeps.bind_after_ok (mergeConfigMaps_keeps holding_requests _ db ⟨h, hstart⟩)
    fun merged s' hrun => Keeps.forEach fun entry hentry => ?_
  exact writeMergedGroup_draftHandled (mergeConfigMaps_mergedFrom hrun entry hentry) hne

/-- **Main result.** A call leaves the value that a key resolves to alone, where no key that it
handles has the name of this one. -/
theorem SecretCaller.exec_secretOf (db : ConfigDb) (call : SecretCaller) (j : ℕ) (keyPath' : String)
    (h : ∀ i keyPath, call.Handles db i keyPath → ¬ (i = j ∧ Aliased keyPath keyPath')) :
    (call.exec db).vault.secretOf (secretRef db.vault.mountPath j keyPath') =
      db.vault.secretOf (secretRef db.vault.mountPath j keyPath') := by
  let ref := secretRef db.vault.mountPath j keyPath'
  have hne : ∀ i keyPath, call.Handles db i keyPath →
      Vault.refPath ref ≠ secretPath db.vault.mountPath i keyPath :=
    fun i keyPath hhandles => refPath_ne_of_not_aliased (h i keyPath hhandles)
  have hstart : Vault.Holds db.vault.mountPath (Vault.refPath ref) (Vault.parseVaultRef ref).field
      (db.vault.secretOf ref) db.vault := ⟨rfl, (Vault.secretOf_eq db.vault ref).symm⟩
  have hend : Vault.Holds db.vault.mountPath (Vault.refPath ref) (Vault.parseVaultRef ref).field
      (db.vault.secretOf ref) (call.exec db).vault := by
    cases call with
    | upsertGroup peers dto => exact upsertGroup_holds hstart peers dto hne
    | cloneGroupToRevision source targetRevisionId position =>
        exact cloneGroupToRevision_holds hstart source targetRevisionId position
          fun keyPath hkey => hne db.nextId keyPath ⟨rfl, hkey⟩
    | populateDraftFromConfigMaps peers draftId deviceId known =>
        exact populateDraftFromConfigMaps_holds hstart peers draftId deviceId known hne
    | deleteGroupVaultSecrets group =>
        have hkeeps := @deleteGroupVaultSecrets_holding db.vault.mountPath (Vault.refPath ref)
          (Vault.parseVaultRef ref).field (db.vault.secretOf ref) (fun _ _ => True) group
          fun keyPath hkey => hne group.id keyPath ⟨rfl, hkey⟩
        exact (hkeeps db ⟨hstart, trivial⟩).1
  rw [Vault.secretOf_eq]
  exact hend.2

/-- **Spec.** What a stored secret does to the value that another key resolves to. -/
theorem secretOf_put {v : Vault} {i j : ℕ} {keyPath keyPath' : String} (value : String)
    (hslash : '/' ∉ keyPath'.toList) :
    (v.put (secretPath v.mountPath i keyPath) configVaultField value).secretOf
        (secretRef v.mountPath j keyPath') =
      if i = j ∧ Aliased keyPath keyPath' then some value
      else v.secretOf (secretRef v.mountPath j keyPath') := by
  rw [Vault.secretOf_eq, Vault.secretOf_eq, Vault.valueAt_put, parseVaultRef_secretRef hslash]
  split
  · rename_i hsame
    by_contra hnot
    have halias : ¬ (i = j ∧ Aliased keyPath keyPath') := by
      intro halias
      rw [if_pos halias] at hnot
      exact hnot rfl
    exact refPath_ne_of_not_aliased halias hsame.1
  · rename_i hother
    rw [if_neg]
    rintro ⟨rfl, halias⟩
    apply hother
    rw [refPath_secretRef hslash]
    unfold secretPath
    rw [(configVaultKeySecretName_eq_iff.mpr ⟨rfl, halias⟩ :
      configVaultKeySecretName i keyPath = configVaultKeySecretName i keyPath')]
    exact ⟨rfl, rfl⟩

/-- The secret of `db.user` of group 7 is stored. -/
def userDb : ConfigDb :=
  { smallDb with
    vault := (answeringVault "m").put (secretPath "m" 7 "db.user") configVaultField "eve" }

end Calls

end ConfigService

end UploadService
