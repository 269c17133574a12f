import UploadService.Config.Delivery

/-!
# What the assembly of a config reads

The assembly of a device config reads tables and resolves references, one request to Vault for
each. A request that fails leaves `null` in the document, as one does that finds no secret. So
the outcome is a function of the tables and the secrets as long as every request that fails is
for a reference without a secret.

`Answered db p refs a` says this of a program `p`: from `db` it resolves the references `refs`,
in order, and returns `a`.

Main results:

- `resolveGroupYaml_answered`, `collectGlobals_answered`: the groups;
- `buildDeviceConfigPayload_answered`: the payload of a device.
-/

namespace UploadService

namespace Vault

/-- The secret that Vault holds for a reference. -/
def secretOf (v : Vault) (ref : String) : Option String :=
  (ObjectMap.get? v.secrets (dataPath (parseVaultRef ref).mountPath (parseVaultRef ref).secretId)).bind
    (ObjectMap.get? · (parseVaultRef ref).field)

/-- Vault after the next `n` requests. -/
def spend (n : ℕ) (v : Vault) : Vault := { v with faults := v.faults.drop n }

/-- Every request for one of the references that fails finds no secret where it does not. -/
def Harmless (v : Vault) (refs : List String) : Prop :=
  ∀ x ∈ v.faults.zip refs, x.1 = none ∨ v.secretOf x.2 = none

instance (v : Vault) (refs : List String) : Decidable (v.Harmless refs) :=
  inferInstanceAs (Decidable (∀ x ∈ v.faults.zip refs, _))

theorem spend_spend (v : Vault) (m n : ℕ) : (v.spend m).spend n = v.spend (m + n) := by
  unfold spend
  rw [List.drop_drop]

theorem harmless_append {v : Vault} {refs refs' : List String} :
    v.Harmless (refs ++ refs') ↔ v.Harmless refs ∧ (v.spend refs.length).Harmless refs' := by
  have hzip : v.faults.zip (refs ++ refs') =
      v.faults.zip refs ++ (v.faults.drop refs.length).zip refs' := by
    generalize v.faults = faults
    induction refs generalizing faults with
    | nil => simp
    | cons ref refs ih =>
        cases faults with
        | nil => simp
        | cons fault faults => simp [ih faults]
  constructor
  · intro h
    constructor
    · exact fun x hx => h x (by rw [hzip]; exact List.mem_append_left _ hx)
    · exact fun x hx => h x (by rw [hzip]; exact List.mem_append_right _ hx)
  · rintro ⟨h, h'⟩ x hx
    rw [hzip] at hx
    rcases List.mem_append.mp hx with hx | hx
    · exact h x hx
    · exact h' x hx

/-- A schedule without a failure is harmless. -/
theorem harmless_of_answers {v : Vault} (h : ∀ fault ∈ v.faults, fault = none) (refs : List String) :
    v.Harmless refs :=
  fun x hx => .inl (h x.1 (List.of_mem_zip hx).1)

end Vault

/-- The store after the next `n` requests to Vault. -/
def ConfigDb.spend (n : ℕ) (db : ConfigDb) : ConfigDb := { db with vault := db.vault.spend n }

theorem ConfigDb.spend_zero (db : ConfigDb) : db.spend 0 = db := rfl

/-! ### Answered programs -/

/-- From `db`, up to requests already made, the program resolves `refs` and returns `a`, where
its requests are harmless. -/
def Answered {α : Type} (db : ConfigDb) (p : ConfigProg α) (refs : List String) (a : α) : Prop :=
  ∀ n, (db.vault.spend n).Harmless refs → p (db.spend n) = (.ok a, db.spend (n + refs.length))

namespace Answered

variable {α β γ : Type} {db : ConfigDb}

theorem pure (a : α) : Answered db (Pure.pure a) [] a := fun _ _ => rfl

theorem gets {f : ConfigDb → α} (hf : ∀ n, f (db.spend n) = f db) :
    Answered db (Prog.gets f) [] (f db) := by
  intro n _
  show (Except.ok (f (db.spend n)), db.spend n) = _
  rw [hf n]
  rfl

theorem bind {p : ConfigProg α} {f : α → ConfigProg β} {refs refs' : List String} {a : α} {b : β}
    (hp : Answered db p refs a) (hf : Answered db (f a) refs' b) :
    Answered db (p >>= f) (refs ++ refs') b := by
  intro n h
  obtain ⟨h₁, h₂⟩ := Vault.harmless_append.mp h
  rw [Vault.spend_spend] at h₂
  rw [Prog.bind_run_ok (hp n h₁), hf _ h₂, List.length_append, Nat.add_assoc]

/-- A first part that only reads the tables. -/
theorem gets_bind {g : ConfigDb → α} {f : α → ConfigProg β} {refs : List String} {b : β}
    (hg : ∀ n, g (db.spend n) = g db) (hf : Answered db (f (g db)) refs b) :
    Answered db (Prog.gets g >>= f) refs b := bind (gets hg) hf

/-- A last part that only computes. -/
theorem bind_pure {p : ConfigProg α} {refs : List String} {a : α} (hp : Answered db p refs a)
    (f : α → β) : Answered db (p >>= fun x => Pure.pure (f x)) refs (f a) := by
  have h := bind (f := fun x => Pure.pure (f x)) hp (@Answered.pure _ db (f a))
  rw [List.append_nil] at h
  exact h

/-- The references that a loop resolves, with the values of its accumulator. -/
def loopRefs (refs : β → γ → List String) (g : β → γ → β) : β → List γ → List String
  | _, [] => []
  | acc, x :: xs => refs acc x ++ loopRefs refs g (g acc x) xs

theorem foldEach {f : β → γ → ConfigProg β} {refs : β → γ → List String} {g : β → γ → β}
    (hf : ∀ acc x, Answered db (f acc x) (refs acc x) (g acc x)) (acc : β) (xs : List γ) :
    Answered db (Prog.foldEach f acc xs) (loopRefs refs g acc xs) (xs.foldl g acc) := by
  induction xs generalizing acc with
  | nil => exact Answered.pure acc
  | cons x xs ih => exact Answered.bind (hf acc x) (ih (g acc x))

/-- A loop whose references do not depend on its accumulator. -/
theorem forEachOf {f : β → γ → ConfigProg β} {refs : γ → List String} {g : β → γ → β} {acc : β}
    {xs : List γ} (hf : ∀ acc x, Answered db (f acc x) (refs x) (g acc x)) :
    Answered db (Prog.foldEach f acc xs) (xs.flatMap refs) (xs.foldl g acc) := by
  have h := @foldEach β γ db f (fun _ => refs) g hf acc xs
  have hrefs : loopRefs (fun _ => refs) g acc xs = xs.flatMap refs := by
    clear h
    induction xs generalizing acc with
    | nil => rfl
    | cons x xs ih =>
        show refs x ++ loopRefs (fun _ => refs) g (g acc x) xs = _
        rw [ih, List.flatMap_cons]
  rw [hrefs] at h
  exact h

/-- The run from the store itself. -/
theorem run {p : ConfigProg α} {refs : List String} {a : α} (h : Answered db p refs a)
    (hrefs : db.vault.Harmless refs) : p db = (.ok a, db.spend refs.length) := by
  have hrun := h 0 hrefs
  rw [ConfigDb.spend_zero, Nat.zero_add] at hrun
  exact hrun

end Answered

namespace ConfigService

variable {db : ConfigDb}

/-! ### Documents -/

/-- The document after one sensitive key is resolved. -/
def resolvedKey (v : Vault) (parsed : Object) (keyPath : String) : Object :=
  match vaultRefAt parsed keyPath with
  | none => parsed
  | some ref => setByPath parsed keyPath (match v.secretOf ref with
    | some text => .str text
    | none => .null)

/-- The references of a document that are resolved for its sensitive keys. -/
def keyRefs (v : Vault) : Object → List String → List String :=
  Answered.loopRefs (fun parsed keyPath => (vaultRefAt parsed keyPath).toList) (resolvedKey v)

/-- The group's own entries, with its secrets. -/
def resolvedYaml (v : Vault) (group : ConfigGroup) : Object :=
  if v.enabled && !group.sensitiveKeys.isEmpty then
    group.sensitiveKeys.foldl (resolvedKey v) (parseYaml group.yamlContent)
  else parseYaml group.yamlContent

def groupRefs (v : Vault) (group : ConfigGroup) : List String :=
  if v.enabled && !group.sensitiveKeys.isEmpty then
    keyRefs v (parseYaml group.yamlContent) group.sensitiveKeys
  else []

theorem vaultRefAt_isVaultRef {parsed : Object} {keyPath ref : String}
    (h : vaultRefAt parsed keyPath = some ref) : Vault.isVaultRef ref = true := by
  unfold vaultRefAt at h
  split at h
  · cases h
  · cases h
  · split at h
    · rename_i href
      rw [← Option.some.inj h]
      exact href
    · cases h

theorem vaultCall_run {α : Type} {p : VaultProg α} {db : ConfigDb} {result : Except Exception α}
    {v : Vault} (h : p db.vault = (result, v)) : vaultCall p db = (result, { db with vault := v }) := by
  unfold vaultCall Prog.zoom
  rw [h]

/-- One request: it fails, or the path is unknown, or the answer is the secret. -/
theorem resolveSecret_run {v : Vault} {ref : String} (henabled : v.enabled = true)
    (href : Vault.isVaultRef ref = true) :
    (∃ e, Vault.resolveSecret ref v = (.error e, v.spend 1) ∧
      (v.faults.headD none = none → v.secretOf ref = none)) ∨
    (v.faults.headD none = none ∧ Vault.resolveSecret ref v = (.ok (v.secretOf ref), v.spend 1)) := by
  have hne : ¬ (ref = "" ∨ Vault.isVaultRef ref = false) := by
    rintro (rfl | hnot)
    · exact absurd href (by decide)
    · rw [href] at hnot
      cases hnot
  have hspend : ({ v with faults := v.faults.tail } : Vault) = v.spend 1 := by
    unfold Vault.spend
    rw [List.drop_one]
  have hassert : Vault.assertEnabled v = (.ok (), v) := by
    unfold Vault.assertEnabled
    rw [Prog.gets_bind_run, henabled]
    rfl
  have hrequest : Vault.request v = (.ok (v.faults.headD none), v.spend 1) := by
    rw [← hspend]
    rfl
  unfold Vault.resolveSecret
  rw [if_neg hne, Prog.bind_run_ok hassert, Prog.bind_run_ok hrequest]
  cases hfault : v.faults.headD none with
  | some detail => exact .inl ⟨_, rfl, fun h => by cases h⟩
  | none =>
      dsimp only
      rw [Prog.gets_bind_run]
      unfold Vault.secretOf
      rw [show (v.spend 1).secrets = v.secrets from rfl]
      cases hstored : ObjectMap.get? v.secrets (Vault.dataPath (Vault.parseVaultRef ref).mountPath
          (Vault.parseVaultRef ref).secretId) with
      | none => exact .inl ⟨_, rfl, fun _ => rfl⟩
      | some fields => exact .inr ⟨rfl, rfl⟩

theorem resolveKey_answered (henabled : db.vault.enabled = true) (parsed : Object)
    (keyPath : String) : Answered db (resolveKey parsed keyPath)
      (vaultRefAt parsed keyPath).toList (resolvedKey db.vault parsed keyPath) := by
  intro n hrefs
  unfold resolveKey resolvedKey
  cases hat : vaultRefAt parsed keyPath with
  | none => rfl
  | some ref =>
      have hspent : (db.vault.spend n).spend 1 = db.vault.spend (n + 1) := Vault.spend_spend _ _ _
      rw [hat] at hrefs
      show Prog.tryCatch (vaultCall (Vault.resolveSecret ref) >>= fun resolved =>
          pure (setByPath parsed keyPath (match resolved with
            | some text => .str text
            | none => .null))) (fun _ => pure (setByPath parsed keyPath .null)) (db.spend n) =
        (.ok (setByPath parsed keyPath (match db.vault.secretOf ref with
          | some text => .str text
          | none => .null)), db.spend (n + 1))
      rcases @resolveSecret_run (db.vault.spend n) ref henabled (vaultRefAt_isVaultRef hat) with
        ⟨e, hrun, hnone⟩ | ⟨-, hrun⟩
      · have hlost : db.vault.secretOf ref = none := by
          cases hfaults : (db.vault.spend n).faults with
          | nil => exact hnone (by rw [hfaults]; rfl)
          | cons fault faults =>
              rcases hrefs (fault, ref) (by rw [hfaults]; simp) with hfault | hlost
              · exact hnone (by rw [hfaults]; exact hfault)
              · exact hlost
        have hcall := Prog.bind_run_error (@vaultCall_run _ _ (db.spend n) _ _ hrun) fun resolved =>
          (pure (setByPath parsed keyPath (match resolved with
            | some text => .str text
            | none => .null)) : ConfigProg Object)
        rw [hspent] at hcall
        rw [Prog.tryCatch_run_error hcall, hlost]
        rfl
      · have hcall := Prog.bind_run_ok (@vaultCall_run _ _ (db.spend n) _ _ hrun) fun resolved =>
          (pure (setByPath parsed keyPath (match resolved with
            | some text => .str text
            | none => .null)) : ConfigProg Object)
        rw [hspent] at hcall
        exact Prog.tryCatch_run_ok hcall _

/-- **Main result.** The entries of a group are its resolved document over the globals. -/
theorem resolveGroupYaml_answered (group : ConfigGroup) (globals : Object) :
    Answered db (resolveGroupYaml group globals) (groupRefs db.vault group)
      (ObjectMap.assign globals (resolvedYaml db.vault group)) := by
  unfold resolveGroupYaml groupRefs resolvedYaml
  apply Answered.gets_bind fun _ => rfl
  cases hkeys : db.vault.enabled && !group.sensitiveKeys.isEmpty with
  | false => exact Answered.pure _
  | true =>
      have henabled : db.vault.enabled = true := (Bool.and_eq_true_iff.mp hkeys).1
      have hloop := Answered.foldEach (resolveKey_answered henabled)
        (parseYaml group.yamlContent) group.sensitiveKeys
      exact hloop.bind_pure fun parsed => ObjectMap.assign globals parsed

/-! ### Groups -/

/-- The references of a group that a collection of its kind resolves. -/
def refsWhere (v : Vault) (isGlobal : Bool) (group : ConfigGroup) : List String :=
  if group.isGlobal = isGlobal then groupRefs v group else []

/-- One group of `collectGlobals`. -/
def addGlobals (v : Vault) (result : Object) (group : ConfigGroup) : Object :=
  if group.isGlobal then ObjectMap.assign result (resolvedYaml v group) else result

/-- The global entries of some groups. -/
def globalsOf (v : Vault) (groups : List ConfigGroup) : Object := groups.foldl (addGlobals v) []

/-- One group of `collectGroups`. -/
def addGroup (v : Vault) (acc : List (String × Object)) (group : ConfigGroup) :
    List (String × Object) :=
  if group.isGlobal then acc
  else ObjectMap.set acc group.name
    (ObjectMap.assign ((ObjectMap.get? acc group.name).getD []) (resolvedYaml v group))

/-- One group of `collectDeviceGroups`. -/
def setGroup (v : Vault) (acc : List (String × Object)) (group : ConfigGroup) :
    List (String × Object) :=
  if group.isGlobal then acc else ObjectMap.set acc group.name (resolvedYaml v group)

/-- The device's own groups. -/
def deviceGroupsOf (v : Vault) (groups : List ConfigGroup) : List (String × Object) :=
  groups.foldl (setGroup v) []

/-- One config map of `collectConfigMaps`. -/
def addConfigMap (v : Vault) (acc : List (String × Object) × Object) (groups : List ConfigGroup) :
    List (String × Object) × Object :=
  (groups.foldl (addGroup v) acc.1, ObjectMap.assign acc.2 (globalsOf v groups))

/-- The groups and the global entries of some config maps, by their groups. -/
def configMapsOf (v : Vault) (maps : List (List ConfigGroup)) : List (String × Object) × Object :=
  maps.foldl (addConfigMap v) ([], [])

/-- The references of one revision: its global groups come first. -/
def revisionRefs (v : Vault) (groups : List ConfigGroup) : List String :=
  groups.flatMap (refsWhere v true) ++ groups.flatMap (refsWhere v false)

theorem resolveGroup_answered (group : ConfigGroup) :
    Answered db (resolveGroupYaml group []) (groupRefs db.vault group)
      (resolvedYaml db.vault group) := by
  have h := @resolveGroupYaml_answered db group []
  rw [ObjectMap.nil_assign] at h
  exact h

theorem collectGlobals_answered (groups : List ConfigGroup) :
    Answered db (collectGlobals groups) (groups.flatMap (refsWhere db.vault true))
      (globalsOf db.vault groups) := by
  apply Answered.forEachOf
  intro result group
  unfold refsWhere addGlobals
  cases group.isGlobal with
  | false => exact Answered.pure _
  | true => exact (resolveGroup_answered group).bind_pure fun resolved => ObjectMap.assign result resolved

theorem collectGroups_answered (groups : List ConfigGroup) (start : List (String × Object)) :
    Answered db (collectGroups groups start) (groups.flatMap (refsWhere db.vault false))
      (groups.foldl (addGroup db.vault) start) := by
  apply Answered.forEachOf
  intro acc group
  unfold refsWhere addGroup
  cases group.isGlobal with
  | true => exact Answered.pure _
  | false =>
      exact (resolveGroup_answered group).bind_pure fun groupData => ObjectMap.set acc group.name
        (ObjectMap.assign ((ObjectMap.get? acc group.name).getD []) groupData)

theorem collectDeviceGroups_answered (groups : List ConfigGroup) :
    Answered db (collectDeviceGroups groups) (groups.flatMap (refsWhere db.vault false))
      (deviceGroupsOf db.vault groups) := by
  apply Answered.forEachOf
  intro acc group
  unfold refsWhere setGroup
  cases group.isGlobal with
  | true => exact Answered.pure _
  | false =>
      exact (resolveGroup_answered group).bind_pure fun groupData =>
        ObjectMap.set acc group.name groupData

theorem collectConfigMaps_answered (revisions : List ConfigRevision) :
    Answered db (collectConfigMaps revisions)
      ((revisions.map fun rev => db.groupsOf rev.id).flatMap (revisionRefs db.vault))
      (configMapsOf db.vault (revisions.map fun rev => db.groupsOf rev.id)) := by
  unfold configMapsOf
  rw [List.flatMap_map, List.foldl_map]
  apply Answered.forEachOf
  intro acc rev
  apply Answered.gets_bind fun _ => rfl
  exact (collectGlobals_answered (db.groupsOf rev.id)).bind
    ((collectGroups_answered (db.groupsOf rev.id) acc.1).bind_pure fun configMapGroups =>
      (configMapGroups, ObjectMap.assign acc.2 (globalsOf db.vault (db.groupsOf rev.id))))

/-! ### The payload -/

/-- The entries of a device under the groups' names: the config maps and the device's own. -/
def assembledGroups (v : Vault) (maps : List (List ConfigGroup)) (rows : List ConfigGroup) :
    List (String × Object) :=
  let merged := configMapsOf v maps
  let combinedGlobals := ObjectMap.assign merged.2 (globalsOf v rows)
  let deviceGroups := deviceGroupsOf v rows
  (ObjectMap.addKeys (ObjectMap.keys merged.1) (ObjectMap.keys deviceGroups)).map fun name =>
    (name, mergeForDevice combinedGlobals merged.1 deviceGroups name)

/-- The ACTIVE revision of the device's config project. -/
def activeOf (peers : Peers) (deviceId : String) (db : ConfigDb) : Option ConfigRevision :=
  (peers.projectNamed s!"config:{deviceId}" .config).bind fun project =>
    db.findRevision project.id .active

/-- The groups of the device's ACTIVE revision. -/
def activeRows (peers : Peers) (deviceId : String) (db : ConfigDb) : List ConfigGroup :=
  match activeOf peers deviceId db with
  | some rev => db.groupsOf rev.id
  | none => []

/-- The groups of the config maps that reach a device of the given types. -/
def reachingMaps (db : ConfigDb) (deviceTypeIds : List ℕ) (deviceId : String) :
    List (List ConfigGroup) :=
  (reachingRevisions db deviceTypeIds deviceId).map fun rev => db.groupsOf rev.id

/-- The references that the assembly of a device's config resolves. -/
def assemblyRefs (v : Vault) (maps : List (List ConfigGroup)) (rows : List ConfigGroup) :
    List String := maps.flatMap (revisionRefs v) ++ revisionRefs v rows

/-- The payload that the tables and the secrets give. -/
def assembledConfig (peers : Peers) (deviceId : String) (db : ConfigDb) : DeviceConfigDto where
  deviceId := deviceId
  configRevisionId := (activeOf peers deviceId db).map (·.id)
  semVer := (activeOf peers deviceId db).bind (·.semVer)
  groups := assembledGroups db.vault (reachingMaps db (peers.deviceTypeIds deviceId) deviceId)
    (activeRows peers deviceId db)
  computedAt := peers.now

/-- **Main result.** The payload is the one that the tables and the secrets give. -/
theorem buildDeviceConfigPayload_answered (peers : Peers) (deviceId : String) (db : ConfigDb) :
    Answered db (buildDeviceConfigPayload peers deviceId)
      (assemblyRefs db.vault (reachingMaps db (peers.deviceTypeIds deviceId) deviceId)
        (activeRows peers deviceId db)) (assembledConfig peers deviceId db) := by
  unfold buildDeviceConfigPayload
  apply Answered.gets_bind fun _ => rfl
  apply Answered.bind (collectConfigMaps_answered _)
  apply Answered.gets_bind fun _ => rfl
  apply Answered.gets_bind fun _ => rfl
  have hlast := (@collectDeviceGroups_answered db (activeRows peers deviceId db)).bind_pure
    fun deviceGroups => ({
      deviceId := deviceId
      configRevisionId := (activeOf peers deviceId db).map (·.id)
      semVer := (activeOf peers deviceId db).bind (·.semVer)
      groups := (ObjectMap.addKeys (ObjectMap.keys (configMapsOf db.vault
          (reachingMaps db (peers.deviceTypeIds deviceId) deviceId)).1)
          (ObjectMap.keys deviceGroups)).map fun name =>
        (name, mergeForDevice (ObjectMap.assign (configMapsOf db.vault
            (reachingMaps db (peers.deviceTypeIds deviceId) deviceId)).2
            (globalsOf db.vault (activeRows peers deviceId db)))
          (configMapsOf db.vault (reachingMaps db (peers.deviceTypeIds deviceId) deviceId)).1
          deviceGroups name)
      computedAt := peers.now } : DeviceConfigDto)
  exact (collectGlobals_answered (activeRows peers deviceId db)).bind hlast

end ConfigService

end UploadService
