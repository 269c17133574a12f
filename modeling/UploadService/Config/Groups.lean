import UploadService.Config.Entities

/-!
# Config groups

The group half of `ConfigService`: the edits of the draft's groups, the copy of a
group into another revision, and the resolution of a group's secrets. Sensitive
values live in Vault under one secret for each key path; the document holds the
reference.

Responses show the sensitive values as `'***'` (`mapGroupToDto`); the merging of config maps
into a draft follows in the module on delivery.
-/

namespace UploadService

namespace ConfigService

def configVaultField : String := "config_value"

/-- `keyPath.replace(/\./g, '__')`. -/
def underscored (keyPath : String) : String :=
  String.ofList (keyPath.toList.flatMap fun c => if c = '.' then ['_', '_'] else [c])

/-- `CONFIG_VAULT_KEY_SECRET_NAME`. -/
def configVaultKeySecretName (groupId : ℕ) (keyPath : String) : String :=
  s!"config-group-{groupId}-key-{underscored keyPath}"

/-- The text under a key path when it is a Vault reference. -/
def vaultRefAt (parsed : Object) (keyPath : String) : Option String :=
  match getByPath parsed keyPath with
  | none | some .null => none
  | some v => if Vault.isVaultRef v.toText then some v.toText else none

/-- `setByPath(parsed, keyPath, text)` for a text that is no number: an array refuses it
as its length. -/
def assignText (parsed : Object) (keyPath text : String) : Except Exception Object :=
  if assignsLength parsed keyPath then .error (.plain "Invalid array length")
  else .ok (setByPath parsed keyPath (.str text))

theorem assignText_ok {parsed parsed' : Object} {keyPath text : String}
    (h : assignText parsed keyPath text = .ok parsed') :
    parsed' = setByPath parsed keyPath (.str text) := by
  unfold assignText at h
  split at h
  · cases h
  · exact (Except.ok.inj h).symm

/-! ### Projects and positions -/

/-- `requireProject`. -/
def requireProject (peers : Peers) (identifier : Identifier) (types : List ProjectType) :
    ConfigProg Project :=
  match peers.project identifier with
  | none => Prog.throw (.notFound s!"Project not found: {identifier.toText}")
  | some project =>
      let expected := ", ".intercalate (types.map ProjectType.toText)
      if types.contains project.projectType then pure project
      else Prog.throw (.badRequest
        s!"Project '{identifier.toText}' is of type '{project.projectType.toText}', expected one of: {expected}")

def getOrCreateDraftRevision (projectId : ℕ) : ConfigProg ConfigRevision := do
  match ← Prog.gets fun db => db.findRevision projectId .draft with
  | some existing => pure existing
  | none => do
    let max ← Prog.gets fun db => db.maxRevisionNumber projectId
    ConfigRepo.insertDraft projectId (max.getD 0 + 1)

/-- `(MAX(position) ?? -1) + 1`. -/
def nextGroupPosition (db : ConfigDb) (revisionId : ℕ) : ℕ :=
  match Rows.maxOf ConfigGroup.position (db.groupsOf revisionId) with
  | none => 0
  | some max => max + 1

/-! ### Secrets of a group -/

/-- `deleteGroupVaultSecrets`: a failed deletion is only logged. -/
def deleteGroupVaultSecrets (group : ConfigGroup) : ConfigProg Unit := do
  let enabled ← Prog.gets fun db => db.vault.enabled
  Prog.when (enabled && !group.sensitiveKeys.isEmpty && group.yamlContent.isSome) <|
    Prog.forEach (fun keyPath =>
      match vaultRefAt (parseYaml group.yamlContent) keyPath with
      | none => pure ()
      | some _ =>
          Prog.tryCatch
            (vaultCall (Vault.deleteSecret (configVaultKeySecretName group.id keyPath) configVaultField))
            fun _ => pure ()) group.sensitiveKeys

/-- One sensitive key of `resolveGroupYaml`: what Vault cannot give becomes `null`. -/
def resolveKey (parsed : Object) (keyPath : String) : ConfigProg Object :=
  match vaultRefAt parsed keyPath with
  | none => pure parsed
  | some ref =>
      Prog.tryCatch
        (do
          let resolved ← vaultCall (Vault.resolveSecret ref)
          pure (setByPath parsed keyPath (match resolved with
            | some text => .str text
            | none => .null)))
        fun _ => pure (setByPath parsed keyPath .null)

def resolveGroupYaml (group : ConfigGroup) (globals : Object) : ConfigProg Object := do
  let enabled ← Prog.gets fun db => db.vault.enabled
  let parsed ← (
    if enabled && !group.sensitiveKeys.isEmpty then
      Prog.foldEach resolveKey (parseYaml group.yamlContent) group.sensitiveKeys
    else pure (parseYaml group.yamlContent) : ConfigProg Object)
  pure (ObjectMap.assign globals parsed)

/-- The resolved entries of the global groups, a later group over an earlier one. -/
def collectGlobals (groups : List ConfigGroup) : ConfigProg Object :=
  Prog.foldEach (fun result group =>
    if group.isGlobal then do
      let resolved ← resolveGroupYaml group []
      pure (ObjectMap.assign result resolved)
    else pure result) [] groups

/-- One sensitive key of `cloneGroupToRevision`: the secret is copied under the new
group's name; where that fails the old reference stays. -/
def cloneKey (newGroupId : ℕ) (parsed : Object) (keyPath : String) : ConfigProg Object :=
  match vaultRefAt parsed keyPath with
  | none => pure parsed
  | some ref =>
      Prog.tryCatch
        (do
          match ← vaultCall (Vault.resolveSecret ref) with
          | none => pure parsed
          | some plaintext => do
            let newRef ← vaultCall (Vault.storeSecret (configVaultKeySecretName newGroupId keyPath)
              configVaultField plaintext)
            pure (setByPath parsed keyPath (.str newRef)))
        fun _ => pure parsed

/-- `cloneGroupToRevision`, with the position its callers pass. -/
def cloneGroupToRevision (source : ConfigGroup) (targetRevisionId position : ℕ) :
    ConfigProg ConfigGroup := do
  let newGroup ← ConfigRepo.insertGroup { source with
    revisionId := targetRevisionId, yamlContent := none, position := position }
  if source.yamlContent.isSome then do
    let enabled ← Prog.gets fun db => db.vault.enabled
    let parsed ← (
      if enabled && !source.sensitiveKeys.isEmpty then
        Prog.foldEach (cloneKey newGroup.id) (parseYaml source.yamlContent) source.sensitiveKeys
      else pure (parseYaml source.yamlContent) : ConfigProg Object)
    let copied := { newGroup with yamlContent := dumpNonEmpty parsed }
    ConfigRepo.saveGroup copied
    pure copied
  else pure newGroup

/-! ### Edits of the draft -/

structure UpsertConfigGroupDto where
  projectIdentifier : Identifier
  name : String
  isGlobal : Option Bool
  /-- `none` is `undefined`, `some none` is `null` -/
  displayName : Option (Option String)
  gitFilePath : Option String
  sensitiveKeys : Option (List String)
  yamlContent : Option YamlText

structure ConfigGroupDto where
  id : ℕ
  name : String
  displayName : Option String
  isGlobal : Bool
  gitFilePath : Option String
  sensitiveKeys : List String
  yamlContent : Option YamlText
  deriving DecidableEq, Repr

/-- One sensitive key of `mapGroupToDto`. -/
def maskKey (parsed : Object) (keyPath : String) : Except Exception Object :=
  if present (getByPath parsed keyPath) then assignText parsed keyPath "***" else .ok parsed

/-- The YAML of a group as `mapGroupToDto` shows it. -/
def maskedYaml (group : ConfigGroup) : Except Exception (Option YamlText) :=
  if !group.sensitiveKeys.isEmpty && group.yamlContent.isSome then
    (group.sensitiveKeys.foldlM maskKey (parseYaml group.yamlContent)).map
      fun parsed => some (yamlDump parsed)
  else .ok group.yamlContent

/-- `mapGroupToDto`: sensitive values are masked. -/
def mapGroupToDto (group : ConfigGroup) : Except Exception ConfigGroupDto :=
  (maskedYaml group).map fun shown =>
    { id := group.id
      name := group.name
      displayName := group.displayName
      isGlobal := group.isGlobal
      gitFilePath := group.gitFilePath
      sensitiveKeys := group.sensitiveKeys
      yamlContent := shown }

/-- A masked value in an edit stands for the stored one. -/
def unmaskKey (existingParsed parsed : Object) (keyPath : String) : Object :=
  if getByPath parsed keyPath = some (.str "***") then
    match getByPath existingParsed keyPath with
    | none | some .null => deleteByPath parsed keyPath
    | some existingValue => setByPath parsed keyPath existingValue
  else parsed

/-- One sensitive key of `upsertGroup`: plain text goes to Vault. -/
def storeKey (groupId : ℕ) (parsed : Object) (keyPath : String) : ConfigProg Object :=
  match getByPath parsed keyPath with
  | none | some .null => pure parsed
  | some value =>
      if Vault.isVaultRef value.toText then pure parsed
      else do
        let ref ← vaultCall (Vault.storeSecret (configVaultKeySecretName groupId keyPath)
          configVaultField value.toText)
        Prog.ofExcept (assignText parsed keyPath ref)

/-- `groupRepo.create({ revisionId, name, position })`. -/
def newGroup (revisionId : ℕ) (name : String) (position : ℕ) : ConfigGroup where
  id := 0
  revisionId := revisionId
  name := name
  displayName := none
  isGlobal := false
  gitFilePath := none
  yamlContent := none
  sensitiveKeys := []
  position := position

/-- The row `upsertGroup` edits: the draft's group of that name, or a new one. -/
def loadGroup (draftId : ℕ) (name : String) : ConfigProg (ConfigGroup × Bool) := do
  match ← Prog.gets fun db => db.findGroup draftId name with
  | some group => pure (group, true)
  | none => do
    let position ← Prog.gets fun db => nextGroupPosition db draftId
    pure (newGroup draftId name position, false)

/-- `groupRepo.save` of a group that may not be in the table yet. -/
def saveLoaded (group : ConfigGroup) (stored : Bool) : ConfigProg ConfigGroup :=
  if stored then do
    ConfigRepo.saveGroup group
    pure group
  else ConfigRepo.insertGroup group

/-- The edit of one group of the draft that `upsertGroup` makes. -/
def editDraftGroup (draftId : ℕ) (dto : UpsertConfigGroupDto) : ConfigProg ConfigGroupDto := do
  let loaded ← loadGroup draftId dto.name
  let group := { loaded.1 with
    isGlobal := dto.isGlobal.getD loaded.1.isGlobal
    displayName := dto.displayName.getD loaded.1.displayName
    gitFilePath := dto.gitFilePath.or loaded.1.gitFilePath
    sensitiveKeys := dto.sensitiveKeys.getD loaded.1.sensitiveKeys }
  match dto.yamlContent with
  | none => do
    let saved ← saveLoaded group loaded.2
    Prog.ofExcept (mapGroupToDto saved)
  | some text => do
    let unmasked :=
      if !group.sensitiveKeys.isEmpty && group.yamlContent.isSome then
        group.sensitiveKeys.foldl (unmaskKey (parseYaml group.yamlContent)) (parseYaml (some text))
      else parseYaml (some text)
    let enabled ← Prog.gets fun db => db.vault.enabled
    if !group.sensitiveKeys.isEmpty && enabled then do
      -- the secret names need the group's id, so a new group is saved first
      let row ← (if loaded.2 then pure group else ConfigRepo.insertGroup group :
        ConfigProg ConfigGroup)
      let parsed ← Prog.foldEach (storeKey row.id) unmasked group.sensitiveKeys
      let saved := { row with yamlContent := dumpNonEmpty parsed }
      ConfigRepo.saveGroup saved
      Prog.ofExcept (mapGroupToDto saved)
    else do
      let saved ← saveLoaded { group with yamlContent := dumpNonEmpty unmasked } loaded.2
      Prog.ofExcept (mapGroupToDto saved)

def upsertGroup (peers : Peers) (dto : UpsertConfigGroupDto) : ConfigProg ConfigGroupDto := do
  let project ← requireProject peers dto.projectIdentifier [.config, .configMap]
  let draft ← getOrCreateDraftRevision project.id
  editDraftGroup draft.id dto

structure DeleteConfigGroupDto where
  projectIdentifier : Identifier
  groupName : String

def deleteDraftGroup (draftId : ℕ) (groupName : String) : ConfigProg Bool := do
  match ← Prog.gets fun db => db.findGroup draftId groupName with
  | none => Prog.throw (.notFound s!"Group '{groupName}' not found in draft revision")
  | some group => do
    deleteGroupVaultSecrets group
    ConfigRepo.removeGroup group.id
    pure true

def deleteGroup (peers : Peers) (dto : DeleteConfigGroupDto) : ConfigProg Bool := do
  let project ← requireProject peers dto.projectIdentifier [.config, .configMap]
  let draft ← getOrCreateDraftRevision project.id
  deleteDraftGroup draft.id dto.groupName

end ConfigService

end UploadService
