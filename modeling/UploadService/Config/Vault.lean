import UploadService.Lib.Prog
import UploadService.Config.Value

/-!
# The Vault client

The KV v2 store of `VaultService`, keyed by the path of the data request
`{mountPath}/data/{secretName}`. Every HTTP request takes the next outcome of a
schedule, so that a Vault that fails at any point is one of the stores modelled;
an empty schedule is a Vault that answers.

Custom metadata is written and never read back, so its requests are left out.
-/

namespace UploadService

/-- What the handlers throw: the HTTP exceptions and the errors of the clients. -/
inductive Exception where
  | notFound (message : String)
  | badRequest (message : String)
  | forbidden (message : String)
  | unauthorized (message : String)
  | conflict (message : String)
  | vaultOperation (message : String)
  | plain (message : String)
  | queryFailed (message : String)
  /-- an `AppError`: its error code and its message -/
  | app (code message : String)
  deriving DecidableEq, Repr

/-- `error.message`. -/
def Exception.message : Exception → String
  | notFound message | badRequest message | forbidden message | unauthorized message
  | conflict message | vaultOperation message | plain message | queryFailed message => message
  | app _ message => message

structure Vault where
  enabled : Bool
  mountPath : String
  /-- the fields stored under each data path -/
  secrets : List (String × List (String × String))
  /-- outcomes of the next requests: `some detail` fails with that detail -/
  faults : List (Option String)
  deriving Repr, DecidableEq

abbrev VaultProg : Type → Type := Prog Vault Exception

namespace Vault

def refPrefix : String := "vault:"

/-- `isVaultRef`. -/
def isVaultRef (value : String) : Bool := refPrefix.toList.isPrefixOf value.toList

def dataPath (mountPath secretName : String) : String := mountPath ++ "/data/" ++ secretName

def makeRef (mountPath secretName field : String) : String :=
  refPrefix ++ mountPath ++ "/" ++ secretName ++ "#" ++ field

/-- The text before the last `c`; all but the last character where there is no `c`,
as `slice(0, lastIndexOf(c))` gives it. -/
def beforeLast (c : Char) (s : List Char) : List Char :=
  if c ∈ s then ((s.reverse.dropWhile (· ≠ c)).drop 1).reverse else s.dropLast

/-- The text after the last `c`; all of it where there is no `c`. -/
def afterLast (c : Char) (s : List Char) : List Char := (s.reverse.takeWhile (· ≠ c)).reverse

structure Ref where
  mountPath : String
  secretId : String
  field : String
  deriving DecidableEq, Repr

/-- `parseVaultRef`: `vault:{mountPath}/{secretId}#{field}`. -/
def parseVaultRef (ref : String) : Ref :=
  let withoutPrefix := ref.toList.drop refPrefix.length
  let field := afterLast '#' withoutPrefix
  let pathPart := beforeLast '#' withoutPrefix
  { mountPath := String.ofList (beforeLast '/' pathPart)
    secretId := String.ofList (afterLast '/' pathPart)
    field := String.ofList field }

/-- One HTTP request: the failure detail the schedule holds for it. -/
def request : VaultProg (Option String) :=
  Prog.modifyGet fun v => (v.faults.headD none, { v with faults := v.faults.tail })

def assertEnabled : VaultProg Unit := do
  let enabled ← Prog.gets Vault.enabled
  if enabled then pure ()
  else Prog.throw (.plain "VaultService is not enabled. Set the VAULT_ADDR environment variable.")

/-- `fetchRawSecrets`: the fields under a secret name, none when the path is unknown. -/
def fetchRawSecrets (secretName : String) : VaultProg (Option (List (String × String))) := do
  match ← request with
  | some detail => Prog.throw (.vaultOperation s!"Vault fetchRawSecrets failed: {detail}")
  | none => Prog.gets fun v => ObjectMap.get? v.secrets (dataPath v.mountPath secretName)

/-- `storeSecret`: sets one field, keeps its siblings, and returns the reference to store. -/
def storeSecret (secretName field value : String) : VaultProg String := do
  if secretName = "" then
    Prog.throw (.plain "secretName is required to store a secret in Vault")
  else do
    assertEnabled
    let existing ← fetchRawSecrets secretName
    match ← request with
    | some detail => Prog.throw (.vaultOperation s!"Vault storeSecret failed: {detail}")
    | none => do
      let fields := ObjectMap.set (existing.getD []) field value
      Prog.modify fun v =>
        { v with secrets := ObjectMap.set v.secrets (dataPath v.mountPath secretName) fields }
      Prog.gets fun v => makeRef v.mountPath secretName field

/-- `deleteSecret`: removes one field, and the whole path with its last field. -/
def deleteSecret (secretName field : String) : VaultProg Unit := do
  let enabled ← Prog.gets Vault.enabled
  if !enabled then pure ()
  else do
    match ← fetchRawSecrets secretName with
    | none => pure ()
    | some existing =>
      let rest := ObjectMap.erase existing field
      if rest.length = 0 then do
        match ← request with
        | some _ => pure () -- a failed removal of the path is only logged
        | none => Prog.modify fun v =>
            { v with secrets := ObjectMap.erase v.secrets (dataPath v.mountPath secretName) }
      else do
        match ← request with
        | some detail => Prog.throw (.plain detail)
        | none => Prog.modify fun v =>
            { v with secrets := ObjectMap.set v.secrets (dataPath v.mountPath secretName) rest }

/-- `resolveSecret`: a reference is read from Vault, any other text is its own value.
A missing field resolves to `none`; a missing path is a failed request. -/
def resolveSecret (value : String) : VaultProg (Option String) := do
  if value = "" ∨ isVaultRef value = false then pure (some value)
  else do
    assertEnabled
    let ref := parseVaultRef value
    match ← request with
    | some detail => Prog.throw (.plain s!"Failed to resolve Vault secret: {detail}")
    | none => do
      let stored ← Prog.gets fun v => ObjectMap.get? v.secrets (dataPath ref.mountPath ref.secretId)
      match stored with
      | none => Prog.throw (.plain "Failed to resolve Vault secret: Request failed with status code 404")
      | some fields => pure (ObjectMap.get? fields ref.field)

example : parseVaultRef (makeRef "getapp-secrets" "config-group-1-key-password" "config_value") =
    ⟨"getapp-secrets", "config-group-1-key-password", "config_value"⟩ := by decide

end Vault

end UploadService
