import Mathlib.Data.List.Basic
import UploadService.Lib.ObjectMap

/-!
# YAML values and dotted paths

A config group stores one YAML document. A document is known here by the value
`yaml.load` makes of it; `yaml.dump` gives the document that loads to the dumped
object. A number is its decimal text `String(n)`.

The path helpers of the config service (`getByPath`, `setByPath`,
`deleteByPath`) walk plain objects and arrays; `undefined` is `none`, which is
not the value `null`.
-/

namespace UploadService

/-- A value read from YAML: what a JavaScript program sees of it. -/
inductive Value where
  | null
  | bool (b : Bool)
  | num (lexeme : String)
  | str (s : String)
  | list (items : List Value)
  | map (entries : List (String × Value))
  deriving Repr, Inhabited

/-- A plain object, in insertion order. -/
abbrev Object : Type := List (String × Value)

/-- The number a text of decimal digits stands for. -/
def decimal? (text : String) : Option ℕ :=
  if text.toList.isEmpty || !text.toList.all Char.isDigit then none
  else some (Nat.ofDigitChars 10 text.toList 0)

namespace Value

/-! ### Equality -/

mutual

def beq : Value → Value → Bool
  | null, w => match w with | null => true | _ => false
  | bool a, w => match w with | bool b => a == b | _ => false
  | num a, w => match w with | num b => a == b | _ => false
  | str a, w => match w with | str b => a == b | _ => false
  | list xs, w => match w with | list ys => beqItems xs ys | _ => false
  | map m, w => match w with | map n => beqFields m n | _ => false
termination_by structural v => v

def beqItems : List Value → List Value → Bool
  | [], ys => ys.isEmpty
  | x :: xs, ys => match ys with | [] => false | y :: ys => beq x y && beqItems xs ys
termination_by structural v => v

def beqField : String × Value → String × Value → Bool
  | (k, v), f => k == f.1 && beq v f.2
termination_by structural v => v

def beqFields : List (String × Value) → List (String × Value) → Bool
  | [], ys => ys.isEmpty
  | x :: xs, ys => match ys with | [] => false | y :: ys => beqField x y && beqFields xs ys
termination_by structural v => v

end

mutual

theorem beq_iff : (a b : Value) → (beq a b = true ↔ a = b)
  | null, b => by cases b <;> simp [beq]
  | bool a, b => by cases b <;> simp [beq]
  | num a, b => by cases b <;> simp [beq]
  | str a, b => by cases b <;> simp [beq]
  | list xs, b => by cases b <;> simp [beq, beqItems_iff xs]
  | map m, b => by cases b <;> simp [beq, beqFields_iff m]

theorem beqItems_iff : (xs ys : List Value) → (beqItems xs ys = true ↔ xs = ys)
  | [], ys => by cases ys <;> simp [beqItems]
  | x :: xs, ys => by cases ys <;> simp [beqItems, beq_iff x, beqItems_iff xs]

theorem beqField_iff : (f g : String × Value) → (beqField f g = true ↔ f = g)
  | (k, v), g => by cases g; simp [beqField, beq_iff v]

theorem beqFields_iff : (m n : List (String × Value)) → (beqFields m n = true ↔ m = n)
  | [], ys => by cases ys <;> simp [beqFields]
  | x :: xs, ys => by cases ys <;> simp [beqFields, beqField_iff x, beqFields_iff xs]

end

instance : DecidableEq Value := fun a b => decidable_of_iff (beq a b = true) (beq_iff a b)

/-! ### Texts of a value -/

mutual

/-- `String(value)`: an array joins its items with commas, null items are empty. -/
def toText : Value → String
  | null => "null"
  | bool b => if b then "true" else "false"
  | num n => n
  | str s => s
  | list xs => ",".intercalate (itemTexts xs)
  | map _ => "[object Object]"

def itemTexts : List Value → List String
  | [] => []
  | null :: xs => "" :: itemTexts xs
  | x :: xs => toText x :: itemTexts xs

end

def hexDigit (n : ℕ) : Char := "0123456789abcdef".toList.getD n '0'

/-- One character inside a JSON string. -/
def jsonChar (c : Char) : List Char :=
  if c = '"' then ['\\', '"']
  else if c = '\\' then ['\\', '\\']
  else if c.toNat = 8 then ['\\', 'b']
  else if c.toNat = 9 then ['\\', 't']
  else if c.toNat = 10 then ['\\', 'n']
  else if c.toNat = 12 then ['\\', 'f']
  else if c.toNat = 13 then ['\\', 'r']
  else if c.toNat < 32 then
    ['\\', 'u', '0', '0', hexDigit (c.toNat / 16), hexDigit (c.toNat % 16)]
  else [c]

def jsonString (s : String) : String :=
  "\"" ++ String.ofList (s.toList.flatMap jsonChar) ++ "\""

mutual

/-- `JSON.stringify(value)`; NaN and the infinities become `null`. -/
def json : Value → String
  | null => "null"
  | bool b => if b then "true" else "false"
  | num n => if n = "NaN" ∨ n = "Infinity" ∨ n = "-Infinity" then "null" else n
  | str s => jsonString s
  | list xs => "[" ++ ",".intercalate (jsonItems xs) ++ "]"
  | map m => "\x7b" ++ ",".intercalate (jsonFields m) ++ "\x7d"

def jsonItems : List Value → List String
  | [] => []
  | x :: xs => json x :: jsonItems xs

def jsonField : String × Value → String
  | (k, v) => jsonString k ++ ":" ++ json v

def jsonFields : List (String × Value) → List String
  | [] => []
  | f :: fs => jsonField f :: jsonFields fs

end

/-! ### Properties of a value -/

/-- The array index a property name denotes: a decimal text without leading zeros. -/
def arrayIndex? (key : String) : Option ℕ :=
  match decimal? key with
  | some n => if toString n = key then some n else none
  | none => none

/-- `value?.[key]`; `none` is `undefined`. -/
def member (v : Value) (key : String) : Option Value :=
  match v with
  | map m => ObjectMap.get? m key
  | list xs =>
      if key = "length" then some (num (toString xs.length))
      else (arrayIndex? key).bind fun i => xs[i]?
  | str s =>
      if key = "length" then some (num (toString s.length))
      else (arrayIndex? key).bind fun i => s.toList[i]?.map fun c => str c.toString
  | _ => none

/-- `value[key] = x` on an object or an array. A hole left before a new index is
dumped as `null`; a property of an array that is no index is not dumped at all. -/
def setMember (v : Value) (key : String) (x : Value) : Value :=
  match v with
  | map m => map (ObjectMap.set m key x)
  | list xs =>
      match arrayIndex? key with
      | some i =>
          if i < xs.length then list (xs.set i x)
          else list (xs ++ List.replicate (i - xs.length) null ++ [x])
      | none => list xs
  | other => other

/-- `delete value[key]`; a deleted array item leaves a hole. -/
def eraseMember (v : Value) (key : String) : Value :=
  match v with
  | map m => map (ObjectMap.erase m key)
  | list xs =>
      match arrayIndex? key with
      | some i => if i < xs.length then list (xs.set i null) else list xs
      | none => list xs
  | other => other

/-- The value counts as true in a condition. -/
def isTruthy : Value → Bool
  | .null => false
  | .bool b => b
  | .num lexeme => lexeme != "0" && lexeme != "NaN"
  | .str s => s != ""
  | .list _ | .map _ => true

/-- `typeof value === 'object'`, null apart. -/
def isContainer : Value → Bool
  | map _ | list _ => true
  | _ => false

end Value

/-! ### Dotted paths -/

/-- `path.split('.')`. -/
def pathParts (path : String) : List String := (path.toList.splitOn '.').map String.ofList

theorem pathParts_ne_nil (path : String) : pathParts path ≠ [] := by
  unfold pathParts
  rw [ne_eq, List.map_eq_nil_iff]
  exact List.splitOn_ne_nil _ _

/-- The walk of `getByPath` over the parts of a path. -/
def getIn : Option Value → List String → Option Value
  | curr, [] => curr
  | curr, key :: keys => getIn (curr.bind fun v => v.member key) keys

def setIn (v : Value) (parts : List String) (x : Value) : Value :=
  match parts with
  | [] => v
  | [key] => v.setMember key x
  | key :: keys =>
      let child := match v.member key with
        | some c => if c.isContainer then c else .map []
        | none => .map []
      v.setMember key (setIn child keys x)

theorem setIn_cons_cons (v : Value) (key k : String) (keys : List String) (x : Value) :
    setIn v (key :: k :: keys) x = v.setMember key (setIn (match v.member key with
      | some c => if c.isContainer then c else .map []
      | none => .map []) (k :: keys) x) := rfl

def eraseIn (v : Value) (parts : List String) : Value :=
  match parts with
  | [] => v
  | [key] => v.eraseMember key
  | key :: keys =>
      match v.member key with
      | none | some .null => v
      | some c => v.setMember key (eraseIn c keys)

def getByPath (obj : Object) (path : String) : Option Value :=
  getIn (some (.map obj)) (pathParts path)

/-- The entries of a value that is still the object a walk started from. -/
def Value.entries : Value → Object
  | .map m => m
  | _ => []

def setByPath (obj : Object) (path : String) (x : Value) : Object :=
  (setIn (.map obj) (pathParts path) x).entries

def deleteByPath (obj : Object) (path : String) : Object :=
  (eraseIn (.map obj) (pathParts path)).entries

/-- The assignment of `setByPath` reaches `length` of an array, which refuses what is no
length. In `setMember` such an assignment changes nothing. -/
def assignsLength (obj : Object) (path : String) : Bool :=
  match getIn (some (.map obj)) (pathParts path).dropLast with
  | some (.list _) => (pathParts path).getLast? == some "length"
  | _ => false

/-- `value != null`: neither `undefined` nor `null`. -/
def present : Option Value → Bool
  | none | some .null => false
  | some _ => true

/-! ### Documents -/

/-- A YAML text, known by what `yaml.load` returns for it; `none` when it throws. -/
structure YamlText where
  loaded : Option Value
  deriving Repr, DecidableEq, Inhabited

/-- `yaml.dump` of an object: the text that loads to that object. -/
def yamlDump (obj : Object) : YamlText := ⟨some (.map obj)⟩

/-- `parseYaml`: a text that is absent, that does not load, or that loads to no
mapping counts as the empty object. -/
def parseYaml : Option YamlText → Object
  | some ⟨some (.map m)⟩ => m
  | _ => []

/-- `Object.keys(parsed).length > 0 ? yaml.dump(parsed) : null`. -/
def dumpNonEmpty (obj : Object) : Option YamlText :=
  if obj.length > 0 then some (yamlDump obj) else none

@[simp] theorem parseYaml_yamlDump (obj : Object) : parseYaml (some (yamlDump obj)) = obj := rfl

@[simp] theorem parseYaml_dumpNonEmpty (obj : Object) : parseYaml (dumpNonEmpty obj) = obj := by
  unfold dumpNonEmpty
  by_cases h : obj.length > 0
  · rw [if_pos h, parseYaml_yamlDump]
  · rw [if_neg h]
    have hnil : obj = [] := List.eq_nil_of_length_eq_zero (by omega)
    rw [hnil]
    rfl

example : getByPath [("db", .map [("password", .str "s")])] "db.password" = some (.str "s") := by
  decide

end UploadService
