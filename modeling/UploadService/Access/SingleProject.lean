import UploadService.Policy.Rules

/-!
# The guard of handlers on one project

`canActivate` for a handler with `ValidateProjectAnyAccess`: the request names a
project, by its id or by its name, and the guard finds the project the sender has
access to, by the project token or else as a member. The two are compared with `!=`,
which takes a text for the number it spells; then the id of the project is put into
the request.
-/

namespace UploadService

/-! ### Loose equality -/

/-- The digits of a literal in another base. -/
def radixLiteral? (base : ℕ) (digits : List Char) : Option ℕ :=
  let value := fun c : Char =>
    if c.isDigit then c.toNat - 48
    else if 'a' ≤ c ∧ c ≤ 'z' then c.toNat - 87
    else if 'A' ≤ c ∧ c ≤ 'Z' then c.toNat - 55
    else base
  if digits.isEmpty || digits.any (fun c => decide (base ≤ value c)) then none
  else some (digits.foldl (fun n c => n * base + value c) 0)

/-- The exponent of a decimal literal; none is written where there is no `e`. -/
def exponent? : List Char → Option ℤ
  | [] => some 0
  | _ :: cs =>
      let negative := cs.head? == some '-'
      let digits := if negative || cs.head? == some '+' then cs.drop 1 else cs
      if digits.isEmpty || !digits.all Char.isDigit then none
      else some (if negative then -(Nat.ofDigitChars 10 digits 0 : ℤ)
        else Nat.ofDigitChars 10 digits 0)

/-- The natural number a decimal literal spells, if it spells one. -/
def decimalLiteral? (literal : List Char) : Option ℕ :=
  let negative := literal.head? == some '-'
  let cs := if negative || literal.head? == some '+' then literal.drop 1 else literal
  let isExponent := fun c => c == 'e' || c == 'E'
  let mantissa := cs.takeWhile fun c => !isExponent c
  let whole := mantissa.takeWhile (· != '.')
  let fraction := (mantissa.dropWhile (· != '.')).drop 1
  let digits := whole ++ fraction
  match exponent? (cs.dropWhile fun c => !isExponent c) with
  | none => none
  | some exponent =>
      if digits.isEmpty || !digits.all Char.isDigit then none
      else
        let m := Nat.ofDigitChars 10 digits 0
        let shift := exponent - fraction.length
        if m = 0 then some 0
        else if negative then none
        else if 0 ≤ shift then some (m * 10 ^ shift.toNat)
        else if m % 10 ^ (-shift).toNat = 0 then some (m / 10 ^ (-shift).toNat)
        else none

/-- The natural number that `Number(text)` is, if it is one. -/
def naturalNumber? (text : String) : Option ℕ :=
  match (trim text).toList with
  | [] => some 0
  | '0' :: 'x' :: digits | '0' :: 'X' :: digits => radixLiteral? 16 digits
  | '0' :: 'o' :: digits | '0' :: 'O' :: digits => radixLiteral? 8 digits
  | '0' :: 'b' :: digits | '0' :: 'B' :: digits => radixLiteral? 2 digits
  | literal => decimalLiteral? literal

/-- `n == identifier`. -/
def looseEqualsNumber (n : ℕ) : Identifier → Bool
  | .id m => n == m
  | .name s => naturalNumber? s == some n

/-- `text == identifier`. -/
def looseEqualsText (text : String) : Identifier → Bool
  | .id m => naturalNumber? text == some m
  | .name s => text == s

/-- An identifier that counts as missing. -/
def isFalsy : Identifier → Bool
  | .id n => n == 0
  | .name s => s == ""

/-! ### The guard -/

namespace ProjectAccessGuard

/-- `validateProject`. -/
def validateProject (access : AccessService) (projectToken : Option String) :
    Except Exception (Option Project) :=
  match truthy projectToken with
  | none => .ok none
  | some token => access.getProjectFromToken token

/-- `validateUser`: the user is a member of the project and has one of the roles. -/
def validateUser (access : AccessService) (projectIdentifier : Identifier) (email : Option String)
    (roles : List String) : Except Exception (Option Project) := do
  match truthy email with
  | none => .ok none
  | some email =>
    match ← access.getMemberInProject (some projectIdentifier) email with
    | none => .error (.forbidden s!"User {email} is not a member of the project.")
    | some memberProject =>
      if roles.isEmpty || roles.contains memberProject.role then .ok memberProject.project
      else .error (.forbidden s!"User {email} does not have the required role.")

/-- `validateAny`: the token first; a rejection of either attempt rejects the request. -/
def validateAny (access : AccessService) (projectIdentifier : Identifier) (headers : Headers)
    (roles : List String) : Except Exception (Option Project) := do
  match ← validateProject access headers.projectToken with
  | some project => .ok (some project)
  | none => validateUser access projectIdentifier headers.email roles

/-- `canActivate`: the project whose id goes into the request. -/
def canActivate (access : AccessService) (headers : Headers) (roles : List String)
    (projectIdentifier projectId : Option Identifier) : Except Exception Project := do
  match projectIdentifier.or projectId with
  | none => .error (.forbidden "Project Identifier is not found in the request.")
  | some identifier =>
    let text := identifier.toText
    if isFalsy identifier then
      .error (.forbidden "Project Identifier is not found in the request.")
    else match ← validateAny access identifier headers roles with
      | none => .error (.forbidden s!"Not allowed in this project: {text}")
      | some project =>
        if looseEqualsNumber project.id identifier || looseEqualsText project.name identifier then
          .ok project
        else .error (.forbidden s!"Not allowed in this project: {text}")

end ProjectAccessGuard

end UploadService
