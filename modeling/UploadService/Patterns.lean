import UploadService.Lib.Regex
import UploadService.Texts

/-!
# Strings of a pattern

`RegexValidation` tests a string against the regular expression of a pattern. Every expression is
anchored at both ends, so a string passes that is a word of the expression; the lookahead of one and
the back reference of another are written out.

The expression for IP addresses repeats three times what is either a whole address of eight groups or
an octet with its dot, and asks for one more octet behind.

Main results: `mem_octet`, the octets are the numbers up to 255; `validate_ip_iff`, the validation is
exact but on the addresses of eight groups, which it refuses, and on the strings that it puts together
from such addresses and octets.
-/

namespace UploadService

inductive Pattern where
  | version | mac | ip | bBox | date | singleWord | notOnlyNumbers | noAtSymbol
  deriving DecidableEq, Repr

namespace Pattern

open Regex

/-! ### The expressions -/

def lit (c : Char) : Regex Char := one (· == c)

/-- `[lo-hi]`. -/
def range (lo hi c : Char) : Bool := lo.toNat ≤ c.toNat && c.toNat ≤ hi.toNat

def isHex (c : Char) : Bool := range '0' '9' c || range 'a' 'f' c || range 'A' 'F' c

/-- `\d`. -/
def digit : Regex Char := one (range '0' '9')

def hexDigit : Regex Char := one isHex

/-- `(\d+\.)*\d+`. -/
def versionRegex : Regex Char := star (many digit * lit '.') * many digit

/-- `([0-9A-Fa-f]{2}[:-]){5}([0-9A-Fa-f]{2})`. -/
def macRegex : Regex Char :=
  times (times hexDigit 2 * one fun c => c == ':' || c == '-') 5 * times hexDigit 2

/-- `25[0-5]|2[0-4][0-9]|[01]?[0-9][0-9]?`. -/
def octet : Regex Char :=
  lit '2' * (lit '5' * one (range '0' '5')) + lit '2' * (one (range '0' '4') * digit) +
    opt (one (range '0' '1')) * (digit * opt digit)

/-- `([0-9a-fA-F]{1,4}:){7}[0-9a-fA-F]{1,4}`. -/
def eightGroups : Regex Char := times (between 1 4 hexDigit * lit ':') 7 * between 1 4 hexDigit

/-- One of the two alternatives that are repeated. -/
def ipPart : Regex Char := eightGroups + octet * lit '.'

def ipRegex : Regex Char := times ipPart 3 * octet

/-- `-?\d+(\.\d+)?`. -/
def number : Regex Char := opt (lit '-') * (many digit * opt (lit '.' * many digit))

/-- A number, and numbers behind commas: three of them or more in all. -/
def bBoxRegex : Regex Char :=
  number * (lit ',' * number) * star (lit ',' * number) * (lit ',' * number)

/-- `\d{1,2}c\d{1,2}c\d{2}(\d{2,4})?`. -/
def dateWith (c : Char) : Regex Char :=
  between 1 2 digit * lit c * between 1 2 digit * lit c * times digit 2 * opt (between 2 4 digit)

/-- The second separator refers back to the first one. -/
def dateRegex : Regex Char := dateWith '/' + dateWith '\\' + dateWith '.'

/-- `[^\s]+`. -/
def singleWordRegex : Regex Char := many (one fun c => !isBlank c)

/-- `(?!^\d+$).*`: the dot stands for all but the line terminators. -/
def notOnlyNumbersRegex : Regex Char :=
  star (one fun c => !([10, 13, 8232, 8233].contains c.toNat)) - many digit

/-- `[^@]*`. -/
def noAtSymbolRegex : Regex Char := star (one (· != '@'))

def regex : Pattern → Regex Char
  | version => versionRegex
  | mac => macRegex
  | ip => ipRegex
  | bBox => bBoxRegex
  | date => dateRegex
  | singleWord => singleWordRegex
  | notOnlyNumbers => notOnlyNumbersRegex
  | noAtSymbol => noAtSymbolRegex

end Pattern

/-! ### The validator -/

/-- What is validated; a value that is no string is `none`. -/
structure ValidationArguments where
  property : String
  value : Option String
  constraints : List Pattern
  deriving DecidableEq, Repr

structure RegexValidation where
  validationFor : Option Pattern
  regexPattern : Option (Regex Char)

namespace RegexValidation

/-- An unknown pattern leaves the expression that was set before. -/
def setRegPattern (self : RegexValidation) (validationFor : Option Pattern) : RegexValidation where
  validationFor := validationFor
  regexPattern := (validationFor.map Pattern.regex).or self.regexPattern

/-- The outcome, and the validator that was set to the pattern. -/
def validate (self : RegexValidation) (text : String) (args : ValidationArguments) :
    Bool × RegexValidation :=
  if text = "" then (true, self)
  else if args.value.isNone then (false, self)
  else
    let set := self.setRegPattern args.constraints.head?
    match set.regexPattern with
    | some regex => (regex.test text.toList, set)
    | none => (true, set)

def defaultMessage (self : RegexValidation) (args : ValidationArguments) : String :=
  if args.value.isNone then args.property ++ " must be a string"
  else match self.validationFor with
  | some .version => args.property ++ " must be only digits separated by dots (e.g., 1.1.1)"
  | some .mac | some .ip => args.property ++ " is not a valid format"
  | some .bBox => args.property ++ " must be numbers separated by commas (e.g., 34,32,34,31)"
  | some .date => args.property ++ " must be in MM/DD/YY format, separated by /, \\ or ."
  | some .singleWord => args.property ++ " must be a single word without spaces"
  | some .notOnlyNumbers => args.property ++ " must not contain only numbers"
  | some .noAtSymbol => args.property ++ " cannot contain '@'"
  | none => "Not valid!"

/-- **Spec.** A string that is not empty passes where it is a word of the pattern, whatever the
validator was set to. -/
theorem validate_iff (self : RegexValidation) {text : String} (hne : text ≠ "") (property : String)
    (pattern : Pattern) :
    (self.validate text ⟨property, some text, [pattern]⟩).1 = true ↔
      text.toList ∈ pattern.regex.lang := by
  rw [← Regex.test_iff]
  unfold validate
  rw [if_neg hne]
  rfl

end RegexValidation

/-! ### Addresses -/

/-- `n` parts with the mark between them. -/
def IsSeparated (mark : Char) (n : ℕ) (P : List Char → Prop) (s : List Char) : Prop :=
  ∃ parts : List (List Char), parts.length = n ∧ (∀ part ∈ parts, P part) ∧
    s = [mark].intercalate parts

/-- A decimal number from 0 to 255 in one to three digits. -/
def IsOctet (o : List Char) : Prop :=
  (1 ≤ o.length ∧ o.length ≤ 3) ∧ (∀ c ∈ o, c.isDigit = true) ∧ Nat.ofDigitChars 10 o 0 ≤ 255

/-- Four octets with dots between them. -/
def IsDottedQuad : List Char → Prop := IsSeparated '.' 4 IsOctet

/-- One to four hexadecimal digits. -/
def IsHexGroup (g : List Char) : Prop :=
  (1 ≤ g.length ∧ g.length ≤ 4) ∧ ∀ c ∈ g, Pattern.isHex c = true

instance (g : List Char) : Decidable (IsHexGroup g) :=
  @instDecidableAnd _ _ inferInstance (List.decidableBAll (fun c => Pattern.isHex c = true) g)

/-- Eight groups with colons between them. -/
def IsEightGroups : List Char → Prop := IsSeparated ':' 8 IsHexGroup

/-- Three parts, each an address of eight groups or an octet with a dot behind it, at least one of
them an address; and one more octet. -/
def IsPatched (s : List Char) : Prop :=
  ∃ (parts : List (List Char)) (last : List Char), parts.length = 3 ∧
    (∀ part ∈ parts, IsEightGroups part ∨ ∃ o, IsOctet o ∧ part = o ++ ['.']) ∧
    (∃ part ∈ parts, IsEightGroups part) ∧ IsOctet last ∧ s = parts.flatten ++ last

namespace Pattern

open Regex

theorem range_iff {lo hi c : Char} :
    range lo hi c = true ↔ lo.toNat ≤ c.toNat ∧ c.toNat ≤ hi.toNat := by
  unfold range
  rw [Bool.and_eq_true, decide_eq_true_eq, decide_eq_true_eq]

theorem isDigit_iff (c : Char) : c.isDigit = true ↔ 48 ≤ c.toNat ∧ c.toNat ≤ 57 := by
  refine ⟨digit_range, fun h => ?_⟩
  unfold Char.isDigit
  rw [Bool.and_eq_true, decide_eq_true_eq, decide_eq_true_eq]
  exact ⟨UInt32.le_iff_toNat_le.mpr h.1, UInt32.le_iff_toNat_le.mpr h.2⟩

theorem lit_iff {c d : Char} : (c == d) = true ↔ c.toNat = d.toNat := by
  rw [beq_iff_eq, ← Char.toNat_inj]

theorem mem_one_mul {p : Char → Bool} {r : Regex Char} {x : List Char} :
    x ∈ lang (one p * r) ↔ ∃ c y, x = c :: y ∧ p c = true ∧ y ∈ lang r := by
  rw [lang_mul, Language.mem_mul]
  constructor
  · rintro ⟨_, ⟨c, hc, rfl⟩, y, hy, rfl⟩
    exact ⟨c, y, rfl, hc, hy⟩
  · rintro ⟨c, y, rfl, hc, hy⟩
    exact ⟨[c], ⟨c, hc, rfl⟩, y, hy, rfl⟩

theorem mem_opt_one_mul {p : Char → Bool} {r : Regex Char} {x : List Char} :
    x ∈ lang (opt (one p) * r) ↔ (∃ c y, x = c :: y ∧ p c = true ∧ y ∈ lang r) ∨ x ∈ lang r := by
  rw [← mem_one_mul, opt, lang_mul, lang_add, add_mul, lang_one, one_mul, Language.mem_add, or_comm,
    lang_mul]

theorem mem_opt_one {p : Char → Bool} {x : List Char} :
    x ∈ lang (opt (one p)) ↔ x = [] ∨ ∃ c, x = [c] ∧ p c = true := by
  rw [opt, lang_add, Language.mem_add, lang_one, Language.mem_one, mem_lang_one]
  simp only [and_comm]

/-- The value of one to three digits. -/
theorem ofDigitChars_three (a b c : Char) :
    Nat.ofDigitChars 10 [a] 0 = a.toNat - 48 ∧
    Nat.ofDigitChars 10 [a, b] 0 = 10 * (a.toNat - 48) + (b.toNat - 48) ∧
    Nat.ofDigitChars 10 [a, b, c] 0 =
      10 * (10 * (a.toNat - 48) + (b.toNat - 48)) + (c.toNat - 48) := by
  simp [Nat.ofDigitChars]

/-- **Spec.** The octets are the numbers from 0 to 255 in one to three digits. -/
theorem mem_octet {o : List Char} : o ∈ lang octet ↔ IsOctet o := by
  unfold octet IsOctet lit digit
  rw [lang_add, Language.mem_add, lang_add, Language.mem_add]
  simp only [mem_one_mul, mem_opt_one_mul, mem_opt_one, mem_lang_one, range_iff, lit_iff]
  -- by the number of the characters
  rcases o with _ | ⟨a, _ | ⟨b, _ | ⟨c, _ | ⟨d, o⟩⟩⟩⟩
  · simp
  · have hvalue := (ofDigitChars_three a a a).1
    simp [isDigit_iff, hvalue]
    omega
  · have hvalue := (ofDigitChars_three a b b).2.1
    simp [isDigit_iff, hvalue]
    omega
  · have hvalue := (ofDigitChars_three a b c).2.2
    simp [isDigit_iff, hvalue]
    omega
  · simp

/-- **Spec.** Parts with the mark behind each, and one more, are parts with the mark between them. -/
theorem mem_separated {r : Regex Char} {mark : Char} {n : ℕ} {x : List Char} :
    x ∈ lang (times (r * lit mark) n * r) ↔ IsSeparated mark (n + 1) (· ∈ lang r) x := by
  induction n generalizing x with
  | zero =>
      rw [times, lang_mul, lang_one, one_mul]
      constructor
      · exact fun hx => ⟨[x], rfl, by simpa using hx, by simp [List.intercalate]⟩
      · rintro ⟨parts, hlength, hparts, rfl⟩
        obtain ⟨part, rfl⟩ := List.length_eq_one_iff.mp hlength
        simpa [List.intercalate] using hparts
  | succ n ih =>
      have hsplit : x ∈ lang (times (r * lit mark) (n + 1) * r) ↔
          ∃ p ∈ lang r, ∃ rest ∈ lang (times (r * lit mark) n * r), x = p ++ mark :: rest := by
        rw [times, lang_mul, lang_mul, mul_assoc, ← lang_mul _ r, lang_mul r, mul_assoc,
          Language.mem_mul]
        constructor
        · rintro ⟨p, hp, y, hy, rfl⟩
          obtain ⟨_, hmark, rest, hrest, rfl⟩ := Language.mem_mul.mp hy
          obtain ⟨c, hc, rfl⟩ := hmark
          exact ⟨p, hp, rest, hrest, by rw [beq_iff_eq.mp hc]; rfl⟩
        · rintro ⟨p, hp, rest, hrest, rfl⟩
          exact ⟨p, hp, mark :: rest, Language.mem_mul.mpr
            ⟨[mark], ⟨mark, beq_self_eq_true mark, rfl⟩, rest, hrest, rfl⟩, rfl⟩
      rw [hsplit]
      constructor
      · rintro ⟨p, hp, rest, hrest, rfl⟩
        obtain ⟨parts, hlength, hparts, rfl⟩ := ih.mp hrest
        obtain ⟨q, parts, rfl⟩ := List.exists_cons_of_length_eq_add_one hlength
        exact ⟨p :: q :: parts, by rw [List.length_cons, hlength], List.forall_mem_cons.mpr ⟨hp, hparts⟩,
          by rw [List.intercalate_cons_cons, List.append_assoc, List.singleton_append]⟩
      · rintro ⟨parts, hlength, hparts, rfl⟩
        obtain ⟨p, parts, rfl⟩ := List.exists_cons_of_length_eq_add_one hlength
        have hrest : parts.length = n + 1 := Nat.succ.inj hlength
        obtain ⟨q, parts, rfl⟩ := List.exists_cons_of_length_eq_add_one hrest
        obtain ⟨hp, hparts⟩ := List.forall_mem_cons.mp hparts
        exact ⟨p, hp, _, ih.mpr ⟨q :: parts, hrest, hparts, rfl⟩,
          by rw [List.intercalate_cons_cons, List.append_assoc, List.singleton_append]⟩

theorem mem_hexGroup {g : List Char} : g ∈ lang (between 1 4 hexDigit) ↔ IsHexGroup g :=
  mem_lang_between (by decide)

theorem mem_eightGroups {x : List Char} : x ∈ lang eightGroups ↔ IsEightGroups x := by
  unfold eightGroups IsEightGroups IsSeparated
  rw [mem_separated]
  unfold IsSeparated
  simp only [mem_hexGroup]

/-- One of the parts that are repeated. -/
theorem mem_ipPart {x : List Char} :
    x ∈ lang ipPart ↔ IsEightGroups x ∨ ∃ o, IsOctet o ∧ x = o ++ ['.'] := by
  unfold ipPart
  rw [lang_add, Language.mem_add, mem_eightGroups, lang_mul, Language.mem_mul]
  apply or_congr_right
  constructor
  · rintro ⟨o, ho, _, ⟨c, hc, rfl⟩, rfl⟩
    exact ⟨o, mem_octet.mp ho, by rw [beq_iff_eq.mp hc]⟩
  · rintro ⟨o, ho, rfl⟩
    exact ⟨o, mem_octet.mpr ho, ['.'], ⟨'.', rfl, rfl⟩, rfl⟩

/-- Three octets with dots behind them and one more are a dotted quad. -/
theorem isDottedQuad_of_parts {parts : List (List Char)} {last : List Char}
    (hlength : parts.length = 3) (hparts : ∀ part ∈ parts, ∃ o, IsOctet o ∧ part = o ++ ['.'])
    (hlast : IsOctet last) : IsDottedQuad (parts.flatten ++ last) := by
  obtain ⟨p, q, r, rfl⟩ := List.length_eq_three.mp hlength
  simp only [List.forall_mem_cons] at hparts
  obtain ⟨⟨a, ha, rfl⟩, ⟨b, hb, rfl⟩, ⟨c, hc, rfl⟩, -⟩ := hparts
  refine ⟨[a, b, c, last], rfl, by simp [ha, hb, hc, hlast], ?_⟩
  simp [List.intercalate]

/-- **Spec.** The strings that pass: the dotted quads, and what is put together from addresses of
eight groups and octets. -/
theorem mem_ip {s : List Char} : s ∈ lang ipRegex ↔ IsDottedQuad s ∨ IsPatched s := by
  have hparts : s ∈ lang ipRegex ↔ ∃ (parts : List (List Char)) (last : List Char),
      parts.length = 3 ∧ (∀ part ∈ parts, part ∈ lang ipPart) ∧ IsOctet last ∧
      s = parts.flatten ++ last := by
    unfold ipRegex
    rw [lang_mul, lang_times, Language.mem_mul]
    constructor
    · rintro ⟨y, hy, last, hlast, rfl⟩
      obtain ⟨parts, rfl, hlength, hall⟩ := Language.mem_pow.mp hy
      exact ⟨parts, last, hlength, hall, mem_octet.mp hlast, rfl⟩
    · rintro ⟨parts, last, hlength, hall, hlast, rfl⟩
      exact ⟨parts.flatten, Language.mem_pow.mpr ⟨parts, rfl, hlength, hall⟩, last,
        mem_octet.mpr hlast, rfl⟩
  rw [hparts]
  constructor
  · rintro ⟨parts, last, hlength, hall, hlast, rfl⟩
    by_cases haddress : ∃ part ∈ parts, IsEightGroups part
    · exact .inr ⟨parts, last, hlength, fun part hpart => mem_ipPart.mp (hall part hpart), haddress,
        hlast, rfl⟩
    · refine .inl (isDottedQuad_of_parts hlength (fun part hpart => ?_) hlast)
      exact (mem_ipPart.mp (hall part hpart)).resolve_left fun h => haddress ⟨part, hpart, h⟩
  · rintro (⟨octets, hlength, hall, rfl⟩ | ⟨parts, last, hlength, hall, -, hlast, rfl⟩)
    · obtain ⟨a, b, c, d, rfl⟩ : ∃ a b c d, octets = [a, b, c, d] := by
        match octets, hlength with
        | [a, b, c, d], _ => exact ⟨a, b, c, d, rfl⟩
      simp only [List.forall_mem_cons] at hall
      obtain ⟨ha, hb, hc, hd, -⟩ := hall
      refine ⟨[a ++ ['.'], b ++ ['.'], c ++ ['.']], d, rfl, ?_, hd, by simp [List.intercalate]⟩
      simp only [List.forall_mem_cons, List.not_mem_nil, false_imp_iff, implies_true, and_true]
      exact ⟨mem_ipPart.mpr (.inr ⟨a, ha, rfl⟩), mem_ipPart.mpr (.inr ⟨b, hb, rfl⟩),
        mem_ipPart.mpr (.inr ⟨c, hc, rfl⟩)⟩
    · exact ⟨parts, last, hlength, fun part hpart => mem_ipPart.mpr (hall part hpart), hlast, rfl⟩

end Pattern

/-! ### Which addresses exclude each other -/

theorem IsOctet.not_mem {o : List Char} (h : IsOctet o) {c : Char} (hc : c.isDigit = false) :
    c ∉ o := by
  intro hmem
  rw [h.2.1 c hmem] at hc
  cases hc

theorem IsHexGroup.not_mem {g : List Char} (h : IsHexGroup g) {c : Char}
    (hc : Pattern.isHex c = false) : c ∉ g := by
  intro hmem
  rw [h.2 c hmem] at hc
  cases hc

/-- How often a character that is in no part stands between the parts. -/
theorem count_intercalate {mark c : Char} {parts : List (List Char)} (hparts : ∀ p ∈ parts, c ∉ p) :
    ([mark].intercalate parts).count c = if mark = c then parts.length - 1 else 0 := by
  induction parts with
  | nil => simp [List.intercalate]
  | cons p parts ih =>
      obtain ⟨hp, hrest⟩ := List.forall_mem_cons.mp hparts
      have hcount : p.count c = 0 := List.count_eq_zero.mpr hp
      cases parts with
      | nil => simp [List.intercalate, hcount]
      | cons q parts =>
          rw [List.intercalate_cons_cons, List.count_append, List.count_append, hcount, ih hrest,
            List.count_singleton]
          by_cases hmark : mark = c
          · simp [hmark, Nat.add_comm]
          · simp [hmark]

theorem IsEightGroups.counts {s : List Char} (h : IsEightGroups s) :
    s.count ':' = 7 ∧ s.count '.' = 0 := by
  obtain ⟨groups, hlength, hgroups, rfl⟩ := h
  constructor
  · rw [count_intercalate fun g hg => (hgroups g hg).not_mem rfl, if_pos rfl, hlength]
  · rw [count_intercalate fun g hg => (hgroups g hg).not_mem rfl, if_neg (by decide)]

theorem IsDottedQuad.counts {s : List Char} (h : IsDottedQuad s) :
    s.count ':' = 0 ∧ s.count '.' = 3 := by
  obtain ⟨octets, hlength, hoctets, rfl⟩ := h
  constructor
  · rw [count_intercalate fun o ho => (hoctets o ho).not_mem rfl, if_neg (by decide)]
  · rw [count_intercalate fun o ho => (hoctets o ho).not_mem rfl, if_pos rfl, hlength]

/-- What is put together has a colon; without a dot it has the colons of three addresses. -/
theorem IsPatched.counts {s : List Char} (h : IsPatched s) :
    s.count ':' ≠ 0 ∧ (s.count '.' = 0 → s.count ':' = 21) := by
  obtain ⟨parts, last, hlength, hparts, ⟨part, hpart, haddress⟩, hlast, rfl⟩ := h
  constructor
  · have hmem : ':' ∈ part := by
      rw [← List.count_pos_iff, haddress.counts.1]
      omega
    have hpos := List.count_pos_iff.mpr
      (List.mem_append_left last (List.mem_flatten.mpr ⟨part, hpart, hmem⟩))
    omega
  · intro hdots
    have hnot : '.' ∉ parts.flatten ++ last := List.count_eq_zero.mp hdots
    have hall : ∀ part ∈ parts, part.count ':' = 7 := by
      intro part hpart
      rcases hparts part hpart with haddress | ⟨o, -, rfl⟩
      · exact haddress.counts.1
      · exact absurd (List.mem_append_left last (List.mem_flatten.mpr ⟨_, hpart, by simp⟩)) hnot
    have hlastCount : last.count ':' = 0 := List.count_eq_zero.mpr (hlast.not_mem rfl)
    obtain ⟨p, q, r, rfl⟩ := List.length_eq_three.mp hlength
    simp only [List.forall_mem_cons] at hall
    simp [hall.1, hall.2.1, hall.2.2.1, hlastCount]

/-- **Main result.** A string that is not empty passes the validation of IP addresses exactly where
it is a dotted quad or an address of eight groups, unless it is such an address, which is refused, or
is put together from addresses and octets, which is accepted. -/
theorem validate_ip_iff (self : RegexValidation) (s property : String) (hne : s ≠ "") :
    ((self.validate s ⟨property, some s, [.ip]⟩).1 = true ↔
        IsDottedQuad s.toList ∨ IsEightGroups s.toList) ↔
      ¬ IsEightGroups s.toList ∧ ¬ IsPatched s.toList := by
  have haccepted : (self.validate s ⟨property, some s, [.ip]⟩).1 = true ↔
      IsDottedQuad s.toList ∨ IsPatched s.toList :=
    (self.validate_iff hne property .ip).trans Pattern.mem_ip
  rw [haccepted]
  constructor
  · intro hexact
    constructor
    · intro haddress
      obtain ⟨hcolons, hdots⟩ := haddress.counts
      rcases hexact.mpr (.inr haddress) with hquad | hpatched
      · rw [hquad.counts.1] at hcolons
        omega
      · rw [hpatched.counts.2 hdots] at hcolons
        omega
    · intro hpatched
      obtain ⟨hcolons, hthree⟩ := hpatched.counts
      rcases hexact.mp (.inr hpatched) with hquad | haddress
      · exact hcolons hquad.counts.1
      · have htwentyOne := hthree haddress.counts.2
        rw [haddress.counts.1] at htwentyOne
        omega
  · rintro ⟨hnotAddress, hnotPatched⟩
    constructor
    · exact fun h => .inl (h.resolve_right hnotPatched)
    · exact fun h => .inl (h.resolve_right hnotAddress)

/-- The validator as it is built for IP addresses. -/
def ipValidation : RegexValidation := ⟨some .ip, some Pattern.ipRegex⟩

theorem validate_ip_localhost :
    (ipValidation.validate "127.0.0.01" ⟨"ip", some "127.0.0.01", [.ip]⟩).1 = true ↔
      IsDottedQuad "127.0.0.01".toList ∨ IsEightGroups "127.0.0.01".toList := by
  have hcolon : ':' ∉ "127.0.0.01".toList := by decide
  refine (validate_ip_iff ipValidation "127.0.0.01" "ip" (by decide)).mpr ⟨fun h => ?_, fun h => ?_⟩
  · have hcount := h.counts.1
    rw [List.count_eq_zero.mpr hcolon] at hcount
    omega
  · exact h.counts.1 (List.count_eq_zero.mpr hcolon)

/-- An address of eight groups is refused, and one with octets run into it is accepted. -/
theorem eight_groups_refused :
    (ipValidation.validate "1:2:3:4:5:6:7:8" ⟨"ip", some "1:2:3:4:5:6:7:8", [.ip]⟩).1 = false ∧
      IsEightGroups "1:2:3:4:5:6:7:8".toList ∧
      (ipValidation.validate "1:2:3:4:5:6:7:81.2.3" ⟨"ip", some "1:2:3:4:5:6:7:81.2.3", [.ip]⟩).1 =
        true := by
  refine ⟨by decide +kernel, ?_, by decide +kernel⟩
  refine ⟨["1".toList, "2".toList, "3".toList, "4".toList, "5".toList, "6".toList, "7".toList,
    "8".toList], rfl, ?_, by decide⟩
  decide

end UploadService
