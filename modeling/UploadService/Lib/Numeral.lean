import Mathlib.Data.List.Basic
import Mathlib.Data.List.TakeWhile
import Mathlib.Algebra.Order.Ring.Rat
import Mathlib.Data.Nat.Log
import Mathlib.Data.Rat.Defs
import Mathlib.Tactic.Linarith
import Mathlib.Tactic.Positivity

/-!
# Binary64 numbers and their numerals

A number is a finite value or an infinity; the two zeros are one here, since no
comparison tells them apart, and NaN is the `none` of what may fail. A numeral
stands for the number nearest to its exact value, ties to even, and for an
infinity where that is out of range.

`literal?` reads the numerals of a program text: decimal ones with fraction and
exponent, and binary, octal and hexadecimal integers. The empty text reads as 0.
`toText` writes the shortest numeral that reads as the number.
-/

inductive Double where
  | finite (value : ℚ)
  | posInf
  | negInf
  deriving DecidableEq, Repr

namespace Double

/-! ### Rounding -/

/-- The natural number nearest to `num / den`, ties to even. -/
def roundRatio (num den : ℕ) : ℕ :=
  let q := num / den
  let r := num % den
  if den < 2 * r || (2 * r == den && q % 2 == 1) then q + 1 else q

/-- The exponent `e` with `2 ^ e ≤ num / den < 2 ^ (e + 1)`. -/
def binade (num den : ℕ) : ℤ :=
  let e : ℤ := (Nat.log2 num : ℤ) - Nat.log2 den
  if num * 2 ^ (-e).toNat < den * 2 ^ e.toNat then e - 1 else e

/-- The number nearest to `num / den`. -/
def nearest (num den : ℕ) : Double :=
  if num = 0 then finite 0
  else
    -- 53 significant bits, fewer below the least normal number
    let e := max (binade num den) (-1022) - 52
    let m := roundRatio (num * 2 ^ (-e).toNat) (den * 2 ^ e.toNat)
    if 2 ^ 1024 ≤ m * 2 ^ e.toNat then posInf
    else finite (mkRat (m * 2 ^ e.toNat) (2 ^ (-e).toNat))

def neg : Double → Double
  | finite q => finite (-q)
  | posInf => negInf
  | negInf => posInf

/-- `a ≤ b`. -/
def le : Double → Double → Bool
  | negInf, _ => true
  | _, posInf => true
  | finite p, finite q => p ≤ q
  | _, _ => false

/-- `Math.min(a, b)`. -/
def min (a b : Double) : Double := if le a b then a else b

/-- `Math.max(a, b)`. -/
def max (a b : Double) : Double := if le a b then b else a

/-- Each of two numbers is the less or the greater one. -/
theorem eq_min_or_max (a b : Double) :
    (a = min a b ∨ a = max a b) ∧ (b = min a b ∨ b = max a b) := by
  unfold min max
  by_cases h : le a b = true
  · rw [if_pos h, if_pos h]
    exact ⟨.inl rfl, .inr rfl⟩
  · rw [if_neg h, if_neg h]
    exact ⟨.inr rfl, .inl rfl⟩

/-! ### Arithmetic -/

/-- The number nearest to a rational. -/
def ofRat (q : ℚ) : Double :=
  if q < 0 then neg (nearest q.num.natAbs q.den) else nearest q.num.natAbs q.den

/-- The number nearest to an integer. -/
def ofInt (n : ℤ) : Double := ofRat n

/-- `a / b`; `none` is NaN. -/
def div : Double → Double → Option Double
  | finite p, finite q =>
      if q = 0 then if p = 0 then none else if 0 < p then some posInf else some negInf
      else some (ofRat (p / q))
  | finite _, _ => some (finite 0)
  | posInf, finite q => some (if 0 ≤ q then posInf else negInf)
  | negInf, finite q => some (if 0 ≤ q then negInf else posInf)
  | _, _ => none

/-- `a * b`; `none` is NaN. -/
def mul : Double → Double → Option Double
  | finite p, finite q => some (ofRat (p * q))
  | finite p, b => if p = 0 then none else some (if 0 < p then b else neg b)
  | a, finite q => if q = 0 then none else some (if 0 < q then a else neg a)
  | posInf, b => some b
  | negInf, b => some (neg b)

/-- Rounding leaves a number nonnegative. -/
theorem nearest_nonneg (num den : ℕ) : le (finite 0) (nearest num den) = true := by
  unfold nearest
  dsimp only
  split
  · exact decide_eq_true (le_refl (0 : ℚ))
  · split
    · rfl
    · refine decide_eq_true ?_
      rw [Rat.mkRat_eq_div]
      positivity

/-- What is not positive is rounded to what is not positive. -/
theorem ofRat_of_nonpos {q : ℚ} (hq : q ≤ 0) :
    ofRat q = negInf ∨ ∃ x, x ≤ 0 ∧ ofRat q = finite x := by
  unfold ofRat
  split
  · have hnonneg := nearest_nonneg q.num.natAbs q.den
    cases hnearest : nearest q.num.natAbs q.den with
    | finite x =>
        rw [hnearest] at hnonneg
        have hx : 0 ≤ x := of_decide_eq_true hnonneg
        exact .inr ⟨-x, by linarith, rfl⟩
    | posInf => exact .inl rfl
    | negInf =>
        rw [hnearest] at hnonneg
        cases hnonneg
  · have hzero : q = 0 := by linarith
    rw [hzero]
    exact .inr ⟨0, le_rfl, rfl⟩

/-- **Spec.** What is not positive, divided by 0, is no number or below all numbers. -/
theorem div_zero_of_nonpos {a : Double} (ha : a = negInf ∨ ∃ x, x ≤ 0 ∧ a = finite x) :
    div a (finite 0) = none ∨ div a (finite 0) = some negInf := by
  rcases ha with rfl | ⟨x, hx, rfl⟩
  · exact .inr rfl
  · unfold div
    dsimp only
    rw [if_pos rfl, if_neg (not_lt.mpr hx)]
    split
    · exact .inl rfl
    · exact .inr rfl

/-- What divides is not rounded. -/
theorem roundRatio_of_dvd {num den : ℕ} (hden : 0 < den) (h : den ∣ num) :
    roundRatio num den = num / den := by
  have hrem : num % den = 0 := Nat.mod_eq_zero_of_dvd h
  have hless : ¬ den < 0 := by omega
  have hne : (0 == den) = false := beq_false_of_ne (by omega)
  unfold roundRatio
  dsimp only
  rw [hrem, Nat.mul_zero, hne, Bool.false_and, Bool.or_false, decide_eq_false hless,
    if_neg Bool.false_ne_true]

theorem binade_natCast {n : ℕ} (hn : n ≠ 0) : binade n 1 = (Nat.log2 n : ℤ) := by
  have hlog : (Nat.log2 1 : ℤ) = 0 := rfl
  have hle : 2 ^ Nat.log2 n ≤ n := Nat.log2_self_le hn
  unfold binade
  dsimp only
  rw [hlog, Int.sub_zero, Int.toNat_natCast, Int.toNat_neg_natCast, Nat.pow_zero, Nat.mul_one,
    Nat.one_mul, if_neg (Nat.not_lt.mpr hle)]

/-- **Spec.** A natural number is a number of the format itself exactly where all but the first 53 of
its binary digits are 0. -/
theorem nearest_natCast_iff {n : ℕ} {q : ℚ} (h : nearest n 1 = finite q) :
    q = n ↔ 2 ^ (Nat.log2 n - 52) ∣ n := by
  by_cases hn : n = 0
  · rw [hn] at h ⊢
    have hq : q = 0 := by
      cases h
      rfl
    exact iff_of_true (by rw [hq]; rfl) (Nat.dvd_zero _)
  unfold nearest at h
  rw [if_neg hn, binade_natCast hn, max_eq_left (by omega)] at h
  dsimp only at h
  by_cases hlog : Nat.log2 n ≤ 52
  · -- no digit is lost
    have hsmall : ((Nat.log2 n : ℤ) - 52).toNat = 0 := by omega
    have hlarge : (-((Nat.log2 n : ℤ) - 52)).toNat = 52 - Nat.log2 n := by omega
    have hzero : Nat.log2 n - 52 = 0 := by omega
    rw [hsmall, hlarge, Nat.pow_zero, Nat.mul_one, Nat.mul_one,
      roundRatio_of_dvd Nat.one_pos (Nat.one_dvd _), Nat.div_one] at h
    split at h
    · cases h
    · have hq := Double.finite.inj h
      rw [hzero, Nat.pow_zero]
      refine iff_of_true ?_ (Nat.one_dvd n)
      rw [← hq, Rat.mkRat_eq_div]
      have hpos : ((2 : ℚ) ^ (52 - Nat.log2 n)) ≠ 0 := by positivity
      push_cast
      rw [mul_one, mul_div_assoc, div_self hpos, mul_one]
  · have hsmall : (-((Nat.log2 n : ℤ) - 52)).toNat = 0 := by omega
    have hlarge : ((Nat.log2 n : ℤ) - 52).toNat = Nat.log2 n - 52 := by omega
    rw [hsmall, hlarge, Nat.pow_zero, Nat.mul_one, Nat.one_mul] at h
    split at h
    · cases h
    · have hq := Double.finite.inj h
      have hcast : q = ((roundRatio n (2 ^ (Nat.log2 n - 52)) * 2 ^ (Nat.log2 n - 52) : ℕ) : ℚ) := by
        rw [← hq, Rat.mkRat_eq_div]
        push_cast
        rw [div_one]
      rw [hcast, Nat.cast_inj]
      constructor
      · exact fun heq => ⟨_, by rw [Nat.mul_comm]; exact heq.symm⟩
      · intro hdvd
        rw [roundRatio_of_dvd (Nat.two_pow_pos _) hdvd]
        exact Nat.div_mul_cancel hdvd

/-! ### Numerals -/

/-- The digits of a mantissa as one number, how many of them are fraction digits, and what
follows. -/
def mantissa? (cs : List Char) : Option (ℕ × ℕ × List Char) :=
  let whole := cs.takeWhile Char.isDigit
  match cs.dropWhile Char.isDigit with
  | '.' :: rest =>
      let fraction := rest.takeWhile Char.isDigit
      if whole.isEmpty && fraction.isEmpty then none
      else some (Nat.ofDigitChars 10 (whole ++ fraction) 0, fraction.length,
        rest.dropWhile Char.isDigit)
  | rest => if whole.isEmpty then none else some (Nat.ofDigitChars 10 whole 0, 0, rest)

def digits? (cs : List Char) : Option ℕ :=
  if cs.isEmpty || !cs.all Char.isDigit then none else some (Nat.ofDigitChars 10 cs 0)

/-- An exponent part, or nothing. -/
def exponent? : List Char → Option ℤ
  | [] => some 0
  | c :: cs =>
      if c = 'e' ∨ c = 'E' then
        match cs with
        | '-' :: ds => (digits? ds).map fun n => -(n : ℤ)
        | '+' :: ds => (digits? ds).map fun n => (n : ℤ)
        | ds => (digits? ds).map fun n => (n : ℤ)
      else none

/-- `m · 10 ^ e`. -/
def scaled (m : ℕ) (e : ℤ) : Double := nearest (m * 10 ^ e.toNat) (10 ^ (-e).toNat)

/-- A decimal numeral without a sign. -/
def unsigned? (cs : List Char) : Option Double :=
  if cs = "Infinity".toList then some posInf
  else match mantissa? cs with
    | none => none
    | some (m, fractionDigits, rest) => (exponent? rest).map fun e => scaled m (e - fractionDigits)

def digitValue (c : Char) : ℕ :=
  if c.isDigit then c.toNat - 48
  else if 'a' ≤ c ∧ c ≤ 'f' then c.toNat - 87
  else if 'A' ≤ c ∧ c ≤ 'F' then c.toNat - 55
  else 16

/-- An integer numeral of a radix up to 16, after its prefix. -/
def radix? (radix : ℕ) (cs : List Char) : Option Double :=
  if cs.isEmpty || !cs.all (fun c => digitValue c < radix) then none
  else some (nearest (cs.foldl (fun n c => n * radix + digitValue c) 0) 1)

/-- A numeral; only a decimal one may have a sign. -/
def literal? (cs : List Char) : Option Double :=
  match cs with
  | [] => some (finite 0)
  | '-' :: rest => (unsigned? rest).map neg
  | '+' :: rest => unsigned? rest
  | '0' :: c :: rest =>
      if c = 'x' ∨ c = 'X' then radix? 16 rest
      else if c = 'o' ∨ c = 'O' then radix? 8 rest
      else if c = 'b' ∨ c = 'B' then radix? 2 rest
      else unsigned? ('0' :: c :: rest)
  | rest => unsigned? rest

/-- The digits of a natural number are read as the number. -/
theorem literal?_digits {cs : List Char} (hne : cs ≠ []) (hdigits : ∀ c ∈ cs, c.isDigit = true) :
    literal? cs = some (nearest (Nat.ofDigitChars 10 cs 0) 1) := by
  have hall : cs.takeWhile Char.isDigit = cs := List.takeWhile_eq_self_iff.mpr hdigits
  have hnone : cs.dropWhile Char.isDigit = [] := List.dropWhile_eq_nil_iff.mpr hdigits
  have hempty : cs.isEmpty = false := by simpa using hne
  have hmantissa : mantissa? cs = some (Nat.ofDigitChars 10 cs 0, 0, []) := by
    unfold mantissa?
    dsimp only
    rw [hnone, hall, hempty]
    rfl
  have hunsigned : unsigned? cs = some (nearest (Nat.ofDigitChars 10 cs 0) 1) := by
    have hword : cs ≠ "Infinity".toList := by
      rintro rfl
      exact absurd (hdigits 'I' (by decide)) (by decide)
    unfold unsigned?
    rw [if_neg hword, hmantissa]
    show some (nearest (Nat.ofDigitChars 10 cs 0 * 1) 1) = _
    rw [Nat.mul_one]
  rw [← hunsigned]
  unfold literal?
  split
  · exact absurd rfl hne
  · exact absurd (hdigits '-' List.mem_cons_self) (by decide)
  · exact absurd (hdigits '+' List.mem_cons_self) (by decide)
  · rename_i c rest
    have hc : c.isDigit = true := hdigits c (List.mem_cons_of_mem _ List.mem_cons_self)
    have hletter : ∀ d : Char, d.isDigit = false → c ≠ d := by
      rintro d hd rfl
      rw [hc] at hd
      cases hd
    rw [if_neg (not_or.mpr ⟨hletter 'x' rfl, hletter 'X' rfl⟩),
      if_neg (not_or.mpr ⟨hletter 'o' rfl, hletter 'O' rfl⟩),
      if_neg (not_or.mpr ⟨hletter 'b' rfl, hletter 'B' rfl⟩)]
  · rfl

example : literal? "-12.5e1".toList = some (finite (-125)) := by decide +kernel

/-! ### Texts of numbers -/

/-- The `n` with `10 ^ (n - 1) ≤ num / den < 10 ^ n`. -/
def decade (num den : ℕ) : ℤ :=
  let n : ℤ := (Nat.log 10 num : ℤ) - Nat.log 10 den
  if num * 10 ^ (-n).toNat < den * 10 ^ n.toNat then n else n + 1

/-- The first decimal with at most `digits` digits that reads as the number: its digits and the
place of the point. -/
def shortest (num den : ℕ) (x : Double) (digits : ℕ) : List ℕ → ℕ × ℤ
  | [] => (roundRatio num den, digits)
  | k :: ks =>
      let n := decade num den
      let e := n - k
      let s := roundRatio (num * 10 ^ (-e).toNat) (den * 10 ^ e.toNat)
      if scaled s e = x then (s, if s = 10 ^ k then n + 1 else n)
      else shortest num den x digits ks

/-- Digits and the place of the point as a text: without an exponent where that is short. -/
def format (digits : List Char) (n : ℤ) : List Char :=
  let k : ℤ := digits.length
  if k ≤ n ∧ n ≤ 21 then digits ++ List.replicate (n - k).toNat '0'
  else if 0 < n ∧ n ≤ 21 then digits.take n.toNat ++ '.' :: digits.drop n.toNat
  else if -6 < n ∧ n ≤ 0 then '0' :: '.' :: (List.replicate (-n).toNat '0' ++ digits)
  else
    let exponent := (if n - 1 < 0 then '-' else '+') :: Nat.toDigits 10 (n - 1).natAbs
    match digits with
    | [d] => d :: 'e' :: exponent
    | d :: ds => d :: '.' :: (ds ++ 'e' :: exponent)
    | [] => exponent

/-- `String(x)`. -/
def toText (x : Double) : String :=
  match x with
  | posInf => "Infinity"
  | negInf => "-Infinity"
  | finite q =>
      if q = 0 then "0"
      else
        let num := q.num.natAbs
        let (s, n) := shortest num q.den (if q < 0 then neg x else x) 17 (List.range' 1 17)
        let digits := ((Nat.toDigits 10 s).reverse.dropWhile (· = '0')).reverse
        String.ofList ((if q < 0 then ['-'] else []) ++ format digits n)

example : (literal? "0.10".toList).map toText = some "0.1" := by decide +kernel

end Double
