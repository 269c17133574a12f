import Mathlib.Data.List.Basic
import Mathlib.Data.Prod.Lex
import Mathlib.Order.Lattice

/-!
# Three-part versions

A version is a triple of numbers, ordered by major, then minor, then patch, and
written `major.minor.patch`.

Main results: each bump is strictly greater (`lt_nextMajor`, `lt_nextMinor`,
`lt_nextPatch`), the text splits back into its three numbers
(`splitOn_toText`), and the text determines the version (`toText_injective`).
-/

@[ext] structure Version where
  major : ℕ
  minor : ℕ
  patch : ℕ
  deriving DecidableEq, Repr

namespace Version

/-- The triple, in lexicographic order. -/
def key (v : Version) : ℕ ×ₗ ℕ ×ₗ ℕ := toLex (v.major, toLex (v.minor, v.patch))

theorem key_injective : Function.Injective key := by
  rintro ⟨a, b, c⟩ ⟨a', b', c'⟩ h
  simpa [key] using h

instance : LinearOrder Version := LinearOrder.lift' key key_injective

theorem lt_iff_key (v w : Version) : v < w ↔ key v < key w := Iff.rfl

/-- The text `major.minor.patch`. -/
def toText (v : Version) : String := s!"{v.major}.{v.minor}.{v.patch}"

def nextMajor (v : Version) : Version := ⟨v.major + 1, 0, 0⟩

def nextMinor (v : Version) : Version := ⟨v.major, v.minor + 1, 0⟩

def nextPatch (v : Version) : Version := ⟨v.major, v.minor, v.patch + 1⟩

theorem lt_nextMajor (v : Version) : v < v.nextMajor := by
  rw [lt_iff_key]
  exact Prod.Lex.toLex_lt_toLex.mpr (.inl (Nat.lt_succ_self _))

theorem lt_nextMinor (v : Version) : v < v.nextMinor := by
  rw [lt_iff_key]
  refine Prod.Lex.toLex_lt_toLex.mpr (.inr ⟨rfl, ?_⟩)
  exact Prod.Lex.toLex_lt_toLex.mpr (.inl (Nat.lt_succ_self _))

theorem lt_nextPatch (v : Version) : v < v.nextPatch := by
  rw [lt_iff_key]
  refine Prod.Lex.toLex_lt_toLex.mpr (.inr ⟨rfl, ?_⟩)
  exact Prod.Lex.toLex_lt_toLex.mpr (.inr ⟨rfl, Nat.lt_succ_self _⟩)

/-! ### Texts -/

theorem toList_toText (v : Version) : v.toText.toList =
    Nat.toDigits 10 v.major ++ '.' :: (Nat.toDigits 10 v.minor ++ '.' :: Nat.toDigits 10 v.patch) := by
  have hdot : (toString ".").toList = ['.'] := rfl
  simp [toText, hdot]

theorem not_mem_toDigits {c : Char} (hc : c.isDigit = false) (n : ℕ) : c ∉ Nat.toDigits 10 n := by
  intro h
  have := Nat.isDigit_of_mem_toDigits (by omega) (by omega) h
  rw [hc] at this
  cases this

theorem splitOn_toDigits (n : ℕ) : (Nat.toDigits 10 n).splitOn '.' = [Nat.toDigits 10 n] := by
  refine List.splitOnP_eq_singleton fun c hc => ?_
  have hne : c ≠ '.' := fun h => not_mem_toDigits (by decide) n (h ▸ hc)
  simpa using hne

/-- The text splits at its dots into the three numbers. -/
theorem splitOn_toText (v : Version) : v.toText.toList.splitOn '.' =
    [Nat.toDigits 10 v.major, Nat.toDigits 10 v.minor, Nat.toDigits 10 v.patch] := by
  rw [toList_toText, List.splitOn_append_cons_self, List.splitOn_append_cons_self,
    splitOn_toDigits, splitOn_toDigits, splitOn_toDigits]
  rfl

theorem toDigits_injective {m n : ℕ} (h : Nat.toDigits 10 m = Nat.toDigits 10 n) : m = n := by
  have h' : Nat.ofDigitChars 10 (Nat.toDigits 10 m) 0 = Nat.ofDigitChars 10 (Nat.toDigits 10 n) 0 := by
    rw [h]
  simpa using h'

theorem toText_injective : Function.Injective toText := by
  intro v w h
  have hs : v.toText.toList.splitOn '.' = w.toText.toList.splitOn '.' := by rw [h]
  rw [splitOn_toText, splitOn_toText] at hs
  simp only [List.cons.injEq, and_true] at hs
  exact Version.ext (toDigits_injective hs.1) (toDigits_injective hs.2.1) (toDigits_injective hs.2.2)

/-- A version text is made of digits and dots. -/
theorem not_mem_toText {c : Char} (hc : c.isDigit = false) (hdot : c ≠ '.') (v : Version) :
    c ∉ v.toText.toList := by
  rw [toList_toText]
  simp [not_mem_toDigits hc, hdot]

end Version
