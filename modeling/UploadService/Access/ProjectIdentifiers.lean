import UploadService.Texts
import UploadService.Config.Vault

/-!
# Project identifiers of requests

A request names its project by an id or by a name, and the transformation of `projectIdentifier`
tells which: a text that `Number` takes for a finite number is an id, read by `parseInt`. The two
do not read the same numerals, so "1e3" names project 1, and a blank text no project at all (NaN).

Main results: `transform_denotes_iff`, the texts whose identifier is the one they spell;
counterexample `exponent_cut`.
-/

namespace UploadService

/-- A project identifier; no number is NaN. -/
inductive IdentifierValue where
  | number (x : Option Double)
  | text (s : String)
  deriving DecidableEq, Repr

namespace ProjectIdentifierParams

def isNum (value : String) : Bool :=
  match number? value with
  | some (.finite _) => true
  | _ => false

/-- `projectIdentifier` of a request. -/
def transform (value : String) : Except Exception IdentifierValue :=
  if isNum value then .ok (.number ((parseInt? value).map Double.ofInt))
  else if trim value ≠ "" then .ok (.text value)
  else .error (.badRequest "Invalid project identifier")

/-- A text is the decimal numeral of a natural number, but for blanks around it. -/
def Spells (s : String) (n : ℕ) : Prop :=
  (trim s).toList ≠ [] ∧ (∀ c ∈ (trim s).toList, c.isDigit = true) ∧
    n = Nat.ofDigitChars 10 (trim s).toList 0

/-- Only a blank text is refused, a number is the one the text spells, and any other text stays as
it is. -/
def Denotes (s : String) : Except Exception IdentifierValue → Prop
  | .error _ => trim s = ""
  | .ok (.text t) => t = s
  | .ok (.number x) => ∃ n : ℕ, Spells s n ∧ x = some (.finite n)

/-- A text is no number to `Number`, or spells one that the number format holds. -/
def Faithful (s : String) : Prop :=
  isNum s = false ∨ ∃ n, Spells s n ∧ 2 ^ (Nat.log2 n - 52) ∣ n

theorem Spells.parseInt? {s : String} {n : ℕ} (h : Spells s n) : parseInt? s = some (n : ℤ) := by
  obtain ⟨hne, hdigits, hn⟩ := h
  exact parseInt?_of_isNumeral ⟨(trim s).toList, hne, hdigits, .inl ⟨rfl, by rw [hn]⟩⟩

theorem Spells.number? {s : String} {n : ℕ} (h : Spells s n) :
    number? s = some (Double.nearest n 1) := by
  obtain ⟨hne, hdigits, hn⟩ := h
  rw [hn]
  exact Double.literal?_digits hne hdigits

theorem ofInt_natCast (n : ℕ) : Double.ofInt (n : ℤ) = Double.nearest n 1 := by
  have hnonneg : ¬ ((n : ℤ) : ℚ) < 0 := by simp
  unfold Double.ofInt Double.ofRat
  rw [if_neg hnonneg]
  simp

theorem transform_number {s : String} (h : isNum s = true) :
    transform s = .ok (.number ((parseInt? s).map Double.ofInt)) := if_pos h

/-- A blank text is a number to `Number`, so what is none is not blank. -/
theorem not_blank_of_not_isNum {s : String} (h : isNum s = false) : trim s ≠ "" := by
  intro hblank
  have hnum : isNum s = true := by
    unfold isNum UploadService.number?
    rw [hblank]
    rfl
  rw [hnum] at h
  cases h

theorem transform_text {s : String} (h : isNum s = false) : transform s = .ok (.text s) := by
  unfold transform
  rw [h, if_neg Bool.false_ne_true, if_pos (not_blank_of_not_isNum h)]

/-- **Spec.** The id of a text in digits is the nearest number to the one it spells. -/
theorem Spells.transform {s : String} {n : ℕ} (h : Spells s n) (hnum : isNum s = true) :
    transform s = .ok (.number (some (Double.nearest n 1))) := by
  rw [transform_number hnum, h.parseInt?, Option.map_some, ofInt_natCast]

theorem Spells.nearest_finite {s : String} {n : ℕ} (h : Spells s n) (hnum : isNum s = true) :
    ∃ q, Double.nearest n 1 = .finite q := by
  unfold isNum at hnum
  rw [h.number?] at hnum
  cases hnearest : Double.nearest n 1 with
  | finite q => exact ⟨q, rfl⟩
  | posInf =>
      rw [hnearest] at hnum
      cases hnum
  | negInf =>
      rw [hnearest] at hnum
      cases hnum

theorem denotes_iff_faithful (s : String) : Denotes s (transform s) ↔ Faithful s := by
  cases hnum : isNum s with
  | false =>
      refine iff_of_true ?_ (.inl hnum)
      rw [transform_text hnum]
      exact rfl
  | true =>
      constructor
      · intro hdenotes
        rw [transform_number hnum] at hdenotes
        obtain ⟨n, hspells, hnumber⟩ := hdenotes
        rw [hspells.parseInt?, Option.map_some, ofInt_natCast] at hnumber
        have hnearest := Option.some.inj hnumber
        exact .inr ⟨n, hspells, (Double.nearest_natCast_iff hnearest).mp rfl⟩
      · intro hfaithful
        unfold Faithful at hfaithful
        rcases hfaithful with hnone | ⟨n, hspells, hdvd⟩
        · rw [hnum] at hnone
          cases hnone
        · obtain ⟨q, hnearest⟩ := hspells.nearest_finite hnum
          have hq : q = n := (Double.nearest_natCast_iff hnearest).mpr hdvd
          rw [hspells.transform hnum, hnearest, hq]
          exact ⟨n, hspells, rfl⟩

/-- **Main result.** A text becomes what it spells exactly where it is no number to `Number` or is
the numeral of a number the format holds, and two such texts become one identifier only where they
spell the same number. -/
theorem transform_denotes_iff (s t : String) :
    (Denotes s (transform s) ↔ Faithful s) ∧
      (Faithful s → Faithful t → ∀ v, transform s = .ok v → transform t = .ok v →
        s = t ∨ ∃ n, Spells s n ∧ Spells t n) := by
  refine ⟨denotes_iff_faithful s, fun hs ht v hsv htv => ?_⟩
  have hs' := (denotes_iff_faithful s).mpr hs
  have ht' := (denotes_iff_faithful t).mpr ht
  rw [hsv] at hs'
  rw [htv] at ht'
  cases v with
  | text u => exact .inl (hs'.symm.trans ht')
  | number x =>
      obtain ⟨m, hm, hxm⟩ := hs'
      obtain ⟨n, hn, hxn⟩ := ht'
      have hcast : (m : ℚ) = n := Double.finite.inj (Option.some.inj (hxm.symm.trans hxn))
      rw [Nat.cast_inj.mp hcast] at hm
      exact .inr ⟨n, hm, hn⟩

theorem transform_denotes_seven :
    Denotes "7" (transform "7") ∧ ("7" = " 07" ∨ ∃ n, Spells "7" n ∧ Spells " 07" n) := by
  have hspells : Spells "7" 7 :=
    ⟨by decide +kernel, List.all_eq_true.mp (by decide +kernel), by decide +kernel⟩
  have hspellsPadded : Spells " 07" 7 :=
    ⟨by decide +kernel, List.all_eq_true.mp (by decide +kernel), by decide +kernel⟩
  have hseven : Faithful "7" := .inr ⟨7, hspells, by decide +kernel⟩
  have hpadded : Faithful " 07" := .inr ⟨7, hspellsPadded, by decide +kernel⟩
  have hread : transform "7" = .ok (.number (some (.finite 7))) := by decide +kernel
  have hreadPadded : transform " 07" = .ok (.number (some (.finite 7))) := by decide +kernel
  refine ⟨?_, (transform_denotes_iff "7" " 07").2 hseven hpadded _ hread hreadPadded⟩
  rw [(transform_denotes_iff "7" " 07").1]
  exact hseven

/-- "1e3" and "1" become one identifier, as do 2⁵³ + 1 and 2⁵³; a blank text becomes NaN. -/
theorem exponent_cut :
    transform "1e3" = transform "1" ∧ transform "0x10" = transform "0" ∧
      transform "9007199254740993" = transform "9007199254740992" ∧
      transform " " = .ok (.number none) ∧
      ¬ Denotes "1e3" (transform "1e3") ∧ ¬ Denotes " " (transform " ") := by
  have hblank : transform " " = .ok (.number none) := by decide +kernel
  have hexponent : transform "1e3" = .ok (.number (some (.finite 1))) := by decide +kernel
  refine ⟨by decide +kernel, by decide +kernel, by decide +kernel, hblank, ?_, ?_⟩
  · rw [hexponent]
    rintro ⟨n, hspells, -⟩
    exact absurd (hspells.2.1 'e' (by decide)) (by decide)
  · rw [hblank]
    rintro ⟨n, hspells, -⟩
    exact absurd hspells.1 (by decide)

end ProjectIdentifierParams

end UploadService
