import Mathlib.Data.List.TakeWhile
import Mathlib.Data.Nat.Digits.Defs
import UploadService.Lib.Numeral

/-!
# Numbers in texts

What `trim`, `parseInt` and `Number` make of a text of a request. `parseInt` reads the digits a
text starts with and leaves the rest; `Number` takes a text as a whole, and the blank text for 0.
The length of a text is the number of its UTF-16 code units.

Main results: `parseInt?_of_trim` and `trim_padded`, on blanks around a text.
-/

namespace UploadService

/-- The blanks `trim` and `parseInt` skip. -/
def isBlank (c : Char) : Bool :=
  [9, 10, 11, 12, 13, 32, 160, 5760, 8232, 8233, 8239, 8287, 12288, 65279].contains c.toNat ||
    (8192 ≤ c.toNat && c.toNat ≤ 8202)

/-- `s.trim()`. -/
def trim (s : String) : String :=
  String.ofList (((s.toList.dropWhile isBlank).reverse.dropWhile isBlank).reverse)

/-- `parseInt(s, 10)`; `none` is NaN. -/
def parseInt? (s : String) : Option ℤ :=
  let cs := s.toList.dropWhile isBlank
  let unsigned := match cs with
    | '-' :: rest => rest
    | '+' :: rest => rest
    | rest => rest
  let digits := unsigned.takeWhile Char.isDigit
  if digits.isEmpty then none
  else if cs.head? = some '-' then some (-(Nat.ofDigitChars 10 digits 0 : ℤ))
  else some (Nat.ofDigitChars 10 digits 0)

/-- `Number(s)`; `none` is NaN. -/
def number? (s : String) : Option Double := Double.literal? (trim s).toList

/-- The UTF-16 code units of a text, each as a character; half a pair stands as the replacement
character. -/
def codeUnits (s : String) : List Char :=
  s.toList.flatMap fun c => if c.toNat < 0x10000 then [c] else ['\uFFFD', '\uFFFD']

/-- **Spec.** Blanks around a text are trimmed. -/
theorem trim_padded {before after : List Char} (s : String) (hbefore : ∀ c ∈ before, isBlank c = true)
    (hafter : ∀ c ∈ after, isBlank c = true) :
    trim (String.ofList (before ++ s.toList ++ after)) = trim s := by
  have hnone : after.dropWhile isBlank = [] := List.dropWhile_eq_nil_iff.mpr hafter
  have hreverse : ∀ c ∈ after.reverse, isBlank c = true :=
    fun c hc => hafter c (List.mem_reverse.mp hc)
  unfold trim
  rw [String.toList_ofList, List.append_assoc, List.dropWhile_append_of_pos hbefore,
    List.dropWhile_append]
  by_cases hs : (s.toList.dropWhile isBlank).isEmpty = true
  · rw [if_pos hs, hnone, List.isEmpty_iff.mp hs]
  · rw [if_neg hs, List.reverse_append, List.dropWhile_append_of_pos hreverse]

theorem digit_range {c : Char} (h : c.isDigit = true) : 48 ≤ c.toNat ∧ c.toNat ≤ 57 := by
  unfold Char.isDigit at h
  rw [Bool.and_eq_true, decide_eq_true_eq, decide_eq_true_eq] at h
  exact ⟨UInt32.le_iff_toNat_le.mp h.1, UInt32.le_iff_toNat_le.mp h.2⟩

/-- A blank is no digit. -/
theorem not_digit_of_blank {c : Char} (h : isBlank c = true) : ¬ c.isDigit = true := by
  intro hdigit
  obtain ⟨hlow, hhigh⟩ := digit_range hdigit
  unfold isBlank at h
  rw [Bool.or_eq_true, List.contains_iff_mem, Bool.and_eq_true, decide_eq_true_eq,
    decide_eq_true_eq] at h
  rcases h with h | h
  · simp only [List.mem_cons, List.not_mem_nil, or_false] at h
    omega
  · omega

/-- A text whose first character that is no blank is a digit. -/
theorem parseInt?_of_digit {s : String} {d : Char} {rest : List Char}
    (hs : s.toList.dropWhile isBlank = d :: rest) (hd : d.isDigit = true) :
    parseInt? s = some (Nat.ofDigitChars 10 ((d :: rest).takeWhile Char.isDigit) 0 : ℤ) := by
  have hminus : d ≠ '-' := by
    rintro rfl
    cases hd
  have hplus : d ≠ '+' := by
    rintro rfl
    cases hd
  have hsign : ¬ (d :: rest).head? = some '-' := fun heq => hminus (Option.some.inj heq)
  have hfull : ((d :: rest).takeWhile Char.isDigit).isEmpty = false := by
    rw [List.takeWhile_cons_of_pos hd]
    rfl
  unfold parseInt?
  simp only [hs, if_neg hsign]
  split
  · rename_i heq
    exact absurd (List.cons.inj heq).1 hminus
  · rename_i heq
    exact absurd (List.cons.inj heq).1 hplus
  · rw [hfull, if_neg Bool.false_ne_true]

/-- What trimming leaves of a text is followed by blanks only. -/
theorem trim_append_blanks (s : String) :
    ∃ tail, s.toList.dropWhile isBlank = (trim s).toList ++ tail ∧ ∀ c ∈ tail, isBlank c = true := by
  refine ⟨((s.toList.dropWhile isBlank).reverse.takeWhile isBlank).reverse, ?_, fun c hc => ?_⟩
  · unfold trim
    rw [String.toList_ofList, ← List.reverse_append, List.takeWhile_append_dropWhile,
      List.reverse_reverse]
  · exact List.all_eq_true.mp List.all_takeWhile c (List.mem_reverse.mp hc)

/-- The digits before blanks. -/
theorem takeWhile_digits {digits tail : List Char} (hdigits : ∀ c ∈ digits, c.isDigit = true)
    (hblank : ∀ c ∈ tail, isBlank c = true) :
    (digits ++ tail).takeWhile Char.isDigit = digits := by
  rw [List.takeWhile_append_of_pos hdigits]
  cases tail with
  | nil => simp
  | cons c tail =>
      rw [List.takeWhile_cons_of_neg (not_digit_of_blank (hblank c List.mem_cons_self)),
        List.append_nil]

/-- An integer in decimal digits, with or without a sign, but for blanks around it. -/
def IsNumeral (s : String) (n : ℤ) : Prop :=
  ∃ digits : List Char, digits ≠ [] ∧ (∀ c ∈ digits, c.isDigit = true) ∧
    (((trim s).toList = digits ∧ n = Nat.ofDigitChars 10 digits 0) ∨
      ((trim s).toList = '+' :: digits ∧ n = Nat.ofDigitChars 10 digits 0) ∨
      ((trim s).toList = '-' :: digits ∧ n = -(Nat.ofDigitChars 10 digits 0 : ℤ)))

/-- **Spec.** A numeral parses as its number. -/
theorem parseInt?_of_isNumeral {s : String} {n : ℤ} (h : IsNumeral s n) :
    parseInt? s = some n := by
  obtain ⟨digits, hne, hdigits, hcases⟩ := h
  obtain ⟨tail, htail, hblank⟩ := trim_append_blanks s
  have htake : (digits ++ tail).takeWhile Char.isDigit = digits := takeWhile_digits hdigits hblank
  have hfull : digits.isEmpty = false := by simpa using hne
  rcases hcases with ⟨htrim, rfl⟩ | ⟨htrim, rfl⟩ | ⟨htrim, rfl⟩
  · obtain ⟨d, ds, rfl⟩ := List.exists_cons_of_ne_nil hne
    rw [htrim] at htail
    have hcons : s.toList.dropWhile isBlank = d :: (ds ++ tail) := htail
    rw [parseInt?_of_digit hcons (hdigits d List.mem_cons_self), ← List.cons_append, htake]
  · rw [htrim, List.cons_append] at htail
    simp [parseInt?, htail, htake, hfull]
  · rw [htrim, List.cons_append] at htail
    simp [parseInt?, htail, htake, hfull]

/-- **Spec.** A text that is a number but for blanks around it parses as the number. -/
theorem parseInt?_of_trim {s : String} {n : ℕ} (h : trim s = toString n) :
    parseInt? s = some (n : ℤ) := by
  refine parseInt?_of_isNumeral ⟨Nat.toDigits 10 n, Nat.toDigits_ne_nil, fun c hc => ?_, .inl ?_⟩
  · exact Nat.isDigit_of_mem_toDigits (by omega) (by omega) hc
  · rw [h, Nat.toString_eq_ofList_toDigits, String.toList_ofList, Nat.ofDigitChars_ten_toDigits]
    exact ⟨rfl, rfl⟩

end UploadService
