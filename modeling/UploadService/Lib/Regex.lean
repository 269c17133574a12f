import Mathlib.Computability.Language

/-!
# Regular expressions with classes and exclusion

An expression over a decidable class of letters for each place, with the two exclusions that a
program text writes as a class `[^..]` and as a negative lookahead: a class is any test on a letter,
and `r - s` takes what `r` takes and `s` does not.

`test` takes the derivative letter by letter; `lang` is what the expression stands for.

Main results: `test_iff`, an expression takes the words of its language; `mem_lang_between`, the
words of a class with a bounded number of letters.
-/

inductive Regex (α : Type) where
  | fail
  | empty
  | one (p : α → Bool)
  | alt (r s : Regex α)
  | seq (r s : Regex α)
  | star (r : Regex α)
  | diff (r s : Regex α)

namespace Regex

variable {α : Type}

instance : One (Regex α) := ⟨empty⟩

instance : Add (Regex α) := ⟨alt⟩

instance : Mul (Regex α) := ⟨seq⟩

instance : Sub (Regex α) := ⟨diff⟩

/-- `n` times the expression. -/
def times (r : Regex α) : ℕ → Regex α
  | 0 => 1
  | n + 1 => r * times r n

/-- The expression or nothing: `r?`. -/
def opt (r : Regex α) : Regex α := 1 + r

/-- Once or more: `r+`. -/
def many (r : Regex α) : Regex α := r * star r

/-- From `m` to `n` times: `r{m,n}`. -/
def between (m n : ℕ) (r : Regex α) : Regex α := times r m * times (opt r) (n - m)

/-! ### Words -/

/-- The words of the expression. -/
def lang : Regex α → Language α
  | fail => 0
  | empty => 1
  | one p => {x | ∃ a, p a = true ∧ x = [a]}
  | alt r s => lang r + lang s
  | seq r s => lang r * lang s
  | star r => KStar.kstar (lang r)
  | diff r s => lang r - lang s

def nullable : Regex α → Bool
  | fail => false
  | empty => true
  | one _ => false
  | alt r s => nullable r || nullable s
  | seq r s => nullable r && nullable s
  | star _ => true
  | diff r s => nullable r && !nullable s

/-- What is to follow a letter. -/
def deriv (a : α) : Regex α → Regex α
  | fail => fail
  | empty => fail
  | one p => if p a then empty else fail
  | alt r s => alt (deriv a r) (deriv a s)
  | seq r s => if nullable r then alt (seq (deriv a r) s) (deriv a s) else seq (deriv a r) s
  | star r => seq (deriv a r) (star r)
  | diff r s => diff (deriv a r) (deriv a s)

def test (r : Regex α) : List α → Bool
  | [] => nullable r
  | a :: x => test (deriv a r) x

@[simp] theorem lang_one : lang (1 : Regex α) = 1 := rfl

@[simp] theorem lang_add (r s : Regex α) : lang (r + s) = lang r + lang s := rfl

@[simp] theorem lang_mul (r s : Regex α) : lang (r * s) = lang r * lang s := rfl

@[simp] theorem lang_sub (r s : Regex α) : lang (r - s) = lang r - lang s := rfl

@[simp] theorem mem_lang_one {p : α → Bool} {x : List α} :
    x ∈ lang (one p) ↔ ∃ a, p a = true ∧ x = [a] := Iff.rfl

theorem lang_times (r : Regex α) (n : ℕ) : lang (times r n) = lang r ^ n := by
  induction n with
  | zero => rfl
  | succ n ih =>
      rw [times, lang_mul, ih]
      exact (pow_succ' (lang r) n).symm

theorem nullable_iff (r : Regex α) : nullable r = true ↔ [] ∈ lang r := by
  induction r with
  | fail => simp [nullable, lang, Language.notMem_zero]
  | empty => simp [nullable, lang]
  | one p => simp [nullable]
  | alt r s ihr ihs => rw [nullable, Bool.or_eq_true, ihr, ihs, lang, Language.mem_add]
  | seq r s ihr ihs =>
      rw [nullable, Bool.and_eq_true, ihr, ihs, lang, Language.mem_mul]
      constructor
      · exact fun h => ⟨[], h.1, [], h.2, rfl⟩
      · rintro ⟨x, hx, y, hy, hxy⟩
        obtain ⟨rfl, rfl⟩ := List.append_eq_nil_iff.mp hxy
        exact ⟨hx, hy⟩
  | star r _ => exact iff_of_true rfl (Language.nil_mem_kstar _)
  | diff r s ihr ihs =>
      rw [nullable, Bool.and_eq_true, Bool.not_eq_true', ← Bool.not_eq_true, ihr, ihs, lang,
        Language.mem_sub]

/-- A word of a sequence that starts with a letter: the letter is the first part's, or the first
part is empty. -/
theorem cons_mem_mul {l m : Language α} {a : α} {x : List α} :
    a :: x ∈ l * m ↔ (∃ y z, a :: y ∈ l ∧ z ∈ m ∧ y ++ z = x) ∨ ([] ∈ l ∧ a :: x ∈ m) := by
  rw [Language.mem_mul]
  constructor
  · rintro ⟨y, hy, z, hz, hyz⟩
    cases y with
    | nil => exact .inr ⟨hy, hyz ▸ hz⟩
    | cons b y =>
        obtain ⟨rfl, htail⟩ := List.cons.inj hyz
        exact .inl ⟨y, z, hy, hz, htail⟩
  · rintro (⟨y, z, hy, hz, rfl⟩ | ⟨hnil, hx⟩)
    · exact ⟨a :: y, hy, z, hz, rfl⟩
    · exact ⟨[], hnil, a :: x, hx, rfl⟩

/-- A word of an iteration that starts with a letter: its first part that is not empty is split
off. -/
theorem cons_mem_kstar {l : Language α} {a : α} {x : List α} :
    a :: x ∈ KStar.kstar l ↔ ∃ y z, a :: y ∈ l ∧ z ∈ KStar.kstar l ∧ y ++ z = x := by
  constructor
  · intro h
    obtain ⟨parts, hx, hparts⟩ := Language.mem_kstar.mp h
    induction parts with
    | nil => cases hx
    | cons part parts ih =>
        cases part with
        | nil => exact ih hx fun y hy => hparts y (List.mem_cons_of_mem _ hy)
        | cons b y =>
            obtain ⟨rfl, htail⟩ := List.cons.inj hx
            exact ⟨y, parts.flatten, hparts _ List.mem_cons_self,
              Language.join_mem_kstar fun z hz => hparts z (List.mem_cons_of_mem _ hz), htail.symm⟩
  · rintro ⟨y, z, hy, hz, rfl⟩
    obtain ⟨parts, rfl, hparts⟩ := Language.mem_kstar.mp hz
    exact Language.mem_kstar.mpr ⟨(a :: y) :: parts, rfl, List.forall_mem_cons.mpr ⟨hy, hparts⟩⟩

/-- **Step.** The derivative has the words that the letter completes. -/
theorem mem_lang_deriv {a : α} (r : Regex α) {x : List α} :
    x ∈ lang (deriv a r) ↔ a :: x ∈ lang r := by
  induction r generalizing x with
  | fail => exact iff_of_false (Language.notMem_zero _) (Language.notMem_zero _)
  | empty => exact iff_of_false (Language.notMem_zero _) fun h => by cases h
  | one p =>
      rw [deriv, mem_lang_one]
      cases hp : p a with
      | true =>
          constructor
          · rintro rfl
            exact ⟨a, hp, rfl⟩
          · rintro ⟨b, -, hb⟩
            exact (List.cons.inj hb).2
      | false =>
          refine iff_of_false (Language.notMem_zero _) ?_
          rintro ⟨b, hb, heq⟩
          rw [← (List.cons.inj heq).1, hp] at hb
          cases hb
  | alt r s ihr ihs => rw [deriv, lang, lang, Language.mem_add, Language.mem_add, ihr, ihs]
  | seq r s ihr ihs =>
      have hfirst : x ∈ lang (deriv a r) * lang s ↔
          ∃ y z, a :: y ∈ lang r ∧ z ∈ lang s ∧ y ++ z = x := by
        rw [Language.mem_mul]
        constructor
        · rintro ⟨y, hy, z, hz, hyz⟩
          exact ⟨y, z, ihr.mp hy, hz, hyz⟩
        · rintro ⟨y, z, hy, hz, hyz⟩
          exact ⟨y, ihr.mpr hy, z, hz, hyz⟩
      rw [lang, cons_mem_mul, ← hfirst, ← nullable_iff, deriv]
      cases hnullable : nullable r with
      | true =>
          rw [if_pos rfl, lang, lang, Language.mem_add, ihs]
          simp
      | false =>
          rw [if_neg Bool.false_ne_true, lang]
          simp
  | star r ih =>
      rw [deriv, lang, lang, cons_mem_kstar, Language.mem_mul]
      constructor
      · rintro ⟨y, hy, z, hz, hyz⟩
        exact ⟨y, z, ih.mp hy, hz, hyz⟩
      · rintro ⟨y, z, hy, hz, hyz⟩
        exact ⟨y, ih.mpr hy, z, hz, hyz⟩
  | diff r s ihr ihs => rw [deriv, lang, lang, Language.mem_sub, Language.mem_sub, ihr, ihs]

/-- **Main result.** An expression takes the words of its language. -/
theorem test_iff (r : Regex α) (x : List α) : test r x = true ↔ x ∈ lang r := by
  induction x generalizing r with
  | nil => exact nullable_iff r
  | cons a x ih => rw [test, ih, mem_lang_deriv]

/-! ### Classes with a number of letters -/

theorem mem_lang_times_one {p : α → Bool} {n : ℕ} {x : List α} :
    x ∈ lang (times (one p) n) ↔ x.length = n ∧ ∀ a ∈ x, p a = true := by
  induction n generalizing x with
  | zero =>
      rw [times, lang_one, Language.mem_one, List.length_eq_zero_iff]
      constructor
      · rintro rfl
        exact ⟨rfl, fun _ h => by cases h⟩
      · exact fun h => h.1
  | succ n ih =>
      rw [times, lang_mul, Language.mem_mul]
      constructor
      · rintro ⟨y, ⟨a, ha, rfl⟩, z, hz, rfl⟩
        obtain ⟨hlength, hall⟩ := ih.mp hz
        exact ⟨by rw [List.singleton_append, List.length_cons, hlength],
          List.forall_mem_cons.mpr ⟨ha, hall⟩⟩
      · rintro ⟨hlength, hall⟩
        cases x with
        | nil => cases hlength
        | cons a x =>
            obtain ⟨ha, hrest⟩ := List.forall_mem_cons.mp hall
            exact ⟨[a], ⟨a, ha, rfl⟩, x, ih.mpr ⟨Nat.succ.inj hlength, hrest⟩, rfl⟩

theorem mem_lang_times_opt {p : α → Bool} {n : ℕ} {x : List α} :
    x ∈ lang (times (opt (one p)) n) ↔ x.length ≤ n ∧ ∀ a ∈ x, p a = true := by
  induction n generalizing x with
  | zero =>
      rw [times, lang_one, Language.mem_one, Nat.le_zero, List.length_eq_zero_iff]
      constructor
      · rintro rfl
        exact ⟨rfl, fun _ h => by cases h⟩
      · exact fun h => h.1
  | succ n ih =>
      rw [times, lang_mul, Language.mem_mul]
      constructor
      · rintro ⟨y, hy, z, hz, rfl⟩
        obtain ⟨hlength, hall⟩ := ih.mp hz
        rcases (Language.mem_add _ _ _).mp hy with hnil | ⟨a, ha, rfl⟩
        · obtain rfl := (Language.mem_one _).mp hnil
          exact ⟨Nat.le_succ_of_le hlength, hall⟩
        · exact ⟨Nat.succ_le_succ hlength, List.forall_mem_cons.mpr ⟨ha, hall⟩⟩
      · rintro ⟨hlength, hall⟩
        cases x with
        | nil =>
            exact ⟨[], (Language.mem_add _ _ _).mpr (.inl Language.nil_mem_one), [],
              ih.mpr ⟨Nat.zero_le n, hall⟩, rfl⟩
        | cons a x =>
            obtain ⟨ha, hrest⟩ := List.forall_mem_cons.mp hall
            exact ⟨[a], (Language.mem_add _ _ _).mpr (.inr ⟨a, ha, rfl⟩), x,
              ih.mpr ⟨Nat.le_of_succ_le_succ hlength, hrest⟩, rfl⟩

/-- **Spec.** A class from `m` to `n` times. -/
theorem mem_lang_between {p : α → Bool} {m n : ℕ} (hmn : m ≤ n) {x : List α} :
    x ∈ lang (between m n (one p)) ↔ (m ≤ x.length ∧ x.length ≤ n) ∧ ∀ a ∈ x, p a = true := by
  rw [between, lang_mul, Language.mem_mul]
  constructor
  · rintro ⟨y, hy, z, hz, rfl⟩
    obtain ⟨hy, hyall⟩ := mem_lang_times_one.mp hy
    obtain ⟨hz, hzall⟩ := mem_lang_times_opt.mp hz
    rw [List.length_append]
    exact ⟨by omega, List.forall_mem_append.mpr ⟨hyall, hzall⟩⟩
  · rintro ⟨hlength, hall⟩
    rw [← List.take_append_drop m x] at hall
    obtain ⟨htake, hdrop⟩ := List.forall_mem_append.mp hall
    refine ⟨x.take m, mem_lang_times_one.mpr ⟨?_, htake⟩, x.drop m, mem_lang_times_opt.mpr ⟨?_, hdrop⟩,
      List.take_append_drop m x⟩
    · rw [List.length_take]
      omega
    · rw [List.length_drop]
      omega

end Regex
