import Mathlib.Data.List.Basic

/-!
# UTF-8 bytes that may end anywhere

`decode` reads bytes as a stream does: a machine takes one byte after the other and writes a
character when its last byte has come. What is no character, and a character whose last bytes are
missing at the end, becomes the replacement character. `encode` is Lean's own encoder.

Main results: `decode_encode`, and `decode_take`, what is read of a text whose last bytes are
missing.
-/

namespace Utf8

/-- What the machine knows between two bytes: inside a character, how many bytes are to come after
the next one, the number so far, and the least and the greatest byte that may come next. -/
inductive State where
  | between
  | inside (more point lower upper : ℕ)
  deriving DecidableEq, Repr

/-- The first byte of a character. -/
def first (b : ℕ) : List Char × State :=
  if b < 0x80 then ([Char.ofNat b], .between)
  else if 0xC2 ≤ b ∧ b ≤ 0xDF then ([], .inside 0 (b - 0xC0) 0x80 0xBF)
  else if 0xE0 ≤ b ∧ b ≤ 0xEF then
    -- no overlong form and no surrogate
    ([], .inside 1 (b - 0xE0) (if b = 0xE0 then 0xA0 else 0x80) (if b = 0xED then 0x9F else 0xBF))
  else if 0xF0 ≤ b ∧ b ≤ 0xF4 then
    -- no overlong form and nothing above the last code point
    ([], .inside 2 (b - 0xF0) (if b = 0xF0 then 0x90 else 0x80) (if b = 0xF4 then 0x8F else 0xBF))
  else (['\uFFFD'], .between)

/-- One byte: the characters it ends and the state after it. A byte that cannot go on a character
starts the next one. -/
def step : State → ℕ → List Char × State
  | .between, b => first b
  | .inside more point lower upper, b =>
      if lower ≤ b ∧ b ≤ upper then
        match more with
        | 0 => ([Char.ofNat (point * 0x40 + (b - 0x80))], .between)
        | more + 1 => ([], .inside more (point * 0x40 + (b - 0x80)) 0x80 0xBF)
      else ('\uFFFD' :: (first b).1, (first b).2)

def run : State → List UInt8 → List Char
  | .between, [] => []
  | .inside .., [] => ['\uFFFD']
  | state, b :: bytes => (step state b.toNat).1 ++ run (step state b.toNat).2 bytes

def decode (bytes : List UInt8) : List Char := run .between bytes

def encode (cs : List Char) : List UInt8 := cs.flatMap String.utf8EncodeChar

/-! ### One character -/

theorem run_cons (state : State) (b : UInt8) (bytes : List UInt8) :
    run state (b :: bytes) = (step state b.toNat).1 ++ run (step state b.toNat).2 bytes := by
  cases state with
  | between => rfl
  | inside more point lower upper => rfl

theorem toNat_ofNat {b : ℕ} (h : b < 256) : (UInt8.ofNat b).toNat = b := by
  rw [UInt8.toNat_ofNat']
  exact Nat.mod_eq_of_lt h

/-- A byte that goes on a character. -/
theorem run_inside {more point lower upper b : ℕ} (hbyte : b < 256) (h : lower ≤ b ∧ b ≤ upper)
    (bytes : List UInt8) :
    run (.inside (more + 1) point lower upper) (UInt8.ofNat b :: bytes) =
      run (.inside more (point * 0x40 + (b - 0x80)) 0x80 0xBF) bytes := by
  rw [run_cons, toNat_ofNat hbyte, step, if_pos h]
  rfl

/-- The last byte of a character. -/
theorem run_last {point lower upper b : ℕ} (hbyte : b < 256) (h : lower ≤ b ∧ b ≤ upper)
    (bytes : List UInt8) :
    run (.inside 0 point lower upper) (UInt8.ofNat b :: bytes) =
      Char.ofNat (point * 0x40 + (b - 0x80)) :: run .between bytes := by
  rw [run_cons, toNat_ofNat hbyte, step, if_pos h]
  rfl

theorem run_ascii {b : ℕ} (h : b < 0x80) (bytes : List UInt8) :
    run .between (UInt8.ofNat b :: bytes) = Char.ofNat b :: run .between bytes := by
  rw [run_cons, toNat_ofNat (by omega), step, first, if_pos h]
  rfl

theorem run_first_two {b : ℕ} (h : 0xC2 ≤ b ∧ b ≤ 0xDF) (bytes : List UInt8) :
    run .between (UInt8.ofNat b :: bytes) = run (.inside 0 (b - 0xC0) 0x80 0xBF) bytes := by
  rw [run_cons, toNat_ofNat (by omega), step, first, if_neg (by omega), if_pos h]
  rfl

theorem run_first_three {b : ℕ} (h : 0xE0 ≤ b ∧ b ≤ 0xEF) (bytes : List UInt8) :
    run .between (UInt8.ofNat b :: bytes) = run (.inside 1 (b - 0xE0)
      (if b = 0xE0 then 0xA0 else 0x80) (if b = 0xED then 0x9F else 0xBF)) bytes := by
  rw [run_cons, toNat_ofNat (by omega), step, first, if_neg (by omega), if_neg (by omega), if_pos h]
  rfl

theorem run_first_four {b : ℕ} (h : 0xF0 ≤ b ∧ b ≤ 0xF4) (bytes : List UInt8) :
    run .between (UInt8.ofNat b :: bytes) = run (.inside 2 (b - 0xF0)
      (if b = 0xF0 then 0x90 else 0x80) (if b = 0xF4 then 0x8F else 0xBF)) bytes := by
  rw [run_cons, toNat_ofNat (by omega), step, first, if_neg (by omega), if_neg (by omega),
    if_neg (by omega), if_pos h]
  rfl

/-- The bytes that a character still lacks, where the machine stands inside it. -/
inductive Owed (c : Char) : State → List UInt8 → Prop where
  | last {point lower upper b : ℕ} : b < 256 → lower ≤ b ∧ b ≤ upper →
      Char.ofNat (point * 0x40 + (b - 0x80)) = c →
      Owed c (.inside 0 point lower upper) [UInt8.ofNat b]
  | next {more point lower upper b : ℕ} {bytes : List UInt8} : b < 256 → lower ≤ b ∧ b ≤ upper →
      Owed c (.inside more (point * 0x40 + (b - 0x80)) 0x80 0xBF) bytes →
      Owed c (.inside (more + 1) point lower upper) (UInt8.ofNat b :: bytes)

/-- **Run.** The bytes that a character lacks end it. -/
theorem Owed.run_append {c : Char} {state : State} {bytes : List UInt8} (h : Owed c state bytes)
    (after : List UInt8) : run state (bytes ++ after) = c :: run .between after := by
  induction h with
  | last hbyte hrange hchar =>
      rw [List.singleton_append, run_last hbyte hrange, hchar]
  | next hbyte hrange _ ih =>
      rw [List.cons_append, run_inside hbyte hrange, ih]

/-- **Run.** A character whose last bytes are missing is replaced. -/
theorem Owed.run_take {c : Char} {state : State} {bytes : List UInt8} (h : Owed c state bytes) :
    ∀ k < bytes.length, run state (bytes.take k) = ['\uFFFD'] := by
  induction h with
  | last hbyte hrange hchar =>
      intro k hk
      have hzero : k = 0 := by simpa using hk
      rw [hzero]
      rfl
  | next hbyte hrange _ ih =>
      intro k hk
      cases k with
      | zero => rfl
      | succ k =>
          rw [List.take_succ_cons, run_inside hbyte hrange]
          exact ih k (by simpa using hk)

/-- A character is a byte of its own, or its first byte takes the machine inside it. -/
theorem encodeChar_cases (c : Char) :
    (c.toNat < 0x80 ∧ String.utf8EncodeChar c = [UInt8.ofNat c.toNat]) ∨
      (0x80 ≤ c.toNat ∧ ∃ b bytes state, String.utf8EncodeChar c = b :: bytes ∧
        (∀ after, run .between (b :: after) = run state after) ∧ Owed c state bytes) := by
  have hvalid : c.toNat < 0xD800 ∨ (0xE000 ≤ c.toNat ∧ c.toNat < 0x110000) := by
    rcases c.valid with hlow | ⟨hhigh, hmax⟩
    · exact .inl hlow
    · exact .inr ⟨hhigh, hmax⟩
  have hchar : Char.ofNat c.toNat = c := Char.ofNat_toNat c
  have hval : c.val.toNat = c.toNat := rfl
  unfold String.utf8EncodeChar
  dsimp only
  rw [hval]
  generalize c.toNat = n at *
  by_cases hone : n ≤ 0x7f
  · rw [if_pos hone]
    exact .inl ⟨by omega, rfl⟩
  rw [if_neg hone]
  refine .inr ⟨by omega, ?_⟩
  by_cases htwo : n ≤ 0x7ff
  · rw [if_pos htwo]
    refine ⟨_, _, _, rfl, run_first_two (by omega), .last (by omega) (by omega) ?_⟩
    exact (congrArg Char.ofNat (by omega)).trans hchar
  rw [if_neg htwo]
  by_cases hthree : n ≤ 0xffff
  · rw [if_pos hthree]
    refine ⟨_, _, _, rfl, run_first_three (by omega), .next (by omega) ?_ (.last (by omega)
      (by omega) ?_)⟩
    · split <;> split <;> omega
    · exact (congrArg Char.ofNat (by omega)).trans hchar
  · rw [if_neg hthree]
    refine ⟨_, _, _, rfl, run_first_four (by omega), .next (by omega) ?_ (.next (by omega)
      (by omega) (.last (by omega) (by omega) ?_))⟩
    · split <;> split <;> omega
    · exact (congrArg Char.ofNat (by omega)).trans hchar

/-! ### Texts -/

/-- **Step.** A character is read back from its bytes. -/
theorem run_encodeChar (c : Char) (after : List UInt8) :
    run .between (String.utf8EncodeChar c ++ after) = c :: run .between after := by
  rcases encodeChar_cases c with ⟨hascii, hencode⟩ | ⟨-, b, bytes, state, hencode, hfirst, howed⟩
  · rw [hencode, List.singleton_append, run_ascii hascii, Char.ofNat_toNat]
  · rw [hencode, List.cons_append, hfirst, howed.run_append]

/-- **Spec.** A text is read back from its bytes. -/
theorem decode_encode (cs : List Char) : decode (encode cs) = cs := by
  induction cs with
  | nil => rfl
  | cons c cs ih =>
      unfold decode encode at ih ⊢
      rw [List.flatMap_cons, run_encodeChar, ih]

/-- A character whose last bytes are missing is replaced, or missing with them. -/
theorem run_take_encodeChar (c : Char) {k : ℕ} (hk : k < (String.utf8EncodeChar c).length) :
    run .between ((String.utf8EncodeChar c).take k) = [] ∨
      run .between ((String.utf8EncodeChar c).take k) = ['\uFFFD'] := by
  cases k with
  | zero => exact .inl rfl
  | succ k =>
      rcases encodeChar_cases c with ⟨-, hencode⟩ | ⟨-, b, bytes, state, hencode, hfirst, howed⟩
      · rw [hencode] at hk
        simp at hk
      · rw [hencode] at hk ⊢
        rw [List.take_succ_cons, hfirst]
        exact .inr (howed.run_take k (by simpa using hk))

/-- **Spec.** Of a text whose last bytes are missing, a part of its characters is read and at most
one is replaced. -/
theorem decode_take {cs : List Char} :
    ∀ {k : ℕ}, k < (encode cs).length →
      ∃ before c after, cs = before ++ c :: after ∧
        (decode ((encode cs).take k) = before ∨ decode ((encode cs).take k) = before ++ ['\uFFFD']) := by
  induction cs with
  | nil => exact fun hk => absurd hk (Nat.not_lt_zero _)
  | cons c cs ih =>
      intro k hk
      have hcons : encode (c :: cs) = String.utf8EncodeChar c ++ encode cs := List.flatMap_cons
      rw [hcons] at hk ⊢
      by_cases hshort : k < (String.utf8EncodeChar c).length
      · rw [List.take_append_of_le_length (by omega)]
        exact ⟨[], c, cs, rfl, run_take_encodeChar c hshort⟩
      · obtain ⟨more, rfl⟩ := Nat.exists_eq_add_of_le (Nat.le_of_not_lt hshort)
        rw [List.length_append] at hk
        obtain ⟨before, d, after, hcs, hread⟩ := @ih more (by omega)
        rw [List.take_length_add_append]
        refine ⟨c :: before, d, after, by rw [hcs]; rfl, ?_⟩
        unfold decode at hread ⊢
        rw [run_encodeChar, List.cons_append]
        exact hread.imp (congrArg (c :: ·)) (congrArg (c :: ·))

end Utf8
