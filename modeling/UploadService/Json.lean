import Mathlib.Data.List.TakeWhile
import UploadService.Config.Value
import UploadService.Lib.Numeral

/-!
# JSON texts

`JSON.parse`, on the values of which `Value.json` is `JSON.stringify`. A number is its decimal
text, so a numeral is read as the text of the number it stands for; a text is a sequence of
Unicode characters, and half a surrogate pair in an escape is read as the replacement character.

Main result: `parse_json`, a value is parsed back from its text.
-/

namespace UploadService

namespace JSON

/-! ### The parser -/

def isSpace (c : Char) : Bool := c = ' ' || c = '\t' || c = '\n' || c = '\r'

def skipSpace (cs : List Char) : List Char := cs.dropWhile isSpace

/-- The number of four hexadecimal digits. -/
def hex4? (a b c d : Char) : Option ℕ :=
  let digits := [a, b, c, d].map Double.digitValue
  if digits.all (· < 16) then some (digits.foldl (fun n digit => n * 16 + digit) 0) else none

def isHigh (unit : ℕ) : Bool := 0xD800 ≤ unit && unit < 0xDC00

def isLow (unit : ℕ) : Bool := 0xDC00 ≤ unit && unit < 0xE000

def unitChar (unit : ℕ) : Char := if isHigh unit || isLow unit then '\uFFFD' else Char.ofNat unit

/-- The characters of code units; a character that is no pair may stand as one unit. -/
def ofUnits : List ℕ → List Char
  | [] => []
  | [unit] => [unitChar unit]
  | high :: low :: units =>
      if isHigh high && isLow low then
        Char.ofNat (0x10000 + (high - 0xD800) * 0x400 + (low - 0xDC00)) :: ofUnits units
      else unitChar high :: ofUnits (low :: units)

/-- The unit of an escape other than a hexadecimal one. -/
def escape? (c : Char) : Option ℕ :=
  if c = '"' then some 34
  else if c = '\\' then some 92
  else if c = '/' then some 47
  else if c = 'b' then some 8
  else if c = 'f' then some 12
  else if c = 'n' then some 10
  else if c = 'r' then some 13
  else if c = 't' then some 9
  else none

/-- The code units of a string up to its closing quote, and what follows. -/
def stringUnits : List Char → Option (List ℕ × List Char)
  | '"' :: cs => some ([], cs)
  | '\\' :: 'u' :: a :: b :: c :: d :: cs => do
      let unit ← hex4? a b c d
      let (units, rest) ← stringUnits cs
      pure (unit :: units, rest)
  | '\\' :: c :: cs => do
      let unit ← escape? c
      let (units, rest) ← stringUnits cs
      pure (unit :: units, rest)
  | c :: cs =>
      if c.toNat < 32 then none
      else do
        let (units, rest) ← stringUnits cs
        pure (c.toNat :: units, rest)
  | [] => none

def string? (cs : List Char) : Option (String × List Char) :=
  (stringUnits cs).map fun (units, rest) => (String.ofList (ofUnits units), rest)

def isNumberChar (c : Char) : Bool :=
  c.isDigit || c = '-' || c = '+' || c = '.' || c = 'e' || c = 'E'

def isExponent : List Char → Bool
  | [] => true
  | c :: cs =>
      let digits := match cs with
        | '+' :: digits => digits
        | '-' :: digits => digits
        | digits => digits
      (c = 'e' || c = 'E') && !digits.isEmpty && digits.all Char.isDigit

def isFraction : List Char → Bool
  | '.' :: cs => !(cs.takeWhile Char.isDigit).isEmpty && isExponent (cs.dropWhile Char.isDigit)
  | cs => isExponent cs

/-- The numerals of JSON. -/
def isNumeral (cs : List Char) : Bool :=
  let unsigned := match cs with
    | '-' :: rest => rest
    | rest => rest
  let whole := unsigned.takeWhile Char.isDigit
  (whole = ['0'] || (!whole.isEmpty && whole.head? != some '0')) &&
    isFraction (unsigned.dropWhile Char.isDigit)

def numberText (numeral : List Char) : String :=
  match Double.literal? numeral with
  | some x => x.toText
  | none => "NaN"

def number? (cs : List Char) : Option (Value × List Char) :=
  let numeral := cs.takeWhile isNumberChar
  if isNumeral numeral then some (.num (numberText numeral), cs.dropWhile isNumberChar) else none

def word? (word : List Char) (v : Value) (cs : List Char) : Option (Value × List Char) :=
  if word.isPrefixOf cs then some (v, cs.drop word.length) else none

/-- The fields of an object; a later field takes the place of an earlier one. -/
def object (fields : Object) : Object :=
  fields.foldl (fun o field => ObjectMap.set o field.1 field.2) []

mutual

/-- A value and what follows it. -/
def value? : ℕ → List Char → Option (Value × List Char)
  | 0, _ => none
  | fuel + 1, cs =>
      match skipSpace cs with
      | [] => none
      | c :: rest =>
          if c = '"' then (string? rest).map fun (s, rest) => (.str s, rest)
          else if c = '[' then
            match skipSpace rest with
            | ']' :: rest => some (.list [], rest)
            | rest => (items? fuel rest).map fun (items, rest) => (.list items, rest)
          else if c = '\x7b' then
            match skipSpace rest with
            | '\x7d' :: rest => some (.map [], rest)
            | rest => (fields? fuel rest).map fun (fields, rest) => (.map (object fields), rest)
          else if c = 'n' then word? ['n', 'u', 'l', 'l'] .null (c :: rest)
          else if c = 't' then word? ['t', 'r', 'u', 'e'] (.bool true) (c :: rest)
          else if c = 'f' then word? ['f', 'a', 'l', 's', 'e'] (.bool false) (c :: rest)
          else number? (c :: rest)

/-- One or more items and the bracket after them. -/
def items? : ℕ → List Char → Option (List Value × List Char)
  | 0, _ => none
  | fuel + 1, cs => do
      let (item, rest) ← value? fuel cs
      match skipSpace rest with
      | ',' :: rest =>
          let (items, rest) ← items? fuel rest
          pure (item :: items, rest)
      | ']' :: rest => pure ([item], rest)
      | _ => none

/-- One or more fields and the brace after them. -/
def fields? : ℕ → List Char → Option (Object × List Char)
  | 0, _ => none
  | fuel + 1, cs =>
      match skipSpace cs with
      | '"' :: rest => do
          let (key, rest) ← string? rest
          match skipSpace rest with
          | ':' :: rest =>
              let (v, rest) ← value? fuel rest
              match skipSpace rest with
              | ',' :: rest =>
                  let (fields, rest) ← fields? fuel rest
                  pure ((key, v) :: fields, rest)
              | '\x7d' :: rest => pure ([(key, v)], rest)
              | _ => none
          | _ => none
      | _ => none

end

/-- `JSON.parse(text)`; `none` is a syntax error. -/
def parse (text : String) : Option Value :=
  match value? (2 * text.toList.length + 1) text.toList with
  | some (v, rest) => if (skipSpace rest).isEmpty then some v else none
  | none => none

/-! ### Strings -/

/-- A character is one unit. -/
theorem ofUnits_toNat (cs : List Char) : ofUnits (cs.map Char.toNat) = cs := by
  have hplain : ∀ c : Char, isHigh c.toNat = false ∧ unitChar c.toNat = c := by
    intro c
    have hvalid : c.toNat < 0xD800 ∨ 0xE000 ≤ c.toNat := by
      rcases c.valid with hlow | ⟨hhigh, -⟩
      · exact .inl hlow
      · exact .inr hhigh
    have hhigh : isHigh c.toNat = false := by
      unfold isHigh
      rw [Bool.and_eq_false_iff, decide_eq_false_iff_not, decide_eq_false_iff_not]
      omega
    have hlow : isLow c.toNat = false := by
      unfold isLow
      rw [Bool.and_eq_false_iff, decide_eq_false_iff_not, decide_eq_false_iff_not]
      omega
    refine ⟨hhigh, ?_⟩
    unfold unitChar
    rw [hhigh, hlow, Bool.or_self, if_neg Bool.false_ne_true, Char.ofNat_toNat]
  induction cs with
  | nil => rfl
  | cons c cs ih =>
      cases cs with
      | nil => exact congrArg (· :: []) (hplain c).2
      | cons d cs =>
          show (if isHigh c.toNat && isLow d.toNat then _ else _) = _
          rw [(hplain c).1, Bool.false_and, if_neg Bool.false_ne_true, (hplain c).2]
          exact congrArg (c :: ·) ih

theorem hex4?_control : ∀ n < 32,
    hex4? '0' '0' (Value.hexDigit (n / 16)) (Value.hexDigit (n % 16)) = some n := by
  decide

theorem stringUnits_escape {c : Char} {unit : ℕ} (h : escape? c = some unit) (cs : List Char) :
    stringUnits ('\\' :: c :: cs) =
      (stringUnits cs).map fun (units, rest) => (unit :: units, rest) := by
  have hne : c ≠ 'u' := by
    rintro rfl
    cases h
  rw [stringUnits.eq_3 c cs fun _ _ _ _ _ hu _ => hne hu, h]
  cases stringUnits cs with
  | none => rfl
  | some _ => rfl

theorem stringUnits_plain {c : Char} (hquote : c ≠ '"') (hslash : c ≠ '\\') (h : ¬ c.toNat < 32)
    (cs : List Char) :
    stringUnits (c :: cs) =
      (stringUnits cs).map fun (units, rest) => (c.toNat :: units, rest) := by
  rw [stringUnits.eq_4 c cs hquote (fun _ _ _ _ _ hc _ => hslash hc) fun _ _ hc _ => hslash hc,
    if_neg h]
  cases stringUnits cs with
  | none => rfl
  | some _ => rfl

theorem stringUnits_control {n : ℕ} (h : n < 32) (cs : List Char) :
    stringUnits ('\\' :: 'u' :: '0' :: '0' :: Value.hexDigit (n / 16) :: Value.hexDigit (n % 16) ::
        cs) = (stringUnits cs).map fun (units, rest) => (n :: units, rest) := by
  rw [stringUnits.eq_2, hex4?_control n h]
  cases stringUnits cs with
  | none => rfl
  | some _ => rfl

/-- **Step.** A character inside a string is read back. -/
theorem stringUnits_jsonChar (c : Char) (cs : List Char) :
    stringUnits (Value.jsonChar c ++ cs) =
      (stringUnits cs).map fun (units, rest) => (c.toNat :: units, rest) := by
  unfold Value.jsonChar
  split
  · rename_i h
    rw [h]
    exact stringUnits_escape rfl cs
  rename_i hquote
  split
  · rename_i h
    rw [h]
    exact stringUnits_escape rfl cs
  rename_i hslash
  split
  · rename_i h
    rw [h]
    exact stringUnits_escape rfl cs
  split
  · rename_i h
    rw [h]
    exact stringUnits_escape rfl cs
  split
  · rename_i h
    rw [h]
    exact stringUnits_escape rfl cs
  split
  · rename_i h
    rw [h]
    exact stringUnits_escape rfl cs
  split
  · rename_i h
    rw [h]
    exact stringUnits_escape rfl cs
  split
  · rename_i h
    exact stringUnits_control h cs
  · rename_i h
    exact stringUnits_plain hquote hslash h cs

/-- **Run.** A string is read back up to its closing quote. -/
theorem stringUnits_jsonChars (cs rest : List Char) :
    stringUnits (cs.flatMap Value.jsonChar ++ '"' :: rest) = some (cs.map Char.toNat, rest) := by
  induction cs with
  | nil => exact stringUnits.eq_1 rest
  | cons c cs ih =>
      rw [List.flatMap_cons, List.append_assoc, stringUnits_jsonChar, ih]
      rfl

theorem toList_jsonString (s : String) :
    (Value.jsonString s).toList = '"' :: (s.toList.flatMap Value.jsonChar ++ ['"']) := by
  unfold Value.jsonString
  simp only [String.toList_append, String.toList_ofList]
  rfl

/-- **Spec.** A string is read back. -/
theorem string?_jsonString (s : String) (rest : List Char) :
    string? (s.toList.flatMap Value.jsonChar ++ '"' :: rest) = some (s, rest) := by
  unfold string?
  rw [stringUnits_jsonChars, Option.map_some]
  dsimp only
  rw [ofUnits_toNat, String.ofList_toList]

/-! ### Numbers -/

/-- The text is that of a number: it is read as the number. -/
def IsNumberText (n : String) : Prop := number? n.toList = some (.num n, [])

/-- No number goes on with what follows. -/
def Ends (rest : List Char) : Prop := ∀ c cs, rest = c :: cs → isNumberChar c = false

theorem IsNumberText.chars {n : String} (h : IsNumberText n) :
    (∀ c ∈ n.toList, isNumberChar c = true) ∧ isNumeral n.toList = true ∧
      numberText n.toList = n := by
  unfold IsNumberText number? at h
  dsimp only at h
  split at h
  · rename_i hnumeral
    obtain ⟨htext, hrest⟩ := Prod.mk.inj (Option.some.inj h)
    have hall : n.toList.takeWhile isNumberChar = n.toList := by
      have hboth := @List.takeWhile_append_dropWhile _ isNumberChar n.toList
      rw [hrest, List.append_nil] at hboth
      exact hboth
    rw [hall] at hnumeral htext
    exact ⟨List.takeWhile_eq_self_iff.mp hall, hnumeral, Value.num.inj htext⟩
  · cases h

theorem takeWhile_append_of_ends {used rest : List Char} (hused : ∀ c ∈ used, isNumberChar c = true)
    (hrest : Ends rest) : (used ++ rest).takeWhile isNumberChar = used ∧
      (used ++ rest).dropWhile isNumberChar = rest := by
  rw [List.takeWhile_append_of_pos hused, List.dropWhile_append_of_pos hused]
  cases rest with
  | nil => exact ⟨List.append_nil used, rfl⟩
  | cons c cs =>
      have hc : ¬ isNumberChar c = true := by
        rw [hrest c cs rfl]
        exact Bool.false_ne_true
      rw [List.takeWhile_cons_of_neg hc, List.dropWhile_cons_of_neg hc, List.append_nil]
      exact ⟨rfl, rfl⟩

/-- **Spec.** A number is read back up to what follows it. -/
theorem number?_append {n : String} (h : IsNumberText n) {rest : List Char} (hrest : Ends rest) :
    number? (n.toList ++ rest) = some (.num n, rest) := by
  obtain ⟨hchars, hnumeral, htext⟩ := h.chars
  obtain ⟨htake, hdrop⟩ := takeWhile_append_of_ends hchars hrest
  unfold number?
  rw [htake, hdrop]
  dsimp only
  rw [if_pos hnumeral, htext]

/-- A text of a number starts with one of its characters. -/
theorem IsNumberText.cons {n : String} (h : IsNumberText n) :
    ∃ c cs, n.toList = c :: cs ∧ isNumberChar c = true := by
  obtain ⟨hchars, hnumeral, -⟩ := h.chars
  cases hlist : n.toList with
  | nil =>
      rw [hlist] at hnumeral
      cases hnumeral
  | cons c cs => exact ⟨c, cs, rfl, hchars c (by rw [hlist]; exact List.mem_cons_self)⟩

theorem IsNumberText.not_mem {n : String} (h : IsNumberText n) {c : Char}
    (hc : isNumberChar c = false) : c ∉ n.toList := by
  intro hmem
  rw [h.chars.1 c hmem] at hc
  cases hc

theorem IsNumberText.json {n : String} (h : IsNumberText n) : Value.json (.num n) = n := by
  unfold Value.json
  rw [if_neg]
  rintro (rfl | rfl | rfl)
  · exact @IsNumberText.not_mem _ h 'N' rfl (by decide)
  · exact @IsNumberText.not_mem _ h 'I' rfl (by decide)
  · exact @IsNumberText.not_mem _ h 'I' rfl (by decide)

/-! ### Values -/

mutual

/-- The values of JSON: numbers are finite and under their texts, and the keys of an object are
distinct. -/
def IsJson : Value → Prop
  | .null | .bool _ | .str _ => True
  | .num n => IsNumberText n
  | .list items => ItemsJson items
  | .map fields => (ObjectMap.keys fields).Nodup ∧ FieldsJson fields

def ItemsJson : List Value → Prop
  | [] => True
  | item :: items => IsJson item ∧ ItemsJson items

def FieldJson : String × Value → Prop
  | (_, v) => IsJson v

def FieldsJson : List (String × Value) → Prop
  | [] => True
  | field :: fields => FieldJson field ∧ FieldsJson fields

end

/-- The items between the brackets. -/
def itemChars (items : List Value) : List Char := (",".intercalate (Value.jsonItems items)).toList

/-- The fields between the braces. -/
def fieldChars (fields : Object) : List Char := (",".intercalate (Value.jsonFields fields)).toList

theorem toList_json_list (items : List Value) :
    (Value.json (.list items)).toList = '[' :: (itemChars items ++ [']']) := by
  rw [Value.json]
  simp only [String.toList_append]
  rfl

theorem toList_json_map (fields : Object) :
    (Value.json (.map fields)).toList = '\x7b' :: (fieldChars fields ++ ['\x7d']) := by
  rw [Value.json]
  simp only [String.toList_append]
  rfl

theorem itemChars_cons (item : Value) (items : List Value) :
    itemChars (item :: items) = (Value.json item).toList ++
      (if items = [] then [] else ',' :: itemChars items) := by
  unfold itemChars
  rw [Value.jsonItems, String.toList_intercalate, List.map_cons]
  cases items with
  | nil => simp [Value.jsonItems]
  | cons next items => simp [Value.jsonItems, String.toList_intercalate]

theorem toList_jsonField (field : String × Value) :
    (Value.jsonField field).toList =
      (Value.jsonString field.1).toList ++ ':' :: (Value.json field.2).toList := by
  obtain ⟨key, v⟩ := field
  rw [Value.jsonField]
  simp

theorem fieldChars_cons (field : String × Value) (fields : Object) :
    fieldChars (field :: fields) = (Value.jsonString field.1).toList ++
      ':' :: ((Value.json field.2).toList ++ (if fields = [] then [] else ',' :: fieldChars fields)) := by
  unfold fieldChars
  rw [Value.jsonFields, String.toList_intercalate, List.map_cons]
  cases fields with
  | nil => simp [Value.jsonFields, toList_jsonField]
  | cons next fields => simp [Value.jsonFields, toList_jsonField, String.toList_intercalate]

/-- The first character of a text: no space, and no closing bracket. -/
theorem json_head {v : Value} (h : IsJson v) :
    ∃ c cs, (Value.json v).toList = c :: cs ∧ isSpace c = false ∧ c ≠ ']' := by
  cases v with
  | null => exact ⟨'n', _, rfl, rfl, by decide⟩
  | bool b =>
      cases b with
      | true => exact ⟨'t', _, rfl, rfl, by decide⟩
      | false => exact ⟨'f', _, rfl, rfl, by decide⟩
  | num n =>
      have hn : IsNumberText n := h
      obtain ⟨c, cs, hlist, hc⟩ := hn.cons
      refine ⟨c, cs, by rw [hn.json, hlist], ?_, ?_⟩
      · by_contra hspace
        rw [Bool.not_eq_false] at hspace
        simp only [isSpace, Bool.or_eq_true, decide_eq_true_eq] at hspace
        rcases hspace with ((rfl | rfl) | rfl) | rfl <;> cases hc
      · rintro rfl
        cases hc
  | str s => exact ⟨'"', _, toList_jsonString s, rfl, by decide⟩
  | list items => exact ⟨'[', _, toList_json_list items, rfl, by decide⟩
  | map fields => exact ⟨'\x7b', _, toList_json_map fields, rfl, by decide⟩

theorem skipSpace_cons {c : Char} (h : isSpace c = false) (cs : List Char) :
    skipSpace (c :: cs) = c :: cs :=
  List.dropWhile_cons_of_neg (by rw [h]; exact Bool.false_ne_true)

theorem ends_cons {c : Char} (h : isNumberChar c = false) (cs : List Char) : Ends (c :: cs) := by
  intro d ds heq
  rw [← (List.cons.inj heq).1]
  exact h

/-- **Step.** A number is read under its first character. -/
theorem value?_number {n : String} (h : IsNumberText n) (fuel : ℕ) {rest : List Char}
    (hrest : Ends rest) : value? (fuel + 1) (n.toList ++ rest) = some (.num n, rest) := by
  obtain ⟨c, cs, hlist, hc⟩ := h.cons
  have hread := number?_append h hrest
  have hne : ∀ d, isNumberChar d = false → c ≠ d := by
    rintro d hd rfl
    rw [hc] at hd
    cases hd
  have hspace : isSpace c = false := by
    unfold isSpace
    simp [hne ' ' rfl, hne '\t' rfl, hne '\n' rfl, hne '\r' rfl]
  rw [hlist] at hread ⊢
  rw [value?, List.cons_append, skipSpace_cons hspace]
  dsimp only
  rw [if_neg (hne '"' rfl), if_neg (hne '[' rfl), if_neg (hne '\x7b' rfl), if_neg (hne 'n' rfl),
    if_neg (hne 't' rfl), if_neg (hne 'f' rfl)]
  exact hread

/-- **Step.** A string is read under its quote. -/
theorem value?_string (s : String) (fuel : ℕ) (rest : List Char) :
    value? (fuel + 1) ((Value.jsonString s).toList ++ rest) = some (.str s, rest) := by
  rw [toList_jsonString, value?, List.cons_append, List.append_assoc, skipSpace_cons rfl]
  dsimp only
  rw [if_pos rfl, List.singleton_append, string?_jsonString]
  rfl

/-- The value is read back from its text, up to what follows it. -/
def Reads (v : Value) : Prop :=
  ∀ fuel rest, 2 * ((Value.json v).toList ++ rest).length < fuel → Ends rest →
    value? fuel ((Value.json v).toList ++ rest) = some (v, rest)

theorem word?_append (word : List Char) (v : Value) (rest : List Char) :
    word? word v (word ++ rest) = some (v, rest) := by
  unfold word?
  rw [if_pos (List.isPrefixOf_iff_prefix.mpr (List.prefix_append word rest)), List.drop_left]

theorem reads_null : Reads .null := by
  intro fuel rest hfuel _
  cases fuel with
  | zero => cases hfuel
  | succ fuel => exact word?_append ['n', 'u', 'l', 'l'] .null rest

theorem reads_bool (b : Bool) : Reads (.bool b) := by
  intro fuel rest hfuel _
  cases fuel with
  | zero => cases hfuel
  | succ fuel =>
      cases b with
      | true => exact word?_append ['t', 'r', 'u', 'e'] (.bool true) rest
      | false => exact word?_append ['f', 'a', 'l', 's', 'e'] (.bool false) rest

theorem reads_num {n : String} (h : IsNumberText n) : Reads (.num n) := by
  intro fuel rest hfuel hrest
  cases fuel with
  | zero => cases hfuel
  | succ fuel =>
      rw [h.json]
      exact value?_number h fuel hrest

theorem reads_str (s : String) : Reads (.str s) := by
  intro fuel rest hfuel _
  cases fuel with
  | zero => cases hfuel
  | succ fuel => exact value?_string s fuel rest

/-- **Run.** The items of an array are read back. -/
theorem items?_json {items : List Value} (h : ∀ item ∈ items, Reads item) (hne : items ≠ []) :
    ∀ fuel rest, 2 * (itemChars items ++ ']' :: rest).length + 1 < fuel →
      items? fuel (itemChars items ++ ']' :: rest) = some (items, rest) := by
  induction items with
  | nil => exact absurd rfl hne
  | cons item items ih =>
      intro fuel rest hfuel
      have hitem : Reads item := h item List.mem_cons_self
      cases fuel with
      | zero => cases hfuel
      | succ fuel =>
          rw [itemChars_cons] at hfuel ⊢
          cases items with
          | nil =>
              rw [if_pos rfl, List.append_nil] at hfuel ⊢
              rw [items?, hitem fuel (']' :: rest) (by omega) (ends_cons rfl rest)]
              rfl
          | cons next items =>
              rw [if_neg (List.cons_ne_nil next items), List.append_assoc, List.cons_append]
                at hfuel ⊢
              rw [items?, hitem fuel _ (by omega) (ends_cons rfl _)]
              show (do
                let (items, rest) ← items? fuel (itemChars (next :: items) ++ ']' :: rest)
                pure (item :: items, rest)) = _
              rw [ih (fun x hx => h x (List.mem_cons_of_mem item hx)) (List.cons_ne_nil next items)
                fuel rest (by simp only [List.length_append, List.length_cons] at hfuel ⊢; omega)]
              rfl

theorem reads_list {items : List Value} (hjson : ∀ item ∈ items, IsJson item)
    (h : ∀ item ∈ items, Reads item) : Reads (.list items) := by
  intro fuel rest hfuel _
  cases fuel with
  | zero => cases hfuel
  | succ fuel =>
      rw [toList_json_list, List.cons_append, List.append_assoc, List.singleton_append] at hfuel ⊢
      rw [value?, skipSpace_cons rfl]
      dsimp only
      rw [if_neg (by decide), if_pos rfl]
      cases items with
      | nil => rfl
      | cons item items =>
          obtain ⟨c, cs, hlist, hspace, hne⟩ := json_head (hjson item List.mem_cons_self)
          obtain ⟨tail, htail⟩ : ∃ tail, itemChars (item :: items) ++ ']' :: rest = c :: tail := by
            rw [itemChars_cons, hlist]
            exact ⟨_, rfl⟩
          have hread := items?_json h (List.cons_ne_nil item items) fuel rest
            (by simp only [List.length_cons] at hfuel; omega)
          rw [htail] at hread ⊢
          rw [skipSpace_cons hspace]
          split
          · rename_i heq
            exact absurd (List.cons.inj heq).1 hne
          · rw [hread]
            rfl

/-- **Step.** The key of a field is read. -/
theorem fields?_key (key : String) (fuel : ℕ) (cs : List Char) :
    fields? (fuel + 1) ('"' :: (key.toList.flatMap Value.jsonChar ++ '"' :: ':' :: cs)) = (do
      let (v, rest) ← value? fuel cs
      match skipSpace rest with
      | ',' :: rest =>
          let (fields, rest) ← fields? fuel rest
          pure ((key, v) :: fields, rest)
      | '\x7d' :: rest => pure ([(key, v)], rest)
      | _ => none) := by
  rw [fields?, skipSpace_cons rfl]
  show (do
    let (key, rest) ← string? (key.toList.flatMap Value.jsonChar ++ '"' :: ':' :: cs)
    match skipSpace rest with
    | ':' :: rest =>
        let (v, rest) ← value? fuel rest
        match skipSpace rest with
        | ',' :: rest =>
            let (fields, rest) ← fields? fuel rest
            pure ((key, v) :: fields, rest)
        | '\x7d' :: rest => pure ([(key, v)], rest)
        | _ => none
    | _ => none) = _
  rw [string?_jsonString]
  rfl

/-- **Run.** The fields of an object are read back. -/
theorem fields?_json {fields : Object} (h : ∀ field ∈ fields, Reads field.2) (hne : fields ≠ []) :
    ∀ fuel rest, 2 * (fieldChars fields ++ '\x7d' :: rest).length + 1 < fuel →
      fields? fuel (fieldChars fields ++ '\x7d' :: rest) = some (fields, rest) := by
  induction fields with
  | nil => exact absurd rfl hne
  | cons field fields ih =>
      intro fuel rest hfuel
      obtain ⟨key, v⟩ := field
      have hv : Reads v := h (key, v) List.mem_cons_self
      cases fuel with
      | zero => cases hfuel
      | succ fuel =>
          rw [fieldChars_cons, toList_jsonString] at hfuel ⊢
          dsimp only at hfuel ⊢
          simp only [List.cons_append, List.append_assoc, List.nil_append] at hfuel ⊢
          cases fields with
          | nil =>
              rw [if_pos rfl, List.nil_append] at hfuel ⊢
              have hread := hv fuel ('\x7d' :: rest)
                (by simp only [List.length_cons, List.length_append] at hfuel ⊢; omega)
                (ends_cons rfl rest)
              rw [fields?_key, hread]
              rfl
          | cons next fields =>
              rw [if_neg (List.cons_ne_nil next fields), List.cons_append] at hfuel ⊢
              have hread := hv fuel (',' :: (fieldChars (next :: fields) ++ '\x7d' :: rest))
                (by simp only [List.length_cons, List.length_append] at hfuel ⊢; omega)
                (ends_cons rfl _)
              have hnext := ih (fun x hx => h x (List.mem_cons_of_mem (key, v) hx))
                (List.cons_ne_nil next fields) fuel rest
                (by simp only [List.length_cons, List.length_append] at hfuel ⊢; omega)
              rw [fields?_key, hread]
              show (do
                let (fields, rest) ← fields? fuel (fieldChars (next :: fields) ++ '\x7d' :: rest)
                pure ((key, v) :: fields, rest)) = _
              rw [hnext]
              rfl

theorem object_of_nodup {fields : Object} (h : (ObjectMap.keys fields).Nodup) :
    object fields = fields := by
  have hset := @ObjectMap.foldl_set_new _ _ Prod.fst Prod.snd fields h [] fun x _ hx => nomatch hx
  rw [List.nil_append, List.map_id'] at hset
  exact hset

theorem reads_map {fields : Object} (hnodup : (ObjectMap.keys fields).Nodup)
    (h : ∀ field ∈ fields, Reads field.2) : Reads (.map fields) := by
  intro fuel rest hfuel _
  cases fuel with
  | zero => cases hfuel
  | succ fuel =>
      rw [toList_json_map, List.cons_append, List.append_assoc, List.singleton_append] at hfuel ⊢
      rw [value?, skipSpace_cons rfl]
      dsimp only
      rw [if_neg (by decide), if_neg (by decide), if_pos rfl]
      cases fields with
      | nil => rfl
      | cons field fields =>
          obtain ⟨tail, htail⟩ : ∃ tail,
              fieldChars (field :: fields) ++ '\x7d' :: rest = '"' :: tail := by
            rw [fieldChars_cons, toList_jsonString]
            exact ⟨_, rfl⟩
          have hread := fields?_json h (List.cons_ne_nil field fields) fuel rest
            (by simp only [List.length_cons] at hfuel; omega)
          rw [htail] at hread ⊢
          show ((fields? fuel ('"' :: tail)).map fun (fields, rest) =>
            (Value.map (object fields), rest)) = _
          rw [hread]
          show some (Value.map (object (field :: fields)), rest) = _
          rw [object_of_nodup hnodup]

mutual

/-- **Main result.** A value is read back from its text, up to what follows it. -/
theorem reads : (v : Value) → IsJson v → Reads v
  | .null, _ => reads_null
  | .bool b, _ => reads_bool b
  | .num _, h => reads_num h
  | .str s, _ => reads_str s
  | .list items, h => reads_list (itemsJson items h) (readsItems items h)
  | .map fields, h => reads_map h.1 (readsFields fields h.2)

theorem itemsJson : (items : List Value) → ItemsJson items → ∀ item ∈ items, IsJson item
  | [], _ => fun _ h => nomatch h
  | _ :: items, h => List.forall_mem_cons.mpr ⟨h.1, itemsJson items h.2⟩

theorem readsItems : (items : List Value) → ItemsJson items → ∀ item ∈ items, Reads item
  | [], _ => fun _ h => nomatch h
  | item :: items, h => List.forall_mem_cons.mpr ⟨reads item h.1, readsItems items h.2⟩

theorem readsField : (field : String × Value) → FieldJson field → Reads field.2
  | (_, v), h => reads v h

theorem readsFields : (fields : List (String × Value)) → FieldsJson fields →
    ∀ field ∈ fields, Reads field.2
  | [], _ => fun _ h => nomatch h
  | field :: fields, h => List.forall_mem_cons.mpr ⟨readsField field h.1, readsFields fields h.2⟩

end

/-- **Main result.** A value is parsed back from its text. -/
theorem parse_json {v : Value} (h : IsJson v) : parse (Value.json v) = some v := by
  have hread := reads v h (2 * (Value.json v).toList.length + 1) []
    (by rw [List.append_nil]; omega) (fun _ _ heq => nomatch heq)
  unfold parse
  rw [List.append_nil] at hread
  rw [hread]
  rfl

end JSON

end UploadService
