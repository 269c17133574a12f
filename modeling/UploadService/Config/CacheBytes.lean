import UploadService.Lib.Utf8
import UploadService.JsonCuts
import UploadService.Texts
import UploadService.Config.Delivery

/-!
# The bytes of the config cache

The cache stores a payload as the bytes of its JSON text, and names their number by the length of
the text: UTF-16 code units, where `putObjectContent` names the length of the buffer. A character
that is not ASCII has more bytes than units, so the store cuts the text, and the cut text is no
JSON: the payload is never read back, and the read is taken for a miss.

Main results: `getByVersion_setByVersion_iff`, the payloads that are read back as they were stored;
counterexample `accented_payload_missed`.
-/

namespace UploadService

/-! ### ASCII texts -/

def AsciiChars (cs : List Char) : Prop := ∀ c ∈ cs, c.toNat < 128

instance (cs : List Char) : Decidable (AsciiChars cs) :=
  List.decidableBAll (fun c : Char => c.toNat < 128) cs

@[simp] theorem asciiChars_nil : AsciiChars [] := fun _ h => nomatch h

@[simp] theorem asciiChars_cons (c : Char) (cs : List Char) :
    AsciiChars (c :: cs) ↔ c.toNat < 128 ∧ AsciiChars cs := List.forall_mem_cons

@[simp] theorem asciiChars_append (cs ds : List Char) :
    AsciiChars (cs ++ ds) ↔ AsciiChars cs ∧ AsciiChars ds := List.forall_mem_append

namespace JSON

mutual

/-- Every key and every string of the value, at any depth, is ASCII. -/
def Ascii : Value → Prop
  | .null | .bool _ | .num _ => True
  | .str s => AsciiChars s.toList
  | .list items => AsciiItems items
  | .map fields => AsciiFields fields

def AsciiItems : List Value → Prop
  | [] => True
  | item :: items => Ascii item ∧ AsciiItems items

def AsciiField : String × Value → Prop
  | (key, v) => AsciiChars key.toList ∧ Ascii v

def AsciiFields : List (String × Value) → Prop
  | [] => True
  | field :: fields => AsciiField field ∧ AsciiFields fields

end

theorem hexDigit_ascii : ∀ n < 32,
    (Value.hexDigit (n / 16)).toNat < 128 ∧ (Value.hexDigit (n % 16)).toNat < 128 := by
  decide

theorem asciiChars_jsonChar (c : Char) : AsciiChars (Value.jsonChar c) ↔ c.toNat < 128 := by
  unfold Value.jsonChar
  split
  · rename_i h
    rw [h]
    simp
  split
  · rename_i h
    rw [h]
    simp
  split
  · rename_i h
    simp [h]
  split
  · rename_i h
    simp [h]
  split
  · rename_i h
    simp [h]
  split
  · rename_i h
    simp [h]
  split
  · rename_i h
    simp [h]
  split
  · rename_i h
    have hhex := hexDigit_ascii c.toNat h
    simp [hhex.1, hhex.2]
    omega
  · simp

theorem asciiChars_jsonString (s : String) :
    AsciiChars (Value.jsonString s).toList ↔ AsciiChars s.toList := by
  have hchars : ∀ cs : List Char, AsciiChars (cs.flatMap Value.jsonChar) ↔ AsciiChars cs := by
    intro cs
    induction cs with
    | nil => rfl
    | cons c cs ih =>
        rw [List.flatMap_cons, asciiChars_append, asciiChars_jsonChar, ih, asciiChars_cons]
  rw [toList_jsonString, asciiChars_cons, asciiChars_append, hchars]
  simp

theorem asciiChars_number {n : String} (h : IsNumberText n) : AsciiChars n.toList := by
  intro c hc
  have hnumber := h.chars.1 c hc
  simp only [isNumberChar, Bool.or_eq_true, decide_eq_true_eq] at hnumber
  rcases hnumber with ((((hdigit | rfl) | rfl) | rfl) | rfl) | rfl
  · unfold Char.isDigit at hdigit
    rw [Bool.and_eq_true, decide_eq_true_eq, decide_eq_true_eq] at hdigit
    have hle := UInt32.le_iff_toNat_le.mp hdigit.2
    have hnine : ('9' : Char).val.toNat = 57 := rfl
    have hval : c.val.toNat = c.toNat := rfl
    omega
  all_goals decide

mutual

/-- **Run.** The text of a value is ASCII where its keys and strings are. -/
theorem asciiChars_json : (v : Value) → IsJson v →
    (AsciiChars (Value.json v).toList ↔ Ascii v)
  | .null, _ => iff_of_true (by decide) trivial
  | .bool true, _ => iff_of_true (by decide) trivial
  | .bool false, _ => iff_of_true (by decide) trivial
  | .num n, h => by
      have hn : IsNumberText n := h
      rw [hn.json]
      exact iff_of_true (asciiChars_number hn) trivial
  | .str s, _ => asciiChars_jsonString s
  | .list items, h => by
      rw [toList_json_list, asciiChars_cons, asciiChars_append, asciiChars_items items h, Ascii]
      simp
  | .map fields, h => by
      rw [toList_json_map, asciiChars_cons, asciiChars_append, asciiChars_fields fields h.2, Ascii]
      simp

theorem asciiChars_items : (items : List Value) → ItemsJson items →
    (AsciiChars (itemChars items) ↔ AsciiItems items)
  | [], _ => iff_of_true asciiChars_nil trivial
  | item :: items, h => by
      rw [itemChars_cons, asciiChars_append, asciiChars_json item h.1, AsciiItems,
        ← asciiChars_items items h.2]
      split
      · rename_i hnil
        rw [hnil]
        simp [itemChars, Value.jsonItems]
      · simp

theorem asciiChars_field : (field : String × Value) → FieldJson field →
    (AsciiChars (Value.jsonString field.1).toList ∧ AsciiChars (Value.json field.2).toList ↔
      AsciiField field)
  | (key, v), h => by
      rw [asciiChars_jsonString, asciiChars_json v h, AsciiField]

theorem asciiChars_fields : (fields : List (String × Value)) → FieldsJson fields →
    (AsciiChars (fieldChars fields) ↔ AsciiFields fields)
  | [], _ => iff_of_true asciiChars_nil trivial
  | field :: fields, h => by
      rw [fieldChars_cons, asciiChars_append, asciiChars_cons, asciiChars_append, AsciiFields,
        ← asciiChars_fields fields h.2, ← asciiChars_field field h.1]
      split
      · rename_i hnil
        rw [hnil]
        simp [fieldChars, Value.jsonFields]
      · simp [and_assoc]

end

end JSON

/-! ### The cache -/

namespace ConfigCacheService

/-- The bytes of the objects, by bucket and key. -/
abbrev ObjectStore : Type := String → String → Option (List UInt8)

/-- How the client hands out the bytes of an object: in chunks that may end at any byte. -/
structure MinioClient where
  chunks : List UInt8 → List (List UInt8)
  flatten_chunks : ∀ bytes, (chunks bytes).flatten = bytes

/-- Of the buffer, the first `size` bytes are stored. -/
def putObject (bucketName key : String) (buffer : List UInt8) (size : ℕ) (store : ObjectStore) :
    ObjectStore :=
  fun bucket object =>
    if bucket = bucketName ∧ object = key then some (buffer.take size) else store bucket object

/-- `Buffer.from(content)`. -/
def bufferFrom (content : String) : List UInt8 := Utf8.encode content.toList

/-- `content.length`. -/
def textLength (content : String) : ℕ := (codeUnits content).length

def setByVersion (bucketName deviceId semver : String) (payload : Object) (store : ObjectStore) :
    ObjectStore :=
  let content := Value.json (.map payload)
  putObject bucketName (ConfigService.versionedObjectKey deviceId semver) (bufferFrom content)
    (textLength content) store

def streamToString (chunks : List (List UInt8)) : String :=
  String.ofList (Utf8.decode chunks.flatten)

/-- A missing object and a text that is no JSON are both no payload. -/
def getByVersion (client : MinioClient) (bucketName deviceId semver : String)
    (store : ObjectStore) : Option Value :=
  match store bucketName (ConfigService.versionedObjectKey deviceId semver) with
  | none => none
  | some bytes => JSON.parse (streamToString (client.chunks bytes))

/-! ### What is read back -/

theorem getByVersion_setByVersion (client : MinioClient) (bucketName deviceId semver : String)
    (payload : Object) (store : ObjectStore) :
    getByVersion client bucketName deviceId semver
        (setByVersion bucketName deviceId semver payload store) =
      JSON.parse (String.ofList (Utf8.decode ((bufferFrom (Value.json (.map payload))).take
        (textLength (Value.json (.map payload)))))) := by
  unfold getByVersion setByVersion putObject streamToString
  rw [if_pos ⟨rfl, rfl⟩]
  dsimp only
  rw [client.flatten_chunks]

/-- A character has as many bytes as units where it is ASCII, and more elsewhere. -/
theorem units_le (c : Char) :
    (if c.toNat < 0x10000 then 1 else 2) ≤ (String.utf8EncodeChar c).length ∧
      ((if c.toNat < 0x10000 then 1 else 2) = (String.utf8EncodeChar c).length ↔
        c.toNat < 128) := by
  have hval : c.val.toNat = c.toNat := rfl
  unfold String.utf8EncodeChar
  dsimp only
  rw [hval]
  by_cases hone : c.toNat ≤ 0x7f
  · rw [if_pos hone, if_pos (by omega)]
    simp
    omega
  rw [if_neg hone]
  by_cases htwo : c.toNat ≤ 0x7ff
  · rw [if_pos htwo, if_pos (by omega)]
    simp
    omega
  rw [if_neg htwo]
  by_cases hthree : c.toNat ≤ 0xffff
  · rw [if_pos hthree, if_pos (by omega)]
    simp
    omega
  · rw [if_neg hthree, if_neg (by omega)]
    simp
    omega

/-- **Run.** The length of a text is the number of its bytes exactly where it is ASCII. -/
theorem textLength_le (s : String) : textLength s ≤ (bufferFrom s).length ∧
    (textLength s = (bufferFrom s).length ↔ AsciiChars s.toList) := by
  unfold textLength codeUnits bufferFrom Utf8.encode
  induction s.toList with
  | nil => exact ⟨Nat.le_refl _, iff_of_true rfl asciiChars_nil⟩
  | cons c cs ih =>
      obtain ⟨hle, hiff⟩ := units_le c
      obtain ⟨ihle, ihiff⟩ := ih
      have hunits : (if c.toNat < 0x10000 then [c] else ['\uFFFD', '\uFFFD']).length =
          if c.toNat < 0x10000 then 1 else 2 := by
        split <;> rfl
      rw [List.flatMap_cons, List.flatMap_cons, List.length_append, List.length_append, hunits,
        asciiChars_cons, ← hiff, ← ihiff]
      omega

/-- **Main result.** A payload is read back as it was stored exactly where its keys and strings are
ASCII. -/
theorem getByVersion_setByVersion_iff {payload : Object} (hjson : JSON.IsJson (.map payload))
    (client : MinioClient) (bucketName deviceId semver : String) (store : ObjectStore) :
    getByVersion client bucketName deviceId semver
        (setByVersion bucketName deviceId semver payload store) = some (.map payload) ↔
      JSON.AsciiFields payload := by
  have hascii : AsciiChars (Value.json (.map payload)).toList ↔ JSON.AsciiFields payload :=
    JSON.asciiChars_json (.map payload) hjson
  obtain ⟨hle, hlength⟩ := textLength_le (Value.json (.map payload))
  rw [getByVersion_setByVersion, ← hascii, ← hlength]
  rcases Nat.lt_or_eq_of_le hle with hlt | heq
  · refine iff_of_false ?_ (Nat.ne_of_lt hlt)
    obtain ⟨before, c, after, htext, hread⟩ := Utf8.decode_take hlt
    have hcut : ∀ tail, tail = [] ∨ tail = ['\uFFFD'] →
        JSON.parse (String.ofList (before ++ tail)) = none :=
      fun tail htail => JSON.parse_cut hjson htext htail
    unfold bufferFrom
    rcases hread with hread | hread
    · rw [hread, ← List.append_nil before, hcut [] (.inl rfl)]
      exact fun h => nomatch h
    · rw [hread, hcut _ (.inr rfl)]
      exact fun h => nomatch h
  · refine iff_of_true ?_ heq
    rw [heq, List.take_length]
    unfold bufferFrom
    rw [Utf8.decode_encode, String.ofList_toList, JSON.parse_json hjson]

/-- Chunks of one byte. -/
def bytewise : MinioClient := ⟨fun bytes => bytes.map ([·]), fun bytes => by
  induction bytes with
  | nil => rfl
  | cons b bytes ih =>
      rw [List.map_cons, List.flatten_cons, ih]
      rfl⟩

theorem ascii_payload_read :
    getByVersion bytewise "configs" "device-1" "1.0.0"
        (setByVersion "configs" "device-1" "1.0.0" [("name", .str "cafe")] fun _ _ => none) =
      some (.map [("name", .str "cafe")]) := by
  have hjson : JSON.IsJson (.map [("name", .str "cafe")]) := ⟨by decide, trivial, trivial⟩
  refine (getByVersion_setByVersion_iff hjson bytewise _ _ _ _).mpr ⟨⟨?_, ?_⟩, trivial⟩
  · show AsciiChars "name".toList
    decide
  · show AsciiChars "cafe".toList
    decide

/-- The last byte of a text with one accented letter is lost, and the payload with it. -/
theorem accented_payload_missed :
    JSON.IsJson (.map [("name", .str "café")]) ∧
      getByVersion bytewise "configs" "device-1" "1.0.0"
        (setByVersion "configs" "device-1" "1.0.0" [("name", .str "café")] fun _ _ => none) =
        none :=
  ⟨⟨by decide, trivial, trivial⟩, by decide +kernel⟩

end ConfigCacheService

end UploadService
