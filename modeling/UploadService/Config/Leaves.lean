import UploadService.Config.References

/-!
# The texts of a document

The references of a document stand in its texts. `Value.leaves` are the texts and numbers of a
value; `Value.Refs R v` says that every one of them that reads as a reference satisfies `R`.
The edits of the config service keep this: reading a path finds texts that are there (or single
characters of them, which are no references), writing one adds the texts of the new value, and
merging documents adds the texts of the merged one.

Main results:

- `getByPath_refs`, `setByPath_refs`, `deleteByPath_refs`, `assign_refs`: the edits;
- `toText_ref`: where `String(value)` reads as a reference, it starts with one of the value;
- `getByPath_setByPath_ne`: a text written under one path is found under no other.
-/

namespace UploadService

namespace Value

mutual

/-- The texts and the numbers of a value. -/
def leaves : Value → List String
  | null => []
  | bool _ => []
  | num n => [n]
  | str s => [s]
  | list xs => itemLeaves xs
  | map m => fieldLeaves m

def itemLeaves : List Value → List String
  | [] => []
  | x :: xs => leaves x ++ itemLeaves xs

def fieldLeaf : String × Value → List String
  | (_, v) => leaves v

def fieldLeaves : List (String × Value) → List String
  | [] => []
  | f :: fs => fieldLeaf f ++ fieldLeaves fs

end

theorem mem_itemLeaves {t : String} {xs : List Value} :
    t ∈ itemLeaves xs ↔ ∃ x ∈ xs, t ∈ x.leaves := by
  induction xs with
  | nil => simp [itemLeaves]
  | cons x xs ih => simp [itemLeaves, ih]

theorem mem_fieldLeaves {t : String} {m : List (String × Value)} :
    t ∈ fieldLeaves m ↔ ∃ e ∈ m, t ∈ e.2.leaves := by
  induction m with
  | nil => simp [fieldLeaves]
  | cons e m ih =>
      obtain ⟨k, v⟩ := e
      simp [fieldLeaves, fieldLeaf, ih]

/-- Every text of the value that reads as a reference satisfies `R`. -/
def Refs (R : String → Prop) (v : Value) : Prop :=
  ∀ t ∈ v.leaves, Vault.isVaultRef t = true → R t

end Value

/-- A text or a number. -/
def Value.scalar? : Value → Option String
  | .str s => some s
  | .num n => some n
  | _ => none

/-- The same of every value of an object. -/
def Object.Refs (R : String → Prop) (o : Object) : Prop := ∀ e ∈ o, e.2.Refs R

namespace Value

variable {R : String → Prop}

/-! ### Texts that are no references -/

theorem isVaultRef_iff {t : String} :
    Vault.isVaultRef t = true ↔ Vault.refPrefix.toList <+: t.toList := by
  unfold Vault.isVaultRef
  rw [List.isPrefixOf_iff_prefix]

theorem not_isVaultRef_of_head {t : String} {c : Char} {s : List Char} (ht : t.toList = c :: s)
    (hc : c ≠ 'v') : ¬ Vault.isVaultRef t = true := by
  rw [isVaultRef_iff, ht, show Vault.refPrefix.toList = 'v' :: "ault:".toList from rfl,
    List.cons_prefix_cons]
  rintro ⟨rfl, -⟩
  exact hc rfl

/-- One character is no reference. -/
theorem not_isVaultRef_char (c : Char) : ¬ Vault.isVaultRef c.toString = true := by
  have ht : c.toString.toList = [c] := String.toList_singleton c
  rw [isVaultRef_iff, ht]
  intro h
  have hlen : 6 ≤ 1 := h.length_le
  omega

/-- Nor is a number. -/
theorem not_isVaultRef_toString (n : ℕ) : ¬ Vault.isVaultRef (toString n) = true := by
  have ht : (toString n).toList = Nat.toDigits 10 n := Nat.toList_repr
  obtain ⟨c, s, hs⟩ := List.exists_cons_of_ne_nil (@Nat.toDigits_ne_nil n 10)
  have hdigit : c.isDigit = true :=
    @Nat.isDigit_of_mem_toDigits 10 n c (by omega) (by omega) (by rw [hs]; exact List.mem_cons_self)
  apply not_isVaultRef_of_head (ht.trans hs)
  rintro rfl
  exact absurd hdigit (by decide)

theorem null_refs : Refs R null := fun t ht => by cases ht

theorem str_refs {s : String} (h : Vault.isVaultRef s = true → R s) : Refs R (str s) := by
  intro t ht href
  obtain rfl : t = s := List.mem_singleton.mp ht
  exact h href

theorem list_refs {xs : List Value} : Refs R (list xs) ↔ ∀ x ∈ xs, x.Refs R := by
  constructor
  · intro h x hx t ht
    exact h t (mem_itemLeaves.mpr ⟨x, hx, ht⟩)
  · intro h t ht
    obtain ⟨x, hx, ht⟩ := mem_itemLeaves.mp ht
    exact h x hx t ht

theorem map_refs {m : Object} : Refs R (map m) ↔ Object.Refs R m := by
  constructor
  · intro h e he t ht
    exact h t (mem_fieldLeaves.mpr ⟨e, he, ht⟩)
  · intro h t ht
    obtain ⟨e, he, ht⟩ := mem_fieldLeaves.mp ht
    exact h e he t ht

theorem Refs.mono {P : String → Prop} {v : Value} (h : v.Refs R) (hRP : ∀ t, R t → P t) :
    v.Refs P := fun t ht href => hRP t (h t ht href)

end Value

namespace Object

variable {R : String → Prop}

theorem Refs.mono {P : String → Prop} {o : Object} (h : o.Refs R) (hRP : ∀ t, R t → P t) :
    o.Refs P := fun e he => (h e he).mono hRP

theorem nil_refs : Refs R [] := fun e he => by cases he

theorem get?_refs {o : Object} {k : String} {v : Value} (h : o.Refs R)
    (hv : ObjectMap.get? o k = some v) : v.Refs R := h (k, v) (ObjectMap.mem_of_get? hv)

theorem set_refs {o : Object} {k : String} {v : Value} (h : o.Refs R) (hv : v.Refs R) :
    Refs R (ObjectMap.set o k v) := by
  intro e he
  rcases ObjectMap.mem_set he with rfl | he
  · exact hv
  · exact h e he

theorem erase_refs {o : Object} (k : String) (h : o.Refs R) : Refs R (ObjectMap.erase o k) :=
  fun e he => h e (List.mem_of_mem_filter he)

theorem assign_refs {o p : Object} (h : o.Refs R) (hp : p.Refs R) :
    Refs R (ObjectMap.assign o p) := by
  intro e he
  rcases List.mem_append.mp he with he | he
  · obtain ⟨e₀, he₀, rfl⟩ := List.mem_map.mp he
    show ((ObjectMap.get? p e₀.1).getD e₀.2).Refs R
    cases hget : ObjectMap.get? p e₀.1 with
    | none => exact h e₀ he₀
    | some v => exact get?_refs hp hget
  · exact hp e (List.mem_of_mem_filter he)

end Object

namespace Value

variable {R : String → Prop}

/-! ### Members -/

theorem member_refs {v w : Value} {key : String} (h : v.Refs R) (hw : v.member key = some w) :
    w.Refs R := by
  unfold member at hw
  split at hw
  · exact Object.get?_refs (map_refs.mp h) hw
  · split at hw
    · obtain rfl := Option.some.inj hw
      intro t ht href
      obtain rfl := List.mem_singleton.mp ht
      exact absurd href (not_isVaultRef_toString _)
    · obtain ⟨i, -, hi⟩ := Option.bind_eq_some_iff.mp hw
      exact list_refs.mp h w (List.mem_of_getElem? hi)
  · split at hw
    · obtain rfl := Option.some.inj hw
      intro t ht href
      obtain rfl := List.mem_singleton.mp ht
      exact absurd href (not_isVaultRef_toString _)
    · obtain ⟨i, -, hi⟩ := Option.bind_eq_some_iff.mp hw
      obtain ⟨c, -, rfl⟩ := Option.map_eq_some_iff.mp hi
      exact str_refs fun href => absurd href (not_isVaultRef_char c)
  · cases hw

/-- The items of an array after one of them is written. -/
theorem set_items_refs {xs : List Value} {x : Value} (h : ∀ y ∈ xs, y.Refs R) (hx : x.Refs R)
    (i : ℕ) : ∀ y ∈ xs.set i x, y.Refs R := by
  intro y hy
  rcases List.mem_or_eq_of_mem_set hy with hy | rfl
  · exact h y hy
  · exact hx

theorem setMember_refs {v x : Value} (key : String) (h : v.Refs R) (hx : x.Refs R) :
    (v.setMember key x).Refs R := by
  unfold setMember
  split
  · exact map_refs.mpr (Object.set_refs (map_refs.mp h) hx)
  · have hitems := list_refs.mp h
    split
    · split
      · exact list_refs.mpr (set_items_refs hitems hx _)
      · refine list_refs.mpr fun y hy => ?_
        rcases List.mem_append.mp hy with hy | hy
        · rcases List.mem_append.mp hy with hy | hy
          · exact hitems y hy
          · obtain rfl := List.eq_of_mem_replicate hy
            exact null_refs
        · obtain rfl := List.mem_singleton.mp hy
          exact hx
    · exact h
  · exact h

theorem eraseMember_refs {v : Value} (key : String) (h : v.Refs R) : (v.eraseMember key).Refs R := by
  unfold eraseMember
  split
  · exact map_refs.mpr (Object.erase_refs key (map_refs.mp h))
  · split
    · split
      · exact list_refs.mpr (set_items_refs (list_refs.mp h) null_refs _)
      · exact h
    · exact h
  · exact h

end Value

section Paths

variable {R : String → Prop}

/-! ### Paths -/

theorem getIn_refs {parts : List String} {curr : Option Value} {w : Value}
    (h : ∀ v, curr = some v → v.Refs R) (hw : getIn curr parts = some w) : w.Refs R := by
  induction parts generalizing curr with
  | nil => exact h w hw
  | cons key keys ih =>
      apply ih _ hw
      intro v hv
      obtain ⟨v₀, hv₀, hmember⟩ := Option.bind_eq_some_iff.mp hv
      exact Value.member_refs (h v₀ hv₀) hmember

theorem getByPath_refs {obj : Object} {path : String} {w : Value} (h : obj.Refs R)
    (hw : getByPath obj path = some w) : w.Refs R := by
  refine getIn_refs ?_ hw
  intro v hv
  obtain rfl := Option.some.inj hv
  exact Value.map_refs.mpr h

theorem setIn_refs {parts : List String} {v x : Value} (h : v.Refs R) (hx : x.Refs R) :
    (setIn v parts x).Refs R := by
  induction parts generalizing v with
  | nil => exact h
  | cons key keys ih =>
      cases keys with
      | nil => exact Value.setMember_refs key h hx
      | cons key' keys =>
          apply Value.setMember_refs key h
          apply ih
          have hempty : (Value.map []).Refs R := Value.map_refs.mpr Object.nil_refs
          cases hmember : v.member key with
          | none => exact hempty
          | some c =>
              show (if c.isContainer then c else .map []).Refs R
              split
              · exact Value.member_refs h hmember
              · exact hempty

theorem eraseIn_refs {parts : List String} {v : Value} (h : v.Refs R) :
    (eraseIn v parts).Refs R := by
  induction parts generalizing v with
  | nil => exact h
  | cons key keys ih =>
      cases keys with
      | nil => exact Value.eraseMember_refs key h
      | cons key' keys =>
          unfold eraseIn
          split
          · exact h
          · exact h
          · rename_i c _ hmember
            exact Value.setMember_refs key h (ih (Value.member_refs h hmember))

theorem entries_refs {v : Value} (h : v.Refs R) : v.entries.Refs R := by
  cases v with
  | map m => exact Value.map_refs.mp h
  | null => exact Object.nil_refs
  | bool b => exact Object.nil_refs
  | num n => exact Object.nil_refs
  | str s => exact Object.nil_refs
  | list xs => exact Object.nil_refs

theorem setByPath_refs {obj : Object} {x : Value} (path : String) (h : obj.Refs R)
    (hx : x.Refs R) : (setByPath obj path x).Refs R :=
  entries_refs (setIn_refs (Value.map_refs.mpr h) hx)

theorem deleteByPath_refs {obj : Object} (path : String) (h : obj.Refs R) :
    (deleteByPath obj path).Refs R :=
  entries_refs (eraseIn_refs (Value.map_refs.mpr h))

end Paths

namespace Value

/-! ### The text of a value -/

/-- A text followed by nothing, or by a comma, is a reference where the whole is. -/
theorem isVaultRef_of_append {a b : String} {rest : List Char}
    (hb : b.toList = a.toList ++ rest) (hrest : rest = [] ∨ ∃ s, rest = ',' :: s)
    (href : Vault.isVaultRef b = true) : Vault.isVaultRef a = true ∧ a.toList <+: b.toList := by
  rw [isVaultRef_iff, hb] at href
  constructor
  · rw [isVaultRef_iff]
    rcases hrest with rfl | ⟨s, rfl⟩
    · rwa [List.append_nil] at href
    · by_cases hlen : Vault.refPrefix.toList.length ≤ a.toList.length
      · exact List.prefix_of_prefix_length_le href (List.prefix_append _ _) hlen
      · -- the comma would stand inside the prefix
        have hcomma : ',' ∈ Vault.refPrefix.toList := by
          obtain ⟨tail, htail⟩ := href
          have hget : (Vault.refPrefix.toList ++ tail)[a.toList.length]? = some ',' := by
            rw [htail]
            simp
          rw [List.getElem?_append_left (by omega)] at hget
          exact List.mem_of_getElem? hget
        exact absurd hcomma (by decide)
  · rw [hb]
    exact List.prefix_append _ _

/-- A joined text starts with its first part, and a comma follows. -/
theorem toList_intercalate_cons (a : String) (l : List String) :
    ∃ rest, (",".intercalate (a :: l)).toList = a.toList ++ rest ∧
      (rest = [] ∨ ∃ s, rest = ',' :: s) := by
  rw [String.toList_intercalate]
  cases l with
  | nil => exact ⟨[], by simp [List.intercalate], .inl rfl⟩
  | cons b l =>
      refine ⟨',' :: List.intercalate ",".toList ((b :: l).map String.toList), ?_, .inr ⟨_, rfl⟩⟩
      simp [List.intercalate]

mutual

/-- **Main result.** Where the text of a value reads as a reference, it starts with a reference
of the value. -/
theorem toText_ref : (v : Value) → Vault.isVaultRef v.toText = true →
    ∃ t ∈ v.leaves, Vault.isVaultRef t = true ∧ t.toList <+: v.toText.toList
  | null, h => absurd h (by decide)
  | bool b, h => by cases b <;> exact absurd h (by decide)
  | num n, h => ⟨n, List.mem_singleton.mpr rfl, h, List.prefix_refl _⟩
  | str s, h => ⟨s, List.mem_singleton.mpr rfl, h, List.prefix_refl _⟩
  | list xs, h => itemTexts_ref xs h
  | map _, h => absurd (show Vault.isVaultRef "[object Object]" = true from h) (by decide)

theorem itemTexts_ref : (xs : List Value) →
    Vault.isVaultRef (",".intercalate (itemTexts xs)) = true →
    ∃ t ∈ itemLeaves xs, Vault.isVaultRef t = true ∧
      t.toList <+: (",".intercalate (itemTexts xs)).toList
  | [], h => absurd h (by decide)
  | x :: xs, h => by
      have hcases : itemTexts (x :: xs) = "" :: itemTexts xs ∨
          itemTexts (x :: xs) = x.toText :: itemTexts xs := by
        cases x with
        | null => exact .inl rfl
        | bool b => exact .inr rfl
        | num n => exact .inr rfl
        | str s => exact .inr rfl
        | list ys => exact .inr rfl
        | map m => exact .inr rfl
      rcases hcases with htexts | htexts
      · rw [htexts] at h
        obtain ⟨rest, hrest, hcomma⟩ := toList_intercalate_cons "" (itemTexts xs)
        exact absurd (isVaultRef_of_append hrest hcomma h).1 (by decide)
      · rw [htexts] at h ⊢
        obtain ⟨rest, hrest, hcomma⟩ := toList_intercalate_cons x.toText (itemTexts xs)
        obtain ⟨href, hstarts⟩ := isVaultRef_of_append hrest hcomma h
        obtain ⟨t, ht, htref, htprefix⟩ := toText_ref x href
        exact ⟨t, List.mem_append_left _ ht, htref, htprefix.trans hstarts⟩

end

/-- Where the JSON of a value reads as a reference, the value is a number that does. -/
theorem json_ref (v : Value) (h : Vault.isVaultRef v.json = true) : v.scalar? = some v.json := by
  cases v with
  | null => exact absurd h (by decide)
  | bool b => cases b <;> exact absurd h (by decide)
  | num n =>
      unfold json at h ⊢
      split at h
      · exact absurd h (by decide)
      · rename_i hn
        rw [if_neg hn]
        rfl
  | str s =>
      unfold json jsonString at h
      have ht : ("\"" ++ String.ofList (s.toList.flatMap jsonChar) ++ "\"").toList =
          '"' :: (s.toList.flatMap jsonChar ++ ['"']) := by simp
      exact absurd h (not_isVaultRef_of_head ht (by decide))
  | list xs =>
      unfold json at h
      have ht : ("[" ++ ",".intercalate (jsonItems xs) ++ "]").toList =
          '[' :: ((",".intercalate (jsonItems xs)).toList ++ [']']) := by simp
      exact absurd h (not_isVaultRef_of_head ht (by decide))
  | map m =>
      unfold json at h
      have ht : ("\x7b" ++ ",".intercalate (jsonFields m) ++ "\x7d").toList =
          '\x7b' :: ((",".intercalate (jsonFields m)).toList ++ ['\x7d']) := by simp
      exact absurd h (not_isVaultRef_of_head ht (by decide))

end Value

namespace Value

/-! ### One path of a document -/

/-- The value at a path of `v` is the text or number `s`. -/
def Found (v : Value) (parts : List String) (s : String) : Prop :=
  ∃ w, getIn (some v) parts = some w ∧ w.scalar? = some s

theorem getIn_none (parts : List String) : getIn none parts = none := by
  induction parts with
  | nil => rfl
  | cons key keys ih => exact ih

theorem found_nil {v : Value} {s : String} : Found v [] s ↔ v.scalar? = some s := by
  constructor
  · rintro ⟨w, hw, hs⟩
    obtain rfl := Option.some.inj hw
    exact hs
  · exact fun h => ⟨v, rfl, h⟩

theorem found_cons {v : Value} {key : String} {keys : List String} {s : String} :
    Found v (key :: keys) s ↔ ∃ c, v.member key = some c ∧ Found c keys s := by
  constructor
  · rintro ⟨w, hw, hs⟩
    have hw' : getIn (v.member key) keys = some w := hw
    cases hc : v.member key with
    | none =>
        rw [hc, getIn_none] at hw'
        cases hw'
    | some c => exact ⟨c, rfl, w, by rw [← hc]; exact hw', hs⟩
  · rintro ⟨c, hc, w, hw, hs⟩
    refine ⟨w, ?_, hs⟩
    show getIn (v.member key) keys = some w
    rw [hc]
    exact hw

/-- A member of a value that is no object and no array is a character or a length. -/
theorem member_of_scalar {v c : Value} {key : String} (hv : v.isContainer = false)
    (hc : v.member key = some c) :
    c.isContainer = false ∧ ∀ s, c.scalar? = some s → ¬ Vault.isVaultRef s = true := by
  cases v with
  | map m => cases hv
  | list xs => cases hv
  | null => cases hc
  | bool b => cases hc
  | num n => cases hc
  | str t =>
      change (if key = "length" then some (num (toString t.length)) else
        (arrayIndex? key).bind fun i => t.toList[i]?.map fun c => str c.toString) = some c at hc
      split at hc
      · obtain rfl := Option.some.inj hc
        refine ⟨rfl, fun s hs => ?_⟩
        obtain rfl := Option.some.inj hs
        exact not_isVaultRef_toString _
      · obtain ⟨i, -, hi⟩ := Option.bind_eq_some_iff.mp hc
        obtain ⟨ch, -, rfl⟩ := Option.map_eq_some_iff.mp hi
        refine ⟨rfl, fun s hs => ?_⟩
        obtain rfl := Option.some.inj hs
        exact not_isVaultRef_char ch

/-- Below such a value no reference is found. -/
theorem found_of_scalar {v : Value} {parts : List String} {s : String}
    (hv : v.isContainer = false) (href : Vault.isVaultRef s = true) (h : Found v parts s) :
    parts = [] := by
  induction parts generalizing v with
  | nil => rfl
  | cons key keys ih =>
      obtain ⟨c, hc, hfound⟩ := found_cons.mp h
      obtain ⟨hcontainer, hnot⟩ := member_of_scalar hv hc
      have hkeys := ih hcontainer hfound
      rw [hkeys, found_nil] at hfound
      exact absurd href (hnot s hfound)

theorem scalar?_setMember (v x : Value) (key : String) :
    (v.setMember key x).scalar? = v.scalar? := by
  cases v with
  | map m => rfl
  | list xs =>
      unfold setMember
      dsimp only
      split
      · split
        · rfl
        · rfl
      · rfl
  | null => rfl
  | bool b => rfl
  | num n => rfl
  | str s => rfl

theorem arrayIndex?_eq_some {key : String} {i : ℕ} (h : arrayIndex? key = some i) :
    toString i = key := by
  unfold arrayIndex? at h
  split at h
  · split at h
    · rename_i hkey
      obtain rfl := Option.some.inj h
      exact hkey
    · cases h
  · cases h

theorem member_list {key : String} (hkey : key ≠ "length") (xs : List Value) :
    (list xs).member key = (arrayIndex? key).bind fun i => xs[i]? := by
  unfold member
  dsimp only
  rw [if_neg hkey]

/-- What is written under a key is found there, or nothing was written. -/
theorem member_setMember_self {v x c : Value} {key : String}
    (h : (v.setMember key x).member key = some c) : c = x ∨ v.member key = some c := by
  cases v with
  | map m =>
      have hget : ObjectMap.get? (ObjectMap.set m key x) key = some c := h
      rw [ObjectMap.get?_set, if_pos rfl] at hget
      exact .inl (Option.some.inj hget).symm
  | list xs =>
      cases hi : arrayIndex? key with
      | none =>
          unfold setMember at h
          rw [hi] at h
          exact .inr h
      | some i =>
          have hlength : key ≠ "length" := by
            rintro rfl
            rw [show arrayIndex? "length" = none from by decide] at hi
            cases hi
          unfold setMember at h
          rw [hi] at h
          dsimp only at h
          split at h
          · rename_i hlt
            rw [member_list hlength, hi, Option.bind_some, List.getElem?_set_self hlt] at h
            exact .inl (Option.some.inj h).symm
          · rename_i hlt
            rw [member_list hlength, hi, Option.bind_some,
              List.getElem?_append_right (by simp; omega)] at h
            have hlen : i - (xs ++ List.replicate (i - xs.length) null).length = 0 := by
              rw [List.length_append, List.length_replicate]
              omega
            rw [hlen] at h
            exact .inl (Option.some.inj h).symm
  | null => exact .inr h
  | bool b => exact .inr h
  | num n => exact .inr h
  | str s => exact .inr h

/-- A write under one key is found under no other, but for the holes and the length of an array. -/
theorem member_setMember_ne {v x c : Value} {key key' : String} (hne : key' ≠ key)
    (h : (v.setMember key x).member key' = some c) :
    v.member key' = some c ∨ c = null ∨ ∃ n : ℕ, c = num (toString n) := by
  cases v with
  | map m =>
      have hget : ObjectMap.get? (ObjectMap.set m key x) key' = some c := h
      rw [ObjectMap.get?_set, if_neg hne] at hget
      exact .inl hget
  | list xs =>
      cases hi : arrayIndex? key with
      | none =>
          unfold setMember at h
          rw [hi] at h
          exact .inl h
      | some i =>
          by_cases hlength : key' = "length"
          · have hnum : ∀ ys : List Value, (list ys).member key' = some (num (toString ys.length)) := by
              intro ys
              show (if key' = "length" then _ else _) = _
              rw [if_pos hlength]
            unfold setMember at h
            rw [hi] at h
            dsimp only at h
            split at h
            · rw [hnum] at h
              exact .inr (.inr ⟨_, (Option.some.inj h).symm⟩)
            · rw [hnum] at h
              exact .inr (.inr ⟨_, (Option.some.inj h).symm⟩)
          · have hmember := member_list hlength
            unfold setMember at h
            rw [hi] at h
            dsimp only at h
            rw [hmember]
            split at h
            · rw [hmember] at h
              obtain ⟨j, hj, hget⟩ := Option.bind_eq_some_iff.mp h
              have hij : i ≠ j := by
                rintro rfl
                exact hne ((arrayIndex?_eq_some hj).symm.trans (arrayIndex?_eq_some hi))
              rw [List.getElem?_set_ne hij] at hget
              exact .inl (Option.bind_eq_some_iff.mpr ⟨j, hj, hget⟩)
            · rw [hmember] at h
              obtain ⟨j, hj, hget⟩ := Option.bind_eq_some_iff.mp h
              have hij : i ≠ j := by
                rintro rfl
                exact hne ((arrayIndex?_eq_some hj).symm.trans (arrayIndex?_eq_some hi))
              rename_i hlt
              by_cases hjx : j < xs.length
              · rw [List.append_assoc, List.getElem?_append_left hjx] at hget
                exact .inl (Option.bind_eq_some_iff.mpr ⟨j, hj, hget⟩)
              · have hmem := List.mem_of_getElem? hget
                by_cases hji : j < (xs ++ List.replicate (i - xs.length) null).length
                · rw [List.getElem?_append_left hji,
                    List.getElem?_append_right (by omega)] at hget
                  exact .inr (.inl (List.eq_of_mem_replicate (List.mem_of_getElem? hget)))
                · rw [List.length_append, List.length_replicate] at hji
                  have hout : (xs ++ List.replicate (i - xs.length) null ++ [x])[j]? = none := by
                    apply List.getElem?_eq_none
                    rw [List.length_append, List.length_append, List.length_replicate,
                      List.length_singleton]
                    omega
                  rw [hout] at hget
                  cases hget
  | null => exact .inl h
  | bool b => exact .inl h
  | num n => exact .inl h
  | str s => exact .inl h

/-- **Step.** A reference below a written member that is not the written text was there before. -/
theorem found_setMember {v x : Value} {key : String} {parts : List String} {s : String}
    (href : Vault.isVaultRef s = true) (h : Found (v.setMember key x) parts s)
    (hx : ∀ keys, parts = key :: keys → Found x keys s → Found v parts s) : Found v parts s := by
  cases parts with
  | nil =>
      rw [found_nil, scalar?_setMember] at h
      exact found_nil.mpr h
  | cons key' keys =>
      obtain ⟨c, hc, hfound⟩ := found_cons.mp h
      by_cases hkey : key' = key
      · subst hkey
        rcases member_setMember_self hc with rfl | hc
        · exact hx keys rfl hfound
        · exact found_cons.mpr ⟨c, hc, hfound⟩
      · rcases member_setMember_ne hkey hc with hc | rfl | ⟨n, rfl⟩
        · exact found_cons.mpr ⟨c, hc, hfound⟩
        · have hkeys := found_of_scalar rfl href hfound
          rw [hkeys, found_nil] at hfound
          cases hfound
        · have hkeys := found_of_scalar rfl href hfound
          rw [hkeys, found_nil] at hfound
          obtain rfl := Option.some.inj hfound
          exact absurd href (not_isVaultRef_toString n)

theorem found_setIn {parts parts' : List String} {v : Value} {t s : String}
    (hne : parts' ≠ parts) (href : Vault.isVaultRef s = true)
    (h : Found (setIn v parts (.str t)) parts' s) : Found v parts' s := by
  induction parts generalizing v parts' with
  | nil => exact h
  | cons key keys ih =>
      cases keys with
      | nil =>
          apply found_setMember href h
          intro keys' hparts hfound
          have hkeys := found_of_scalar rfl href hfound
          exact absurd (hparts.trans (by rw [hkeys])) hne
      | cons key₂ keys =>
          apply found_setMember href h
          intro keys' hparts hfound
          have hne' : keys' ≠ key₂ :: keys := fun heq => hne (hparts.trans (by rw [heq]))
          have hbefore := ih hne' hfound
          have hempty : ¬ Found (map []) keys' s := by
            intro hfound
            cases keys' with
            | nil => cases found_nil.mp hfound
            | cons a b =>
                obtain ⟨c, hc, -⟩ := found_cons.mp hfound
                cases hc
          cases hmember : v.member key with
          | none =>
              rw [hmember] at hbefore
              exact absurd hbefore hempty
          | some c =>
              rw [hmember] at hbefore
              dsimp only at hbefore
              split at hbefore
              · rw [hparts]
                exact found_cons.mpr ⟨c, hmember, hbefore⟩
              · exact absurd hbefore hempty

end Value

/-- A write into an object leaves an object. -/
theorem setIn_map (m : Object) (parts : List String) (x : Value) :
    ∃ m', setIn (.map m) parts x = .map m' :=
  match parts with
  | [] => ⟨m, rfl⟩
  | [_] => ⟨_, rfl⟩
  | _ :: _ :: _ => ⟨_, rfl⟩

theorem pathParts_injective {path path' : String} (h : pathParts path = pathParts path') :
    path = path' := by
  have hinj : Function.Injective String.ofList := by
    intro a b hab
    rw [← @String.toList_ofList a, hab, String.toList_ofList]
  have hlists : path.toList.splitOn '.' = path'.toList.splitOn '.' :=
    List.map_injective_iff.mpr hinj h
  apply String.toList_inj.mp
  rw [← @List.intercalate_splitOn _ path.toList _ _ '.', hlists, List.intercalate_splitOn]

/-- **Main result.** A text written under one path is found under no other. -/
theorem getByPath_setByPath_ne {obj : Object} {path path' t s : String} {w : Value}
    (hne : path' ≠ path) (hw : getByPath (setByPath obj path (.str t)) path' = some w)
    (hs : w.scalar? = some s) (href : Vault.isVaultRef s = true) :
    ∃ w', getByPath obj path' = some w' ∧ w'.scalar? = some s := by
  have hparts : pathParts path' ≠ pathParts path := fun heq => hne (pathParts_injective heq)
  obtain ⟨m, hm⟩ := setIn_map obj (pathParts path) (.str t)
  have hmap : Value.map (setByPath obj path (.str t)) = setIn (.map obj) (pathParts path) (.str t) := by
    unfold setByPath
    rw [hm]
    rfl
  have hfound : Value.Found (setIn (.map obj) (pathParts path) (.str t)) (pathParts path') s :=
    ⟨w, by rw [← hmap]; exact hw, hs⟩
  exact Value.found_setIn hparts href hfound

end UploadService
