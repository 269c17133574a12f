import UploadService.Json

/-!
# JSON texts cut short

What the parser makes of a value's text does not depend on what follows the text: the part it has
read is read the same way elsewhere. Since the whole text of an object is read up to its end, no
first part of it is a text of JSON.

Main results: `value?_local`, and `parse_cut`, the refusal of a cut text.
-/

namespace UploadService

namespace JSON

/-! ### Spaces, strings and numbers -/

theorem skipSpace_split {cs rest : List Char} {c : Char} (h : skipSpace cs = c :: rest) :
    isSpace c = false ∧ ∃ spaces, cs = spaces ++ c :: rest ∧
      ∀ after, skipSpace (spaces ++ c :: after) = c :: after := by
  have hc : isSpace c = false := by
    have hhead := List.head?_dropWhile_not isSpace cs
    unfold skipSpace at h
    rw [h] at hhead
    simpa using hhead
  refine ⟨hc, cs.takeWhile isSpace, ?_, fun after => ?_⟩
  · rw [← h]
    exact List.takeWhile_append_dropWhile.symm
  · unfold skipSpace
    rw [List.dropWhile_append_of_pos fun x hx => List.mem_takeWhile_imp hx]
    exact skipSpace_cons hc after

/-- **Run.** A string is read up to its closing quote, whatever follows. -/
theorem stringUnits_local {cs : List Char} :
    ∀ {units : List ℕ} {rest : List Char}, stringUnits cs = some (units, rest) →
      ∃ used, cs = used ++ '"' :: rest ∧
        ∀ after, stringUnits (used ++ '"' :: after) = some (units, after) := by
  induction cs using stringUnits.induct with
  | case1 cs =>
      intro units rest h
      rw [stringUnits.eq_1] at h
      obtain ⟨rfl, rfl⟩ := Prod.mk.inj (Option.some.inj h)
      exact ⟨[], rfl, stringUnits.eq_1⟩
  | case2 a b c d cs ih =>
      intro units rest h
      rw [stringUnits.eq_2] at h
      obtain ⟨unit, hunit, h⟩ := Option.bind_eq_some_iff.mp h
      obtain ⟨⟨more, rest'⟩, hmore, h⟩ := Option.bind_eq_some_iff.mp h
      obtain ⟨rfl, rfl⟩ := Prod.mk.inj (Option.some.inj h)
      obtain ⟨used, rfl, hused⟩ := ih hmore
      refine ⟨'\\' :: 'u' :: a :: b :: c :: d :: used, rfl, fun after => ?_⟩
      rw [List.cons_append, List.cons_append, List.cons_append, List.cons_append, List.cons_append,
        List.cons_append, stringUnits.eq_2, hunit, hused after]
      rfl
  | case3 c cs hne ih =>
      intro units rest h
      rw [stringUnits.eq_3 c cs hne] at h
      obtain ⟨unit, hunit, h⟩ := Option.bind_eq_some_iff.mp h
      obtain ⟨⟨more, rest'⟩, hmore, h⟩ := Option.bind_eq_some_iff.mp h
      obtain ⟨rfl, rfl⟩ := Prod.mk.inj (Option.some.inj h)
      obtain ⟨used, rfl, hused⟩ := ih hmore
      refine ⟨'\\' :: c :: used, rfl, fun after => ?_⟩
      rw [List.cons_append, List.cons_append, stringUnits_escape hunit, hused after]
      rfl
  | case4 c cs hquote hlong hslash hcontrol =>
      intro units rest h
      rw [stringUnits.eq_4 c cs hquote hlong hslash, if_pos hcontrol] at h
      cases h
  | case5 c cs hquote hlong hslash hcontrol ih =>
      intro units rest h
      rw [stringUnits.eq_4 c cs hquote hlong hslash, if_neg hcontrol] at h
      obtain ⟨⟨more, rest'⟩, hmore, h⟩ := Option.bind_eq_some_iff.mp h
      obtain ⟨rfl, rfl⟩ := Prod.mk.inj (Option.some.inj h)
      have hplain : c ≠ '\\' := by
        intro hc
        cases cs with
        | nil => cases hmore
        | cons d cs => exact hslash d cs hc rfl
      obtain ⟨used, rfl, hused⟩ := ih hmore
      refine ⟨c :: used, rfl, fun after => ?_⟩
      rw [List.cons_append, stringUnits_plain hquote hplain hcontrol, hused after]
      rfl
  | case6 =>
      intro units rest h
      cases h

theorem string?_local {cs rest : List Char} {s : String} (h : string? cs = some (s, rest)) :
    ∃ used, cs = used ++ '"' :: rest ∧
      ∀ after, string? (used ++ '"' :: after) = some (s, after) := by
  obtain ⟨⟨units, rest'⟩, hunits, heq⟩ := Option.map_eq_some_iff.mp h
  obtain ⟨rfl, rfl⟩ := Prod.mk.inj heq
  obtain ⟨used, hcs, hused⟩ := stringUnits_local hunits
  refine ⟨used, hcs, fun after => ?_⟩
  unfold string?
  rw [hused after]
  rfl

/-- The rest after a number does not go on with it. -/
theorem ends_dropWhile {cs after : List Char}
    (h : after.head? = (cs.dropWhile isNumberChar).head?) : Ends after := by
  rintro c tail rfl
  have hhead := List.head?_dropWhile_not isNumberChar cs
  rw [← h] at hhead
  simpa using hhead

/-- A number is read up to the character after it. -/
theorem number?_local {cs rest : List Char} {v : Value} (h : number? cs = some (v, rest)) :
    (∃ n, v = .num n) ∧ ∃ used, used ≠ [] ∧ cs = used ++ rest ∧
      ∀ after, after.head? = rest.head? → number? (used ++ after) = some (v, after) := by
  unfold number? at h
  dsimp only at h
  split at h
  · rename_i hnumeral
    obtain ⟨rfl, rfl⟩ := Prod.mk.inj (Option.some.inj h)
    have hne : cs.takeWhile isNumberChar ≠ [] := by
      intro hnil
      rw [hnil] at hnumeral
      cases hnumeral
    refine ⟨⟨_, rfl⟩, cs.takeWhile isNumberChar, hne, List.takeWhile_append_dropWhile.symm,
      fun after hhead => ?_⟩
    obtain ⟨htake, hdrop⟩ := takeWhile_append_of_ends
      (fun c hc => List.mem_takeWhile_imp hc) (ends_dropWhile hhead)
    unfold number?
    dsimp only
    rw [htake, hdrop, if_pos hnumeral]
  · cases h

theorem word?_local {word cs rest : List Char} {v w : Value} (h : word? word w cs = some (v, rest)) :
    v = w ∧ cs = word ++ rest := by
  unfold word? at h
  split at h
  · rename_i hword
    obtain ⟨rfl, rfl⟩ := Prod.mk.inj (Option.some.inj h)
    obtain ⟨tail, rfl⟩ := List.isPrefixOf_iff_prefix.mp hword
    rw [List.drop_left]
    exact ⟨rfl, rfl⟩
  · cases h

/-! ### What is read up to a closing bracket -/

section

variable {α β : Type}

/-- What `p` reads of a text ends with the closing character, and is read whatever follows. -/
def Closed (close : Char) (p : ℕ → List Char → Option (α × List Char)) (fuel : ℕ)
    (cs : List Char) (a : α) (rest : List Char) : Prop :=
  ∃ used, cs = used ++ close :: rest ∧ ∀ fuel', fuel ≤ fuel' → ∀ after,
    p fuel' (used ++ close :: after) = some (a, after)

/-- `p` reads one element, and a comma with more of them or the closing character. -/
structure Separated (close : Char) (p : ℕ → List Char → Option (List α × List Char))
    (element : ℕ → List Char → α → List Char → Prop) : Prop where
  cases : ∀ {fuel cs xs rest}, p (fuel + 1) cs = some (xs, rest) → ∃ x mid, element fuel cs x mid ∧
    ((∃ next more, skipSpace mid = ',' :: next ∧ p fuel next = some (more, rest) ∧
      xs = x :: more) ∨ (skipSpace mid = close :: rest ∧ xs = [x]))
  comma : ∀ {fuel cs x mid next more rest}, element fuel cs x mid → skipSpace mid = ',' :: next →
    p fuel next = some (more, rest) → p (fuel + 1) cs = some (x :: more, rest)
  close : ∀ {fuel cs x mid rest}, element fuel cs x mid → skipSpace mid = close :: rest →
    p (fuel + 1) cs = some ([x], rest)

theorem head?_append_cons (spaces : List Char) (c : Char) (xs ys : List Char) :
    (spaces ++ c :: xs).head? = (spaces ++ c :: ys).head? := by
  cases spaces with
  | nil => rfl
  | cons d spaces => rfl

/-- **Step.** Elements are read up to the closing character where each of them is read up to the
character after it. -/
theorem Separated.closed {close : Char} {p : ℕ → List Char → Option (List α × List Char)}
    {element : ℕ → List Char → α → List Char → Prop} (hp : Separated close p element) {fuel : ℕ}
    (helement : ∀ {cs x mid}, element fuel cs x mid → ∃ used, cs = used ++ mid ∧
      ∀ fuel', fuel ≤ fuel' → ∀ after, after.head? = mid.head? →
        element fuel' (used ++ after) x after)
    (hmore : ∀ {cs xs rest}, p fuel cs = some (xs, rest) → Closed close p fuel cs xs rest)
    {cs : List Char} {xs : List α} {rest : List Char} (h : p (fuel + 1) cs = some (xs, rest)) :
    Closed close p (fuel + 1) cs xs rest := by
  obtain ⟨x, mid, hx, hmid⟩ := hp.cases h
  obtain ⟨first, rfl, hfirst⟩ := helement hx
  rcases hmid with ⟨next, more, hskip, hnext, rfl⟩ | ⟨hskip, rfl⟩
  · obtain ⟨-, spaces, rfl, hspaces⟩ := skipSpace_split hskip
    obtain ⟨used, rfl, hused⟩ := hmore hnext
    refine ⟨first ++ (spaces ++ ',' :: used), by simp, fun fuel' hfuel after => ?_⟩
    obtain ⟨fuel', rfl⟩ := Nat.exists_eq_add_of_le' (Nat.le_trans (Nat.succ_pos fuel) hfuel)
    have hle : fuel ≤ fuel' := Nat.le_of_succ_le_succ hfuel
    have hread := hfirst fuel' hle (spaces ++ ',' :: (used ++ close :: after))
      (head?_append_cons spaces ',' _ _)
    rw [List.append_assoc, List.append_assoc, List.cons_append]
    exact hp.comma hread (hspaces _) (hused fuel' hle after)
  · obtain ⟨-, spaces, rfl, hspaces⟩ := skipSpace_split hskip
    refine ⟨first ++ spaces, by simp, fun fuel' hfuel after => ?_⟩
    obtain ⟨fuel', rfl⟩ := Nat.exists_eq_add_of_le' (Nat.le_trans (Nat.succ_pos fuel) hfuel)
    have hread := hfirst fuel' (Nat.le_of_succ_le_succ hfuel) (spaces ++ close :: after)
      (head?_append_cons spaces close _ _)
    rw [List.append_assoc]
    exact hp.close hread (hspaces _)

/-- `q` reads the closing character alone, or what `p` reads. -/
structure Bracketed (close : Char) (p : ℕ → List Char → Option (α × List Char))
    (q : ℕ → List Char → Option (β × List Char)) (empty : β) (full : α → β) : Prop where
  empty : ∀ {fuel body rest}, skipSpace body = close :: rest → q fuel body = some (empty, rest)
  full : ∀ {fuel body}, (∀ rest, skipSpace body ≠ close :: rest) →
    q fuel body = (p fuel (skipSpace body)).map fun (a, rest) => (full a, rest)

/-- **Step.** What stands between brackets is read up to the closing one. -/
theorem Bracketed.closed {close : Char} {p : ℕ → List Char → Option (α × List Char)}
    {q : ℕ → List Char → Option (β × List Char)} {empty : β} {full : α → β}
    (hq : Bracketed close p q empty full) {fuel : ℕ}
    (hp : ∀ {cs a rest}, p fuel cs = some (a, rest) → Closed close p fuel cs a rest)
    {body : List Char} {b : β} {rest : List Char} (h : q fuel body = some (b, rest)) :
    Closed close q fuel body b rest := by
  by_cases hclose : ∃ rest, skipSpace body = close :: rest
  · obtain ⟨rest', hskip⟩ := hclose
    rw [hq.empty hskip] at h
    obtain ⟨rfl, rfl⟩ := Prod.mk.inj (Option.some.inj h)
    obtain ⟨-, spaces, rfl, hspaces⟩ := skipSpace_split hskip
    exact ⟨spaces, rfl, fun fuel' _ after => hq.empty (hspaces after)⟩
  · have hne : ∀ rest, skipSpace body ≠ close :: rest := fun rest hskip => hclose ⟨rest, hskip⟩
    rw [hq.full hne] at h
    obtain ⟨⟨a, rest'⟩, hread, heq⟩ := Option.map_eq_some_iff.mp h
    obtain ⟨rfl, rfl⟩ := Prod.mk.inj heq
    obtain ⟨used, hskip, hused⟩ := hp hread
    cases used with
    | nil => exact absurd hskip (hne rest')
    | cons d used =>
        rw [List.cons_append] at hskip
        obtain ⟨-, spaces, rfl, hspaces⟩ := skipSpace_split hskip
        refine ⟨spaces ++ d :: used, by simp, fun fuel' hfuel after => ?_⟩
        have hskip' := hspaces (used ++ close :: after)
        have hne' : ∀ rest, skipSpace (spaces ++ d :: (used ++ close :: after)) ≠ close :: rest := by
          intro rest heq
          rw [hskip'] at heq
          rw [hskip, (List.cons.inj heq).1] at hne
          exact hne _ rfl
        rw [List.append_assoc, List.cons_append, hq.full hne', hskip', ← List.cons_append,
          hused fuel' hfuel after]
        rfl

end

/-! ### Items and fields -/

theorem separated_items :
    Separated ']' items? fun fuel cs item mid => value? fuel cs = some (item, mid) where
  cases := by
    intro fuel cs items rest h
    rw [items?] at h
    obtain ⟨⟨item, mid⟩, hitem, hmid⟩ := Option.bind_eq_some_iff.mp h
    refine ⟨item, mid, hitem, ?_⟩
    dsimp only at hmid
    split at hmid
    · rename_i next hskip
      obtain ⟨⟨more, rest'⟩, hmore, heq⟩ := Option.bind_eq_some_iff.mp hmid
      obtain ⟨rfl, rfl⟩ := Prod.mk.inj (Option.some.inj heq)
      exact .inl ⟨next, more, hskip, hmore, rfl⟩
    · rename_i rest' hskip
      obtain ⟨rfl, rfl⟩ := Prod.mk.inj (Option.some.inj hmid)
      exact .inr ⟨hskip, rfl⟩
    · cases hmid
  comma := by
    intro fuel cs item mid next more rest hitem hskip hnext
    simp only [items?, hitem, hskip, hnext, Option.bind_eq_bind, Option.bind_some, Option.pure_def]
  close := by
    intro fuel cs item mid rest hitem hskip
    simp only [items?, hitem, hskip, Option.bind_eq_bind, Option.bind_some, Option.pure_def]

/-- A key, the colon and a value are read, up to what follows the value. -/
def ReadsField (fuel : ℕ) (cs : List Char) (field : String × Value) (tail : List Char) : Prop :=
  ∃ body mid start, skipSpace cs = '"' :: body ∧ string? body = some (field.1, mid) ∧
    skipSpace mid = ':' :: start ∧ value? fuel start = some (field.2, tail)

theorem separated_fields : Separated '\x7d' fields? ReadsField where
  cases := by
    intro fuel cs fields rest h
    rw [fields?] at h
    split at h
    · rename_i body hquote
      obtain ⟨⟨key, mid⟩, hkey, hmid⟩ := Option.bind_eq_some_iff.mp h
      dsimp only at hmid
      split at hmid
      · rename_i start hcolon
        obtain ⟨⟨v, tail⟩, hv, htail⟩ := Option.bind_eq_some_iff.mp hmid
        refine ⟨(key, v), tail, ⟨body, mid, start, hquote, hkey, hcolon, hv⟩, ?_⟩
        dsimp only at htail
        split at htail
        · rename_i next hskip
          obtain ⟨⟨more, rest'⟩, hmore, heq⟩ := Option.bind_eq_some_iff.mp htail
          obtain ⟨rfl, rfl⟩ := Prod.mk.inj (Option.some.inj heq)
          exact .inl ⟨next, more, hskip, hmore, rfl⟩
        · rename_i rest' hskip
          obtain ⟨rfl, rfl⟩ := Prod.mk.inj (Option.some.inj htail)
          exact .inr ⟨hskip, rfl⟩
        · cases htail
      · cases hmid
    · cases h
  comma := by
    rintro fuel cs ⟨key, v⟩ tail next more rest ⟨body, mid, start, hquote, hkey, hcolon, hv⟩
      hskip hnext
    simp only [fields?, hquote, hkey, hcolon, hv, hskip, hnext, Option.bind_eq_bind,
      Option.bind_some, Option.pure_def]
  close := by
    rintro fuel cs ⟨key, v⟩ tail rest ⟨body, mid, start, hquote, hkey, hcolon, hv⟩ hskip
    simp only [fields?, hquote, hkey, hcolon, hv, hskip, Option.bind_eq_bind, Option.bind_some,
      Option.pure_def]

/-! ### Values -/

/-- What is left to read, `rest`, may be exchanged: after a number only its first character counts. -/
def Follows (v : Value) (rest after : List Char) : Prop :=
  after.head? = rest.head? ∨ ∀ n, v ≠ .num n

/-- The value is read of the first part of the text, whatever follows. -/
def ReadsPart (fuel : ℕ) (cs : List Char) (v : Value) (rest : List Char) : Prop :=
  ∃ used, cs = used ++ rest ∧ ∀ fuel', fuel ≤ fuel' → ∀ after, Follows v rest after →
    value? fuel' (used ++ after) = some (v, after)

/-- **Step.** A field is read of the first part of the text. -/
theorem ReadsField.part {fuel : ℕ}
    (hvalue : ∀ {cs v rest}, value? fuel cs = some (v, rest) → ReadsPart fuel cs v rest)
    {cs tail : List Char} {field : String × Value} (h : ReadsField fuel cs field tail) :
    ∃ used, cs = used ++ tail ∧ ∀ fuel', fuel ≤ fuel' → ∀ after, after.head? = tail.head? →
      ReadsField fuel' (used ++ after) field after := by
  obtain ⟨body, mid, start, hquote, hkey, hcolon, hv⟩ := h
  obtain ⟨-, before, rfl, hbefore⟩ := skipSpace_split hquote
  obtain ⟨name, rfl, hname⟩ := string?_local hkey
  obtain ⟨-, gap, rfl, hgap⟩ := skipSpace_split hcolon
  obtain ⟨first, rfl, hfirst⟩ := hvalue hv
  refine ⟨before ++ '"' :: (name ++ '"' :: (gap ++ ':' :: first)), by simp,
    fun fuel' hfuel after hhead => ⟨_, _, _, ?_, hname _, hgap _, hfirst fuel' hfuel after
      (.inl hhead)⟩⟩
  simp only [List.append_assoc, List.cons_append]
  exact hbefore _

theorem value?_of_skip {fuel : ℕ} {cs body : List Char} {c : Char} (h : skipSpace cs = c :: body) :
    value? (fuel + 1) cs = value? (fuel + 1) (c :: body) := by
  rw [value?, value?, h, skipSpace_cons (skipSpace_split h).1]

theorem value?_quote (fuel : ℕ) (body : List Char) :
    value? (fuel + 1) ('"' :: body) = (string? body).map fun (s, rest) => (.str s, rest) := by
  rw [value?, skipSpace_cons rfl]
  rfl

theorem bracketed_items : Bracketed ']' items? (fun fuel body => value? (fuel + 1) ('[' :: body))
    (.list []) Value.list where
  empty := by
    intro fuel body rest h
    rw [value?, skipSpace_cons rfl]
    dsimp only
    rw [if_neg (by decide), if_pos rfl, h]
    rfl
  full := by
    intro fuel body h
    rw [value?, skipSpace_cons rfl]
    dsimp only
    rw [if_neg (by decide), if_pos rfl]
    split
    · rename_i rest hskip
      exact absurd hskip (h rest)
    · rfl

theorem bracketed_fields : Bracketed '\x7d' fields?
    (fun fuel body => value? (fuel + 1) ('\x7b' :: body)) (.map [])
    (fun fields => .map (object fields)) where
  empty := by
    intro fuel body rest h
    rw [value?, skipSpace_cons rfl]
    dsimp only
    rw [if_neg (by decide), if_neg (by decide), if_pos rfl, h]
    rfl
  full := by
    intro fuel body h
    rw [value?, skipSpace_cons rfl]
    dsimp only
    rw [if_neg (by decide), if_neg (by decide), if_pos rfl]
    split
    · rename_i rest hskip
      exact absurd hskip (h rest)
    · rfl

/-- A text that starts with no quote and no bracket is read without fuel. -/
theorem value?_atom {c : Char} (hspace : isSpace c = false) (hquote : c ≠ '"') (hbracket : c ≠ '[')
    (hbrace : c ≠ '\x7b') (fuel : ℕ) (body : List Char) :
    value? (fuel + 1) (c :: body) =
      if c = 'n' then word? ['n', 'u', 'l', 'l'] .null (c :: body)
      else if c = 't' then word? ['t', 'r', 'u', 'e'] (.bool true) (c :: body)
      else if c = 'f' then word? ['f', 'a', 'l', 's', 'e'] (.bool false) (c :: body)
      else number? (c :: body) := by
  rw [value?, skipSpace_cons hspace]
  dsimp only
  rw [if_neg hquote, if_neg hbracket, if_neg hbrace]

/-- What follows the first character is read so. -/
def HeadPart (fuel : ℕ) (c : Char) (body : List Char) (v : Value) (rest : List Char) : Prop :=
  ∃ used, body = used ++ rest ∧ ∀ fuel', fuel ≤ fuel' → ∀ after, Follows v rest after →
    value? (fuel' + 1) (c :: (used ++ after)) = some (v, after)

/-- **Step.** The text of a word. -/
theorem headPart_word {c : Char} {tail : List Char} {w : Value}
    (hword : ∀ fuel body, value? (fuel + 1) (c :: body) = word? (c :: tail) w (c :: body)) {fuel : ℕ}
    {body rest : List Char} {v : Value} (h : value? (fuel + 1) (c :: body) = some (v, rest)) :
    HeadPart fuel c body v rest := by
  rw [hword] at h
  obtain ⟨rfl, hcs⟩ := word?_local h
  refine ⟨tail, (List.cons.inj hcs).2, fun fuel' _ after _ => ?_⟩
  rw [hword, ← List.cons_append, word?_append]

/-- **Step.** The text of a word or a number. -/
theorem headPart_atom {c : Char} (hspace : isSpace c = false) (hquote : c ≠ '"')
    (hbracket : c ≠ '[') (hbrace : c ≠ '\x7b') {fuel : ℕ} {body rest : List Char} {v : Value}
    (h : value? (fuel + 1) (c :: body) = some (v, rest)) : HeadPart fuel c body v rest := by
  have hatom := value?_atom hspace hquote hbracket hbrace
  by_cases hn : c = 'n'
  · subst hn
    exact headPart_word (fun fuel body => (hatom fuel body).trans (if_pos rfl)) h
  by_cases ht : c = 't'
  · subst ht
    exact headPart_word (fun fuel body => by rw [hatom, if_neg hn, if_pos rfl]) h
  by_cases hf : c = 'f'
  · subst hf
    exact headPart_word (fun fuel body => by rw [hatom, if_neg hn, if_neg ht, if_pos rfl]) h
  have hnumber : ∀ fuel body, value? (fuel + 1) (c :: body) = number? (c :: body) := by
    intro fuel body
    rw [hatom, if_neg hn, if_neg ht, if_neg hf]
  rw [hnumber] at h
  obtain ⟨⟨n, rfl⟩, used, hne, hcs, hused⟩ := number?_local h
  cases used with
  | nil => exact absurd rfl hne
  | cons d used =>
      obtain ⟨rfl, hbody⟩ := List.cons.inj hcs
      refine ⟨used, hbody, fun fuel' _ after hafter => ?_⟩
      rw [hnumber, ← List.cons_append]
      exact hused after (hafter.resolve_right fun hnum => hnum n rfl)

theorem Closed.headPart {fuel : ℕ} {close c : Char} {body rest : List Char} {v : Value}
    (h : Closed close (fun fuel body => value? (fuel + 1) (c :: body)) fuel body v rest) :
    HeadPart fuel c body v rest := by
  obtain ⟨used, rfl, hused⟩ := h
  refine ⟨used ++ [close], by simp, fun fuel' hfuel after _ => ?_⟩
  rw [List.append_assoc, List.singleton_append]
  exact hused fuel' hfuel after

theorem headPart_quote {fuel : ℕ} {body rest : List Char} {v : Value}
    (h : value? (fuel + 1) ('"' :: body) = some (v, rest)) : HeadPart fuel '"' body v rest := by
  rw [value?_quote] at h
  obtain ⟨⟨s, rest'⟩, hread, heq⟩ := Option.map_eq_some_iff.mp h
  obtain ⟨rfl, rfl⟩ := Prod.mk.inj heq
  obtain ⟨used, rfl, hused⟩ := string?_local hread
  refine Closed.headPart ⟨used, rfl, fun fuel' _ after => ?_⟩
  exact (value?_quote fuel' _).trans (by rw [hused after]; rfl)

/-- What a run of the parser with this fuel reads is read of the first part of a text. -/
structure Local (fuel : ℕ) : Prop where
  value : ∀ {cs v rest}, value? fuel cs = some (v, rest) → ReadsPart fuel cs v rest
  items : ∀ {cs items rest}, items? fuel cs = some (items, rest) →
    Closed ']' items? fuel cs items rest
  fields : ∀ {cs fields rest}, fields? fuel cs = some (fields, rest) →
    Closed '\x7d' fields? fuel cs fields rest

/-- **Step.** The text of a value, one case for each first character. -/
theorem Local.headPart {fuel : ℕ} (hlocal : Local fuel) {c : Char} {body rest : List Char}
    {v : Value} (hspace : isSpace c = false) (h : value? (fuel + 1) (c :: body) = some (v, rest)) :
    HeadPart fuel c body v rest := by
  by_cases hquote : c = '"'
  · subst hquote
    exact headPart_quote h
  by_cases hbracket : c = '['
  · subst hbracket
    exact (bracketed_items.closed hlocal.items h).headPart
  by_cases hbrace : c = '\x7b'
  · subst hbrace
    exact (bracketed_fields.closed hlocal.fields h).headPart
  · exact headPart_atom hspace hquote hbracket hbrace h

/-- **Run.** Whatever the fuel. -/
theorem local_of_fuel (fuel : ℕ) : Local fuel := by
  induction fuel with
  | zero => exact ⟨fun h => (nomatch h), fun h => (nomatch h), fun h => (nomatch h)⟩
  | succ fuel ih =>
      refine ⟨?_, separated_items.closed ?_ ih.items, separated_fields.closed (ReadsField.part ih.value) ih.fields⟩
      · intro cs v rest h
        cases hskip : skipSpace cs with
        | nil =>
            rw [value?, hskip] at h
            cases h
        | cons c body =>
            obtain ⟨hspace, spaces, rfl, hspaces⟩ := skipSpace_split hskip
            rw [value?_of_skip hskip] at h
            obtain ⟨used, rfl, hused⟩ := ih.headPart hspace h
            refine ⟨spaces ++ c :: used, by simp, fun fuel' hfuel after hafter => ?_⟩
            obtain ⟨fuel', rfl⟩ := Nat.exists_eq_add_of_le' (Nat.le_trans (Nat.succ_pos fuel) hfuel)
            rw [List.append_assoc, List.cons_append, value?_of_skip (hspaces _)]
            exact hused fuel' (Nat.le_of_succ_le_succ hfuel) after hafter
      · intro cs item mid h
        obtain ⟨used, hcs, hused⟩ := ih.value h
        exact ⟨used, hcs, fun fuel' hfuel after hhead => hused fuel' hfuel after (.inl hhead)⟩

/-! ### Cut texts -/

theorem replacement_not_spaces {used rest : List Char} {cs : List Char}
    (h : cs ++ ['\uFFFD'] = used ++ '\x7d' :: rest) (hrest : skipSpace rest = []) : False := by
  have hspaces : ∀ x ∈ rest, isSpace x = true := List.dropWhile_eq_nil_iff.mp hrest
  have hlast := congrArg List.getLast? h
  rw [List.getLast?_append_of_ne_nil _ (List.cons_ne_nil _ _),
    List.getLast?_append_of_ne_nil _ (List.cons_ne_nil _ _)] at hlast
  have hmem : '\uFFFD' ∈ '\x7d' :: rest := List.mem_of_getLast? hlast.symm
  rcases List.mem_cons.mp hmem with heq | hmem
  · exact absurd heq (by decide)
  · exact absurd (hspaces _ hmem) (by decide)

/-- No value is read of a part of an object's text: it would be read of the whole text, and leave
something there. -/
theorem value?_cut {fields : Object} (hjson : IsJson (.map fields)) {before after rest : List Char}
    {c : Char} {v : Value} (htext : (Value.json (.map fields)).toList = '\x7b' :: (before ++ c :: after))
    (hread : value? (2 * ('\x7b' :: before).length + 1) ('\x7b' :: before) = some (v, rest)) :
    False := by
  obtain ⟨used, rfl, hlocal⟩ := bracketed_fields.closed (local_of_fuel _).fields hread
  have hwhole : (Value.json (.map fields)).toList =
      '\x7b' :: (used ++ '\x7d' :: (rest ++ c :: after)) := by
    rw [htext]
    simp
  have hshort := hlocal (2 * (Value.json (.map fields)).toList.length)
    (by rw [hwhole]; simp) (rest ++ c :: after)
  have hall := reads _ hjson (2 * (Value.json (.map fields)).toList.length + 1) []
    (by rw [List.append_nil]; omega) (fun _ _ heq => nomatch heq)
  rw [List.append_nil, hwhole] at hall
  rw [hwhole] at hshort
  have hnil := (Prod.mk.inj (Option.some.inj (hshort.symm.trans hall))).2
  simp at hnil

/-- **Main result.** The first part of an object's text, with or without a replaced character after
it, is no text of JSON. -/
theorem parse_cut {fields : Object} (hjson : IsJson (.map fields)) {before after tail : List Char}
    {c : Char} (htext : (Value.json (.map fields)).toList = before ++ c :: after)
    (htail : tail = [] ∨ tail = ['\uFFFD']) : parse (String.ofList (before ++ tail)) = none := by
  have hread : ∀ v rest, value? (2 * (before ++ tail).length + 1) (before ++ tail) = some (v, rest) →
      skipSpace rest ≠ [] := by
    intro v rest hread hrest
    cases before with
    | nil => rcases htail with rfl | rfl <;> cases hread
    | cons d before =>
        rw [toList_json_map, List.cons_append] at htext
        obtain ⟨rfl, hbody⟩ := List.cons.inj htext
        rcases htail with rfl | rfl
        · rw [List.append_nil] at hread
          exact value?_cut hjson (by rw [toList_json_map, hbody]) hread
        · obtain ⟨used, hused, -⟩ := bracketed_fields.closed (local_of_fuel _).fields hread
          exact replacement_not_spaces hused hrest
  unfold parse
  rw [String.toList_ofList]
  split
  · rename_i v rest hvalue
    rw [if_neg]
    exact fun hempty => hread v rest hvalue (List.isEmpty_iff.mp hempty)
  · rfl

end JSON

end UploadService
