import UploadService.Config.Placed
import UploadService.Config.SecretNames

/-!
# What is done with sensitive values

Masking, unmasking, storing, copying and resolving go over the sensitive keys of a group and edit
the document at each of them. Where the key paths are separate and lead to places of the document,
each of these loops is one pass of edits, and what it leaves in Vault is known: a store and a copy
put the texts of some keys under the names of the group's secrets, and nothing else.

Main results:

- `resolvedYaml_eq`, `maskKeys_eq`, `unmaskKeys_eq`: the loops that only compute;
- `storeKeys_wrote`, `cloneKeys_wrote`: the loops that write to Vault, whichever requests fail;
- `Wrote.resolved`: what the written document resolves to.
-/

namespace UploadService

open Prog Value

namespace ConfigService

/-! ### Edits -/

/-- The text that is stored for a value. -/
def plainText (value : Value) : Option String :=
  if value = .null ∨ Vault.isVaultRef value.toText = true then none else some value.toText

def secretValue : Option String → Value
  | some text => .str text
  | none => .null

def resolveEdit (v : Vault) (_ : String) (value : Value) : Option Value :=
  if Vault.isVaultRef value.toText = true then some (secretValue (v.secretOf value.toText)) else none

def maskEdit (_ : String) (value : Value) : Option Value :=
  if value = .null then none else some (.str "***")

def unmaskEdit (stored : Object) (keyPath : String) (value : Value) : Option Value :=
  if value = .str "***" then getByPath stored keyPath else none

/-- The references to the secrets that hold `texts`. -/
def refEdit (mountPath : String) (groupId : ℕ) (texts : String → Option String) (keyPath : String)
    (_ : Value) : Option Value :=
  (texts keyPath).map fun _ => .str (secretRef mountPath groupId keyPath)

/-- What a submitted value resolves to: a reference its secret, any other value its text. -/
def submittedEdit (v : Vault) (keyPath : String) (value : Value) : Option Value :=
  match plainText value with
  | some text => some (.str text)
  | none => resolveEdit v keyPath value

theorem plainText_of_ref {value : Value} (h : Vault.isVaultRef value.toText = true) :
    plainText value = none := by
  unfold plainText
  rw [if_pos (.inr h)]

theorem vaultRefAt_eq (doc : Object) (keyPath : String) : vaultRefAt doc keyPath =
    (getByPath doc keyPath).bind fun value =>
      if Vault.isVaultRef value.toText = true then some value.toText else none := by
  unfold vaultRefAt
  cases getByPath doc keyPath with
  | none => rfl
  | some value =>
      cases value with
      | null => rfl
      | _ => rfl

/-! ### Loops that only compute -/

variable {v w : Vault} {doc doc' : Object} {keyPath : String} {keys : List String}

theorem resolvedKey_eq (h : PathPlaced doc keyPath) :
    resolvedKey v doc keyPath = editedAt (resolveEdit v) doc keyPath := by
  unfold resolvedKey
  rw [vaultRefAt_eq]
  cases hc : getByPath doc keyPath with
  | none => exact (editedAt_none h hc).symm
  | some value =>
      rw [Option.bind_some]
      by_cases href : Vault.isVaultRef value.toText = true
      · rw [if_pos href]
        have hedit : resolveEdit v keyPath value = some (secretValue (v.secretOf value.toText)) :=
          if_pos href
        rw [editedAt_some h hc hedit]
        dsimp only
        cases v.secretOf value.toText with
        | none => rfl
        | some text => rfl
      · rw [if_neg href, editedAt_left h hc (if_neg href)]

/-- **Run.** The resolution of a group's secrets. -/
theorem resolvedYaml_eq {g : ConfigGroup} (henabled : v.enabled = true)
    (hkeys : KeysApart g.sensitiveKeys)
    (hplaced : ∀ keyPath ∈ g.sensitiveKeys, PathPlaced (parseYaml g.yamlContent) keyPath) :
    resolvedYaml v g = edited (resolveEdit v) (parseYaml g.yamlContent) g.sensitiveKeys := by
  have hloop : g.sensitiveKeys.foldl (resolvedKey v) (parseYaml g.yamlContent) =
      edited (resolveEdit v) (parseYaml g.yamlContent) g.sensitiveKeys :=
    foldl_eq_edited hkeys hplaced fun _ _ _ h _ => resolvedKey_eq h
  unfold resolvedYaml
  rw [henabled, Bool.true_and]
  cases hempty : g.sensitiveKeys with
  | nil => rfl
  | cons k ks =>
      rw [hempty] at hloop
      exact hloop

/-- The last part of a path that leads to a place names a place. -/
theorem last_of_read {parts : List String} (hparts : parts ≠ []) :
    ∀ {x c : Value}, places.read x parts = some c → ∃ d key, getIn (some x) parts.dropLast = some d ∧
      parts.getLast? = some key ∧ d.slot key = some c := by
  induction parts with
  | nil => exact absurd rfl hparts
  | cons key keys ih =>
      intro x c h
      obtain ⟨d, hd, hkeys⟩ := Parts.part_of_read h
      cases keys with
      | nil => exact ⟨x, key, rfl, rfl, hd.trans hkeys⟩
      | cons k ks =>
          obtain ⟨e, last, he, hlast, hslot⟩ := ih (List.cons_ne_nil k ks) hkeys
          refine ⟨e, last, ?_, by rw [List.getLast?_cons_cons, hlast], hslot⟩
          show getIn (x.member key) (k :: ks).dropLast = some e
          rw [member_of_slot hd]
          exact he

/-- A place is no length of a list. -/
theorem not_assignsLength {value : Value} (h : PathPlaced doc keyPath)
    (hc : getByPath doc keyPath = some value) : assignsLength doc keyPath = false := by
  obtain ⟨d, key, hd, hlast, hslot⟩ := last_of_read (pathParts_ne_nil keyPath) (h.read.trans hc)
  unfold assignsLength
  rw [hd, hlast]
  cases d with
  | list xs =>
      have hkey : key ≠ "length" := by
        rintro rfl
        obtain ⟨i, hi, -⟩ := slot_list hslot
        rw [arrayIndex?_length] at hi
        cases hi
      simp [hkey]
  | _ => rfl

theorem assignText_placed {value : Value} (h : PathPlaced doc keyPath)
    (hc : getByPath doc keyPath = some value) (text : String) :
    assignText doc keyPath text = .ok (setByPath doc keyPath (.str text)) := by
  unfold assignText
  rw [not_assignsLength h hc]
  rfl

theorem maskKey_eq (h : PathPlaced doc keyPath) :
    maskKey doc keyPath = .ok (editedAt maskEdit doc keyPath) := by
  unfold maskKey
  cases hc : getByPath doc keyPath with
  | none =>
      rw [editedAt_none h hc]
      rfl
  | some value =>
      by_cases hnull : value = .null
      · have hedit : maskEdit keyPath value = none := if_pos hnull
        rw [editedAt_left h hc hedit, hnull]
        rfl
      · have hpresent : present (some value) = true := by
          cases value with
          | null => exact absurd rfl hnull
          | _ => rfl
        have hedit : maskEdit keyPath value = some (.str "***") := if_neg hnull
        rw [if_pos hpresent, assignText_placed h hc, editedAt_some h hc hedit]

/-- **Run.** The masks of a group. -/
theorem maskKeys_eq (hkeys : KeysApart keys) (hplaced : ∀ keyPath ∈ keys, PathPlaced doc keyPath) :
    keys.foldlM maskKey doc = .ok (edited maskEdit doc keys) :=
  foldlM_eq_edited hkeys hplaced fun _ _ _ h _ => maskKey_eq h

theorem unmaskKey_eq {stored : Object} (h : PathPlaced doc keyPath)
    (hstored : getByPath doc keyPath = some (.str "***") → present (getByPath stored keyPath) = true) :
    unmaskKey stored doc keyPath = editedAt (unmaskEdit stored) doc keyPath := by
  unfold unmaskKey
  by_cases hmasked : getByPath doc keyPath = some (.str "***")
  · rw [if_pos hmasked]
    have hpresent := hstored hmasked
    have hedit : unmaskEdit stored keyPath (.str "***") = getByPath stored keyPath := if_pos rfl
    cases hvalue : getByPath stored keyPath with
    | none =>
        rw [hvalue] at hpresent
        cases hpresent
    | some value =>
        rw [hvalue] at hpresent hedit
        rw [editedAt_some h hmasked hedit]
        cases value with
        | null => cases hpresent
        | _ => rfl
  · rw [if_neg hmasked]
    cases hc : getByPath doc keyPath with
    | none => exact (editedAt_none h hc).symm
    | some value =>
        have hne : value ≠ .str "***" := by
          rintro rfl
          exact hmasked hc
        exact (editedAt_left h hc (if_neg hne)).symm

/-- **Run.** The unmasking of a submitted document. -/
theorem unmaskKeys_eq {stored : Object} (hkeys : KeysApart keys)
    (hplaced : ∀ keyPath ∈ keys, PathPlaced doc keyPath)
    (hstored : ∀ keyPath ∈ keys, getByPath doc keyPath = some (.str "***") →
      present (getByPath stored keyPath) = true) :
    keys.foldl (unmaskKey stored) doc = edited (unmaskEdit stored) doc keys :=
  foldl_eq_edited hkeys hplaced fun keyPath hmem _ h hsame =>
    unmaskKey_eq h fun hmasked => hstored keyPath hmem (hsame ▸ hmasked)

/-! ### Loops that write to Vault -/

/-- Key paths that do not lead through one another, with secrets of different names that can be read
back. -/
structure Separate (keys : List String) : Prop where
  apart : KeysApart keys
  names : keys.Pairwise fun k k' => ¬ Aliased k k'
  readable : ∀ k ∈ keys, '/' ∉ k.toList

theorem Separate.tail {k : String} (h : Separate (k :: keys)) : Separate keys :=
  ⟨(List.pairwise_cons.mp h.apart).2, (List.pairwise_cons.mp h.names).2,
    fun j hj => h.readable j (List.mem_cons_of_mem k hj)⟩

theorem Separate.head {k j : String} (h : Separate (k :: keys)) (hj : j ∈ keys) :
    Parts.Apart (pathParts k) (pathParts j) ∧ ¬ Aliased k j :=
  ⟨(List.pairwise_cons.mp h.apart).1 j hj, (List.pairwise_cons.mp h.names).1 j hj⟩

theorem Separate.not_mem {k : String} (h : Separate (k :: keys)) : k ∉ keys :=
  fun hk => (h.head hk).1.1 (List.prefix_refl _)

/-- Secrets of one group with one path have names that are alike. -/
theorem aliased_of_secretPath {mountPath : String} {groupId : ℕ} {k k' : String}
    (h : secretPath mountPath groupId k = secretPath mountPath groupId k') : Aliased k k' := by
  unfold secretPath at h
  rw [← String.toList_inj, toList_dataPath, toList_dataPath] at h
  have hname := List.append_cancel_left (List.cons.inj (List.append_cancel_left h)).2
  exact (configVaultKeySecretName_eq_iff.mp (String.toList_inj.mp hname)).2

/-- From `db`, the secrets of some key paths were stored with the texts, and the document refers to
them. -/
structure Wrote (groupId : ℕ) (texts : String → Option String) (doc : Object) (keys : List String)
    (db : ConfigDb) (doc' : Object) (db' : ConfigDb) : Prop where
  document : doc' = edited (refEdit db.vault.mountPath groupId texts) doc keys
  rest : db' = { db with vault := db'.vault }
  enabled : db'.vault.enabled = db.vault.enabled
  mount : db'.vault.mountPath = db.vault.mountPath
  others : ∀ p f, (∀ k ∈ keys, p ≠ secretPath db.vault.mountPath groupId k) →
    db'.vault.valueAt p f = db.vault.valueAt p f
  there : ∀ k ∈ keys, ∀ text, texts k = some text →
    db'.vault.valueAt (secretPath db.vault.mountPath groupId k) configVaultField = some text

variable {groupId : ℕ} {texts texts' : String → Option String} {db db₁ db' : ConfigDb}
  {doc₁ : Object} {k : String}

theorem Wrote.congr (h : Wrote groupId texts doc keys db doc' db') (hkeys : KeysApart keys)
    (htexts : ∀ k ∈ keys, texts k = texts' k) : Wrote groupId texts' doc keys db doc' db' := by
  refine ⟨?_, h.rest, h.enabled, h.mount, h.others, ?_⟩
  · rw [h.document]
    refine edited_congr hkeys fun k hk c _ => ?_
    unfold refEdit
    rw [htexts k hk]
  · exact fun k hk text htext => h.there k hk text ((htexts k hk).trans htext)

/-- Nothing is written for a key. -/
theorem Wrote.nothing (doc : Object) (k : String) (db : ConfigDb) (faults : List (Option String)) :
    Wrote groupId (fun _ => none) doc [k] db doc
      { db with vault := { db.vault with faults := faults } } where
  document := by
    show doc = editedAt (refEdit db.vault.mountPath groupId fun _ => none) doc k
    unfold editedAt
    cases hc : places.read (.map doc) (pathParts k) with
    | none =>
        rw [Parts.editAt_none hc]
        rfl
    | some c =>
        rw [Parts.editAt_left hc rfl]
        rfl
  rest := rfl
  enabled := rfl
  mount := rfl
  others := fun _ _ _ => rfl
  there := fun _ _ _ htext => by cases htext

/-- A secret is stored for a key. -/
theorem Wrote.one {value : Value} (h : PathPlaced doc k) (hc : getByPath doc k = some value)
    (db : ConfigDb) (faults : List (Option String)) (text : String) :
    Wrote groupId (fun _ => some text) doc [k] db
      (setByPath doc k (.str (secretRef db.vault.mountPath groupId k)))
      { db with vault := (Vault.put { db.vault with faults := faults }
          (secretPath db.vault.mountPath groupId k) configVaultField text) } where
  document := by
    show _ = editedAt (refEdit db.vault.mountPath groupId fun _ => some text) doc k
    rw [editedAt_some h hc rfl]
  rest := rfl
  enabled := rfl
  mount := rfl
  others := by
    intro p f hp
    rw [Vault.valueAt_put, if_neg fun hsame => hp k (List.mem_singleton_self k) hsame.1]
    rfl
  there := by
    intro j hj t ht
    obtain rfl := List.mem_singleton.mp hj
    obtain rfl := Option.some.inj ht
    rw [Vault.valueAt_put, if_pos ⟨rfl, rfl⟩]

/-- The writes for one key and then for the others. -/
theorem Wrote.cons (hkeys : Separate (k :: keys)) (h₁ : Wrote groupId texts doc [k] db doc₁ db₁)
    (h : Wrote groupId texts doc₁ keys db₁ doc' db') :
    Wrote groupId texts doc (k :: keys) db doc' db' := by
  have hother : ∀ j ∈ keys, secretPath db.vault.mountPath groupId k ≠
      secretPath db.vault.mountPath groupId j :=
    fun j hj heq => (hkeys.head hj).2 (aliased_of_secretPath heq)
  refine ⟨?_, ?_, h.enabled.trans h₁.enabled, h.mount.trans h₁.mount, ?_, ?_⟩
  · rw [h.document, h₁.document, h₁.mount]
    rfl
  · rw [h.rest, h₁.rest]
  · intro p f hp
    rw [h.others p f fun j hj => h₁.mount ▸ hp j (List.mem_cons_of_mem k hj)]
    exact h₁.others p f fun j hj => hp j (List.mem_singleton.mp hj ▸ List.mem_cons_self)
  · intro j hj text htext
    rcases List.mem_cons.mp hj with rfl | hj
    · rw [h.others _ _ fun i hi => h₁.mount ▸ hother i hi]
      exact h₁.there j (List.mem_singleton_self j) text htext
    · rw [← h₁.mount]
      exact h.there j hj text htext

/-- Two stores of secrets agree, up to the secrets that a group has for some key paths. -/
def SameBut (groupId : ℕ) (keys : List String) (v w : Vault) : Prop :=
  ∀ p f, (∀ k ∈ keys, p ≠ secretPath v.mountPath groupId k) → w.valueAt p f = v.valueAt p f

/-- **Run.** A loop over the keys writes what its rounds write. `T` is what a round knows of the
text that it stores for a value, from the Vault that it meets. -/
theorem foldEach_wrote (groupId : ℕ) {step : Object → String → ConfigProg Object}
    {E : Exception → ConfigDb → Prop} {T : Vault → Option Value → Option String → Prop} (hkeys : Separate keys)
    (hstep : ∀ k ∈ keys, ∀ doc db, db.vault.enabled = true → PathPlaced doc k →
      Meets (fun s => s = db) (step doc k) (fun doc' db' => ∃ text,
        T db.vault (getByPath doc k) text ∧
          Wrote groupId (fun _ => text) doc [k] db doc' db') E)
    (henabled : db.vault.enabled = true) (hplaced : ∀ k ∈ keys, PathPlaced doc k) :
    Meets (fun s => s = db) (Prog.foldEach step doc keys) (fun doc' db' => ∃ texts,
      (∀ k ∈ keys, ∃ w, SameBut groupId keys db.vault w ∧ T w (getByPath doc k) (texts k)) ∧
        Wrote groupId texts doc keys db doc' db') E := by
  induction keys generalizing doc db with
  | nil =>
      rintro s rfl
      exact ⟨fun _ => none, fun k hk => absurd hk List.not_mem_nil, rfl, rfl, rfl, rfl,
        fun _ _ _ => rfl, fun k hk => absurd hk List.not_mem_nil⟩
  | cons k keys ih =>
      have hplacedk := hplaced k List.mem_cons_self
      refine Meets.bind (hstep k List.mem_cons_self doc db henabled hplacedk) fun doc₁ => ?_
      rintro db₁ ⟨text, htext, hwrote⟩
      have hsame : ∀ j ∈ keys, getByPath doc₁ j = getByPath doc j := by
        intro j hj
        rw [hwrote.document]
        exact getByPath_editedAt (hkeys.head hj).1
      have hplaced₁ : ∀ j ∈ keys, PathPlaced doc₁ j := by
        intro j hj
        rw [hwrote.document]
        exact (hplaced j (List.mem_cons_of_mem k hj)).editedAt (hkeys.head hj).1
      have hrest := ih hkeys.tail (fun j hj => hstep j (List.mem_cons_of_mem k hj))
        (hwrote.enabled.trans henabled) hplaced₁
      refine hrest.consequence (fun _ h => h) ?_ (fun _ _ h => h) db₁ rfl
      rintro doc' db' ⟨texts, htexts, hwrites⟩
      -- the function of the texts of all keys
      have hhead : (fun j => if j = k then text else texts j) k = text := if_pos rfl
      have htail : ∀ j ∈ keys, texts j = (fun j => if j = k then text else texts j) j :=
        fun j hj => (if_neg fun heq : j = k => hkeys.not_mem (heq ▸ hj)).symm
      refine ⟨fun j => if j = k then text else texts j, ?_, ?_⟩
      · intro j hj
        rcases List.mem_cons.mp hj with rfl | hj
        · exact ⟨db.vault, fun _ _ _ => rfl, hhead.symm ▸ htext⟩
        · obtain ⟨w, hw, hT⟩ := htexts j hj
          refine ⟨w, ?_, by rw [← htail j hj, ← hsame j hj]; exact hT⟩
          intro p f hp
          rw [hw p f fun i hi => hwrote.mount ▸ hp i (List.mem_cons_of_mem k hi)]
          exact hwrote.others p f fun i hi => hp i (List.mem_singleton.mp hi ▸ List.mem_cons_self)
      · refine Wrote.cons hkeys (hwrote.congr (List.pairwise_singleton _ _) ?_)
          (hwrites.congr hkeys.tail.apart htail)
        intro j hj
        obtain rfl := List.mem_singleton.mp hj
        exact hhead.symm

/-! ### Stores and copies -/

/-- What is no plain text is left where it is. -/
theorem storeKey_idle (h : (getByPath doc k).bind plainText = none) :
    storeKey groupId doc k = pure doc := by
  unfold storeKey
  split
  · rfl
  · rfl
  · rename_i value hnull hc
    rw [hc, Option.bind_some] at h
    unfold plainText at h
    split at h
    · rename_i hor
      rw [if_pos (hor.resolve_left hnull)]
    · cases h

theorem storeKey_plain {value : Value} {text : String} (hc : getByPath doc k = some value)
    (h : plainText value = some text) : storeKey groupId doc k =
      vaultCall (Vault.storeSecret (configVaultKeySecretName groupId k) configVaultField text) >>=
        fun ref => Prog.ofExcept (assignText doc k ref) := by
  unfold plainText at h
  split at h
  · cases h
  · rename_i hnot
    obtain ⟨hnull, href⟩ := not_or.mp hnot
    obtain rfl := Option.some.inj h
    unfold storeKey
    rw [hc]
    split
    · rename_i hnone
      cases hnone
    · rename_i hsome
      exact absurd (Option.some.inj hsome) hnull
    · rename_i hsome
      rw [← Option.some.inj hsome, if_neg href]

/-- **Step.** A plain value is stored; a store that fails ends the loop. -/
theorem storeKey_wrote (henabled : db.vault.enabled = true) (h : PathPlaced doc k) :
    Meets (fun s => s = db) (storeKey groupId doc k) (fun doc' db' => ∃ text,
      text = (getByPath doc k).bind plainText ∧
        Wrote groupId (fun _ => text) doc [k] db doc' db') fun _ _ => True := by
  rintro s rfl
  cases htext : (getByPath doc k).bind plainText with
  | none =>
      rw [storeKey_idle htext]
      exact ⟨none, rfl, Wrote.nothing doc k s s.vault.faults⟩
  | some text =>
      obtain ⟨value, hc, hplain⟩ := Option.bind_eq_some_iff.mp htext
      rw [storeKey_plain hc hplain]
      obtain ⟨faults, ⟨e, hrun⟩ | hrun⟩ := Vault.storeSecret_outcome henabled
        (configVaultKeySecretName_ne_empty groupId k) configVaultField text
      · rw [bind_run_error (vaultCall_run hrun)]
        trivial
      · rw [bind_run_ok (vaultCall_run hrun), assignText_placed h hc]
        exact ⟨some text, rfl, Wrote.one h hc s faults text⟩

/-- What the copy of a secret knows of its text: the value that stands there resolves to it. -/
def Resolves (v : Vault) (value : Option Value) (text : Option String) : Prop :=
  ∀ t, text = some t → ∃ c, value = some c ∧ Vault.isVaultRef c.toText = true ∧
    v.secretOf c.toText = some t

/-- **Step.** A secret is copied; where a request fails the reference stays. -/
theorem cloneKey_wrote (henabled : db.vault.enabled = true) (h : PathPlaced doc k) :
    Meets (fun s => s = db) (cloneKey groupId doc k) (fun doc' db' => ∃ text,
      Resolves db.vault (getByPath doc k) text ∧
        Wrote groupId (fun _ => text) doc [k] db doc' db') fun _ _ => False := by
  have hnone : Resolves db.vault (getByPath doc k) none := fun _ ht => by cases ht
  have hleft : ∀ faults, Wrote groupId (fun _ => none) doc [k] db doc
      { db with vault := { db.vault with faults := faults } } := Wrote.nothing doc k db
  unfold cloneKey
  rw [vaultRefAt_eq]
  cases hc : getByPath doc k with
  | none =>
      rintro s rfl
      exact ⟨none, hc ▸ hnone, hleft s.vault.faults⟩
  | some value =>
      rw [hc] at hnone
      rw [Option.bind_some]
      by_cases href : Vault.isVaultRef value.toText = true
      · rw [if_pos href]
        refine Meets.tryCatch (R := fun _ db' => ∃ faults,
          db' = { db with vault := { db.vault with faults := faults } }) ?_ fun _ => ?_
        · rintro s rfl
          rcases resolveSecret_reads henabled href with ⟨e, hrun⟩ | hrun
          · rw [bind_run_error hrun]
            exact ⟨_, rfl⟩
          rw [bind_run_ok hrun]
          cases hsecret : s.vault.secretOf value.toText with
          | none => exact ⟨none, hnone, hleft _⟩
          | some text =>
              have henabled₁ : (s.spend 1).vault.enabled = true := henabled
              obtain ⟨faults, ⟨e, hstore⟩ | hstore⟩ := Vault.storeSecret_outcome henabled₁
                (configVaultKeySecretName_ne_empty groupId k) configVaultField text
              · dsimp only
                rw [bind_run_error (vaultCall_run hstore)]
                exact ⟨faults, rfl⟩
              · dsimp only
                rw [bind_run_ok (vaultCall_run hstore)]
                refine ⟨some text, ?_, Wrote.one h hc s faults text⟩
                intro t ht
                exact ⟨value, rfl, href, ht ▸ hsecret⟩
        · rintro s ⟨faults, rfl⟩
          exact ⟨none, hnone, hleft faults⟩
      · rw [if_neg href]
        rintro s rfl
        exact ⟨none, hnone, hleft s.vault.faults⟩

/-- **Run.** The plain values of a document are stored. -/
theorem storeKeys_wrote (hkeys : Separate keys) (henabled : db.vault.enabled = true)
    (hplaced : ∀ k ∈ keys, PathPlaced doc k)
    (h : Prog.foldEach (storeKey groupId) doc keys db = (.ok doc', db')) :
    Wrote groupId (fun k => (getByPath doc k).bind plainText) doc keys db doc' db' := by
  have hloop := foldEach_wrote groupId
    (T := fun _ value text => text = value.bind plainText) hkeys
    (fun _ _ _ _ henabled hplaced => storeKey_wrote henabled hplaced) henabled hplaced db rfl
  rw [h] at hloop
  obtain ⟨texts, htexts, hwrote⟩ := hloop
  refine hwrote.congr hkeys.apart fun k hk => ?_
  obtain ⟨-, -, htext⟩ := htexts k hk
  exact htext

/-- **Run.** The secrets of a document are copied, some of them where requests fail. -/
theorem cloneKeys_wrote (groupId : ℕ) (hkeys : Separate keys) (henabled : db.vault.enabled = true)
    (hplaced : ∀ k ∈ keys, PathPlaced doc k) :
    ∃ doc' db' texts, Prog.foldEach (cloneKey groupId) doc keys db = (.ok doc', db') ∧
      (∀ k ∈ keys, ∃ w, SameBut groupId keys db.vault w ∧
        Resolves w (getByPath doc k) (texts k)) ∧
      Wrote groupId texts doc keys db doc' db' := by
  have hloop := foldEach_wrote groupId (T := Resolves) hkeys
    (fun _ _ _ _ henabled hplaced => cloneKey_wrote henabled hplaced) henabled hplaced db rfl
  rcases hrun : Prog.foldEach (cloneKey groupId) doc keys db with ⟨r, db'⟩
  rw [hrun] at hloop
  cases r with
  | ok doc' =>
      obtain ⟨texts, htexts, hwrote⟩ := hloop
      exact ⟨doc', db', texts, rfl, htexts, hwrote⟩
  | error e => exact hloop.elim

/-- A key whose secret was written resolves to the text. -/
def textEdit (texts : String → Option String) (v : Vault) (keyPath : String) (value : Value) :
    Option Value :=
  match texts keyPath with
  | some text => some (.str text)
  | none => resolveEdit v keyPath value

/-- **Run.** What a written document resolves to. -/
theorem Wrote.resolved (h : Wrote groupId texts doc keys db doc' db') (hkeys : Separate keys)
    (henabled : db.vault.enabled = true) (hplaced : ∀ k ∈ keys, PathPlaced doc k) {row : ConfigGroup}
    (hrow : row.sensitiveKeys = keys) (hyaml : parseYaml row.yamlContent = doc') :
    resolvedYaml db'.vault row = edited (textEdit texts db'.vault) doc keys := by
  have hplaced' : ∀ k ∈ keys, PathPlaced doc' k := by
    rw [h.document]
    exact edited_placed hkeys.apart hplaced
  rw [resolvedYaml_eq (h.enabled.trans henabled) (hrow ▸ hkeys.apart) (hrow ▸ hyaml ▸ hplaced'), hrow,
    hyaml, h.document, edited_edited hkeys.apart]
  refine edited_congr hkeys.apart fun k hk value _ => ?_
  unfold Parts.andThen refEdit textEdit
  cases htext : texts k with
  | none => rfl
  | some text =>
      have href := isVaultRef_secretRef db.vault.mountPath groupId k
      have hsecret : db'.vault.secretOf (secretRef db.vault.mountPath groupId k) = some text := by
        rw [Vault.secretOf_eq, refPath_secretRef (hkeys.readable k hk),
          parseVaultRef_secretRef (hkeys.readable k hk)]
        exact h.there k hk text htext
      have hedit : resolveEdit db'.vault k (.str (secretRef db.vault.mountPath groupId k)) =
          some (.str text) := by
        unfold resolveEdit
        show (if Vault.isVaultRef (secretRef db.vault.mountPath groupId k) = true then
          some (secretValue (db'.vault.secretOf (secretRef db.vault.mountPath groupId k))) else none) = _
        rw [if_pos href, hsecret]
        rfl
      rw [Option.map_some]
      dsimp only
      rw [hedit, Option.getD_some]

end ConfigService

end UploadService
