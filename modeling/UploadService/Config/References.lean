import Mathlib.Data.List.TakeWhile
import UploadService.Config.Groups

/-!
# Vault references of config groups

A config group keeps the secret of a key path under a name that carries the group's key, and
its document holds a reference to that name. References are read back by splitting texts at
the last `#` and the last `/`, so a text may be split elsewhere than where it was joined: a
key path may hold either character, and an array of texts is read as one joined text.

Main results, for any mount path:

- `refPath_ne_secretPath`: whatever a text that starts with a reference of one group is split
  into, it is never read as a secret of another group;
- `refPath_secretRef`: a reference to a key path without `/` is read back as the secret it was
  made for.
-/

namespace UploadService

namespace Vault

/-- The data path that a reference is read from. -/
def refPath (ref : String) : String :=
  dataPath (parseVaultRef ref).mountPath (parseVaultRef ref).secretId

/-! ### Splitting at the last separator -/

theorem dropWhile_reverse_of_mem {c : Char} {s : List Char} (b : List Char) (hc : c ∈ s) :
    (s.reverse ++ b).dropWhile (· ≠ c) = s.reverse.dropWhile (· ≠ c) ++ b := by
  have hne : (s.reverse.dropWhile (· ≠ c)).isEmpty = false := by
    cases hd : s.reverse.dropWhile (· ≠ c) with
    | cons x xs => rfl
    | nil =>
        have hall := List.dropWhile_eq_nil_iff.mp hd c (List.mem_reverse.mpr hc)
        simp at hall
  rw [List.dropWhile_append, hne]
  rfl

theorem afterLast_cons {c : Char} (a : List Char) {b : List Char} (hc : c ∉ b) :
    afterLast c (a ++ c :: b) = b := by
  have hall : ∀ x ∈ b.reverse, decide (x ≠ c) = true := by
    intro x hx
    have hne : x ≠ c := fun h => hc (h ▸ List.mem_reverse.mp hx)
    simpa using hne
  unfold afterLast
  rw [List.reverse_append, List.reverse_cons, List.append_assoc, List.takeWhile_append_of_pos hall]
  simp

theorem beforeLast_append {c : Char} (a : List Char) {b : List Char} (hc : c ∈ b) :
    beforeLast c (a ++ b) = a ++ beforeLast c b := by
  have hne : b.reverse.dropWhile (· ≠ c) ≠ [] := by
    intro hd
    have hall := List.dropWhile_eq_nil_iff.mp hd c (List.mem_reverse.mpr hc)
    simp at hall
  obtain ⟨x, xs, hx⟩ := List.exists_cons_of_ne_nil hne
  unfold beforeLast
  rw [if_pos (List.mem_append_right a hc), if_pos hc, List.reverse_append,
    dropWhile_reverse_of_mem _ hc, hx]
  simp

theorem beforeLast_cons {c : Char} (a : List Char) {b : List Char} (hc : c ∉ b) :
    beforeLast c (a ++ c :: b) = a := by
  have hall : ∀ x ∈ b.reverse, decide (x ≠ c) = true := by
    intro x hx
    have hne : x ≠ c := fun h => hc (h ▸ List.mem_reverse.mp hx)
    simpa using hne
  unfold beforeLast
  rw [if_pos (by simp), List.reverse_append, List.reverse_cons, List.append_assoc,
    List.dropWhile_append_of_pos hall]
  simp

/-- The text before the last separator starts with all that stands before one of them. -/
theorem beforeLast_prefix {c : Char} (a b : List Char) :
    ∃ x, beforeLast c (a ++ c :: b) = a ++ x := by
  by_cases hc : c ∈ b
  · refine ⟨c :: beforeLast c b, ?_⟩
    rw [List.append_cons, beforeLast_append (a ++ [c]) hc, ← List.append_cons]
  · exact ⟨[], by rw [beforeLast_cons a hc, List.append_nil]⟩

end Vault

namespace ConfigService

/-! ### The names of a group's secrets -/

/-- The part of a secret's name that all secrets of a group share. -/
def namePrefix (groupId : ℕ) : List Char :=
  "config-group-".toList ++ (Nat.toDigits 10 groupId ++ "-key-".toList)

theorem namePrefix_eq (groupId : ℕ) : ∃ rest, namePrefix groupId = 'c' :: rest := ⟨_, rfl⟩

/-- The data path of a group's secret for a key path. -/
def secretPath (mountPath : String) (groupId : ℕ) (keyPath : String) : String :=
  Vault.dataPath mountPath (configVaultKeySecretName groupId keyPath)

/-- The reference to a group's secret for a key path. -/
def secretRef (mountPath : String) (groupId : ℕ) (keyPath : String) : String :=
  Vault.makeRef mountPath (configVaultKeySecretName groupId keyPath) configVaultField

theorem toList_configVaultKeySecretName (groupId : ℕ) (keyPath : String) :
    (configVaultKeySecretName groupId keyPath).toList =
      namePrefix groupId ++ (underscored keyPath).toList := by
  have hname : configVaultKeySecretName groupId keyPath =
      "config-group-" ++ toString groupId ++ "-key-" ++ underscored keyPath := rfl
  have hdigits : (toString groupId).toList = Nat.toDigits 10 groupId := Nat.toList_repr
  rw [hname]
  unfold namePrefix
  simp only [String.toList_append, hdigits, List.append_assoc]

theorem configVaultKeySecretName_ne_empty (groupId : ℕ) (keyPath : String) :
    configVaultKeySecretName groupId keyPath ≠ "" := by
  obtain ⟨rest, hstarts⟩ := namePrefix_eq groupId
  intro h
  have hlist := toList_configVaultKeySecretName groupId keyPath
  rw [h, String.toList_empty, hstarts, List.cons_append] at hlist
  cases hlist

/-- A digit is neither of the separators. -/
theorem not_mem_toDigits {c : Char} (hc : c.isDigit = false) (n : ℕ) : c ∉ Nat.toDigits 10 n := by
  intro h
  rw [Nat.isDigit_of_mem_toDigits (by omega) (by omega) h] at hc
  cases hc

theorem slash_not_mem_namePrefix (groupId : ℕ) : '/' ∉ namePrefix groupId := by
  unfold namePrefix
  rw [List.mem_append, List.mem_append, not_or, not_or]
  exact ⟨by decide, not_mem_toDigits (by decide) groupId, by decide⟩

/-- The names of different groups' secrets differ. -/
theorem namePrefix_inj {i j : ℕ} {x y : List Char}
    (h : namePrefix i ++ x = namePrefix j ++ y) : i = j := by
  have htake : ∀ n (z : List Char), (Nat.toDigits 10 n ++ ("-key-".toList ++ z)).takeWhile (· ≠ '-') =
      Nat.toDigits 10 n := by
    intro n z
    have hall : ∀ c ∈ Nat.toDigits 10 n, decide (c ≠ '-') = true := by
      intro c hc
      have hne : c ≠ '-' := fun hdash => not_mem_toDigits (by decide) n (hdash ▸ hc)
      simpa using hne
    rw [List.takeWhile_append_of_pos hall]
    simp
  unfold namePrefix at h
  rw [List.append_assoc, List.append_assoc, List.append_assoc, List.append_assoc] at h
  have hdigits : Nat.toDigits 10 i = Nat.toDigits 10 j := by
    rw [← htake i x, ← htake j y, List.append_cancel_left h]
  rw [← @Nat.ofDigitChars_ten_toDigits i, hdigits, Nat.ofDigitChars_ten_toDigits]

/-! ### Reading a reference back -/

theorem toList_secretRef (mountPath : String) (groupId : ℕ) (keyPath : String) :
    (secretRef mountPath groupId keyPath).toList = Vault.refPrefix.toList ++
      (mountPath.toList ++ '/' :: (namePrefix groupId ++ (underscored keyPath).toList ++
        '#' :: configVaultField.toList)) := by
  have hslash : "/".toList = ['/'] := rfl
  have hhash : "#".toList = ['#'] := rfl
  unfold secretRef Vault.makeRef
  simp only [String.toList_append, toList_configVaultKeySecretName, List.append_assoc, hslash, hhash,
    List.cons_append, List.nil_append]

theorem isVaultRef_secretRef (mountPath : String) (groupId : ℕ) (keyPath : String) :
    Vault.isVaultRef (secretRef mountPath groupId keyPath) = true := by
  unfold Vault.isVaultRef
  rw [List.isPrefixOf_iff_prefix, toList_secretRef]
  exact List.prefix_append _ _

theorem toList_dataPath (mountPath name : String) :
    (Vault.dataPath mountPath name).toList =
      mountPath.toList ++ '/' :: ("data/".toList ++ name.toList) := by
  have hdata : "/data/".toList = '/' :: "data/".toList := rfl
  unfold Vault.dataPath
  simp only [String.toList_append, hdata, List.append_assoc, List.cons_append]

/-- The path part of a text that starts with a reference of a group. -/
theorem pathPart_of_prefix {mountPath text : String} {groupId : ℕ} {keyPath : String}
    (h : (secretRef mountPath groupId keyPath).toList <+: text.toList) :
    ∃ rest, Vault.beforeLast '#' (text.toList.drop Vault.refPrefix.length) =
      mountPath.toList ++ '/' :: (namePrefix groupId ++ rest) := by
  obtain ⟨tail, htext⟩ := h
  rw [toList_secretRef] at htext
  have hdrop : text.toList.drop Vault.refPrefix.length =
      (mountPath.toList ++ '/' :: (namePrefix groupId ++ (underscored keyPath).toList)) ++
        '#' :: (configVaultField.toList ++ tail) := by
    rw [← htext, List.append_assoc, show Vault.refPrefix.length = Vault.refPrefix.toList.length from rfl,
      List.drop_left]
    simp only [List.append_assoc, List.cons_append]
  obtain ⟨x, hx⟩ := @Vault.beforeLast_prefix '#'
    (mountPath.toList ++ '/' :: (namePrefix groupId ++ (underscored keyPath).toList))
    (configVaultField.toList ++ tail)
  refine ⟨(underscored keyPath).toList ++ x, ?_⟩
  rw [hdrop, hx]
  simp only [List.append_assoc, List.cons_append]

/-- A text whose path part has a `/` behind the group's name prefix is read from a path that holds
no secret: the path goes on where a data path has `data/`. -/
theorem refPath_ne_of_slash {mountPath text : String} {groupId : ℕ} {rest : List Char}
    (hpart : Vault.beforeLast '#' (text.toList.drop Vault.refPrefix.length) =
      mountPath.toList ++ '/' :: (namePrefix groupId ++ rest)) (hslash : '/' ∈ rest)
    (groupId' : ℕ) (keyPath' : String) :
    Vault.refPath text ≠ secretPath mountPath groupId' keyPath' := by
  intro heq
  have hlist : (Vault.refPath text).toList = (secretPath mountPath groupId' keyPath').toList := by
    rw [heq]
  unfold Vault.refPath secretPath at hlist
  rw [toList_dataPath, toList_dataPath] at hlist
  have hmount : (Vault.parseVaultRef text).mountPath.toList =
      Vault.beforeLast '/' (mountPath.toList ++ '/' :: (namePrefix groupId ++ rest)) := by
    rw [← hpart]
    exact String.toList_ofList
  have hmem : '/' ∈ namePrefix groupId ++ rest := List.mem_append_right _ hslash
  rw [hmount, List.append_cons mountPath.toList, Vault.beforeLast_append _ hmem,
    Vault.beforeLast_append (namePrefix groupId) hslash] at hlist
  simp only [List.append_assoc, List.cons_append, List.nil_append] at hlist
  have hcancel := (List.cons.inj (List.append_cancel_left hlist)).2
  obtain ⟨x, hstarts⟩ := namePrefix_eq groupId
  rw [hstarts, List.cons_append] at hcancel
  exact absurd (List.cons.inj hcancel).1 (by decide)

/-- **Main result.** A text that starts with a reference of one group is read from a path that
holds no secret of another group. -/
theorem refPath_ne_secretPath {mountPath text : String} {i j : ℕ} {keyPath : String}
    (h : (secretRef mountPath i keyPath).toList <+: text.toList) (hij : i ≠ j) (keyPath' : String) :
    Vault.refPath text ≠ secretPath mountPath j keyPath' := by
  obtain ⟨rest, hpart⟩ := pathPart_of_prefix h
  by_cases hslash : '/' ∈ rest
  · exact refPath_ne_of_slash hpart hslash j keyPath'
  intro heq
  have hlist : (Vault.refPath text).toList = (secretPath mountPath j keyPath').toList := by
    rw [heq]
  unfold Vault.refPath secretPath at hlist
  rw [toList_dataPath, toList_dataPath, toList_configVaultKeySecretName] at hlist
  have hmount : (Vault.parseVaultRef text).mountPath.toList =
      Vault.beforeLast '/' (mountPath.toList ++ '/' :: (namePrefix i ++ rest)) := by
    rw [← hpart]
    exact String.toList_ofList
  have hid : (Vault.parseVaultRef text).secretId.toList =
      Vault.afterLast '/' (mountPath.toList ++ '/' :: (namePrefix i ++ rest)) := by
    rw [← hpart]
    exact String.toList_ofList
  have hnot : '/' ∉ namePrefix i ++ rest := by
    rw [List.mem_append, not_or]
    exact ⟨slash_not_mem_namePrefix i, hslash⟩
  rw [hmount, hid, Vault.beforeLast_cons _ hnot, Vault.afterLast_cons _ hnot] at hlist
  have hcancel := List.append_cancel_left hlist
  rw [List.cons.injEq] at hcancel
  exact hij (namePrefix_inj (List.append_cancel_left hcancel.2))

/-- The parts of a reference in front of its field. -/
theorem beforeLast_secretRef (mountPath : String) (groupId : ℕ) (keyPath : String) :
    (secretRef mountPath groupId keyPath).toList.drop Vault.refPrefix.length =
        (mountPath.toList ++ '/' :: (configVaultKeySecretName groupId keyPath).toList) ++
          '#' :: configVaultField.toList ∧
      Vault.beforeLast '#' ((secretRef mountPath groupId keyPath).toList.drop Vault.refPrefix.length) =
        mountPath.toList ++ '/' :: (configVaultKeySecretName groupId keyPath).toList := by
  have hfield : '#' ∉ configVaultField.toList := by decide
  have hdrop : (secretRef mountPath groupId keyPath).toList.drop Vault.refPrefix.length =
      (mountPath.toList ++ '/' :: (configVaultKeySecretName groupId keyPath).toList) ++
        '#' :: configVaultField.toList := by
    rw [toList_secretRef, show Vault.refPrefix.length = Vault.refPrefix.toList.length from rfl,
      List.drop_left, toList_configVaultKeySecretName]
    simp only [List.append_assoc, List.cons_append]
  refine ⟨hdrop, ?_⟩
  rw [hdrop, Vault.beforeLast_cons _ hfield]

/-- The name of a secret holds a `/` where its key path does. -/
theorem slash_mem_name_iff {groupId : ℕ} {keyPath : String} :
    '/' ∈ (configVaultKeySecretName groupId keyPath).toList ↔ '/' ∈ keyPath.toList := by
  rw [toList_configVaultKeySecretName, List.mem_append]
  unfold underscored
  rw [String.toList_ofList, List.mem_flatMap]
  constructor
  · rintro (hslash | ⟨c, hc, hmem⟩)
    · exact absurd hslash (slash_not_mem_namePrefix groupId)
    · by_cases hdot : c = '.'
      · rw [if_pos hdot] at hmem
        exact absurd hmem (by decide)
      · rw [if_neg hdot, List.mem_singleton] at hmem
        exact hmem ▸ hc
  · exact fun h => .inr ⟨'/', h, by decide⟩

/-- The reference to a key path without `/` is read from the secret it was made for. -/
theorem parseVaultRef_secretRef {mountPath : String} {groupId : ℕ} {keyPath : String}
    (hslash : '/' ∉ keyPath.toList) :
    Vault.parseVaultRef (secretRef mountPath groupId keyPath) =
      ⟨mountPath, configVaultKeySecretName groupId keyPath, configVaultField⟩ := by
  have hname : '/' ∉ (configVaultKeySecretName groupId keyPath).toList :=
    fun h => hslash (slash_mem_name_iff.mp h)
  have hfield : '#' ∉ configVaultField.toList := by decide
  obtain ⟨hdrop, hpart⟩ := beforeLast_secretRef mountPath groupId keyPath
  unfold Vault.parseVaultRef
  dsimp only
  rw [hpart, hdrop, Vault.afterLast_cons _ hfield, Vault.beforeLast_cons _ hname,
    Vault.afterLast_cons _ hname]
  simp only [String.ofList_toList]

theorem refPath_secretRef {mountPath : String} {groupId : ℕ} {keyPath : String}
    (hslash : '/' ∉ keyPath.toList) :
    Vault.refPath (secretRef mountPath groupId keyPath) = secretPath mountPath groupId keyPath := by
  unfold Vault.refPath secretPath
  rw [parseVaultRef_secretRef hslash]

end ConfigService

end UploadService
