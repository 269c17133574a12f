import UploadService.Lib.Version
import UploadService.Release.Files

/-!
# Object keys of release files

A file of a release is stored under a key that joins the project, the version and the name of the
artifact with slashes. `createFileUploadUrl` upserts on that key. Versions and names may have
slashes of their own.

Main result: `keptApart_iff`, two requests have keys of their own, and the second leaves the row of
the first, exactly where neither directory goes on into the name of the other.
-/

namespace UploadService

/-- A request for the file of an artifact. -/
structure FileRequest where
  projectId : ℕ
  version : String
  artifactName : String
  deriving DecidableEq, Repr

namespace FileRequest

open FileUploadService

/-- The key under which `setReleaseArtifact` and `importArtifact` store the file. -/
def key (request : FileRequest) : String :=
  createObjectKey "release" s!"{request.projectId}/{request.version}" request.artifactName

/-- The directory of the version below that of the project; it ends with a slash, or is empty. -/
def directory (request : FileRequest) : String :=
  if request.version = "" ∨ request.version.toList.getLast? = some '/' then request.version
  else request.version ++ "/"

/-- The key of one request is the key of the other: the directory of one goes on into the name of
the other. -/
def Overlaps (a b : FileRequest) : Prop :=
  a.projectId = b.projectId ∧
    ((∃ s, b.directory = a.directory ++ s ∧ a.artifactName = s ++ b.artifactName) ∨
      ∃ s, a.directory = b.directory ++ s ∧ b.artifactName = s ++ a.artifactName)

variable {a b : FileRequest}

theorem toList_versionKey (projectId : ℕ) (version : String) :
    (s!"{projectId}/{version}").toList = Nat.toDigits 10 projectId ++ '/' :: version.toList := by
  have hslash : (toString "/").toList = ['/'] := rfl
  have hversion : toString version = version := rfl
  simp [hslash, hversion]

/-- The last character of the key of the version is that of the version, or the slash before an
empty one. -/
theorem endsWithSlash_iff (projectId : ℕ) (version : String) :
    (s!"{projectId}/{version}").toList.getLast? = some '/' ↔
      version = "" ∨ version.toList.getLast? = some '/' := by
  rw [toList_versionKey, List.getLast?_append, List.getLast?_cons]
  by_cases hempty : version = ""
  · subst hempty
    exact ⟨fun _ => .inl rfl, fun _ => rfl⟩
  · have hne : version.toList ≠ [] := fun hnil => hempty (String.toList_eq_nil_iff.mp hnil)
    rw [List.getLast?_eq_some_getLast hne]
    simp [hempty]

theorem toList_joined (userId objectKey suffix fileName : String) :
    (s!"upload/{userId}/{objectKey}{suffix}{fileName}").toList = "upload/".toList ++
      (userId.toList ++ ("/".toList ++ (objectKey.toList ++ (suffix.toList ++ fileName.toList)))) := by
  have htext : ∀ s : String, toString s = s := fun _ => rfl
  simp only [htext, String.toList_append, List.append_assoc]

/-- **Spec.** A key: the project, the directory and the name. -/
theorem toList_key (request : FileRequest) :
    request.key.toList = "upload/release/".toList ++ (Nat.toDigits 10 request.projectId ++ '/' ::
      (request.directory.toList ++ request.artifactName.toList)) := by
  unfold key createObjectKey directory
  dsimp only
  by_cases hslash : request.version = "" ∨ request.version.toList.getLast? = some '/'
  · rw [if_pos hslash, if_pos ((endsWithSlash_iff _ _).mpr hslash), toList_joined, toList_versionKey]
    simp
  · rw [if_neg hslash, if_neg fun h => hslash ((endsWithSlash_iff _ _).mp h), toList_joined,
      toList_versionKey]
    simp

/-- Two texts with the same continuation: one goes on into the continuation of the other. -/
theorem toList_append_inj_iff {x y m n : String} :
    x.toList ++ m.toList = y.toList ++ n.toList ↔
      (∃ s, y = x ++ s ∧ m = s ++ n) ∨ ∃ s, x = y ++ s ∧ n = s ++ m := by
  rw [List.append_eq_append_iff]
  constructor
  · rintro (⟨cs, hy, hm⟩ | ⟨cs, hx, hn⟩)
    · refine .inl ⟨String.ofList cs, String.toList_inj.mp ?_, String.toList_inj.mp ?_⟩
      · rw [String.toList_append, String.toList_ofList, hy]
      · rw [String.toList_append, String.toList_ofList, hm]
    · refine .inr ⟨String.ofList cs, String.toList_inj.mp ?_, String.toList_inj.mp ?_⟩
      · rw [String.toList_append, String.toList_ofList, hx]
      · rw [String.toList_append, String.toList_ofList, hn]
  · rintro (⟨s, rfl, rfl⟩ | ⟨s, rfl, rfl⟩)
    · exact .inl ⟨s.toList, String.toList_append, String.toList_append⟩
    · exact .inr ⟨s.toList, String.toList_append, String.toList_append⟩

/-- Two texts split at the first separator. -/
theorem append_cons_inj_iff {α : Type} {c : α} {x y m n : List α} (hx : c ∉ x) (hy : c ∉ y) :
    x ++ c :: m = y ++ c :: n ↔ x = y ∧ m = n := by
  constructor
  · intro heq
    rcases List.append_eq_append_iff.mp heq with ⟨cs, hcs, hrest⟩ | ⟨cs, hcs, hrest⟩
    · cases cs with
      | nil => exact ⟨by rw [hcs, List.append_nil], (List.cons.inj hrest).2⟩
      | cons d cs =>
          rw [hcs, ← (List.cons.inj hrest).1] at hy
          exact absurd (List.mem_append_right x List.mem_cons_self) hy
    · cases cs with
      | nil => exact ⟨by rw [hcs, List.append_nil], (List.cons.inj hrest).2.symm⟩
      | cons d cs =>
          rw [hcs, ← (List.cons.inj hrest).1] at hx
          exact absurd (List.mem_append_right y List.mem_cons_self) hx
  · rintro ⟨rfl, rfl⟩
    rfl

/-- **Spec.** When two requests have one key. -/
theorem key_eq_iff : a.key = b.key ↔ a.Overlaps b := by
  have hslash : ∀ n : ℕ, '/' ∉ Nat.toDigits 10 n := Version.not_mem_toDigits rfl
  rw [← String.toList_inj, toList_key, toList_key, List.append_cancel_left_eq,
    append_cons_inj_iff (hslash _) (hslash _), toList_append_inj_iff]
  unfold Overlaps
  constructor
  · rintro ⟨hproject, htexts⟩
    exact ⟨Version.toDigits_injective hproject, htexts⟩
  · rintro ⟨hproject, htexts⟩
    exact ⟨congrArg _ hproject, htexts⟩

/-! ### Rows -/

/-- The ids of the file uploads are distinct, and the next one is new. -/
structure IdsDistinct (db : UploadDb) : Prop where
  distinct : Rows.KeysDistinct FileUpload.id db.fileUploads
  fresh : ∀ f ∈ db.fileUploads, f.id < db.nextId

/-- A request of its own: it has another key, and where the other was stored it leaves the row and
is stored in another one. -/
def KeptApart (a b : FileRequest) : Prop :=
  a.key ≠ b.key ∧ ∀ (env : UploadEnv) (db : UploadDb), IdsDistinct db → ∀ file,
    Rows.findKey FileUpload.objectKey a.key db.fileUploads = some file →
    ∃ id after, createFileUploadUrl env "release" s!"{b.projectId}/{b.version}" b.artifactName db =
        (.ok id, after) ∧
      id ≠ file.id ∧ Rows.findKey FileUpload.objectKey a.key after.fileUploads = some file

/-- **Step.** The upsert under another key. -/
theorem upsertFileUpload_other {db : UploadDb} (hids : IdsDistinct db) {key other : String}
    (hne : other ≠ key) {file : FileUpload}
    (hfile : Rows.findKey FileUpload.objectKey other db.fileUploads = some file)
    (fileName userId bucketName : String) :
    (upsertFileUpload fileName userId key bucketName db).1 ≠ file.id ∧
      Rows.findKey FileUpload.objectKey other
        (upsertFileUpload fileName userId key bucketName db).2.fileUploads = some file := by
  obtain ⟨hmem, hkey⟩ := Rows.findKey_some hfile
  unfold upsertFileUpload
  cases hfound : Rows.findKey FileUpload.objectKey key db.fileUploads with
  | some found =>
      obtain ⟨hfoundMem, hfoundKey⟩ := Rows.findKey_some hfound
      dsimp only
      constructor
      · intro hid
        rw [hids.distinct.eq_of_mem hfoundMem hmem hid] at hfoundKey
        exact hne (hkey.symm.trans hfoundKey)
      · have hkeeps : ∀ f : FileUpload, ({ f with
            fileName := fileName, userId := userId, bucketName := bucketName } : FileUpload).objectKey =
              f.objectKey := fun _ => rfl
        rw [Rows.findKey_updateWhere db.fileUploads hkeeps, hfile, Option.map_some, if_neg]
        rw [hkey, beq_iff_eq]
        exact hne
  | none =>
      dsimp only
      refine ⟨(hids.fresh file hmem).ne', ?_⟩
      unfold Rows.findKey at hfile ⊢
      rw [List.find?_append, hfile]
      rfl

/-- **Main result.** Two requests are kept apart exactly where the directory of neither goes on into
the name of the other. -/
theorem keptApart_iff (a b : FileRequest) : KeptApart a b ↔ ¬ a.Overlaps b := by
  rw [← key_eq_iff]
  constructor
  · exact And.left
  · intro hne
    refine ⟨hne, fun env db hids file hfile => ?_⟩
    obtain ⟨hid, hrow⟩ := upsertFileUpload_other hids hne hfile b.artifactName "release"
      env.bucketName
    exact ⟨_, _, rfl, hid, hrow⟩

/-- The version of one request is the start of the name of the other. -/
theorem version_in_name : ¬ KeptApart ⟨1, "1/a", "b"⟩ ⟨1, "1", "a/b"⟩ := by
  intro h
  exact h.1 (by decide +kernel)

end FileRequest

end UploadService
