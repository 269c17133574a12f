import UploadService.Life.Calls
import UploadService.Life.Untouched

/-!
# The files of an import, one by one

What `importArtifact` writes for one file: a row for the file upload under a key of its own, a
row for the artifact, and then the steps of the download.

Main results:

- `importArtifact_run`: an object key that is taken refuses the file, any other one gets its rows;
- `uploadFileFromUrl_failed`, `uploadFileFromUrl_came`: the two ways a download ends;
- `importArtifactsInBackground_ends`: the import of all files, by what holds after each.
-/

namespace UploadService

open Prog ReleaseService FileUploadService

variable {env : UploadEnv} {db : UploadDb}

/-- The object key of an imported file. -/
def importKey (projectId : ℕ) (version : String) (artifact : ImportArtifactDto) : String :=
  createObjectKey "release" s!"{projectId}/{version}" artifact.name

/-- The content that comes, where the download gives what the artifact asks for. -/
def comes (downloads : String → Option Download) (artifact : ImportArtifactDto) : Option Download :=
  (artifact.downloadUrl.bind downloads).filter fun content =>
    !(truthy artifact.sha256).any fun sha => sha != content.sha256

/-- The row of an imported file. -/
def importedFileRow (id : ℕ) (c : String) (artifact : ImportArtifactDto) (fileUploadId : ℕ) :
    ReleaseArtifact :=
  { newArtifact id c with
    artifactName := some artifact.name
    fileUploadId := some fileUploadId
    isInstallationFile := true
    isExecutable := artifact.isExecutable.getD false
    arguments := artifact.arguments
    metadata := artifact.metadata.getD [] }

/-- The state with the two rows of an imported file. -/
def withFile (env : UploadEnv) (c objectKey : String) (artifact : ImportArtifactDto) (db : UploadDb) :
    UploadDb :=
  { db with
    fileUploads := db.fileUploads ++
      [newFileUpload db.nextId artifact.name "release" objectKey env.bucketName]
    artifacts := db.artifacts ++ [importedFileRow (db.nextId + 1) c artifact db.nextId]
    nextId := db.nextId + 2 }

/-- **Spec.** The rows of a file, once the release is there. -/
theorem importArtifact_run {p : ℕ} {v : String} {r : Release} (hfind : db.findRelease p v = some r)
    (downloads : String → Option Download) (artifact : ImportArtifactDto) :
    ((∃ f ∈ db.fileUploads, f.objectKey = importKey p v artifact) ∧
      ∃ e, importArtifact env p v downloads artifact db = (.error e, db)) ∨
    ((∀ f ∈ db.fileUploads, f.objectKey ≠ importKey p v artifact) ∧
      importArtifact env p v downloads artifact db =
        uploadFileFromUrl db.nextId artifact.name (importKey p v artifact) env.bucketName
          (artifact.downloadUrl.bind downloads) artifact.sha256
          (withFile env r.catalogId (importKey p v artifact) artifact db)) := by
  by_cases htaken : (db.fileUploads.any fun f => f.objectKey == importKey p v artifact) = true
  · left
    obtain ⟨f, hf, hkey⟩ := List.any_eq_true.mp htaken
    have hrun : saveNewFile artifact.name (importKey p v artifact) env.bucketName db =
        (.error (.queryFailed "duplicate key value violates unique constraint"), db) :=
      if_pos htaken
    exact ⟨⟨f, hf, by simpa using hkey⟩, _, bind_run_error hrun _⟩
  · right
    refine ⟨fun f hf hkey => htaken (List.any_eq_true.mpr ⟨f, hf, by simpa using hkey⟩), ?_⟩
    have hrun : saveNewFile artifact.name (importKey p v artifact) env.bucketName db =
        (.ok db.nextId, { db with
          fileUploads := db.fileUploads ++
            [newFileUpload db.nextId artifact.name "release" (importKey p v artifact) env.bucketName]
          nextId := db.nextId + 1 }) := if_neg htaken
    have hsave : saveImportedArtifact p v artifact db.nextId { db with
        fileUploads := db.fileUploads ++
          [newFileUpload db.nextId artifact.name "release" (importKey p v artifact) env.bucketName]
        nextId := db.nextId + 1 } =
          (.ok (), withFile env r.catalogId (importKey p v artifact) artifact db) := by
      have hfound : UploadDb.findRelease { db with
          fileUploads := db.fileUploads ++
            [newFileUpload db.nextId artifact.name "release" (importKey p v artifact) env.bucketName]
          nextId := db.nextId + 1 } p v = some r := hfind
      unfold saveImportedArtifact
      rw [hfound]
      rfl
    exact (bind_run_ok hrun _).trans (bind_run_ok hsave _)

/-- The columns of a file upload that has come. -/
def arrived (content : Download) (f : FileUpload) : FileUpload :=
  { f with
    status := .uploaded
    size := some content.size
    sha256 := some content.sha256
    progress := 100 }

def uploading (f : FileUpload) : FileUpload := { f with status := .uploading, progress := 0 }

/-- The storage after a download that failed, or brought another content. -/
def afterFailure (bucketName objectKey : String) : Option Download → UploadDb → UploadDb
  | none => id
  | some _ => deleteObjects bucketName objectKey

theorem getObjectStat_deleteObjects (bucketName objectKey : String) (db : UploadDb) :
    (deleteObjects bucketName objectKey db).getObjectStat bucketName objectKey = none := by
  apply List.find?_eq_none.mpr
  intro o ho
  obtain ⟨-, hno⟩ := Rows.mem_deleteWhere.mp ho
  rw [hno]
  exact Bool.false_ne_true

/-- The last error is the one that stays. -/
theorem updateFileUpload_failUpload (id : ℕ) (first last : String) (db : UploadDb) :
    updateFileUpload id (failUpload last) (updateFileUpload id (failUpload first) db) =
      updateFileUpload id (failUpload last) db := by
  unfold updateFileUpload
  dsimp only
  congr 1
  unfold Rows.updateWhere
  rw [List.map_map]
  apply List.map_congr_left
  intro f _
  show (if (if f.id == id then failUpload first f else f).id == id then
    failUpload last (if f.id == id then failUpload first f else f)
      else (if f.id == id then failUpload first f else f)) = if f.id == id then failUpload last f else f
  by_cases hid : (f.id == id) = true
  · have hsame : ((failUpload first f).id == id) = true := hid
    rw [if_pos hid, if_pos hid, if_pos hsame]
    rfl
  · rw [if_neg hid, if_neg hid]

/-- **Spec.** A download that fails, or brings another content, is recorded in the row. -/
theorem uploadFileFromUrl_failed {downloads : String → Option Download}
    {artifact : ImportArtifactDto} (h : comes downloads artifact = none) (id : ℕ)
    (objectKey bucketName : String) (db : UploadDb) :
    ∃ e text, uploadFileFromUrl id artifact.name objectKey bucketName
        (artifact.downloadUrl.bind downloads) artifact.sha256 db =
      (.error e, updateFileUpload id (failUpload text) (afterFailure bucketName objectKey
        (artifact.downloadUrl.bind downloads) (updateFileUpload id uploading db))) := by
  unfold comes at h
  unfold uploadFileFromUrl
  cases hdownload : artifact.downloadUrl.bind downloads with
  | none => exact ⟨_, "Request failed", rfl⟩
  | some content =>
      rw [hdownload, Option.filter_some] at h
      have hmismatch : ((truthy artifact.sha256).any fun sha => sha != content.sha256) = true := by
        by_contra hne
        rw [eq_false_of_ne_true hne] at h
        cases h
      have hthrown : ∀ message (s : UploadDb), ∃ e, uploadFailed id artifact.name message s =
          (.error e, updateFileUpload id (failUpload message) s) := fun _ _ => ⟨_, rfl⟩
      obtain ⟨e, he⟩ := hthrown s!"Checksum mismatch for file {artifact.name}"
        (updateFileUpload id (failUpload "Checksum mismatch")
          (deleteObjects bucketName objectKey (updateFileUpload id uploading db)))
      rw [updateFileUpload_failUpload] at he
      refine ⟨e, s!"Checksum mismatch for file {artifact.name}", ?_⟩
      rw [modify_bind_run]
      dsimp only
      rw [hmismatch]
      exact he

/-- **Spec.** A download that brings the content that is asked for. -/
theorem uploadFileFromUrl_came {downloads : String → Option Download}
    {artifact : ImportArtifactDto} {content : Download} (h : comes downloads artifact = some content)
    (id : ℕ) (objectKey bucketName : String) (db : UploadDb) :
    uploadFileFromUrl id artifact.name objectKey bucketName (artifact.downloadUrl.bind downloads)
        artifact.sha256 db =
      (.ok (), updateFileUpload id (arrived content)
        (putObject bucketName objectKey content (updateFileUpload id uploading db))) := by
  obtain ⟨hdownload, hmatch⟩ := Option.filter_eq_some_iff.mp h
  have hmismatch : ((truthy artifact.sha256).any fun sha => sha != content.sha256) = false := by
    simpa using hmatch
  unfold uploadFileFromUrl
  rw [hdownload, modify_bind_run]
  dsimp only
  rw [hmismatch]
  rfl

/-! ### All files -/

/-- The import of one file does not throw. -/
theorem tryImportArtifact_ok (p : ℕ) (v : String) (downloads : String → Option Download)
    (allCame : Bool) (artifact : ImportArtifactDto) (s : UploadDb) :
    ∃ came, (tryImportArtifact env p v downloads allCame artifact s).1 = .ok came := by
  unfold tryImportArtifact
  rcases hrun : importArtifact env p v downloads artifact s with ⟨result, t⟩
  cases result with
  | ok _ => exact ⟨allCame, by rw [tryCatch_run_ok (bind_run_ok hrun _)]⟩
  | error e => exact ⟨false, by rw [tryCatch_run_error (bind_run_error hrun _)]; rfl⟩

/-- **Run.** The import of the files, by what holds after those that are done. What a refresh leaves
is as the files have left it. -/
theorem importArtifactsInBackground_ends {p : ℕ} {v : String} {artifacts : List ImportArtifactDto}
    {downloads : String → Option Download} {I : List ImportArtifactDto → UploadDb → Prop}
    {db : UploadDb} (hstart : I [] db)
    (hstep : ∀ done artifact allCame s, artifact ∈ artifacts → I done s →
      I (done ++ [artifact]) (tryImportArtifact env p v downloads allCame artifact s).2) :
    ∃ s, I (artifacts.filter fun a => (truthy a.downloadUrl).isSome) s ∧
      ∀ {γ : Type} {g : UploadDb → γ}, IgnoresRefresh g →
        g (importArtifactsInBackground env p v artifacts downloads db).2 = g s := by
  have hrun : ∀ done artifact allCame s,
      artifact ∈ (artifacts.filter fun a => (truthy a.downloadUrl).isSome) → I done s →
        ∃ came s', tryImportArtifact env p v downloads allCame artifact s = (.ok came, s') ∧
          I (done ++ [artifact]) s' := by
    intro done artifact allCame s hartifact h
    obtain ⟨came, hok⟩ := @tryImportArtifact_ok env p v downloads allCame artifact s
    exact ⟨came, _, Prod.ext hok rfl, hstep done artifact allCame s (List.mem_filter.mp hartifact).1 h⟩
  obtain ⟨allCame, s, hfiles, hdone⟩ := Prog.foldEach_run (I := fun done (_ : Bool) s => I done s)
    hrun [] true hstart
  refine ⟨s, hdone, fun {γ g} hg => ?_⟩
  unfold importArtifactsInBackground
  split
  · rename_i hempty
    rw [List.isEmpty_iff.mp hempty] at hfiles
    obtain ⟨-, rfl⟩ := Prod.mk.inj hfiles
    rfl
  · rw [bind_run_ok hfiles]
    cases allCame with
    | false => rfl
    | true => exact ((hg.refresh p v).eq _).trans (hg.releaseImported p v s)

end UploadService
