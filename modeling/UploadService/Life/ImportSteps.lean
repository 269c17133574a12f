import UploadService.Life.Downloads
import UploadService.Life.Listener
import UploadService.Life.Views

/-!
# The import, statement by statement

The files of an import run side by side, and every statement of each may fail. A file that fails is
marked by its object key, and the import waits until each has ended. When all succeeded, the import
sets the release to `RELEASED`. The images are saved before, one after the other, and a save that
fails is passed over.

Main results:

- `importReleaseInto_eq`: an import is the part up to the row of the release, then the images;
- `ImportJob.alone_eq`: without failures and interruptions the statements of a file do what
  `tryImportArtifact` does.
-/

namespace UploadService

open Prog ReleaseService FileUploadService RegulationStatusService

variable {env : UploadEnv} {db : UploadDb}

/-! ### Before the files -/

/-- `importReleaseInto` up to the images: the row of the release, its dependencies and its default
rule. -/
def createImportedRelease (env : UploadEnv) (dto : ImportReleaseDto) (projectId : ℕ) :
    UploadProg String := do
  match ← gets (UploadDb.findRelease · projectId dto.version) with
  | some _ => throw (.conflict
      s!"Release version {dto.version} already exists for project {projectId}")
  | none => do
    let required ← gets fun db => (regulationsOf db projectId).length
    let dependencies ← importedDependencies dto projectId
    let catalogId ← saveRelease env true (importedRelease dto projectId required)
    modify fun db => match dependencies with
      | none => db
      | some entities => saveDependencies catalogId entities db
    modify (linkDefaultRuleToRelease catalogId)
    pure catalogId

/-- The images whose save does not fail; `fails` goes by the place in the request. -/
def savedImages (fails : ℕ → Bool) (images : List ImportDockerImageDto) : List ImportDockerImageDto :=
  (images.zipIdx.filter fun image => !fails image.2).map (·.1)

/-- The images of an import; what fails is passed over. -/
def importDockerImages (catalogId : String) (fails : ℕ → Bool) (images : List ImportDockerImageDto)
    (db : UploadDb) : UploadDb :=
  (savedImages fails images).foldl (fun db image => (importDockerImage catalogId image db).2) db

theorem savedImages_all (images : List ImportDockerImageDto) :
    savedImages (fun _ => false) images = images := by
  have hall : (images.zipIdx.filter fun _ => true) = images.zipIdx :=
    List.filter_eq_self.mpr fun _ _ => rfl
  show (images.zipIdx.filter fun _ => true).map (·.1) = images
  rw [hall]
  exact List.zipIdx_map_fst 0 images

/-- The images, when no save fails but those that the table refuses. -/
theorem importDockerImages_all (catalogId : String) (images : List ImportDockerImageDto)
    (db : UploadDb) :
    forEach (fun image => tryCatch (importDockerImage catalogId image) fun _ => pure ()) images db =
      (.ok (), importDockerImages catalogId (fun _ => false) images db) := by
  unfold importDockerImages
  rw [savedImages_all]
  induction images generalizing db with
  | nil => rfl
  | cons image images ih =>
      have hrun : Prog.tryCatch (importDockerImage catalogId image) (fun _ => pure ()) db =
          (.ok (), (importDockerImage catalogId image db).2) := by
        unfold Prog.tryCatch
        rcases importDockerImage catalogId image db with ⟨result, s⟩
        cases result <;> rfl
      exact (bind_run_ok hrun _).trans (ih _)

/-- **Spec.** An import is made of these parts. -/
theorem importReleaseInto_eq (dto : ImportReleaseDto) (p : ℕ) (db : UploadDb) :
    importReleaseInto env dto p db = (do
      let catalogId ← createImportedRelease env dto p
      modify (importDockerImages catalogId (fun _ => false) dto.dockerImages)
      refreshReleaseState env p dto.version : UploadProg Unit) db := by
  unfold importReleaseInto createImportedRelease
  rw [bind_bind_run, gets_bind_run, gets_bind_run]
  cases db.findRelease p dto.version with
  | some r => rfl
  | none =>
      dsimp only
      rw [bind_bind_run, gets_bind_run, gets_bind_run, bind_bind_run, bind_run, bind_run]
      rcases importedDependencies dto p db with ⟨result, s⟩
      cases result with
      | error e => rfl
      | ok dependencies =>
          dsimp only
          rw [bind_bind_run, bind_run, bind_run]
          rcases saveRelease env true (importedRelease dto p (regulationsOf db p).length) s with
            ⟨saved, t⟩
          cases saved with
          | error e => rfl
          | ok catalogId =>
              dsimp only
              rw [modify_bind_run, modify_bind_run, bind_run_ok (importDockerImages_all _ _ _)]
              rfl

/-! ### One file -/

/-- The statement that the import of a file issues next. -/
inductive ImportPhase where
  | saveFile
  | saveArtifact (fileUploadId : ℕ)
  | upload (fileUploadId : ℕ) (phase : UploadPhase)
  /-- the catch, with the message of the error -/
  | mark (message : String)
  | settled (success : Bool)
  /-- the catch failed too -/
  | rejected
  deriving DecidableEq, Repr

/-- The background import of a release. -/
structure ImportJob where
  projectId : ℕ
  version : String
  downloads : String → Option Download

namespace ImportJob

/-- The object key of one of the files. -/
def objectKey (job : ImportJob) (artifact : ImportArtifactDto) : String :=
  importKey job.projectId job.version artifact

/-- The call of `uploadFileFromUrl` for one of the files. -/
def uploadJob (env : UploadEnv) (job : ImportJob) (artifact : ImportArtifactDto) (id : ℕ) :
    UploadJob where
  id := id
  fileName := artifact.name
  objectKey := job.objectKey artifact
  bucketName := env.bucketName
  download := artifact.downloadUrl.bind job.downloads
  expectedSha256 := artifact.sha256

/-- The update of the catch, by the object key. -/
def markFailed (job : ImportJob) (artifact : ImportArtifactDto) (message : String) (db : UploadDb) :
    UploadDb :=
  { db with
    fileUploads := Rows.updateWhere (fun f => f.objectKey == job.objectKey artifact)
      (failUpload message) db.fileUploads }

/-- What follows on a save: the next statement, or the catch. -/
def afterSave {α : Type} (next : α → ImportPhase) : Except Exception α → ImportPhase
  | .ok a => next a
  | .error e => .mark e.message

/-- What follows on a statement of the upload. -/
def afterUpload (id : ℕ) : UploadPhase → ImportPhase
  | .uploaded => .settled true
  | .failed message => .mark message
  | phase => .upload id phase

/-- One statement for one file; `fails` tells that it is the one that fails. -/
def step (env : UploadEnv) (job : ImportJob) (artifact : ImportArtifactDto) (fails : Bool)
    (db : UploadDb) : ImportPhase → ImportPhase × UploadDb
  | .saveFile =>
      if fails then (.mark UploadJob.failureMessage, db)
      else
        let saved := saveNewFile artifact.name (job.objectKey artifact) env.bucketName db
        (afterSave .saveArtifact saved.1, saved.2)
  | .saveArtifact id =>
      if fails then (.mark UploadJob.failureMessage, db)
      else
        let saved := saveImportedArtifact job.projectId job.version artifact id db
        (afterSave (fun _ => .upload id .saveUploading) saved.1, saved.2)
  | .upload id phase =>
      let next := (job.uploadJob env artifact id).step fails db phase
      (afterUpload id next.1, next.2)
  | .mark message =>
      if fails then (.rejected, db) else (.settled false, job.markFailed artifact message db)
  | .settled success => (.settled success, db)
  | .rejected => (.rejected, db)

/-- The statements that are left, without failures and interruptions. -/
def alone (env : UploadEnv) (job : ImportJob) (artifact : ImportArtifactDto) :
    ℕ → ImportPhase × UploadDb → ImportPhase × UploadDb
  | 0, s => s
  | n + 1, s => alone env job artifact n (job.step env artifact false s.2 s.1)

theorem alone_settled (job : ImportJob) (artifact : ImportArtifactDto) (success : Bool) (n : ℕ)
    (db : UploadDb) : job.alone env artifact n (.settled success, db) = (.settled success, db) := by
  induction n with
  | zero => rfl
  | succ n ih => exact ih

/-- The upload of a file, and the catch after it. -/
theorem alone_upload (job : ImportJob) (artifact : ImportArtifactDto) (id n : ℕ) {phase : UploadPhase}
    (hphase : UploadJob.ended phase = false) (db : UploadDb) {last : UploadPhase} {s : UploadDb}
    (hlast : (job.uploadJob env artifact id).alone n (phase, db) = (last, s)) :
    (last = .uploaded → job.alone env artifact (n + 1) (.upload id phase, db) = (.settled true, s)) ∧
    ∀ message, last = .failed message → job.alone env artifact (n + 1) (.upload id phase, db) =
      (.settled false, job.markFailed artifact message s) := by
  induction n generalizing phase db with
  | zero =>
      obtain ⟨rfl, rfl⟩ := Prod.mk.inj hlast
      constructor
      · rintro rfl
        cases hphase
      · rintro message rfl
        cases hphase
  | succ n ih =>
      rcases hnext : (job.uploadJob env artifact id).step false db phase with ⟨next, t⟩
      have hrest : (job.uploadJob env artifact id).alone n (next, t) = (last, s) := by
        rw [← hnext]
        exact hlast
      have hown : job.alone env artifact (n + 2) (.upload id phase, db) =
          job.alone env artifact (n + 1) (afterUpload id next, t) := by
        show job.alone env artifact (n + 1) (afterUpload id
          ((job.uploadJob env artifact id).step false db phase).1,
            ((job.uploadJob env artifact id).step false db phase).2) = _
        rw [hnext]
      rw [hown]
      cases hended : UploadJob.ended next with
      | false =>
          have hsame : afterUpload id next = .upload id next := by
            cases next with
            | uploaded => cases hended
            | failed message => cases hended
            | _ => rfl
          rw [hsame]
          exact ih hended t hrest
      | true =>
          rw [UploadJob.alone_of_ended _ hended] at hrest
          obtain ⟨rfl, rfl⟩ := Prod.mk.inj hrest
          constructor
          · rintro rfl
            exact alone_settled job artifact true (n + 1) t
          · rintro message rfl
            exact alone_settled job artifact false n _

/-- **Spec.** Alone, the statements of a file are `tryImportArtifact`. -/
theorem alone_eq (job : ImportJob) (artifact : ImportArtifactDto) (db : UploadDb) :
    ∃ came, tryImportArtifact env job.projectId job.version job.downloads true artifact db =
        (.ok came, (job.alone env artifact 9 (.saveFile, db)).2) ∧
      (job.alone env artifact 9 (.saveFile, db)).1 = .settled came := by
  -- what the catch makes of an error before the upload
  have hcaught : ∀ {e : Exception} {s : UploadDb},
      importArtifact env job.projectId job.version job.downloads artifact db = (.error e, s) →
      tryImportArtifact env job.projectId job.version job.downloads true artifact db =
        (.ok false, job.markFailed artifact e.message s) := by
    intro e s hrun
    unfold tryImportArtifact
    rw [tryCatch_run_error (bind_run_error hrun _)]
    rfl
  rcases hfile : saveNewFile artifact.name (job.objectKey artifact) env.bucketName db with ⟨saved, s⟩
  have hfirst : job.alone env artifact 9 (.saveFile, db) =
      job.alone env artifact 8 (afterSave .saveArtifact saved, s) := by
    show job.alone env artifact 8 (afterSave .saveArtifact
      (saveNewFile artifact.name (job.objectKey artifact) env.bucketName db).1,
        (saveNewFile artifact.name (job.objectKey artifact) env.bucketName db).2) = _
    rw [hfile]
  rw [hfirst]
  cases saved with
  | error e =>
      refine ⟨false, ?_, congrArg Prod.fst (alone_settled job artifact false 7 _)⟩
      rw [hcaught (bind_run_error hfile _)]
      exact congrArg (Except.ok false, ·) (congrArg Prod.snd (alone_settled job artifact false 7 _)).symm
  | ok id =>
      rcases hrow : saveImportedArtifact job.projectId job.version artifact id s with ⟨saved, t⟩
      have hsecond : job.alone env artifact 8 (afterSave .saveArtifact (.ok id), s) =
          job.alone env artifact 7 (afterSave (fun _ => .upload id .saveUploading) saved, t) := by
        show job.alone env artifact 7 (afterSave (fun _ => .upload id .saveUploading)
          (saveImportedArtifact job.projectId job.version artifact id s).1,
            (saveImportedArtifact job.projectId job.version artifact id s).2) = _
        rw [hrow]
      rw [hsecond]
      cases saved with
      | error e =>
          refine ⟨false, ?_, congrArg Prod.fst (alone_settled job artifact false 6 _)⟩
          rw [hcaught ((bind_run_ok hfile _).trans (bind_run_error hrow _))]
          exact congrArg (Except.ok false, ·)
            (congrArg Prod.snd (alone_settled job artifact false 6 _)).symm
      | ok _ =>
          have hupload := (job.uploadJob env artifact id).alone_eq t
          have hended := (job.uploadJob env artifact id).alone_ended t
          rcases hlast : (job.uploadJob env artifact id).alone 6 (.saveUploading, t) with ⟨last, u⟩
          obtain ⟨hcame, hfailed⟩ := alone_upload job artifact id 6 rfl t hlast
          rw [hlast] at hupload hended
          have hrun : importArtifact env job.projectId job.version job.downloads artifact db =
              (UploadJob.ends last, u) :=
            (bind_run_ok hfile _).trans ((bind_run_ok hrow _).trans hupload.symm)
          cases last with
          | uploaded =>
              have hthere : job.alone env artifact 7
                  (afterSave (fun _ => .upload id .saveUploading) (.ok ()), t) = (.settled true, u) :=
                hcame rfl
              rw [hthere]
              refine ⟨true, ?_, rfl⟩
              unfold tryImportArtifact
              rw [tryCatch_run_ok (bind_run_ok hrun _)]
          | failed message =>
              have hmarked : job.alone env artifact 7
                  (afterSave (fun _ => .upload id .saveUploading) (.ok ()), t) =
                    (.settled false, job.markFailed artifact message u) := hfailed message rfl
              rw [hmarked]
              exact ⟨false, hcaught hrun, rfl⟩
          | _ => cases hended

end ImportJob

end UploadService
