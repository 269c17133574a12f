import UploadService.Life.ImportSteps
import UploadService.Life.TotalRuns

/-!
# What a file of an import has written

`PhaseOk` says for every statement of `importArtifact` what the ones before it have left in the
tables and in the storage. `Advances` bounds what one statement does: the rows that are there stay,
a new artifact is one of the file itself, and only the object with its own key changes. So what the
files with other keys have written stays as it is.

Main results:

- `PhaseOk.mono`: what a file has written outlasts the statements of the others;
- `ImportJob.step_ok`: what one statement of the file does.
-/

namespace UploadService

open Prog ReleaseService FileUploadService

variable {env : UploadEnv} {job : ImportJob} {c : String} {db db' : UploadDb}

/-! ### Rows -/

/-- The row of the file upload. -/
def HasFile (db : UploadDb) (id : ℕ) (objectKey : String) : Prop :=
  ∃ f ∈ db.fileUploads, f.id = id ∧ f.objectKey = objectKey

/-- The row of the artifact with the file upload. -/
def HasArtifact (db : UploadDb) (c : String) (id : ℕ) (name : String) : Prop :=
  ∃ a ∈ db.artifacts, a.releaseId = c ∧ a.type = .file ∧ a.artifactName = some name ∧
    a.fileUploadId = some id

theorem HasFile.key_eq (hdb : db.Constraints) {id : ℕ} {k l : String} (hk : HasFile db id k)
    (hl : HasFile db id l) : k = l := by
  obtain ⟨f, hf, hfid, rfl⟩ := hk
  obtain ⟨g, hg, hgid, rfl⟩ := hl
  rw [hdb.fileKeys.eq_of_mem hf hg (hfid.trans hgid.symm)]

/-- What a statement of the file does: nothing is lost, and what is new is its own. `own` is the key of
its row, once it has one. -/
structure Advances (env : UploadEnv) (own : Option String) (name : String) (db db' : UploadDb) :
    Prop where
  constraints : db'.Constraints
  releases : releaseKeys db' = releaseKeys db
  files : ∀ id k, HasFile db id k → HasFile db' id k
  artifacts : ∀ a ∈ db.artifacts, a ∈ db'.artifacts
  new : ∀ a ∈ db'.artifacts, a ∈ db.artifacts ∨ a.type = .file ∧ a.artifactName = some name ∧
    ∃ id, a.fileUploadId = some id ∧ ∃ k ∈ own, HasFile db id k
  objects : ∀ k, own ≠ some k → digestAt env db' k = digestAt env db k

namespace Advances

variable {own : Option String} {name : String}

theorem refl (hdb : db.Constraints) : Advances env own name db db where
  constraints := hdb
  releases := rfl
  files := fun _ _ h => h
  artifacts := fun _ h => h
  new := fun _ h => .inl h
  objects := fun _ _ => rfl

theorem updateFiles (hdb : db.Constraints) {q : FileUpload → Bool} {f : FileUpload → FileUpload}
    (hf : ∀ x, (f x).id = x.id ∧ (f x).objectKey = x.objectKey) :
    Advances env own name db
      { db with fileUploads := Rows.updateWhere q f db.fileUploads } where
  constraints := hdb.updateFiles hf
  releases := rfl
  files := by
    rintro id k ⟨x, hx, hid, hkey⟩
    by_cases hq : q x = true
    · refine ⟨f x, Rows.mem_updateWhere.mpr (.inl ⟨x, hx, hq, rfl⟩), ?_, ?_⟩
      · exact (hf x).1.trans hid
      · exact (hf x).2.trans hkey
    · exact ⟨x, Rows.mem_updateWhere.mpr (.inr ⟨hx, by simpa using hq⟩), hid, hkey⟩
  artifacts := fun _ h => h
  new := fun _ h => .inl h
  objects := fun _ _ => rfl

theorem appendFile (hdb : db.Constraints) {x : FileUpload} (hid : x.id = db.nextId)
    (hfree : ∀ y ∈ db.fileUploads, y.objectKey ≠ x.objectKey) :
    Advances env own name db
      { db with fileUploads := db.fileUploads ++ [x], nextId := db.nextId + 1 } where
  constraints := hdb.appendFile hid hfree
  releases := rfl
  files := by
    rintro id k ⟨y, hy, hyid, hkey⟩
    exact ⟨y, List.mem_append_left _ hy, hyid, hkey⟩
  artifacts := fun _ h => h
  new := fun _ h => .inl h
  objects := fun _ _ => rfl

theorem storage (hdb : db.Constraints) {objects : List StoredObject}
    (hobjects : ∀ k, own ≠ some k →
      digestAt env { db with storage := objects } k = digestAt env db k) :
    Advances env own name db { db with storage := objects } where
  constraints := { hdb with }
  releases := rfl
  files := fun _ _ h => h
  artifacts := fun _ h => h
  new := fun _ h => .inl h
  objects := hobjects

end Advances

/-! ### Phases -/

/-- What the statements of the upload before this one have left. -/
def UploadOk (env : UploadEnv) (job : ImportJob) (artifact : ImportArtifactDto) (db : UploadDb) :
    UploadPhase → Prop
  | .putObject content => artifact.downloadUrl.bind job.downloads = some content
  | .getObjectStat content | .saveUploaded content => comes job.downloads artifact = some content ∧
      digestAt env db (job.objectKey artifact) = some content.sha256
  | .uploaded => ∃ content, comes job.downloads artifact = some content ∧
      digestAt env db (job.objectKey artifact) = some content.sha256
  | _ => True

/-- What the statements of the file before this one have left. -/
def PhaseOk (env : UploadEnv) (job : ImportJob) (c : String) (artifact : ImportArtifactDto)
    (db : UploadDb) : ImportPhase → Prop
  | .saveArtifact id => HasFile db id (job.objectKey artifact) ∧
      ∀ a ∈ db.artifacts, a.fileUploadId ≠ some id
  | .upload id phase => HasFile db id (job.objectKey artifact) ∧ HasArtifact db c id artifact.name ∧
      UploadOk env job artifact db phase
  | .settled true => ∃ id, HasFile db id (job.objectKey artifact) ∧
      HasArtifact db c id artifact.name ∧ UploadOk env job artifact db .uploaded
  | _ => True

/-- The row of the file upload is its own. -/
def ImportPhase.holds : ImportPhase → Bool
  | .saveArtifact _ | .upload _ _ | .settled true => true
  | _ => false

theorem PhaseOk.hasFile {artifact : ImportArtifactDto} {phase : ImportPhase}
    (h : PhaseOk env job c artifact db phase) (hholds : phase.holds = true) :
    ∃ id, HasFile db id (job.objectKey artifact) := by
  cases phase with
  | saveArtifact id => exact ⟨id, h.1⟩
  | upload id phase => exact ⟨id, h.1⟩
  | settled success =>
      cases success with
      | true =>
          obtain ⟨id, hfile, -⟩ := h
          exact ⟨id, hfile⟩
      | false => cases hholds
  | saveFile => cases hholds
  | mark message => cases hholds
  | rejected => cases hholds

theorem UploadOk.congr {artifact : ImportArtifactDto} {phase : UploadPhase}
    (h : UploadOk env job artifact db phase) (hsame : digestAt env db' (job.objectKey artifact) =
      digestAt env db (job.objectKey artifact)) : UploadOk env job artifact db' phase := by
  cases phase with
  | putObject content => exact h
  | getObjectStat content => exact ⟨h.1, hsame.trans h.2⟩
  | saveUploaded content => exact ⟨h.1, hsame.trans h.2⟩
  | uploaded =>
      obtain ⟨content, hcomes, hdigest⟩ := h
      exact ⟨content, hcomes, hsame.trans hdigest⟩
  | saveUploading => trivial
  | get => trivial
  | deleteObjects => trivial
  | saveMismatch => trivial
  | saveFailed message => trivial
  | failed message => trivial

/-- **Step.** What a file has written outlasts a statement of a file with another key. -/
theorem PhaseOk.mono {artifact : ImportArtifactDto} {phase : ImportPhase}
    (h : PhaseOk env job c artifact db phase) (hdb : db.Constraints) {own : Option String}
    {name : String} (hadvances : Advances env own name db db')
    (hother : phase.holds = true → own ≠ some (job.objectKey artifact)) :
    PhaseOk env job c artifact db' phase := by
  have hartifact : ∀ {id n}, HasArtifact db c id n → HasArtifact db' c id n := by
    rintro id n ⟨a, ha, hrow⟩
    exact ⟨a, hadvances.artifacts a ha, hrow⟩
  cases phase with
  | saveArtifact id =>
      refine ⟨hadvances.files _ _ h.1, fun a ha hid => ?_⟩
      rcases hadvances.new a ha with hold | ⟨-, -, new, hnew, k, hk, hfile⟩
      · exact h.2 a hold hid
      · obtain rfl : id = new := Option.some.inj (hid.symm.trans hnew)
        obtain rfl := h.1.key_eq hdb hfile
        exact hother rfl hk
  | upload id phase =>
      obtain ⟨hfile, hrow, hupload⟩ := h
      refine ⟨hadvances.files _ _ hfile, hartifact hrow, ?_⟩
      exact hupload.congr (hadvances.objects _ (hother rfl))
  | settled success =>
      cases success with
      | true =>
          obtain ⟨id, hfile, hrow, hupload⟩ := h
          refine ⟨id, hadvances.files _ _ hfile, hartifact hrow, ?_⟩
          exact hupload.congr (hadvances.objects _ (hother rfl))
      | false => trivial
  | saveFile => trivial
  | mark message => trivial
  | rejected => trivial

/-! ### One statement -/

namespace ImportJob

/-- The key of the row that the file has. -/
def ownKey (job : ImportJob) (artifact : ImportArtifactDto) (phase : ImportPhase) : Option String :=
  if phase.holds then some (job.objectKey artifact) else none

/-- What a statement of the file does, and what the next one can rely on. -/
def StepOk (env : UploadEnv) (job : ImportJob) (c : String) (artifact : ImportArtifactDto)
    (phase : ImportPhase) (db : UploadDb) (next : ImportPhase × UploadDb) : Prop :=
  Advances env (job.ownKey artifact phase) artifact.name db next.2 ∧
    PhaseOk env job c artifact next.2 next.1

theorem stepOk_mark (hdb : db.Constraints) (artifact : ImportArtifactDto) (phase : ImportPhase)
    (message : String) : StepOk env job c artifact phase db (.mark message, db) :=
  ⟨.refl hdb, trivial⟩

/-- The save of the file upload. -/
theorem saveFile_ok (hdb : db.Constraints) (artifact : ImportArtifactDto) (fails : Bool) :
    StepOk env job c artifact .saveFile db (job.step env artifact fails db .saveFile) ∧
      ((job.step env artifact fails db .saveFile).1.holds = true →
        ∀ id, ¬ HasFile db id (job.objectKey artifact)) := by
  cases fails with
  | true => exact ⟨stepOk_mark hdb artifact _ _, nofun⟩
  | false =>
      by_cases htaken : (db.fileUploads.any fun f => f.objectKey == job.objectKey artifact) = true
      · have hrun : saveNewFile artifact.name (job.objectKey artifact) env.bucketName db =
            (.error (.queryFailed "duplicate key value violates unique constraint"), db) :=
          if_pos htaken
        have hstep : job.step env artifact false db .saveFile =
            (.mark (Exception.queryFailed "duplicate key value violates unique constraint").message,
              db) := by
          show (afterSave _ (saveNewFile _ _ _ db).1, (saveNewFile _ _ _ db).2) = _
          rw [hrun]
          rfl
        rw [hstep]
        exact ⟨stepOk_mark hdb artifact _ _, nofun⟩
      · have hfree : ∀ f ∈ db.fileUploads, f.objectKey ≠ job.objectKey artifact :=
          fun f hf hkey => htaken (List.any_eq_true.mpr ⟨f, hf, by simpa using hkey⟩)
        have hrun : saveNewFile artifact.name (job.objectKey artifact) env.bucketName db =
            (.ok db.nextId, { db with
              fileUploads := db.fileUploads ++ [newFileUpload db.nextId artifact.name "release"
                (job.objectKey artifact) env.bucketName]
              nextId := db.nextId + 1 }) := if_neg htaken
        have hstep : job.step env artifact false db .saveFile =
            (.saveArtifact db.nextId, { db with
              fileUploads := db.fileUploads ++ [newFileUpload db.nextId artifact.name "release"
                (job.objectKey artifact) env.bucketName]
              nextId := db.nextId + 1 }) := by
          show (afterSave _ (saveNewFile _ _ _ db).1, (saveNewFile _ _ _ db).2) = _
          rw [hrun]
          rfl
        rw [hstep]
        refine ⟨⟨.appendFile hdb rfl hfree, ?_, ?_⟩, ?_⟩
        · exact ⟨_, List.mem_append_right _ (List.mem_singleton.mpr rfl), rfl, rfl⟩
        · intro a ha hid
          obtain ⟨f, hf, hfid⟩ := hdb.artifactUploads a ha _ hid
          exact (hdb.freshFiles f hf).ne hfid
        · rintro - id ⟨f, hf, -, hkey⟩
          exact hfree f hf hkey

/-- The save of the artifact. -/
theorem saveArtifact_ok (hdb : db.Constraints)
    (hthere : (job.projectId, job.version, c) ∈ releaseKeys db) {artifact : ImportArtifactDto} {id : ℕ}
    (h : PhaseOk env job c artifact db (.saveArtifact id)) (fails : Bool) :
    StepOk env job c artifact (.saveArtifact id) db
      (job.step env artifact fails db (.saveArtifact id)) := by
  cases fails with
  | true => exact stepOk_mark hdb artifact _ _
  | false =>
      obtain ⟨r, hr, hkeys⟩ := List.mem_map.mp hthere
      obtain ⟨hp, hv, rfl⟩ : r.projectId = job.projectId ∧ r.version = job.version ∧ r.catalogId = c := by
        simpa using hkeys
      have hfind : db.findRelease job.projectId job.version = some r := by
        rw [← hp, ← hv]
        exact hdb.findRelease_of_mem hr
      have hrun : saveImportedArtifact job.projectId job.version artifact id db =
          (.ok (), { db with
            artifacts := db.artifacts ++ [importedFileRow db.nextId r.catalogId artifact id]
            nextId := db.nextId + 1 }) := by
        unfold saveImportedArtifact
        rw [hfind]
        rfl
      have hstep : job.step env artifact false db (.saveArtifact id) =
          (.upload id .saveUploading, { db with
            artifacts := db.artifacts ++ [importedFileRow db.nextId r.catalogId artifact id]
            nextId := db.nextId + 1 }) := by
        show (afterSave _ (saveImportedArtifact _ _ _ _ db).1,
          (saveImportedArtifact _ _ _ _ db).2) = _
        rw [hrun]
        rfl
      obtain ⟨hfile, hunused⟩ := h
      have hnew : ({ db with
          artifacts := db.artifacts ++ [importedFileRow db.nextId r.catalogId artifact id]
          nextId := db.nextId + 1 } : UploadDb).Constraints := by
        apply hdb.appendArtifact
        · rfl
        · exact ⟨r, hr, rfl⟩
        · exact fun _ => Option.some_ne_none _
        · intro own hown
          obtain rfl : id = own := Option.some.inj hown
          obtain ⟨f, hf, hfid, -⟩ := hfile
          exact ⟨hunused, f, hf, hfid⟩
      rw [hstep]
      refine ⟨⟨hnew, rfl, fun _ _ hf => hf, fun _ ha => List.mem_append_left _ ha, fun a ha => ?_,
        fun _ _ => rfl⟩, hfile, ?_, trivial⟩
      · rcases List.mem_append.mp ha with ha | ha
        · exact .inl ha
        · obtain rfl := List.mem_singleton.mp ha
          exact .inr ⟨rfl, rfl, id, rfl, _, rfl, hfile⟩
      · exact ⟨_, List.mem_append_right _ (List.mem_singleton.mpr rfl), rfl, rfl, rfl, rfl⟩

/-- A statement of the upload. -/
theorem upload_ok (hdb : db.Constraints) {artifact : ImportArtifactDto} {id : ℕ} {phase : UploadPhase}
    (h : PhaseOk env job c artifact db (.upload id phase)) (fails : Bool) :
    StepOk env job c artifact (.upload id phase) db
      (job.step env artifact fails db (.upload id phase)) := by
  obtain ⟨hfile, hrow, hupload⟩ := h
  -- it is enough to look at the tables and at what the upload can rely on
  have hrest : ∀ next : UploadPhase × UploadDb,
      (job.uploadJob env artifact id).step fails db phase = next →
      Advances env (some (job.objectKey artifact)) artifact.name db next.2 →
      UploadOk env job artifact next.2 next.1 →
      StepOk env job c artifact (.upload id phase) db
        (job.step env artifact fails db (.upload id phase)) := by
    rintro ⟨next, s⟩ hnext hadvances hok
    have hstep : job.step env artifact fails db (.upload id phase) = (afterUpload id next, s) := by
      show (afterUpload id ((job.uploadJob env artifact id).step fails db phase).1,
        ((job.uploadJob env artifact id).step fails db phase).2) = _
      rw [hnext]
    rw [hstep]
    refine ⟨hadvances, ?_⟩
    have hfile' := hadvances.files _ _ hfile
    have hrow' : HasArtifact s c id artifact.name := by
      obtain ⟨a, ha, hcolumns⟩ := hrow
      exact ⟨a, hadvances.artifacts a ha, hcolumns⟩
    cases next with
    | uploaded => exact ⟨id, hfile', hrow', hok⟩
    | failed message => trivial
    | saveUploading => exact ⟨hfile', hrow', hok⟩
    | get => exact ⟨hfile', hrow', hok⟩
    | putObject content => exact ⟨hfile', hrow', hok⟩
    | deleteObjects => exact ⟨hfile', hrow', hok⟩
    | saveMismatch => exact ⟨hfile', hrow', hok⟩
    | getObjectStat content => exact ⟨hfile', hrow', hok⟩
    | saveUploaded content => exact ⟨hfile', hrow', hok⟩
    | saveFailed message => exact ⟨hfile', hrow', hok⟩
  have hcolumns : ∀ f : FileUpload → FileUpload,
      (∀ x, (f x).id = x.id ∧ (f x).objectKey = x.objectKey) →
        Advances env (some (job.objectKey artifact)) artifact.name db (updateFileUpload id f db) :=
    fun f hf => .updateFiles hdb hf
  cases fails with
  | true =>
      cases phase with
      | get =>
          cases hdownload : artifact.downloadUrl.bind job.downloads with
          | none =>
              refine hrest (.saveFailed "Request failed", db) ?_ (.refl hdb) trivial
              simp only [UploadJob.step, uploadJob, hdownload]
          | some content =>
              refine hrest (.saveFailed UploadJob.failureMessage, db) ?_ (.refl hdb) trivial
              simp only [UploadJob.step, uploadJob, hdownload, if_true]
      | uploaded => exact hrest (.uploaded, db) rfl (.refl hdb) hupload
      | failed message => exact hrest (.failed message, db) rfl (.refl hdb) trivial
      | saveUploading => exact hrest _ rfl (.refl hdb) trivial
      | putObject content => exact hrest _ rfl (.refl hdb) trivial
      | deleteObjects => exact hrest _ rfl (.refl hdb) trivial
      | saveMismatch => exact hrest _ rfl (.refl hdb) trivial
      | getObjectStat content => exact hrest _ rfl (.refl hdb) trivial
      | saveUploaded content => exact hrest _ rfl (.refl hdb) trivial
      | saveFailed message => exact hrest _ rfl (.refl hdb) trivial
  | false =>
      cases phase with
      | saveUploading => exact hrest _ rfl (hcolumns _ fun _ => ⟨rfl, rfl⟩) trivial
      | get =>
          cases hdownload : artifact.downloadUrl.bind job.downloads with
          | none =>
              refine hrest (.saveFailed "Request failed", db) ?_ (.refl hdb) trivial
              simp only [UploadJob.step, uploadJob, hdownload]
          | some content =>
              refine hrest (.putObject content, db) ?_ (.refl hdb) hdownload
              simp only [UploadJob.step, uploadJob, hdownload, Bool.false_eq_true, if_false]
      | putObject content =>
          have hput : Advances env (some (job.objectKey artifact)) artifact.name db
              (ReleaseService.putObject env.bucketName (job.objectKey artifact) content db) := by
            apply Advances.storage hdb
            intro k hk
            exact (digestAt_putObject content _ k).trans (if_neg fun heq => hk (congrArg some heq.symm))
          cases hmismatch : (job.uploadJob env artifact id).mismatches content with
          | true =>
              refine hrest (.deleteObjects, _) ?_ hput trivial
              simp only [UploadJob.step, Bool.false_eq_true, if_false, hmismatch, if_true]
              rfl
          | false =>
              refine hrest (.getObjectStat content, _) ?_ hput ⟨?_, ?_⟩
              · simp only [UploadJob.step, Bool.false_eq_true, if_false, hmismatch]
                rfl
              · have hmatch : (!(truthy artifact.sha256).any fun sha => sha != content.sha256) = true := by
                  rw [Bool.not_eq_true']
                  exact hmismatch
                exact Option.filter_eq_some_iff.mpr ⟨hupload, hmatch⟩
              · exact (digestAt_putObject content _ _).trans (if_pos rfl)
      | deleteObjects =>
          refine hrest _ rfl (Advances.storage hdb fun k hk => ?_) trivial
          exact (digestAt_deleteObjects (job.objectKey artifact) k).trans
            (if_neg fun heq => hk (congrArg some heq.symm))
      | saveMismatch => exact hrest _ rfl (hcolumns _ fun _ => ⟨rfl, rfl⟩) trivial
      | getObjectStat content => exact hrest (.saveUploaded content, db) rfl (.refl hdb) hupload
      | saveUploaded content =>
          refine hrest _ rfl (hcolumns _ fun _ => ⟨rfl, rfl⟩) ?_
          exact ⟨content, hupload⟩
      | saveFailed message => exact hrest _ rfl (hcolumns _ fun _ => ⟨rfl, rfl⟩) trivial
      | uploaded => exact hrest (.uploaded, db) rfl (.refl hdb) hupload
      | failed message => exact hrest (.failed message, db) rfl (.refl hdb) trivial

/-- **Step.** One statement of a file. -/
theorem step_ok (hdb : db.Constraints) (hthere : (job.projectId, job.version, c) ∈ releaseKeys db)
    {artifact : ImportArtifactDto} {phase : ImportPhase} (h : PhaseOk env job c artifact db phase)
    (fails : Bool) : StepOk env job c artifact phase db (job.step env artifact fails db phase) := by
  cases phase with
  | saveFile => exact (saveFile_ok hdb artifact fails).1
  | saveArtifact id => exact saveArtifact_ok hdb hthere h fails
  | upload id phase => exact upload_ok hdb h fails
  | mark message =>
      cases fails with
      | true => exact ⟨.refl hdb, trivial⟩
      | false => exact ⟨.updateFiles hdb fun _ => ⟨rfl, rfl⟩, trivial⟩
  | settled success => exact ⟨.refl hdb, h⟩
  | rejected => exact ⟨.refl hdb, h⟩

/-- Only the save of the file upload can make a row the file's own. -/
theorem step_holds {artifact : ImportArtifactDto} {phase : ImportPhase} {fails : Bool}
    (h : (job.step env artifact fails db phase).1.holds = true) :
    phase.holds = true ∨ phase = .saveFile := by
  cases phase with
  | saveFile => exact .inr rfl
  | saveArtifact id => exact .inl rfl
  | upload id phase => exact .inl rfl
  | mark message =>
      cases fails with
      | true => cases h
      | false => cases h
  | settled success => exact .inl h
  | rejected => cases h

end ImportJob

end UploadService
