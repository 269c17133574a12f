import UploadService.Life.Checksums

/-!
# When a failed checksum stays

Whatever handles the object key writes the row without looking at it. So a checksum that failed
stays failed as long as nothing that has seen the object is under way when it is recorded, and no
report of the put is handled later.

Main results:

- `KeyTask.step_quiet`: without its object, what is under way does not bring the row back;
- `mismatch_stays`: along such runs the row is not `UPLOADED`, and no event is emitted;
- `late_notification_revives`: a report of the put that is handled late.
-/

namespace UploadService

open Prog ReleaseService FileUploadService

variable {env : UploadEnv} {cosign : Bool} {db : UploadDb} {job : UploadJob}

/-! ### The run -/

/-- A call of `uploadFileFromUrl`, and what handles its object key. -/
structure ChecksumWorld where
  db : UploadDb
  phase : UploadPhase
  tasks : List KeyTask
  /-- the mismatch is recorded, and no new upload was requested since -/
  recorded : Bool
  /-- the events `fileCreated` of the key since then -/
  emitted : ℕ

inductive ChecksumEvent where
  /-- the next statement of the call -/
  | upload (fails : Bool)
  /-- the bucket reports that the object was created -/
  | objectCreated (size : Option ℕ)
  | objectRemoved
  /-- a pass of the synchronisation begins -/
  | sync
  /-- the next statement of what handles the key -/
  | task (i : ℕ) (fails : Bool)
  /-- the pending task at the position -/
  | pending (i : ℕ)
  /-- a new upload to the key is requested -/
  | request (userId fileName : String)
  deriving DecidableEq

namespace ChecksumWorld

/-- The start of the call. -/
def start (db : UploadDb) : ChecksumWorld := ⟨db, .saveUploading, [], false, 0⟩

/-- The next statement of the call records the mismatch. -/
def records (w : ChecksumWorld) (fails : Bool) : Bool := w.phase == .saveMismatch && !fails

def step (env : UploadEnv) (cosign : Bool) (job : UploadJob) (w : ChecksumWorld) :
    ChecksumEvent → ChecksumWorld
  | .upload fails =>
      let next := job.step fails w.db w.phase
      { w with
        db := next.2
        phase := next.1
        recorded := w.recorded || w.records fails
        emitted := if w.records fails then 0 else w.emitted }
  | .objectCreated size => { w with tasks := w.tasks ++ [.created size] }
  | .objectRemoved => { w with tasks := w.tasks ++ [.removed] }
  | .sync => { w with
      tasks := w.tasks ++ ((relevantArtifacts w.db).filter fun a => a.fileUpload.id == job.id).map
        fun a => .looked a.fileUpload }
  | .task i fails => match w.tasks[i]? with
      | none => w
      | some task =>
          if fails then { w with tasks := w.tasks.eraseIdx i }
          else
            let next := task.step env cosign job.objectKey w.db
            { w with
              db := next.2
              tasks := w.tasks.eraseIdx i ++ next.1
              emitted := w.emitted + if w.recorded && task == .emit then 1 else 0 }
  | .pending i => { w with db := w.db.runPending env i }
  | .request userId fileName => { w with
      db := (upsertFileUpload fileName userId job.objectKey env.bucketName w.db).2
      recorded := false
      emitted := 0 }

/-- From the record on, the row is not `UPLOADED`, and no event is emitted. -/
def MismatchFinal (job : UploadJob) (w : ChecksumWorld) : Prop :=
  w.recorded = true →
    (∀ f ∈ w.db.fileUploads, f.id = job.id → f.status ≠ .uploaded) ∧ w.emitted = 0

instance (job : UploadJob) (w : ChecksumWorld) : Decidable (MismatchFinal job w) :=
  inferInstanceAs (Decidable (_ → (∀ f ∈ w.db.fileUploads, _ → _) ∧ _))

end ChecksumWorld

/-- What is under way has seen the object, and can bring the row back. -/
def KeyTask.threatens : KeyTask → Bool
  | .created _ | .notify _ | .emit | .restores _ => true
  | .save _ calculateSha256 stored => calculateSha256 && stored.sha256.isSome
  | _ => false

/-- Nothing that has seen the object is under way when the mismatch is recorded, and no report of
the put comes after. -/
def Quiet (w : ChecksumWorld) : ChecksumEvent → Prop
  | .upload fails => w.records fails = true → ∀ task ∈ w.tasks, task.threatens = false
  | .objectCreated _ => w.recorded = false
  | _ => True

instance (w : ChecksumWorld) (e : ChecksumEvent) : Decidable (Quiet w e) := by
  unfold Quiet
  cases e <;> infer_instance

/-! ### The row -/

/-- The row has the key and the bucket of the call. -/
def RowsOk (env : UploadEnv) (job : UploadJob) (db : UploadDb) : Prop :=
  ∀ f ∈ db.fileUploads, f.id = job.id → f.objectKey = job.objectKey ∧ f.bucketName = env.bucketName

def NotUploaded (job : UploadJob) (db : UploadDb) : Prop :=
  ∀ f ∈ db.fileUploads, f.id = job.id → f.status ≠ .uploaded

/-- The bucket has no object with the key. -/
def Absent (env : UploadEnv) (job : UploadJob) (db : UploadDb) : Prop :=
  db.getObjectStat env.bucketName job.objectKey = none

theorem RowsOk.update (h : RowsOk env job db) {q : FileUpload → Bool} {g : FileUpload → FileUpload}
    (hg : ∀ f, (g f).id = f.id ∧ (g f).objectKey = f.objectKey ∧ (g f).bucketName = f.bucketName) :
    RowsOk env job { db with fileUploads := Rows.updateWhere q g db.fileUploads } := by
  apply Rows.forall_updateWhere h
  intro f _ _ hf hid
  obtain ⟨hfid, hkey, hbucket⟩ := hg f
  rw [hkey, hbucket]
  exact hf (hfid ▸ hid)

theorem NotUploaded.update (h : NotUploaded job db) {q : FileUpload → Bool}
    {g : FileUpload → FileUpload} (hg : ∀ f, (g f).id = f.id)
    (hstatus : ∀ f, (g f).status = f.status ∨ (g f).status ≠ .uploaded) :
    NotUploaded job { db with fileUploads := Rows.updateWhere q g db.fileUploads } := by
  apply Rows.forall_updateWhere h
  intro f _ _ hf hid
  rcases hstatus f with hsame | hother
  · rw [hsame]
    exact hf (hg f ▸ hid)
  · exact hother

/-- A request for a new upload keeps the row, and the storage. -/
theorem request_rows {userId fileName : String} (h : RowsOk env job db) :
    RowsOk env job (upsertFileUpload fileName userId job.objectKey env.bucketName db).2 ∧
      (upsertFileUpload fileName userId job.objectKey env.bucketName db).2.storage = db.storage := by
  unfold upsertFileUpload
  cases Rows.findKey FileUpload.objectKey job.objectKey db.fileUploads with
  | some file =>
      refine ⟨?_, rfl⟩
      apply Rows.forall_updateWhere h
      intro f _ _ hf hid
      exact ⟨(hf hid).1, rfl⟩
  | none =>
      refine ⟨fun f hf hid => ?_, rfl⟩
      rcases List.mem_append.mp hf with hf | hf
      · exact h f hf hid
      · obtain rfl := List.mem_singleton.mp hf
        exact ⟨rfl, rfl⟩

theorem rowsOk_keptByRefresh : KeptByRefresh (RowsOk env job) where
  releases := fun _ _ _ _ h => h
  missing := fun _ _ h => h.update fun _ => ⟨rfl, rfl, rfl⟩
  pending := fun _ _ h => h

theorem notUploaded_keptByRefresh : KeptByRefresh (NotUploaded job) where
  releases := fun _ _ _ _ h => h
  missing := fun _ _ h => h.update (fun _ => rfl) fun _ => .inr (show FileUploadStatus.removed ≠ _ by decide)
  pending := fun _ _ h => h

theorem storage_ignoresFollowUps : IgnoresFollowUps UploadDb.storage where
  releases := fun _ _ _ => rfl
  files := fun _ _ _ _ => rfl

theorem Absent.of_storage {db' : UploadDb} (h : Absent env job db) (hsame : db'.storage = db.storage) :
    Absent env job db' := by
  unfold Absent UploadDb.getObjectStat at h ⊢
  rw [hsame]
  exact h

/-- The storage has no object for the row either. -/
theorem Absent.statOf (h : Absent env job db) {file : FileUpload}
    (hfile : file.objectKey = job.objectKey ∧ file.bucketName = env.bucketName) :
    UploadDb.statOf env db file = none := by
  unfold UploadDb.statOf
  rw [hfile.1, hfile.2, ite_self]
  exact h

/-! ### What handles the key -/

namespace KeyTask

/-- The row as a pass has read it. -/
def SnapshotOk (env : UploadEnv) (job : UploadJob) : KeyTask → Prop
  | looked file | compares file =>
      file.objectKey = job.objectKey ∧ file.bucketName = env.bucketName
  | _ => True

/-- The removal of an object, of the row. -/
theorem removed_fileUploads (key : String) (db : UploadDb) :
    ∃ q, (updateUploadFile (removedFile key) db).2.fileUploads =
      Rows.updateWhere q (notified (removedFile key)) db.fileUploads := by
  by_cases hthere : ∃ f ∈ db.fileUploads, f.objectKey = key
  · obtain ⟨db', hrun, hfiles⟩ := @updateUploadFile_run (removedFile key) (.inr rfl) db hthere
    rw [hrun]
    exact ⟨_, hfiles⟩
  · rw [@updateUploadFile_missing (removedFile key) db hthere]
    exact ⟨fun _ => false, (Rows.updateWhere_eq_self nofun).symm⟩

/-- **Step.** Every statement keeps the row the call's, and the storage. -/
theorem step_rows (task : KeyTask) (hrows : RowsOk env job db) (hsnapshot : task.SnapshotOk env job) :
    RowsOk env job (task.step env cosign job.objectKey db).2 ∧
      (task.step env cosign job.objectKey db).2.storage = db.storage ∧
      ∀ t ∈ (task.step env cosign job.objectKey db).1, t.SnapshotOk env job := by
  have hupdate : ∀ (id : ℕ) (g : FileUpload → FileUpload), (∀ f, (g f).id = f.id ∧
      (g f).objectKey = f.objectKey ∧ (g f).bucketName = f.bucketName) →
        RowsOk env job (updateFileUpload id g db) := fun _ _ hg => hrows.update hg
  cases task with
  | created size =>
      unfold step
      dsimp only
      cases Rows.findKey FileUpload.objectKey job.objectKey db.fileUploads with
      | none => exact ⟨hrows, rfl, List.forall_mem_nil _⟩
      | some existingFile =>
          refine ⟨hrows, rfl, fun t ht => ?_⟩
          rcases List.mem_cons.mp ht with rfl | ht
          · trivial
          · split at ht
            · obtain rfl := List.mem_singleton.mp ht
              trivial
            · cases ht
  | notify size =>
      unfold step
      dsimp only
      split
      · refine ⟨hrows.update fun _ => ⟨rfl, rfl, rfl⟩, rfl, fun t ht => ?_⟩
        obtain rfl := List.mem_singleton.mp ht
        trivial
      · exact ⟨hrows, rfl, List.forall_mem_nil _⟩
  | emit =>
      refine ⟨?_, storage_ignoresFollowUps.onFileChange _ db, List.forall_mem_nil _⟩
      intro f hf
      exact hrows f (onFileChange_fileUploads (some job.objectKey) db ▸ hf)
  | removed =>
      refine ⟨?_, (storage_ignoresFollowUps.updateUploadFile _).eq db, List.forall_mem_nil _⟩
      obtain ⟨q, hfiles⟩ := removed_fileUploads job.objectKey db
      have hmarked := hrows.update (q := q) (g := notified (removedFile job.objectKey))
        fun _ => ⟨rfl, rfl, rfl⟩
      intro f hf
      exact hmarked f (hfiles ▸ hf)
  | digest calculateSha256 =>
      unfold step
      dsimp only
      split
      · refine ⟨hrows, rfl, fun t ht => ?_⟩
        obtain rfl := List.mem_singleton.mp ht
        trivial
      · exact ⟨hrows, rfl, List.forall_mem_nil _⟩
  | save id calculateSha256 stored =>
      refine ⟨hupdate _ _ fun _ => ⟨rfl, rfl, rfl⟩, rfl, fun t ht => ?_⟩
      unfold step at ht
      dsimp only at ht
      split at ht
      · obtain rfl := List.mem_singleton.mp ht
        trivial
      · cases ht
  | looked file =>
      unfold step
      dsimp only
      split
      · refine ⟨hrows, rfl, fun t ht => ?_⟩
        dsimp only at ht
        split at ht
        · obtain rfl := List.mem_singleton.mp ht
          trivial
        · cases ht
      · refine ⟨hrows, rfl, fun t ht => ?_⟩
        dsimp only at ht
        split at ht
        · split at ht
          · obtain rfl := List.mem_singleton.mp ht
            exact hsnapshot
          · obtain rfl := List.mem_singleton.mp ht
            trivial
        · cases ht
  | compares file =>
      unfold step
      dsimp only
      split
      · exact ⟨hrows, rfl, List.forall_mem_nil _⟩
      · refine ⟨hrows, rfl, fun t ht => ?_⟩
        dsimp only at ht
        split at ht
        · obtain rfl := List.mem_singleton.mp ht
          trivial
        · cases ht
  | restores id => exact ⟨hupdate _ _ fun _ => ⟨rfl, rfl, rfl⟩, rfl, List.forall_mem_nil _⟩
  | marks id => exact ⟨hupdate _ _ fun _ => ⟨rfl, rfl, rfl⟩, rfl, List.forall_mem_nil _⟩

/-- **Step.** Without the object, what does not threaten the row goes on like that. -/
theorem step_quiet (task : KeyTask) (hquiet : task.threatens = false)
    (hsnapshot : task.SnapshotOk env job) (habsent : Absent env job db) (h : NotUploaded job db) :
    NotUploaded job (task.step env cosign job.objectKey db).2 ∧
      ∀ t ∈ (task.step env cosign job.objectKey db).1, t.threatens = false := by
  cases task with
  | created size => cases hquiet
  | notify size => cases hquiet
  | emit => cases hquiet
  | restores id => cases hquiet
  | removed =>
      refine ⟨?_, List.forall_mem_nil _⟩
      obtain ⟨q, hfiles⟩ := removed_fileUploads job.objectKey db
      have hmarked := h.update (q := q) (g := notified (removedFile job.objectKey)) (fun _ => rfl)
        fun _ => .inr (show FileUploadStatus.removed ≠ _ by decide)
      intro f hf
      exact hmarked f (hfiles ▸ hf)
  | digest calculateSha256 =>
      -- there is nothing to read
      unfold Absent at habsent
      unfold step
      dsimp only
      rw [habsent]
      split
      · cases ‹none = some _›
      · exact ⟨h, List.forall_mem_nil _⟩
  | save id calculateSha256 stored =>
      have hnone : (calculateSha256 && stored.sha256.isSome) = false := hquiet
      refine ⟨h.update (fun _ => rfl) fun _ => .inl rfl, fun t ht => ?_⟩
      unfold step at ht
      dsimp only at ht
      rw [hnone] at ht
      cases ht
  | looked file =>
      unfold step
      dsimp only
      rw [habsent.statOf hsnapshot]
      refine ⟨h, fun t ht => ?_⟩
      dsimp only at ht
      split at ht
      · obtain rfl := List.mem_singleton.mp ht
        rfl
      · cases ht
  | compares file =>
      unfold step
      dsimp only
      rw [habsent.statOf hsnapshot]
      exact ⟨h, List.forall_mem_nil _⟩
  | marks id =>
      refine ⟨h.update (fun _ => rfl) fun _ => .inr (show FileUploadStatus.removed ≠ _ by decide),
        List.forall_mem_nil _⟩

end KeyTask

/-! ### What the call does -/

namespace UploadJob

/-- The call keeps its row. -/
theorem step_rows (job : UploadJob) (fails : Bool) (phase : UploadPhase) (h : RowsOk env job db) :
    RowsOk env job (job.step fails db phase).2 := by
  have hupdate : ∀ g : FileUpload → FileUpload, (∀ f, (g f).id = f.id ∧
      (g f).objectKey = f.objectKey ∧ (g f).bucketName = f.bucketName) →
        RowsOk env job (updateFileUpload job.id g db) := fun _ hg => h.update hg
  cases phase with
  | get =>
      unfold step
      dsimp only
      cases job.download with
      | none => exact h
      | some content => cases fails <;> exact h
  | saveUploading =>
      cases fails with
      | true => exact h
      | false => exact hupdate _ fun _ => ⟨rfl, rfl, rfl⟩
  | putObject content => cases fails <;> exact h
  | deleteObjects => cases fails <;> exact h
  | saveMismatch =>
      cases fails with
      | true => exact h
      | false => exact hupdate _ fun _ => ⟨rfl, rfl, rfl⟩
  | getObjectStat content => cases fails <;> exact h
  | saveUploaded content =>
      cases fails with
      | true => exact h
      | false => exact hupdate _ fun _ => ⟨rfl, rfl, rfl⟩
  | saveFailed message =>
      cases fails with
      | true => exact h
      | false => exact hupdate _ fun _ => ⟨rfl, rfl, rfl⟩
  | uploaded => exact h
  | failed message => exact h

/-- Only the delete leads to the record of the mismatch. -/
theorem step_saveMismatch (job : UploadJob) (fails : Bool) {phase : UploadPhase}
    (h : (job.step fails db phase).1 = .saveMismatch) :
    (job.step fails db phase).2 =
      ReleaseService.deleteObjects job.bucketName job.objectKey db := by
  cases phase with
  | get =>
      unfold step at h
      dsimp only at h
      cases hdownload : job.download with
      | none =>
          rw [hdownload] at h
          cases h
      | some content =>
          rw [hdownload] at h
          cases fails <;> cases h
  | putObject content =>
      cases fails with
      | true => cases h
      | false =>
          have hnext : (if job.mismatches content then UploadPhase.deleteObjects
              else .getObjectStat content) = .saveMismatch := h
          split at hnext <;> cases hnext
  | deleteObjects =>
      cases fails with
      | true => cases h
      | false => rfl
  | saveUploading => cases fails <;> cases h
  | saveMismatch => cases fails <;> cases h
  | getObjectStat content => cases fails <;> cases h
  | saveUploaded content => cases fails <;> cases h
  | saveFailed message => cases fails <;> cases h
  | uploaded => cases h
  | failed message => cases h

end UploadJob

/-! ### The run -/

/-- What holds along the quiet runs. -/
structure ChecksumInv (env : UploadEnv) (job : UploadJob) (w : ChecksumWorld) : Prop where
  rows : RowsOk env job w.db
  snapshots : ∀ task ∈ w.tasks, task.SnapshotOk env job
  /-- the object is deleted before the mismatch is recorded -/
  deleted : w.phase = .saveMismatch → Absent env job w.db
  /-- and the call ends after it -/
  ends : w.recorded = true → (∃ message, w.phase = .saveFailed message) ∨ ∃ message, w.phase = .failed message
  absent : w.recorded = true → Absent env job w.db
  quiet : w.recorded = true → ∀ task ∈ w.tasks, task.threatens = false
  row : w.recorded = true → NotUploaded job w.db
  none : w.recorded = true → w.emitted = 0

namespace ChecksumInv

variable {w : ChecksumWorld}

theorem start (hrows : RowsOk env job db) : ChecksumInv env job (.start db) :=
  have hnot : (ChecksumWorld.start db).recorded ≠ true := Bool.false_ne_true
  ⟨hrows, List.forall_mem_nil _, nofun, fun h => absurd h hnot, fun h => absurd h hnot,
    fun h => absurd h hnot, fun h => absurd h hnot, fun h => absurd h hnot⟩

/-- The call goes on. -/
theorem upload (h : ChecksumInv env job w) (hbucket : job.bucketName = env.bucketName) {fails : Bool}
    (hquiet : Quiet w (.upload fails)) :
    ChecksumInv env job (w.step env cosign job (.upload fails)) := by
  have hdeleted : (job.step fails w.db w.phase).1 = .saveMismatch →
      Absent env job (job.step fails w.db w.phase).2 := by
    intro hnext
    unfold Absent
    rw [job.step_saveMismatch fails hnext, ← hbucket]
    exact getObjectStat_deleteObjects _ _ _
  have hrows := job.step_rows fails w.phase h.rows
  cases hrecords : w.records fails with
  | true =>
      -- this is the record, and nothing that is under way has seen the object
      obtain ⟨hphase, hok⟩ : w.phase = .saveMismatch ∧ fails = false := by
        simpa [ChecksumWorld.records] using hrecords
      subst hok
      have hstep : job.step false w.db w.phase =
          (.saveFailed s!"Checksum mismatch for file {job.fileName}",
            updateFileUpload job.id (failUpload "Checksum mismatch") w.db) := by
        rw [hphase]
        rfl
      have hsame : w.step env cosign job (.upload false) = { w with
          db := updateFileUpload job.id (failUpload "Checksum mismatch") w.db
          phase := .saveFailed s!"Checksum mismatch for file {job.fileName}"
          recorded := true
          emitted := 0 } := by
        unfold ChecksumWorld.step
        dsimp only
        rw [hrecords, hstep, Bool.or_true]
        rfl
      rw [hstep] at hrows
      rw [hsame]
      refine ⟨hrows, h.snapshots, nofun, fun _ => .inl ⟨_, rfl⟩, fun _ => h.deleted hphase,
        fun _ => hquiet hrecords, fun _ => ?_, fun _ => rfl⟩
      intro f hf hid
      rcases Rows.mem_updateWhere.mp hf with ⟨x, -, -, rfl⟩ | ⟨-, hno⟩
      · show FileUploadStatus.error ≠ _
        decide
      · simp [hid] at hno
  | false =>
      have hsame : (w.step env cosign job (.upload fails)) =
          { w with db := (job.step fails w.db w.phase).2, phase := (job.step fails w.db w.phase).1 } := by
        unfold ChecksumWorld.step
        dsimp only
        rw [hrecords, Bool.or_false]
        rfl
      rw [hsame]
      by_cases hrec : w.recorded = true
      · -- the call has only the catch before it
        have hlast : (∃ message, (job.step fails w.db w.phase).1 = .failed message) ∧
            (job.step fails w.db w.phase).2.storage = w.db.storage ∧
            NotUploaded job (job.step fails w.db w.phase).2 := by
          rcases h.ends hrec with ⟨message, hphase⟩ | ⟨message, hphase⟩
          · rw [hphase]
            cases fails with
            | true => exact ⟨⟨_, rfl⟩, rfl, h.row hrec⟩
            | false =>
                refine ⟨⟨_, rfl⟩, rfl, (h.row hrec).update (fun _ => rfl) fun _ => .inr ?_⟩
                show FileUploadStatus.error ≠ _
                decide
          · rw [hphase]
            exact ⟨⟨_, rfl⟩, rfl, h.row hrec⟩
        obtain ⟨hended, hstorage, hrow⟩ := hlast
        exact ⟨hrows, h.snapshots, hdeleted, fun _ => .inr hended,
          fun _ => (h.absent hrec).of_storage hstorage, h.quiet, fun _ => hrow, h.none⟩
      · exact ⟨hrows, h.snapshots, hdeleted, fun hr => absurd hr hrec, fun hr => absurd hr hrec,
          fun hr => absurd hr hrec, fun hr => absurd hr hrec, fun hr => absurd hr hrec⟩

/-- A task goes on. -/
theorem task (h : ChecksumInv env job w) (i : ℕ) (fails : Bool) :
    ChecksumInv env job (w.step env cosign job (.task i fails)) := by
  unfold ChecksumWorld.step
  dsimp only
  cases hi : w.tasks[i]? with
  | none => exact h
  | some task =>
      have hmem : task ∈ w.tasks := List.mem_of_getElem? hi
      have hkept : ∀ t ∈ w.tasks.eraseIdx i, t ∈ w.tasks := fun t ht => List.mem_of_mem_eraseIdx ht
      cases fails with
      | true =>
          exact ⟨h.rows, fun t ht => h.snapshots t (hkept t ht), h.deleted, h.ends, h.absent,
            fun hrec t ht => h.quiet hrec t (hkept t ht), h.row, h.none⟩
      | false =>
          obtain ⟨hrows, hstorage, hsnapshots⟩ :=
            @KeyTask.step_rows env cosign w.db job task h.rows (h.snapshots task hmem)
          have hquiet := fun hrec => @KeyTask.step_quiet env cosign w.db job task
            (h.quiet hrec task hmem) (h.snapshots task hmem) (h.absent hrec) (h.row hrec)
          refine ⟨hrows, fun t ht => ?_, fun hphase => (h.deleted hphase).of_storage hstorage, h.ends,
            fun hrec => (h.absent hrec).of_storage hstorage, fun hrec t ht => ?_,
            fun hrec => (hquiet hrec).1, fun hrec => ?_⟩
          · rcases List.mem_append.mp ht with ht | ht
            · exact h.snapshots t (hkept t ht)
            · exact hsnapshots t ht
          · rcases List.mem_append.mp ht with ht | ht
            · exact h.quiet hrec t (hkept t ht)
            · exact (hquiet hrec).2 t ht
          · have hne : (task == .emit) = false := by
              by_contra heq
              have hsame : task = .emit := by simpa using heq
              have hthreat := h.quiet hrec task hmem
              rw [hsame] at hthreat
              cases hthreat
            have hrecorded : w.recorded = true := hrec
            show w.emitted + (if w.recorded && task == .emit then 1 else 0) = 0
            rw [hne, h.none hrecorded]
            simp

/-- **Step.** -/
theorem step (h : ChecksumInv env job w) (hbucket : job.bucketName = env.bucketName)
    {e : ChecksumEvent} (hquiet : Quiet w e) : ChecksumInv env job (w.step env cosign job e) := by
  cases e with
  | upload fails => exact h.upload hbucket hquiet
  | task i fails => exact h.task i fails
  | objectCreated size =>
      have hnot : w.recorded = false := hquiet
      refine ⟨h.rows, fun t ht => ?_, h.deleted, h.ends, h.absent, fun hrec => ?_, h.row, h.none⟩
      · rcases List.mem_append.mp ht with ht | ht
        · exact h.snapshots t ht
        · obtain rfl := List.mem_singleton.mp ht
          trivial
      · have hrecorded : w.recorded = true := hrec
        rw [hnot] at hrecorded
        cases hrecorded
  | objectRemoved =>
      refine ⟨h.rows, fun t ht => ?_, h.deleted, h.ends, h.absent, fun hrec t ht => ?_, h.row, h.none⟩
      · rcases List.mem_append.mp ht with ht | ht
        · exact h.snapshots t ht
        · obtain rfl := List.mem_singleton.mp ht
          trivial
      · rcases List.mem_append.mp ht with ht | ht
        · exact h.quiet hrec t ht
        · obtain rfl := List.mem_singleton.mp ht
          rfl
  | sync =>
      refine ⟨h.rows, fun t ht => ?_, h.deleted, h.ends, h.absent, fun hrec t ht => ?_, h.row, h.none⟩
      · rcases List.mem_append.mp ht with ht | ht
        · exact h.snapshots t ht
        · obtain ⟨a, ha, rfl⟩ := List.mem_map.mp ht
          obtain ⟨hrelevant, hid⟩ := List.mem_filter.mp ha
          obtain ⟨-, hof, -⟩ := mem_relevantArtifacts hrelevant
          exact h.rows a.fileUpload (mem_of_fileUploadOf hof).1 (by simpa using hid)
      · rcases List.mem_append.mp ht with ht | ht
        · exact h.quiet hrec t ht
        · obtain ⟨a, -, rfl⟩ := List.mem_map.mp ht
          rfl
  | pending i =>
      have hstorage : (w.db.runPending env i).storage = w.db.storage :=
        storage_ignoresFollowUps.ignoresRefresh.runPending w.db i
      exact ⟨rowsOk_keptByRefresh.runPending h.rows i, h.snapshots,
        fun hphase => (h.deleted hphase).of_storage hstorage, h.ends,
        fun hrec => (h.absent hrec).of_storage hstorage, h.quiet,
        fun hrec => notUploaded_keptByRefresh.runPending (h.row hrec) i, h.none⟩
  | request userId fileName =>
      obtain ⟨hrows, hstorage⟩ := @request_rows env w.db job userId fileName h.rows
      exact ⟨hrows, h.snapshots, fun hphase => (h.deleted hphase).of_storage hstorage, nofun, nofun,
        nofun, nofun, nofun⟩

end ChecksumInv

/-- **Main result.** Along every run in which nothing that has seen the object is under way when the
mismatch is recorded, and no report of the put is handled later, a failed checksum stays. -/
theorem mismatch_stays (hdb : db.Constraints) {f : FileUpload} (hf : f ∈ db.fileUploads)
    (hbucket : f.bucketName = env.bucketName) (download : Option Download)
    (expectedSha256 : Option String) {es : List ChecksumEvent}
    (hquiet : Runs.Along (ChecksumWorld.step env cosign
      ⟨f.id, f.fileName, f.objectKey, f.bucketName, download, expectedSha256⟩) Quiet (.start db) es) :
    ChecksumWorld.MismatchFinal ⟨f.id, f.fileName, f.objectKey, f.bucketName, download, expectedSha256⟩
      (Runs.run (ChecksumWorld.step env cosign
        ⟨f.id, f.fileName, f.objectKey, f.bucketName, download, expectedSha256⟩) (.start db) es) := by
  have hrows : RowsOk env
      ⟨f.id, f.fileName, f.objectKey, f.bucketName, download, expectedSha256⟩ db := by
    intro g hg hid
    obtain rfl := hdb.fileKeys.eq_of_mem hg hf hid
    exact ⟨rfl, hbucket⟩
  have hinv := Runs.invariant_along (fun w e (h : ChecksumInv env _ w) he => h.step hbucket he)
    (.start hrows) hquiet
  exact fun hrecorded => ⟨hinv.row hrecorded, hinv.none hrecorded⟩

/-- The row of a file that is to be downloaded. -/
def appFile : FileUpload :=
  newFileUpload 1 "app" "release" "upload/release/1/2.0.0/app" "artifacts"

def beforeDownload : UploadDb :=
  { oneProject with
    fileUploads := oneProject.fileUploads ++ [appFile]
    nextId := oneProject.nextId + 1 }

/-- A download that brings another content than expected. -/
def wrongDownload : UploadJob :=
  ⟨1, "app", "upload/release/1/2.0.0/app", "artifacts", some ⟨"b2", 3⟩, some "a1"⟩

/-- The put is reported, and all that follows is done, before the object is deleted. -/
def promptNotification : List ChecksumEvent :=
  List.replicate 3 (.upload false) ++ [.objectCreated (some 3)] ++ List.replicate 6 (.task 0 false) ++
    List.replicate 3 (.upload false) ++ [.objectRemoved, .task 0 false, .sync, .pending 0]

/-- The failed checksum stays. -/
theorem prompt_notification_stays :
    (Runs.run (ChecksumWorld.step plainUploadEnv false wrongDownload) (.start beforeDownload)
        promptNotification).recorded = true ∧
      ChecksumWorld.MismatchFinal wrongDownload (Runs.run
        (ChecksumWorld.step plainUploadEnv false wrongDownload) (.start beforeDownload)
          promptNotification) := by
  refine ⟨by decide +kernel, ?_⟩
  have hdb : beforeDownload.Constraints := oneProject_constraints.appendFile rfl nofun
  exact @mismatch_stays plainUploadEnv false beforeDownload hdb appFile (List.mem_singleton.mpr rfl) rfl
    (some ⟨"b2", 3⟩) (some "a1") promptNotification (by decide +kernel)

/-- The put is reported when the mismatch is recorded: the row is `UPLOADED`, and the event is
emitted. -/
theorem late_notification_revives :
    ¬ ChecksumWorld.MismatchFinal wrongDownload (Runs.run
      (ChecksumWorld.step plainUploadEnv false wrongDownload) (.start beforeDownload)
        (List.replicate 6 (.upload false) ++ [.objectCreated (some 3)] ++
          List.replicate 2 (.task 0 false))) := by
  decide +kernel

end UploadService
