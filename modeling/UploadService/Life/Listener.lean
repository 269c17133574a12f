import UploadService.Lib.Runs
import UploadService.Life.Writes

/-!
# The listener of the bucket

`listenToObjectsEvents` handles the notifications of the bucket one by one. A notification whose
handler throws stops the poller and rejects the promise; the notifications after it are not
handled until the lock cycle starts the listener again.

A created object without a row makes `updateUploadFile` read the checksum of `null`.

Main results:

- `handles_iff`: which notification a running listener handles;
- `listener_survives_iff`: which sequences of notifications it survives.
-/

namespace UploadService

/-! ### The update of a file upload -/

namespace FileUploadService

open Prog ReleaseService

theorem findKey_isSome {db : UploadDb} {key : String} :
    (Rows.findKey FileUpload.objectKey key db.fileUploads).isSome ↔
      ∃ f ∈ db.fileUploads, f.objectKey = key := by
  unfold Rows.findKey
  rw [List.find?_isSome]
  simp

/-- A change of a file writes releases and pending tasks. -/
theorem onFileChange_frames {γ : Type} {g : UploadDb → γ}
    (hg : ∀ (db : UploadDb) releases pending,
      g { db with releases := releases, pending := pending } = g db)
    (key : Option String) (db : UploadDb) : g (onFileChange key db).2 = g db := by
  have hchanged := onFileChange_changed key db
  generalize (onFileChange key db).2 = db' at hchanged ⊢
  have htotal : ∀ p v, g (updateTotalSize p v db) = g db :=
    fun p v => updateTotalSize_frames (fun s releases => hg s releases s.pending) p v db
  cases hchanged with
  | ignored hnone => rfl
  | seen r hfind => exact (hg (updateTotalSize _ _ db) _ _).trans (htotal r.projectId r.version)
  | seenError r hfind herror =>
      exact (hg (updateTotalSize _ _ db) _ _).trans (htotal r.projectId r.version)

theorem onFileChange_fileUploads (key : Option String) (db : UploadDb) :
    (onFileChange key db).2.fileUploads = db.fileUploads :=
  onFileChange_frames (fun _ _ _ => rfl) key db

/-- The update of a row that is there goes on to its release. -/
theorem updateUploadFile_eq {file : UpdateFileUploadDto}
    (hstatus : file.status = .uploaded ∨ file.status = .removed) {db : UploadDb}
    (h : ∃ f ∈ db.fileUploads, f.objectKey = file.objectKey) :
    updateUploadFile file db = onFileChange (some file.objectKey) { db with
      fileUploads := Rows.updateWhere (fun f => f.objectKey == file.objectKey) (notified file)
        db.fileUploads } := by
  obtain ⟨key, status, size⟩ := file
  obtain ⟨row, hrow⟩ := Option.isSome_iff_exists.mp (findKey_isSome.mpr h)
  unfold updateUploadFile
  rw [gets_bind_run]
  dsimp only at hrow hstatus ⊢
  rw [hrow]
  rcases hstatus with rfl | rfl
  · rfl
  · rfl

/-- **Spec.** The update of a row that is there. -/
theorem updateUploadFile_run {file : UpdateFileUploadDto}
    (hstatus : file.status = .uploaded ∨ file.status = .removed) {db : UploadDb}
    (h : ∃ f ∈ db.fileUploads, f.objectKey = file.objectKey) :
    ∃ db', updateUploadFile file db = (.ok (), db') ∧ db'.fileUploads =
      Rows.updateWhere (fun f => f.objectKey == file.objectKey) (notified file) db.fileUploads := by
  rw [updateUploadFile_eq hstatus h]
  exact ⟨_, Prod.ext (onFileChange_ok _ _) rfl, onFileChange_fileUploads _ _⟩

/-- **Spec.** A removed object without a row changes nothing; a created one throws. -/
theorem updateUploadFile_missing {file : UpdateFileUploadDto} {db : UploadDb}
    (h : ¬ ∃ f ∈ db.fileUploads, f.objectKey = file.objectKey) :
    updateUploadFile file db = (if file.status = .uploaded
      then .error (.plain "Cannot read properties of null (reading 'sha256')") else .ok (), db) := by
  obtain ⟨key, status, size⟩ := file
  have hnone : Rows.findKey FileUpload.objectKey key db.fileUploads = none := by
    rw [← Option.not_isSome_iff_eq_none, findKey_isSome]
    exact h
  unfold updateUploadFile
  rw [gets_bind_run]
  dsimp only
  rw [hnone]
  cases status with
  | uploaded => rfl
  | pending | uploading | removed | error => rfl

end FileUploadService

/-! ### The listener -/

/-- `s3:ObjectCreated:*` or `s3:ObjectRemoved:*`. -/
inductive ObjectEvent where
  | created | removed
  deriving DecidableEq, Repr

/-- A record of a bucket notification under `OBJECT_PREFIX`. -/
structure BucketNotification where
  event : ObjectEvent
  objectKey : String
  /-- where the record has it -/
  size : Option ℕ
  underPrefix : "upload/".toList <+: objectKey.toList

namespace BucketNotification

/-- The update that the listener makes of the record. -/
def update (record : BucketNotification) : UpdateFileUploadDto :=
  match record.event with
  | .created => ⟨record.objectKey, .uploaded, record.size⟩
  | .removed => ⟨record.objectKey, .removed, none⟩

end BucketNotification

structure Listener where
  db : UploadDb
  /-- the poller is stopped, and the promise rejected -/
  stopped : Bool

inductive ListenerEvent where
  | notification (record : BucketNotification)
  /-- what the rest of the service has made of the tables -/
  | change (db : UploadDb)

namespace Listener

open Prog FileUploadService ReleaseService

def step (s : Listener) : ListenerEvent → Listener
  | .notification record =>
      if s.stopped then s
      else match updateUploadFile record.update s.db with
        | (.ok _, db) => ⟨db, false⟩
        | (.error _, db) => ⟨db, true⟩
  | .change db => ⟨db, s.stopped⟩

/-- The notification stands in the rows of its key. -/
def Recorded (record : BucketNotification) (before after : UploadDb) : Prop :=
  ∀ f ∈ before.fileUploads, f.objectKey = record.objectKey →
    ∃ f' ∈ after.fileUploads, f'.id = f.id ∧ f'.objectKey = record.objectKey ∧
      match record.event with
      | .created => f'.status = .uploaded ∧ ∀ n, record.size = some n → f'.size = some n
      | .removed => f'.status = .removed

/-- The listener handles the event: it goes on listening, and a notification is recorded. -/
def Handles (s : Listener) : ListenerEvent → Prop
  | .notification record => (s.step (.notification record)).stopped = false ∧
      Recorded record s.db (s.step (.notification record)).db
  | .change _ => True

/-- A created object has a row. -/
def HasRow (s : Listener) : ListenerEvent → Prop
  | .notification record => record.event = .created →
      ∃ f ∈ s.db.fileUploads, f.objectKey = record.objectKey
  | .change _ => True

theorem update_status (record : BucketNotification) :
    record.update.status = .uploaded ∨ record.update.status = .removed := by
  unfold BucketNotification.update
  cases record.event with
  | created => exact .inl rfl
  | removed => exact .inr rfl

theorem update_objectKey (record : BucketNotification) :
    record.update.objectKey = record.objectKey := by
  unfold BucketNotification.update
  cases record.event <;> rfl

theorem recorded_of_update {record : BucketNotification} {db db' : UploadDb}
    (h : db'.fileUploads = Rows.updateWhere (fun f => f.objectKey == record.objectKey)
      (notified record.update) db.fileUploads) : Recorded record db db' := by
  intro f hf hkey
  refine ⟨notified record.update f, ?_, rfl, hkey, ?_⟩
  · rw [h]
    exact Rows.mem_updateWhere.mpr (.inl ⟨f, hf, by simpa using hkey, rfl⟩)
  · unfold BucketNotification.update
    cases record.event with
    | created =>
        refine ⟨rfl, fun n hn => ?_⟩
        show record.size.or f.size = some n
        rw [hn]
        rfl
    | removed => rfl

/-- **Step.** A listener that runs handles an event exactly where a created object has a row. -/
theorem handles_iff {s : Listener} (hs : s.stopped = false) (e : ListenerEvent) :
    s.Handles e ↔ s.HasRow e := by
  cases e with
  | change db => exact Iff.rfl
  | notification record =>
      show (s.step (.notification record)).stopped = false ∧ _ ↔ _
      unfold step
      dsimp only
      rw [if_neg (by simp [hs])]
      by_cases hrow : ∃ f ∈ s.db.fileUploads, f.objectKey = record.objectKey
      · rw [← update_objectKey] at hrow
        obtain ⟨db', hrun, hfiles⟩ := updateUploadFile_run (update_status record) hrow
        rw [update_objectKey] at hrow hfiles
        rw [hrun]
        exact iff_of_true ⟨rfl, recorded_of_update hfiles⟩ fun _ => hrow
      · have hrun := @updateUploadFile_missing record.update s.db (by rw [update_objectKey]; exact hrow)
        rw [hrun]
        unfold BucketNotification.update
        cases hevent : record.event with
        | created =>
            refine iff_of_false (fun h => ?_) fun h => hrow (h hevent)
            cases h.1
        | removed =>
            refine iff_of_true ⟨rfl, fun f hf hkey => ?_⟩ fun h => ?_
            · exact absurd ⟨f, hf, hkey⟩ hrow
            · rw [hevent] at h
              cases h

/-- A listener that has stopped handles no notification. -/
theorem handles_running {s : Listener} {record : BucketNotification}
    (h : s.Handles (.notification record)) : s.stopped = false := by
  have hstopped := h.1
  unfold step at hstopped
  dsimp only at hstopped
  split at hstopped
  · exact hstopped
  · exact eq_false_of_ne_true ‹_›

/-- **Main result.** From every state of the tables, the listener handles every notification of
a sequence, whatever changes in between, exactly where every created object has a row when its
notification comes. -/
theorem listener_survives_iff (db : UploadDb) (es : List ListenerEvent) :
    Runs.Along step Handles ⟨db, false⟩ es ↔ Runs.Along step HasRow ⟨db, false⟩ es := by
  constructor
  · apply Runs.Along.mono
    intro s e h
    cases e with
    | notification record => exact (handles_iff (handles_running h) _).mp h
    | change db => trivial
  · intro h
    have hstep : ∀ (s : Listener) (e : ListenerEvent), s.stopped = false → s.HasRow e →
        (s.step e).stopped = false := by
      intro s e hs hrow
      have hhandles := (handles_iff hs e).mpr hrow
      cases e with
      | notification record => exact hhandles.1
      | change db => exact hs
    exact Runs.along_of_invariant hstep (fun s e hs hrow => (handles_iff hs e).mpr hrow) rfl h

/-- An object that came without an upload URL, and one that comes after it. -/
def strangeObjects : List ListenerEvent :=
  [.notification ⟨.created, "upload/a", some 1, by decide⟩,
    .notification ⟨.created, "upload/b", some 2, by decide⟩]

/-- The first notification has no row; the second, which has one, is not handled. -/
theorem later_notification_lost :
    (Runs.run step ⟨{ oneProject with
        fileUploads := [newFileUpload 1 "b" "eve" "upload/b" "artifacts"] }, false⟩
      strangeObjects).stopped = true ∧
    ((Runs.run step ⟨{ oneProject with
        fileUploads := [newFileUpload 1 "b" "eve" "upload/b" "artifacts"] }, false⟩
      strangeObjects).db.fileUploads.map fun f => (f.status, f.size)) = [(.pending, none)] ∧
    ¬ Runs.Along step Handles ⟨{ oneProject with
        fileUploads := [newFileUpload 1 "b" "eve" "upload/b" "artifacts"] }, false⟩
      strangeObjects := by
  refine ⟨by decide, by decide, fun h => ?_⟩
  exact absurd h.1.1 (by decide)

end Listener

end UploadService
