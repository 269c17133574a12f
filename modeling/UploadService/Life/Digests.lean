import UploadService.Lib.Runs
import UploadService.Lib.Worklist
import UploadService.Life.Schema
import UploadService.Life.Untouched

/-!
# Digests of uploaded objects

The object of a file upload comes to the storage by a presigned URL, behind the back of the
service. When the storage reports it, the service starts `processAndSaveFile` unless the row has
a digest already; the processing reads the object, and writes its digest to the row later. The
same key may be uploaded again at any time, so that a row may keep the digest of an object that
is gone, and a processing may bring one.

Main results:

- `processAndSaveFile_eq`: the call in one piece is a reading followed by a saving;
- `digest_along_runs`: along every run in which an object is replaced only where its new digest
  is still to be saved, and no stale digest is saved last, a digest that is recorded is that of
  the stored object once no processing is under way;
- `uploaded_again_stale`: an object that is uploaded again under the digest of the first.
-/

namespace UploadService

open Prog ReleaseService FileUploadService

variable {env : UploadEnv} {cosign : Bool} {db : UploadDb} {key : String}

/-! ### Requests for an upload -/

namespace FileUploadService

/-- `fileName.replace(/[^a-zA-Z0-9._-]/g, '_')`, on the code units of the name. -/
def sanitizedFileName (fileName : String) : String :=
  String.join (fileName.toList.map fun c =>
    if c.isAlphanum || c == '.' || c == '_' || c == '-' then c.toString
    else if c.val < 0x10000 then "_" else "__")

/-- `createObjectKey`. -/
def requestedObjectKey (userId : String) (objectKey : Option String) (fileName : String) : String :=
  match truthy objectKey with
  | some key => createObjectKey userId key fileName
  | none =>
      let sanitized := sanitizedFileName fileName
      s!"upload/{userId}/{sanitized}"

end FileUploadService

/-! ### Processing -/

/-- A run of `processAndSaveFile` that is under way. -/
inductive Processing where
  /-- it has read nothing yet -/
  | called (objectKey : String) (calculateSha256 : Bool)
  /-- it has found the row, and read the object -/
  | read (id : ℕ) (objectKey : String) (calculateSha256 : Bool) (stored : StoredObject)
  deriving DecidableEq

/-- The tables and the storage, with the processing that is under way. -/
structure FileState where
  db : UploadDb
  processing : List Processing

/-- What `processAndSaveFile` does once the object is read. -/
def saveProcessed (id : ℕ) (objectKey : String) (calculateSha256 : Bool) (stored : StoredObject) :
    UploadProg Unit := do
  modify (updateFileUpload id (processed calculateSha256 stored))
  when (calculateSha256 && stored.sha256.isSome) (onFileChange (some objectKey))

/-- `processAndSaveFile` up to the object, where row and object are found. -/
def readObject (env : UploadEnv) (objectKey : String) (calculateSha256 : Bool) (db : UploadDb) :
    Option Processing :=
  match Rows.findKey FileUpload.objectKey objectKey db.fileUploads,
    db.getObjectStat env.bucketName objectKey with
  | some file, some stored => some (.read file.id objectKey calculateSha256 stored)
  | _, _ => none

/-- The processing at the position goes on. One that finds no row or no object ends. -/
def FileState.process (env : UploadEnv) (s : FileState) (i : ℕ) : FileState :=
  let rest := s.processing.eraseIdx i
  match s.processing[i]? with
  | none => s
  | some (.called objectKey calculateSha256) =>
      { s with processing := rest ++ (readObject env objectKey calculateSha256 s.db).toList }
  | some (.read id objectKey calculateSha256 stored) =>
      { db := (saveProcessed id objectKey calculateSha256 stored s.db).2, processing := rest }

/-- The processing that `updateUploadFile` starts for a created object: `cosign` is
`COSIGN_DO_SIGN_FILES`. -/
def startedProcessing (cosign : Bool) (objectKey : String) (db : UploadDb) : List Processing :=
  match Rows.findKey FileUpload.objectKey objectKey db.fileUploads with
  | none => []
  | some existingFile =>
      let needsSha256 := (truthy existingFile.sha256).isNone
      if needsSha256 || cosign then [.called objectKey needsSha256] else []

/-- The object stands in the storage with this digest, in place of what was there. -/
def UploadDb.putObject (bucketName objectKey sha256 : String) (db : UploadDb) : UploadDb :=
  { db with
    storage := Rows.deleteWhere (fun o => o.bucketName == bucketName && o.objectKey == objectKey)
      db.storage ++ [⟨bucketName, objectKey, some sha256⟩] }

inductive FileEvent where
  | createFileUploadUrl (userId : String) (objectKey : Option String) (fileName : String)
  | setReleaseArtifact (caller : Caller) (dto : SetReleaseArtifactDto)
  /-- a presigned upload of an object with this digest -/
  | upload (objectKey sha256 : String)
  /-- the storage reports the object -/
  | objectCreated (objectKey : String) (size : Option ℕ)
  | syncArtifactsStorageStatus
  /-- the processing at the position -/
  | process (i : ℕ)
  /-- the pending task at the position -/
  | task (i : ℕ)

def FileState.step (env : UploadEnv) (cosign : Bool) (s : FileState) : FileEvent → FileState
  | .createFileUploadUrl userId objectKey fileName =>
      { s with
        db := (upsertFileUpload fileName userId (requestedObjectKey userId objectKey fileName)
          env.bucketName s.db).2 }
  | .setReleaseArtifact caller dto =>
      { s with db := (ReleaseService.setReleaseArtifact (env.calledBy caller) dto s.db).2 }
  | .upload objectKey sha256 => { s with db := s.db.putObject env.bucketName objectKey sha256 }
  | .objectCreated objectKey size =>
      { db := (updateUploadFile ⟨objectKey, .uploaded, size⟩ s.db).2
        processing := s.processing ++ startedProcessing cosign objectKey s.db }
  | .syncArtifactsStorageStatus =>
      { s with db := (FileUploadService.syncArtifactsStorageStatus env s.db).2 }
  | .process i => s.process env i
  | .task i => { s with db := s.db.runPending env i }

/-- The call in one piece reads the object and saves what it read. -/
theorem processAndSaveFile_eq (objectKey : String) (calculateSha256 : Bool) :
    (processAndSaveFile env objectKey calculateSha256 db).2 =
      match readObject env objectKey calculateSha256 db with
      | some (.read id _ _ stored) => (saveProcessed id objectKey calculateSha256 stored db).2
      | _ => db := by
  unfold processAndSaveFile readObject
  rw [gets_bind_run]
  cases Rows.findKey FileUpload.objectKey objectKey db.fileUploads with
  | none => rfl
  | some file =>
      dsimp only
      rw [gets_bind_run]
      cases db.getObjectStat env.bucketName objectKey with
      | none => rfl
      | some stored => rfl

/-! ### The digest of a row -/

/-- The digest of the object that is stored under the key. -/
def storedDigest (env : UploadEnv) (key : String) (db : UploadDb) : Option String :=
  (db.getObjectStat env.bucketName key).bind (·.sha256)

/-- A digest on the row of the key is that of the stored object, once no processing is under way. -/
def DigestRecorded (env : UploadEnv) (key : String) (s : FileState) : Prop :=
  s.processing = [] → ∀ f ∈ s.db.fileUploads, f.objectKey = key →
    ∀ d, f.sha256 = some d → storedDigest env key s.db = some d

instance (env : UploadEnv) (key : String) (s : FileState) : Decidable (DigestRecorded env key s) :=
  inferInstanceAs (Decidable (_ → ∀ f ∈ s.db.fileUploads, _ → ∀ d ∈ f.sha256, _))

/-- The processing is going to save this digest on the row, if nothing is uploaded before it
reads the object. -/
def Processing.Brings (key : String) (id : ℕ) (d : String) : Processing → Prop
  | .called objectKey calculateSha256 => objectKey = key ∧ calculateSha256 = true
  | .read rowId _ calculateSha256 stored =>
      rowId = id ∧ calculateSha256 = true ∧ stored.sha256 = some d

instance (key : String) (id : ℕ) (d : String) : DecidablePred (Processing.Brings key id d)
  | .called _ _ => inferInstanceAs (Decidable (_ ∧ _))
  | .read _ _ _ _ => inferInstanceAs (Decidable (_ ∧ _ ∧ _))

/-- The digest that the processing saves on the row. -/
def savedDigest (id : ℕ) : Processing → Option String
  | .called _ _ => none
  | .read rowId _ calculateSha256 stored =>
      if rowId = id ∧ calculateSha256 = true then stored.sha256 else none

/-- The new digest of the object is on the row already or is going to be saved, where the row
has one. -/
def UploadBrings (key d : String) (s : FileState) : Prop :=
  ∀ f ∈ s.db.fileUploads, f.objectKey = key →
    f.sha256 = none ∨ f.sha256 = some d ∨ ∃ job ∈ s.processing, job.Brings key f.id d

/-- The digest that the processing at the position saves is that of the stored object, or the
processing that brings the right one is still under way. -/
def SavesFresh (env : UploadEnv) (key : String) (i : ℕ) (s : FileState) : Prop :=
  ∀ f ∈ s.db.fileUploads, f.objectKey = key → ∀ job ∈ s.processing[i]?, ∀ d ∈ savedDigest f.id job,
    ∃ d' ∈ storedDigest env key s.db,
      d = d' ∨ ∃ other ∈ s.processing.eraseIdx i, other.Brings key f.id d'

instance (key d : String) (s : FileState) : Decidable (UploadBrings key d s) :=
  inferInstanceAs (Decidable (∀ f ∈ s.db.fileUploads, _))

instance (env : UploadEnv) (key : String) (i : ℕ) (s : FileState) :
    Decidable (SavesFresh env key i s) :=
  inferInstanceAs (Decidable (∀ f ∈ s.db.fileUploads, _ → ∀ job ∈ s.processing[i]?,
    ∀ d ∈ savedDigest f.id job, ∃ d' ∈ storedDigest env key s.db, _))

/-- What a step must find so that no stale digest is left. -/
def KeepsDigest (env : UploadEnv) (key : String) (s : FileState) : FileEvent → Prop
  | .upload objectKey sha256 => objectKey = key → UploadBrings key sha256 s
  | .process i => SavesFresh env key i s
  | _ => True

instance (env : UploadEnv) (key : String) (s : FileState) : DecidablePred (KeepsDigest env key s)
  | .upload _ _ => inferInstanceAs (Decidable (_ → _))
  | .process i => inferInstanceAs (Decidable (SavesFresh env key i s))
  | .createFileUploadUrl _ _ _ | .setReleaseArtifact _ _ | .objectCreated _ _
  | .syncArtifactsStorageStatus | .task _ => inferInstanceAs (Decidable True)

/-! ### What the calls leave alone -/

structure FileDigest where
  id : ℕ
  objectKey : String
  sha256 : Option String

def FileUpload.digest (f : FileUpload) : FileDigest := ⟨f.id, f.objectKey, f.sha256⟩

def UploadDb.digests (db : UploadDb) : List FileDigest := db.fileUploads.map FileUpload.digest

/-- The digests of the rows, and the storage. -/
def UploadDb.contents (db : UploadDb) : List FileDigest × List StoredObject :=
  (db.digests, db.storage)

/-- A write of other columns. -/
theorem contents_updateFiles {q : FileUpload → Bool} {g : FileUpload → FileUpload}
    (hg : ∀ f, (g f).digest = f.digest) (db : UploadDb) :
    UploadDb.contents { db with fileUploads := Rows.updateWhere q g db.fileUploads } =
      db.contents := by
  show (List.map _ _, _) = _
  rw [Rows.map_updateWhere _ fun f _ _ => hg f]
  rfl

theorem updateTotalSize_contents (p : ℕ) (v : String) (db : UploadDb) :
    (updateTotalSize p v db).contents = db.contents := by
  unfold updateTotalSize
  split <;> rfl

theorem onFileChange_contents (key : Option String) :
    Frames UploadDb.contents (onFileChange key) := by
  intro observed db h
  have hchanged := onFileChange_changed key db
  generalize (onFileChange key db).2 = db' at hchanged ⊢
  cases hchanged with
  | ignored hnone => exact h
  | seen r hfind => exact (updateTotalSize_contents _ _ db).trans h
  | seenError r hfind herror => exact (updateTotalSize_contents _ _ db).trans h

theorem contents_ignoresRefresh : IgnoresRefresh UploadDb.contents where
  releases := fun _ _ _ _ => rfl
  missing := by
    intro db q
    apply contents_updateFiles
    exact fun _ => rfl
  pending := fun _ _ => rfl

theorem maybeRestoreReleasedStatus_contents (c : String) :
    Frames UploadDb.contents (maybeRestoreReleasedStatus c) :=
  contents_ignoresRefresh.maybeRestore c

theorem runPending_contents (db : UploadDb) (i : ℕ) :
    (db.runPending env i).contents = db.contents :=
  contents_ignoresRefresh.runPending db i

theorem syncArtifactsStorageStatus_contents :
    Frames UploadDb.contents (syncArtifactsStorageStatus env) := by
  intro observed
  refine Keeps.bind (Keeps.gets _) fun relevant => Keeps.forEach fun batch _ => ?_
  refine Keeps.bind (Keeps.foldEach (fun recheck a _ => ?_) []) fun recheck => ?_
  · refine Keeps.bind (Keeps.gets _) fun stat => ?_
    cases stat with
    | none =>
        refine Keeps.ite (Keeps.bind (Keeps.modify fun db h => ?_) fun _ => ?_) (Keeps.pure _)
        · refine (contents_updateFiles ?_ db).trans h
          exact fun _ => rfl
        · exact Keeps.bind (Keeps.when (Keeps.modify fun db h => h)) fun _ => Keeps.pure _
    | some stored =>
        refine Keeps.ite (Keeps.bind (Keeps.modify fun db h => ?_) fun _ => ?_) (Keeps.pure _)
        · refine (contents_updateFiles ?_ db).trans h
          exact fun _ => rfl
        · exact Keeps.ite (Keeps.pure _) (Keeps.pure _)
  · exact Keeps.forEach fun c _ => maybeRestoreReleasedStatus_contents c observed

/-- A created object: the row keeps its digest. -/
theorem updateUploadFile_contents (file : UpdateFileUploadDto) :
    Frames UploadDb.contents (updateUploadFile file) := by
  intro observed
  refine Keeps.bind (Keeps.gets _) fun found => ?_
  have hwrite : ∀ c, Keeps (fun s => UploadDb.contents s = observed) (do
      modify fun db => { db with
        fileUploads := Rows.updateWhere (fun f => f.objectKey == file.objectKey) (notified file)
          db.fileUploads }
      when c (onFileChange (some file.objectKey)) : UploadProg Unit) := by
    intro c
    refine Keeps.bind (Keeps.modify fun db h => ?_) fun _ =>
      Keeps.when (onFileChange_contents _ observed)
    refine (contents_updateFiles ?_ db).trans h
    exact fun _ => rfl
  cases found with
  | none =>
      cases file.status with
      | uploaded => exact Keeps.throw _
      | pending | uploading | removed | error => exact Keeps.pure _
  | some f => cases file.status <;> exact hwrite _

/-- A row of a request has no digest, or it has the one it had. -/
def AddsRows (db db' : UploadDb) : Prop :=
  db'.storage = db.storage ∧ ∀ x ∈ db'.digests, x ∈ db.digests ∨ x.sha256 = none

theorem AddsRows.of_contents {db' : UploadDb} (h : db'.contents = db.contents) :
    AddsRows db db' := by
  obtain ⟨hdigests, hstorage⟩ := Prod.mk.inj h
  exact ⟨hstorage, fun x hx => .inl (hdigests ▸ hx)⟩

theorem upsertFileUpload_addsRows (fileName userId objectKey bucketName : String) :
    AddsRows db (upsertFileUpload fileName userId objectKey bucketName db).2 := by
  unfold upsertFileUpload
  split
  · refine .of_contents (contents_updateFiles ?_ db)
    exact fun _ => rfl
  · refine ⟨rfl, fun x hx => ?_⟩
    obtain ⟨f, hf, rfl⟩ := List.mem_map.mp hx
    rcases List.mem_append.mp hf with hold | hnew
    · exact .inl (List.mem_map_of_mem hold)
    · rw [List.mem_singleton.mp hnew]
      exact .inr rfl

theorem setReleaseArtifact_addsRows (dto : SetReleaseArtifactDto) :
    AddsRows db (setReleaseArtifact env dto db).2 := by
  have hfile : AddsRows db (fileStep env dto db).2 := by
    unfold fileStep
    split
    · exact upsertFileUpload_addsRows _ _ _ _
    · exact .of_contents rfl
  have hset := setReleaseArtifact_set env dto db
  generalize (setReleaseArtifact env dto db).2 = db' at hset ⊢
  cases hset with
  | refused => exact .of_contents rfl
  | fileOnly r hfind hedit => exact hfile
  | set r db₁ hfind hedit hups =>
      have hrow : db₁.contents = (fileStep env dto db).2.contents := by
        cases hups <;> rfl
      have htotal : (if dto.type = .file then updateTotalSize dto.projectId dto.version db₁
          else start (.refreshReleaseState dto.projectId dto.version)
            (updateTotalSize dto.projectId dto.version db₁)).contents =
          (fileStep env dto db).2.contents := by
        split <;> exact (updateTotalSize_contents _ _ db₁).trans hrow
      obtain ⟨hdigests, hstorage⟩ := Prod.mk.inj htotal
      refine ⟨hstorage.trans hfile.1, fun x hx => hfile.2 x ?_⟩
      rw [← hdigests]
      exact hx

/-! ### Backed digests -/

/-- A digest on the row of the key is that of the stored object, or a processing brings it. -/
def Backed (env : UploadEnv) (key : String) (s : FileState) : Prop :=
  ∀ x ∈ s.db.digests, x.objectKey = key → x.sha256 = none ∨
    ∃ d, storedDigest env key s.db = some d ∧
      (x.sha256 = some d ∨ ∃ job ∈ s.processing, job.Brings key x.id d)

theorem storedDigest_congr {db' : UploadDb} (h : db'.storage = db.storage) :
    storedDigest env key db' = storedDigest env key db := by
  unfold storedDigest UploadDb.getObjectStat
  rw [h]

/-- Rows come without a digest, and no processing is lost. -/
theorem Backed.addsRows {s s' : FileState} (h : Backed env key s) (hrows : AddsRows s.db s'.db)
    (hjobs : s.processing ⊆ s'.processing) : Backed env key s' := by
  intro x hx hkey
  rcases hrows.2 x hx with hold | hnone
  · rcases h x hold hkey with hnone | ⟨d, hstored, hd⟩
    · exact .inl hnone
    · refine .inr ⟨d, (storedDigest_congr hrows.1).trans hstored, ?_⟩
      rcases hd with hd | ⟨job, hjob, hbrings⟩
      · exact .inl hd
      · exact .inr ⟨job, hjobs hjob, hbrings⟩
  · exact .inl hnone

/-- The object that is put under a key is what the storage answers. -/
theorem getObjectStat_putObject (objectKey d : String) :
    (db.putObject env.bucketName objectKey d).getObjectStat env.bucketName key =
      if objectKey = key then some ⟨env.bucketName, objectKey, some d⟩
      else db.getObjectStat env.bucketName key := by
  unfold UploadDb.getObjectStat UploadDb.putObject
  rw [List.find?_append]
  by_cases hkey : objectKey = key
  · have hgone : (Rows.deleteWhere (fun o : StoredObject => o.bucketName == env.bucketName &&
        o.objectKey == objectKey) db.storage).find? (fun o => o.bucketName == env.bucketName &&
          o.objectKey == key) = none := by
      rw [List.find?_eq_none]
      intro o ho
      rw [← hkey, (Rows.mem_deleteWhere.mp ho).2]
      exact Bool.false_ne_true
    rw [if_pos hkey, hgone, hkey]
    simp
  · -- the object that goes is another one, and so is the one that comes
    rw [if_neg hkey, Rows.find?_deleteWhere]
    · simp [hkey]
    · intro o _ ho
      simp only [Bool.and_eq_true, beq_iff_eq] at ho
      simp [ho.2, hkey]

/-- **Step.** An upload leaves a digest that is backed, where its own is on the way. -/
theorem upload_backed {s : FileState} (h : Backed env key s) {objectKey d : String}
    (hbrings : objectKey = key → UploadBrings key d s) :
    Backed env key { s with db := s.db.putObject env.bucketName objectKey d } := by
  intro x hx hkey
  unfold storedDigest
  rw [getObjectStat_putObject]
  by_cases hown : objectKey = key
  · obtain ⟨f, hf, rfl⟩ := List.mem_map.mp hx
    rw [if_pos hown]
    rcases hbrings hown f hf hkey with hnone | hd | hjob
    · exact .inl hnone
    · exact .inr ⟨d, rfl, .inl hd⟩
    · exact .inr ⟨d, rfl, .inr hjob⟩
  · rw [if_neg hown]
    exact h x hx hkey

/-- The rows after a processing has saved. -/
theorem saveProcessed_contents (id : ℕ) (objectKey : String) (calculateSha256 : Bool)
    (stored : StoredObject) (db : UploadDb) :
    (saveProcessed id objectKey calculateSha256 stored db).2.contents =
      (db.digests.map fun x => { x with
        sha256 := (savedDigest x.id (.read id objectKey calculateSha256 stored)).or x.sha256 },
        db.storage) := by
  have hsaved : (updateFileUpload id (processed calculateSha256 stored) db).contents =
      (db.digests.map fun x => { x with
        sha256 := (savedDigest x.id (.read id objectKey calculateSha256 stored)).or x.sha256 },
        db.storage) := by
    unfold UploadDb.contents UploadDb.digests updateFileUpload Rows.updateWhere
    rw [List.map_map, List.map_map]
    congr 1
    apply List.map_congr_left
    intro f _
    show FileUpload.digest (if f.id == id then processed calculateSha256 stored f else f) =
      ⟨f.id, f.objectKey, (if id = f.id ∧ calculateSha256 = true then stored.sha256 else none).or f.sha256⟩
    by_cases hid : f.id = id
    · rw [if_pos (beq_iff_eq.mpr hid)]
      cases calculateSha256 with
      | true =>
          rw [if_pos ⟨hid.symm, rfl⟩]
          rfl
      | false =>
          rw [if_neg (fun hc => Bool.false_ne_true hc.2)]
          rfl
    · rw [if_neg (fun hc => hid (beq_iff_eq.mp hc)), if_neg (fun hc => hid hc.1.symm)]
      rfl
  unfold saveProcessed
  rw [modify_bind_run, ← hsaved]
  unfold when
  split
  · exact (onFileChange_contents _ _ _ rfl)
  · rfl

/-- A processing that was going to bring the digest reads the object that has it. -/
theorem readObject_brings (hdb : db.Constraints) {x : FileDigest} (hx : x ∈ db.digests)
    (hkey : x.objectKey = key) {d : String} (hstored : storedDigest env key db = some d) :
    ∃ job ∈ readObject env key true db, job.Brings key x.id d := by
  obtain ⟨f, hf, rfl⟩ := List.mem_map.mp hx
  obtain ⟨o, ho, hd⟩ := Option.bind_eq_some_iff.mp hstored
  have hfind : Rows.findKey FileUpload.objectKey key db.fileUploads = some f := by
    rw [← hkey]
    exact Rows.findKey_unique hdb.fileObjectKeys hf
  unfold readObject
  rw [hfind, ho]
  exact ⟨_, rfl, rfl, rfl, hd⟩

/-- **Step.** A processing that goes on leaves a digest that is backed, where it saves no stale
one last. -/
theorem process_backed {s : FileState} (hdb : s.db.Constraints) (h : Backed env key s) {i : ℕ}
    (hfresh : SavesFresh env key i s) : Backed env key (s.process env i) := by
  unfold FileState.process
  cases hi : s.processing[i]? with
  | none => exact h
  | some job =>
      cases job with
      | called objectKey calculateSha256 =>
          intro x hx hkey
          rcases h x hx hkey with hnone | ⟨d, hstored, hd⟩
          · exact .inl hnone
          · refine .inr ⟨d, hstored, ?_⟩
            rcases hd with hd | ⟨other, hother, hbrings⟩
            · exact .inl hd
            · right
              rcases Worklist.mem_eraseIdx hi hother with rfl | hrest
              · obtain ⟨rfl, rfl⟩ := hbrings
                obtain ⟨next, hnext, hbrings⟩ := readObject_brings hdb hx hkey hstored
                exact ⟨next, List.mem_append_right _ (Option.mem_toList.mpr hnext), hbrings⟩
              · exact ⟨other, List.mem_append_left _ hrest, hbrings⟩
      | read id objectKey calculateSha256 stored =>
          obtain ⟨hdigests, hstorage⟩ :=
            Prod.mk.inj (saveProcessed_contents id objectKey calculateSha256 stored s.db)
          intro y hy hkey
          change y ∈ (saveProcessed id objectKey calculateSha256 stored s.db).2.digests at hy
          rw [hdigests] at hy
          obtain ⟨x, hx, rfl⟩ := List.mem_map.mp hy
          obtain ⟨f, hf, rfl⟩ := List.mem_map.mp hx
          show Option.or _ _ = none ∨ ∃ d,
            storedDigest env key (saveProcessed id objectKey calculateSha256 stored s.db).2 = some d ∧ _
          rw [storedDigest_congr hstorage]
          cases hsaved : savedDigest f.id (.read id objectKey calculateSha256 stored) with
          | some d =>
              -- the condition tells what is left after this save
              obtain ⟨d', hstored, hd⟩ := hfresh f hf hkey _ hi d hsaved
              refine .inr ⟨d', hstored, ?_⟩
              rcases hd with rfl | hother
              · left
                show (savedDigest f.id (.read id objectKey calculateSha256 stored)).or f.sha256 = _
                rw [hsaved]
                rfl
              · exact .inr hother
          | none =>
              have hsame : (savedDigest f.digest.id (.read id objectKey calculateSha256 stored)).or
                  f.digest.sha256 = f.sha256 := by
                show (savedDigest f.id _).or f.sha256 = _
                rw [hsaved]
                rfl
              rw [hsame]
              rcases h f.digest hx hkey with hnone | ⟨d, hstored, hd⟩
              · exact .inl hnone
              · refine .inr ⟨d, hstored, ?_⟩
                rcases hd with hd | ⟨other, hother, hbrings⟩
                · exact .inl hd
                · right
                  rcases Worklist.mem_eraseIdx hi hother with rfl | hrest
                  · -- it would have saved the digest here
                    obtain ⟨rfl, rfl, hbrought⟩ := hbrings
                    change (if f.id = f.id ∧ true = true then stored.sha256 else none) = none at hsaved
                    rw [if_pos ⟨rfl, rfl⟩, hbrought] at hsaved
                    cases hsaved
                  · exact ⟨other, hrest, hbrings⟩

/-! ### Runs -/

theorem step_fileConstraints {s : FileState} (h : s.db.Constraints) (e : FileEvent) :
    (s.step env cosign e).db.Constraints := by
  cases e with
  | createFileUploadUrl userId objectKey fileName =>
      exact (upsertFileUpload_constraints _ _ _ _ h).1
  | setReleaseArtifact caller dto => exact setReleaseArtifact_constraints dto s.db h
  | upload objectKey sha256 => exact { h with }
  | objectCreated objectKey size => exact updateUploadFile_constraints _ s.db h
  | syncArtifactsStorageStatus => exact syncArtifactsStorageStatus_constraints s.db h
  | process i =>
      show (s.process env i).db.Constraints
      unfold FileState.process
      split
      · exact h
      · exact h
      · refine Keeps.bind (Keeps.modify fun _ h => h.updateFiles fun _ => ⟨rfl, rfl⟩)
          (fun _ => Keeps.when (onFileChange_constraints _)) s.db h
  | task i => exact runPending_constraints h i

theorem step_backed {s : FileState} (hdb : s.db.Constraints) (h : Backed env key s) {e : FileEvent}
    (hkeeps : KeepsDigest env key s e) : Backed env key (s.step env cosign e) := by
  cases e with
  | createFileUploadUrl userId objectKey fileName =>
      exact h.addsRows (upsertFileUpload_addsRows _ _ _ _) (List.Subset.refl _)
  | setReleaseArtifact caller dto =>
      exact h.addsRows (setReleaseArtifact_addsRows dto) (List.Subset.refl _)
  | upload objectKey sha256 => exact upload_backed h hkeeps
  | objectCreated objectKey size =>
      apply h.addsRows
      · exact .of_contents (updateUploadFile_contents _ _ s.db rfl)
      · exact List.subset_append_left _ _
  | syncArtifactsStorageStatus =>
      apply h.addsRows
      · exact .of_contents (syncArtifactsStorageStatus_contents _ s.db rfl)
      · exact List.Subset.refl _
  | process i => exact process_backed hdb h hkeeps
  | task i => exact h.addsRows (.of_contents (runPending_contents s.db i)) (List.Subset.refl _)

/-- **Main result.** Along every run whose steps all meet the condition, a digest on the row of
the key is that of the stored object whenever no processing is under way. -/
theorem digest_along_runs (env : UploadEnv) (cosign : Bool) (key : String) (s : FileState)
    (es : List FileEvent) (hdb : s.db.Constraints) (hidle : s.processing = [])
    (hstart : DigestRecorded env key s)
    (h : Runs.Along (FileState.step env cosign) (KeepsDigest env key) s es) :
    DigestRecorded env key (Runs.run (FileState.step env cosign) s es) := by
  have hbacked : Backed env key s := by
    intro x hx hkey
    obtain ⟨f, hf, rfl⟩ := List.mem_map.mp hx
    cases hsha : f.sha256 with
    | none => exact .inl hsha
    | some d => exact .inr ⟨d, hstart hidle f hf hkey d hsha, .inl hsha⟩
  have hstep : ∀ (s : FileState) e, (s.db.Constraints ∧ Backed env key s) → KeepsDigest env key s e →
      (s.step env cosign e).db.Constraints ∧ Backed env key (s.step env cosign e) :=
    fun s e hs hC => ⟨step_fileConstraints hs.1 e, step_backed hs.1 hs.2 hC⟩
  have hend := (Runs.invariant_along hstep ⟨hdb, hbacked⟩ h).2
  intro hidle f hf hkey d hsha
  rcases hend f.digest (List.mem_map_of_mem hf) hkey with hnone | ⟨d', hstored, hd | ⟨job, hjob, -⟩⟩
  · rw [show f.sha256 = none from hnone] at hsha
    cases hsha
  · rw [hstored, ← hd]
    exact hsha
  · rw [hidle] at hjob
    cases hjob

/-! ### One key, two objects -/

/-- A file is requested and uploaded, reported, and processed. -/
def uploadedOnce : List FileEvent :=
  [.createFileUploadUrl "eve" none "app.bin", .upload "upload/eve/app.bin" "aa",
    .objectCreated "upload/eve/app.bin" (some 10), .process 0, .process 0]

theorem uploaded_once_recorded :
    let s := Runs.run (FileState.step plainUploadEnv false) ⟨oneProject, []⟩ uploadedOnce
    s.processing = [] ∧ (s.db.fileUploads.map (·.sha256)) = [some "aa"] ∧
      DigestRecorded plainUploadEnv "upload/eve/app.bin" s := by
  refine ⟨by decide, by decide, ?_⟩
  apply digest_along_runs plainUploadEnv false "upload/eve/app.bin" ⟨oneProject, []⟩ uploadedOnce
  · exact oneProject_constraints
  · rfl
  · exact fun _ f hf => absurd hf List.not_mem_nil
  · decide

/-- Another object is uploaded under the same key, and reported: nothing is started, and the row
keeps the digest of the first. -/
theorem uploaded_again_stale :
    let s := Runs.run (FileState.step plainUploadEnv false) ⟨oneProject, []⟩
      (uploadedOnce ++ [.upload "upload/eve/app.bin" "bb",
        .objectCreated "upload/eve/app.bin" (some 10)])
    s.processing = [] ∧ s.db.pending = [] ∧ (s.db.fileUploads.map (·.sha256)) = [some "aa"] ∧
      storedDigest plainUploadEnv "upload/eve/app.bin" s.db = some "bb" ∧
      ¬ DigestRecorded plainUploadEnv "upload/eve/app.bin" s := by
  decide

end UploadService
