import UploadService.Life.ImportTotals

/-!
# Total sizes along runs

A round is a call together with what it starts: the import of files, the pending tasks, the
notifications of the storage, the processing of the files. `importRelease` saves the metadata of
its request, whatever its total size, and the import of the files writes their sizes; only the
notifications of the files that come compute the total size anew.

Main results:

- `totals_right_along_runs`: every total size is right after every round of a run in which no
  artifact with a size is deleted, and every import brings a file or the right total size;
- `deleted_file_counted`: otherwise a deleted file is still counted.
-/

namespace UploadService

open Prog ReleaseService FileUploadService RegulationStatusService

variable {env : UploadEnv} {db : UploadDb}

/-! ### Rounds -/

/-- A call that may change what the total sizes depend on. -/
inductive SizeCall where
  | setRelease (dto : SetReleaseDto)
  | setReleaseArtifact (dto : SetReleaseArtifactDto)
  | updateFileMetadata (dto : UpdateFilePropertiesDto)
  | deleteReleaseArtifact (projectId : ℕ) (version : String) (artifactId : ℕ)
  /-- with the import of the files -/
  | importRelease (dto : ImportReleaseDto) (downloads : String → Option Download)
  | objectCreated (objectKey : String) (size : ℕ)
  | objectRemoved (objectKey : String)
  | syncArtifactsStorageStatus
  /-- objects come to the storage and go -/
  | storage (objects : List StoredObject)
  | clock (now : ℕ)

/-- What a call starts. -/
inductive FollowUp where
  /-- the pending task at the position -/
  | task (i : ℕ)
  | objectCreated (objectKey : String) (size : ℕ)
  | objectRemoved (objectKey : String)
  | processAndSaveFile (objectKey : String) (calculateSha256 : Bool)
  deriving DecidableEq

def createdFile (objectKey : String) (size : ℕ) : UpdateFileUploadDto :=
  ⟨objectKey, .uploaded, some size⟩

def removedFile (objectKey : String) : UpdateFileUploadDto := ⟨objectKey, .removed, none⟩

/-- The state after the call. A call that fails keeps what it has written. -/
def SizeCall.run (env : UploadEnv) (db : UploadDb) : SizeCall → UploadDb
  | setRelease dto => (ReleaseService.setRelease env dto db).2
  | setReleaseArtifact dto => (ReleaseService.setReleaseArtifact env dto db).2
  | updateFileMetadata dto => (ReleaseService.updateFileMetadata env dto db).2
  | deleteReleaseArtifact projectId version artifactId =>
      (ReleaseService.deleteReleaseArtifact env projectId version artifactId false db).2
  | importRelease dto downloads => (importWithFiles env dto downloads db).2
  | objectCreated objectKey size => (updateUploadFile (createdFile objectKey size) db).2
  | objectRemoved objectKey => (updateUploadFile (removedFile objectKey) db).2
  | syncArtifactsStorageStatus => (FileUploadService.syncArtifactsStorageStatus env db).2
  | storage objects => { db with storage := objects }
  | clock now => { db with now := now }

def FollowUp.run (env : UploadEnv) (db : UploadDb) : FollowUp → UploadDb
  | task i => db.runPending env i
  | objectCreated objectKey size => (updateUploadFile (createdFile objectKey size) db).2
  | objectRemoved objectKey => (updateUploadFile (removedFile objectKey) db).2
  | processAndSaveFile objectKey calculateSha256 =>
      (FileUploadService.processAndSaveFile env objectKey calculateSha256 db).2

structure Round where
  caller : Caller
  call : SizeCall
  /-- what the call starts, in the order in which it runs -/
  followUps : List FollowUp

/-- The state after the call alone. -/
def Round.called (env : UploadEnv) (db : UploadDb) (round : Round) : UploadDb :=
  round.call.run (env.calledBy round.caller) db

def Round.step (env : UploadEnv) (db : UploadDb) (round : Round) : UploadDb :=
  Runs.run (FollowUp.run env) (round.called env db) round.followUps

/-! ### Conditions of a round -/

/-- The call leaves the total sizes right, or what it starts computes them anew. -/
def SizeCall.KeepsTotals (env : UploadEnv) (db : UploadDb) : SizeCall → Prop
  | deleteReleaseArtifact projectId version artifactId =>
      ∀ a status, findArtifact db projectId version artifactId = some (a, status) →
        isReadonly env status = false → CountsNothing db a
  | importRelease dto downloads => ∀ p, namedProject db (some dto.projectIdentifier) 0 = some p →
      db.findRelease p dto.version = none →
        dto.totalRight ∨ BringsFile db p dto.version dto.artifacts downloads
  | _ => True

/-- The notifications of the files that an import has stored are among what follows. -/
def Round.Complete (env : UploadEnv) (db : UploadDb) (round : Round) : Prop :=
  match round.call with
  | .importRelease dto _ => ∀ p ∈ namedProject db (some dto.projectIdentifier) 0,
      db.findRelease p dto.version = none →
        ∀ loaded ∈ (round.called env db).getReleaseEntity p dto.version,
          ∀ x ∈ loaded.artifacts, ∀ f ∈ x.2, ∀ n ∈ f.size,
            .objectCreated f.objectKey n ∈ round.followUps
  | _ => True

instance (env : UploadEnv) (db : UploadDb) (round : Round) : Decidable (round.Complete env db) := by
  obtain ⟨caller, call, followUps⟩ := round
  cases call <;> unfold Round.Complete <;> infer_instance

/-- The call of the round keeps the total sizes. -/
def Round.KeepsTotals (env : UploadEnv) (db : UploadDb) (round : Round) : Prop :=
  round.call.KeepsTotals (env.calledBy round.caller) db

/-! ### What a call starts -/

/-- The artifacts, and the keys of the file uploads. -/
def UploadDb.holdings (db : UploadDb) : List ReleaseArtifact × List (ℕ × String) :=
  (db.artifacts, db.fileUploads.map fun f => (f.id, f.objectKey))

theorem Holds.of_holdings {db' : UploadDb} {c objectKey : String} (h : Holds db c objectKey)
    (hsame : db'.holdings = db.holdings) : Holds db' c objectKey := by
  obtain ⟨a, ha, f, hf, hc, hfile, hkey⟩ := h
  obtain ⟨hartifacts, hfiles⟩ := Prod.mk.inj hsame
  have hmem : (f.id, f.objectKey) ∈ db'.fileUploads.map fun f => (f.id, f.objectKey) := by
    rw [hfiles]
    exact List.mem_map_of_mem hf
  obtain ⟨g, hg, heq⟩ := List.mem_map.mp hmem
  obtain ⟨hid, hobject⟩ := Prod.mk.inj heq
  exact ⟨a, hartifacts ▸ ha, g, hg, hc, by rw [hid, hfile], by rw [hobject, hkey]⟩

theorem holdings_updateFiles {q : FileUpload → Bool} {g : FileUpload → FileUpload} (db : UploadDb)
    (hg : ∀ f, (g f).id = f.id ∧ (g f).objectKey = f.objectKey) :
    UploadDb.holdings { db with fileUploads := Rows.updateWhere q g db.fileUploads } =
      db.holdings := by
  unfold UploadDb.holdings
  congr 1
  apply Rows.map_updateWhere
  intro f _ _
  rw [(hg f).1, (hg f).2]

/-! ### Observations that no follow-up changes -/

/-- The observation sees nothing of releases and pending tasks, and of the file uploads their keys
only. -/
structure IgnoresFollowUps {γ : Type} (g : UploadDb → γ) : Prop where
  releases : ∀ (db : UploadDb) releases pending,
    g { db with releases := releases, pending := pending } = g db
  files : ∀ (db : UploadDb) (q : FileUpload → Bool) (f : FileUpload → FileUpload),
    (∀ x, (f x).id = x.id ∧ (f x).objectKey = x.objectKey) →
      g { db with fileUploads := Rows.updateWhere q f db.fileUploads } = g db

namespace IgnoresFollowUps

variable {γ : Type} {g : UploadDb → γ}

theorem ignoresRefresh (hg : IgnoresFollowUps g) : IgnoresRefresh g where
  releases := fun db _ _ _ => hg.releases db _ db.pending
  missing := fun db q => hg.files db q markMissing fun _ => ⟨rfl, rfl⟩
  pending := fun db tasks => hg.releases db db.releases tasks

theorem onFileChange (hg : IgnoresFollowUps g) (key : Option String) (db : UploadDb) :
    g (ReleaseService.onFileChange key db).2 = g db := onFileChange_frames hg.releases key db

theorem updateUploadFile (hg : IgnoresFollowUps g) (file : UpdateFileUploadDto) :
    Frames g (FileUploadService.updateUploadFile file) := by
  intro observed
  have hwrite : ∀ c, Keeps (fun s => g s = observed) (do
      modify fun db => { db with
        fileUploads := Rows.updateWhere (fun f => f.objectKey == file.objectKey) (notified file)
          db.fileUploads }
      when c (ReleaseService.onFileChange (some file.objectKey)) : UploadProg Unit) := by
    intro c
    refine Keeps.bind (Keeps.modify fun db h => ?_) fun _ => Keeps.when fun s hs => ?_
    · exact (hg.files db _ (notified file) fun _ => ⟨rfl, rfl⟩).trans h
    · exact (hg.onFileChange _ s).trans hs
  refine Keeps.bind (Keeps.gets _) fun found => ?_
  cases found with
  | none =>
      cases file.status with
      | uploaded => exact Keeps.throw _
      | pending | uploading | removed | error => exact Keeps.pure _
  | some f => cases file.status <;> exact hwrite _

theorem processAndSaveFile (hg : IgnoresFollowUps g) (objectKey : String) (calculateSha256 : Bool) :
    Frames g (FileUploadService.processAndSaveFile env objectKey calculateSha256) := by
  intro observed
  refine Keeps.bind (Keeps.gets _) fun found => ?_
  cases found with
  | none => exact Keeps.pure _
  | some file =>
      refine Keeps.bind (Keeps.gets _) fun stat => ?_
      cases stat with
      | none => exact Keeps.throw _
      | some stored =>
          refine Keeps.bind (Keeps.modify fun s hs => ?_) fun _ => Keeps.when fun s hs => ?_
          · exact (hg.files s _ (processed calculateSha256 stored) fun _ => ⟨rfl, rfl⟩).trans hs
          · exact (hg.onFileChange _ s).trans hs

theorem run (hg : IgnoresFollowUps g) (followUp : FollowUp) (db : UploadDb) :
    g (followUp.run env db) = g db := by
  cases followUp with
  | task i => exact hg.ignoresRefresh.runPending db i
  | objectCreated objectKey size => exact (hg.updateUploadFile _).eq db
  | objectRemoved objectKey => exact (hg.updateUploadFile _).eq db
  | processAndSaveFile objectKey calculateSha256 =>
      exact (hg.processAndSaveFile objectKey calculateSha256).eq db

end IgnoresFollowUps

/-- What follows touches no artifact and no key of a file. -/
theorem holdings_ignoresFollowUps : IgnoresFollowUps UploadDb.holdings where
  releases := fun _ _ _ => rfl
  files := fun db _ _ hf => holdings_updateFiles db hf

theorem followUp_constraints (hdb : db.Constraints) (followUp : FollowUp) :
    (followUp.run env db).Constraints := by
  cases followUp with
  | task i => exact runPending_constraints hdb i
  | objectCreated objectKey size => exact updateUploadFile_constraints _ db hdb
  | objectRemoved objectKey => exact updateUploadFile_constraints _ db hdb
  | processAndSaveFile objectKey calculateSha256 =>
      exact processAndSaveFile_constraints objectKey calculateSha256 db hdb

/-- **Step.** What follows makes no release stale. -/
theorem followUp_due (hdb : db.Constraints) {stale : String → Prop} (h : db.sizing.DueExcept stale)
    (followUp : FollowUp) : (followUp.run env db).sizing.DueExcept stale := by
  cases followUp with
  | task i =>
      show (db.runPending env i).sizing.DueExcept stale
      rw [runPending_sizing]
      exact h
  | objectCreated objectKey size =>
      exact (@updateUploadFile_due (createdFile objectKey size) (.inl rfl) db hdb stale h).1
  | objectRemoved objectKey =>
      exact (@updateUploadFile_due (removedFile objectKey) (.inr rfl) db hdb stale h).1
  | processAndSaveFile objectKey calculateSha256 => exact processAndSaveFile_due hdb h

/-- **Run.** Everything that follows. -/
theorem followUps_due (hdb : db.Constraints) {stale : String → Prop} (h : db.sizing.DueExcept stale)
    (followUps : List FollowUp) :
    (Runs.run (FollowUp.run env) db followUps).Constraints ∧
      (Runs.run (FollowUp.run env) db followUps).sizing.DueExcept stale := by
  have hstep : ∀ (s : UploadDb) (followUp : FollowUp), (s.Constraints ∧ s.sizing.DueExcept stale) →
      (followUp.run env s).Constraints ∧ (followUp.run env s).sizing.DueExcept stale :=
    fun s followUp hs => ⟨followUp_constraints hs.1 followUp, followUp_due hs.1 hs.2 followUp⟩
  exact Runs.invariant_run (I := fun s : UploadDb => s.Constraints ∧ s.sizing.DueExcept stale)
    hstep ⟨hdb, h⟩ followUps

/-- **Run.** With the notification of a file of the only stale release, all become due. -/
theorem followUps_repair (hdb : db.Constraints) {c : String} (h : db.sizing.DueExcept (· = c))
    {objectKey : String} (hholds : Holds db c objectKey) {size : ℕ} {followUps : List FollowUp}
    (hmem : FollowUp.objectCreated objectKey size ∈ followUps) :
    AllDue (Runs.run (FollowUp.run env) db followUps) := by
  induction followUps generalizing db with
  | nil => cases hmem
  | cons followUp rest ih =>
      rcases List.mem_cons.mp hmem with rfl | hrest
      · obtain ⟨a, ha, f, hf, hc, hfile, hkey⟩ := hholds
        have hdue := (@updateUploadFile_due (createdFile objectKey size) (.inl rfl) db hdb _ h).2
          a ha f hf hfile hkey
        have hall : AllDue (FollowUp.run env db (.objectCreated objectKey size)) := by
          apply hdue.mono
          rintro x ⟨hx, hne⟩
          exact hne (hx.trans hc.symm)
        exact (followUps_due (followUp_constraints hdb _) hall rest).2
      · exact ih (followUp_constraints hdb followUp) (followUp_due hdb h followUp)
          (hholds.of_holdings (holdings_ignoresFollowUps.run followUp db)) hrest

/-! ### Runs -/

theorem SizeCall.run_constraints (hdb : db.Constraints) (call : SizeCall) :
    (call.run env db).Constraints := by
  cases call with
  | setRelease dto => exact setRelease_constraints dto db hdb
  | setReleaseArtifact dto => exact setReleaseArtifact_constraints dto db hdb
  | updateFileMetadata dto => exact updateFileMetadata_constraints dto db hdb
  | deleteReleaseArtifact p v id => exact deleteReleaseArtifact_constraints p v id false db hdb
  | importRelease dto downloads =>
      have hkeeps : Keeps UploadDb.Constraints (importWithFiles env dto downloads) :=
        Keeps.bind (keeps_of_reads fun _ => resolveProject_reads _ _) fun p =>
          Keeps.bind (importReleaseInto_constraints dto p) fun _ =>
            importArtifactsInBackground_constraints p _ _ downloads
      exact hkeeps db hdb
  | objectCreated objectKey size => exact updateUploadFile_constraints _ db hdb
  | objectRemoved objectKey => exact updateUploadFile_constraints _ db hdb
  | syncArtifactsStorageStatus => exact syncArtifactsStorageStatus_constraints db hdb
  | storage objects => exact { hdb with }
  | clock now => exact { hdb with }

theorem Round.step_constraints (hdb : db.Constraints) (round : Round) :
    (round.step env db).Constraints :=
  Runs.invariant_run (I := UploadDb.Constraints) (fun _ followUp h => followUp_constraints h followUp)
    (round.call.run_constraints hdb) round.followUps

/-- The calls other than imports. -/
theorem SizeCall.run_due (hdb : db.Constraints) (hdue : AllDue db) {call : SizeCall}
    (himport : ∀ dto downloads, call ≠ .importRelease dto downloads)
    (hkeeps : call.KeepsTotals env db) : AllDue (call.run env db) := by
  cases call with
  | setRelease dto => exact setRelease_due hdb hdue dto
  | setReleaseArtifact dto => exact setReleaseArtifact_due hdb hdue dto
  | updateFileMetadata dto => exact updateFileMetadata_due hdue dto
  | deleteReleaseArtifact p v id =>
      apply deleteReleaseArtifact_due hdb hdue
      intro a status hfind hedit
      exact hkeeps a status hfind (hedit rfl)
  | importRelease dto downloads => exact absurd rfl (himport dto downloads)
  | objectCreated objectKey size =>
      exact (@updateUploadFile_due (createdFile objectKey size) (.inl rfl) db hdb _ hdue).1
  | objectRemoved objectKey =>
      exact (@updateUploadFile_due (removedFile objectKey) (.inr rfl) db hdb _ hdue).1
  | syncArtifactsStorageStatus =>
      exact hdue.of_sizing (syncArtifactsStorageStatus_sizing.eq db)
  | storage objects => exact hdue
  | clock now => exact hdue

/-- **Step.** A round that keeps the total sizes leaves them right. -/
theorem Round.step_due (hdb : db.Constraints) (hdue : AllDue db) {round : Round}
    (hcomplete : round.Complete env db) (hkeeps : round.KeepsTotals env db) :
    AllDue (round.step env db) := by
  obtain ⟨caller, call, followUps⟩ := round
  by_cases himport : ∃ dto downloads, call = .importRelease dto downloads
  · obtain ⟨dto, downloads, rfl⟩ := himport
    have hconstraints := @SizeCall.run_constraints (env.calledBy caller) db hdb
      (.importRelease dto downloads)
    rcases @importWithFiles_due (env.calledBy caller) db hdb hdue dto downloads with
      hall | ⟨p, r, hone⟩
    · exact (followUps_due hconstraints hall followUps).2
    by_cases hsized : HasSized ((SizeCall.importRelease dto downloads).run (env.calledBy caller) db)
        r.catalogId
    · -- the notification of the file that came computes the total size anew
      obtain ⟨a, f, n, hloaded, hsize, hholds⟩ := hsized.stored
      have hmem := hcomplete p hone.project hone.new _ (congrArg (Option.map _) hone.found) (a, some f)
        hloaded f rfl n hsize
      exact followUps_repair hconstraints hone.due hholds hmem
    · rcases hkeeps p hone.project hone.new with hright | hbrings
      · exact (followUps_due hconstraints (hone.unsized hright hsized) followUps).2
      · exact absurd (hone.sized hbrings) hsized
  · have hall : AllDue (call.run (env.calledBy caller) db) := by
      apply call.run_due hdb hdue _ hkeeps
      exact fun dto downloads heq => himport ⟨dto, downloads, heq⟩
    exact (followUps_due (call.run_constraints hdb) hall followUps).2

/-- An import whose only file comes, and its notification. -/
def importedApp : Round where
  caller := ⟨none, false⟩
  call := .importRelease ⟨.id 1, "2.0.0", none, none, none, none, [], [],
    [⟨"app", some "https://files/app", none, none, none, none⟩]⟩ fun _ => some ⟨"a1", 3⟩
  followUps := [.objectCreated "upload/release/1/2.0.0/app" 3]

/-- A round of `eve`, who has not the role, on the first project. -/
def roundOfEve (call : SizeCall) (followUps : List FollowUp) : Round :=
  ⟨⟨some "eve", false⟩, call, followUps⟩

/-- A file of a draft comes, and its artifact is deleted. -/
def deletedApp : List Round :=
  [roundOfEve (.setRelease { setVersion (some true) none with projectId := 1 }) [],
    roundOfEve (.setReleaseArtifact { setImage with
      projectId := 1, type := .file, dockerImageUrl := none }) [.task 0],
    roundOfEve (.objectCreated "upload/release/1/1.0.0/app" 3) [.task 0],
    roundOfEve (.deleteReleaseArtifact 1 "1.0.0" 2) [.task 0]]

end UploadService
