import UploadService.Life.Schema
import UploadService.Life.Untouched

/-!
# The standing of releases

A release stands somewhere: its keys, its status with the time it was released, its place in
the order and the latest flag. Most calls write artifacts, files and regulation statuses,
and of a release no more than its metadata and counts; they leave the standings alone.

Main results:

- `SeesStandings.handle`: the handlers on artifacts and regulation statuses;
- `SeesStandings.updateUploadFile`, `SeesStandings.processAndSaveFile`: the notifications;
- `SeesStandings.tryImportArtifact`: an artifact of an import;
- `deleteRelease_standings`: the delete of a release.
-/

namespace UploadService

open Prog ReleaseService FileUploadService RegulationStatusService

structure Standing where
  catalogId : String
  projectId : ℕ
  version : String
  status : ReleaseStatus
  releasedAt : Option ℕ
  sortOrder : ℕ
  latest : Bool
  deriving DecidableEq, Repr

def Release.standing (r : Release) : Standing where
  catalogId := r.catalogId
  projectId := r.projectId
  version := r.version
  status := r.status
  releasedAt := r.releasedAt
  sortOrder := r.sortOrder
  latest := r.latest

namespace Release

@[simp] theorem standing_catalogId (r : Release) : r.standing.catalogId = r.catalogId := rfl

@[simp] theorem standing_projectId (r : Release) : r.standing.projectId = r.projectId := rfl

@[simp] theorem standing_version (r : Release) : r.standing.version = r.version := rfl

@[simp] theorem standing_status (r : Release) : r.standing.status = r.status := rfl

@[simp] theorem standing_sortOrder (r : Release) : r.standing.sortOrder = r.sortOrder := rfl

@[simp] theorem standing_latest (r : Release) : r.standing.latest = r.latest := rfl

end Release

def UploadDb.standings (db : UploadDb) : List Standing := db.releases.map Release.standing

variable {env : UploadEnv} {db : UploadDb} {γ : Type} {g : UploadDb → γ}

/-- An observation that sees of the releases their standings only, and nothing of artifacts,
files, regulation statuses, component uploads and pending tasks. -/
def SeesStandings (g : UploadDb → γ) : Prop :=
  ∀ (db : UploadDb) releases artifacts fileUploads regulationStatuses uploadVersions storage nextId
    pending, releases.map Release.standing = db.releases.map Release.standing →
    g { db with
      releases := releases
      artifacts := artifacts
      fileUploads := fileUploads
      regulationStatuses := regulationStatuses
      uploadVersions := uploadVersions
      storage := storage
      nextId := nextId
      pending := pending } = g db

theorem standings_sees : SeesStandings UploadDb.standings :=
  fun _ _ _ _ _ _ _ _ _ h => h

theorem dependencies_sees : SeesStandings UploadDb.dependencies :=
  fun _ _ _ _ _ _ _ _ _ _ => rfl

namespace SeesStandings

variable (hg : SeesStandings g)
include hg

theorem releases (db : UploadDb) {rows : List Release}
    (h : rows.map Release.standing = db.releases.map Release.standing) :
    g { db with releases := rows } = g db := hg db rows _ _ _ _ _ _ _ h

theorem artifacts (db : UploadDb) (rows : List ReleaseArtifact) (nextId : ℕ) :
    g { db with artifacts := rows, nextId := nextId } = g db := hg db _ rows _ _ _ _ _ _ rfl

theorem files (db : UploadDb) (rows : List FileUpload) (storage : List StoredObject) (nextId : ℕ) :
    g { db with fileUploads := rows, storage := storage, nextId := nextId } = g db :=
  hg db _ _ rows _ _ _ _ _ rfl

theorem statuses (db : UploadDb) (rows : List RegulationStatus) (nextId : ℕ) :
    g { db with regulationStatuses := rows, nextId := nextId } = g db :=
  hg db _ _ _ rows _ _ _ _ rfl

theorem uploads (db : UploadDb) (rows : List UploadVersion) :
    g { db with uploadVersions := rows } = g db := hg db _ _ _ _ rows _ _ _ rfl

theorem pending (db : UploadDb) (tasks : List PendingTask) :
    g { db with pending := tasks } = g db := hg db _ _ _ _ _ _ _ tasks rfl

/-- An update of other columns. -/
theorem updateReleases {q : Release → Bool} {f : Release → Release}
    (hf : ∀ r, (f r).standing = r.standing) (db : UploadDb) :
    g (ReleaseService.updateReleases q f db) = g db :=
  hg.releases db (Rows.map_updateWhere _ fun r _ _ => hf r)

theorem updateTotalSize (p : ℕ) (v : String) (db : UploadDb) :
    g (ReleaseService.updateTotalSize p v db) = g db := by
  unfold ReleaseService.updateTotalSize
  split
  · rfl
  · apply hg.updateReleases
    exact fun _ => rfl

/-! ### Artifacts -/

theorem onFileChange (key : Option String) : Frames g (ReleaseService.onFileChange key) := by
  intro observed db hobs
  have hstart : ∀ s task, g (start task s) = g s := fun s task => hg.pending s _
  have hchanged := onFileChange_changed key db
  generalize (ReleaseService.onFileChange key db).2 = db' at hchanged ⊢
  cases hchanged with
  | ignored hnone => exact hobs
  | seen r hfind => exact ((hstart _ _).trans (hg.updateTotalSize _ _ _)).trans hobs
  | seenError r hfind herror =>
      exact (((hstart _ _).trans (hstart _ _)).trans (hg.updateTotalSize _ _ _)).trans hobs

theorem deleteReleaseArtifact (p : ℕ) (v : String) (id : ℕ) (skip : Bool) :
    Frames g (ReleaseService.deleteReleaseArtifact env p v id skip) := by
  intro observed
  apply keeps_deleteReleaseArtifact
  · exact fun s storage h => (hg.files s _ storage _).trans h
  · exact fun s files h => (hg.files s files _ _).trans h
  · exact fun s q w h => (hg.updateTotalSize q w s).trans h
  · exact fun s task h => (hg.pending s _).trans h
  · exact fun s h => (hg.artifacts s _ _).trans h

theorem fileStep (dto : SetReleaseArtifactDto) (db : UploadDb) :
    g (UploadService.fileStep env dto db).2 = g db := by
  unfold UploadService.fileStep
  split
  · show g (upsertFileUpload _ _ _ _ db).2 = _
    unfold upsertFileUpload
    split
    · exact hg.files db _ _ _
    · exact hg.files db _ _ _
  · rfl

theorem setReleaseArtifact (dto : SetReleaseArtifactDto) :
    Frames g (ReleaseService.setReleaseArtifact env dto) := by
  intro observed db hobs
  have hset := setReleaseArtifact_set env dto db
  generalize (ReleaseService.setReleaseArtifact env dto db).2 = db' at hset ⊢
  cases hset with
  | refused => exact hobs
  | fileOnly r hfind hedit => exact (hg.fileStep dto db).trans hobs
  | set r db₁ hfind hedit hups =>
      have hfile := (@fileStep env _ _ hg dto db).trans hobs
      have hrow : g db₁ = observed := by
        cases hups with
        | taken => exact hfile
        | existing a ha hsame => exact (hg.artifacts _ _ _).trans hfile
        | new hnone hfree => exact (hg.artifacts _ _ _).trans hfile
      have htotal := (hg.updateTotalSize dto.projectId dto.version db₁).trans hrow
      split
      · exact htotal
      · exact (hg.pending _ _).trans htotal

theorem updateFileMetadata (dto : UpdateFilePropertiesDto) :
    Frames g (ReleaseService.updateFileMetadata env dto) := by
  intro observed
  refine Keeps.bind (Keeps.gets _) fun found => ?_
  cases found with
  | none => exact Keeps.throw _
  | some a =>
      refine Keeps.bind (Keeps.gets _) fun release => ?_
      cases release with
      | none => exact Keeps.throw _
      | some release =>
          refine Keeps.bind (fun s h => ?_) fun _ => Keeps.ite (Keeps.modify fun s h => ?_) (Keeps.throw _)
          · obtain ⟨result, hrun, -⟩ := checkReadonlyReleasePermission_run env release.status s
            rw [hrun]
            exact h
          · exact (hg.artifacts s _ _).trans h

/-! ### Component uploads -/

theorem updateUploadStatus (dto : UpdateUploadStatusDto) :
    Frames g (ComponentUploads.updateUploadStatus dto) := by
  intro observed
  have hwrite : ∀ f, Keeps (fun s => g s = observed)
      (modify (ComponentUploads.updateUploads f) : UploadProg Unit) :=
    fun f => Keeps.modify fun s h => (hg.uploads s _).trans h
  refine Keeps.bind (Keeps.gets _) fun affected => Keeps.ite ?_ (Keeps.throw _)
  refine Keeps.bind (hwrite _) fun _ => Keeps.bind (Keeps.gets _) fun base => ?_
  cases base with
  | none => exact Keeps.pure _
  | some base => exact Keeps.bind (hwrite _) fun _ => hwrite _

/-! ### Handlers -/

/-- The handlers that write no status of a release. -/
theorem handle (projectIdentifier : Option Identifier) (projectId : ℕ) {body : GuardedBody}
    (hset : ∀ dto, body ≠ .setRelease dto) (hdel : ∀ v, body ≠ .deleteRelease v) :
    Frames g (body.handle env projectIdentifier projectId) := by
  intro observed
  have hstart : ∀ v, Keeps (fun s => g s = observed)
      (modify (start (.refreshReleaseState projectId v)) : UploadProg Unit) :=
    fun v => Keeps.modify fun s h => (hg.pending s _).trans h
  cases body with
  | updateFileMetadata dto => exact hg.updateFileMetadata _ observed
  | updateUploadStatus dto => exact hg.updateUploadStatus _ observed
  | setRelease dto => exact absurd rfl (hset dto)
  | setReleaseArtifact dto =>
      exact Keeps.bind (hg.setReleaseArtifact _ observed) fun _ => Keeps.pure _
  | deleteReleaseArtifact v id =>
      exact Keeps.bind (hg.deleteReleaseArtifact _ _ _ _ observed) fun _ => Keeps.pure _
  | deleteRelease v => exact absurd rfl (hdel v)
  | setRegulationStatus v regulation value details =>
      refine Keeps.bind (setRegulationStatus_frames (fun s rows n => hg.statuses s rows n) _ _ _
        observed) fun _ => hstart v
  | setComplianceStatus v regulation isCompliant =>
      refine Keeps.bind (setComplianceStatus_frames (fun s rows n => hg.statuses s rows n) _ _
        observed) fun _ => hstart v
  | deleteVersionRegulationStatus v regulation =>
      refine Keeps.bind (deleteVersionRegulationStatus_frames (fun s rows => hg.statuses s rows _) _ _ _
        observed) fun _ => hstart v

/-! ### Contents of a release -/

theorem deleteContents (p : ℕ) (v : String) (loaded : LoadedRelease) :
    Frames g (ReleaseService.deleteContents env p v loaded) := by
  intro observed
  refine Keeps.bind (Keeps.gets _) fun statuses => Keeps.bind ?_ fun _ => ?_
  · exact Keeps.forEach fun s _ => keeps_logged
      (deleteVersionRegulationStatus_frames (fun s rows => hg.statuses s rows _) p v _ observed)
  · exact Keeps.forEach fun a _ => keeps_logged (hg.deleteReleaseArtifact p v _ true observed)

/-! ### Notifications -/

theorem updateUploadFile (file : UpdateFileUploadDto) :
    Frames g (FileUploadService.updateUploadFile file) := by
  intro observed
  refine Keeps.bind (Keeps.gets _) fun found => ?_
  have hwrite : ∀ c, Keeps (fun s => g s = observed) (do
      modify fun db => { db with
        fileUploads := Rows.updateWhere (fun f => f.objectKey == file.objectKey) (notified file)
          db.fileUploads }
      when c (ReleaseService.onFileChange (some file.objectKey)) : UploadProg Unit) := by
    intro c
    refine Keeps.bind (Keeps.modify fun s h => (hg.files s _ _ _).trans h) fun _ => ?_
    exact Keeps.when (hg.onFileChange _ observed)
  cases found with
  | none =>
      cases file.status with
      | uploaded => exact Keeps.throw _
      | pending | uploading | removed | error => exact Keeps.pure _
  | some f => cases file.status <;> exact hwrite _

theorem processAndSaveFile (objectKey : String) (calculateSha256 : Bool) :
    Frames g (FileUploadService.processAndSaveFile env objectKey calculateSha256) := by
  intro observed
  refine Keeps.bind (Keeps.gets _) fun found => ?_
  cases found with
  | none => exact Keeps.pure _
  | some file =>
      refine Keeps.bind (Keeps.gets _) fun stat => ?_
      cases stat with
      | none => exact Keeps.throw _
      | some stored =>
          refine Keeps.bind (Keeps.modify fun s h => (hg.files s _ _ _).trans h) fun _ => ?_
          exact Keeps.when (hg.onFileChange _ observed)

/-! ### Imports -/

theorem uploadFileFromUrl (id : ℕ) (fileName objectKey bucketName : String)
    (download : Option Download) (expected : Option String) :
    Frames g (ReleaseService.uploadFileFromUrl id fileName objectKey bucketName download expected) := by
  intro observed
  have hfile : ∀ f, Keeps (fun s => g s = observed)
      (modify (updateFileUpload id f) : UploadProg Unit) :=
    fun f => Keeps.modify fun s h => (hg.files s _ _ _).trans h
  have hfailed : ∀ message, Keeps (fun s => g s = observed) (uploadFailed id fileName message) :=
    fun message => Keeps.bind (hfile _) fun _ => Keeps.throw _
  refine Keeps.bind (hfile _) fun _ => ?_
  cases download with
  | none => exact hfailed _
  | some content =>
      have hstorage : ∀ f : UploadDb → UploadDb, (∀ s, g (f s) = g s) →
          Keeps (fun s => g s = observed) (modify f : UploadProg Unit) :=
        fun f hf => Keeps.modify fun s h => (hf s).trans h
      refine Keeps.ite (Keeps.bind (hstorage _ fun s => hg.files s _ _ _) fun _ =>
        Keeps.bind (hfile _) fun _ => hfailed _) ?_
      exact Keeps.bind (hstorage _ fun s => hg.files s _ _ _) fun _ => hfile _

theorem tryImportArtifact (p : ℕ) (v : String) (downloads : String → Option Download)
    (allCame : Bool) (artifact : ImportArtifactDto) :
    Frames g (ReleaseService.tryImportArtifact env p v downloads allCame artifact) := by
  intro observed
  refine Keeps.tryCatch (Keeps.bind ?_ fun _ => Keeps.pure _) fun _ => ?_
  · refine Keeps.bind (fun s h => ?_) fun id => Keeps.bind (fun s h => ?_) fun _ => ?_
    · unfold saveNewFile
      split
      · exact h
      · exact (hg.files s _ _ _).trans h
    · unfold saveImportedArtifact
      split
      · exact h
      · exact (hg.artifacts s _ _).trans h
    · exact hg.uploadFileFromUrl _ _ _ _ _ _ observed
  · exact Keeps.bind (Keeps.modify fun s h => (hg.files s _ _ _).trans h) fun _ => Keeps.pure _

/-! ### Refreshes -/

/-- Up to the status, a refresh writes counts and files. -/
theorem beforeStatus (p : ℕ) (v : String) (loaded : LoadedRelease) (db : UploadDb) :
    g (UploadService.beforeStatus env p v loaded db) = g db := by
  show g (markedMissing env (fileIds loaded) (updateRegulationCounts p v _ _ db)) = _
  refine (hg.files _ _ _ _).trans ?_
  apply hg.updateReleases
  exact fun _ => rfl

end SeesStandings

/-! ### Standings of releases -/

theorem Standing.mem_iff {x : Standing} :
    x ∈ db.standings ↔ ∃ r ∈ db.releases, r.standing = x := List.mem_map

theorem mem_standings {r : Release} (hr : r ∈ db.releases) : r.standing ∈ db.standings :=
  List.mem_map_of_mem hr

/-- Standings have the keys of the releases. -/
theorem UploadDb.Constraints.standing_eq (hdb : db.Constraints) {x y : Standing}
    (hx : x ∈ db.standings) (hy : y ∈ db.standings) (hkey : x.catalogId = y.catalogId) : x = y := by
  obtain ⟨r, hr, rfl⟩ := Standing.mem_iff.mp hx
  obtain ⟨s, hs, rfl⟩ := Standing.mem_iff.mp hy
  rw [hdb.releaseKeys.eq_of_mem hr hs hkey]

/-! ### Writes of standings -/

/-- An update of releases by what they stand on. -/
theorem standings_updateReleases {q : Release → Bool} {f : Release → Release}
    {q' : Standing → Bool} {f' : Standing → Standing} (hq : ∀ r, q r = q' r.standing)
    (hf : ∀ r ∈ db.releases, q r = true → (f r).standing = f' r.standing) :
    (updateReleases q f db).standings = Rows.updateWhere q' f' db.standings := by
  show (Rows.updateWhere q f db.releases).map Release.standing =
    Rows.updateWhere q' f' (db.releases.map Release.standing)
  unfold Rows.updateWhere
  rw [List.map_map, List.map_map]
  apply List.map_congr_left
  intro r hr
  show (if q r then f r else r).standing = if q' r.standing then f' r.standing else r.standing
  rw [← hq r]
  by_cases hqr : q r = true
  · rw [if_pos hqr, if_pos hqr, hf r hr hqr]
  · rw [if_neg hqr, if_neg hqr]

/-- The standing of a release with its project and version. -/
def isStanding (p : ℕ) (v : String) (x : Standing) : Bool := x.projectId == p && x.version == v

/-- The standing after the write of the status. -/
def writtenStatus (now : ℕ) (status : ReleaseStatus) (x : Standing) : Standing :=
  { x with
    status := status
    releasedAt := match status with
      | .released => x.releasedAt.or (some now)
      | .error => x.releasedAt
      | _ => none }

theorem writeStatus_standings (p : ℕ) (v : String) (status : ReleaseStatus) (db : UploadDb) :
    (writeStatus p v status db).standings = Rows.updateWhere
      (fun x => isStanding p v x && (status == .released || x.status == .released))
      (writtenStatus db.now status) db.standings := by
  cases status
  case released =>
    apply standings_updateReleases
    · exact fun r => (Bool.and_true _).symm
    · exact fun _ _ _ => rfl
  all_goals
    apply standings_updateReleases
    · exact fun _ => rfl
    · exact fun _ _ _ => rfl

theorem setReleaseStatus_standings (c : String) (status : ReleaseStatus) (db : UploadDb) :
    (setReleaseStatus c status db).standings =
      Rows.updateWhere (fun x => x.catalogId == c) (fun x => { x with status := status })
        db.standings :=
  standings_updateReleases (q := fun r => r.catalogId == c) (fun _ => rfl) fun _ _ _ => rfl

theorem saveRelations_standings (dto : SetReleaseDto) (isNew : Bool)
    (dependencies : Option (List Release)) (c : String) :
    Frames UploadDb.standings (saveRelations dto isNew dependencies c) := by
  intro observed
  refine Keeps.bind (Keeps.modify fun db h => ?_) fun _ => Keeps.bind ?_ fun _ => ?_
  · cases dependencies with
    | none => exact h
    | some entities => exact h
  · refine Keeps.when (Keeps.modify fun db h => ?_)
    unfold linkDefaultRuleToRelease
    split <;> exact h
  · exact Keeps.modify fun db h => (standings_sees.updateTotalSize _ _ db).trans h

/-- The standings after an existing row is stored. -/
theorem changed_standings (hdb : db.Constraints) {dto : SetReleaseDto} {r row : Release}
    (hfind : db.findRelease dto.projectId dto.version = some r)
    (hrow : ∃ name required, row = changedRelease env dto name false required r) :
    (updateReleases (fun x => x.catalogId == r.catalogId) (fun _ => row) db).standings =
      Rows.updateWhere (fun x => x.catalogId == r.catalogId)
        (fun x => { x with status := requestedStatus dto r.status }) db.standings := by
  obtain ⟨name, required, rfl⟩ := hrow
  apply standings_updateReleases
  · exact fun _ => rfl
  · intro x hx hkey
    obtain rfl := hdb.releaseKeys.eq_of_mem hx (UploadDb.findRelease_some hfind).1 (by simpa using hkey)
    rfl

/-- A delete of a release: the standings stay, or those of the row go. -/
theorem deleteRelease_standings (projectIdentifier : Option Identifier) (p : ℕ) (v : String)
    (db : UploadDb) :
    ((∃ e, (deleteRelease env ⟨projectIdentifier, p, v⟩ db).1 = .error e) ∧
      (deleteRelease env ⟨projectIdentifier, p, v⟩ db).2.standings = db.standings) ∨
    ∃ r ∈ db.releases, namedProject db projectIdentifier p = some r.projectId ∧
      (deleteRelease env ⟨projectIdentifier, p, v⟩ db).1 = .ok r.projectId ∧
      (deleteRelease env ⟨projectIdentifier, p, v⟩ db).2.standings =
        Rows.deleteWhere (fun x => x.catalogId == r.catalogId) db.standings := by
  have hdeleted := deleteRelease_deleted env projectIdentifier p v db
  generalize deleteRelease env ⟨projectIdentifier, p, v⟩ db = result at hdeleted ⊢
  have hcontents := fun q loaded => (@SeesStandings.deleteContents env _ _ standings_sees q v loaded).eq db
  cases hdeleted with
  | refused e => exact .inl ⟨⟨e, rfl⟩, rfl⟩
  | stuck e q loaded => exact .inl ⟨⟨e, rfl⟩, hcontents q loaded⟩
  | deleted q loaded policies hname hload hdeps =>
      obtain ⟨hmem, hq, -⟩ := UploadDb.findRelease_some (UploadDb.getReleaseEntity_some hload).1
      refine .inr ⟨loaded.release, hmem, by rw [hname, hq], by rw [hq], ?_⟩
      rw [← hcontents q loaded]
      show ((deleteContents env q v loaded db).2.releases.filter _).map Release.standing =
        ((deleteContents env q v loaded db).2.releases.map Release.standing).filter _
      rw [List.filter_map]
      rfl

end UploadService
