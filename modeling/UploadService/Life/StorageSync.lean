import UploadService.Life.Standing

/-!
# What the storage synchronisation does

A pass reads the file artifacts once and works through them in batches. What it makes of a
file upload depends on the row as it was read and on the storage alone; of the releases it
writes nothing but statuses.

Main results:

- `syncArtifact_run`: one artifact;
- `Syncing.maybeRestore`: a release that is looked at again;
- `Syncing.fileUploadOf`, `Syncing.artifactsOf`: the file uploads after a part of the pass.
-/

namespace UploadService

open Prog ReleaseService FileUploadService

variable {env : UploadEnv} {db : UploadDb}

/-! ### The file uploads -/

/-- The object of a removed file is back with the content it had. -/
def comesBack (env : UploadEnv) (db : UploadDb) (f : FileUpload) : Bool :=
  f.status == .removed && (UploadDb.statOf env db f).any (isRestored f)

def repaired (f : FileUpload) : FileUpload :=
  { f with status := .uploaded, error := none, progress := 100 }

/-- The file upload as a pass leaves it. -/
def synced (env : UploadEnv) (db : UploadDb) (f : FileUpload) : FileUpload :=
  if f.status == .uploaded && isMissing env db f then markMissing f
  else if comesBack env db f then repaired f
  else f

@[simp] theorem synced_id (f : FileUpload) : (synced env db f).id = f.id := by
  unfold synced
  split
  · rfl
  · split <;> rfl

/-- The artifact is one of the file. -/
def isOfFile (f : FileUpload) (a : SyncedArtifact) : Bool := a.fileUpload.id == f.id

/-- The file uploads after the pass has come through these artifacts. -/
def syncedFiles (env : UploadEnv) (db : UploadDb) (done : List SyncedArtifact) : List FileUpload :=
  Rows.updateWhere (fun f => done.any (isOfFile f)) (synced env db) db.fileUploads

/-- The synchronisation takes the release out of `RELEASED`. -/
def demotes (env : UploadEnv) (db : UploadDb) (a : SyncedArtifact) : Bool :=
  a.fileUpload.status == .uploaded && isMissing env db a.fileUpload &&
    a.release.status == .released

/-- The synchronisation looks at the release again. -/
def rechecks (env : UploadEnv) (db : UploadDb) (a : SyncedArtifact) : Bool :=
  comesBack env db a.fileUpload && (a.release.releasedAt.isSome && a.release.status == .error)

theorem mem_relevantArtifacts {a : SyncedArtifact} (ha : a ∈ relevantArtifacts db) :
    (a.artifact ∈ db.artifacts ∧ a.artifact.type = .file) ∧
      db.fileUploadOf a.artifact = some a.fileUpload ∧
      (a.release ∈ db.releases ∧ a.release.catalogId = a.artifact.releaseId) ∧
      (a.fileUpload.status = .uploaded ∨ a.fileUpload.status = .removed) := by
  obtain ⟨x, hx, hfound⟩ := List.mem_filterMap.mp ha
  obtain ⟨hmem, htype⟩ := List.mem_filter.mp hx
  cases hfile : db.fileUploadOf x with
  | none =>
      rw [hfile] at hfound
      cases hfound
  | some f =>
      cases hrel : Rows.findKey Release.catalogId x.releaseId db.releases with
      | none =>
          rw [hfile, hrel] at hfound
          cases hfound
      | some r =>
          rw [hfile, hrel] at hfound
          dsimp only at hfound
          split at hfound
          · rename_i hstatus
            obtain rfl := Option.some.inj hfound
            exact ⟨⟨hmem, by simpa using htype⟩, hfile, Rows.findKey_some hrel, hstatus⟩
          · cases hfound

theorem mem_of_fileUploadOf {a : ReleaseArtifact} {f : FileUpload} (h : db.fileUploadOf a = some f) :
    f ∈ db.fileUploads ∧ a.fileUploadId = some f.id := by
  obtain ⟨id, hid, hfind⟩ := Option.bind_eq_some_iff.mp h
  obtain ⟨hf, rfl⟩ := Rows.findKey_some hfind
  exact ⟨hf, hid⟩

/-! ### A part of a pass -/

/-- The standing of a release but for its status. -/
def Standing.place (x : Standing) : Standing := { x with status := .draft }

theorem Standing.eq_of_place {x y : Standing} (h : x.place = y.place) :
    x.catalogId = y.catalogId ∧ x.projectId = y.projectId ∧ x.version = y.version ∧
      x.releasedAt = y.releasedAt ∧ x.sortOrder = y.sortOrder ∧ x.latest = y.latest := by
  simpa [Standing.place] using h

/-- The state `s` after a pass from `db` has come through these artifacts. -/
structure Syncing (env : UploadEnv) (db : UploadDb) (done : List SyncedArtifact) (s : UploadDb) :
    Prop where
  frame : { s with releases := db.releases, fileUploads := db.fileUploads } = db
  fileUploads : s.fileUploads = syncedFiles env db done
  places : s.standings.map Standing.place = db.standings.map Standing.place

theorem Syncing.start (env : UploadEnv) (db : UploadDb) : Syncing env db [] db where
  frame := rfl
  fileUploads := (Rows.updateWhere_eq_self fun _ _ h => by cases h).symm
  places := rfl

namespace Syncing

variable {done : List SyncedArtifact} {s : UploadDb}

theorem eq_of_frame (h : Syncing env db done s) {γ : Type} {g : UploadDb → γ}
    (hg : ∀ (t : UploadDb) releases files, g { t with releases := releases, fileUploads := files } = g t) :
    g s = g db := by
  have hframe := congrArg g h.frame
  rw [hg] at hframe
  exact hframe

theorem storage_eq (h : Syncing env db done s) : s.storage = db.storage :=
  h.eq_of_frame fun _ _ _ => rfl

theorem statOf_eq (h : Syncing env db done s) (f : FileUpload) :
    UploadDb.statOf env s f = UploadDb.statOf env db f := by
  unfold UploadDb.statOf UploadDb.getObjectStat
  rw [h.storage_eq]

/-- A status is written. -/
theorem setReleaseStatus (h : Syncing env db done s) (c : String) (status : ReleaseStatus) :
    Syncing env db done (FileUploadService.setReleaseStatus c status s) where
  frame := h.frame
  fileUploads := h.fileUploads
  places := by
    rw [← h.places, setReleaseStatus_standings]
    exact Rows.map_updateWhere _ fun _ _ _ => rfl

/-- The file of the next artifact is written as the pass leaves it. -/
theorem updateFile (h : Syncing env db done s) (hkeys : Rows.KeysDistinct FileUpload.id db.fileUploads)
    {a : SyncedArtifact} (ha : a.fileUpload ∈ db.fileUploads) {g : FileUpload → FileUpload}
    (hg : g a.fileUpload = synced env db a.fileUpload)
    (hidem : g (synced env db a.fileUpload) = synced env db a.fileUpload) :
    Syncing env db (done ++ [a]) (updateFileUpload a.fileUpload.id g s) where
  frame := h.frame
  fileUploads := by
    show Rows.updateWhere (fun f => f.id == a.fileUpload.id) g s.fileUploads = _
    rw [h.fileUploads]
    unfold syncedFiles Rows.updateWhere
    rw [List.map_map]
    apply List.map_congr_left
    intro f hf
    show (if (if done.any (isOfFile f) then synced env db f else f).id == a.fileUpload.id then
      g (if done.any (isOfFile f) then synced env db f else f)
      else if done.any (isOfFile f) then synced env db f else f) =
      if (done ++ [a]).any (isOfFile f) then synced env db f else f
    have hid : (if done.any (isOfFile f) then synced env db f else f).id = f.id := by
      split <;> simp
    rw [hid]
    by_cases hkey : f.id = a.fileUpload.id
    · obtain rfl : f = a.fileUpload := hkeys.eq_of_mem hf ha hkey
      have hdone : (done ++ [a]).any (isOfFile a.fileUpload) = true := by simp [isOfFile]
      rw [hdone, if_pos (beq_self_eq_true _), if_pos rfl]
      split
      · exact hidem
      · exact hg
    · have hsame : (done ++ [a]).any (isOfFile f) = done.any (isOfFile f) := by
        simp [isOfFile, Ne.symm hkey]
      rw [hsame, if_neg (by simpa using hkey)]
  places := h.places

/-- The next artifact is one whose file the pass leaves. -/
theorem skipFile (h : Syncing env db done s) (hkeys : Rows.KeysDistinct FileUpload.id db.fileUploads)
    {a : SyncedArtifact} (ha : a.fileUpload ∈ db.fileUploads)
    (hsame : synced env db a.fileUpload = a.fileUpload) : Syncing env db (done ++ [a]) s := by
  have hwrite := h.updateFile hkeys ha (g := id) hsame.symm rfl
  have hid : updateFileUpload a.fileUpload.id id s = s := by
    have hrows := Rows.updateWhere_eq_self (p := fun f : FileUpload => f.id == a.fileUpload.id)
      (f := id) fun f (_ : f ∈ s.fileUploads) _ => rfl
    unfold updateFileUpload
    rw [hrows]
  rw [hid] at hwrite
  exact hwrite

/-- Another look at a release. -/
theorem maybeRestore (c : String) :
    Keeps (Syncing env db done) (maybeRestoreReleasedStatus c) := by
  refine Keeps.bind (Keeps.gets _) fun found => ?_
  cases found with
  | none => exact Keeps.pure _
  | some release =>
      refine Keeps.bind (Keeps.gets _) fun healthy => Keeps.when (Keeps.modify fun s h => ?_)
      exact h.setReleaseStatus _ _

end Syncing

/-! ### One artifact -/

/-- An artifact of the read, in a state the pass has come to. -/
theorem syncArtifact_run (hdb : db.Constraints) {done : List SyncedArtifact} {s : UploadDb}
    (h : Syncing env db done s) {a : SyncedArtifact} (ha : a ∈ relevantArtifacts db)
    (recheck : List String) :
    ∃ s', syncArtifact env recheck a s = (.ok (if rechecks env db a then
        ObjectMap.addKeys recheck [a.release.catalogId] else recheck), s') ∧
      Syncing env db (done ++ [a]) s' ∧
      s'.releases = if demotes env db a then
        (setReleaseStatus a.release.catalogId .error s).releases else s.releases := by
  obtain ⟨-, hfile, -, hstatus⟩ := mem_relevantArtifacts ha
  have hmem := (mem_of_fileUploadOf hfile).1
  have hskip := fun hsame => h.skipFile hdb.fileKeys hmem hsame
  unfold syncArtifact
  rw [gets_bind_run, h.statOf_eq]
  cases hstat : UploadDb.statOf env db a.fileUpload with
  | none =>
      have hmissing : isMissing env db a.fileUpload = true := by simp [isMissing, hstat]
      have hback : comesBack env db a.fileUpload = false := by simp [comesBack, hstat]
      have hrecheck : rechecks env db a = false := by simp [rechecks, hback]
      rcases hstatus with huploaded | hremoved
      · have hsynced : synced env db a.fileUpload = markMissing a.fileUpload := by
          simp [synced, huploaded, hmissing]
        have hmark := h.updateFile hdb.fileKeys hmem (g := markMissing) hsynced.symm
          (by rw [hsynced]; rfl)
        simp only [huploaded, if_true, hrecheck]
        show ∃ s', (when (a.release.status == .released) _ >>= fun _ => pure recheck)
          (updateFileUpload a.fileUpload.id markMissing s) = _ ∧ _
        cases hreleased : a.release.status == .released with
        | true =>
            have hdemotes : demotes env db a = true := by
              simp [demotes, huploaded, hmissing, hreleased]
            rw [hdemotes]
            exact ⟨_, rfl, hmark.setReleaseStatus _ _, rfl⟩
        | false =>
            have hdemotes : demotes env db a = false := by simp [demotes, hreleased]
            rw [hdemotes]
            exact ⟨_, rfl, hmark, rfl⟩
      · have hsynced : synced env db a.fileUpload = a.fileUpload := by
          simp [synced, hremoved, hback]
        have hdemotes : demotes env db a = false := by simp [demotes, hremoved]
        simp only [hremoved, hrecheck, hdemotes]
        exact ⟨s, rfl, hskip hsynced, rfl⟩
  | some stored =>
      have hmissing : isMissing env db a.fileUpload = false := by simp [isMissing, hstat]
      have hdemotes : demotes env db a = false := by simp [demotes, hmissing]
      have hback : comesBack env db a.fileUpload =
          (a.fileUpload.status == .removed && isRestored a.fileUpload stored) := by
        simp [comesBack, hstat]
      rw [hdemotes]
      by_cases hrestored : a.fileUpload.status = .removed ∧ isRestored a.fileUpload stored = true
      · have hcomes : comesBack env db a.fileUpload = true := by
          simp [hback, hrestored.1, hrestored.2]
        have hsynced : synced env db a.fileUpload = repaired a.fileUpload := by
          simp [synced, hmissing, hcomes]
        have hrepair := h.updateFile hdb.fileKeys hmem (g := repaired) hsynced.symm
          (by rw [hsynced]; rfl)
        dsimp only
        rw [if_pos hrestored, modify_bind_run]
        by_cases hagain : a.release.releasedAt.isSome = true ∧ a.release.status = .error
        · have hrecheck : rechecks env db a = true := by
            simp [rechecks, hcomes, hagain.1, hagain.2]
          rw [if_pos hagain, hrecheck]
          exact ⟨_, rfl, hrepair, rfl⟩
        · have hrecheck : rechecks env db a = false := by
            rw [rechecks, hcomes, Bool.true_and]
            simpa using hagain
          rw [if_neg hagain, hrecheck]
          exact ⟨_, rfl, hrepair, rfl⟩
      · have hcomes : comesBack env db a.fileUpload = false := by
          rw [hback]
          simpa using hrestored
        have hrecheck : rechecks env db a = false := by simp [rechecks, hcomes]
        have hsynced : synced env db a.fileUpload = a.fileUpload := by
          simp [synced, hmissing, hcomes]
        dsimp only
        rw [if_neg hrestored, hrecheck]
        exact ⟨s, rfl, hskip hsynced, rfl⟩

/-! ### Files that can come back -/

/-- The file upload is healthy, or comes back; an artifact without one is not looked at. -/
def recoverable (env : UploadEnv) (db : UploadDb) : Option FileUpload → Bool
  | none => true
  | some f => isHealthy (some f) || comesBack env db f

/-- All files of the release are healthy or come back. -/
def allRecoverable (env : UploadEnv) (db : UploadDb) (catalogId : String) : Bool :=
  ((db.artifactsOf catalogId).filter fun a => a.type == .file).all fun a =>
    recoverable env db (db.fileUploadOf a)

theorem recoverable_of_synced {f : FileUpload} (h : isHealthy (some (synced env db f)) = true) :
    recoverable env db (some f) = true := by
  show (isHealthy (some f) || comesBack env db f) = true
  unfold synced at h
  split at h
  · simp [isHealthy, markMissing] at h
  · split at h
    · rename_i hback
      rw [hback, Bool.or_true]
    · rw [h, Bool.true_or]

/-- The file upload of an artifact in the course of a pass. -/
theorem Syncing.fileUploadOf {done : List SyncedArtifact} {s : UploadDb} (h : Syncing env db done s)
    (a : ReleaseArtifact) : s.fileUploadOf a = (db.fileUploadOf a).map fun f =>
      if done.any (isOfFile f) then synced env db f else f := by
  unfold UploadDb.fileUploadOf
  rw [h.fileUploads]
  cases a.fileUploadId with
  | none => rfl
  | some id => exact Rows.findKey_updateWhere db.fileUploads fun f => synced_id f

theorem Syncing.artifactsOf {done : List SyncedArtifact} {s : UploadDb} (h : Syncing env db done s)
    (c : String) : s.artifactsOf c = db.artifactsOf c :=
  h.eq_of_frame (g := (UploadDb.artifactsOf · c)) fun _ _ _ => rfl

/-- What is healthy in the course of a pass could come back before it. -/
theorem Syncing.allRecoverable {done : List SyncedArtifact} {s : UploadDb}
    (h : Syncing env db done s) {c : String} (hhealthy : allHealthy s c = true) :
    UploadService.allRecoverable env db c = true := by
  unfold allHealthy at hhealthy
  rw [h.artifactsOf, List.all_eq_true] at hhealthy
  apply List.all_eq_true.mpr
  intro a ha
  have hfile := hhealthy a ha
  rw [h.fileUploadOf] at hfile
  cases hof : db.fileUploadOf a with
  | none => rfl
  | some f =>
      rw [hof, Option.map_some] at hfile
      split at hfile
      · exact recoverable_of_synced hfile
      · show (isHealthy (some f) || comesBack env db f) = true
        rw [hfile, Bool.true_or]

end UploadService
