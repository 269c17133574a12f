import UploadService.Life.LatestRuns
import UploadService.Life.RecoverySteps

/-!
# Recovery along runs

A released release loses objects of its files and gets them back. A pass of the
synchronisation that finds them all repairs the rows and restores the release; the
notifications may come before it or after it. A notification that comes before it, on a row that
already carries the error of the synchronisation, takes the row away from the repair: it is
`UPLOADED`, and its error stays.

Main results:

- `recovers_along_runs`: along every run in which no notification takes a row away, the release
  is released again after the pass and the pending work, and no row carries the error;
- `notified_release_not_recovered`: a notification before the pass leaves the release in `ERROR`.
-/

namespace UploadService

open Prog ReleaseService FileUploadService RegulationStatusService

variable {env : UploadEnv} {db : UploadDb} {c : String}

/-! ### Steps -/

/-- A pending refresh must find the release fit; a restoration may find anything. -/
def TaskFinds (env : UploadEnv) (c : String) (db : UploadDb) : Option PendingTask → Prop
  | some (.refreshReleaseState p v) => RefreshFinds env c p v db
  | _ => True

instance (env : UploadEnv) (c : String) (db : UploadDb) :
    ∀ task, Decidable (TaskFinds env c db task)
  | some (.refreshReleaseState p v) => inferInstanceAs (Decidable (RefreshFinds env c p v db))
  | some (.maybeRestoreReleasedStatus _) => .isTrue trivial
  | none => .isTrue trivial

/-- What a step finds in the course of a recovery: a notification finds no row of the release
with an error of the synchronisation, and a refresh finds nothing amiss but a missing object.
Calls that have nothing to do with the storage leave the release alone. -/
def RecoveryFinds (env : UploadEnv) (c : String) (db : UploadDb) : ServiceEvent → Prop
  | .call _ (.updateUploadFile file) => Heeds c file db
  | .call _ (.processAndSaveFile _ _) => True
  | .call _ .syncArtifactsStorageStatus => True
  | .call _ (.refreshReleaseState p v) => RefreshFinds env c p v db
  | .call _ (.maybeRestoreReleasedStatus _) => True
  | .call caller call => LeavesAlone c db (db.step env (.call caller call))
  | .task i => TaskFinds env c db db.pending[i]?
  | .storage _ => True
  | .clock _ => True

instance (env : UploadEnv) (c : String) (db : UploadDb) :
    ∀ e, Decidable (RecoveryFinds env c db e)
  | .call _ (.updateUploadFile file) => inferInstanceAs (Decidable (Heeds c file db))
  | .call _ (.refreshReleaseState p v) => inferInstanceAs (Decidable (RefreshFinds env c p v db))
  | .call _ (.processAndSaveFile _ _) => .isTrue trivial
  | .call _ .syncArtifactsStorageStatus => .isTrue trivial
  | .call _ (.maybeRestoreReleasedStatus _) => .isTrue trivial
  | .call _ (.handle _ _ _) => inferInstanceAs (Decidable (LeavesAlone c db _))
  | .call _ (.importRelease _) => inferInstanceAs (Decidable (LeavesAlone c db _))
  | .call _ (.importArtifactsInBackground _ _ _ _) =>
      inferInstanceAs (Decidable (LeavesAlone c db _))
  | .call _ (.archiveProjectReleases _) => inferInstanceAs (Decidable (LeavesAlone c db _))
  | .call _ (.restoreProjectReleases _) => inferInstanceAs (Decidable (LeavesAlone c db _))
  | .call _ (.deleteProjectReleases _) => inferInstanceAs (Decidable (LeavesAlone c db _))
  | .call _ (.onProjectRegulationChanged _) => inferInstanceAs (Decidable (LeavesAlone c db _))
  | .task i => inferInstanceAs (Decidable (TaskFinds env c db db.pending[i]?))
  | .storage _ => .isTrue trivial
  | .clock _ => .isTrue trivial

/-- The objects that the bucket tells of as removed. -/
def removedKeys : ServiceEvent → List String
  | .call _ (.updateUploadFile file) => if file.status = .removed then [file.objectKey] else []
  | _ => []

/-- No notification tells that an object of the release was removed. -/
def TellsNoRemoval (c : String) (db : UploadDb) (e : ServiceEvent) : Prop :=
  ∀ f ∈ db.filesOf c, f.objectKey ∉ removedKeys e

instance (c : String) (db : UploadDb) (e : ServiceEvent) : Decidable (TellsNoRemoval c db e) :=
  inferInstanceAs (Decidable (∀ f ∈ db.filesOf c, _))

/-- The objects of the release stay in the storage. -/
def StaysBack (env : UploadEnv) (c : String) (db : UploadDb) (e : ServiceEvent) : Prop :=
  TellsNoRemoval c db e ∧ Present env c (db.step env e)

instance (env : UploadEnv) (c : String) (db : UploadDb) (e : ServiceEvent) :
    Decidable (StaysBack env c db e) :=
  inferInstanceAs (Decidable (_ ∧ _))

theorem call_recovering {caller : Caller} {call : ServiceCall} (h : Recovering c db)
    (hfinds : RecoveryFinds env c db (.call caller call)) :
    Recovering c (call.run (env.calledBy caller) db).2 := by
  have hconstraints : (call.run (env.calledBy caller) db).2.Constraints :=
    step_constraints h.wasReleased.constraints (.call caller call)
  cases call with
  | updateUploadFile file => exact updateUploadFile_recovering h hfinds
  | processAndSaveFile objectKey calculateSha256 =>
      exact h.leaves hconstraints (processAndSaveFile_leaves objectKey calculateSha256 db)
  | syncArtifactsStorageStatus =>
      exact (@syncArtifactsStorageStatus_recovering (env.calledBy caller) db c h).1
  | refreshReleaseState p v =>
      exact @refreshReleaseState_recovering (env.calledBy caller) db c p v h hfinds
  | maybeRestoreReleasedStatus k => 
      exact maybeRestoreReleasedStatus_recovering h.wasReleased k fun _ => h.noticed
  | handle | importRelease | importArtifactsInBackground | archiveProjectReleases
  | restoreProjectReleases | deleteProjectReleases | onProjectRegulationChanged =>
      exact h.leaves hconstraints hfinds

/-- A task that is taken out leaves the release noticed, but for its own restoration. -/
theorem noticed_erase (h : Noticed c db) {i : ℕ} {task : PendingTask}
    (hget : db.pending[i]? = some task) (hother : task ≠ .maybeRestoreReleasedStatus c) :
    Noticed c { db with pending := db.pending.eraseIdx i } := by
  rcases h with hreleased | hremoved | hpending
  · exact .inl hreleased
  · exact .inr (.inl hremoved)
  · refine .inr (.inr ?_)
    apply List.mem_eraseIdx_iff_getElem?.mpr
    obtain ⟨j, hj⟩ := List.mem_iff_getElem?.mp hpending
    refine ⟨j, fun hij => hother ?_, hj⟩
    rw [hij, hget] at hj
    exact Option.some.inj hj

theorem runPending_recovering {i : ℕ} (h : Recovering c db)
    (hfinds : TaskFinds env c db db.pending[i]?) : Recovering c (db.runPending env i) := by
  unfold UploadDb.runPending
  cases hget : db.pending[i]? with
  | none => exact h
  | some task =>
      have hwas : WasReleased c { db with pending := db.pending.eraseIdx i } :=
        ⟨{ h.wasReleased.constraints with }, h.wasReleased.row, h.wasReleased.files⟩
      cases task with
      | refreshReleaseState p v =>
          rw [hget] at hfinds
          exact refreshReleaseState_recovering
            ⟨hwas, noticed_erase h.noticed hget fun heq => by cases heq⟩ hfinds
      | maybeRestoreReleasedStatus k =>
          apply maybeRestoreReleasedStatus_recovering hwas k
          intro hk
          apply noticed_erase h.noticed hget
          intro heq
          exact hk (PendingTask.maybeRestoreReleasedStatus.inj heq)

/-- A step that finds nothing amiss keeps the release recovering. -/
theorem step_recovering {e : ServiceEvent} (h : Recovering c db)
    (hfinds : RecoveryFinds env c db e) : Recovering c (db.step env e) := by
  cases e with
  | call caller call => exact call_recovering h hfinds
  | task i => exact runPending_recovering h hfinds
  | storage objects => exact ⟨⟨{ h.wasReleased.constraints with }, h.wasReleased.row,
      h.wasReleased.files⟩, h.noticed⟩
  | clock now => exact ⟨⟨{ h.wasReleased.constraints with }, h.wasReleased.row,
      h.wasReleased.files⟩, h.noticed⟩

/-! ### After the pass -/

/-- The release is recovering, its files are healthy, and their objects are there. -/
structure Repaired (env : UploadEnv) (c : String) (db : UploadDb) : Prop where
  recovering : Recovering c db
  healthy : allHealthy db c = true
  present : Present env c db

theorem call_healthy {caller : Caller} {call : ServiceCall} (h : Repaired env c db)
    (hfinds : RecoveryFinds env c db (.call caller call))
    (hnot : TellsNoRemoval c db (.call caller call)) :
    allHealthy (call.run (env.calledBy caller) db).2 c = true := by
  have hdb := h.recovering.wasReleased.constraints
  cases call with
  | updateUploadFile file =>
      apply updateUploadFile_healthy h.healthy hfinds.1
      intro hremoved f hf hkey
      apply hnot f hf
      rw [removedKeys, if_pos hremoved, hkey]
      exact List.mem_singleton.mpr rfl
  | processAndSaveFile objectKey calculateSha256 =>
      exact (processAndSaveFile_leaves objectKey calculateSha256 db).healthy h.healthy
  | syncArtifactsStorageStatus =>
      exact @syncArtifactsStorageStatus_healthy (env.calledBy caller) db c h.recovering h.healthy
        h.present
  | refreshReleaseState p v =>
      exact @refreshReleaseState_healthy (env.calledBy caller) db c p v hdb h.healthy h.present
  | maybeRestoreReleasedStatus k =>
      apply allHealthy_iff.mpr
      show ∀ f ∈ (maybeRestoreReleasedStatus k db).2.filesOf c, _
      rw [maybeRestoreReleasedStatus_filesOf hdb]
      exact allHealthy_iff.mp h.healthy
  | handle | importRelease | importArtifactsInBackground | archiveProjectReleases
  | restoreProjectReleases | deleteProjectReleases | onProjectRegulationChanged =>
      exact LeavesAlone.healthy hfinds h.healthy

theorem runPending_healthy {i : ℕ} (h : Repaired env c db) :
    allHealthy (db.runPending env i) c = true := by
  unfold UploadDb.runPending
  cases hget : db.pending[i]? with
  | none => exact h.healthy
  | some task =>
      have hdb : UploadDb.Constraints { db with pending := db.pending.eraseIdx i } :=
        { h.recovering.wasReleased.constraints with }
      cases task with
      | refreshReleaseState p v => exact refreshReleaseState_healthy hdb h.healthy h.present
      | maybeRestoreReleasedStatus k =>
          apply allHealthy_iff.mpr
          show ∀ f ∈ (maybeRestoreReleasedStatus k { db with
            pending := db.pending.eraseIdx i }).2.filesOf c, _
          rw [maybeRestoreReleasedStatus_filesOf hdb]
          exact allHealthy_iff.mp h.healthy

/-- A step keeps the files healthy while their objects stay. -/
theorem step_repaired {e : ServiceEvent} (h : Repaired env c db)
    (hfinds : RecoveryFinds env c db e) (hstays : StaysBack env c db e) :
    Repaired env c (db.step env e) := by
  refine ⟨step_recovering h.recovering hfinds, ?_, hstays.2⟩
  cases e with
  | call caller call => exact call_healthy h hfinds hstays.1
  | task i => exact runPending_healthy h
  | storage objects => exact h.healthy
  | clock now => exact h.healthy

/-! ### Runs -/

theorem recovering_of_released (hdb : db.Constraints)
    (hreleased : ∃ r ∈ db.releases, r.catalogId = c ∧ r.status = .released ∧
      r.releasedAt.isSome = true) (hhealthy : allHealthy db c = true) : Recovering c db := by
  obtain ⟨r, hr, hkey, hstatus, hat⟩ := hreleased
  refine ⟨⟨hdb, ⟨r.standing, mem_standings hr, hkey, hat, .inl hstatus⟩, ?_⟩,
    .inl ⟨r.standing, mem_standings hr, hkey, hstatus⟩⟩
  exact fun f hf => .inr (allHealthy_iff.mp hhealthy f hf)

/-- **Main result.** Along every run in which no notification of a created object finds its row
with the error of the synchronisation, a released release is released again after a pass that
finds all its objects back, when nothing is pending any more; and none of its rows carries the
error. -/
theorem recovers_along_runs (env : UploadEnv) (db : UploadDb) (c : String)
    (before : List ServiceEvent) (caller : Caller) (after : List ServiceEvent)
    (hdb : db.Constraints)
    (hreleased : ∃ r ∈ db.releases, r.catalogId = c ∧ r.status = .released ∧
      r.releasedAt.isSome = true)
    (hhealthy : allHealthy db c = true)
    (hbefore : Runs.Along (UploadDb.step env) (RecoveryFinds env c) db before)
    (hback : AllBack env c (Runs.run (UploadDb.step env) db before))
    (hafter : Runs.Along (UploadDb.step env)
      (fun s e => RecoveryFinds env c s e ∧ StaysBack env c s e)
      (Runs.run (UploadDb.step env) db (before ++ [.call caller .syncArtifactsStorageStatus])) after) :
    let s := Runs.run (UploadDb.step env) db
      (before ++ [.call caller .syncArtifactsStorageStatus] ++ after)
    s.pending = [] →
      (∃ r ∈ s.releases, r.catalogId = c ∧ r.status = .released) ∧
        ∀ f ∈ s.filesOf c, f.status = .uploaded ∧ carriesSyncError f = false := by
  have hbrought := Runs.invariant_along (I := Recovering c)
    (fun _ _ hs hC => step_recovering hs hC) (recovering_of_released hdb hreleased hhealthy) hbefore
  have hpass : Repaired env c
      (Runs.run (UploadDb.step env) db (before ++ [.call caller .syncArtifactsStorageStatus])) := by
    rw [Runs.run_append]
    exact ⟨step_recovering (e := .call caller .syncArtifactsStorageStatus) hbrought trivial,
      @syncArtifactsStorageStatus_back (env.calledBy caller) _ c hbrought hback,
      @syncArtifactsStorageStatus_present (env.calledBy caller) _ c hbrought hback.present⟩
  have hend := Runs.invariant_along (I := Repaired env c)
    (fun _ _ hs hC => step_repaired hs hC.1 hC.2) hpass hafter
  rw [← Runs.run_append] at hend
  intro s hdone
  have hfiles : ∀ f ∈ s.filesOf c, isHealthy (some f) = true := allHealthy_iff.mp hend.healthy
  refine ⟨?_, fun f hf => isHealthy_iff.mp (hfiles f hf)⟩
  have hnoticed : Noticed c s := hend.recovering.noticed
  rcases hnoticed with ⟨x, hx, hkey, hstatus⟩ | ⟨f, hf, hremoved⟩ | hpending
  · obtain ⟨r, hr, rfl⟩ := Standing.mem_iff.mp hx
    exact ⟨r, hr, hkey, hstatus⟩
  · have huploaded := (isHealthy_iff.mp (hfiles f hf)).1
    rw [hremoved] at huploaded
    cases huploaded
  · rw [hdone] at hpending
    cases hpending

/-! ### A release with a file -/

/-- The object of the file artifact of the version. -/
def appObject : StoredObject := ⟨"artifacts", "upload/release/1/1.0.0/app", some "a1"⟩

/-- The bucket tells that the object was created. -/
def appCreated : ServiceEvent :=
  .call ⟨none, false⟩ (.updateUploadFile ⟨appObject.objectKey, .uploaded, none⟩)

def syncPass : ServiceEvent := .call ⟨none, false⟩ .syncArtifactsStorageStatus

/-- A draft with a file artifact that comes to the storage goes into review and is released. -/
def releaseWithFile : List ServiceEvent :=
  [requestOfEve (.setRelease (setVersion (some true) none)),
    requestOfEve (.setReleaseArtifact { setImage with type := .file, dockerImageUrl := none }),
    .storage [appObject], appCreated,
    .call ⟨none, false⟩ (.processAndSaveFile appObject.objectKey true), .task 0, .task 0,
    requestOfEve (.setRelease (setVersion (some false) none))]

def releasedWithFile : UploadDb :=
  Runs.run (UploadDb.step plainUploadEnv) oneProject releaseWithFile

/-- A pass finds the object missing, and then the object is back. -/
def objectLost : List ServiceEvent := [.storage [], syncPass, .storage [appObject]]

/-- The next pass comes before the notification, and the release is released again. -/
theorem released_recovers :
    let s := Runs.run (UploadDb.step plainUploadEnv) releasedWithFile
      (objectLost ++ [syncPass] ++ [appCreated, .task 0])
    s.pending = [] →
      (∃ r ∈ s.releases, r.catalogId = "1.one@1.0.0" ∧ r.status = .released) ∧
        ∀ f ∈ s.filesOf "1.one@1.0.0", f.status = .uploaded ∧ carriesSyncError f = false := by
  apply recovers_along_runs plainUploadEnv releasedWithFile "1.one@1.0.0" objectLost ⟨none, false⟩
    [appCreated, .task 0]
  · exact run_constraints oneProject_constraints releaseWithFile
  · decide +kernel
  · decide +kernel
  · decide +kernel
  · decide +kernel
  · decide +kernel

/-- The notification comes before the next pass: the release stays in `ERROR`, with the error of
the synchronisation on its row, and nothing is pending. -/
theorem notified_release_not_recovered :
    AllBack plainUploadEnv "1.one@1.0.0" (Runs.run (UploadDb.step plainUploadEnv) releasedWithFile
      (objectLost ++ [appCreated, .task 0, .task 0])) ∧
    let s := Runs.run (UploadDb.step plainUploadEnv) releasedWithFile
      (objectLost ++ [appCreated, .task 0, .task 0] ++ [syncPass])
    s.pending = [] ∧ (∃ r ∈ s.releases, r.catalogId = "1.one@1.0.0" ∧ r.status = .error) ∧
      ∃ f ∈ s.filesOf "1.one@1.0.0", carriesSyncError f = true := by
  decide +kernel

end UploadService
