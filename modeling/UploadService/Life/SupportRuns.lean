import UploadService.Life.LatestRuns
import UploadService.Life.SupportDeletes

/-!
# Support along runs

A released release without ready installation artifacts rests on its dependencies. A refresh
that takes a release out of `RELEASED` starts the refreshes of those that depend on it; the
other paths out of `RELEASED` do not, and neither do the artifacts of a file. What a step must
find is that it takes no support away.

Main results:

- `support_along_runs`: along every run whose steps all meet the condition, a released release
  is supported, or its refresh is pending;
- `archived_dependency_not_supported`: archiving a project leaves a release of another without
  its dependency.
-/

namespace UploadService

open Prog ReleaseService FileUploadService RegulationStatusService

variable {env : UploadEnv} {db : UploadDb}

/-! ### Steps -/

/-- The calls on releases, artifacts and files, and the work that they start. -/
def ChangesReleases : ServiceEvent → Prop
  | .call _ (.handle _ _ (.setRelease _)) => True
  | .call _ (.handle _ _ (.setReleaseArtifact _)) => True
  | .call _ (.handle _ _ (.deleteReleaseArtifact _ _)) => True
  | .call _ (.archiveProjectReleases _) => True
  | .call _ (.restoreProjectReleases _) => True
  | .call _ (.deleteProjectReleases _) => True
  | .call _ (.updateUploadFile file) => IsFileEvent file
  | .call _ (.processAndSaveFile _ _) => True
  | .call _ (.refreshReleaseState _ _) => True
  | .call _ (.maybeRestoreReleasedStatus _) => True
  | .call _ _ => False
  | .task _ => True
  | .storage _ => True
  | .clock _ => True

/-- A pending restoration must find the release supported; a refresh may find anything. -/
def TaskSupported (db : UploadDb) : Option PendingTask → Prop
  | some (.maybeRestoreReleasedStatus c) => RestoresSupported c db
  | _ => True

/-- What a step must find to take no support away. -/
def KeepsSupport (env : UploadEnv) (db : UploadDb) : ServiceEvent → Prop
  | .call caller (.handle projectIdentifier projectId (.setRelease dto)) =>
      SetsSupported (env.calledBy caller)
        { dto with projectIdentifier := projectIdentifier, projectId := projectId } db
  | .call caller (.handle projectIdentifier projectId (.setReleaseArtifact dto)) =>
      ArtifactsSupported (env.calledBy caller)
        { dto with projectIdentifier := projectIdentifier, projectId := projectId } db
  | .call caller (.handle _ projectId (.deleteReleaseArtifact v id)) =>
      DeletesSupported (env.calledBy caller) projectId v id db
  | .call _ (.archiveProjectReleases p) => LeavesNoneBehind (fun r => r.projectId == p) db
  | .call _ (.deleteProjectReleases p) => DeletesProjectSupported p db
  | .call _ (.maybeRestoreReleasedStatus c) => RestoresSupported c db
  | .task i => TaskSupported db db.pending[i]?
  | _ => True

/-- The keys and references hold, and every released release is supported or looked at again. -/
structure SupportInv (db : UploadDb) : Prop where
  constraints : db.Constraints
  settled : db.net.Settled

theorem call_settles {caller : Caller} {call : ServiceCall} (h : SupportInv db)
    (hof : ChangesReleases (.call caller call)) (hfinds : KeepsSupport env db (.call caller call)) :
    (call.run (env.calledBy caller) db).2.net.Settled := by
  cases call with
  | handle projectIdentifier projectId body =>
      cases body with
      | setRelease dto =>
          exact Keeps.bind_after (I := fun s : UploadDb => s.net.Settled)
            (@setRelease_settles (env.calledBy caller) db _ h.constraints h.settled hfinds)
            fun _ => Keeps.pure _
      | setReleaseArtifact dto =>
          exact Keeps.bind_after (I := fun s : UploadDb => s.net.Settled)
            (@setReleaseArtifact_settles (env.calledBy caller) db _ h.constraints h.settled hfinds)
            fun _ => Keeps.pure _
      | deleteReleaseArtifact v id =>
          exact Keeps.bind_after (I := fun s : UploadDb => s.net.Settled)
            (@deleteReleaseArtifact_settles (env.calledBy caller) db _ _ _ h.constraints h.settled
              hfinds) fun _ => Keeps.pure _
      | updateFileMetadata | updateUploadStatus | deleteRelease | setRegulationStatus
      | setComplianceStatus | deleteVersionRegulationStatus => exact hof.elim
  | importRelease | importArtifactsInBackground | onProjectRegulationChanged
  | syncArtifactsStorageStatus => exact hof.elim
  | archiveProjectReleases p => exact archiveProjectReleases_settles h.constraints h.settled hfinds
  | restoreProjectReleases p => exact restoreProjectReleases_settles p h.settled
  | deleteProjectReleases p =>
      exact @deleteProjectReleases_settles (env.calledBy caller) db p h.constraints h.settled hfinds
  | updateUploadFile file => exact updateUploadFile_settles h.constraints h.settled hof
  | processAndSaveFile objectKey calculateSha256 => exact processAndSaveFile_settles h.settled
  | refreshReleaseState p v => exact refreshReleaseState_settles h.constraints (h.settled.off _)
  | maybeRestoreReleasedStatus c =>
      exact maybeRestoreReleasedStatus_settles h.constraints h.settled hfinds

/-- A task that is taken out leaves the releases settled that it does not refresh. -/
theorem settledOff_erase (h : db.net.Settled) {i : ℕ} {task : PendingTask}
    (hget : db.pending[i]? = some task) :
    (UploadDb.net { db with pending := db.pending.eraseIdx i }).SettledOff fun c =>
      ∃ x ∈ db.standings, x.catalogId = c ∧ task = .refreshReleaseState x.projectId x.version := by
  intro c hc hup
  rcases h c hup with hsupported | ⟨x, hx, hkey, hmem⟩
  · exact .inl hsupported
  · right
    refine ⟨x, hx, hkey, ?_⟩
    apply List.mem_eraseIdx_iff_getElem?.mpr
    obtain ⟨j, hj⟩ := List.mem_iff_getElem?.mp hmem
    refine ⟨j, fun hij => hc ⟨x, hx, hkey, ?_⟩, hj⟩
    rw [hij, hget] at hj
    exact Option.some.inj hj

theorem runPending_settles {i : ℕ} (h : SupportInv db) (hfinds : TaskSupported db db.pending[i]?) :
    (db.runPending env i).net.Settled := by
  unfold UploadDb.runPending
  cases hget : db.pending[i]? with
  | none => exact h.settled
  | some task =>
      have hoff := settledOff_erase h.settled hget
      have hconstraints : UploadDb.Constraints { db with pending := db.pending.eraseIdx i } :=
        { h.constraints with }
      cases task with
      | refreshReleaseState p v =>
          apply refreshReleaseState_settles hconstraints
          apply hoff.subset
          rintro c ⟨x, hx, hkey, htask⟩
          obtain ⟨rfl, rfl⟩ := PendingTask.refreshReleaseState.inj htask
          exact ⟨x, hx, by simp [isStanding], hkey⟩
      | maybeRestoreReleasedStatus c =>
          rw [hget] at hfinds
          have hsettled : (UploadDb.net { db with pending := db.pending.eraseIdx i }).Settled := by
            apply hoff.settled
            rintro c ⟨x, -, -, htask⟩
            cases htask
          apply maybeRestoreReleasedStatus_settles hconstraints hsettled
          intro r hr hkey hmay hhealthy
          rcases hfinds r hr hkey hmay hhealthy with hsupported | hqueued
          · exact .inl hsupported
          · right
            unfold isQueued at hqueued ⊢
            rw [List.contains_iff_mem] at hqueued ⊢
            apply List.mem_eraseIdx_iff_getElem?.mpr
            obtain ⟨j, hj⟩ := List.mem_iff_getElem?.mp hqueued
            refine ⟨j, fun hij => ?_, hj⟩
            rw [hij, hget] at hj
            cases hj

theorem step_supportInv {e : ServiceEvent} (h : SupportInv db) (hof : ChangesReleases e)
    (hfinds : KeepsSupport env db e) : SupportInv (db.step env e) := by
  refine ⟨step_constraints h.constraints e, ?_⟩
  cases e with
  | call caller call => exact call_settles h hof hfinds
  | task i => exact runPending_settles h hfinds
  | storage objects => exact h.settled
  | clock now => exact h.settled

/-! ### Runs -/

theorem supportInv_of_supported (hdb : db.Constraints)
    (h : ∀ r ∈ db.releases, r.status = .released → isSupported db r = true ∨ isQueued db r = true) :
    SupportInv db := by
  refine ⟨hdb, ?_⟩
  rintro c ⟨x, hx, rfl, hstatus⟩
  obtain ⟨r, hr, rfl⟩ := Standing.mem_iff.mp hx
  have hr' := h r hr hstatus
  rw [isSupported_iff hdb, isQueued_iff hdb hr] at hr'
  exact hr'

/-- **Main result.** Along every run whose steps all meet the condition, a released release
whose refresh is not pending has ready installation artifacts, or it has dependencies and all
of them are released. -/
theorem support_along_runs (env : UploadEnv) (db : UploadDb) (es : List ServiceEvent)
    (hdb : db.Constraints)
    (hsupported : ∀ r ∈ db.releases, r.status = .released →
      isSupported db r = true ∨ isQueued db r = true)
    (h : Runs.Along (UploadDb.step env) (fun s e => ChangesReleases e ∧ KeepsSupport env s e) db es) :
    let s := Runs.run (UploadDb.step env) db es
    ∀ r ∈ s.releases, r.status = .released → .refreshReleaseState r.projectId r.version ∉ s.pending →
      Ready s r.catalogId ∨
        ((∃ d ∈ s.releases, ⟨r.catalogId, d.catalogId⟩ ∈ s.dependencies) ∧
          ∀ d ∈ s.releases, ⟨r.catalogId, d.catalogId⟩ ∈ s.dependencies → d.status = .released) := by
  have hinv := Runs.invariant_along (I := SupportInv)
    (fun _ _ hs hC => step_supportInv hs hC.1 hC.2) (supportInv_of_supported hdb hsupported) h
  intro s r hr hreleased hnot
  have hconstraints : s.Constraints := hinv.constraints
  have hup : s.net.up r.catalogId := (isReleased_iff hconstraints hr).mpr hreleased
  rcases hinv.settled r.catalogId hup with (hready | ⟨⟨d, hd⟩, hdeps⟩) | hqueued
  · exact .inl hready
  · right
    refine ⟨?_, fun x hx hdep => ?_⟩
    · obtain ⟨-, x, hx, rfl⟩ := hconstraints.dependencyReleases _ hd
      exact ⟨x, hx, hd⟩
    · exact (isReleased_iff hconstraints hx).mp (hdeps x.catalogId hdep)
  · rw [← isQueued_iff hconstraints hr] at hqueued
    unfold isQueued at hqueued
    rw [List.contains_iff_mem] at hqueued
    exact absurd hqueued hnot

/-! ### A release on a release of another project -/

/-- Two projects without releases. -/
def twoProjects : UploadDb :=
  { oneProject with projects := [⟨1, "one", .product⟩, ⟨2, "two", .product⟩] }

theorem twoProjects_constraints : twoProjects.Constraints :=
  { oneProject_constraints with
    projectKeys := by decide
    projectNames := by decide }

/-- The first project releases an image, and the second a version that depends on it. -/
def releaseOnRelease : List ServiceEvent :=
  draftWithImage ++
    [requestOfEve (.setRelease (setVersion (some false) none)),
      .call ⟨some "eve", false⟩ (.handle (some (.id 2)) 2 (.setRelease
        { setVersion (some false) none with dependencies := some ["1.one@1.0.0"] }))]

/-- Both are released, and both are supported. -/
theorem released_on_release_supported :
    let s := Runs.run (UploadDb.step plainUploadEnv) twoProjects releaseOnRelease
    ∀ r ∈ s.releases, r.status = .released → .refreshReleaseState r.projectId r.version ∉ s.pending →
      Ready s r.catalogId ∨
        ((∃ d ∈ s.releases, ⟨r.catalogId, d.catalogId⟩ ∈ s.dependencies) ∧
          ∀ d ∈ s.releases, ⟨r.catalogId, d.catalogId⟩ ∈ s.dependencies → d.status = .released) := by
  apply support_along_runs plainUploadEnv twoProjects releaseOnRelease twoProjects_constraints
  · exact fun r hr => absurd hr List.not_mem_nil
  · have hdraft : SetsSupported (plainUploadEnv.calledBy ⟨some "eve", false⟩)
        { setVersion (some true) none with projectIdentifier := some (.id 1), projectId := 1 }
        twoProjects := by decide
    have himage : ArtifactsSupported (plainUploadEnv.calledBy ⟨some "eve", false⟩)
        { setImage with projectIdentifier := some (.id 1), projectId := 1 }
        (Runs.run (UploadDb.step plainUploadEnv) twoProjects (draftWithImage.take 1)) := by decide
    have hreview : SetsSupported (plainUploadEnv.calledBy ⟨some "eve", false⟩)
        { setVersion (some false) none with projectIdentifier := some (.id 1), projectId := 1 }
        (Runs.run (UploadDb.step plainUploadEnv) twoProjects draftWithImage) := by decide
    have hsecond : SetsSupported (plainUploadEnv.calledBy ⟨some "eve", false⟩)
        { setVersion (some false) none with
          projectIdentifier := some (.id 2)
          projectId := 2
          dependencies := some ["1.one@1.0.0"] }
        (Runs.run (UploadDb.step plainUploadEnv) twoProjects (releaseOnRelease.take 4)) := by decide
    exact ⟨⟨trivial, hdraft⟩, ⟨trivial, himage⟩, ⟨trivial, trivial⟩, ⟨trivial, hreview⟩,
      ⟨trivial, hsecond⟩, trivial⟩

/-- The archived dependency leaves the release of the other project unsupported, and nothing
is pending. -/
theorem archived_dependency_not_supported :
    let s := Runs.run (UploadDb.step plainUploadEnv) twoProjects
      (releaseOnRelease ++ [.call ⟨some "eve", false⟩ (.archiveProjectReleases 1)])
    s.pending = [] ∧ ∃ r ∈ s.releases, r.status = .released ∧
      (∀ a ∈ s.artifacts, a.releaseId ≠ r.catalogId) ∧
      ∃ d ∈ s.releases, ⟨r.catalogId, d.catalogId⟩ ∈ s.dependencies ∧ d.status = .archived := by
  decide

end UploadService
