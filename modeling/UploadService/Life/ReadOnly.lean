import UploadService.Life.Schema
import UploadService.Life.Untouched

/-!
# Read-only releases

`RELEASED` and `ERROR` are read-only for users without the role `edit-released-release`.
The service looks at the status that the release has at the time of the call; a regulation
status may be changed whatever the status is, and the refresh after it may take the
release out of `RELEASED`.

Main results:

- `artifacts_kept_along_runs`: in every run of such users the artifacts of a release stay
  as they are, as long as each step finds the release in a read-only status;
- `released_artifact_deleted`: a run that leaves the status on the way.
-/

namespace UploadService

open Prog ReleaseService FileUploadService RegulationStatusService

variable {env : UploadEnv} {db : UploadDb} {c : String}

/-! ### Runs of users without the role -/

/-- The handlers that work on a release without deleting it. -/
def GuardedBody.isEdit : GuardedBody → Bool
  | updateFileMetadata _ | setRelease _ | setReleaseArtifact _ | deleteReleaseArtifact _ _
  | setRegulationStatus .. | setComplianceStatus .. | deleteVersionRegulationStatus .. => true
  | updateUploadStatus _ | deleteRelease _ => false

/-- A request of a user without the role, a pending task, or a change outside. -/
def ServiceEvent.isUserStep : ServiceEvent → Bool
  | call caller (.handle _ _ body) => !caller.canEditReleased && body.isEdit
  | call _ _ => false
  | task _ | storage _ | clock _ => true

/-- The release is in a read-only status. -/
def IsReadOnly (c : String) (db : UploadDb) : Prop :=
  ∃ r ∈ db.releases, r.catalogId = c ∧ (r.status = .released ∨ r.status = .error)

instance (c : String) (db : UploadDb) : Decidable (IsReadOnly c db) :=
  inferInstanceAs (Decidable (∃ r ∈ db.releases, r.catalogId = c ∧
    (r.status = .released ∨ r.status = .error)))

/-- A step of such a user that finds the release in a read-only status. -/
def FindsReadOnly (c : String) (db : UploadDb) (e : ServiceEvent) : Prop :=
  e.isUserStep = true ∧ IsReadOnly c db

instance (c : String) (db : UploadDb) (e : ServiceEvent) : Decidable (FindsReadOnly c db e) :=
  inferInstanceAs (Decidable (_ ∧ _))

/-! ### The artifacts of the release -/

/-- A release that the user may edit is another one. -/
theorem IsReadOnly.ne (h : IsReadOnly c db) (hdb : db.Constraints)
    (huser : env.canEditReleased = false) {r : Release} (hr : r ∈ db.releases)
    (hedit : isReadonly env r.status = false) : r.catalogId ≠ c := by
  intro heq
  obtain ⟨x, hx, hxc, hstatus⟩ := h
  have hsame : x = r := hdb.releaseKeys.eq_of_mem hx hr (hxc.trans heq.symm)
  subst hsame
  rcases hstatus with hstatus | hstatus <;> simp [isReadonly, hstatus, huser] at hedit

/-- A write to artifacts of other releases. -/
theorem artifactsOf_updateWhere {q : ReleaseArtifact → Bool} {f : ReleaseArtifact → ReleaseArtifact}
    (hq : ∀ a ∈ db.artifacts, q a = true → a.releaseId ≠ c ∧ (f a).releaseId ≠ c) :
    UploadDb.artifactsOf { db with artifacts := Rows.updateWhere q f db.artifacts } c =
      db.artifactsOf c := by
  apply Rows.filter_updateWhere
  intro a ha hqa
  simpa using hq a ha hqa

theorem artifactsOf_of_artifacts {db' : UploadDb} (h : db'.artifacts = db.artifacts) :
    db'.artifactsOf c = db.artifactsOf c := by
  unfold UploadDb.artifactsOf
  rw [h]

/-! ### Each handler -/

theorem updateFileMetadata_artifactsOf (hdb : db.Constraints) (hread : IsReadOnly c db)
    (huser : env.canEditReleased = false) (dto : UpdateFilePropertiesDto) :
    (updateFileMetadata env dto db).2.artifactsOf c = db.artifactsOf c := by
  unfold updateFileMetadata
  rw [gets_bind_run]
  cases hid : dto.id with
  | none =>
      cases db.artifacts.head? with
      | none => rfl
      | some a =>
          show (updateFoundArtifact env dto a db).2.artifactsOf c = _
          rw [updateFoundArtifact_run]
          split
          · -- no row has the id `undefined`
            apply artifactsOf_updateWhere
            intro b _ hb
            simp [hid] at hb
          · rfl
  | some id =>
      dsimp only
      cases hfound : Rows.findKey ReleaseArtifact.id id db.artifacts with
      | none => rfl
      | some a =>
          show (updateFoundArtifact env dto a db).2.artifactsOf c = _
          rw [updateFoundArtifact_run]
          split
          · rename_i hedit
            obtain ⟨ha, haid⟩ := Rows.findKey_some hfound
            obtain ⟨r, hr, hrc⟩ := hdb.artifactReleases a ha
            have hrelease := Rows.findKey_unique hdb.releaseKeys hr
            rw [hrc] at hrelease
            have hreadonly : isReadonly env r.status = false := by
              simp only [isEditable, hrelease, Option.any_some, Bool.and_eq_true,
                Bool.not_eq_true'] at hedit
              exact hedit.1
            have hne : a.releaseId ≠ c := hrc ▸ hread.ne hdb huser hr hreadonly
            apply artifactsOf_updateWhere
            intro b hb hbid
            have hbid' : b.id = a.id := by
              rw [hid] at hbid
              simpa [haid] using hbid
            have heq : b = a := hdb.artifactKeys.eq_of_mem hb ha hbid'
            rw [heq]
            exact ⟨hne, hne⟩
          · rfl

theorem fileStep_artifacts (dto : SetReleaseArtifactDto) :
    (fileStep env dto db).2.artifacts = db.artifacts := by
  have hupsert : ∀ fileName userId objectKey bucketName,
      (upsertFileUpload fileName userId objectKey bucketName db).2.artifacts = db.artifacts := by
    intro fileName userId objectKey bucketName
    unfold upsertFileUpload
    split <;> rfl
  unfold fileStep
  split
  · exact hupsert _ _ _ _
  · rfl

theorem setReleaseArtifact_artifactsOf (hdb : db.Constraints) (hread : IsReadOnly c db)
    (huser : env.canEditReleased = false) (dto : SetReleaseArtifactDto) :
    (setReleaseArtifact env dto db).2.artifactsOf c = db.artifactsOf c := by
  have hset := setReleaseArtifact_set env dto db
  generalize (setReleaseArtifact env dto db).2 = db' at hset
  have hfile : (fileStep env dto db).2.artifactsOf c = db.artifactsOf c :=
    artifactsOf_of_artifacts (fileStep_artifacts dto)
  cases hset with
  | refused => rfl
  | fileOnly r hfind hedit => exact hfile
  | set r db' hfind hedit hups =>
      have hne : r.catalogId ≠ c :=
        hread.ne hdb huser (UploadDb.findRelease_some hfind).1 hedit
      have hrows : db'.artifactsOf c = (fileStep env dto db).2.artifactsOf c := by
        cases hups with
        | taken => rfl
        | existing a ha hsame =>
            apply artifactsOf_updateWhere
            intro b _ hb
            rw [(artifactRow_spec dto _ b).2.1, (isSameArtifact_spec hb).1]
            exact ⟨hne, hne⟩
        | new hnone hfree =>
            have hother : (artifactRow dto (fileStep env dto db).1
                (newArtifact (fileStep env dto db).2.nextId r.catalogId)).releaseId ≠ c := by
              rw [(artifactRow_spec dto _ _).2.1]
              exact hne
            show ((fileStep env dto db).2.artifacts ++ [_]).filter _ = _
            rw [List.filter_append, List.filter_cons_of_neg (by simpa using hother),
              List.filter_nil, List.append_nil]
            rfl
      have htotal : ∀ s : UploadDb, (updateTotalSize dto.projectId dto.version s).artifactsOf c =
          s.artifactsOf c := fun s => updateTotalSize_frames (g := (UploadDb.artifactsOf · c))
            (fun _ _ => rfl) _ _ s
      split
      · rw [htotal, hrows, hfile]
      · show (updateTotalSize dto.projectId dto.version db').artifactsOf c = _
        rw [htotal, hrows, hfile]

theorem deleteReleaseArtifact_artifactsOf (hdb : db.Constraints) (hread : IsReadOnly c db)
    (huser : env.canEditReleased = false) (p : ℕ) (v : String) (id : ℕ) :
    (deleteReleaseArtifact env p v id false db).2.artifactsOf c = db.artifactsOf c := by
  cases hfind : findArtifact db p v id with
  | none =>
      unfold deleteReleaseArtifact
      rw [gets_bind_run, hfind]
      rfl
  | some found =>
      obtain ⟨a, status⟩ := found
      obtain ⟨ha, haid, r, hr, hrel, hstatus⟩ := findArtifact_some hfind
      by_cases hreadonly : isReadonly env status = true
      · unfold deleteReleaseArtifact
        rw [gets_bind_run, hfind]
        show ((checkReadonlyReleasePermission env status >>= _) db).2.artifactsOf c = _
        rw [checkReadonlyReleasePermission_bind, if_pos hreadonly]
      · have hne : a.releaseId ≠ c := by
          rw [hrel]
          apply hread.ne hdb huser (UploadDb.findRelease_some hr).1
          rw [hstatus]
          simpa using hreadonly
        rcases deleteReleaseArtifact_artifacts env p v id false db with hsame | hgone
        · exact artifactsOf_of_artifacts hsame
        · unfold UploadDb.artifactsOf
          rw [hgone]
          apply Rows.filter_deleteWhere
          intro b hb hbid
          have heq : b = a := hdb.artifactKeys.eq_of_mem hb ha (by rw [haid]; simpa using hbid)
          simpa [heq] using hne

theorem handle_artifactsOf (hdb : db.Constraints) (hread : IsReadOnly c db)
    (huser : env.canEditReleased = false) (projectIdentifier : Option Identifier) (projectId : ℕ)
    {body : GuardedBody} (hbody : body.isEdit = true) :
    (body.handle env projectIdentifier projectId db).2.artifactsOf c = db.artifactsOf c := by
  have hstart : ∀ {prog : UploadProg RegulationStatusDto} {v : String},
      Frames (UploadDb.artifactsOf · c) prog →
        ((do
          let _ ← prog
          modify (start (.refreshReleaseState projectId v)) : UploadProg Unit) db).2.artifactsOf c =
          db.artifactsOf c := by
    intro prog v hprog
    exact Keeps.bind (hprog _) (fun _ => Keeps.modify (f := start (.refreshReleaseState projectId v))
      fun _ h => h) db rfl
  cases body with
  | updateFileMetadata dto => exact updateFileMetadata_artifactsOf hdb hread huser _
  | setRelease dto =>
      have hframes := @setRelease_frames env _ (UploadDb.artifactsOf · c)
        (fun _ _ _ _ _ _ => rfl)
        { dto with projectIdentifier := projectIdentifier, projectId := projectId }
      exact Keeps.bind (hframes _) (fun _ => Keeps.pure _) db rfl
  | setReleaseArtifact dto =>
      exact Keeps.bind_after (I := fun s : UploadDb => s.artifactsOf c = db.artifactsOf c)
        (setReleaseArtifact_artifactsOf hdb hread huser _) fun _ => Keeps.pure _
  | deleteReleaseArtifact v id =>
      exact Keeps.bind_after (I := fun s : UploadDb => s.artifactsOf c = db.artifactsOf c)
        (deleteReleaseArtifact_artifactsOf hdb hread huser _ _ _) fun _ => Keeps.pure _
  | setRegulationStatus v regulation value details =>
      exact hstart (setRegulationStatus_frames (fun _ _ _ => rfl) _ _ _)
  | setComplianceStatus v regulation isCompliant =>
      exact hstart (setComplianceStatus_frames (fun _ _ _ => rfl) _ _)
  | deleteVersionRegulationStatus v regulation =>
      have hframes := deleteVersionRegulationStatus_frames (g := (UploadDb.artifactsOf · c))
        (fun _ _ => rfl) projectId v (some regulation)
      exact Keeps.bind (hframes _) (fun _ => Keeps.modify
        (f := start (.refreshReleaseState projectId v)) fun _ h => h) db rfl
  | updateUploadStatus dto => cases hbody
  | deleteRelease v => cases hbody

/-! ### Runs -/

theorem step_artifactsOf (hdb : db.Constraints) {e : ServiceEvent} (h : FindsReadOnly c db e) :
    (db.step env e).artifactsOf c = db.artifactsOf c := by
  obtain ⟨hstep, hread⟩ := h
  cases e with
  | call caller call =>
      cases call with
      | handle projectIdentifier projectId body =>
          simp only [ServiceEvent.isUserStep, Bool.and_eq_true, Bool.not_eq_true'] at hstep
          exact @handle_artifactsOf (env.calledBy caller) db c hdb hread hstep.1 _ _ _ hstep.2
      | importRelease | importArtifactsInBackground | archiveProjectReleases
      | restoreProjectReleases | deleteProjectReleases | onProjectRegulationChanged
      | updateUploadFile | processAndSaveFile | syncArtifactsStorageStatus | refreshReleaseState
      | maybeRestoreReleasedStatus => cases hstep
  | task i =>
      have hartifacts : IgnoresRefresh (UploadDb.artifactsOf · c) := .of_tables fun _ _ _ _ => rfl
      exact hartifacts.runPending db i
  | storage objects => rfl
  | clock now => rfl

/-- **Main result.** In every run of users without the role, in which each step finds the
release in a read-only status, the artifacts of the release stay as they are: the set, the
attributes and the file uploads they hold. -/
theorem artifacts_kept_along_runs (env : UploadEnv) (db : UploadDb) (c : String)
    (es : List ServiceEvent) (hdb : db.Constraints)
    (h : Runs.Along (UploadDb.step env) (FindsReadOnly c) db es) :
    (Runs.run (UploadDb.step env) db es).artifactsOf c = db.artifactsOf c := by
  have hstep : ∀ (s : UploadDb) (e : ServiceEvent),
      s.Constraints ∧ s.artifactsOf c = db.artifactsOf c → FindsReadOnly c s e →
      (s.step env e).Constraints ∧ (s.step env e).artifactsOf c = db.artifactsOf c :=
    fun s e hs hC => ⟨step_constraints hs.1 e, (step_artifactsOf hs.1 hC).trans hs.2⟩
  have hrun := Runs.invariant_along (I := fun s : UploadDb => s.Constraints ∧
    s.artifactsOf c = db.artifactsOf c) hstep ⟨hdb, rfl⟩ h
  exact hrun.2

/-! ### A member of the project -/

/-- A released image under one regulation, which it meets. -/
def regulatedRelease : UploadDb :=
  { releaseWithImage .released with
    regulations := [⟨1, "license", none, none, ⟨1, "boolean"⟩, 1, none, 0⟩]
    regulationStatuses := [⟨1, "one@1.0", some 1, none, true, none, none⟩] }

theorem regulatedRelease_constraints : regulatedRelease.Constraints where
  projectKeys := by decide
  projectNames := by decide
  releaseKeys := by decide
  releaseVersions := by decide
  artifactKeys := by decide
  artifactReleases := by decide
  artifactFiles := by simp [regulatedRelease, releaseWithImage, imageOf, newArtifact]
  fileKeys := by decide
  fileObjectKeys := by decide
  fileArtifacts := by decide
  artifactUploads := by simp [regulatedRelease, releaseWithImage, imageOf, newArtifact]
  statusKeys := by decide
  statusReleases := by decide
  dependencyReleases := by decide
  ruleReleases := by decide
  uploadKeys := by decide
  freshArtifacts := by decide
  freshFiles := by decide
  freshStatuses := by decide

/-- She asks twice to delete the image, and is refused. -/
theorem released_artifact_kept :
    (Runs.run (UploadDb.step plainUploadEnv) regulatedRelease
      [requestOfEve (.deleteReleaseArtifact "1.0" 1),
        requestOfEve (.deleteReleaseArtifact "1.0" 1)]).artifactsOf "one@1.0" =
      regulatedRelease.artifactsOf "one@1.0" := by
  apply artifacts_kept_along_runs
  · exact regulatedRelease_constraints
  · decide

/-- She deletes the regulation status first: the refresh takes the release into review,
and the image may be deleted. -/
theorem released_artifact_deleted :
    let es := [requestOfEve (.deleteVersionRegulationStatus "1.0" "license"), .task 0,
      requestOfEve (.deleteReleaseArtifact "1.0" 1)]
    IsReadOnly "one@1.0" regulatedRelease ∧
    (es.all fun e => e.isUserStep) = true ∧
    (∃ r ∈ (Runs.run (UploadDb.step plainUploadEnv) regulatedRelease es).releases,
      r.catalogId = "one@1.0") ∧
    (regulatedRelease.artifactsOf "one@1.0").length = 1 ∧
    (Runs.run (UploadDb.step plainUploadEnv) regulatedRelease es).artifactsOf "one@1.0" = [] := by
  refine ⟨by decide, by decide, by decide, by decide, by decide⟩

end UploadService
