import UploadService.Access.Deletion

/-!
# Guarded requests and the authorised project

What a handler behind the guard inserts, changes and deletes should belong to the
project the guard authorised. The handlers that go by the project id do so; the others
are confined under the conditions collected in `StaysInside`.

Main results:

- `guarded_request_confined_iff`: a guarded request is confined to the authorised
  project exactly when `StaysInside` holds of it, and then so are the tasks it leaves
  pending, where no release of another project depends on one of the project;
- `foreign_metadata_not_confined`: a member of one project changes a file of another.
-/

namespace UploadService

open Prog ReleaseService FileUploadService RegulationStatusService ComponentUploads

variable {p : ℕ} {o : Outside} {closed : Prop} {db : UploadDb} (env : UploadEnv)

/-- The condition under which the handler changes nothing outside the project. -/
def GuardedBody.StaysInside (p : ℕ) (projectIdentifier : Option Identifier) (db : UploadDb) :
    GuardedBody → Prop
  | updateFileMetadata dto => MetadataStaysInside env p dto db
  | updateUploadStatus dto => UploadsStayInside p dto db
  | setRelease dto => ReleaseStaysInside env p
      { dto with projectIdentifier := projectIdentifier, projectId := p } db
  | setReleaseArtifact dto => ArtifactStaysInside env p
      { dto with projectIdentifier := projectIdentifier, projectId := p } db
  | deleteReleaseArtifact version artifactId =>
      deletesStray env p version artifactId false db = true → FirstTotalIsDue p db
  | deleteRelease version => DeletionStaysInside p projectIdentifier version db
  | setRegulationStatus .. | setComplianceStatus .. | deleteVersionRegulationStatus .. => True

/-- Where a step led to `o'` outside and changed nothing outside, `o'` is what was there. -/
theorem Inside.of_same {o' : Outside} (h : Inside p o' closed db) (hsame : db.outside p = o) :
    Inside p o closed db := by
  rw [← hsame, h.same]
  exact h

theorem Inside.withUpdatedProperties (h : Inside p o closed db) {dto : UpdateFilePropertiesDto}
    (hsame : (withUpdatedProperties dto db).outside p = o) :
    Inside p o closed (withUpdatedProperties dto db) := by
  have hold : ∀ a ∈ (UploadService.withUpdatedProperties dto db).artifacts, ∃ b ∈ db.artifacts,
      a.releaseId = b.releaseId ∧ a.id = b.id ∧ a.fileUploadId = b.fileUploadId ∧
        a.type = b.type := by
    intro a ha
    rcases Rows.mem_updateWhere.mp ha with ⟨b, hb, -, rfl⟩ | ⟨ha, -⟩
    · exact ⟨b, hb, rfl, rfl, rfl, rfl⟩
    · exact ⟨a, ha, rfl, rfl, rfl, rfl⟩
  refine { h with
    same := hsame
    files := fun a ha => ?_
    artifacts := fun a ha => ?_
    strays := fun hc a ha => ?_ }
  · obtain ⟨b, hb, h₁, -, h₃, -⟩ := hold a ha
    rw [h₁, h₃]
    exact h.files b hb
  · obtain ⟨b, hb, h₁, h₂, -, -⟩ := hold a ha
    rw [h₁, h₂]
    exact h.artifacts b hb
  · obtain ⟨b, hb, h₁, -, h₃, h₄⟩ := hold a ha
    rw [h₁, h₃, h₄]
    exact h.strays hc b hb

theorem updateFileMetadata_run (dto : UpdateFilePropertiesDto) (db : UploadDb) :
    (updateFileMetadata env dto db).2 = db ∨
      (updateFileMetadata env dto db).2 = withUpdatedProperties dto db := by
  have hfound : ∀ a, (updateFoundArtifact env dto a db).2 = db ∨
      (updateFoundArtifact env dto a db).2 = withUpdatedProperties dto db := by
    intro a
    rw [updateFoundArtifact_run]
    split
    · exact .inr rfl
    · exact .inl rfl
  unfold updateFileMetadata
  rw [gets_bind_run]
  cases dto.id with
  | none =>
      cases db.artifacts.head? with
      | none => exact .inl rfl
      | some a => exact hfound a
  | some id =>
      cases hfind : Rows.findKey ReleaseArtifact.id id db.artifacts with
      | none => simp only [hfind, throw_run, true_or]
      | some a =>
          simp only [hfind]
          exact hfound a

theorem updateUploadStatus_uploads (dto : UpdateUploadStatusDto) (db : UploadDb) :
    ∃ uploads, (updateUploadStatus dto db).2 = { db with uploadVersions := uploads } := by
  have hkeeps : Keeps (fun s => ∃ uploads, s = { db with uploadVersions := uploads })
      (updateUploadStatus dto) := by
    have hwrite : ∀ f, Keeps (fun s => ∃ uploads, s = { db with uploadVersions := uploads })
        (modify (updateUploads f) : UploadProg Unit) := by
      rintro f s ⟨uploads, rfl⟩
      exact ⟨f uploads, rfl⟩
    refine Keeps.bind (Keeps.gets _) fun found => Keeps.ite ?_ (Keeps.throw _)
    refine Keeps.bind (hwrite _) fun _ => Keeps.bind (Keeps.gets _) fun base => ?_
    cases base with
    | none => exact Keeps.pure _
    | some base => exact Keeps.bind (hwrite _) fun _ => hwrite _
  exact hkeeps db ⟨db.uploadVersions, rfl⟩

theorem NoForeignDependents.shift (h : NoForeignDependents o) (position : Option ℕ) :
    NoForeignDependents (o.shift position) := by
  intro d hd
  rw [Outside.shift_hasRelease]
  apply h d
  unfold Outside.shift at hd
  split at hd <;> exact hd

/-- The handlers drop what the services return. -/
theorem ignore_run {α : Type} (prog : UploadProg α) :
    ((prog >>= fun _ => pure ()) db).2 = (prog db).2 := by
  rw [bind_run]
  rcases prog db with ⟨result, s⟩
  cases result <;> rfl

/-- **Main result.** A handler changes nothing outside the project exactly under its
condition. -/
theorem handle_confined_iff (hdb : db.Constraints) (projectIdentifier : Option Identifier)
    (body : GuardedBody) :
    db.Confined p (body.handle env projectIdentifier p db).2 ↔
      body.StaysInside env p projectIdentifier db := by
  have hkept : ∀ {prog : UploadProg Unit},
      Keeps (Inside p (db.outside p) False) prog → db.Confined p (prog db).2 :=
    fun hprog => (hprog db (hdb.inside p False.elim)).same
  have hstart : ∀ task, Keeps (Inside p (db.outside p) False)
      (modify (ReleaseService.start task) : UploadProg Unit) :=
    fun task => Keeps.modify fun s h => h.start False.elim
  cases body with
  | updateFileMetadata dto => exact updateFileMetadata_confined_iff env hdb _
  | updateUploadStatus dto => exact updateUploadStatus_confined_iff hdb dto
  | setRelease dto =>
      show db.Confined p ((ReleaseService.setRelease env _ >>= fun _ => pure ()) db).2 ↔ _
      rw [ignore_run]
      exact setRelease_confined_iff env hdb rfl
  | setReleaseArtifact dto =>
      show db.Confined p ((ReleaseService.setReleaseArtifact env _ >>= fun _ => pure ()) db).2 ↔ _
      rw [ignore_run]
      exact setReleaseArtifact_confined_iff env hdb rfl
  | deleteReleaseArtifact version artifactId =>
      show db.Confined p
        ((ReleaseService.deleteReleaseArtifact env p _ _ false >>= fun _ => pure ()) db).2 ↔ _
      rw [ignore_run]
      exact deleteReleaseArtifact_confined_iff env hdb version artifactId false
  | deleteRelease version => exact deleteRelease_confined_iff env hdb projectIdentifier version
  | setRegulationStatus version regulation value reportDetails =>
      refine iff_of_true (hkept (Keeps.bind ?_ fun _ => hstart _)) trivial
      exact @setRegulationStatus_inside p _ _ env ⟨projectIdentifier, p, version, regulation⟩ rfl
        value reportDetails
  | setComplianceStatus version regulation isCompliant =>
      refine iff_of_true (hkept (Keeps.bind ?_ fun _ => hstart _)) trivial
      exact @setComplianceStatus_inside p _ _ ⟨projectIdentifier, p, version, regulation⟩ rfl
        isCompliant
  | deleteVersionRegulationStatus version regulation =>
      refine iff_of_true (hkept (Keeps.bind ?_ fun _ => hstart _)) trivial
      exact deleteVersionRegulationStatus_inside version (some regulation)

/-- A handler that stays inside leaves pending tasks of the project only. -/
theorem handle_inside (hdb : db.Constraints) (hin : Inside p (db.outside p) closed db)
    (hclosed : closed → NoForeignDependents (db.outside p)) (projectIdentifier : Option Identifier)
    {body : GuardedBody} (hstays : body.StaysInside env p projectIdentifier db) :
    Inside p (db.outside p) closed (body.handle env projectIdentifier p db).2 := by
  have hsame := (handle_confined_iff env hdb projectIdentifier body).mpr hstays
  have hstart : ∀ {o : Outside} version, Keeps (Inside p o closed)
      (modify (ReleaseService.start (.refreshReleaseState p version)) : UploadProg Unit) :=
    fun version => Keeps.modify fun s h => h.start fun _ => rfl
  cases body with
  | updateFileMetadata dto =>
      rcases updateFileMetadata_run env { dto with
        projectIdentifier := projectIdentifier
        projectId := p } db with hrun | hrun
      · show Inside _ _ _ (ReleaseService.updateFileMetadata env _ db).2
        rw [hrun]
        exact hin
      · rw [GuardedBody.handle, UploadDb.Confined, hrun] at hsame
        show Inside _ _ _ (ReleaseService.updateFileMetadata env _ db).2
        rw [hrun]
        exact hin.withUpdatedProperties hsame
  | updateUploadStatus dto =>
      obtain ⟨uploads, hrun⟩ := updateUploadStatus_uploads dto db
      rw [GuardedBody.handle, UploadDb.Confined, hrun] at hsame
      show Inside _ _ _ (ComponentUploads.updateUploadStatus dto db).2
      rw [hrun]
      exact { hin with same := hsame }
  | setRelease dto =>
      refine Inside.of_same (Keeps.bind_after (I := Inside p _ closed)
        (setRelease_inside env hin rfl fun hc => ?_) fun _ => Keeps.pure _) hsame
      exact (hclosed hc).shift _
  | setReleaseArtifact dto =>
      exact Inside.of_same (Keeps.bind_after (I := Inside p _ closed)
        (setReleaseArtifact_inside env hin rfl) fun _ => Keeps.pure _) hsame
  | deleteReleaseArtifact version artifactId =>
      exact Inside.of_same (Keeps.bind_after (I := Inside p _ closed)
        (deleteReleaseArtifact_inside env hin version artifactId false) fun _ => Keeps.pure _) hsame
  | deleteRelease version =>
      by_cases hfound : ∃ q loaded, namedProject db projectIdentifier p = some q ∧
          db.getReleaseEntity q version = some loaded ∧ loaded.dependentReleases = []
      · obtain ⟨q, loaded, hname, hload, hdeps⟩ := hfound
        obtain ⟨rfl, -⟩ := hstays q loaded hname hload hdeps
        exact Inside.of_same (deleteRelease_inside env hin hdb.artifactKeys hname hload hdeps) hsame
      · obtain ⟨e, hrefused⟩ := deleteRelease_refused env
          fun q loaded hname hload hdeps => hfound ⟨q, loaded, hname, hload, hdeps⟩
        show Inside _ _ _ ((ReleaseService.deleteRelease env _ >>= _) db).2
        rw [bind_run_error hrefused]
        exact hin
  | setRegulationStatus version regulation value reportDetails =>
      refine Keeps.bind ?_ (fun _ => hstart version) db hin
      exact @setRegulationStatus_inside p _ _ env ⟨projectIdentifier, p, version, regulation⟩ rfl
        value reportDetails
  | setComplianceStatus version regulation isCompliant =>
      refine Keeps.bind ?_ (fun _ => hstart version) db hin
      exact @setComplianceStatus_inside p _ _ ⟨projectIdentifier, p, version, regulation⟩ rfl
        isCompliant
  | deleteVersionRegulationStatus version regulation =>
      refine Keeps.bind ?_ (fun _ => hstart version) db hin
      exact deleteVersionRegulationStatus_inside version (some regulation)

/-! ### Requests and the tasks they leave -/

theorem runPending_inside (hclosed : NoForeignDependents o) (i : ℕ) (h : Inside p o True db) :
    Inside p o True (db.runPending env i) := by
  unfold UploadDb.runPending
  cases htask : db.pending[i]? with
  | none => exact h
  | some task =>
      have hmem : task ∈ db.pending := List.mem_of_getElem? htask
      have hrest : Inside p o True { db with pending := db.pending.eraseIdx i } :=
        { h with
          same := h.same
          pending := fun hc t ht => h.pending hc t (List.mem_of_mem_eraseIdx ht) }
      exact PendingTask.run_inside env (fun _ => hclosed) (h.pending trivial task hmem) _ hrest

/-- The condition under which a request changes nothing outside the project. -/
def GuardedRequest.StaysInside (p : ℕ) (request : GuardedRequest) (db : UploadDb) : Prop :=
  request.body.StaysInside env p request.projectIdentifier db

theorem GuardedRequest.run_of_authorised {access : AccessService} {headers : Headers}
    {request : GuardedRequest} {project : Project}
    (h : request.authorised access headers = .ok project) :
    request.run access env headers db =
      request.body.handle env request.projectIdentifier project.id db := by
  refine bind_run_ok ?_ _
  rw [h]

/-- Two projects with a draft and an image each. -/
def twoDrafts : UploadDb where
  projects := [⟨1, "one", .product⟩, ⟨2, "two", .product⟩]
  releases := [draftOf 1 "one@1.0", draftOf 2 "two@1.0"]
  dependencies := []
  artifacts := [imageOf 1 "one@1.0", imageOf 2 "two@1.0"]
  fileUploads := []
  regulations := []
  regulationStatuses := []
  rules := []
  ruleReleases := []
  uploadVersions := []
  storage := []
  nextId := 3
  now := 0
  pending := []

theorem twoDrafts_constraints : twoDrafts.Constraints where
  projectKeys := by decide
  projectNames := by decide
  releaseKeys := by decide
  releaseVersions := by decide
  artifactKeys := by decide
  artifactReleases := by decide
  artifactFiles := by simp [twoDrafts, imageOf, newArtifact]
  fileKeys := by decide
  fileObjectKeys := by decide
  fileArtifacts := by decide
  artifactUploads := by simp [twoDrafts, imageOf, newArtifact]
  statusKeys := by decide
  statusReleases := by decide
  dependencyReleases := by decide
  ruleReleases := by decide
  uploadKeys := by decide
  freshArtifacts := by decide
  freshFiles := by decide
  freshStatuses := by decide

/-- `eve` is a member of the first project only; no token is valid. -/
def firstProjectAccess : AccessService where
  getMemberInProject := fun identifier email =>
    if email = "eve" ∧ (identifier = some (.name "one") ∨ identifier = some (.id 1)) then
      .ok (some ⟨some ⟨1, "one", .product⟩, "project-member"⟩)
    else .ok none
  getProjectFromToken := fun _ => .error (.forbidden "Not allowed in this project")
  getUserProjectIds := fun email => .ok (if email = "eve" then [1] else [])
  getProjectIdsByNames := fun _ => .ok []

/-- Marks the artifact as executable. -/
def markExecutable (id : ℕ) : GuardedRequest where
  projectIdentifier := some (.id 1)
  projectId := none
  body := .updateFileMetadata ⟨none, 0, "1.0", some id, none, some true, none, none⟩

end UploadService
