import UploadService.Access.Deletion
import UploadService.Life.Calls

/-!
# What the calls write

One lemma for each function with several outcomes: every way it ends, with what was read
and what is written then.

Main results:

- `storeRelease_stored`: `setRelease` up to the look at the status;
- `setReleaseArtifact_set`: an artifact with its file upload;
- `onFileChange_changed`: a file that came or went;
- `deleteRelease_deleted`: a release with its contents;
- `refreshReleaseState_run`: a refresh, with the verdict computed from the state before.
-/

namespace UploadService

open Prog ReleaseService FileUploadService RegulationStatusService

variable {env : UploadEnv} {db : UploadDb}

/-! ### Setting a release -/

/-- What a validated list of dependencies names is there. -/
theorem getAndValidateDependencies_run (p : ℕ) (v : String) (names : List String)
    (db : UploadDb) :
    (getAndValidateDependenciesForRelease p v names db).2 = db ∧
      ∀ entities, (getAndValidateDependenciesForRelease p v names db).1 = .ok entities →
        ∀ e ∈ entities, e ∈ db.releases := by
  unfold getAndValidateDependenciesForRelease
  rw [gets_bind_run]
  split
  · exact ⟨rfl, fun entities h => by cases h⟩
  · split
    · exact ⟨rfl, fun entities h => by cases h⟩
    · refine ⟨rfl, fun entities h e he => ?_⟩
      rw [← Except.ok.inj h] at he
      exact (List.mem_filter.mp he).1

theorem requestedDependencies_run (dto : SetReleaseDto) (db : UploadDb) :
    (requestedDependencies dto db).2 = db ∧
      ∀ dependencies, (requestedDependencies dto db).1 = .ok dependencies →
        ∀ entities ∈ dependencies, ∀ e ∈ entities, e ∈ db.releases := by
  cases hdto : dto.dependencies with
  | none =>
      have hprog : requestedDependencies dto = pure none := by
        unfold requestedDependencies
        rw [hdto]
      rw [hprog]
      refine ⟨rfl, fun dependencies h entities hsome => ?_⟩
      rw [← Except.ok.inj h] at hsome
      cases hsome
  | some names =>
      have hprog : requestedDependencies dto =
          getAndValidateDependenciesForRelease dto.projectId dto.version names >>=
            fun entities => pure (some entities) := by
        unfold requestedDependencies
        rw [hdto]
      rw [hprog]
      obtain ⟨hsame, hmem⟩ := getAndValidateDependencies_run dto.projectId dto.version names db
      rcases hrun : getAndValidateDependenciesForRelease dto.projectId dto.version names db with
        ⟨result, db'⟩
      rw [hrun] at hsame hmem
      obtain rfl : db' = db := hsame
      cases result with
      | error e =>
          rw [bind_run_error hrun]
          exact ⟨rfl, fun dependencies h => by cases h⟩
      | ok found =>
          rw [bind_run_ok hrun]
          refine ⟨rfl, fun dependencies h entities hsome => ?_⟩
          rw [← Except.ok.inj h] at hsome
          rw [← Option.some.inj hsome]
          exact hmem found rfl

/-- An import asks for its dependencies as `setRelease` does. -/
theorem importedDependencies_run (dto : ImportReleaseDto) (p : ℕ) (db : UploadDb) :
    (importedDependencies dto p db).2 = db ∧
      ∀ dependencies, (importedDependencies dto p db).1 = .ok dependencies →
        ∀ entities ∈ dependencies, ∀ e ∈ entities, e ∈ db.releases := by
  have hsame : importedDependencies dto p = requestedDependencies
      ⟨none, p, dto.version, none, none, none, none, none,
        if dto.dependencies.isEmpty then none else some dto.dependencies⟩ := by
    unfold importedDependencies requestedDependencies
    split <;> rfl
  rw [hsame]
  exact requestedDependencies_run _ db

theorem saveRelease_new (env : UploadEnv) (row : Release) (db : UploadDb) :
    saveRelease env true row db = match insertRelease env.semver db.projects row db.releases with
      | none => (.error (.queryFailed "duplicate key value violates unique constraint"), db)
      | some (inserted, releases) => (.ok inserted.catalogId, { db with releases := releases }) :=
  rfl

/-- What `setRelease` is about to save, where its checks pass. -/
theorem prepareRelease_spec {dto : SetReleaseDto} {isNew : Bool} {row : Release}
    {dependencies : Option (List Release)} {db' : UploadDb}
    (h : prepareRelease env dto db = (.ok (isNew, row, dependencies), db')) :
    db' = db ∧ isNew = (db.findRelease dto.projectId dto.version).isNone ∧
      (∀ entities ∈ dependencies, ∀ e ∈ entities, e ∈ db.releases) ∧
      (∀ r, db.findRelease dto.projectId dto.version = some r → isReadonly env r.status = false) ∧
      ∃ name required, row = changedRelease env dto name isNew required
        ((db.findRelease dto.projectId dto.version).getD
          (Release.create dto.projectId dto.version)) := by
  have hdb : db' = db := by
    have hreads := @prepareRelease_reads db env dto db rfl
    rw [h] at hreads
    exact hreads
  unfold prepareRelease at h
  rw [gets_bind_run, gets_bind_run] at h
  obtain ⟨_, db₁, hcheck, h₁⟩ := bind_ok_inv h
  obtain ⟨result, hrun, hok⟩ := checkReadonlyReleasePermission_run env
    ((db.findRelease dto.projectId dto.version).getD
      (Release.create dto.projectId dto.version)).status db
  rw [hrun] at hcheck
  obtain ⟨hresult, hdb₁⟩ := Prod.mk.inj hcheck
  rw [← hdb₁, gets_bind_run] at h₁
  obtain ⟨deps, db₂, hdeps, h₂⟩ := bind_ok_inv h₁
  simp only [pure_run, Prod.mk.injEq, Except.ok.injEq] at h₂
  obtain ⟨⟨rfl, rfl, rfl⟩, -⟩ := h₂
  refine ⟨hdb, rfl, ?_, ?_, _, _, rfl⟩
  · intro entities hsome
    have hmem := (requestedDependencies_run dto db).2
    rw [hdeps] at hmem
    exact hmem deps rfl entities hsome
  · intro r hr
    rw [hr] at hok
    exact hok.mp hresult

/-- The three ways `storeRelease` ends. -/
inductive Stored (env : UploadEnv) (dto : SetReleaseDto) (db : UploadDb) :
    Except Exception Unit × UploadDb → Prop where
  | refused (e : Exception) : Stored env dto db (.error e, db)
  | inserted (row inserted : Release) (rows : List Release) (dependencies : Option (List Release))
      (hfind : db.findRelease dto.projectId dto.version = none)
      (hrow : ∃ name required, row = changedRelease env dto name true required
        (Release.create dto.projectId dto.version))
      (hins : insertRelease env.semver db.projects row db.releases = some (inserted, rows))
      (hdeps : ∀ entities ∈ dependencies, ∀ e ∈ entities, e ∈ db.releases) :
      Stored env dto db
        (saveRelations dto true dependencies inserted.catalogId { db with releases := rows })
  | changed (r row : Release) (dependencies : Option (List Release))
      (hfind : db.findRelease dto.projectId dto.version = some r)
      (hedit : isReadonly env r.status = false)
      (hrow : ∃ name required, row = changedRelease env dto name false required r)
      (hdeps : ∀ entities ∈ dependencies, ∀ e ∈ entities, e ∈ db.releases) :
      Stored env dto db (saveRelations dto false dependencies r.catalogId
        (updateReleases (fun x => x.catalogId == r.catalogId) (fun _ => row) db))

theorem saveRelations_ok (dto : SetReleaseDto) (isNew : Bool)
    (dependencies : Option (List Release)) (catalogId : String) (db : UploadDb) :
    (saveRelations dto isNew dependencies catalogId db).1 = .ok () := by
  cases isNew <;> rfl

theorem storeRelease_stored (env : UploadEnv) (dto : SetReleaseDto) (db : UploadDb) :
    Stored env dto db (storeRelease env dto db) := by
  unfold storeRelease
  rcases hrun : prepareRelease env dto db with ⟨result, db'⟩
  cases result with
  | error e =>
      have hreads := @prepareRelease_reads db env dto db rfl
      rw [hrun] at hreads
      rw [bind_run_error hrun]
      obtain rfl : db' = db := hreads
      exact .refused e
  | ok found =>
      obtain ⟨isNew, row, dependencies⟩ := found
      obtain ⟨rfl, hnew, hdeps, hedit, name, required, hrow⟩ := prepareRelease_spec hrun
      rw [bind_run_ok hrun]
      cases hfind : db'.findRelease dto.projectId dto.version with
      | none =>
          rw [hfind] at hnew hrow
          obtain rfl : isNew = true := hnew
          show Stored env dto db' ((saveRelease env true row >>= _) db')
          have hsave := saveRelease_new env row db'
          cases hins : insertRelease env.semver db'.projects row db'.releases with
          | none =>
              rw [hins] at hsave
              rw [bind_run_error hsave]
              exact .refused _
          | some saved =>
              obtain ⟨inserted, rows⟩ := saved
              rw [hins] at hsave
              rw [bind_run_ok hsave]
              exact .inserted row inserted rows dependencies hfind ⟨name, required, hrow⟩ hins hdeps
      | some r =>
          have hread := hedit r hfind
          rw [hfind] at hnew hrow
          obtain rfl : isNew = false := hnew
          show Stored env dto db' ((saveRelease env false row >>= _) db')
          have hkey : row.catalogId = r.catalogId := by rw [hrow]; rfl
          have hsave : saveRelease env false row db' = (.ok r.catalogId,
              updateReleases (fun x => x.catalogId == r.catalogId) (fun _ => row) db') := by
            rw [← hkey]
            rfl
          rw [bind_run_ok hsave]
          exact .changed r row dependencies hfind hread ⟨name, required, hrow⟩ hdeps

/-- A request that is refused writes nothing. -/
theorem Stored.refused_eq {dto : SetReleaseDto} {result : Except Exception Unit × UploadDb}
    (h : Stored env dto db result) (hno : result.1.isOk = false) : result.2 = db := by
  cases h with
  | refused e => rfl
  | inserted row inserted rows dependencies hfind hrow hins hdeps =>
      rw [saveRelations_ok] at hno
      cases hno
  | changed r row dependencies hfind hedit hrow hdeps =>
      rw [saveRelations_ok] at hno
      cases hno

/-! ### Artifacts -/

/-- The file upload behind the artifact of a request. -/
def fileStep (env : UploadEnv) (dto : SetReleaseArtifactDto) (db : UploadDb) :
    Option ℕ × UploadDb :=
  match dto.type with
  | .file =>
      let projectId := dto.projectId
      let version := dto.version
      let next := upsertFileUpload dto.artifactName "release"
        (createObjectKey "release" s!"{projectId}/{version}" dto.artifactName) env.bucketName db
      (some next.1, next.2)
  | _ => (none, db)

theorem artifactFile_run (env : UploadEnv) (dto : SetReleaseArtifactDto) (db : UploadDb) :
    artifactFile env dto db = (.ok (fileStep env dto db).1, (fileStep env dto db).2) := by
  unfold artifactFile fileStep
  cases dto.type <;> rfl

/-- The row of the request, over what is there. -/
def artifactRow (dto : SetReleaseArtifactDto) (fileUploadId : Option ℕ) (a : ReleaseArtifact) :
    ReleaseArtifact :=
  typeColumns dto fileUploadId (changedArtifact dto a)

/-- The three ways the upsert of an artifact ends. -/
inductive Upserted (dto : SetReleaseArtifactDto) (catalogId : String) (fileUploadId : Option ℕ)
    (db : UploadDb) : UploadDb → Prop where
  | taken : Upserted dto catalogId fileUploadId db db
  | existing (a : ReleaseArtifact) (ha : a ∈ db.artifacts)
      (hsame : isSameArtifact dto catalogId fileUploadId a = true) :
      Upserted dto catalogId fileUploadId db { db with
        artifacts := Rows.updateWhere (isSameArtifact dto catalogId fileUploadId)
          (artifactRow dto fileUploadId) db.artifacts }
  | new (hnone : ∀ a ∈ db.artifacts, isSameArtifact dto catalogId fileUploadId a = false)
      (hfree : ∀ id, fileUploadId = some id → ∀ a ∈ db.artifacts, a.fileUploadId ≠ some id) :
      Upserted dto catalogId fileUploadId db { db with
        artifacts := db.artifacts ++
          [artifactRow dto fileUploadId (newArtifact db.nextId catalogId)]
        nextId := db.nextId + 1 }

theorem upsertArtifact_upserted (dto : SetReleaseArtifactDto) (catalogId : String)
    (fileUploadId : Option ℕ) (db : UploadDb) :
    Upserted dto catalogId fileUploadId db (upsertArtifact dto catalogId fileUploadId db).2 ∧
      ((∃ e, (upsertArtifact dto catalogId fileUploadId db).1 = .error e) →
        (upsertArtifact dto catalogId fileUploadId db).2 = db) := by
  unfold upsertArtifact
  cases hfind : db.artifacts.find? (isSameArtifact dto catalogId fileUploadId) with
  | some a =>
      refine ⟨.existing a (List.mem_of_find?_eq_some hfind) (List.find?_some hfind), ?_⟩
      rintro ⟨e, he⟩
      cases he
  | none =>
      by_cases htaken : (fileUploadId.isSome &&
          db.artifacts.any fun a => a.fileUploadId == fileUploadId) = true
      · simp only [htaken, if_true]
        exact ⟨.taken, fun _ => trivial⟩
      · simp only [htaken]
        refine ⟨.new ?_ ?_, ?_⟩
        · intro a ha
          simpa using List.find?_eq_none.mp hfind a ha
        · rintro id rfl a ha heq
          apply htaken
          simp only [Option.isSome_some, Bool.true_and, List.any_eq_true]
          exact ⟨a, ha, by simpa using heq⟩
        · rintro ⟨e, he⟩
          cases he

/-- The ways `setReleaseArtifact` ends. -/
inductive ArtifactSet (env : UploadEnv) (dto : SetReleaseArtifactDto) (db : UploadDb) :
    UploadDb → Prop where
  | refused : ArtifactSet env dto db db
  /-- the file upload is written, the artifact is refused -/
  | fileOnly (r : Release) (hfind : db.findRelease dto.projectId dto.version = some r)
      (hedit : isReadonly env r.status = false) : ArtifactSet env dto db (fileStep env dto db).2
  | set (r : Release) (db' : UploadDb)
      (hfind : db.findRelease dto.projectId dto.version = some r)
      (hedit : isReadonly env r.status = false)
      (hups : Upserted dto r.catalogId (fileStep env dto db).1 (fileStep env dto db).2 db') :
      ArtifactSet env dto db (if dto.type = .file then updateTotalSize dto.projectId dto.version db'
        else start (.refreshReleaseState dto.projectId dto.version)
          (updateTotalSize dto.projectId dto.version db'))

theorem setReleaseArtifact_set (env : UploadEnv) (dto : SetReleaseArtifactDto) (db : UploadDb) :
    ArtifactSet env dto db (setReleaseArtifact env dto db).2 := by
  unfold setReleaseArtifact
  rw [gets_bind_run]
  cases hfind : db.findRelease dto.projectId dto.version with
  | none => exact .refused
  | some r =>
      show ArtifactSet env dto db ((checkReadonlyReleasePermission env r.status >>= _) db).2
      rw [checkReadonlyReleasePermission_bind]
      cases hread : isReadonly env r.status with
      | true => exact .refused
      | false =>
          simp only [Bool.false_eq_true, if_false]
          rw [bind_run_ok (artifactFile_run env dto db)]
          obtain ⟨hups, herr⟩ := upsertArtifact_upserted dto r.catalogId (fileStep env dto db).1
            (fileStep env dto db).2
          rcases hrun : upsertArtifact dto r.catalogId (fileStep env dto db).1
            (fileStep env dto db).2 with ⟨result, db'⟩
          rw [hrun] at hups herr
          cases result with
          | error e =>
              rw [bind_run_error hrun]
              obtain rfl : db' = (fileStep env dto db).2 := herr ⟨e, rfl⟩
              exact .fileOnly r hfind hread
          | ok id =>
              rw [bind_run_ok hrun]
              have hset := ArtifactSet.set r db' hfind hread hups
              cases htype : dto.type with
              | file =>
                  rw [if_pos htype] at hset
                  exact hset
              | dockerImage | rpm | deb =>
                  rw [if_neg (by simp [htype])] at hset
                  exact hset

/-- The ways `onFileChange` ends. -/
inductive FileChanged (key : Option String) (db : UploadDb) : UploadDb → Prop where
  | ignored (hnone : releaseOfFile db key = none) : FileChanged key db db
  | seen (r : Release) (hfind : releaseOfFile db key = some r) :
      FileChanged key db (start (.refreshReleaseState r.projectId r.version)
        (updateTotalSize r.projectId r.version db))
  | seenError (r : Release) (hfind : releaseOfFile db key = some r) (herror : r.status = .error) :
      FileChanged key db (start (.maybeRestoreReleasedStatus r.catalogId)
        (start (.refreshReleaseState r.projectId r.version)
          (updateTotalSize r.projectId r.version db)))

theorem onFileChange_changed (key : Option String) (db : UploadDb) :
    FileChanged key db (onFileChange key db).2 := by
  unfold onFileChange
  rw [gets_bind_run]
  cases hfind : releaseOfFile db key with
  | none => exact .ignored hfind
  | some r =>
      show FileChanged key db (when (r.status == .error) _ _).2
      by_cases herror : r.status = .error
      · rw [herror]
        exact .seenError r hfind herror
      · rw [beq_eq_false_iff_ne.mpr herror]
        exact .seen r hfind

/-! ### Deleting a release -/

/-- The row is gone, with its dependencies and associations. -/
def withoutRelease (catalogId : String) (db : UploadDb) : UploadDb :=
  { db with
    releases := Rows.deleteWhere (fun r => r.catalogId == catalogId) db.releases
    dependencies := Rows.deleteWhere (fun d => d.releaseId == catalogId) db.dependencies
    ruleReleases := Rows.deleteWhere (fun a => a.releaseCatalogId == catalogId) db.ruleReleases }

/-- The ways `deleteRelease` ends. -/
inductive Deleted (env : UploadEnv) (projectIdentifier : Option Identifier) (p : ℕ) (v : String)
    (db : UploadDb) : Except Exception ℕ × UploadDb → Prop where
  | refused (e : Exception) : Deleted env projectIdentifier p v db (.error e, db)
  /-- the contents are deleted, the row stays -/
  | stuck (e : Exception) (q : ℕ) (loaded : LoadedRelease) :
      Deleted env projectIdentifier p v db (.error e, (deleteContents env q v loaded db).2)
  | deleted (q : ℕ) (loaded : LoadedRelease) (policies : List String)
      (hname : namedProject db projectIdentifier p = some q)
      (hload : db.getReleaseEntity q v = some loaded) (hdeps : loaded.dependentReleases = []) :
      Deleted env projectIdentifier p v db (.ok q, deleteOrphanedPolicies policies
        (withoutRelease loaded.release.catalogId (deleteContents env q v loaded db).2))

theorem deleteRelease_deleted (env : UploadEnv) (projectIdentifier : Option Identifier) (p : ℕ)
    (v : String) (db : UploadDb) :
    Deleted env projectIdentifier p v db (deleteRelease env ⟨projectIdentifier, p, v⟩ db) := by
  by_cases h : ∃ q loaded, namedProject db projectIdentifier p = some q ∧
      db.getReleaseEntity q v = some loaded ∧ loaded.dependentReleases = []
  · obtain ⟨q, loaded, hname, hload, hdeps⟩ := h
    rw [deleteRelease_run env hname hload hdeps]
    rcases hrun : deleteContents env q v loaded db with ⟨result, db₁⟩
    have hstuck := fun e => @Deleted.stuck env projectIdentifier p v db e q loaded
    have hdeleted := fun policies =>
      @Deleted.deleted env projectIdentifier p v db q loaded policies hname hload hdeps
    rw [hrun] at hstuck hdeleted
    cases result with
    | error e =>
        rw [bind_run_error hrun]
        exact hstuck e
    | ok _ =>
        rw [bind_run_ok hrun, gets_bind_run]
        by_cases hfree : ((db₁.artifacts.any fun a => a.releaseId == loaded.release.catalogId) ||
            (db₁.regulationStatuses.any fun s => s.versionId == loaded.release.catalogId) ||
            (db₁.dependencies.any fun d => d.dependencyReleaseId == loaded.release.catalogId &&
              d.releaseId != loaded.release.catalogId)) = true
        · have hrow : deleteReleaseRow loaded.release.catalogId db₁ = (.error (.queryFailed
              "update or delete on table \"release\" violates foreign key constraint"), db₁) :=
            if_pos hfree
          rw [bind_run_error hrow]
          exact hstuck _
        · have hrow : deleteReleaseRow loaded.release.catalogId db₁ =
              (.ok (), withoutRelease loaded.release.catalogId db₁) := if_neg hfree
          rw [bind_run_ok hrow]
          exact hdeleted _
  · obtain ⟨e, hrun⟩ := @deleteRelease_refused p db env projectIdentifier v
      fun q loaded hname hload hdeps => h ⟨q, loaded, hname, hload, hdeps⟩
    rw [hrun]
    exact .refused e

/-! ### A refresh -/

/-- The object of the file upload is not in the storage. -/
def isMissing (env : UploadEnv) (db : UploadDb) (f : FileUpload) : Bool :=
  (UploadDb.statOf env db f).isNone

/-- The file uploads of these ids that are gone from the storage are marked. -/
def markedMissing (env : UploadEnv) (ids : List ℕ) (db : UploadDb) : UploadDb :=
  { db with
    fileUploads := Rows.updateWhere
      (fun f => ids.contains f.id && (isMissing env db f && f.status != .removed)) markMissing
      db.fileUploads }

theorem checkMissingFile_run (env : UploadEnv) (missing : Bool) (file : FileUpload)
    (db : UploadDb) :
    checkMissingFile env missing file db = (.ok (missing || isMissing env db file),
      if isMissing env db file && file.status != .removed then
        updateFileUpload file.id markMissing db
      else db) := by
  unfold checkMissingFile isMissing
  rw [gets_bind_run]
  cases hstat : UploadDb.statOf env db file with
  | some stored => simp
  | none =>
      by_cases hremoved : file.status = .removed
      · simp only [hremoved, Option.isNone_none, bne_self_eq_false, Bool.and_false, Bool.or_true]
        rfl
      · have hne : (file.status != .removed) = true := by simpa using hremoved
        simp only [hne, Option.isNone_none, Bool.and_true, Bool.or_true, if_true]
        rfl

theorem checkMissingFiles_run (env : UploadEnv) (files : List FileUpload) (missing : Bool)
    (db : UploadDb) :
    foldEach (checkMissingFile env) missing files db =
      (.ok (missing || files.any (isMissing env db)), { db with
        fileUploads := Rows.updateWhere (fun f => files.any fun x =>
          x.id == f.id && (isMissing env db x && x.status != .removed)) markMissing
          db.fileUploads }) := by
  induction files generalizing missing db with
  | nil =>
      simp only [List.any_nil, Bool.or_false]
      rw [Rows.updateWhere_eq_self fun f _ hf => by cases hf]
      rfl
  | cons file files ih =>
      show (checkMissingFile env missing file >>= _) db = _
      rw [bind_run_ok (checkMissingFile_run env missing file db)]
      have hstorage : ∀ s : UploadDb, s.storage = db.storage →
          isMissing env s = isMissing env db := by
        intro s hs
        funext f
        unfold isMissing UploadDb.statOf UploadDb.getObjectStat
        rw [hs]
      by_cases hmark : (isMissing env db file && file.status != .removed) = true
      · rw [if_pos hmark, ih]
        rw [hstorage (updateFileUpload file.id markMissing db) rfl]
        simp only [List.any_cons, Bool.or_assoc, hmark, Bool.and_true]
        have hrows : Rows.updateWhere (fun f => files.any fun x =>
            x.id == f.id && (isMissing env db x && x.status != .removed)) markMissing
            (updateFileUpload file.id markMissing db).fileUploads =
            Rows.updateWhere (fun f => file.id == f.id || files.any fun x =>
              x.id == f.id && (isMissing env db x && x.status != .removed)) markMissing
              db.fileUploads := by
          show Rows.updateWhere _ markMissing (Rows.updateWhere _ markMissing db.fileUploads) = _
          have hmerge := Rows.updateWhere_updateWhere (p := fun f : FileUpload => f.id == file.id)
            (q := fun f => files.any fun x =>
              x.id == f.id && (isMissing env db x && x.status != .removed))
            (f := markMissing) db.fileUploads (fun _ => rfl) (fun _ => rfl)
          rw [hmerge]
          apply Rows.updateWhere_congr
          intro f _
          rw [show (f.id == file.id) = (file.id == f.id) from Bool.beq_comm]
        rw [hrows]
        rfl
      · rw [if_neg hmark, ih]
        simp only [List.any_cons, Bool.or_assoc, eq_false_of_ne_true hmark, Bool.and_false,
          Bool.false_or]

/-- The check of the files: whether an object is missing, and the marked rows. -/
theorem syncAndCheckMissingFiles_run (env : UploadEnv) (ids : List ℕ) (db : UploadDb)
    (hkeys : Rows.KeysDistinct FileUpload.id db.fileUploads) :
    syncAndCheckMissingFiles env ids db =
      (.ok ((db.fileUploads.filter fun f => ids.contains f.id).any (isMissing env db)),
        markedMissing env ids db) := by
  unfold syncAndCheckMissingFiles
  rw [gets_bind_run, checkMissingFiles_run, Bool.false_or]
  unfold markedMissing
  congr 2
  apply Rows.updateWhere_congr
  intro f hf
  rw [Bool.eq_iff_iff]
  simp only [List.any_eq_true, List.mem_filter, Bool.and_eq_true, beq_iff_eq, List.contains_iff_mem]
  constructor
  · rintro ⟨x, ⟨hx, hid⟩, hkey, hmark⟩
    obtain rfl : x = f := hkeys.eq_of_mem hx hf hkey
    exact ⟨hid, hmark⟩
  · rintro ⟨hid, hmark⟩
    exact ⟨f, ⟨hf, hid⟩, rfl, hmark⟩

/-- The state in which a refresh comes to the status. -/
def beforeStatus (env : UploadEnv) (p : ℕ) (v : String) (loaded : LoadedRelease)
    (db : UploadDb) : UploadDb :=
  markedMissing env (fileIds loaded) (updateRegulationCounts p v (regulationsOf db p).length
    (numCompliant (regulationsOf db p) (getVersionRegulationsStatuses db p v)) db)

/-- What a refresh finds out about the release, from the state before. -/
def verdictOf (env : UploadEnv) (p : ℕ) (v : String) (loaded : LoadedRelease) (db : UploadDb) :
    Verdict where
  regulationsCompliant :=
    (regulationsOf db p).all (isCompliantWith (getVersionRegulationsStatuses db p v))
  dependenciesReleased := dependenciesReleased loaded
  storageMissing :=
    (db.fileUploads.filter fun f => (fileIds loaded).contains f.id).any (isMissing env db)
  fileUploaded := fileUploaded (markedMissing env (fileIds loaded) db) loaded

/-- The ways a refresh ends: it skips the release, or it settles the status. -/
theorem refreshReleaseState_run (env : UploadEnv) (p : ℕ) (v : String) (hdb : db.Constraints) :
    refreshReleaseState env p v db = match db.getReleaseEntity p v with
      | none => (.ok (), db)
      | some loaded =>
          if isTerminal loaded.release.status then (.ok (), db)
          else (.ok (), settle p v loaded (verdictOf env p v loaded db)
            (beforeStatus env p v loaded db)) := by
  unfold refreshReleaseState
  rw [gets_bind_run]
  cases hload : db.getReleaseEntity p v with
  | none => rfl
  | some loaded =>
      show (if isTerminal loaded.release.status then pure ()
        else refreshLoaded env p v loaded : UploadProg Unit) db = _
      by_cases hterminal : isTerminal loaded.release.status = true
      · simp only [hterminal, if_true]
        rfl
      · simp only [hterminal]
        show refreshLoaded env p v loaded db = _
        unfold refreshLoaded
        rw [gets_bind_run, gets_bind_run, modify_bind_run]
        rw [bind_run_ok (syncAndCheckMissingFiles_run env (fileIds loaded)
          (updateRegulationCounts p v (regulationsOf db p).length
            (numCompliant (regulationsOf db p) (getVersionRegulationsStatuses db p v)) db)
          hdb.fileKeys)]
        rfl

end UploadService
