import UploadService.Life.Recovery

/-!
# Steps of a recovery

What a notification of the bucket and a refresh do to a release that is recovering. A
notification that an object was created sets the status of the row to `UPLOADED` and leaves its
error, so that it must find none of the synchronisation. A refresh that takes the release out
of `RELEASED` must take it to `ERROR`, which keeps the time of the release.

Main results:

- `updateUploadFile_recovering`, `processAndSaveFile_leaves`: the notifications;
- `refreshReleaseState_recovering`: a refresh;
- `updateUploadFile_healthy`, `refreshReleaseState_healthy`: healthy files stay healthy.
-/

namespace UploadService

open Prog ReleaseService FileUploadService RegulationStatusService

variable {env : UploadEnv} {db : UploadDb} {c : String}

/-! ### Notifications -/

/-- A created object has no row of the release with an error of the synchronisation. -/
def Heeds (c : String) (file : UpdateFileUploadDto) (db : UploadDb) : Prop :=
  IsFileEvent file ∧ (file.status = .uploaded →
    ∀ f ∈ db.filesOf c, f.objectKey = file.objectKey → carriesSyncError f = false)

instance (c : String) (file : UpdateFileUploadDto) (db : UploadDb) : Decidable (Heeds c file db) :=
  inferInstanceAs (Decidable (_ ∧ _))

/-- The restoration of a release in error is started. -/
theorem onFileChange_restores {key : Option String} {r : Release}
    (hfind : releaseOfFile db key = some r) (herror : r.status = .error) :
    .maybeRestoreReleasedStatus r.catalogId ∈ (onFileChange key db).2.pending := by
  unfold onFileChange
  rw [gets_bind_run, hfind]
  show _ ∈ (when (r.status == .error) (modify (start (.maybeRestoreReleasedStatus r.catalogId)))
    (start (.refreshReleaseState r.projectId r.version)
      (updateTotalSize r.projectId r.version db)) : Except Exception Unit × UploadDb).2.pending
  rw [herror]
  exact List.mem_append_right _ (List.mem_singleton.mpr rfl)

/-- The files of the release after the rows of an object are written and the listener is told. -/
theorem told_filesOf {file : UpdateFileUploadDto} (c : String) :
    UploadDb.filesOf (onFileChange (some file.objectKey) { db with
      fileUploads := Rows.updateWhere (fun f => f.objectKey == file.objectKey) (notified file)
        db.fileUploads }).2 c =
    (db.filesOf c).map fun f => if f.objectKey == file.objectKey then notified file f else f := by
  set told : UploadDb := { db with
    fileUploads := Rows.updateWhere (fun f => f.objectKey == file.objectKey) (notified file)
      db.fileUploads } with htold
  have hseen := onFileChange_seen (some file.objectKey) told
  have hfiles : (onFileChange (some file.objectKey) told).2.fileUploads =
      Rows.updateWhere (fun f => f.objectKey == file.objectKey) (notified file) db.fileUploads :=
    hseen.files
  exact @filesOf_updateWhere db _ (fun f => f.objectKey == file.objectKey) (notified file)
    hseen.artifacts hfiles (fun _ => rfl) c

/-- **Main result.** A release in error whose file comes back is looked at again. -/
theorem updateUploadFile_recovering {file : UpdateFileUploadDto} (h : Recovering c db)
    (hheeds : Heeds c file db) : Recovering c (updateUploadFile file db).2 := by
  have hconstraints := updateUploadFile_constraints file db h.wasReleased.constraints
  rcases updateUploadFile_ends hheeds.1 db with hsame | hrun
  · rw [hsame]
    exact h
  · rw [hrun] at hconstraints ⊢
    have hfiles := @told_filesOf db file c
    set told : UploadDb := { db with
      fileUploads := Rows.updateWhere (fun f => f.objectKey == file.objectKey) (notified file)
        db.fileUploads } with htold
    have htoldc : told.Constraints := h.wasReleased.constraints.updateFiles fun _ => ⟨rfl, rfl⟩
    have hseen := onFileChange_seen (some file.objectKey) told
    have hstandings : (onFileChange (some file.objectKey) told).2.standings = db.standings :=
      hseen.standings
    refine ⟨⟨hconstraints, ?_, ?_⟩, ?_⟩
    · rw [hstandings]
      exact h.wasReleased.row
    · intro g hg
      rw [hfiles] at hg
      obtain ⟨f, hf, rfl⟩ := List.mem_map.mp hg
      split
      · rename_i hkey
        rcases hheeds.1 with hcreated | hremoved
        · exact .inr (isHealthy_iff.mpr ⟨hcreated, hheeds.2 hcreated f hf (beq_iff_eq.mp hkey)⟩)
        · exact .inl hremoved
      · exact h.wasReleased.files f hf
    · rcases h.noticed with hreleased | ⟨f, hf, hremoved⟩ | hpending
      · left
        unfold IsReleased
        rw [hstandings]
        exact hreleased
      · by_cases hcomes : f.objectKey = file.objectKey ∧ file.status = .uploaded
        · obtain ⟨x, hx, hkey, -, hstatus⟩ := h.wasReleased.row
          rcases hstatus with hreleased | herror
          · left
            unfold IsReleased
            rw [hstandings]
            exact ⟨x, hx, hkey, hreleased⟩
          · -- the listener finds the release of the file in error
            obtain ⟨a, ha, hof, -, hfile⟩ := mem_filesOf.mp hf
            obtain ⟨hmem, hid⟩ := mem_of_fileUploadOf hfile
            have hheld : holdsFile told file.objectKey a = true :=
              (holdsFile_iff htoldc).mpr ⟨notified file f,
                Rows.mem_updateWhere.mpr (.inl ⟨f, hmem, by simpa using hcomes.1, rfl⟩),
                hcomes.1, hid⟩
            obtain ⟨r, hr, hrel, hfind⟩ := releaseOfFile_eq htoldc ha hheld
            obtain rfl : r.standing = x := h.wasReleased.constraints.standing_eq
              (mem_standings hr) hx (hrel.trans (hof.trans hkey.symm))
            refine .inr (.inr ?_)
            rw [← hof, ← hrel]
            exact onFileChange_restores hfind herror
        · have hmem := List.mem_map_of_mem
            (f := fun f => if f.objectKey == file.objectKey then notified file f else f) hf
          rw [← hfiles] at hmem
          refine .inr (.inl ⟨_, hmem, ?_⟩)
          split
          · rename_i hkey
            rcases hheeds.1 with hcreated | hgone
            · exact absurd ⟨beq_iff_eq.mp hkey, hcreated⟩ hcomes
            · exact hgone
          · exact hremoved
      · exact .inr (.inr (hseen.pending hpending))

/-- A created object leaves healthy files healthy, and so does one of another release. -/
theorem updateUploadFile_healthy {file : UpdateFileUploadDto} (h : allHealthy db c = true)
    (hevent : IsFileEvent file)
    (hnot : file.status = .removed → ∀ f ∈ db.filesOf c, f.objectKey ≠ file.objectKey) :
    allHealthy (updateUploadFile file db).2 c = true := by
  rcases updateUploadFile_ends hevent db with hsame | hrun
  · rw [hsame]
    exact h
  · rw [hrun]
    rw [allHealthy_iff] at h ⊢
    intro g hg
    rw [told_filesOf] at hg
    obtain ⟨f, hf, rfl⟩ := List.mem_map.mp hg
    split
    · rename_i hkey
      rcases hevent with hcreated | hremoved
      · exact isHealthy_iff.mpr ⟨hcreated, (isHealthy_iff.mp (h f hf)).2⟩
      · exact absurd (beq_iff_eq.mp hkey) (hnot hremoved f hf)
    · exact h f hf

/-- The processing of a stored file writes its checksum and its progress. -/
theorem processAndSaveFile_leaves (objectKey : String) (calculateSha256 : Bool) (db : UploadDb) :
    LeavesAlone c db (processAndSaveFile env objectKey calculateSha256 db).2 := by
  have hrefl : LeavesAlone c db db := ⟨fun x hx hkey => ⟨x, hx, hkey, rfl, rfl⟩, rfl, fun h => h⟩
  unfold processAndSaveFile
  rw [gets_bind_run]
  cases Rows.findKey FileUpload.objectKey objectKey db.fileUploads with
  | none => exact hrefl
  | some file =>
      dsimp only
      rw [gets_bind_run]
      cases db.getObjectStat env.bucketName objectKey with
      | none => exact hrefl
      | some stored =>
          dsimp only
          rw [modify_bind_run]
          set saved := updateFileUpload file.id (processed calculateSha256 stored) db with hsaved
          have hfiles := @filesOf_updateWhere db saved (fun f => f.id == file.id)
            (processed calculateSha256 stored) rfl rfl (fun _ => rfl) c
          have hhealth : (saved.filesOf c).map health = (db.filesOf c).map health := by
            rw [hfiles, List.map_map]
            apply List.map_congr_left
            intro f _
            show health (if f.id == file.id then processed calculateSha256 stored f else f) = health f
            split <;> rfl
          have hsavedleaves : LeavesAlone c db saved :=
            ⟨fun x hx hkey => ⟨x, hx, hkey, rfl, rfl⟩, hhealth, fun h => h⟩
          show LeavesAlone c db (when (calculateSha256 && stored.sha256.isSome)
            (onFileChange (some objectKey)) saved : Except Exception Unit × UploadDb).2
          cases calculateSha256 && stored.sha256.isSome with
          | false => exact hsavedleaves
          | true =>
              have hseen := onFileChange_seen (some objectKey) saved
              refine ⟨fun x hx hkey => ⟨x, ?_, hkey, rfl, rfl⟩, ?_, fun h => hseen.pending h⟩
              · show x ∈ (onFileChange (some objectKey) saved).2.standings
                rw [hseen.standings]
                exact hx
              · show ((onFileChange (some objectKey) saved).2.filesOf c).map health = _
                unfold UploadDb.filesOf UploadDb.artifactsOf UploadDb.fileUploadOf
                rw [hseen.artifacts, hseen.files]
                exact hhealth

/-! ### Refreshes -/

/-- A refresh of the release, where it is released, finds its regulations compliant, and its
dependencies released, or its files uploaded, or an object of them missing. -/
def RefreshFinds (env : UploadEnv) (c : String) (p : ℕ) (v : String) (db : UploadDb) : Prop :=
  ∀ loaded ∈ db.getReleaseEntity p v, loaded.release.catalogId = c →
    loaded.release.status = .released →
      (regulationsOf db p).all (isCompliantWith (getVersionRegulationsStatuses db p v)) = true ∧
        (dependenciesReleased loaded = true ∨ fileUploaded db loaded = true ∨
          ∃ f ∈ db.fileUploads, f.id ∈ fileIds loaded ∧ isMissing env db f = true)

instance (env : UploadEnv) (c : String) (p : ℕ) (v : String) (db : UploadDb) :
    Decidable (RefreshFinds env c p v db) :=
  inferInstanceAs (Decidable (∀ loaded ∈ db.getReleaseEntity p v, _))

/-- The rows that a refresh marks. -/
def isMarked (env : UploadEnv) (ids : List ℕ) (db : UploadDb) (f : FileUpload) : Bool :=
  ids.contains f.id && (isMissing env db f && f.status != .removed)

theorem beforeStatus_filesOf (p : ℕ) (v : String) (loaded : LoadedRelease) (db : UploadDb)
    (c : String) : (beforeStatus env p v loaded db).filesOf c =
      (db.filesOf c).map fun f => if isMarked env (fileIds loaded) db f then markMissing f else f :=
  @filesOf_updateWhere db (beforeStatus env p v loaded db) (isMarked env (fileIds loaded) db)
    markMissing rfl rfl (fun _ => rfl) c

/-- The standing of a release after a status is written and the flags are computed. -/
theorem afterChange_standing (p : ℕ) (v : String) (status : ReleaseStatus)
    (loaded : LoadedRelease) {x : Standing} (hx : x ∈ db.standings) :
    let y := if isStanding p v x && (status == .released || x.status == .released) then
      writtenStatus db.now status x else x
    ∃ z ∈ (afterChange p loaded (writeStatus p v status db)).standings,
      z.catalogId = x.catalogId ∧ z.status = y.status ∧ z.releasedAt = y.releasedAt := by
  intro y
  have hy : y ∈ (writeStatus p v status db).standings := by
    rw [writeStatus_standings]
    exact List.mem_map_of_mem hx
  have hkey : y.catalogId = x.catalogId := by
    show (if _ then _ else _ : Standing).catalogId = _
    split <;> rfl
  set written := writeStatus p v status db with hwritten
  have helects : (afterChange p loaded written).standings =
      elect p (latestReleased written p) written.standings :=
    updateLatestForProject_standings p written
  rw [helects]
  refine ⟨_, List.mem_map_of_mem hy, ?_⟩
  split <;> exact ⟨hkey, rfl, rfl⟩

/-- Up to the status, a refresh may mark files, which stay noticed. -/
theorem beforeStatus_recovering (h : Recovering c db) (p : ℕ) (v : String)
    (loaded : LoadedRelease) : Recovering c (beforeStatus env p v loaded db) := by
  have hstandings : (beforeStatus env p v loaded db).standings = db.standings :=
    standings_sees.beforeStatus p v loaded db
  have hfiles := @beforeStatus_filesOf env p v loaded db c
  refine ⟨⟨beforeStatus_constraints h.wasReleased.constraints p v loaded, ?_, ?_⟩, ?_⟩
  · rw [hstandings]
    exact h.wasReleased.row
  · intro g hg
    rw [hfiles] at hg
    obtain ⟨f, hf, rfl⟩ := List.mem_map.mp hg
    split
    · exact .inl rfl
    · exact h.wasReleased.files f hf
  · rcases h.noticed with hreleased | ⟨f, hf, hremoved⟩ | hpending
    · left
      unfold IsReleased
      rw [hstandings]
      exact hreleased
    · have hmem := List.mem_map_of_mem
        (f := fun f => if isMarked env (fileIds loaded) db f then markMissing f else f) hf
      rw [← hfiles] at hmem
      refine .inr (.inl ⟨_, hmem, ?_⟩)
      split
      · rfl
      · exact hremoved
    · exact .inr (.inr hpending)

/-- An installation file whose object is missing is removed when the refresh comes to the status. -/
theorem missing_removed (hdb : db.Constraints) {p : ℕ} {v : String} {r : Release} {f : FileUpload}
    (hf : f ∈ db.fileUploads) (hid : f.id ∈ fileIds (db.load r))
    (hgone : isMissing env db f = true) :
    ∃ g ∈ (beforeStatus env p v (db.load r) db).filesOf r.catalogId, g.status = .removed := by
  obtain ⟨a, ha, hof, htype, hfile⟩ := (mem_fileIds hdb).mp hid
  have hfound : db.fileUploadOf a = some f := by
    unfold UploadDb.fileUploadOf
    rw [hfile]
    exact Rows.findKey_unique hdb.fileKeys hf
  have hmem := List.mem_map_of_mem
    (f := fun f => if isMarked env (fileIds (db.load r)) db f then markMissing f else f)
    (mem_filesOf.mpr ⟨a, ha, hof.1, htype, hfound⟩)
  rw [← beforeStatus_filesOf] at hmem
  refine ⟨_, hmem, ?_⟩
  split
  · rfl
  · rename_i hmark
    by_contra hremoved
    apply hmark
    unfold isMarked
    rw [List.contains_iff_mem.mpr hid, hgone, bne_iff_ne.mpr hremoved]
    rfl

/-- The status written for another release. -/
theorem afterChange_leaves {p : ℕ} {v : String} {status : ReleaseStatus} {loaded : LoadedRelease}
    (hother : ∀ x ∈ db.standings, x.catalogId = c → isStanding p v x = false) :
    LeavesAlone c db (afterChange p loaded (writeStatus p v status db)) where
  standing := by
    intro x hx hkey
    obtain ⟨z, hz, hzkey, hstatus, hat⟩ := afterChange_standing p v status loaded hx
    rw [hother x hx hkey, Bool.false_and] at hstatus hat
    exact ⟨z, hz, hzkey.trans hkey, hstatus, hat⟩
  files := by
    obtain ⟨hart, hfiles, -⟩ := afterChange_rows p v status loaded db
    unfold UploadDb.filesOf UploadDb.artifactsOf UploadDb.fileUploadOf
    rw [hart, hfiles]
  pending := by
    intro hpending
    apply List.mem_append_left
    cases status <;> exact hpending

/-- A refresh that takes the release out of `RELEASED` has found an object missing. -/
theorem decides_error {p : ℕ} {v : String} {loaded : LoadedRelease} {status : ReleaseStatus}
    (hload : db.getReleaseEntity p v = some loaded) (hkey : loaded.release.catalogId = c)
    (hreleased : loaded.release.status = .released) (hfinds : RefreshFinds env c p v db)
    (hdecide : decideStatus loaded.release.status (verdictOf env p v loaded db) = some status) :
    status = .error ∧ ∃ f ∈ db.fileUploads, f.id ∈ fileIds loaded ∧ isMissing env db f = true := by
  obtain ⟨hcompliant, hrests⟩ := hfinds loaded hload hkey hreleased
  have hnot : (verdictOf env p v loaded db).passes = false := by
    by_contra hpasses
    rw [hreleased, decideStatus, eq_true_of_ne_false hpasses] at hdecide
    simp at hdecide
  have hmissing : ∃ f ∈ db.fileUploads, f.id ∈ fileIds loaded ∧ isMissing env db f = true := by
    by_contra hnone
    have hsame : markedMissing env (fileIds loaded) db = db := by
      unfold markedMissing
      rw [Rows.updateWhere_eq_self]
      intro f hf hmark
      simp only [Bool.and_eq_true, List.contains_iff_mem] at hmark
      exact absurd ⟨f, hf, hmark.1, hmark.2.1⟩ hnone
    have hpasses : (verdictOf env p v loaded db).passes = true := by
      unfold Verdict.passes verdictOf
      rw [hcompliant, hsame]
      rcases hrests with hdeps | hfiles | hmissing
      · rw [hdeps]
        rfl
      · rw [hfiles, Bool.or_true]
        rfl
      · exact absurd hmissing hnone
    rw [hpasses] at hnot
    cases hnot
  refine ⟨?_, hmissing⟩
  have hstorage : (verdictOf env p v loaded db).storageMissing = true := by
    obtain ⟨f, hf, hid, hgone⟩ := hmissing
    apply List.any_eq_true.mpr
    exact ⟨f, List.mem_filter.mpr ⟨hf, List.contains_iff_mem.mpr hid⟩, hgone⟩
  rw [hreleased, decideStatus, hnot, hstorage] at hdecide
  exact (Option.some.inj hdecide).symm

/-- The release itself is taken to `ERROR`, and a file of it is removed. -/
theorem afterChange_error {p : ℕ} {v : String} {loaded : LoadedRelease} (h : WasReleased c db)
    (hafter : (afterChange p loaded (writeStatus p v .error db)).Constraints)
    (hremoved : ∃ f ∈ db.filesOf c, f.status = .removed) :
    Recovering c (afterChange p loaded (writeStatus p v .error db)) := by
  obtain ⟨hart, hfileUploads, -⟩ := afterChange_rows p v .error loaded db
  have hfiles : (afterChange p loaded (writeStatus p v .error db)).filesOf c = db.filesOf c := by
    unfold UploadDb.filesOf UploadDb.artifactsOf UploadDb.fileUploadOf
    rw [hart, hfileUploads]
  refine ⟨⟨hafter, ?_, ?_⟩, ?_⟩
  · obtain ⟨x, hx, hkey, hat, hstatus⟩ := h.row
    obtain ⟨z, hz, hzkey, hzstatus, hzat⟩ := afterChange_standing p v .error loaded hx
    refine ⟨z, hz, hzkey.trans hkey, ?_, ?_⟩
    · rw [hzat]
      split <;> exact hat
    · rw [hzstatus]
      split
      · exact .inr rfl
      · exact hstatus
  · rw [hfiles]
    exact h.files
  · right
    left
    rw [hfiles]
    exact hremoved

/-- **Main result.** A refresh leaves the release released, or a file of it removed. -/
theorem refreshReleaseState_recovering {p : ℕ} {v : String} (h : Recovering c db)
    (hfinds : RefreshFinds env c p v db) : Recovering c (refreshReleaseState env p v db).2 := by
  have hdb := h.wasReleased.constraints
  have hafter := @refreshReleaseState_constraints env p v db hdb
  have hrefreshed := @refreshReleaseState_refreshed env db hdb p v
  generalize (refreshReleaseState env p v db).2 = db' at hafter hrefreshed ⊢
  cases hrefreshed with
  | skipped hskip => exact h
  | kept r hfind hdecide => exact beforeStatus_recovering h p v _
  | moved r status hfind hlive hdecide =>
      have hbefore := @beforeStatus_recovering env db c h p v (db.load r)
      by_cases hown : r.catalogId = c
      · -- a released row of the release, since `ERROR` is terminal
        have hreleased : r.status = .released := by
          obtain ⟨x, hx, hkey, -, hstatus⟩ := h.wasReleased.row
          have hmem := mem_standings (UploadDb.findRelease_some hfind).1
          obtain rfl := hdb.standing_eq hx hmem (hkey.trans hown.symm)
          rcases hstatus with hreleased | herror
          · exact hreleased
          · rw [show r.status = .error from herror] at hlive
            cases hlive
        have hload : db.getReleaseEntity p v = some (db.load r) := by
          unfold UploadDb.getReleaseEntity
          rw [hfind]
          rfl
        obtain ⟨rfl, f, hf, hid, hgone⟩ := decides_error hload hown hreleased hfinds hdecide
        apply afterChange_error hbefore.wasReleased hafter
        rw [← hown]
        exact missing_removed hdb hf hid hgone
      · apply hbefore.leaves hafter
        apply afterChange_leaves
        intro x hx hkey
        rw [standings_sees.beforeStatus p v _ db] at hx
        by_contra hof
        have hat := (atVersion_iff hdb hfind).mp ⟨x, hx, eq_true_of_ne_false hof, hkey⟩
        exact hown hat.symm

/-- A refresh leaves healthy files healthy whose objects are there. -/
theorem refreshReleaseState_healthy {p : ℕ} {v : String} (hdb : db.Constraints)
    (h : allHealthy db c = true) (hpresent : Present env c db) :
    allHealthy (refreshReleaseState env p v db).2 c = true := by
  have hrefreshed := @refreshReleaseState_refreshed env db hdb p v
  generalize (refreshReleaseState env p v db).2 = db' at hrefreshed ⊢
  have hbefore : ∀ loaded, allHealthy (beforeStatus env p v loaded db) c = true := by
    intro loaded
    rw [allHealthy_iff] at h ⊢
    intro g hg
    rw [beforeStatus_filesOf] at hg
    obtain ⟨f, hf, rfl⟩ := List.mem_map.mp hg
    rw [if_neg (by simp [isMarked, hpresent f hf])]
    exact h f hf
  cases hrefreshed with
  | skipped hskip => exact h
  | kept r hfind hdecide => exact hbefore _
  | moved r status hfind hlive hdecide =>
      obtain ⟨hart, hfiles, -⟩ :=
        afterChange_rows p v status (db.load r) (beforeStatus env p v (db.load r) db)
      have hhealthy := hbefore (db.load r)
      unfold allHealthy UploadDb.artifactsOf UploadDb.fileUploadOf at hhealthy ⊢
      rw [hart, hfiles]
      exact hhealthy

end UploadService
