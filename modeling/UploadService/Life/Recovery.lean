import UploadService.Life.StorageSync
import UploadService.Life.SupportWrites

/-!
# Recovery of a released release

A release leaves `RELEASED` for `ERROR` when the object of a file is missing from the storage,
and comes back when all its files are healthy again. Two detectors see a file that is back: the
synchronisation, which repairs the row, and the notification of the bucket, which sets the
status of the row and leaves its error.

The invariant is that such a release is released, or a file of it is removed, or its
restoration is pending; a file that is not removed is healthy. A pass of the synchronisation
keeps it, and finds what is back.

Main results:

- `syncArtifactsStorageStatus_recovering`: a pass leaves the release released, or a file of
  it removed;
- `syncArtifactsStorageStatus_back`: its files are healthy after a pass that finds their objects.
-/

namespace UploadService

open Prog ReleaseService FileUploadService RegulationStatusService

variable {env : UploadEnv} {db : UploadDb} {c : String}

/-! ### The files of a release -/

/-- The file uploads behind the file artifacts of the release. -/
def UploadDb.filesOf (db : UploadDb) (c : String) : List FileUpload :=
  ((db.artifactsOf c).filter fun a => a.type == .file).filterMap db.fileUploadOf

theorem mem_filesOf {f : FileUpload} : f ∈ db.filesOf c ↔
    ∃ a ∈ db.artifacts, a.releaseId = c ∧ a.type = .file ∧ db.fileUploadOf a = some f := by
  unfold UploadDb.filesOf UploadDb.artifactsOf
  simp only [List.mem_filterMap, List.mem_filter, beq_iff_eq]
  constructor
  · rintro ⟨a, ⟨⟨ha, hof⟩, htype⟩, hfile⟩
    exact ⟨a, ha, hof, htype, hfile⟩
  · rintro ⟨a, ha, hof, htype, hfile⟩
    exact ⟨a, ⟨⟨ha, hof⟩, htype⟩, hfile⟩

theorem allHealthy_iff : allHealthy db c = true ↔
    ∀ f ∈ db.filesOf c, isHealthy (some f) = true := by
  unfold allHealthy
  rw [List.all_eq_true]
  constructor
  · intro h f hf
    obtain ⟨a, ha, hfile⟩ := List.mem_filterMap.mp hf
    rw [← hfile]
    exact h a ha
  · intro h a ha
    cases hfile : db.fileUploadOf a with
    | none => rfl
    | some f => exact h f (List.mem_filterMap.mpr ⟨a, ha, hfile⟩)

/-- The files after a write that keeps the ids. -/
theorem filesOf_updateWhere {db' : UploadDb} {q : FileUpload → Bool} {g : FileUpload → FileUpload}
    (hart : db'.artifacts = db.artifacts)
    (hfiles : db'.fileUploads = Rows.updateWhere q g db.fileUploads) (hid : ∀ f, (g f).id = f.id)
    (c : String) : db'.filesOf c = (db.filesOf c).map fun f => if q f then g f else f := by
  have hfile : db'.fileUploadOf = fun a => (db.fileUploadOf a).map fun f => if q f then g f else f := by
    funext a
    unfold UploadDb.fileUploadOf
    rw [hfiles]
    cases a.fileUploadId with
    | none => rfl
    | some id => exact Rows.findKey_updateWhere db.fileUploads hid
  unfold UploadDb.filesOf UploadDb.artifactsOf
  rw [hart, hfile, List.map_filterMap]

/-- The columns that decide whether a file upload is healthy. -/
def health (f : FileUpload) : FileUploadStatus × Option String := (f.status, f.error)

/-- The row carries an error of the synchronisation. -/
def carriesSyncError (f : FileUpload) : Bool :=
  f.error.any fun e => storageMissingErrorPrefix.toList.isPrefixOf e.toList

theorem isHealthy_iff {f : FileUpload} :
    isHealthy (some f) = true ↔ f.status = .uploaded ∧ carriesSyncError f = false := by
  show (f.status == .uploaded && !carriesSyncError f) = true ↔ _
  rw [Bool.and_eq_true, beq_iff_eq, Bool.not_eq_true']

/-! ### The invariant -/

/-- The release was released, and is that still or in error; its files are removed or healthy. -/
structure WasReleased (c : String) (db : UploadDb) : Prop where
  constraints : db.Constraints
  row : ∃ x ∈ db.standings, x.catalogId = c ∧ x.releasedAt.isSome = true ∧
    (x.status = .released ∨ x.status = .error)
  files : ∀ f ∈ db.filesOf c, f.status = .removed ∨ isHealthy (some f) = true

/-- The release is released, or a file of it is removed, or it is about to be restored. -/
def Noticed (c : String) (db : UploadDb) : Prop :=
  IsReleased db c ∨ (∃ f ∈ db.filesOf c, f.status = .removed) ∨
    .maybeRestoreReleasedStatus c ∈ db.pending

structure Recovering (c : String) (db : UploadDb) : Prop where
  wasReleased : WasReleased c db
  noticed : Noticed c db

/-- What a step leaves alone that does not concern the release. -/
structure LeavesAlone (c : String) (db db' : UploadDb) : Prop where
  standing : ∀ x ∈ db.standings, x.catalogId = c → ∃ y ∈ db'.standings, y.catalogId = c ∧
    y.status = x.status ∧ y.releasedAt = x.releasedAt
  files : (db'.filesOf c).map health = (db.filesOf c).map health
  pending : .maybeRestoreReleasedStatus c ∈ db.pending → .maybeRestoreReleasedStatus c ∈ db'.pending

instance (c : String) (db db' : UploadDb) : Decidable (LeavesAlone c db db') :=
  decidable_of_iff ((∀ x ∈ db.standings, x.catalogId = c → ∃ y ∈ db'.standings, y.catalogId = c ∧
      y.status = x.status ∧ y.releasedAt = x.releasedAt) ∧
      (db'.filesOf c).map health = (db.filesOf c).map health ∧
      (.maybeRestoreReleasedStatus c ∈ db.pending → .maybeRestoreReleasedStatus c ∈ db'.pending))
    ⟨fun h => ⟨h.1, h.2.1, h.2.2⟩, fun h => ⟨h.standing, h.files, h.pending⟩⟩

theorem LeavesAlone.file {db' : UploadDb} (h : LeavesAlone c db db') {f : FileUpload}
    (hf : f ∈ db'.filesOf c) : ∃ g ∈ db.filesOf c, g.status = f.status ∧ g.error = f.error := by
  have hmem : health f ∈ (db.filesOf c).map health := h.files ▸ List.mem_map_of_mem hf
  obtain ⟨g, hg, hsame⟩ := List.mem_map.mp hmem
  exact ⟨g, hg, Prod.mk.inj hsame⟩

theorem LeavesAlone.file' {db' : UploadDb} (h : LeavesAlone c db db') {f : FileUpload}
    (hf : f ∈ db.filesOf c) : ∃ g ∈ db'.filesOf c, g.status = f.status ∧ g.error = f.error := by
  have hmem : health f ∈ (db'.filesOf c).map health := h.files ▸ List.mem_map_of_mem hf
  obtain ⟨g, hg, hsame⟩ := List.mem_map.mp hmem
  exact ⟨g, hg, Prod.mk.inj hsame⟩

theorem isHealthy_congr {f g : FileUpload} (h : g.status = f.status ∧ g.error = f.error) :
    isHealthy (some g) = isHealthy (some f) := by
  show (g.status == .uploaded && !carriesSyncError g) = (f.status == .uploaded && !carriesSyncError f)
  unfold carriesSyncError
  rw [h.1, h.2]

theorem WasReleased.leaves {db' : UploadDb} (h : WasReleased c db) (hdb : db'.Constraints)
    (hleaves : LeavesAlone c db db') : WasReleased c db' where
  constraints := hdb
  row := by
    obtain ⟨x, hx, hkey, hat, hstatus⟩ := h.row
    obtain ⟨y, hy, hykey, hystatus, hyat⟩ := hleaves.standing x hx hkey
    exact ⟨y, hy, hykey, by rw [hyat]; exact hat, by rw [hystatus]; exact hstatus⟩
  files := by
    intro f hf
    obtain ⟨g, hg, hsame⟩ := hleaves.file hf
    rw [← hsame.1, ← isHealthy_congr hsame]
    exact h.files g hg

theorem Noticed.leaves {db' : UploadDb} (h : Noticed c db) (hleaves : LeavesAlone c db db') :
    Noticed c db' := by
  rcases h with ⟨x, hx, hkey, hstatus⟩ | ⟨f, hf, hremoved⟩ | hpending
  · obtain ⟨y, hy, hykey, hystatus, -⟩ := hleaves.standing x hx hkey
    exact .inl ⟨y, hy, hykey, hystatus.trans hstatus⟩
  · obtain ⟨g, hg, hsame⟩ := hleaves.file' hf
    exact .inr (.inl ⟨g, hg, hsame.1.trans hremoved⟩)
  · exact .inr (.inr (hleaves.pending hpending))

theorem Recovering.leaves {db' : UploadDb} (h : Recovering c db) (hdb : db'.Constraints)
    (hleaves : LeavesAlone c db db') : Recovering c db' :=
  ⟨h.wasReleased.leaves hdb hleaves, h.noticed.leaves hleaves⟩

theorem LeavesAlone.healthy {db' : UploadDb} (h : LeavesAlone c db db')
    (hhealthy : allHealthy db c = true) : allHealthy db' c = true := by
  rw [allHealthy_iff] at hhealthy ⊢
  intro f hf
  obtain ⟨g, hg, hsame⟩ := h.file hf
  rw [← isHealthy_congr hsame]
  exact hhealthy g hg

/-! ### Restoring -/

/-- The two ways a restoration ends. -/
theorem maybeRestoreReleasedStatus_ends (hdb : db.Constraints) (k : String) :
    (allHealthy db k = true ∧
      (maybeRestoreReleasedStatus k db).2 = setReleaseStatus k .released db) ∨
    ((maybeRestoreReleasedStatus k db).2 = db ∧ ∀ x ∈ db.standings, x.catalogId = k →
      x.releasedAt.isSome = true → x.status = .error → allHealthy db k = false) := by
  unfold maybeRestoreReleasedStatus
  rw [gets_bind_run]
  cases hfind : Rows.findKey Release.catalogId k db.releases with
  | none =>
      right
      refine ⟨rfl, fun x hx hkey _ _ => ?_⟩
      obtain ⟨r, hr, rfl⟩ := Standing.mem_iff.mp hx
      have hfound := Rows.findKey_unique hdb.releaseKeys hr
      rw [show r.catalogId = k from hkey, hfind] at hfound
      cases hfound
  | some r =>
      obtain ⟨hr, rfl⟩ := Rows.findKey_some hfind
      show (_ ∧ (when (mayBeRestored r && allHealthy db r.catalogId)
        (modify (setReleaseStatus r.catalogId .released)) db : Except Exception Unit × UploadDb).2 = _) ∨
        ((when (mayBeRestored r && allHealthy db r.catalogId)
          (modify (setReleaseStatus r.catalogId .released)) db : Except Exception Unit × UploadDb).2 = _
            ∧ _)
      by_cases hboth : (mayBeRestored r && allHealthy db r.catalogId) = true
      · left
        rw [hboth]
        exact ⟨(Bool.and_eq_true_iff.mp hboth).2, rfl⟩
      · right
        rw [eq_false_of_ne_true hboth]
        refine ⟨rfl, fun x hx hkey hat hstatus => eq_false_of_ne_true fun hhealthy => hboth ?_⟩
        obtain rfl := hdb.standing_eq hx (mem_standings hr) hkey
        rw [hhealthy, Bool.and_true]
        show ((r.status == .error || r.status == .inReview) && r.releasedAt.isSome) = true
        rw [show r.status = .error from hstatus, show r.releasedAt.isSome = true from hat]
        rfl

/-- A status of another release. -/
theorem setReleaseStatus_leaves {k : String} (hne : k ≠ c) (status : ReleaseStatus)
    (db : UploadDb) : LeavesAlone c db (setReleaseStatus k status db) where
  standing := by
    intro x hx hkey
    refine ⟨x, ?_, hkey, rfl, rfl⟩
    rw [setReleaseStatus_standings]
    apply Rows.mem_updateWhere.mpr
    refine .inr ⟨hx, ?_⟩
    simpa [hkey] using hne.symm
  files := rfl
  pending := fun h => h

/-- The row of the release after its status is written. -/
theorem setReleaseStatus_row {x : Standing} (hx : x ∈ db.standings) (hkey : x.catalogId = c)
    (status : ReleaseStatus) :
    { x with status := status } ∈ (setReleaseStatus c status db).standings := by
  rw [setReleaseStatus_standings]
  exact Rows.mem_updateWhere.mpr (.inl ⟨x, hx, by simpa using hkey, rfl⟩)

theorem WasReleased.setReleaseStatus (h : WasReleased c db) {k : String} {status : ReleaseStatus}
    (hstatus : status = .released ∨ status = .error) :
    WasReleased c (FileUploadService.setReleaseStatus k status db) where
  constraints := setReleaseStatus_constraints h.constraints
  row := by
    by_cases hk : k = c
    · subst hk
      obtain ⟨x, hx, hkey, hat, -⟩ := h.row
      exact ⟨_, setReleaseStatus_row hx hkey status, hkey, hat, hstatus⟩
    · exact (h.leaves (setReleaseStatus_constraints h.constraints)
        (setReleaseStatus_leaves hk status db)).row
  files := h.files

theorem maybeRestoreReleasedStatus_wasReleased (h : WasReleased c db) (k : String) :
    WasReleased c (maybeRestoreReleasedStatus k db).2 := by
  rcases maybeRestoreReleasedStatus_ends h.constraints k with ⟨-, hrun⟩ | ⟨hrun, -⟩
  · rw [hrun]
    exact h.setReleaseStatus (.inl rfl)
  · rw [hrun]
    exact h

/-- A restoration ends with the release released, or there is a removed file of it. -/
theorem maybeRestoreReleasedStatus_noticed (h : WasReleased c db) :
    IsReleased (maybeRestoreReleasedStatus c db).2 c ∨ ∃ f ∈ db.filesOf c, f.status = .removed := by
  obtain ⟨x, hx, hkey, hat, hstatus⟩ := h.row
  rcases maybeRestoreReleasedStatus_ends h.constraints c with ⟨-, hrun⟩ | ⟨hrun, hunhealthy⟩
  · rw [hrun]
    exact .inl ⟨_, setReleaseStatus_row hx hkey .released, hkey, rfl⟩
  · rw [hrun]
    rcases hstatus with hreleased | herror
    · exact .inl ⟨x, hx, hkey, hreleased⟩
    · have hno : ¬ allHealthy db c = true := by
        rw [hunhealthy x hx hkey hat herror]
        exact Bool.false_ne_true
      rw [allHealthy_iff] at hno
      obtain ⟨f, hnot⟩ := not_forall.mp hno
      obtain ⟨hf, hsick⟩ := Classical.not_imp.mp hnot
      exact .inr ⟨f, hf, (h.files f hf).resolve_right hsick⟩

/-- A restoration does not fail. -/
theorem maybeRestoreReleasedStatus_run (k : String) (db : UploadDb) :
    maybeRestoreReleasedStatus k db = (.ok (), (maybeRestoreReleasedStatus k db).2) := by
  have hok : (maybeRestoreReleasedStatus k db).1 = .ok () := by
    unfold maybeRestoreReleasedStatus
    rw [gets_bind_run]
    cases Rows.findKey Release.catalogId k db.releases with
    | none => rfl
    | some r =>
        show (when (mayBeRestored r && allHealthy db k) (modify (setReleaseStatus k .released)) db :
          Except Exception Unit × UploadDb).1 = _
        cases mayBeRestored r && allHealthy db k <;> rfl
  exact Prod.ext hok rfl

theorem maybeRestoreReleasedStatus_filesOf (hdb : db.Constraints) (k : String) :
    (maybeRestoreReleasedStatus k db).2.filesOf c = db.filesOf c := by
  rcases maybeRestoreReleasedStatus_ends hdb k with ⟨-, hrun⟩ | ⟨hrun, -⟩
  · rw [hrun]
    rfl
  · rw [hrun]

/-- A restoration of another release. -/
theorem maybeRestoreReleasedStatus_leaves (hdb : db.Constraints) {k : String} (hne : k ≠ c) :
    LeavesAlone c db (maybeRestoreReleasedStatus k db).2 := by
  rcases maybeRestoreReleasedStatus_ends hdb k with ⟨-, hrun⟩ | ⟨hrun, -⟩
  · rw [hrun]
    exact setReleaseStatus_leaves hne .released db
  · rw [hrun]
    exact ⟨fun x hx hkey => ⟨x, hx, hkey, rfl, rfl⟩, rfl, fun h => h⟩

/-- **Main result.** A restoration of the release needs no notice of it. -/
theorem maybeRestoreReleasedStatus_recovering (h : WasReleased c db) (k : String)
    (hnoticed : k ≠ c → Noticed c db) : Recovering c (maybeRestoreReleasedStatus k db).2 := by
  refine ⟨maybeRestoreReleasedStatus_wasReleased h k, ?_⟩
  by_cases hk : k = c
  · subst hk
    rcases maybeRestoreReleasedStatus_noticed h with hreleased | ⟨f, hf, hremoved⟩
    · exact .inl hreleased
    · refine .inr (.inl ⟨f, ?_, hremoved⟩)
      rw [maybeRestoreReleasedStatus_filesOf h.constraints]
      exact hf
  · exact (hnoticed hk).leaves (maybeRestoreReleasedStatus_leaves h.constraints hk)

/-! ### A pass of the synchronisation -/

/-- A file of the release that is uploaded or removed is among what the pass looks at. -/
theorem relevant_of_file (hdb : db.Constraints) {f : FileUpload} (hf : f ∈ db.filesOf c)
    (hstatus : f.status = .uploaded ∨ f.status = .removed) :
    ∃ a ∈ relevantArtifacts db, a.fileUpload = f ∧ a.release.catalogId = c := by
  obtain ⟨a, ha, hof, htype, hfile⟩ := mem_filesOf.mp hf
  obtain ⟨r, hr, hrel⟩ := hdb.artifactReleases a ha
  have hfind : Rows.findKey Release.catalogId a.releaseId db.releases = some r := by
    rw [← hrel]
    exact Rows.findKey_unique hdb.releaseKeys hr
  refine ⟨⟨a, f, r⟩, List.mem_filterMap.mpr ⟨a, ?_, ?_⟩, rfl, hrel.trans hof⟩
  · exact List.mem_filter.mpr ⟨ha, by simpa using htype⟩
  · rw [hfile, hfind]
    exact if_pos hstatus

theorem file_of_relevant {a : SyncedArtifact} (ha : a ∈ relevantArtifacts db)
    (hkey : a.release.catalogId = c) : a.fileUpload ∈ db.filesOf c := by
  obtain ⟨⟨hmem, htype⟩, hfile, ⟨-, hrel⟩, -⟩ := mem_relevantArtifacts ha
  exact mem_filesOf.mpr ⟨a.artifact, hmem, hrel.symm.trans hkey, htype, hfile⟩

/-- After the pass has come through `done`, the release is released, or its restoration is
pending, or a file of it ends removed, or an artifact of it is still to come for which it is
looked at again. -/
def OnTheWay (env : UploadEnv) (c : String) (db : UploadDb) (done : List SyncedArtifact)
    (s : UploadDb) : Prop :=
  IsReleased s c ∨ .maybeRestoreReleasedStatus c ∈ db.pending ∨
    ∃ a ∈ relevantArtifacts db, a.release.catalogId = c ∧
      ((synced env db a.fileUpload).status = .removed ∨ (a ∉ done ∧ rechecks env db a = true))

/-- The release is on the list of those to look at again. -/
def OnTheList (env : UploadEnv) (c : String) (db : UploadDb) (recheck : List String) : Prop :=
  c ∈ recheck ∧ ∃ a ∈ relevantArtifacts db, a.release.catalogId = c ∧ rechecks env db a = true

/-- A pass leaves a file of the release healthy or removed. -/
theorem synced_ok {f : FileUpload} (h : f.status = .removed ∨ isHealthy (some f) = true) :
    (synced env db f).status = .removed ∨ isHealthy (some (synced env db f)) = true := by
  unfold synced
  split
  · exact .inl rfl
  · split
    · exact .inr rfl
    · exact h

theorem WasReleased.syncing {done : List SyncedArtifact} {s : UploadDb} (h : WasReleased c db)
    (hsync : Syncing env db done s) (hs : s.Constraints)
    (hrow : ∃ x ∈ s.standings, x.catalogId = c ∧ x.releasedAt.isSome = true ∧
      (x.status = .released ∨ x.status = .error)) : WasReleased c s where
  constraints := hs
  row := hrow
  files := by
    have hart : s.artifacts = db.artifacts := hsync.eq_of_frame (g := UploadDb.artifacts) fun _ _ _ => rfl
    have hfiles := filesOf_updateWhere hart hsync.fileUploads (fun f => synced_id f) c
    intro f hf
    rw [hfiles] at hf
    obtain ⟨g, hg, rfl⟩ := List.mem_map.mp hf
    split
    · exact synced_ok (h.files g hg)
    · exact h.files g hg

/-- The state of the release in the course of a pass. -/
structure Passing (env : UploadEnv) (c : String) (db : UploadDb) (done : List SyncedArtifact)
    (s : UploadDb) : Prop where
  syncing : Syncing env db done s
  wasReleased : WasReleased c s

/-- One artifact of a batch. -/
theorem syncArtifact_passing (h : WasReleased c db) {done : List SyncedArtifact} {s : UploadDb}
    {recheck : List String} (hs : Passing env c db done s)
    (hway : OnTheWay env c db done s ∨ OnTheList env c db recheck) {a : SyncedArtifact}
    (ha : a ∈ relevantArtifacts db) :
    ∃ recheck' s', syncArtifact env recheck a s = (.ok recheck', s') ∧
      Passing env c db (done ++ [a]) s' ∧
      (OnTheWay env c db (done ++ [a]) s' ∨ OnTheList env c db recheck') := by
  obtain ⟨s', hrun, hsync, hreleases⟩ := syncArtifact_run h.constraints hs.syncing ha recheck
  refine ⟨_, s', hrun, ?_⟩
  have hconstraints : s'.Constraints := by
    have hkept := @syncArtifact_constraints env recheck a s hs.wasReleased.constraints
    rw [hrun] at hkept
    exact hkept
  set written : UploadDb :=
    if demotes env db a then setReleaseStatus a.release.catalogId .error s else s with hwritten
  have hstandings : s'.standings = written.standings := by
    unfold UploadDb.standings
    rw [hreleases, hwritten]
    split <;> rfl
  have hrow : ∃ x ∈ s'.standings, x.catalogId = c ∧ x.releasedAt.isSome = true ∧
      (x.status = .released ∨ x.status = .error) := by
    rw [hstandings, hwritten]
    split
    · exact (hs.wasReleased.setReleaseStatus (.inr rfl)).row
    · exact hs.wasReleased.row
  refine ⟨⟨hsync, h.syncing hsync hconstraints hrow⟩, ?_⟩
  rcases hway with
    (⟨x, hx, hkey, hreleased⟩ | hpending | ⟨b, hb, hbkey, hends | ⟨hnew, hagain⟩⟩) | ⟨hmem, hlist⟩
  · left
    by_cases hown : demotes env db a = true ∧ a.release.catalogId = c
    · refine .inr (.inr ⟨a, ha, hown.2, .inl ?_⟩)
      have hlost := hown.1
      simp only [demotes, Bool.and_eq_true] at hlost
      unfold synced
      rw [if_pos (by rw [hlost.1.1, hlost.1.2]; rfl)]
      rfl
    · left
      unfold IsReleased
      rw [hstandings, hwritten]
      split
      · rename_i hdemotes
        have hne : a.release.catalogId ≠ c := fun heq => hown ⟨hdemotes, heq⟩
        obtain ⟨y, hy, hykey, hystatus, -⟩ := (setReleaseStatus_leaves hne .error s).standing x hx hkey
        exact ⟨y, hy, hykey, hystatus.trans hreleased⟩
      · exact ⟨x, hx, hkey, hreleased⟩
  · exact .inl (.inr (.inl hpending))
  · exact .inl (.inr (.inr ⟨b, hb, hbkey, .inl hends⟩))
  · by_cases heq : b = a
    · subst heq
      right
      rw [if_pos hagain]
      exact ⟨ObjectMap.mem_addKeys.mpr (.inr (by simp [hbkey])), b, hb, hbkey, hagain⟩
    · refine .inl (.inr (.inr ⟨b, hb, hbkey, .inr ⟨fun hdone => ?_, hagain⟩⟩))
      rcases List.mem_append.mp hdone with hdone | hdone
      · exact hnew hdone
      · exact heq (List.mem_singleton.mp hdone)
  · right
    refine ⟨?_, hlist⟩
    split
    · exact ObjectMap.mem_addKeys.mpr (.inl hmem)
    · exact hmem

/-- A look at a release in the course of a pass. -/
theorem recheck_passing (h : WasReleased c db) {done : List SyncedArtifact} {s : UploadDb}
    (hs : Passing env c db done s) (k : String) :
    Passing env c db done (maybeRestoreReleasedStatus k s).2 ∧
      (OnTheWay env c db done s → OnTheWay env c db done (maybeRestoreReleasedStatus k s).2) := by
  refine ⟨⟨hs.syncing.maybeRestore k s, maybeRestoreReleasedStatus_wasReleased hs.wasReleased k⟩, ?_⟩
  rintro (⟨x, hx, hkey, hreleased⟩ | hends)
  · left
    by_cases hk : k = c
    · subst hk
      rcases maybeRestoreReleasedStatus_ends hs.wasReleased.constraints k with
        ⟨-, hrun⟩ | ⟨hrun, -⟩
      · rw [hrun]
        exact ⟨_, setReleaseStatus_row hx hkey .released, hkey, rfl⟩
      · rw [hrun]
        exact ⟨x, hx, hkey, hreleased⟩
    · obtain ⟨y, hy, hykey, hystatus, -⟩ :=
        (maybeRestoreReleasedStatus_leaves hs.wasReleased.constraints hk).standing x hx hkey
      exact ⟨y, hy, hykey, hystatus.trans hreleased⟩
  · exact .inr hends

/-- A look at the release itself: it is restored, or a file of it is still to come back. -/
theorem recheck_own (h : WasReleased c db) {done : List SyncedArtifact} {s : UploadDb}
    (hs : Passing env c db done s)
    (hlist : ∃ a ∈ relevantArtifacts db, a.release.catalogId = c ∧ rechecks env db a = true) :
    OnTheWay env c db done (maybeRestoreReleasedStatus c s).2 := by
  have hart : s.artifacts = db.artifacts :=
    hs.syncing.eq_of_frame (g := UploadDb.artifacts) fun _ _ _ => rfl
  have hfiles := filesOf_updateWhere hart hs.syncing.fileUploads (fun f => synced_id f) c
  rcases maybeRestoreReleasedStatus_noticed hs.wasReleased with hreleased | ⟨f, hf, hremoved⟩
  · exact .inl hreleased
  · right
    right
    rw [hfiles] at hf
    obtain ⟨f₀, hf₀, rfl⟩ := List.mem_map.mp hf
    have hstatus : f₀.status = .uploaded ∨ f₀.status = .removed :=
      (h.files f₀ hf₀).elim .inr fun hhealthy => .inl (isHealthy_iff.mp hhealthy).1
    obtain ⟨a₀, ha₀, rfl, hkey₀⟩ := relevant_of_file h.constraints hf₀ hstatus
    refine ⟨a₀, ha₀, hkey₀, ?_⟩
    split at hremoved
    · exact .inl hremoved
    · rename_i hnot
      by_cases hback : comesBack env db a₀.fileUpload = true
      · right
        constructor
        · intro hdone
          exact hnot (List.any_eq_true.mpr ⟨a₀, hdone, beq_self_eq_true _⟩)
        · obtain ⟨a, ha, hkey, hagain⟩ := hlist
          have hrelease : a₀.release = a.release :=
            h.constraints.releaseKeys.eq_of_mem (mem_relevantArtifacts ha₀).2.2.1.1
              (mem_relevantArtifacts ha).2.2.1.1 (hkey₀.trans hkey.symm)
          unfold rechecks at hagain ⊢
          rw [hback, hrelease, Bool.true_and]
          exact (Bool.and_eq_true_iff.mp hagain).2
      · left
        unfold synced
        rw [if_neg (by simp [hremoved]), if_neg hback]
        exact hremoved

/-- A batch, with the releases that are looked at again after it. -/
theorem syncBatch_passing (h : WasReleased c db) {done : List SyncedArtifact} {s : UploadDb}
    (hs : Passing env c db done s) (hway : OnTheWay env c db done s) {batch : List SyncedArtifact}
    (hbatch : ∀ a ∈ batch, a ∈ relevantArtifacts db) :
    ∃ s', syncBatch env batch s = (.ok (), s') ∧ Passing env c db (done ++ batch) s' ∧
      OnTheWay env c db (done ++ batch) s' := by
  have hartifact : ∀ seen a recheck t, a ∈ batch → (Passing env c db (done ++ seen) t ∧
        (OnTheWay env c db (done ++ seen) t ∨ OnTheList env c db recheck)) →
      ∃ recheck' t', syncArtifact env recheck a t = (.ok recheck', t') ∧
        Passing env c db (done ++ (seen ++ [a])) t' ∧
          (OnTheWay env c db (done ++ (seen ++ [a])) t' ∨ OnTheList env c db recheck') := by
    intro seen a recheck t ha ht
    obtain ⟨recheck', t', htrun, hpassing, hnext⟩ := syncArtifact_passing h ht.1 ht.2 (hbatch a ha)
    rw [List.append_assoc] at hpassing hnext
    exact ⟨recheck', t', htrun, hpassing, hnext⟩
  have hstart : Passing env c db (done ++ []) s ∧
      (OnTheWay env c db (done ++ []) s ∨ OnTheList env c db []) := by
    rw [List.append_nil]
    exact ⟨hs, .inl hway⟩
  obtain ⟨recheck, s₁, hrun, hs₁, hway₁⟩ := foldEach_run (I := fun seen recheck t =>
    Passing env c db (done ++ seen) t ∧
      (OnTheWay env c db (done ++ seen) t ∨ OnTheList env c db recheck)) hartifact [] [] hstart
  rw [List.nil_append] at hs₁ hway₁
  have hlook : ∀ looked k t, k ∈ recheck → (Passing env c db (done ++ batch) t ∧
        (OnTheWay env c db (done ++ batch) t ∨ (OnTheList env c db recheck ∧ c ∉ looked))) →
      ∃ t', maybeRestoreReleasedStatus k t = (.ok (), t') ∧ Passing env c db (done ++ batch) t' ∧
        (OnTheWay env c db (done ++ batch) t' ∨
          (OnTheList env c db recheck ∧ c ∉ looked ++ [k])) := by
    intro looked k t _ ht
    have hpassing := recheck_passing h ht.1 k
    refine ⟨_, maybeRestoreReleasedStatus_run k t, hpassing.1, ?_⟩
    rcases ht.2 with hthere | ⟨hlist, hnot⟩
    · exact .inl (hpassing.2 hthere)
    · by_cases hk : k = c
      · subst hk
        exact .inl (recheck_own h ht.1 hlist.2)
      · right
        refine ⟨hlist, fun hlooked => ?_⟩
        rcases List.mem_append.mp hlooked with hlooked | hlooked
        · exact hnot hlooked
        · exact hk (List.mem_singleton.mp hlooked).symm
  obtain ⟨s₂, hlooks, hs₂, hway₂⟩ := forEach_run (I := fun looked t =>
    Passing env c db (done ++ batch) t ∧
      (OnTheWay env c db (done ++ batch) t ∨ (OnTheList env c db recheck ∧ c ∉ looked))) hlook []
    ⟨hs₁, hway₁.imp_right fun hlist => ⟨hlist, List.not_mem_nil⟩⟩
  refine ⟨s₂, ?_, hs₂, ?_⟩
  · unfold syncBatch
    rw [bind_run_ok hrun]
    exact hlooks
  · rcases hway₂ with hthere | ⟨hlist, hnot⟩
    · exact hthere
    · exact absurd hlist.1 hnot

/-- A whole pass. -/
theorem syncArtifactsStorageStatus_passing (h : WasReleased c db)
    (hway : OnTheWay env c db [] db) : ∃ s, syncArtifactsStorageStatus env db = (.ok (), s) ∧
      Passing env c db (relevantArtifacts db) s ∧ OnTheWay env c db (relevantArtifacts db) s := by
  have hbatch : ∀ batches batch t, batch ∈ (relevantArtifacts db).toChunks 10 →
      (Passing env c db batches.flatten t ∧ OnTheWay env c db batches.flatten t) →
      ∃ t', syncBatch env batch t = (.ok (), t') ∧
        Passing env c db (batches ++ [batch]).flatten t' ∧
          OnTheWay env c db (batches ++ [batch]).flatten t' := by
    intro batches batch t hbatch ht
    rw [List.flatten_append, List.flatten_singleton]
    exact syncBatch_passing h ht.1 ht.2 fun _ ha => Rows.mem_of_mem_toChunks hbatch ha
  obtain ⟨s, hrun, hs, hend⟩ := forEach_run (I := fun batches t =>
    Passing env c db batches.flatten t ∧ OnTheWay env c db batches.flatten t) hbatch []
    ⟨⟨Syncing.start env db, h⟩, hway⟩
  rw [List.nil_append, Rows.flatten_toChunks] at hs hend
  exact ⟨s, hrun, hs, hend⟩

theorem OnTheWay.start (h : Recovering c db) : OnTheWay env c db [] db := by
  rcases h.noticed with hreleased | ⟨f, hf, hremoved⟩ | hpending
  · exact .inl hreleased
  · obtain ⟨a, ha, rfl, hkey⟩ := relevant_of_file h.wasReleased.constraints hf (.inr hremoved)
    by_cases hback : comesBack env db a.fileUpload = true
    · obtain ⟨x, hx, hxkey, hat, hreleased | herror⟩ := h.wasReleased.row
      · exact .inl ⟨x, hx, hxkey, hreleased⟩
      · refine .inr (.inr ⟨a, ha, hkey, .inr ⟨List.not_mem_nil, ?_⟩⟩)
        obtain rfl : a.release.standing = x := h.wasReleased.constraints.standing_eq
          (mem_standings (mem_relevantArtifacts ha).2.2.1.1) hx (hkey.trans hxkey.symm)
        unfold rechecks
        rw [hback, show a.release.releasedAt.isSome = true from hat,
          show a.release.status = .error from herror]
        rfl
    · refine .inr (.inr ⟨a, ha, hkey, .inl ?_⟩)
      unfold synced
      rw [if_neg (by simp [hremoved]), if_neg hback]
      exact hremoved
  · exact .inr (.inl hpending)

/-- The files of the release after a whole pass. -/
theorem Passing.filesOf (h : WasReleased c db) {s : UploadDb}
    (hs : Passing env c db (relevantArtifacts db) s) :
    s.filesOf c = (db.filesOf c).map (synced env db) := by
  have hart : s.artifacts = db.artifacts :=
    hs.syncing.eq_of_frame (g := UploadDb.artifacts) fun _ _ _ => rfl
  rw [filesOf_updateWhere hart hs.syncing.fileUploads (fun f => synced_id f) c]
  apply List.map_congr_left
  intro f hf
  have hstatus : f.status = .uploaded ∨ f.status = .removed :=
    (h.files f hf).elim .inr fun hhealthy => .inl (isHealthy_iff.mp hhealthy).1
  obtain ⟨a, ha, rfl, -⟩ := relevant_of_file h.constraints hf hstatus
  exact if_pos (List.any_eq_true.mpr ⟨a, ha, by simp [isOfFile]⟩)

/-- **Main result.** A pass leaves the release released, or a file of it removed. -/
theorem syncArtifactsStorageStatus_recovering (h : Recovering c db) :
    Recovering c (syncArtifactsStorageStatus env db).2 ∧
      (syncArtifactsStorageStatus env db).2.filesOf c = (db.filesOf c).map (synced env db) := by
  obtain ⟨s, hrun, hs, hend⟩ :=
    @syncArtifactsStorageStatus_passing env db c h.wasReleased (OnTheWay.start h)
  have hfiles := hs.filesOf h.wasReleased
  rw [hrun]
  refine ⟨⟨hs.wasReleased, ?_⟩, hfiles⟩
  rcases hend with hreleased | hpending | ⟨a, ha, hkey, hends | ⟨hnot, -⟩⟩
  · exact .inl hreleased
  · have hsame : s.pending = db.pending :=
      hs.syncing.eq_of_frame (g := UploadDb.pending) fun _ _ _ => rfl
    exact .inr (.inr (hsame ▸ hpending))
  · refine .inr (.inl ⟨_, ?_, hends⟩)
    rw [hfiles]
    exact List.mem_map_of_mem (file_of_relevant ha hkey)
  · exact absurd ha hnot

/-- Every file of the release has its object in the storage. -/
def Present (env : UploadEnv) (c : String) (db : UploadDb) : Prop :=
  ∀ f ∈ db.filesOf c, isMissing env db f = false

/-- Every object of a file of the release is in the storage, with the content it had. -/
def AllBack (env : UploadEnv) (c : String) (db : UploadDb) : Prop :=
  ∀ f ∈ db.filesOf c, (UploadDb.statOf env db f).any (isRestored f) = true

instance (env : UploadEnv) (c : String) (db : UploadDb) : Decidable (Present env c db) :=
  inferInstanceAs (Decidable (∀ f ∈ db.filesOf c, _))

instance (env : UploadEnv) (c : String) (db : UploadDb) : Decidable (AllBack env c db) :=
  inferInstanceAs (Decidable (∀ f ∈ db.filesOf c, _))

theorem AllBack.present (h : AllBack env c db) : Present env c db := by
  intro f hf
  unfold isMissing
  cases hstat : UploadDb.statOf env db f with
  | none => simpa [hstat] using h f hf
  | some stored => rfl

/-- A pass leaves the objects where they are. -/
theorem syncArtifactsStorageStatus_present (h : Recovering c db) (hpresent : Present env c db) :
    Present env c (syncArtifactsStorageStatus env db).2 := by
  obtain ⟨s, hrun, hs, -⟩ :=
    @syncArtifactsStorageStatus_passing env db c h.wasReleased (OnTheWay.start h)
  rw [hrun]
  intro g hg
  rw [hs.filesOf h.wasReleased] at hg
  obtain ⟨f, hf, rfl⟩ := List.mem_map.mp hg
  have hstat : UploadDb.statOf env s (synced env db f) = UploadDb.statOf env db f := by
    rw [hs.syncing.statOf_eq]
    unfold synced
    split
    · rfl
    · split <;> rfl
  unfold isMissing
  rw [hstat]
  exact hpresent f hf

/-- What the pass finds back is healthy after it. -/
theorem syncArtifactsStorageStatus_back (h : Recovering c db) (hback : AllBack env c db) :
    allHealthy (syncArtifactsStorageStatus env db).2 c = true := by
  rw [allHealthy_iff, (syncArtifactsStorageStatus_recovering h).2]
  intro g hg
  obtain ⟨f, hf, rfl⟩ := List.mem_map.mp hg
  unfold synced
  rw [if_neg (by simp [hback.present f hf])]
  rcases h.wasReleased.files f hf with hremoved | hhealthy
  · rw [if_pos]
    · rfl
    · unfold comesBack
      rw [hremoved, hback f hf]
      rfl
  · rw [if_neg]
    · exact hhealthy
    · unfold comesBack
      rw [(isHealthy_iff.mp hhealthy).1]
      exact Bool.false_ne_true

/-- A pass over healthy files whose objects are there. -/
theorem syncArtifactsStorageStatus_healthy (h : Recovering c db) (hhealthy : allHealthy db c = true)
    (hpresent : Present env c db) : allHealthy (syncArtifactsStorageStatus env db).2 c = true := by
  rw [allHealthy_iff] at hhealthy ⊢
  rw [(syncArtifactsStorageStatus_recovering h).2]
  intro g hg
  obtain ⟨f, hf, rfl⟩ := List.mem_map.mp hg
  unfold synced
  rw [if_neg (by simp [hpresent f hf]), if_neg]
  · exact hhealthy f hf
  · unfold comesBack
    rw [(isHealthy_iff.mp (hhealthy f hf)).1]
    exact Bool.false_ne_true

end UploadService
