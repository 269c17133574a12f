import UploadService.Life.Writes

/-!
# Tables a call does not touch

For the programs that write few tables: an observation that these tables do not enter is
the same after every run. `g` stands for any such observation.
-/

namespace UploadService

open Prog ReleaseService FileUploadService RegulationStatusService

variable {env : UploadEnv} {γ : Type} {g : UploadDb → γ}

/-! ### What a refresh keeps -/

/-- The columns of a release that a refresh leaves: its keys, its texts and its metadata. -/
def Release.details (r : Release) : String × ℕ × String × Option String × Option String × ReleaseMetadata :=
  (r.catalogId, r.projectId, r.version, r.name, r.releaseNotes, r.metadata)

theorem Release.details_inj {r x : Release} (h : x.details = r.details) :
    x.catalogId = r.catalogId ∧ x.projectId = r.projectId ∧ x.version = r.version ∧
      x.name = r.name ∧ x.releaseNotes = r.releaseNotes ∧ x.metadata = r.metadata := by
  simpa [Release.details] using h

def UploadDb.details (db : UploadDb) :
    List (String × ℕ × String × Option String × Option String × ReleaseMetadata) :=
  db.releases.map Release.details

/-- The writes of a refresh or a recovery keep the invariant: columns of releases outside their
details, file uploads that are marked as missing, and pending tasks. -/
structure KeptByRefresh (I : UploadDb → Prop) : Prop where
  releases : ∀ (db : UploadDb) (q : Release → Bool) (f : Release → Release),
    (∀ r, (f r).details = r.details) → I db → I (updateReleases q f db)
  missing : ∀ (db : UploadDb) (q : FileUpload → Bool), I db →
    I { db with fileUploads := Rows.updateWhere q markMissing db.fileUploads }
  pending : ∀ (db : UploadDb) tasks, I db → I { db with pending := tasks }

/-- The files that are missing are marked, and nothing else is written. -/
theorem syncAndCheckMissingFiles_keeps {I : UploadDb → Prop}
    (hI : ∀ (db : UploadDb) (q : FileUpload → Bool), I db →
      I { db with fileUploads := Rows.updateWhere q markMissing db.fileUploads }) (ids : List ℕ) :
    Keeps I (syncAndCheckMissingFiles env ids) := by
  refine Keeps.bind (Keeps.gets _) fun files => Keeps.foldEach (fun missing file _ => ?_) false
  refine Keeps.bind (Keeps.gets _) fun stat => ?_
  cases stat with
  | some stored => exact Keeps.pure _
  | none =>
      refine Keeps.bind (Keeps.when (Keeps.modify fun db h => ?_)) fun _ => Keeps.pure _
      exact hI db _ h

namespace KeptByRefresh

variable {I : UploadDb → Prop}

theorem settle (hI : KeptByRefresh I) {db : UploadDb} (h : I db) (p : ℕ) (v : String)
    (loaded : LoadedRelease) (verdict : Verdict) : I (ReleaseService.settle p v loaded verdict db) := by
  have hwrite : ∀ status, I (writeStatus p v status db) := by
    intro status
    cases status <;> exact hI.releases db _ _ (fun _ => rfl) h
  unfold ReleaseService.settle
  split
  · exact h
  · rename_i status _
    split
    · have hlatest : I (updateLatestForProject p (writeStatus p v status db)) :=
        hI.releases _ _ _ (fun _ => rfl) (hwrite status)
      exact hI.pending _ _ hlatest
    · exact h

theorem refresh (hI : KeptByRefresh I) (p : ℕ) (v : String) :
    Keeps I (refreshReleaseState env p v) := by
  refine Keeps.bind (Keeps.gets _) fun found => ?_
  cases found with
  | none => exact Keeps.pure _
  | some loaded =>
      refine Keeps.ite (Keeps.pure _) ?_
      refine Keeps.bind (Keeps.gets _) fun regulations => Keeps.bind (Keeps.gets _) fun statuses => ?_
      refine Keeps.bind (Keeps.modify fun db h => ?_) fun _ => ?_
      · exact hI.releases db _ _ (fun _ => rfl) h
      refine Keeps.bind (syncAndCheckMissingFiles_keeps hI.missing _) fun missing => ?_
      refine Keeps.bind (Keeps.gets _) fun uploaded => Keeps.modify fun db h => ?_
      exact hI.settle h _ _ _ _

theorem maybeRestore (hI : KeptByRefresh I) (c : String) : Keeps I (maybeRestoreReleasedStatus c) := by
  refine Keeps.bind (Keeps.gets _) fun found => ?_
  cases found with
  | none => exact Keeps.pure _
  | some release =>
      refine Keeps.bind (Keeps.gets _) fun healthy => Keeps.when (Keeps.modify fun db h => ?_)
      exact hI.releases db _ _ (fun _ => rfl) h

theorem runPending (hI : KeptByRefresh I) {db : UploadDb} (h : I db) (i : ℕ) :
    I (db.runPending env i) := by
  unfold UploadDb.runPending
  cases db.pending[i]? with
  | none => exact h
  | some task =>
      have herased : I { db with pending := db.pending.eraseIdx i } := hI.pending _ _ h
      cases task with
      | refreshReleaseState p v => exact hI.refresh p v _ herased
      | maybeRestoreReleasedStatus c => exact hI.maybeRestore c _ herased

end KeptByRefresh

/-! ### Observations that a refresh leaves -/

/-- The observation does not see what a refresh or a recovery writes: columns of releases outside
their details, file uploads that are marked as missing, and pending tasks. -/
structure IgnoresRefresh (g : UploadDb → γ) : Prop where
  releases : ∀ (db : UploadDb) (q : Release → Bool) (f : Release → Release),
    (∀ r, (f r).details = r.details) → g (updateReleases q f db) = g db
  missing : ∀ (db : UploadDb) (q : FileUpload → Bool),
    g { db with fileUploads := Rows.updateWhere q markMissing db.fileUploads } = g db
  pending : ∀ (db : UploadDb) tasks, g { db with pending := tasks } = g db

theorem details_ignoresRefresh : IgnoresRefresh UploadDb.details where
  releases := fun db _ _ hf => Rows.map_updateWhere db.releases fun r _ _ => hf r
  missing := fun _ _ => rfl
  pending := fun _ _ => rfl

namespace IgnoresRefresh

theorem kept (hg : IgnoresRefresh g) (observed : γ) : KeptByRefresh fun db => g db = observed where
  releases := fun db q f hf h => (hg.releases db q f hf).trans h
  missing := fun db q h => (hg.missing db q).trans h
  pending := fun db tasks h => (hg.pending db tasks).trans h

/-- An observation of other tables. -/
theorem of_tables (hg : ∀ (db : UploadDb) releases files pending,
    g { db with releases := releases, fileUploads := files, pending := pending } = g db) :
    IgnoresRefresh g where
  releases := fun db _ _ _ => hg db _ db.fileUploads db.pending
  missing := fun db _ => hg db db.releases _ db.pending
  pending := fun db tasks => hg db db.releases db.fileUploads tasks

theorem refresh (hg : IgnoresRefresh g) (p : ℕ) (v : String) :
    Frames g (refreshReleaseState env p v) := fun observed => (hg.kept observed).refresh p v

theorem maybeRestore (hg : IgnoresRefresh g) (c : String) : Frames g (maybeRestoreReleasedStatus c) :=
  fun observed => (hg.kept observed).maybeRestore c

theorem runPending (hg : IgnoresRefresh g) (db : UploadDb) (i : ℕ) :
    g (db.runPending env i) = g db := (hg.kept (g db)).runPending rfl i

/-- The release that an import sets. -/
theorem releaseImported (hg : IgnoresRefresh g) (p : ℕ) (v : String) (db : UploadDb) :
    g (ReleaseService.releaseImported p v db) = g db := by
  have hpromote : g (promote p v db) = g db := hg.releases db _ _ fun _ => rfl
  have hlatest : g (updateLatestForProject p (promote p v db)) = g (promote p v db) :=
    hg.releases _ _ _ fun _ => rfl
  exact hlatest.trans hpromote

end IgnoresRefresh

/-- A refresh writes releases, file uploads and pending tasks. -/
theorem refreshReleaseState_frames
    (hg : ∀ (db : UploadDb) releases files pending,
      g { db with releases := releases, fileUploads := files, pending := pending } = g db)
    (p : ℕ) (v : String) : Frames g (refreshReleaseState env p v) :=
  (IgnoresRefresh.of_tables hg).refresh p v

/-- A release whose row has the same details is found again. -/
theorem findRelease_of_details {db db' : UploadDb} (hdb' : db'.Constraints)
    (hdetails : db'.details = db.details) {p : ℕ} {v : String} {r : Release}
    (hfind : db.findRelease p v = some r) :
    ∃ r', db'.findRelease p v = some r' ∧ r'.details = r.details := by
  obtain ⟨hmem, hp, hv⟩ := UploadDb.findRelease_some hfind
  have hin : r.details ∈ db'.details := by
    rw [hdetails]
    exact List.mem_map_of_mem hmem
  obtain ⟨x, hx, heq⟩ := List.mem_map.mp hin
  obtain ⟨-, hxp, hxv, -⟩ := Release.details_inj heq
  have hfound := hdb'.findRelease_of_mem hx
  rw [hxp, hxv, hp, hv] at hfound
  exact ⟨x, hfound, heq⟩

theorem saveRelations_frames
    (hg : ∀ (db : UploadDb) releases dependencies ruleReleases, g { db with
      releases := releases
      dependencies := dependencies
      ruleReleases := ruleReleases } = g db)
    (dto : SetReleaseDto) (isNew : Bool) (dependencies : Option (List Release)) (c : String) :
    Frames g (saveRelations dto isNew dependencies c) := by
  intro observed
  refine Keeps.bind (Keeps.modify fun db h => ?_) fun _ => Keeps.bind ?_ fun _ => ?_
  · cases dependencies with
    | none => exact h
    | some entities => exact (hg db _ _ _).trans h
  · refine Keeps.when (Keeps.modify fun db h => ?_)
    unfold linkDefaultRuleToRelease
    split
    · exact (hg db _ _ _).trans h
    · exact h
  · refine Keeps.modify fun db h => ?_
    exact (updateTotalSize_frames (fun db releases => hg db releases _ _) _ _ db).trans h

/-- `setRelease` writes releases and their relations, and what a refresh writes. -/
theorem setRelease_frames
    (hg : ∀ (db : UploadDb) releases dependencies ruleReleases files pending, g { db with
      releases := releases
      dependencies := dependencies
      ruleReleases := ruleReleases
      fileUploads := files
      pending := pending } = g db)
    (dto : SetReleaseDto) : Frames g (setRelease env dto) := by
  intro observed
  refine Keeps.bind (fun db h => ?_) fun _ => Keeps.bind ?_ fun _ => ?_
  · have hstored := storeRelease_stored env dto db
    generalize storeRelease env dto db = result at hstored ⊢
    have hrelations := fun isNew dependencies c => saveRelations_frames (g := g)
      (fun db releases dependencies ruleReleases => hg db releases dependencies ruleReleases _ _)
      dto isNew dependencies c
    cases hstored with
    | refused e => exact h
    | inserted row inserted rows dependencies hfind hrow hins hdeps =>
        exact ((hrelations _ _ _).eq _).trans ((hg db _ _ _ _ _).trans h)
    | changed r row dependencies hfind hedit hrow hdeps =>
        exact ((hrelations _ _ _).eq _).trans ((hg db _ _ _ _ _).trans h)
  · refine Keeps.ite (Keeps.modify fun db h => (hg db _ _ _ _ _).trans h) ?_
    exact refreshReleaseState_frames (fun db releases files pending => hg db releases _ _ files pending)
      _ _ observed
  · exact Keeps.bind (keeps_of_reads fun _ => getRelease_reads _ _ _) fun _ => Keeps.pure _

theorem upsertStatus_frames
    (hg : ∀ (db : UploadDb) statuses nextId, g { db with
      regulationStatuses := statuses
      nextId := nextId } = g db)
    (row : RegulationStatus) (f : RegulationStatus → RegulationStatus) (db : UploadDb) :
    g (upsertStatus row f db) = g db := by
  unfold upsertStatus
  split
  · exact hg db _ _
  · exact hg db _ _

theorem getRegulationAndRelease_reads (params : RegulationStatusParams) (db : UploadDb) :
    Keeps (fun s => s = db) (getRegulationAndRelease params) := by
  rintro s rfl
  exact (getRegulationAndRelease_run params s).1

theorem getVersionRegulationStatus_reads (params : RegulationStatusParams) (db : UploadDb) :
    Keeps (fun s => s = db) (getVersionRegulationStatus params) := by
  refine Keeps.bind (Keeps.gets _) fun found => ?_
  cases found with
  | none => exact Keeps.throw _
  | some dto => exact Keeps.pure _

theorem setRegulationStatus_frames
    (hg : ∀ (db : UploadDb) statuses nextId, g { db with
      regulationStatuses := statuses
      nextId := nextId } = g db)
    (params : RegulationStatusParams) (value : String) (reportDetails : Option String) :
    Frames g (setRegulationStatus env params value reportDetails) := by
  intro observed
  refine Keeps.bind (keeps_of_reads (getRegulationAndRelease_reads params)) fun found => ?_
  refine Keeps.bind (fun db h => h) fun isCompliant => Keeps.bind (Keeps.modify fun db h => ?_) fun _ => ?_
  · exact (upsertStatus_frames hg _ _ db).trans h
  · exact keeps_of_reads (getVersionRegulationStatus_reads params)

theorem setComplianceStatus_frames
    (hg : ∀ (db : UploadDb) statuses nextId, g { db with
      regulationStatuses := statuses
      nextId := nextId } = g db)
    (params : RegulationStatusParams) (isCompliant : Bool) :
    Frames g (setComplianceStatus params isCompliant) := by
  intro observed
  refine Keeps.bind (keeps_of_reads (getRegulationAndRelease_reads params)) fun found => ?_
  refine Keeps.bind (Keeps.modify fun db h => ?_) fun _ => ?_
  · exact (upsertStatus_frames hg _ _ db).trans h
  · exact keeps_of_reads (getVersionRegulationStatus_reads params)

end UploadService
