import UploadService.Life.Recovery

/-!
# What a whole pass of the synchronisation leaves

A pass reads the artifacts with their releases once and works through them in batches. A file
whose object is missing takes its release out of `RELEASED` only if the release was `RELEASED`
when the pass began; a release in `ERROR` is looked at again after every batch in which a file
of it comes back, and is promoted when all its rows are healthy then. So a release that is
promoted after one batch keeps `RELEASED` when a later batch finds a file of it missing.

Main results:

- `syncArtifactsStorageStatus_tracked`: what each release has become after a pass;
- `passSound_iff`: a pass leaves no `RELEASED` release with a missing file exactly where no
  release is restored before all its missing files are met;
- `early_restore_missing`: a release with eleven files that ends `RELEASED` without one of them.
-/

namespace UploadService

open Prog FileUploadService

variable {env : UploadEnv} {db : UploadDb}

/-! ### The releases in the course of a pass -/

/-- The pass has met a missing file of the release, which was `RELEASED` when it began. -/
def Demoted (env : UploadEnv) (db : UploadDb) (done : List SyncedArtifact) (c : String) : Prop :=
  ∃ a ∈ done, a.release.catalogId = c ∧ demotes env db a = true

/-- The files of the release are healthy after the pass has come through these artifacts. -/
def HealthyAfter (env : UploadEnv) (db : UploadDb) (done : List SyncedArtifact) (c : String) : Prop :=
  ∀ f ∈ db.filesOf c, isHealthy (some (if done.any (isOfFile f) then synced env db f else f)) = true

/-- The release is looked at again after the batch, and found healthy. -/
def RestoredAfter (env : UploadEnv) (db : UploadDb) (before : List (List SyncedArtifact))
    (batch : List SyncedArtifact) (c : String) : Prop :=
  (∃ a ∈ batch, a.release.catalogId = c ∧ rechecks env db a = true) ∧
    HealthyAfter env db (before ++ [batch]).flatten c

/-- The release is restored after one of the batches. -/
def RestoredBy (env : UploadEnv) (db : UploadDb) (batches : List (List SyncedArtifact))
    (c : String) : Prop :=
  ∃ before batch, before ++ [batch] <+: batches ∧ RestoredAfter env db before batch c

theorem restoredBy_nil (c : String) : ¬ RestoredBy env db [] c := by
  rintro ⟨before, batch, hinitial, -⟩
  have := List.prefix_nil.mp hinitial
  simp at this

theorem restoredBy_append (batches : List (List SyncedArtifact)) (batch : List SyncedArtifact)
    (c : String) : RestoredBy env db (batches ++ [batch]) c ↔
      RestoredBy env db batches c ∨ RestoredAfter env db batches batch c := by
  constructor
  · rintro ⟨before, b, hinitial, hrestored⟩
    rcases List.prefix_concat_iff.mp hinitial with heq | hinitial
    · obtain ⟨rfl, hb⟩ := List.append_inj' heq rfl
      rw [List.singleton_inj.mp hb] at hrestored
      exact .inr hrestored
    · exact .inl ⟨before, b, hinitial, hrestored⟩
  · rintro (⟨before, b, hinitial, hrestored⟩ | hrestored)
    · exact ⟨before, b, hinitial.trans (List.prefix_append _ _), hrestored⟩
    · exact ⟨batches, batch, List.prefix_rfl, hrestored⟩

/-- What the release `x`, as it was read, has become: only its status is written. -/
def Becomes (demoted restored : Prop) (x r : Release) : Prop :=
  r.releasedAt = x.releasedAt ∧
  match x.status with
  | .released => (r.status = .error ∧ demoted) ∨ (r.status = .released ∧ ¬ demoted)
  | .error => (r.status = .released ∧ restored) ∨ (r.status = .error ∧ ¬ restored)
  | status => r.status = status

/-- The releases in the course of a pass from `db`. -/
def Tracked (env : UploadEnv) (db : UploadDb) (done : List SyncedArtifact) (restored : String → Prop)
    (s : UploadDb) : Prop :=
  ∀ x ∈ db.releases, ∃ r, Rows.findKey Release.catalogId x.catalogId s.releases = some r ∧
    Becomes (Demoted env db done x.catalogId) (restored x.catalogId) x r

theorem Tracked.congr {done : List SyncedArtifact} {R R' : String → Prop} {s : UploadDb}
    (h : Tracked env db done R s) (hiff : ∀ c, R c ↔ R' c) : Tracked env db done R' s := by
  intro x hx
  obtain ⟨r, hr, hbecomes⟩ := h x hx
  exact ⟨r, hr, (propext (hiff x.catalogId)) ▸ hbecomes⟩

theorem Tracked.start (hdb : db.Constraints) : Tracked env db [] (RestoredBy env db []) db := by
  intro x hx
  refine ⟨x, Rows.findKey_unique hdb.releaseKeys hx, rfl, ?_⟩
  have hnot : ¬ Demoted env db [] x.catalogId := by
    rintro ⟨a, ha, -⟩
    cases ha
  cases x.status with
  | released => exact .inr ⟨rfl, hnot⟩
  | error => exact .inr ⟨rfl, restoredBy_nil _⟩
  | _ => rfl

theorem findKey_setReleaseStatus (k c : String) (status : ReleaseStatus) (s : UploadDb) :
    Rows.findKey Release.catalogId c (setReleaseStatus k status s).releases =
      (Rows.findKey Release.catalogId c s.releases).map fun r =>
        if r.catalogId == k then { r with status := status } else r :=
  Rows.findKey_updateWhere s.releases fun _ => rfl

/-! ### One artifact -/

theorem demoted_append {done : List SyncedArtifact} {a : SyncedArtifact} {c : String} :
    Demoted env db (done ++ [a]) c ↔
      Demoted env db done c ∨ (a.release.catalogId = c ∧ demotes env db a = true) := by
  unfold Demoted
  simp [or_and_right, exists_or]

/-- The next artifact: its release is taken out of `RELEASED`, or nothing happens. -/
theorem Tracked.demote (hdb : db.Constraints) {done : List SyncedArtifact} {R : String → Prop}
    {s s' : UploadDb} (h : Tracked env db done R s) {a : SyncedArtifact}
    (ha : a ∈ relevantArtifacts db)
    (hreleases : s'.releases = if demotes env db a then
      (setReleaseStatus a.release.catalogId .error s).releases else s.releases) :
    Tracked env db (done ++ [a]) R s' := by
  intro x hx
  obtain ⟨r, hr, hat, hstatus⟩ := h x hx
  have hkey : r.catalogId = x.catalogId := (Rows.findKey_some hr).2
  by_cases hown : a.release.catalogId = x.catalogId ∧ demotes env db a = true
  · -- the release was `RELEASED` when the pass began
    have hrow : a.release = x := hdb.releaseKeys.eq_of_mem (mem_relevantArtifacts ha).2.2.1.1 hx hown.1
    have hreleased : x.status = .released := by
      have hdemotes := hown.2
      simp only [demotes, Bool.and_eq_true, beq_iff_eq] at hdemotes
      exact hrow ▸ hdemotes.2
    refine ⟨{ r with status := .error }, ?_, hat, ?_⟩
    · rw [hreleases, if_pos hown.2, findKey_setReleaseStatus, hr, Option.map_some, hkey, hown.1,
        if_pos (beq_self_eq_true _)]
    · rw [hreleased]
      exact .inl ⟨rfl, demoted_append.mpr (.inr hown)⟩
  · have hsame : Demoted env db (done ++ [a]) x.catalogId ↔ Demoted env db done x.catalogId := by
      rw [demoted_append]
      exact or_iff_left hown
    refine ⟨r, ?_, hat, ?_⟩
    · rw [hreleases]
      split
      · rename_i hdemotes
        have hne : (r.catalogId == a.release.catalogId) = false := by
          rw [beq_eq_false_iff_ne, hkey]
          exact fun heq => hown ⟨heq.symm, hdemotes⟩
        rw [findKey_setReleaseStatus, hr, Option.map_some, hne]
        rfl
      · exact hr
    · rw [propext hsame]
      exact hstatus

/-! ### One look -/

/-- The files of a release in the course of a pass. -/
theorem Syncing.filesOf {done : List SyncedArtifact} {s : UploadDb} (h : Syncing env db done s)
    (c : String) :
    s.filesOf c = (db.filesOf c).map fun f => if done.any (isOfFile f) then synced env db f else f := by
  have hart : s.artifacts = db.artifacts := h.eq_of_frame (g := UploadDb.artifacts) fun _ _ _ => rfl
  exact filesOf_updateWhere hart h.fileUploads (fun f => synced_id f) c

theorem Syncing.allHealthy_iff {done : List SyncedArtifact} {s : UploadDb}
    (h : Syncing env db done s) (c : String) :
    allHealthy s c = true ↔ HealthyAfter env db done c := by
  rw [UploadService.allHealthy_iff, h.filesOf]
  unfold HealthyAfter
  simp only [List.forall_mem_map]

theorem maybeRestoreReleasedStatus_eq {k : String} {s : UploadDb} {r : Release}
    (h : Rows.findKey Release.catalogId k s.releases = some r) :
    (maybeRestoreReleasedStatus k s).2 =
      if mayBeRestored r && allHealthy s k then setReleaseStatus k .released s else s := by
  unfold maybeRestoreReleasedStatus
  rw [gets_bind_run, h]
  show (when (mayBeRestored r && allHealthy s k) (modify (setReleaseStatus k .released)) s :
    Except Exception Unit × UploadDb).2 = _
  cases mayBeRestored r && allHealthy s k <;> rfl

/-- A look at a release that was in `ERROR`: it is restored where it is healthy. -/
theorem Tracked.look (hdb : db.Constraints) {done : List SyncedArtifact} {R : String → Prop}
    {s : UploadDb} (hsync : Syncing env db done s) (h : Tracked env db done R s) {a : SyncedArtifact}
    (ha : a ∈ relevantArtifacts db) (hagain : rechecks env db a = true) :
    Tracked env db done
      (fun c => R c ∨ (c = a.release.catalogId ∧ HealthyAfter env db done c))
      (maybeRestoreReleasedStatus a.release.catalogId s).2 := by
  have hrow : a.release ∈ db.releases := (mem_relevantArtifacts ha).2.2.1.1
  obtain ⟨hat, herror⟩ : a.release.releasedAt.isSome = true ∧ a.release.status = .error := by
    simp only [rechecks, Bool.and_eq_true, beq_iff_eq] at hagain
    exact hagain.2
  obtain ⟨r, hr, hrat, hrstatus⟩ := h a.release hrow
  rw [herror] at hrstatus
  have hhealthy := hsync.allHealthy_iff a.release.catalogId
  rw [maybeRestoreReleasedStatus_eq hr]
  intro x hx
  by_cases hown : x.catalogId = a.release.catalogId
  · obtain rfl : x = a.release := hdb.releaseKeys.eq_of_mem hx hrow hown
    rcases hrstatus with ⟨hreleased, hR⟩ | ⟨hstill, hR⟩
    · -- it is `RELEASED` already
      have hnot : mayBeRestored r = false := by simp [mayBeRestored, hreleased]
      rw [hnot, Bool.false_and]
      refine ⟨r, hr, hrat, ?_⟩
      rw [herror]
      exact .inl ⟨hreleased, .inl hR⟩
    · have hmay : mayBeRestored r = true := by simp [mayBeRestored, hstill, hrat, hat]
      rw [hmay, Bool.true_and]
      by_cases hall : allHealthy s a.release.catalogId = true
      · refine ⟨{ r with status := .released }, ?_, hrat, ?_⟩
        · rw [if_pos hall, findKey_setReleaseStatus, hr, Option.map_some, (Rows.findKey_some hr).2,
            if_pos (beq_self_eq_true _)]
        · rw [herror]
          exact .inl ⟨rfl, .inr ⟨rfl, hhealthy.mp hall⟩⟩
      · rw [if_neg hall]
        refine ⟨r, hr, hrat, ?_⟩
        rw [herror]
        refine .inr ⟨hstill, ?_⟩
        rintro (hrestored | ⟨-, hthen⟩)
        · exact hR hrestored
        · exact hall (hhealthy.mpr hthen)
  · obtain ⟨y, hy, hbecomes⟩ := h x hx
    have hsame : (R x.catalogId ∨ x.catalogId = a.release.catalogId ∧
        HealthyAfter env db done x.catalogId) ↔ R x.catalogId :=
      or_iff_left fun hthis => hown hthis.1
    refine ⟨y, ?_, ?_⟩
    rotate_left
    · show Becomes _ (R x.catalogId ∨ x.catalogId = a.release.catalogId ∧
        HealthyAfter env db done x.catalogId) x y
      rw [propext hsame]
      exact hbecomes
    split
    · have hne : (y.catalogId == a.release.catalogId) = false := by
        rw [beq_eq_false_iff_ne, (Rows.findKey_some hy).2]
        exact hown
      rw [findKey_setReleaseStatus, hy, Option.map_some, hne]
      rfl
    · exact hy

/-! ### A batch and a pass -/

/-- The releases of some artifacts that are looked at again. -/
def OnList (env : UploadEnv) (db : UploadDb) (seen : List SyncedArtifact) (c : String) : Prop :=
  ∃ a ∈ seen, a.release.catalogId = c ∧ rechecks env db a = true

theorem onList_append {seen : List SyncedArtifact} {a : SyncedArtifact} {recheck : List String}
    (hlist : ∀ c, c ∈ recheck ↔ OnList env db seen c) (c : String) :
    (c ∈ if rechecks env db a then ObjectMap.addKeys recheck [a.release.catalogId] else recheck) ↔
      OnList env db (seen ++ [a]) c := by
  have happend : OnList env db (seen ++ [a]) c ↔
      OnList env db seen c ∨ (a.release.catalogId = c ∧ rechecks env db a = true) := by
    unfold OnList
    simp [or_and_right, exists_or]
  rw [happend, ← hlist c]
  split
  · rename_i hagain
    rw [ObjectMap.mem_addKeys, List.mem_singleton, hagain]
    simp [eq_comm]
  · rename_i hagain
    simp [hagain]

/-- The artifacts of a batch, with the list of the releases to look at again. -/
theorem batchArtifacts_tracked (hdb : db.Constraints) {done : List SyncedArtifact}
    {R : String → Prop} {s : UploadDb} (hsync : Syncing env db done s)
    (h : Tracked env db done R s) {batch : List SyncedArtifact}
    (hbatch : ∀ a ∈ batch, a ∈ relevantArtifacts db) :
    ∃ recheck s', foldEach (syncArtifact env) [] batch s = (.ok recheck, s') ∧
      Syncing env db (done ++ batch) s' ∧ Tracked env db (done ++ batch) R s' ∧
      ∀ c, c ∈ recheck ↔ OnList env db batch c := by
  have hartifact : ∀ seen a recheck t, a ∈ batch → (Syncing env db (done ++ seen) t ∧
        Tracked env db (done ++ seen) R t ∧ ∀ c, c ∈ recheck ↔ OnList env db seen c) →
      ∃ recheck' t', syncArtifact env recheck a t = (.ok recheck', t') ∧
        Syncing env db (done ++ (seen ++ [a])) t' ∧ Tracked env db (done ++ (seen ++ [a])) R t' ∧
        ∀ c, c ∈ recheck' ↔ OnList env db (seen ++ [a]) c := by
    intro seen a recheck t ha ht
    obtain ⟨hsync, htracked, hlist⟩ := ht
    obtain ⟨t', htrun, hsync', hreleases⟩ := syncArtifact_run hdb hsync (hbatch a ha) recheck
    have htracked' := htracked.demote hdb (hbatch a ha) hreleases
    rw [List.append_assoc] at hsync' htracked'
    exact ⟨_, t', htrun, hsync', htracked', onList_append hlist⟩
  have hstart : Syncing env db (done ++ []) s ∧ Tracked env db (done ++ []) R s ∧
      ∀ c, c ∈ ([] : List String) ↔ OnList env db [] c := by
    rw [List.append_nil]
    refine ⟨hsync, h, fun c => ⟨fun hc => (by cases hc), ?_⟩⟩
    rintro ⟨a, ha, -⟩
    cases ha
  exact foldEach_run (I := fun seen recheck t => Syncing env db (done ++ seen) t ∧
    Tracked env db (done ++ seen) R t ∧ ∀ c, c ∈ recheck ↔ OnList env db seen c)
    hartifact [] [] hstart

/-- The looks at the releases on the list. -/
theorem looks_tracked (hdb : db.Constraints) {done : List SyncedArtifact} {R : String → Prop}
    {s : UploadDb} (hsync : Syncing env db done s) (h : Tracked env db done R s)
    {batch : List SyncedArtifact} (hbatch : ∀ a ∈ batch, a ∈ relevantArtifacts db)
    {recheck : List String} (hlist : ∀ c, c ∈ recheck ↔ OnList env db batch c) :
    ∃ s', forEach maybeRestoreReleasedStatus recheck s = (.ok (), s') ∧ Syncing env db done s' ∧
      Tracked env db done (fun c => R c ∨ (OnList env db batch c ∧ HealthyAfter env db done c)) s' := by
  have hlook : ∀ looked k t, k ∈ recheck → (Syncing env db done t ∧ Tracked env db done
        (fun c => R c ∨ (c ∈ looked ∧ HealthyAfter env db done c)) t) →
      ∃ t', maybeRestoreReleasedStatus k t = (.ok (), t') ∧ Syncing env db done t' ∧
        Tracked env db done
          (fun c => R c ∨ (c ∈ looked ++ [k] ∧ HealthyAfter env db done c)) t' := by
    intro looked k t hk ht
    obtain ⟨a, ha, rfl, hagain⟩ := (hlist k).mp hk
    refine ⟨_, maybeRestoreReleasedStatus_run _ t, Syncing.maybeRestore _ t ht.1, ?_⟩
    refine (ht.2.look hdb ht.1 (hbatch a ha) hagain).congr fun c => ?_
    rw [List.mem_append, List.mem_singleton, or_and_right, or_assoc]
  have hstart : Syncing env db done s ∧ Tracked env db done
      (fun c => R c ∨ (c ∈ ([] : List String) ∧ HealthyAfter env db done c)) s := by
    refine ⟨hsync, h.congr fun c => ?_⟩
    simp
  obtain ⟨s', hrun, hsync', h'⟩ := forEach_run (I := fun looked t => Syncing env db done t ∧
    Tracked env db done (fun c => R c ∨ (c ∈ looked ∧ HealthyAfter env db done c)) t)
    hlook [] hstart
  rw [List.nil_append] at h'
  refine ⟨s', hrun, hsync', h'.congr fun c => ?_⟩
  rw [hlist c]

/-- **Step.** A batch, with the looks after it. -/
theorem syncBatch_tracked (hdb : db.Constraints) {batches : List (List SyncedArtifact)}
    {s : UploadDb} (hsync : Syncing env db batches.flatten s)
    (h : Tracked env db batches.flatten (RestoredBy env db batches) s)
    {batch : List SyncedArtifact} (hbatch : ∀ a ∈ batch, a ∈ relevantArtifacts db) :
    ∃ s', syncBatch env batch s = (.ok (), s') ∧
      Syncing env db (batches ++ [batch]).flatten s' ∧
      Tracked env db (batches ++ [batch]).flatten (RestoredBy env db (batches ++ [batch])) s' := by
  have hflat : (batches ++ [batch]).flatten = batches.flatten ++ batch := by simp
  obtain ⟨recheck, s₁, hrun, hsync₁, htracked₁, hlist⟩ := batchArtifacts_tracked hdb hsync h hbatch
  obtain ⟨s₂, hlooks, hsync₂, htracked₂⟩ := looks_tracked hdb hsync₁ htracked₁ hbatch hlist
  refine ⟨s₂, ?_, hflat ▸ hsync₂, ?_⟩
  · unfold syncBatch
    rw [bind_run_ok hrun]
    exact hlooks
  · rw [hflat]
    refine htracked₂.congr fun c => ?_
    rw [restoredBy_append]
    unfold RestoredAfter
    rw [hflat]
    exact Iff.rfl

/-- **Run.** What the releases have become after a pass. -/
theorem syncArtifactsStorageStatus_tracked (hdb : db.Constraints) :
    ∃ s, syncArtifactsStorageStatus env db = (.ok (), s) ∧
      Syncing env db (relevantArtifacts db) s ∧
      Tracked env db (relevantArtifacts db)
        (RestoredBy env db ((relevantArtifacts db).toChunks 10)) s := by
  have hstep : ∀ batches batch t, batch ∈ (relevantArtifacts db).toChunks 10 →
      (Syncing env db batches.flatten t ∧
        Tracked env db batches.flatten (RestoredBy env db batches) t) →
      ∃ t', syncBatch env batch t = (.ok (), t') ∧
        Syncing env db (batches ++ [batch]).flatten t' ∧
          Tracked env db (batches ++ [batch]).flatten (RestoredBy env db (batches ++ [batch])) t' :=
    fun batches batch t hbatch ht => syncBatch_tracked hdb ht.1 ht.2 fun _ ha => Rows.mem_of_mem_toChunks hbatch ha
  obtain ⟨s, hrun, hsync, htracked⟩ := forEach_run (I := fun batches t =>
    Syncing env db batches.flatten t ∧
      Tracked env db batches.flatten (RestoredBy env db batches) t) hstep []
    ⟨Syncing.start env db, Tracked.start hdb⟩
  rw [List.nil_append] at hsync htracked
  rw [Rows.flatten_toChunks] at hsync htracked
  exact ⟨s, hrun, hsync, htracked⟩

/-! ### Missing files of released releases -/

/-- After a pass every file of a `RELEASED` release has its object, if the row of the file was
uploaded or removed before. -/
def PassSound (env : UploadEnv) (db : UploadDb) : Prop :=
  ∀ r ∈ (syncArtifactsStorageStatus env db).2.releases, r.status = .released →
    ∀ f ∈ db.filesOf r.catalogId, f.status = .uploaded ∨ f.status = .removed →
      isMissing env db f = false

/-- No release is restored after a batch while one of its uploaded files, whose object is
missing, is in none of the batches up to there. -/
def NoEarlyRestore (env : UploadEnv) (db : UploadDb) : Prop :=
  ∀ before batch, before ++ [batch] <+: (relevantArtifacts db).toChunks 10 →
    ∀ c, RestoredAfter env db before batch c →
      ∀ f ∈ db.filesOf c, f.status = .uploaded → isMissing env db f = true →
        ∃ a ∈ (before ++ [batch]).flatten, isOfFile f a = true

/-- A healthy file that the pass has come through is not missing. -/
theorem present_of_healthy {f : FileUpload} (hstatus : f.status = .uploaded ∨ f.status = .removed)
    (h : isHealthy (some (synced env db f)) = true) : isMissing env db f = false := by
  cases hmissing : isMissing env db f with
  | false => rfl
  | true =>
      have hstat : UploadDb.statOf env db f = none := by
        simpa [isMissing] using hmissing
      have hback : comesBack env db f = false := by simp [comesBack, hstat]
      have hsick := (isHealthy_iff.mp h).1
      unfold synced at hsick
      rcases hstatus with huploaded | hremoved
      · rw [if_pos (by rw [huploaded, hmissing]; rfl)] at hsick
        cases hsick
      · rw [if_neg (by simp [hremoved]), if_neg (by simp [hback]), hremoved] at hsick
        cases hsick

/-- **Main result.** From a state in which every `RELEASED` release has only uploaded files, a
pass leaves no `RELEASED` release with a missing file exactly where no release is restored
before all its missing files are met. -/
theorem passSound_iff (env : UploadEnv) (db : UploadDb) (hdb : db.Constraints)
    (hstart : ∀ r ∈ db.releases, r.status = .released → ∀ f ∈ db.filesOf r.catalogId,
      f.status = .uploaded) : PassSound env db ↔ NoEarlyRestore env db := by
  obtain ⟨s, hrun, hsync, htracked⟩ := @syncArtifactsStorageStatus_tracked env db hdb
  unfold PassSound
  rw [hrun]
  have hplaces : s.releases.map Release.catalogId = db.releases.map Release.catalogId := by
    have hmap := congrArg (List.map Standing.catalogId) hsync.places
    unfold UploadDb.standings at hmap
    simpa [List.map_map, Function.comp_def, Standing.place, Release.standing] using hmap
  have hkeys : Rows.KeysDistinct Release.catalogId s.releases := by
    unfold Rows.KeysDistinct
    rw [hplaces]
    exact hdb.releaseKeys
  constructor
  · intro h before batch hinitial c hrestored f hf huploaded hmissing
    obtain ⟨a, ha, rfl, hagain⟩ := hrestored.1
    have hin : a ∈ relevantArtifacts db := by
      rw [← Rows.flatten_toChunks 10 (relevantArtifacts db)]
      refine List.mem_flatten.mpr ⟨batch, hinitial.subset ?_, ha⟩
      simp
    have herror : a.release.status = .error := by
      simp only [rechecks, Bool.and_eq_true, beq_iff_eq] at hagain
      exact hagain.2.2
    obtain ⟨r, hr, -, hstatus⟩ := htracked a.release (mem_relevantArtifacts hin).2.2.1.1
    rw [herror] at hstatus
    obtain ⟨hmem, hkey⟩ := Rows.findKey_some hr
    rcases hstatus with ⟨hreleased, -⟩ | ⟨-, hnot⟩
    · have hpresent := h r hmem hreleased f (hkey ▸ hf) (.inl huploaded)
      rw [hmissing] at hpresent
      cases hpresent
    · exact absurd ⟨before, batch, hinitial, hrestored⟩ hnot
  · intro h r hr hreleased f hf hstatus
    have hcat : r.catalogId ∈ db.releases.map Release.catalogId := by
      rw [← hplaces]
      exact List.mem_map_of_mem hr
    obtain ⟨x, hx, hkey⟩ := List.mem_map.mp hcat
    obtain ⟨y, hy, -, hbecomes⟩ := htracked x hx
    obtain rfl : y = r := by
      rw [hkey, Rows.findKey_unique hkeys hr] at hy
      exact (Option.some.inj hy).symm
    rw [← hkey] at hf
    cases hwas : x.status with
    | released =>
        rw [hwas] at hbecomes
        rcases hbecomes with ⟨herror, -⟩ | ⟨-, hnot⟩
        · rw [hreleased] at herror
          cases herror
        · have huploaded := hstart x hx hwas f hf
          by_contra hmissing
          rw [Bool.not_eq_false] at hmissing
          obtain ⟨a, ha, rfl, hof⟩ := relevant_of_file hdb hf (.inl huploaded)
          refine hnot ⟨a, ha, hof, ?_⟩
          have hrow : a.release = x :=
            hdb.releaseKeys.eq_of_mem (mem_relevantArtifacts ha).2.2.1.1 hx hof
          simp [demotes, huploaded, hmissing, hrow, hwas]
    | error =>
        rw [hwas] at hbecomes
        rcases hbecomes with ⟨-, before, batch, hinitial, hrestored⟩ | ⟨herror, -⟩
        · have hhealthy := hrestored.2 f hf
          split at hhealthy
          · exact present_of_healthy hstatus hhealthy
          · rename_i hnot
            by_contra hmissing
            rw [Bool.not_eq_false] at hmissing
            have huploaded := (isHealthy_iff.mp hhealthy).1
            obtain ⟨a, ha, hof⟩ := h before batch hinitial x.catalogId hrestored f hf huploaded hmissing
            exact hnot (List.any_eq_true.mpr ⟨a, ha, hof⟩)
        · rw [hreleased] at herror
          cases herror
    | _ =>
        rw [hwas] at hbecomes
        rw [show y.status = _ from hbecomes] at hreleased
        cases hreleased

/-! ### A release with eleven files -/

def nthKey (i : ℕ) : String := s!"upload/release/1/1.0.0/part{i}"

def nthArtifact (i : ℕ) : ReleaseArtifact where
  id := i
  artifactName := none
  type := .file
  dockerImageUrl := none
  isInstallationFile := true
  metadata := []
  releaseId := "1.one@1.0.0"
  fileUploadId := some i
  isExecutable := false
  arguments := none
  enableSbomScan := false
  packageVersion := none

/-- The first file is removed, the others are uploaded. -/
def nthFile (i : ℕ) : FileUpload :=
  { newFileUpload i "part" "release" (nthKey i) "artifacts" with
    status := if i = 0 then .removed else .uploaded }

/-- A release in `ERROR` with eleven files; the object of the first is back, that of the last is
missing. -/
def elevenFiles : UploadDb :=
  { oneProject with
    releases := [{ Release.create 1 "1.0.0" with
      catalogId := "1.one@1.0.0", status := .error, releasedAt := some 0 }]
    artifacts := (List.range 11).map nthArtifact
    fileUploads := (List.range 11).map nthFile
    storage := (List.range 10).map fun i => ⟨"artifacts", nthKey i, none⟩
    nextId := 11 }

theorem elevenFiles_constraints : elevenFiles.Constraints where
  projectKeys := by decide
  projectNames := by decide
  releaseKeys := by decide
  releaseVersions := by decide
  artifactKeys := by decide +kernel
  artifactReleases := by decide +kernel
  artifactFiles := by
    intro a ha b hb id hid hid'
    obtain ⟨i, -, rfl⟩ := List.mem_map.mp ha
    obtain ⟨j, -, rfl⟩ := List.mem_map.mp hb
    have hij : i = j := Option.some.inj (hid.trans hid'.symm)
    rw [hij]
  fileKeys := by decide +kernel
  fileObjectKeys := by decide +kernel
  fileArtifacts := by decide +kernel
  artifactUploads := by
    intro a ha id hid
    obtain ⟨i, hi, rfl⟩ := List.mem_map.mp ha
    exact ⟨nthFile i, List.mem_map_of_mem hi, Option.some.inj hid⟩
  statusKeys := by decide
  statusReleases := by decide
  dependencyReleases := by decide
  ruleReleases := by decide
  uploadKeys := by decide
  freshArtifacts := by decide +kernel
  freshFiles := by decide +kernel
  freshStatuses := by decide

/-- With the last object in place the pass is sound. -/
theorem complete_release_sound :
    PassSound plainUploadEnv { elevenFiles with
      storage := (List.range 11).map fun i => ⟨"artifacts", nthKey i, none⟩ } := by
  refine (passSound_iff plainUploadEnv _ ?_ (by decide +kernel)).mpr ?_
  · exact { elevenFiles_constraints with }
  · intro before batch _ c _ f hf _ hmissing
    have hpresent : ∀ f ∈ (List.range 11).map nthFile, isMissing plainUploadEnv { elevenFiles with
        storage := (List.range 11).map fun i => ⟨"artifacts", nthKey i, none⟩ } f = false := by
      decide +kernel
    obtain ⟨a, -, -, -, hfile⟩ := mem_filesOf.mp hf
    rw [hpresent f (mem_of_fileUploadOf hfile).1] at hmissing
    cases hmissing

/-- The batch of the first ten files restores the release, and the file of the second batch is
found missing after that: the release stays `RELEASED` without it. -/
theorem early_restore_missing :
    elevenFiles.Constraints ∧ (∀ r ∈ elevenFiles.releases, r.status ≠ .released) ∧
      ¬ PassSound plainUploadEnv elevenFiles := by
  refine ⟨elevenFiles_constraints, by decide, fun h => ?_⟩
  have hlost : ∃ r ∈ (syncArtifactsStorageStatus plainUploadEnv elevenFiles).2.releases,
      r.status = .released ∧ ∃ f ∈ elevenFiles.filesOf r.catalogId,
        f.status = .uploaded ∧ isMissing plainUploadEnv elevenFiles f = true := by
    decide +kernel
  obtain ⟨r, hr, hreleased, f, hf, huploaded, hmissing⟩ := hlost
  rw [h r hr hreleased f hf (.inl huploaded)] at hmissing
  cases hmissing

end UploadService
