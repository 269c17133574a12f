import UploadService.Life.Latest
import UploadService.Life.StorageSync

/-!
# The latest flag along runs

Every call keeps the latest flags right but those that change a status and leave the flag.
What these must find is the condition of a step: an explicit status must not take the
flagged release out of `RELEASED`, and a release that enters `RELEASED` without a
computation of the flags must come before the flagged one.

Main results:

- `latest_along_runs`: from an empty release table, after every run whose steps all meet the
  condition, the latest release of a project is its released one with the greatest sort order;
- `explicit_release_not_latest`: an explicit status `RELEASED` leaves the project without.
-/

namespace UploadService

open Prog ReleaseService FileUploadService RegulationStatusService

variable {env : UploadEnv} {db : UploadDb} {semver : SemverLib}

/-! ### The invariant -/

structure LatestInv (semver : SemverLib) (db : UploadDb) : Prop where
  constraints : db.Constraints
  latest : ∀ p, LatestOf p db.standings
  placed : Placed semver db.standings

theorem LatestInv.of_standings (h : LatestInv semver db) {db' : UploadDb} (hdb : db'.Constraints)
    (hs : db'.standings = db.standings) : LatestInv semver db' where
  constraints := hdb
  latest := by rw [hs]; exact h.latest
  placed := by rw [hs]; exact h.placed

/-- Programs that leave the standings keep the invariant. -/
theorem keeps_latestInv {α : Type} {prog : UploadProg α} (hc : Keeps UploadDb.Constraints prog)
    (hs : Frames UploadDb.standings prog) : Keeps (LatestInv semver) prog :=
  fun db h => h.of_standings (hc db h.constraints) (hs.eq db)

/-! ### Refreshes -/

theorem Placed.refreshReleaseState (h : Placed semver db.standings) (hdb : db.Constraints) (p : ℕ)
    (v : String) : Placed semver (ReleaseService.refreshReleaseState env p v db).2.standings := by
  rcases @refreshReleaseState_ends env db hdb p v with ⟨hsame, -⟩ | ⟨loaded, status, -, hends⟩
  · rw [hsame]
    exact h
  · rw [hends]
    show Placed semver (updateLatestForProject p (writeStatus p v status
      (beforeStatus env p v loaded db))).standings
    rw [updateLatestForProject_standings, writeStatus_standings,
      standings_sees.beforeStatus p v loaded db]
    apply Placed.updateWhere
    · apply h.updateWhere
      exact fun _ => ⟨rfl, rfl, rfl, rfl⟩
    · exact fun _ => ⟨rfl, rfl, rfl, rfl⟩

theorem refreshReleaseState_latestInv (p : ℕ) (v : String) :
    Keeps (LatestInv semver) (refreshReleaseState env p v) := fun db h =>
  ⟨refreshReleaseState_constraints p v db h.constraints,
    refreshReleaseState_latest h.constraints (fun q _ => h.latest q) (.inl (h.latest p)),
    h.placed.refreshReleaseState h.constraints p v⟩

/-- The computation of the flags mends those of its project. -/
theorem updateLatestForProject_latestInv {p : ℕ} (hdb : db.Constraints)
    (hother : ∀ q, q ≠ p → LatestOf q db.standings) (hplaced : Placed semver db.standings) :
    LatestInv semver (updateLatestForProject p db) where
  constraints := hdb.updateReleases fun _ _ _ => ⟨rfl, rfl, rfl⟩
  latest := updateLatestForProject_latest hdb p hother
  placed := by
    rw [updateLatestForProject_standings]
    exact hplaced.updateWhere fun _ => ⟨rfl, rfl, rfl, rfl⟩

/-! ### Setting a release -/

/-- What `setRelease` must find for the flags to stay right: a new version has a place of its
own; the flagged release keeps its status; and a release that is stored as `RELEASED` comes
before the flagged one, or the gate refuses it. -/
def SetsInOrder (env : UploadEnv) (dto : SetReleaseDto) (db : UploadDb) : Prop :=
  let stored := (storeRelease env dto db).2
  (storeRelease env dto db).1.isOk = true →
    (db.findRelease dto.projectId dto.version = none →
      Placed.Fits env.semver dto.projectId dto.version db) ∧
    (dto.status ≠ some .archived →
      (∀ r ∈ db.findRelease dto.projectId dto.version, r.latest = true →
        requestedStatus dto r.status = .released) ∧
      (∀ x ∈ stored.standings, isStanding dto.projectId dto.version x = true →
        x.status = .released → LatestFrom dto.projectId stored x.sortOrder ∨
          refuses env dto.projectId dto.version stored = true))

instance (env : UploadEnv) (dto : SetReleaseDto) (db : UploadDb) :
    Decidable (SetsInOrder env dto db) :=
  inferInstanceAs (Decidable (_ → _ ∧ (_ → _ ∧ _)))

/-- What is stored keeps the flags of other projects right, and those of its own where the
flagged release stays and what enters comes before it. -/
theorem Stored.latest {dto : SetReleaseDto} {result : Except Exception Unit × UploadDb}
    (hstored : Stored env dto db result) (h : LatestInv semver db) (q : ℕ)
    (hown : q = dto.projectId →
      (∀ r ∈ db.findRelease dto.projectId dto.version, r.latest = true →
        requestedStatus dto r.status = .released) ∧
      ∀ x ∈ result.2.standings, isStanding dto.projectId dto.version x = true →
        x.status = .released → LatestFrom dto.projectId result.2 x.sortOrder) :
    LatestOf q result.2.standings := by
  cases hstored with
  | refused e => exact h.latest q
  | inserted row inserted rows dependencies hfind hrow hins hdeps =>
      have hstandings : (saveRelations dto true dependencies inserted.catalogId
          { db with releases := rows }).2.standings = rows.map Release.standing :=
        (saveRelations_standings dto true dependencies inserted.catalogId).eq _
      unfold LatestFrom at hown
      rw [hstandings] at hown ⊢
      obtain ⟨name, required, rfl⟩ := hrow
      apply (h.latest q).insert hins rfl
      intro hq hs x hx hxp hxv hxs
      obtain rfl : q = dto.projectId := hq.symm
      apply (hown rfl).2 x hx
      · rw [isStanding, hxp, hxv]
        simp [changedRelease, Release.create]
      · rw [hxs, hs]
  | changed r row dependencies hfind hedit hrow hdeps =>
      have hstandings : (saveRelations dto false dependencies r.catalogId
          (updateReleases (fun x => x.catalogId == r.catalogId) (fun _ => row) db)).2.standings =
          Rows.updateWhere (fun x => x.catalogId == r.catalogId)
            (fun x => { x with status := requestedStatus dto r.status }) db.standings :=
        ((saveRelations_standings dto false dependencies r.catalogId).eq _).trans
          (changed_standings h.constraints hfind hrow)
      unfold LatestFrom at hown
      rw [hstandings] at hown ⊢
      obtain ⟨hr, hp, hv⟩ := UploadDb.findRelease_some hfind
      have hkey : ∀ x ∈ db.standings, (x.catalogId == r.catalogId) = true → x = r.standing :=
        fun x hx hxr => h.constraints.standing_eq hx (mem_standings hr) (by simpa using hxr)
      by_cases hq : q = dto.projectId
      · subst hq
        obtain ⟨hstays, henters⟩ := hown rfl
        apply Leader.Marks.updateWhere (h.latest dto.projectId)
        · exact fun x _ _ => rfl
        · exact fun x _ _ => Iff.rfl
        · intro x hx hxr hm
          obtain rfl := hkey x hx hxr
          exact ⟨hm.1, hstays r hfind hm.2⟩
        · intro x hx hxr hc
          obtain rfl := hkey x hx hxr
          obtain ⟨l, hl, hm, hle⟩ := henters { r.standing with status := requestedStatus dto r.status }
            (Rows.mem_updateWhere.mpr (.inl ⟨r.standing, hx, hxr, rfl⟩))
            (by simp [isStanding, hp, hv]) hc.2
          rcases Rows.mem_updateWhere.mp hl with ⟨y, hy, -, rfl⟩ | ⟨hl, -⟩
          · exact ⟨y, hy, hm, hle⟩
          · exact ⟨l, hl, hm, hle⟩
      · apply (h.latest q).updateWhere_other
        · intro x hx hxr heq
          obtain rfl := hkey x hx hxr
          exact hq (heq.symm.trans hp)
        · exact fun x => ⟨rfl, rfl⟩

theorem Stored.placed {dto : SetReleaseDto} {result : Except Exception Unit × UploadDb}
    (hstored : Stored env dto db result) (h : LatestInv semver db) (hsemver : env.semver = semver)
    (hfits : result.1.isOk = true → db.findRelease dto.projectId dto.version = none →
      Placed.Fits semver dto.projectId dto.version db) : Placed semver result.2.standings := by
  subst hsemver
  cases hstored with
  | refused e => exact h.placed
  | inserted row inserted rows dependencies hfind hrow hins hdeps =>
      rw [saveRelations_ok] at hfits
      rw [(saveRelations_standings dto true dependencies inserted.catalogId).eq]
      obtain ⟨name, required, rfl⟩ := hrow
      exact h.placed.insert hins rfl (hfits rfl hfind)
  | changed r row dependencies hfind hedit hrow hdeps =>
      rw [(saveRelations_standings dto false dependencies r.catalogId).eq,
        changed_standings h.constraints hfind hrow]
      exact h.placed.updateWhere fun _ => ⟨rfl, rfl, rfl, rfl⟩

theorem setRelease_latestInv {dto : SetReleaseDto} (h : LatestInv env.semver db)
    (hset : SetsInOrder env dto db) : LatestInv env.semver (setRelease env dto db).2 := by
  have hstored := storeRelease_stored env dto db
  have hconstraints := @storeRelease_constraints env dto db h.constraints
  unfold setRelease
  unfold SetsInOrder at hset
  rcases hrun : storeRelease env dto db with ⟨result, s⟩
  rw [hrun] at hstored hconstraints hset
  cases result with
  | error e =>
      rw [bind_run_error hrun]
      obtain rfl : s = db := hstored.refused_eq rfl
      exact h
  | ok _ =>
      obtain ⟨hfits, horder⟩ := hset rfl
      have hplaced : Placed env.semver s.standings := hstored.placed h rfl fun _ => hfits
      have hother : ∀ q, q ≠ dto.projectId → LatestOf q s.standings :=
        fun q hq => hstored.latest h q fun heq => absurd heq hq
      rw [bind_run_ok hrun]
      have hfollow : LatestInv env.semver (followStatus env dto s).2 := by
        unfold followStatus
        by_cases harchived : dto.status = some .archived
        · rw [if_pos harchived]
          exact updateLatestForProject_latestInv hconstraints hother hplaced
        · rw [if_neg harchived]
          obtain ⟨hstays, henters⟩ := horder harchived
          refine ⟨refreshReleaseState_constraints _ _ s hconstraints, ?_,
            hplaced.refreshReleaseState hconstraints _ _⟩
          apply refreshReleaseState_latest hconstraints hother
          by_cases hrefuses : refuses env dto.projectId dto.version s = true
          · exact .inr hrefuses
          · refine .inl (hstored.latest h _ fun _ => ⟨hstays, fun x hx hof hs => ?_⟩)
            exact (henters x hx hof hs).resolve_right hrefuses
      apply Keeps.bind_after hfollow
      intro _
      exact Keeps.bind (keeps_of_reads fun db => getRelease_reads _ _ _) fun _ => Keeps.pure _

/-! ### Restoring and synchronising -/

/-- A release that may be restored comes before the flagged one of its project. -/
def RestoresInOrder (c : String) (db : UploadDb) : Prop :=
  ∀ r ∈ db.releases, r.catalogId = c → mayBeRestored r = true → allHealthy db c = true →
    LatestFrom r.projectId db r.sortOrder

/-- A status written by the key of the release: it takes no flag away, and what it releases
comes before the flagged release. -/
theorem setReleaseStatus_latestInv {c : String} {status : ReleaseStatus} (h : LatestInv semver db)
    (hstay : ∀ x ∈ db.standings, x.catalogId = c → x.latest = true → status = .released)
    (henter : status = .released → ∀ x ∈ db.standings, x.catalogId = c →
      LatestFrom x.projectId db x.sortOrder) : LatestInv semver (setReleaseStatus c status db) where
  constraints := setReleaseStatus_constraints h.constraints
  latest := by
    intro p
    rw [setReleaseStatus_standings]
    apply Leader.Marks.updateWhere (h.latest p)
    · exact fun x _ _ => rfl
    · exact fun x _ _ => Iff.rfl
    · exact fun x hx hxc hm => ⟨hm.1, hstay x hx (by simpa using hxc) hm.2⟩
    · intro x hx hxc hc
      have hbehind := henter hc.2 x hx (by simpa using hxc)
      rw [show x.projectId = p from hc.1] at hbehind
      exact hbehind
  placed := by
    rw [setReleaseStatus_standings]
    exact h.placed.updateWhere fun _ => ⟨rfl, rfl, rfl, rfl⟩

theorem maybeRestoreReleasedStatus_latestInv {c : String} (h : LatestInv semver db)
    (hrestore : RestoresInOrder c db) : LatestInv semver (maybeRestoreReleasedStatus c db).2 := by
  unfold maybeRestoreReleasedStatus
  rw [gets_bind_run]
  cases hfind : Rows.findKey Release.catalogId c db.releases with
  | none => exact h
  | some r =>
      obtain ⟨hr, hkey⟩ := Rows.findKey_some hfind
      show LatestInv semver (when (mayBeRestored r && allHealthy db c)
        (modify (setReleaseStatus c .released)) db : Except Exception Unit × UploadDb).2
      by_cases hboth : (mayBeRestored r && allHealthy db c) = true
      · rw [hboth]
        show LatestInv semver (setReleaseStatus c .released db)
        rw [Bool.and_eq_true] at hboth
        apply setReleaseStatus_latestInv h
        · exact fun _ _ _ _ => rfl
        · intro _ x hx hxc
          obtain ⟨y, hy, rfl⟩ := Standing.mem_iff.mp hx
          obtain rfl : y = r := h.constraints.releaseKeys.eq_of_mem hy hr (by rw [hkey]; exact hxc)
          exact hrestore y hr hkey hboth.1 hboth.2
      · rw [eq_false_of_ne_true hboth]
        exact h

/-- What a pass must find: it demotes no flagged release, and a release whose files are all
healthy or come back comes before the flagged one of its project. -/
def SyncsInOrder (env : UploadEnv) (db : UploadDb) : Prop :=
  (∀ a ∈ relevantArtifacts db, demotes env db a = true → a.release.latest = false) ∧
  ∀ a ∈ relevantArtifacts db, rechecks env db a = true →
    allRecoverable env db a.release.catalogId = true →
      LatestFrom a.release.projectId db a.release.sortOrder

/-- The places of the flags stay in the course of a pass. -/
theorem Syncing.latestFrom {done : List SyncedArtifact} {s : UploadDb} (h : Syncing env db done s)
    {p n : ℕ} (hfrom : LatestFrom p db n) : LatestFrom p s n := by
  obtain ⟨l, hl, hm, hle⟩ := hfrom
  have hplace : l.place ∈ s.standings.map Standing.place := by
    rw [h.places]
    exact List.mem_map_of_mem hl
  obtain ⟨x, hx, hxl⟩ := List.mem_map.mp hplace
  obtain ⟨-, hp, -, -, horder, hlatest⟩ := Standing.eq_of_place hxl
  exact ⟨x, hx, ⟨hp.trans hm.1, hlatest.trans hm.2⟩, by omega⟩

/-- A release keeps its place in the course of a pass. -/
theorem Syncing.place_eq (hdb : db.Constraints) {done : List SyncedArtifact} {s : UploadDb}
    (h : Syncing env db done s) {r r' : Release} (hr : r ∈ db.releases) (hr' : r' ∈ s.releases)
    (hkey : r'.catalogId = r.catalogId) : r'.standing.place = r.standing.place := by
  have hplace : r'.standing.place ∈ db.standings.map Standing.place := by
    rw [← h.places]
    exact List.mem_map_of_mem (mem_standings hr')
  obtain ⟨x, hx, hxr⟩ := List.mem_map.mp hplace
  obtain rfl := hdb.standing_eq hx (mem_standings hr) ((Standing.eq_of_place hxr).1.trans hkey)
  exact hxr.symm

theorem Syncing.restoresInOrder (hdb : db.Constraints) (horder : SyncsInOrder env db)
    {done : List SyncedArtifact} {s : UploadDb} (h : Syncing env db done s) {a : SyncedArtifact}
    (ha : a ∈ relevantArtifacts db) (hrecheck : rechecks env db a = true) :
    RestoresInOrder a.release.catalogId s := by
  intro r hr hkey hrestore hhealthy
  have hfrom := h.latestFrom (horder.2 a ha hrecheck (h.allRecoverable hhealthy))
  have hplace := h.place_eq hdb (mem_relevantArtifacts ha).2.2.1.1 hr hkey
  obtain ⟨-, hp, -, -, hn, -⟩ := Standing.eq_of_place hplace
  rw [show r.projectId = a.release.projectId from hp,
    show r.sortOrder = a.release.sortOrder from hn]
  exact hfrom

/-- In the course of a pass from `db`, with the flags right. -/
def SyncingLatest (env : UploadEnv) (semver : SemverLib) (db s : UploadDb) : Prop :=
  (∃ done, Syncing env db done s) ∧ LatestInv semver s

theorem syncArtifact_latestInv (hdb : db.Constraints) (horder : SyncsInOrder env db)
    {a : SyncedArtifact} (ha : a ∈ relevantArtifacts db) (recheck : List String) {s : UploadDb}
    (h : SyncingLatest env semver db s) :
    ∃ s', syncArtifact env recheck a s = (.ok (if rechecks env db a then
        ObjectMap.addKeys recheck [a.release.catalogId] else recheck), s') ∧
      SyncingLatest env semver db s' := by
  obtain ⟨⟨done, hsync⟩, hinv⟩ := h
  obtain ⟨s', hrun, hsync', hreleases⟩ := syncArtifact_run hdb hsync ha recheck
  have hconstraints : s'.Constraints := by
    have hkept := @syncArtifact_constraints env recheck a s hinv.constraints
    rw [hrun] at hkept
    exact hkept
  refine ⟨s', hrun, ⟨_, hsync'⟩, ?_⟩
  cases hdemotes : demotes env db a with
  | false =>
      rw [hdemotes] at hreleases
      exact hinv.of_standings hconstraints (congrArg (List.map Release.standing) hreleases)
  | true =>
      rw [hdemotes] at hreleases
      have hwritten : LatestInv semver (setReleaseStatus a.release.catalogId .error s) := by
        apply setReleaseStatus_latestInv hinv
        · intro x hx hkey hlatest
          obtain ⟨r, hr, rfl⟩ := Standing.mem_iff.mp hx
          have hplace := hsync.place_eq hdb (mem_relevantArtifacts ha).2.2.1.1 hr hkey
          have heq : r.latest = a.release.latest := (Standing.eq_of_place hplace).2.2.2.2.2
          rw [Release.standing_latest, heq, horder.1 a ha hdemotes] at hlatest
          cases hlatest
        · exact fun hno => by cases hno
      exact hwritten.of_standings hconstraints (congrArg (List.map Release.standing) hreleases)

theorem syncBatch_latestInv (hdb : db.Constraints) (horder : SyncsInOrder env db)
    {batch : List SyncedArtifact} (hbatch : ∀ a ∈ batch, a ∈ relevantArtifacts db) :
    Keeps (SyncingLatest env semver db) (syncBatch env batch) := by
  intro s hs
  have hstep : ∀ (done : List SyncedArtifact) (a : SyncedArtifact) (recheck : List String)
      (s : UploadDb), a ∈ batch →
      (SyncingLatest env semver db s ∧ ∀ c ∈ recheck, ∃ a ∈ relevantArtifacts db,
        rechecks env db a = true ∧ a.release.catalogId = c) →
      ∃ recheck' s', syncArtifact env recheck a s = (.ok recheck', s') ∧
        SyncingLatest env semver db s' ∧ ∀ c ∈ recheck', ∃ a ∈ relevantArtifacts db,
          rechecks env db a = true ∧ a.release.catalogId = c := by
    intro done a recheck s ha hs
    obtain ⟨s', hrun, hs'⟩ := syncArtifact_latestInv hdb horder (hbatch a ha) recheck hs.1
    refine ⟨_, s', hrun, hs', fun c hc => ?_⟩
    split at hc
    · rename_i hagain
      rcases ObjectMap.mem_addKeys.mp hc with hc | hc
      · exact hs.2 c hc
      · exact ⟨a, hbatch a ha, hagain, (List.mem_singleton.mp hc).symm⟩
    · exact hs.2 c hc
  obtain ⟨recheck, s₁, hrun, hs₁, hrecheck⟩ := Prog.foldEach_run
    (I := fun _ recheck s => SyncingLatest env semver db s ∧ ∀ c ∈ recheck,
      ∃ a ∈ relevantArtifacts db, rechecks env db a = true ∧ a.release.catalogId = c)
    hstep [] [] ⟨hs, fun c hc => by cases hc⟩
  unfold syncBatch
  rw [bind_run_ok hrun]
  refine Keeps.forEach (fun c hc t ht => ?_) s₁ hs₁
  obtain ⟨a, ha, hagain, rfl⟩ := hrecheck c hc
  obtain ⟨⟨done, hsync⟩, hinv⟩ := ht
  have hrestore := hsync.restoresInOrder hdb horder ha hagain
  exact ⟨⟨done, Syncing.maybeRestore _ t hsync⟩, maybeRestoreReleasedStatus_latestInv hinv hrestore⟩

theorem syncArtifactsStorageStatus_latestInv (h : LatestInv semver db)
    (horder : SyncsInOrder env db) : LatestInv semver (syncArtifactsStorageStatus env db).2 := by
  have hpass : SyncingLatest env semver db
      (forEach (syncBatch env) ((relevantArtifacts db).toChunks 10) db).2 := by
    refine Keeps.forEach (fun batch hbatch => ?_) db ⟨⟨[], Syncing.start env db⟩, h⟩
    exact syncBatch_latestInv h.constraints horder fun _ ha => Rows.mem_of_mem_toChunks hbatch ha
  exact hpass.2

/-! ### Imports -/

/-- The version of a new import has a place of its own. -/
def ImportFits (env : UploadEnv) (dto : ImportReleaseDto) (db : UploadDb) : Prop :=
  ∀ p ∈ namedProject db (some dto.projectIdentifier) 0, db.findRelease p dto.version = none →
    Placed.Fits env.semver p dto.version db

theorem importRelease_latestInv {dto : ImportReleaseDto} (h : LatestInv env.semver db)
    (hfits : ImportFits env dto db) : LatestInv env.semver (importRelease env dto db).2 := by
  obtain ⟨result, hrun, hnamed⟩ := resolveProject_run (some dto.projectIdentifier) 0 db
  unfold importRelease
  cases result with
  | error e =>
      rw [bind_run_error hrun]
      exact h
  | ok p =>
      rw [bind_run_ok hrun]
      rcases @importReleaseInto_ends env db dto p h.constraints with
        ⟨e, hrefused⟩ | ⟨hnew, inserted, rows, s, hins, hs, hrows, hrefresh⟩
      · rw [hrefused]
        exact h
      · have hstandings : s.standings = rows.map Release.standing :=
          congrArg (List.map Release.standing) hrows
        rw [hrefresh]
        apply refreshReleaseState_latestInv
        refine ⟨hs, fun q => ?_, ?_⟩
        · rw [hstandings]
          apply (h.latest q).insert hins rfl
          -- an import starts as a draft
          exact fun _ hdraft => by cases hdraft
        · rw [hstandings]
          exact h.placed.insert hins rfl (hfits p ((hnamed p).mp rfl) hnew)

theorem releaseImported_latestInv (h : LatestInv semver db) (p : ℕ) (v : String) :
    LatestInv semver (releaseImported p v db) := by
  apply updateLatestForProject_latestInv
  · exact writeStatus_constraints h.constraints p v .released
  · exact fun q hq => writeStatus_other hq (h.latest q) v .released
  · have hwritten := writeStatus_standings p v .released db
    rw [show promote p v db = writeStatus p v .released db from rfl, hwritten]
    exact h.placed.updateWhere fun _ => ⟨rfl, rfl, rfl, rfl⟩

theorem importArtifactsInBackground_latestInv (p : ℕ) (v : String)
    (artifacts : List ImportArtifactDto) (downloads : String → Option Download) :
    Keeps (LatestInv semver) (importArtifactsInBackground env p v artifacts downloads) := by
  refine Keeps.ite (Keeps.pure _) ?_
  refine Keeps.bind (Keeps.foldEach (fun allCame artifact _ => ?_) true) fun allSucceeded => ?_
  · exact keeps_latestInv (tryImportArtifact_constraints p v downloads allCame artifact)
      (standings_sees.tryImportArtifact p v downloads allCame artifact)
  · refine Keeps.ite (Keeps.bind (Keeps.modify fun db h => ?_) fun _ => ?_) (Keeps.pure _)
    · exact releaseImported_latestInv h p v
    · exact refreshReleaseState_latestInv p v

/-! ### Deleting, archiving and restoring -/

theorem Placed.deleteWhere {rows : List Standing} (h : Placed semver rows) (q : Standing → Bool) :
    Placed semver (Rows.deleteWhere q rows) :=
  h.of_rows fun x hx => ⟨x, (Rows.mem_deleteWhere.mp hx).1, rfl, rfl, rfl, rfl⟩

theorem handle_deleteRelease_latestInv (projectIdentifier : Option Identifier) (projectId : ℕ)
    (v : String) :
    Keeps (LatestInv semver) ((GuardedBody.deleteRelease v).handle env projectIdentifier projectId) := by
  intro db h
  have hconstraints := @deleteRelease_constraints env ⟨projectIdentifier, projectId, v⟩ db h.constraints
  have hends := @deleteRelease_standings env projectIdentifier projectId v db
  show LatestInv semver ((deleteRelease env ⟨projectIdentifier, projectId, v⟩ >>= _) db).2
  rcases hrun : deleteRelease env ⟨projectIdentifier, projectId, v⟩ db with ⟨result, s⟩
  rw [hrun] at hconstraints hends
  rcases hends with ⟨⟨e, rfl⟩, hsame⟩ | ⟨r, hr, -, rfl, hdeleted⟩
  · rw [bind_run_error hrun]
    exact h.of_standings hconstraints hsame
  · rw [bind_run_ok hrun]
    apply updateLatestForProject_latestInv hconstraints
    · intro q hq
      rw [hdeleted]
      apply Leader.Marks.deleteWhere (h.latest q)
      intro x hx hkey hm
      obtain rfl := h.constraints.standing_eq hx (mem_standings hr) (by simpa using hkey)
      exact hq hm.1.symm
    · rw [hdeleted]
      exact h.placed.deleteWhere _

/-- No release of the project is `RELEASED`. -/
def NoneReleased (p : ℕ) (db : UploadDb) : Prop :=
  ∀ x ∈ db.standings, x.projectId = p → x.status ≠ .released

theorem deleteRelease_latestInv (p : ℕ) (v : String) :
    Keeps (fun s => LatestInv semver s ∧ NoneReleased p s)
      (deleteRelease env ⟨some (.id p), p, v⟩) := by
  rintro db ⟨h, hnone⟩
  have hconstraints := @deleteRelease_constraints env ⟨some (.id p), p, v⟩ db h.constraints
  rcases @deleteRelease_standings env (some (.id p)) p v db with
    ⟨-, hsame⟩ | ⟨r, hr, hnamed, -, hdeleted⟩
  · refine ⟨h.of_standings hconstraints hsame, ?_⟩
    unfold NoneReleased
    rw [hsame]
    exact hnone
  · obtain rfl : p = r.projectId := Option.some.inj hnamed
    refine ⟨⟨hconstraints, fun q => ?_, ?_⟩, ?_⟩
    · rw [hdeleted]
      apply Leader.Marks.deleteWhere (h.latest q)
      intro x hx hkey hm
      obtain rfl := h.constraints.standing_eq hx (mem_standings hr) (by simpa using hkey)
      exact hnone _ hx rfl ((h.latest q).candidate _ hx hm).2
    · rw [hdeleted]
      exact h.placed.deleteWhere _
    · unfold NoneReleased
      rw [hdeleted]
      exact fun x hx => hnone x (Rows.mem_deleteWhere.mp hx).1

theorem deleteProjectReleases_latestInv {p : ℕ} (h : LatestInv semver db)
    (hnone : NoneReleased p db) : LatestInv semver (deleteProjectReleases env p db).2 := by
  have hkept : Keeps (fun s => LatestInv semver s ∧ NoneReleased p s) (deleteProjectReleases env p) := by
    refine Keeps.bind (Keeps.gets _) fun releases => ?_
    refine Keeps.bind (Keeps.when (Keeps.modify fun s hs => ⟨?_, hs.2⟩)) fun _ => ?_
    · refine hs.1.of_standings ?_ rfl
      exact hs.1.constraints.dependencies fun d hd => .inl (Rows.mem_deleteWhere.mp hd).1
    · exact Keeps.forEach fun r _ => keeps_logged (deleteRelease_latestInv p r.version)
  exact (hkept db ⟨h, hnone⟩).1

theorem archiveProjectReleases_latestInv (h : LatestInv semver db) (p : ℕ) :
    LatestInv semver (archiveProjectReleases p db) := by
  have hstandings : (archiveProjectReleases p db).standings = Rows.updateWhere
      (fun x => x.projectId == p && x.status != .archived)
      (fun x => { x with status := .archived, latest := false }) db.standings :=
    standings_updateReleases (fun _ => rfl) fun _ _ _ => rfl
  refine ⟨h.constraints.updateReleases fun _ _ _ => ⟨rfl, rfl, rfl⟩, fun q => ?_, ?_⟩
  · rw [hstandings]
    by_cases hq : q = p
    · subst hq
      -- nothing of the project is released, and only released rows had the flag
      have hrow : ∀ x ∈ Rows.updateWhere (fun x : Standing => x.projectId == q && x.status != .archived)
          (fun x => { x with status := .archived, latest := false }) db.standings,
          x.projectId = q → x.status = .archived ∧ x.latest = false := by
        intro x hx hxq
        rcases Rows.mem_updateWhere.mp hx with ⟨y, hy, -, rfl⟩ | ⟨hx, hstays⟩
        · exact ⟨rfl, rfl⟩
        · have harchived : x.status = .archived := by simpa [hxq] using hstays
          refine ⟨harchived, eq_false_of_ne_true fun hlatest => ?_⟩
          have hreleased := ((h.latest q).candidate x hx ⟨hxq, hlatest⟩).2
          rw [harchived] at hreleased
          cases hreleased
      apply Leader.marks_of_no_candidate
      · rintro x hx ⟨hxq, hreleased⟩
        rw [(hrow x hx hxq).1] at hreleased
        cases hreleased
      · rintro x hx ⟨hxq, hlatest⟩
        rw [(hrow x hx hxq).2] at hlatest
        cases hlatest
    · apply (h.latest q).updateWhere_other
      · intro x _ hx hxq
        simp only [Bool.and_eq_true, beq_iff_eq] at hx
        exact hq (hxq.symm.trans hx.1)
      · exact fun _ => ⟨rfl, rfl⟩
  · rw [hstandings]
    exact h.placed.updateWhere fun _ => ⟨rfl, rfl, rfl, rfl⟩

theorem restoreProjectReleases_latestInv (h : LatestInv semver db) (p : ℕ) :
    LatestInv semver (restoreProjectReleases p db) := by
  set drafts := updateReleases (fun r => r.projectId == p && r.status == .archived)
    (fun r => { r with status := .draft }) db with hdrafts
  have hstandings : drafts.standings = Rows.updateWhere
      (fun x => x.projectId == p && x.status == .archived)
      (fun x => { x with status := .draft }) db.standings :=
    standings_updateReleases (fun _ => rfl) fun _ _ _ => rfl
  apply updateLatestForProject_latestInv
  · exact h.constraints.updateReleases fun _ _ _ => ⟨rfl, rfl, rfl⟩
  · intro q hq
    rw [hstandings]
    apply (h.latest q).updateWhere_other
    · intro x _ hx hxq
      simp only [Bool.and_eq_true, beq_iff_eq] at hx
      exact hq (hxq.symm.trans hx.1)
    · exact fun _ => ⟨rfl, rfl⟩
  · rw [hstandings]
    exact h.placed.updateWhere fun _ => ⟨rfl, rfl, rfl, rfl⟩

/-! ### Notifications -/

theorem onProjectRegulationChanged_latestInv (event : RegulationChangedEvent) :
    Keeps (LatestInv semver) (onProjectRegulationChanged env event) := by
  unfold onProjectRegulationChanged
  cases event.type with
  | created =>
      refine Keeps.bind (Keeps.gets _) fun releases => Keeps.forEach fun r _ => ?_
      exact refreshReleaseState_latestInv _ _
  | updated => exact Keeps.pure _
  | deleted =>
      refine Keeps.bind (Keeps.gets _) fun releases => Keeps.forEach fun r _ => ?_
      refine Keeps.bind (keeps_logged (keeps_latestInv ?_ ?_)) fun _ => ?_
      · exact deleteVersionRegulationStatus_constraints _ _ _
      · exact deleteVersionRegulationStatus_frames (fun _ _ => rfl) _ _ _
      · refine Keeps.bind (Keeps.modify fun s hs => ?_) fun _ => refreshReleaseState_latestInv _ _
        exact hs.of_standings (hs.constraints.deleteStatuses _) rfl

/-! ### Runs -/

/-- A pending restoration must find the release in order; a refresh may find anything. -/
def TaskInOrder (db : UploadDb) : Option PendingTask → Prop
  | some (.maybeRestoreReleasedStatus c) => RestoresInOrder c db
  | _ => True

/-- What a step must find for the flags to stay right. -/
def KeepsLatest (env : UploadEnv) (db : UploadDb) : ServiceEvent → Prop
  | .call caller (.handle projectIdentifier projectId (.setRelease dto)) =>
      SetsInOrder (env.calledBy caller)
        { dto with projectIdentifier := projectIdentifier, projectId := projectId } db
  | .call _ (.importRelease dto) => ImportFits env dto db
  | .call _ (.deleteProjectReleases p) => NoneReleased p db
  | .call _ .syncArtifactsStorageStatus => SyncsInOrder env db
  | .call _ (.maybeRestoreReleasedStatus c) => RestoresInOrder c db
  | .task i => TaskInOrder db db.pending[i]?
  | _ => True

theorem call_latestInv {caller : Caller} {call : ServiceCall} (h : LatestInv env.semver db)
    (hfinds : KeepsLatest env db (.call caller call)) :
    LatestInv env.semver (call.run (env.calledBy caller) db).2 := by
  cases call with
  | handle projectIdentifier projectId body =>
      cases body with
      | setRelease dto =>
          exact Keeps.bind_after (@setRelease_latestInv (env.calledBy caller) db _ h hfinds)
            fun _ => Keeps.pure _
      | deleteRelease v => exact handle_deleteRelease_latestInv _ _ v db h
      | updateFileMetadata | updateUploadStatus | setReleaseArtifact | deleteReleaseArtifact
      | setRegulationStatus | setComplianceStatus | deleteVersionRegulationStatus =>
          exact keeps_latestInv (handle_constraints _ _ _)
            (standings_sees.handle _ _ (by simp) (by simp)) db h
  | importRelease dto => exact @importRelease_latestInv (env.calledBy caller) db dto h hfinds
  | importArtifactsInBackground p v artifacts downloads =>
      exact importArtifactsInBackground_latestInv p v artifacts downloads db h
  | archiveProjectReleases p => exact archiveProjectReleases_latestInv h p
  | restoreProjectReleases p => exact restoreProjectReleases_latestInv h p
  | deleteProjectReleases p => exact deleteProjectReleases_latestInv h hfinds
  | onProjectRegulationChanged event => exact onProjectRegulationChanged_latestInv event db h
  | updateUploadFile file =>
      exact keeps_latestInv (updateUploadFile_constraints file)
        (standings_sees.updateUploadFile file) db h
  | processAndSaveFile objectKey calculateSha256 =>
      exact keeps_latestInv (processAndSaveFile_constraints _ _)
        (standings_sees.processAndSaveFile _ _) db h
  | syncArtifactsStorageStatus =>
      exact @syncArtifactsStorageStatus_latestInv (env.calledBy caller) db _ h hfinds
  | refreshReleaseState p v => exact refreshReleaseState_latestInv p v db h
  | maybeRestoreReleasedStatus c => exact maybeRestoreReleasedStatus_latestInv h hfinds

theorem step_latestInv {e : ServiceEvent} (h : LatestInv env.semver db)
    (hfinds : KeepsLatest env db e) : LatestInv env.semver (db.step env e) := by
  cases e with
  | call caller call => exact call_latestInv h hfinds
  | task i =>
      show LatestInv env.semver (db.runPending env i)
      unfold UploadDb.runPending
      change TaskInOrder db db.pending[i]? at hfinds
      cases hget : db.pending[i]? with
      | none => exact h
      | some task =>
          have herased : LatestInv env.semver { db with pending := db.pending.eraseIdx i } :=
            h.of_standings { h.constraints with } rfl
          cases task with
          | refreshReleaseState p v => exact refreshReleaseState_latestInv p v _ herased
          | maybeRestoreReleasedStatus c =>
              rw [hget] at hfinds
              exact maybeRestoreReleasedStatus_latestInv herased hfinds
  | storage objects => exact h.of_standings { h.constraints with } rfl
  | clock now => exact h.of_standings { h.constraints with } rfl

theorem latestInv_of_empty (hdb : db.Constraints) (hempty : db.releases = []) :
    LatestInv semver db := by
  have hnone : db.standings = [] := by
    unfold UploadDb.standings
    rw [hempty]
    rfl
  refine ⟨hdb, fun p => ?_, ?_⟩
  · rw [hnone]
    exact Leader.marks_nil
  · rw [hnone]
    exact ⟨by simp, by simp, by simp⟩

/-- **Main result.** From an empty release table, after every run whose steps all meet the
condition, the flag of a project is on its released row with the greatest sort order. -/
theorem latest_along_runs (env : UploadEnv) (db : UploadDb) (es : List ServiceEvent)
    (hdb : db.Constraints) (hempty : db.releases = [])
    (h : Runs.Along (UploadDb.step env) (KeepsLatest env) db es) :
    ∀ r ∈ (Runs.run (UploadDb.step env) db es).releases, r.latest = true ↔
      r.status = .released ∧ ∀ s ∈ (Runs.run (UploadDb.step env) db es).releases,
        s.projectId = r.projectId → s.status = .released → s.sortOrder ≤ r.sortOrder := by
  have hinv := Runs.invariant_along (I := LatestInv env.semver) (fun _ _ hs hC => step_latestInv hs hC)
    (latestInv_of_empty hdb hempty) h
  generalize Runs.run (UploadDb.step env) db es = s at hinv
  intro r hr
  have hmarked := (hinv.latest r.projectId).marked_iff (fun a ha b hb hca hcb hrank =>
    hinv.constraints.standing_eq ha hb (hinv.placed.eq ha hb (hca.1.trans hcb.1.symm) hrank))
    (mem_standings hr)
  constructor
  · intro hlatest
    obtain ⟨hc, hgreatest⟩ := hmarked.mp ⟨rfl, hlatest⟩
    exact ⟨hc.2, fun x hx hp hs => hgreatest x.standing (mem_standings hx) ⟨hp, hs⟩⟩
  · rintro ⟨hreleased, hgreatest⟩
    refine (hmarked.mpr ⟨⟨rfl, hreleased⟩, ?_⟩).2
    rintro x hx ⟨hp, hs⟩
    obtain ⟨y, hy, rfl⟩ := Standing.mem_iff.mp hx
    exact hgreatest y hy hp hs

/-! ### A release with an image -/

/-- A request for version 1.0.0. -/
def setVersion (isDraft : Option Bool) (status : Option ReleaseStatus) : SetReleaseDto where
  projectIdentifier := none
  projectId := 0
  version := "1.0.0"
  name := none
  releaseNotes := none
  metadata := none
  isDraft := isDraft
  status := status
  dependencies := none

/-- An image to install for version 1.0.0. -/
def setImage : SetReleaseArtifactDto where
  projectIdentifier := none
  projectId := 0
  version := "1.0.0"
  artifactName := "app"
  type := .dockerImage
  isInstallationFile := true
  dockerImageUrl := some "registry/app"
  metadata := none
  isExecutable := none
  arguments := none
  enableSbomScan := none
  packageVersion := none

/-- A draft with an image, and the refresh that the image starts. -/
def draftWithImage : List ServiceEvent :=
  [requestOfEve (.setRelease (setVersion (some true) none)),
    requestOfEve (.setReleaseArtifact setImage), .task 0]

/-- The draft goes into review, and is released with the flag. -/
theorem reviewed_release_latest :
    let s := Runs.run (UploadDb.step plainUploadEnv) oneProject
      (draftWithImage ++ [requestOfEve (.setRelease (setVersion (some false) none))])
    ∀ r ∈ s.releases, r.latest = true ↔ r.status = .released ∧ ∀ x ∈ s.releases,
      x.projectId = r.projectId → x.status = .released → x.sortOrder ≤ r.sortOrder := by
  apply latest_along_runs plainUploadEnv oneProject _ oneProject_constraints rfl
  have hdraft : SetsInOrder (plainUploadEnv.calledBy ⟨some "eve", false⟩)
      { setVersion (some true) none with projectIdentifier := some (.id 1), projectId := 1 }
      oneProject := by decide
  have hreview : SetsInOrder (plainUploadEnv.calledBy ⟨some "eve", false⟩)
      { setVersion (some false) none with projectIdentifier := some (.id 1), projectId := 1 }
      (Runs.run (UploadDb.step plainUploadEnv) oneProject draftWithImage) := by decide
  exact ⟨hdraft, trivial, trivial, hreview, trivial⟩

/-- An explicit status releases the draft, and the project has no latest release. -/
theorem explicit_release_not_latest :
    let s := Runs.run (UploadDb.step plainUploadEnv) oneProject
      (draftWithImage ++ [requestOfEve (.setRelease (setVersion none (some .released)))])
    s.pending = [] ∧ s.releases.map (fun r => (r.status, r.latest)) = [(.released, false)] := by
  decide

end UploadService
