import UploadService.Lib.Worklist
import UploadService.Life.Links
import UploadService.Life.Support

/-!
# The cascade of a refresh

A refresh that changes the status of a release starts the refreshes of the releases that depend
on it, and each of these may do the same. A release is at rest when it is not `RELEASED` against
the gate, and not left in `IN_REVIEW` where the gate would let it pass. A refresh puts its own
release at rest, and whatever it may unsettle depends on that release and is started.

Main results:

- `refreshReleaseState_atRest`: after a refresh, a release is at rest or its refresh is pending;
- `refreshReleaseState_starts`: the tasks that a refresh starts are refreshes of dependents;
- `cascade_stops_at_rest`: with acyclic dependencies the cascade stops, in whatever order the
  pending refreshes are taken, and leaves every release at rest.
-/

namespace UploadService

open Prog ReleaseService FileUploadService RegulationStatusService Relation

variable {env : UploadEnv} {db : UploadDb}

/-! ### Releases at rest -/

/-- The regulations of the project are compliant for the version. -/
def regulationsCompliant (db : UploadDb) (p : ℕ) (v : String) : Bool :=
  (regulationsOf db p).all (isCompliantWith (getVersionRegulationsStatuses db p v))

/-- The gate of `RELEASED`: compliant regulations, and dependencies that are released or
installation artifacts that are ready. -/
def gate (db : UploadDb) (r : Release) : Bool :=
  regulationsCompliant db r.projectId r.version && isSupported db r

/-- `RELEASED` only with the gate, `IN_REVIEW` only against it. -/
def AtRest (db : UploadDb) (r : Release) : Prop :=
  (r.status = .released → gate db r = true) ∧ (r.status = .inReview → gate db r = false)

instance (db : UploadDb) : DecidablePred (AtRest db) :=
  fun _ => inferInstanceAs (Decidable (_ ∧ _))

/-- The gate, of a standing. -/
def Passes (db : UploadDb) (x : Standing) : Prop :=
  regulationsCompliant db x.projectId x.version = true ∧ db.net.Supported x.catalogId

def Rests (db : UploadDb) (x : Standing) : Prop :=
  (x.status = .released → Passes db x) ∧ (x.status = .inReview → ¬ Passes db x)

theorem gate_iff (hdb : db.Constraints) (r : Release) : gate db r = true ↔ Passes db r.standing := by
  unfold gate Passes
  rw [Bool.and_eq_true, isSupported_iff hdb]
  rfl

theorem atRest_iff (hdb : db.Constraints) (r : Release) : AtRest db r ↔ Rests db r.standing := by
  unfold AtRest Rests
  rw [← gate_iff hdb, Bool.not_eq_true]
  rfl

/-- The task that refreshes the release. -/
def Standing.refresh (x : Standing) : PendingTask := .refreshReleaseState x.projectId x.version

/-! ### What the gate looks at -/

/-- The keys of the releases. -/
def UploadDb.releaseKeys (db : UploadDb) : List (String × ℕ × String) :=
  db.standings.map fun x => (x.catalogId, x.projectId, x.version)

theorem regulationsCompliant_congr {db' : UploadDb} (hregs : db'.regulations = db.regulations)
    (hstatuses : db'.regulationStatuses = db.regulationStatuses)
    (hkeys : db'.releaseKeys = db.releaseKeys) (p : ℕ) (v : String) :
    regulationsCompliant db' p v = regulationsCompliant db p v := by
  have hany : ∀ (s : UploadDb) x, isStatusOf s p v x = s.releaseKeys.any fun k =>
      k.1 == x.versionId && (k.2.1 == p && k.2.2 == v) := by
    intro s x
    unfold UploadDb.releaseKeys UploadDb.standings
    rw [List.any_map, List.any_map]
    rfl
  have hof : isStatusOf db' p v = isStatusOf db p v := by
    funext x
    rw [hany db', hany db, hkeys]
  have hregulation : regulationOf db' = regulationOf db := by
    funext s
    unfold regulationOf
    rw [hregs]
  have horder : regulationOrder db' = regulationOrder db := by
    funext s t
    unfold regulationOrder
    rw [hregulation]
  have hdto : toDto db' = toDto db := by
    funext s
    unfold toDto
    rw [hregulation]
  have hsorted : ∀ rows : List RegulationStatus,
      rows.insertionSort (regulationOrder db') = rows.insertionSort (regulationOrder db) := by
    intro rows
    congr!
  unfold regulationsCompliant regulationsOf getVersionRegulationsStatuses
  rw [hregs, hstatuses, hof, hdto, hsorted]

/-! ### Refreshes -/

/-- Up to the status, no other release becomes ready or stops being so. -/
theorem beforeStatus_ready (hdb : db.Constraints) {p : ℕ} {v : String} (r : Release) {c : String}
    (hc : c ≠ r.catalogId) : Ready (beforeStatus env p v (db.load r) db) c ↔ Ready db c := by
  constructor
  · rintro ⟨hsome, hall⟩
    refine ⟨hsome, fun a ha hof htype => ?_⟩
    obtain ⟨f, hf, hfile, hstatus⟩ := hall a ha hof htype
    rcases Rows.mem_updateWhere.mp hf with ⟨g, -, -, rfl⟩ | ⟨hf, -⟩
    · cases hstatus
    · exact ⟨f, hf, hfile, hstatus⟩
  · exact (beforeStatus_outside hdb r).ready c hc

theorem beforeStatus_up (p : ℕ) (v : String) (loaded : LoadedRelease) (c : String) :
    (beforeStatus env p v loaded db).net.up c ↔ db.net.up c := by
  show IsReleased _ c ↔ IsReleased _ c
  unfold IsReleased
  rw [standings_sees.beforeStatus p v loaded db]

theorem beforeStatus_keys (p : ℕ) (v : String) (loaded : LoadedRelease) :
    (beforeStatus env p v loaded db).releaseKeys = db.releaseKeys :=
  congrArg (List.map _) (standings_sees.beforeStatus p v loaded db)

theorem beforeStatus_compliant (p : ℕ) (v : String) (loaded : LoadedRelease) (q : ℕ) (w : String) :
    regulationsCompliant (beforeStatus env p v loaded db) q w = regulationsCompliant db q w := by
  apply regulationsCompliant_congr
  · rfl
  · rfl
  · exact beforeStatus_keys p v loaded

/-- The state in which a refresh comes to the status lets the same other releases pass. -/
theorem beforeStatus_passes (hdb : db.Constraints) {p : ℕ} {v : String} (r : Release) {x : Standing}
    (hx : x.catalogId ≠ r.catalogId) :
    Passes (beforeStatus env p v (db.load r) db) x ↔ Passes db x := by
  unfold Passes
  rw [beforeStatus_compliant]
  apply and_congr_right
  intro _
  apply Net.supported_congr
  · exact beforeStatus_ready hdb r hx
  · exact fun _ => Iff.rfl
  · exact fun y _ => beforeStatus_up p v _ y

/-- The verdict of a refresh is the gate where the refresh comes to the status. -/
theorem passes_iff (hdb : db.Constraints) {p : ℕ} {v : String} {r : Release}
    (hfind : db.findRelease p v = some r) : (verdictOf env p v (db.load r) db).passes = true ↔
      Passes (beforeStatus env p v (db.load r) db) r.standing := by
  obtain ⟨-, hp, hv⟩ := UploadDb.findRelease_some hfind
  have hkeys : Rows.KeysDistinct FileUpload.id
      (markedMissing env (fileIds (db.load r)) db).fileUploads :=
    hdb.fileKeys.updateWhere fun _ _ _ => rfl
  have hready := fileUploaded_iff hdb hkeys rfl r
  have hdeps := dependenciesReleased_iff hdb r
  have hverdict : (verdictOf env p v (db.load r) db).passes = true ↔
      regulationsCompliant db p v = true ∧ (dependenciesReleased (db.load r) = true ∨
        fileUploaded (markedMissing env (fileIds (db.load r)) db) (db.load r) = true) := by
    unfold Verdict.passes
    rw [Bool.and_eq_true, Bool.or_eq_true]
    rfl
  rw [hverdict, hready, hdeps]
  unfold Passes Net.Supported
  rw [beforeStatus_compliant]
  simp only [Release.standing_projectId, Release.standing_version, hp, hv, beforeStatus_up]
  exact and_congr_right fun _ => or_comm

/-! ### The write of a status -/

/-- The standings after a status is written and the flags are computed. -/
theorem mem_afterChange {p : ℕ} {v : String} {status : ReleaseStatus} {loaded : LoadedRelease}
    {z : Standing} (hz : z ∈ (afterChange p loaded (writeStatus p v status db)).standings) :
    ∃ x ∈ db.standings, z.catalogId = x.catalogId ∧ z.refresh = x.refresh ∧
      z.status = if isStanding p v x && (status == .released || x.status == .released) then status
        else x.status := by
  set written := writeStatus p v status db with hwritten
  have helects : (afterChange p loaded written).standings =
      elect p (latestReleased written p) written.standings :=
    updateLatestForProject_standings p written
  rw [helects] at hz
  obtain ⟨y, hy, rfl⟩ := List.mem_map.mp hz
  rw [hwritten, writeStatus_standings] at hy
  obtain ⟨x, hx, rfl⟩ := List.mem_map.mp hy
  refine ⟨x, hx, ?_⟩
  by_cases hq : (isStanding p v x && (status == .released || x.status == .released)) = true
  · rw [if_pos hq, if_pos hq]
    split <;> exact ⟨rfl, rfl, rfl⟩
  · rw [if_neg hq, if_neg hq]
    split <;> exact ⟨rfl, rfl, rfl⟩

theorem afterChange_keys (p : ℕ) (v : String) (status : ReleaseStatus) (loaded : LoadedRelease) :
    (afterChange p loaded (writeStatus p v status db)).releaseKeys = db.releaseKeys := by
  set written := writeStatus p v status db with hwritten
  have helects : (afterChange p loaded written).standings =
      elect p (latestReleased written p) written.standings :=
    updateLatestForProject_standings p written
  unfold UploadDb.releaseKeys
  rw [helects, hwritten, writeStatus_standings]
  unfold elect
  rw [Rows.map_updateWhere, Rows.map_updateWhere]
  · exact fun _ _ _ => rfl
  · exact fun _ _ _ => rfl

/-- What does not depend on the release is let through as before. -/
theorem afterChange_passes {p : ℕ} {v : String} {status : ReleaseStatus} {loaded : LoadedRelease}
    {c : String} (hkey : ∀ x ∈ db.standings, isStanding p v x = true → x.catalogId = c)
    {x z : Standing} (hxz : z.catalogId = x.catalogId) (hrefresh : z.refresh = x.refresh)
    (hnot : ¬ DependsOn db x.catalogId c) :
    Passes (afterChange p loaded (writeStatus p v status db)) z ↔ Passes db x := by
  obtain ⟨hart, hfiles, hdeps⟩ := afterChange_rows p v status loaded db
  have houtside := @afterChange_outside db p v status loaded (· = c) hkey
  have hregs : regulationsCompliant (afterChange p loaded (writeStatus p v status db)) x.projectId
      x.version = regulationsCompliant db x.projectId x.version := by
    apply regulationsCompliant_congr
    · cases status <;> rfl
    · cases status <;> rfl
    · exact afterChange_keys p v status loaded
  obtain ⟨hp, hv⟩ := PendingTask.refreshReleaseState.inj hrefresh
  unfold Passes
  rw [hp, hv, hxz, hregs]
  apply and_congr_right
  intro _
  apply Net.supported_congr
  · constructor
    · exact fun h => h.of_rows hart.symm hfiles.symm
    · exact fun h => h.of_rows hart hfiles
  · intro y
    show _ ∈ UploadDb.dependencies _ ↔ _
    rw [hdeps]
    rfl
  · intro y hy
    apply houtside.up y
    rintro rfl
    exact hnot hy

/-- `IN_REVIEW` is decided for a release that does not pass. -/
theorem decideStatus_inReview {read : ReleaseStatus} {verdict : Verdict}
    (h : decideStatus read verdict = some .inReview) : verdict.passes = false := by
  unfold decideStatus at h
  cases hpasses : verdict.passes with
  | false => rfl
  | true => cases read <;> simp_all

/-- **Step.** A refresh puts its release at rest, and starts the refresh of what it unsettles. -/
theorem refreshReleaseState_atRest (hdb : db.Constraints) {p : ℕ} {v : String}
    (h : ∀ x ∈ db.standings, Rests db x ∨ x.refresh ∈ db.pending ∨ isStanding p v x = true) :
    ∀ z ∈ (refreshReleaseState env p v db).2.standings,
      Rests (refreshReleaseState env p v db).2 z ∨
        z.refresh ∈ (refreshReleaseState env p v db).2.pending := by
  have hafter := @refreshReleaseState_constraints env p v db hdb
  have hrefreshed := @refreshReleaseState_refreshed env db hdb p v
  generalize (refreshReleaseState env p v db).2 = s at hafter hrefreshed ⊢
  intro z hz
  cases hrefreshed with
  | skipped hskip =>
      rcases h z hz with hrests | hpending | hof
      · exact .inl hrests
      · exact .inr hpending
      · -- a terminal status is at rest whatever the gate says
        left
        obtain ⟨r, hr, rfl⟩ := Standing.mem_iff.mp hz
        simp only [isStanding, Release.standing_projectId, Release.standing_version,
          Bool.and_eq_true, beq_iff_eq] at hof
        have hterminal := hskip r (hof.1 ▸ hof.2 ▸ hdb.findRelease_of_mem hr)
        constructor
        · intro hstatus
          rw [show r.status = .released from hstatus] at hterminal
          cases hterminal
        · intro hstatus
          rw [show r.status = .inReview from hstatus] at hterminal
          cases hterminal
  | kept r hfind hdecide =>
      have hr := (UploadDb.findRelease_some hfind).1
      have hstandings : (beforeStatus env p v (db.load r) db).standings = db.standings :=
        standings_sees.beforeStatus p v _ db
      rw [hstandings] at hz
      by_cases hown : z.catalogId = r.catalogId
      · obtain rfl := hdb.standing_eq hz (mem_standings hr) hown
        obtain ⟨hreleased, hreview⟩ := decideStatus_none hdecide
        refine .inl ⟨fun hstatus => (passes_iff hdb hfind).mp (hreleased hstatus), ?_⟩
        intro hstatus hpasses
        rw [(passes_iff hdb hfind).mpr hpasses] at hreview
        cases hreview hstatus
      · rcases h z hz with hrests | hpending | hof
        · left
          unfold Rests at hrests ⊢
          rw [beforeStatus_passes hdb r hown]
          exact hrests
        · exact .inr hpending
        · exact absurd ((atVersion_iff hdb hfind).mp ⟨z, hz, hof, rfl⟩) hown
  | moved r status hfind hlive hdecide =>
      obtain ⟨hr, hp, hv⟩ := UploadDb.findRelease_some hfind
      set before := beforeStatus env p v (db.load r) db with hbefore
      have hstandings : before.standings = db.standings := standings_sees.beforeStatus p v _ db
      obtain ⟨x, hx, hkey, hrefresh, hstatus⟩ := mem_afterChange hz
      rw [hstandings] at hx
      by_cases hdep : DependsOn db x.catalogId r.catalogId
      · right
        obtain ⟨y, hy, hyx, hpending⟩ : IsQueued
            (afterChange p (db.load r) (writeStatus p v status before)) x.catalogId :=
          afterChange_queues hdb hstandings hdep
        obtain rfl := hafter.standing_eq hy hz (hyx.trans hkey.symm)
        exact hpending
      · have hof : ∀ y ∈ before.standings, isStanding p v y = true → y.catalogId = r.catalogId := by
          intro y hy hof
          rw [hstandings] at hy
          exact (atVersion_iff hdb hfind).mp ⟨y, hy, hof, rfl⟩
        have hpasses : Passes (afterChange p (db.load r) (writeStatus p v status before)) z ↔
            Passes before x := afterChange_passes hof hkey hrefresh hdep
        by_cases hown : x.catalogId = r.catalogId
        · obtain rfl := hdb.standing_eq hx (mem_standings hr) hown
          have htarget : isStanding p v r.standing = true := by simp [isStanding, hp, hv]
          have htargets := decideStatus_targets hdecide
          rw [htarget, Release.standing_status, if_pos htargets.1] at hstatus
          left
          unfold Rests
          rw [hpasses, ← passes_iff hdb hfind, hstatus]
          refine ⟨htargets.2, ?_⟩
          rintro rfl
          rw [decideStatus_inReview hdecide]
          exact Bool.false_ne_true
        · have hother : isStanding p v x = false :=
            eq_false_of_ne_true fun hat => hown (hof x (hstandings ▸ hx) hat)
          rw [hother, Bool.false_and, if_neg Bool.false_ne_true] at hstatus
          rcases h x hx with hrests | hpending | hat
          · left
            unfold Rests at hrests ⊢
            rw [hpasses, hbefore, beforeStatus_passes hdb r hown, hstatus]
            exact hrests
          · right
            rw [hrefresh]
            apply List.mem_append_left
            cases status <;> exact hpending
          · rw [hother] at hat
            cases hat

/-- **Main result.** A refresh keeps the pending tasks, and starts refreshes of releases that
depend on its own. -/
theorem refreshReleaseState_starts (hdb : db.Constraints) (p : ℕ) (v : String) :
    ∃ new, (refreshReleaseState env p v db).2.pending = db.pending ++ new ∧
      ∀ t ∈ new, ∃ r x : Release, db.findRelease p v = some r ∧ x ∈ db.releases ∧
        t = x.standing.refresh ∧ DependsOn db x.catalogId r.catalogId := by
  have hrefreshed := @refreshReleaseState_refreshed env db hdb p v
  generalize (refreshReleaseState env p v db).2 = s at hrefreshed ⊢
  cases hrefreshed with
  | skipped hskip => exact ⟨[], (List.append_nil _).symm, fun t ht => absurd ht List.not_mem_nil⟩
  | kept r hfind hdecide =>
      exact ⟨[], (List.append_nil _).symm, fun t ht => absurd ht List.not_mem_nil⟩
  | moved r status hfind hlive hdecide =>
      refine ⟨(db.load r).dependentReleases.map fun dep =>
        PendingTask.refreshReleaseState dep.projectId dep.version, ?_, fun t ht => ?_⟩
      · cases status <;> rfl
      · obtain ⟨x, hx, rfl⟩ := List.mem_map.mp ht
        obtain ⟨hmem, hdep⟩ := (mem_dependentReleasesOf hdb).mp hx
        exact ⟨r, x, hfind, hmem, rfl, hdep⟩

theorem refreshReleaseState_keys (hdb : db.Constraints) (p : ℕ) (v : String) :
    (refreshReleaseState env p v db).2.releaseKeys = db.releaseKeys := by
  have hrefreshed := @refreshReleaseState_refreshed env db hdb p v
  generalize (refreshReleaseState env p v db).2 = s at hrefreshed ⊢
  cases hrefreshed with
  | skipped hskip => rfl
  | kept r hfind hdecide => exact beforeStatus_keys p v _
  | moved r status hfind hlive hdecide =>
      exact (afterChange_keys p v status _).trans (beforeStatus_keys p v _)

/-! ### The cascade -/

/-- The refresh of the release is called, and nothing else is pending. -/
def cascadeStart (db : UploadDb) (r : Release) : UploadDb :=
  { db with pending := [.refreshReleaseState r.projectId r.version] }

/-- One of the pending tasks is taken, and run. -/
def CascadeStep (env : UploadEnv) (s s' : UploadDb) : Prop :=
  ∃ i < s.pending.length, s' = s.runPending env i

/-- The release that a task is about. -/
def taskRelease (db : UploadDb) : PendingTask → String
  | .refreshReleaseState p v => ((db.findRelease p v).map (·.catalogId)).getD ""
  | .maybeRestoreReleasedStatus c => c

theorem taskRelease_refresh (hdb : db.Constraints) {x : Standing} (hx : x ∈ db.standings) :
    taskRelease db x.refresh = x.catalogId := by
  obtain ⟨r, hr, rfl⟩ := Standing.mem_iff.mp hx
  show ((db.findRelease r.projectId r.version).map (·.catalogId)).getD "" = _
  rw [hdb.findRelease_of_mem hr]
  rfl

/-- A state of the cascade that began in `db`. -/
structure Cascading (db s : UploadDb) : Prop where
  constraints : s.Constraints
  keys : s.releaseKeys = db.releaseKeys
  links : s.dependencies = db.dependencies
  refreshes : ∀ t ∈ s.pending, ∃ x ∈ s.standings, t = x.refresh
  rests : ∀ x ∈ s.standings, Rests s x ∨ x.refresh ∈ s.pending

/-- A release of the cascade is a release of `db`. -/
theorem Cascading.taskRelease {s : UploadDb} (h : Cascading db s) (hdb : db.Constraints)
    {x : Standing} (hx : x ∈ s.standings) : taskRelease db x.refresh = x.catalogId := by
  have hmem : (x.catalogId, x.projectId, x.version) ∈ db.releaseKeys :=
    h.keys ▸ List.mem_map_of_mem hx
  obtain ⟨y, hy, hkey⟩ := List.mem_map.mp hmem
  obtain ⟨hc, hp, hv⟩ : y.catalogId = x.catalogId ∧ y.projectId = x.projectId ∧
      y.version = x.version := by simpa using hkey
  have hrefresh : x.refresh = y.refresh := by
    unfold Standing.refresh
    rw [hp, hv]
  rw [hrefresh, ← hc]
  exact taskRelease_refresh hdb hy

/-- **Step.** A refresh of the cascade leaves a state of the cascade, with new tasks only for
releases that depend on the one whose task was taken. -/
theorem Cascading.step {s s' : UploadDb} (h : Cascading db s) (hdb : db.Constraints)
    (hstep : CascadeStep env s s') : Cascading db s' ∧
      CutExpand (InvImage (DependsOn db) (UploadService.taskRelease db))
        (↑s'.pending : Multiset PendingTask) ↑s.pending := by
  obtain ⟨i, hi, rfl⟩ := hstep
  have htask : s.pending[i]? = some s.pending[i] := List.getElem?_eq_getElem hi
  obtain ⟨y, hy, hrefresh⟩ := h.refreshes s.pending[i] (List.getElem_mem hi)
  obtain ⟨r, hr, rfl⟩ := Standing.mem_iff.mp hy
  have hrun : s.runPending env i = (refreshReleaseState env r.projectId r.version
      { s with pending := s.pending.eraseIdx i }).2 := by
    unfold UploadDb.runPending
    rw [htask, hrefresh]
    rfl
  rw [hrefresh] at htask
  rw [hrun]
  set taken : UploadDb := { s with pending := s.pending.eraseIdx i } with htaken
  have hconstraints : taken.Constraints := { h.constraints with }
  obtain ⟨new, hpending, hnew⟩ :=
    @refreshReleaseState_starts env taken hconstraints r.projectId r.version
  have hkeys := @refreshReleaseState_keys env taken hconstraints r.projectId r.version
  have hlinks : (refreshReleaseState env r.projectId r.version taken).2.dependencies =
      taken.dependencies :=
    (@refreshReleaseState_frames env _ UploadDb.dependencies (fun _ _ _ _ => rfl) _ _).eq taken
  have hatRest := @refreshReleaseState_atRest env taken hconstraints r.projectId r.version (by
    intro x hx
    rcases h.rests x hx with hrests | hpending
    · exact .inl hrests
    · rcases Worklist.mem_eraseIdx htask hpending with htaken | hmem
      · obtain ⟨hp, hv⟩ := PendingTask.refreshReleaseState.inj htaken
        exact .inr (.inr (by simp [isStanding, hp, hv]))
      · exact .inr (.inl hmem))
  refine ⟨⟨refreshReleaseState_constraints _ _ taken hconstraints, hkeys.trans h.keys,
    hlinks.trans h.links, fun t ht => ?_, hatRest⟩, ?_⟩
  · -- the standings may have changed, but not their keys
    have hthere : ∃ x ∈ s.standings, t = x.refresh := by
      rw [hpending] at ht
      rcases List.mem_append.mp ht with hold | hstarted
      · exact h.refreshes t (List.mem_of_mem_eraseIdx hold)
      · obtain ⟨-, x, -, hx, rfl, -⟩ := hnew t hstarted
        exact ⟨x.standing, mem_standings hx, rfl⟩
    obtain ⟨x, hx, rfl⟩ := hthere
    have hmem : (x.catalogId, x.projectId, x.version) ∈
        (refreshReleaseState env r.projectId r.version taken).2.releaseKeys :=
      hkeys ▸ List.mem_map_of_mem hx
    obtain ⟨z, hz, hkey⟩ := List.mem_map.mp hmem
    refine ⟨z, hz, ?_⟩
    obtain ⟨-, hp, hv⟩ : z.catalogId = x.catalogId ∧ z.projectId = x.projectId ∧
        z.version = x.version := by simpa using hkey
    unfold Standing.refresh
    rw [hp, hv]
  · rw [hpending]
    apply Worklist.expand_of_take htask
    intro t ht
    obtain ⟨r', x, hfind, hx, rfl, hdep⟩ := hnew t ht
    have hsame : taken.findRelease r.projectId r.version = some r :=
      hconstraints.findRelease_of_mem hr
    obtain rfl := Option.some.inj (hsame.symm.trans hfind)
    show DependsOn db (UploadService.taskRelease db x.standing.refresh)
      (UploadService.taskRelease db r.standing.refresh)
    rw [h.taskRelease hdb (mem_standings hx), h.taskRelease hdb hy]
    unfold DependsOn
    rw [← h.links]
    exact hdep

theorem cascadeStart_cascading (hdb : db.Constraints) {r : Release} (hr : r ∈ db.releases)
    (hrest : ∀ x ∈ db.releases, x ≠ r → AtRest db x) : Cascading db (cascadeStart db r) where
  constraints := { hdb with }
  keys := rfl
  links := rfl
  refreshes := fun t ht => ⟨r.standing, mem_standings hr, List.mem_singleton.mp ht⟩
  rests := by
    intro x hx
    obtain ⟨y, hy, rfl⟩ := Standing.mem_iff.mp hx
    by_cases hown : y = r
    · rw [hown]
      exact .inr (List.mem_singleton.mpr rfl)
    · exact .inl ((atRest_iff hdb y).mp (hrest y hy hown))

/-- The dependencies of finitely many releases can be followed only so long. -/
theorem dependsOn_wellFounded (h : Acyclic (DependsOn db)) : WellFounded (DependsOn db) := by
  apply h.wellFounded
  apply Set.Finite.subset (db.dependencies.map (·.releaseId)).finite_toSet
  rintro c ⟨d, hd⟩
  exact List.mem_map_of_mem (f := fun x : ReleaseDependency => x.releaseId) hd

/-- **Main result.** Where no release depends on itself, and every release but one is at rest,
the cascade of its refresh stops, whichever pending refresh is taken next, and with none left
every release is at rest. -/
theorem cascade_stops_at_rest (env : UploadEnv) (db : UploadDb) {r : Release} (hdb : db.Constraints)
    (hacyclic : Acyclic (DependsOn db)) (hr : r ∈ db.releases)
    (hrest : ∀ x ∈ db.releases, x ≠ r → AtRest db x) :
    Acc (fun s' s => CascadeStep env s s') (cascadeStart db r) ∧
      ∀ s, ReflTransGen (CascadeStep env) (cascadeStart db r) s → s.pending = [] →
        ∀ x ∈ s.releases, AtRest s x := by
  have hstart := cascadeStart_cascading hdb hr hrest
  constructor
  · have hwf : WellFounded (InvImage (DependsOn db) (taskRelease db)) :=
      InvImage.wf _ (dependsOn_wellFounded hacyclic)
    exact Worklist.acc_of_steps hwf (fun s s' hs hstep => (hs.step hdb hstep).1)
      (fun s s' hs hstep => (hs.step hdb hstep).2) hstart
  · have hinv : ∀ s, ReflTransGen (CascadeStep env) (cascadeStart db r) s → Cascading db s := by
      intro s hreach
      induction hreach with
      | refl => exact hstart
      | tail _ hstep ih => exact (ih.step hdb hstep).1
    intro s hreach hnone x hx
    have hs := hinv s hreach
    rcases hs.rests x.standing (mem_standings hx) with hrests | hpending
    · exact (atRest_iff hs.constraints x).mpr hrests
    · rw [hnone] at hpending
      cases hpending

/-! ### A release on a release without its image -/

/-- The image of the first release is deleted by a user who may edit it. -/
def unsupportedRelease : List ServiceEvent :=
  releaseOnRelease ++
    [.call ⟨some "eve", true⟩ (.handle (some (.id 1)) 1 (.deleteReleaseArtifact "1.0.0" 1))]

/-- The first release is against the gate, and the second rests on it: the cascade of the first
stops, and leaves both at rest. -/
theorem cascade_of_unsupported_release :
    let db := Runs.run (UploadDb.step plainUploadEnv) twoProjects unsupportedRelease
    ∃ r ∈ db.releases, r.status = .released ∧ ¬ AtRest db r ∧
      Acc (fun s' s => CascadeStep plainUploadEnv s s') (cascadeStart db r) ∧
        ∀ s, ReflTransGen (CascadeStep plainUploadEnv) (cascadeStart db r) s → s.pending = [] →
          ∀ x ∈ s.releases, AtRest s x := by
  intro db
  have hrows : ∃ r ∈ db.releases, r.status = .released ∧ ¬ AtRest db r ∧
      ∀ x ∈ db.releases, x ≠ r → AtRest db x := by decide
  have hdb : db.Constraints :=
    Runs.invariant_run (I := UploadDb.Constraints) (fun _ e h => step_constraints h e)
      twoProjects_constraints unsupportedRelease
  have hlinks : db.dependencies = [⟨"2.two@1.0.0", "1.one@1.0.0"⟩] := by decide
  have hacyclic : Acyclic (DependsOn db) := by
    intro c hc
    obtain ⟨d, hcd, hdc⟩ := TransGen.head'_iff.mp hc
    unfold DependsOn at hcd
    rw [hlinks] at hcd
    obtain ⟨rfl, rfl⟩ : c = "2.two@1.0.0" ∧ d = "1.one@1.0.0" := by simpa using hcd
    -- nothing leads on from the first release
    rcases ReflTransGen.cases_head hdc with heq | ⟨e, he, -⟩
    · exact absurd heq (by decide)
    · unfold DependsOn at he
      rw [hlinks] at he
      simp at he
  obtain ⟨r, hr, hreleased, hnot, hrest⟩ := hrows
  exact ⟨r, hr, hreleased, hnot, cascade_stops_at_rest plainUploadEnv db hdb hacyclic hr hrest⟩

end UploadService
