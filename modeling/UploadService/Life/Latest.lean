import UploadService.Lib.Leader
import UploadService.Life.Standing

/-!
# The latest flag

In each project the flag `latest` marks the released row with the greatest sort order. It is
computed by `updateLatestForProject`, which a path that changes a status has to call; a
refresh and the delete of a release do, `maybeRestoreReleasedStatus`, the demotion by the
storage synchronisation and an explicit status in `setRelease` do not.

Main results:

- `updateLatestForProject_latest`: the computation makes the flags of the project right;
- `refreshReleaseState_latest`: a refresh keeps the flags right, and mends those of its
  project when it changes a status;
- `Placed.insert`: a new row gets a place of its own in its project.
-/

namespace UploadService

open Prog ReleaseService FileUploadService RegulationStatusService

variable {env : UploadEnv} {db : UploadDb}

/-! ### The flags of a project -/

/-- The release is a released one of the project. -/
def IsReleasedOf (p : ℕ) (x : Standing) : Prop := x.projectId = p ∧ x.status = .released

/-- The flag is on the release, and the release of the project. -/
def IsLatestOf (p : ℕ) (x : Standing) : Prop := x.projectId = p ∧ x.latest = true

instance (p : ℕ) : DecidablePred (IsLatestOf p) :=
  fun _ => inferInstanceAs (Decidable (_ ∧ _))

/-- The flags of the project are right. -/
def LatestOf (p : ℕ) (rows : List Standing) : Prop :=
  Leader.Marks (IsReleasedOf p) (IsLatestOf p) Standing.sortOrder rows

/-- The flag of the project is at the place, or after it. -/
def LatestFrom (p : ℕ) (db : UploadDb) (n : ℕ) : Prop :=
  Leader.Behind (IsLatestOf p) Standing.sortOrder db.standings n

instance (p : ℕ) (db : UploadDb) (n : ℕ) : Decidable (LatestFrom p db n) :=
  inferInstanceAs (Decidable (Leader.Behind _ _ _ _))

/-- Writes on another project leave the flags of this one. -/
theorem LatestOf.updateWhere_other {p : ℕ} {rows : List Standing} (h : LatestOf p rows)
    {q : Standing → Bool} {f : Standing → Standing} (hq : ∀ x ∈ rows, q x = true → x.projectId ≠ p)
    (hf : ∀ x, (f x).projectId = x.projectId ∧ (f x).sortOrder = x.sortOrder) :
    LatestOf p (Rows.updateWhere q f rows) := by
  have hout : ∀ x ∈ rows, q x = true → (f x).projectId ≠ p := by
    intro x hx hqx
    rw [(hf x).1]
    exact hq x hx hqx
  apply Leader.Marks.updateWhere h
  · exact fun x _ _ => (hf x).2
  · intro x hx hqx
    exact ⟨fun hm => absurd hm.1 (hout x hx hqx), fun hm => absurd hm.1 (hq x hx hqx)⟩
  · exact fun x hx hqx hm => absurd hm.1 (hq x hx hqx)
  · exact fun x hx hqx hc => absurd hc.1 (hout x hx hqx)

/-! ### Computing the flags -/

theorem latestReleased_some {p : ℕ} {l : Release} (h : latestReleased db p = some l) :
    l ∈ db.releases ∧ IsReleasedOf p l.standing ∧
      ∀ r ∈ db.releases, IsReleasedOf p r.standing → r.sortOrder ≤ l.sortOrder := by
  obtain ⟨hmem, hgreatest⟩ := Leader.head?_insertionSort_greatest h
  obtain ⟨hl, hof⟩ := List.mem_filter.mp hmem
  simp only [Bool.and_eq_true, beq_iff_eq] at hof
  refine ⟨hl, hof, fun r hr hc => hgreatest r (List.mem_filter.mpr ⟨hr, ?_⟩)⟩
  simp only [Bool.and_eq_true, beq_iff_eq]
  exact hc

theorem latestReleased_none {p : ℕ} (h : latestReleased db p = none) {r : Release}
    (hr : r ∈ db.releases) : ¬ IsReleasedOf p r.standing := by
  intro hc
  have hmem : r ∈ (db.releases.filter fun r => r.projectId == p && r.status == .released).insertionSort
      fun a b => b.sortOrder ≤ a.sortOrder := by
    rw [List.mem_insertionSort, List.mem_filter]
    refine ⟨hr, ?_⟩
    simp only [Bool.and_eq_true, beq_iff_eq]
    exact hc
  unfold latestReleased at h
  rw [List.head?_eq_none_iff.mp h] at hmem
  cases hmem

/-- The standings after the flags of the project are computed. -/
def elect (p : ℕ) (latest : Option Release) (rows : List Standing) : List Standing :=
  Rows.updateWhere (fun x => x.projectId == p)
    (fun x => { x with latest := latest.any fun l => l.catalogId == x.catalogId }) rows

theorem updateLatestForProject_standings (p : ℕ) (db : UploadDb) :
    (updateLatestForProject p db).standings = elect p (latestReleased db p) db.standings :=
  standings_updateReleases (fun _ => rfl) fun _ _ _ => rfl

/-- **Main result.** The computation makes the flags of the project right, and leaves the
others. -/
theorem updateLatestForProject_latest (hdb : db.Constraints) (p : ℕ)
    (hother : ∀ q, q ≠ p → LatestOf q db.standings) (q : ℕ) :
    LatestOf q (updateLatestForProject p db).standings := by
  rw [updateLatestForProject_standings]
  by_cases hq : q = p
  · subst hq
    have hmem : ∀ {x}, x ∈ elect q (latestReleased db q) db.standings → x.projectId = q →
        ∃ r ∈ db.releases, r.projectId = q ∧ x = { r.standing with
          latest := (latestReleased db q).any fun l => l.catalogId == r.catalogId } := by
      intro x hx hxq
      rcases Rows.mem_updateWhere.mp hx with ⟨y, hy, hyq, rfl⟩ | ⟨-, hne⟩
      · obtain ⟨r, hr, rfl⟩ := Standing.mem_iff.mp hy
        exact ⟨r, hr, by simpa using hyq, rfl⟩
      · simp [hxq] at hne
    set elected := (latestReleased db q).map fun l : Release =>
      { l.standing with latest := true } with helected
    apply @Leader.marks_of_election _ _ _ _ _ elected
    · intro x hx
      obtain ⟨l, hl, rfl⟩ := Option.map_eq_some_iff.mp hx
      obtain ⟨hmeml, hof, -⟩ := latestReleased_some hl
      refine ⟨Rows.mem_updateWhere.mpr (.inl ⟨l.standing, mem_standings hmeml, ?_, ?_⟩), hof, hof.1, rfl⟩
      · simpa using hof.1
      · rw [hl]
        simp
    · intro x hx y hy hc
      obtain ⟨l, hl, rfl⟩ := Option.map_eq_some_iff.mp hx
      obtain ⟨r, hr, -, rfl⟩ := hmem hy hc.1
      exact (latestReleased_some hl).2.2 r hr hc
    · intro hnone y hy hc
      obtain ⟨r, hr, -, rfl⟩ := hmem hy hc.1
      exact latestReleased_none (Option.map_eq_none_iff.mp hnone) hr hc
    · intro y hy hm
      obtain ⟨r, hr, -, rfl⟩ := hmem hy hm.1
      obtain ⟨l, hl, hkey⟩ := (Option.any_eq_true _ _).mp hm.2
      obtain rfl := hdb.releaseKeys.eq_of_mem (latestReleased_some hl).1 hr (by simpa using hkey)
      show elected = some _
      rw [helected, hl]
      simp
  · apply (hother q hq).updateWhere_other
    · intro x _ hx
      have hxp : x.projectId = p := by simpa using hx
      rw [hxp]
      exact fun heq => hq heq.symm
    · exact fun x => ⟨rfl, rfl⟩

/-! ### Refreshes -/

theorem writeStatus_other {p q : ℕ} (hq : q ≠ p) (h : LatestOf q db.standings) (v : String)
    (status : ReleaseStatus) : LatestOf q (writeStatus p v status db).standings := by
  rw [writeStatus_standings]
  apply h.updateWhere_other
  · intro x _ hx heq
    simp only [isStanding, Bool.and_eq_true, beq_iff_eq] at hx
    exact hq (heq.symm.trans hx.1.1)
  · exact fun x => ⟨rfl, rfl⟩

theorem writeStatus_constraints (h : db.Constraints) (p : ℕ) (v : String) (status : ReleaseStatus) :
    (writeStatus p v status db).Constraints := by
  cases status
  all_goals exact h.updateReleases fun _ _ _ => ⟨rfl, rfl, rfl⟩

/-- What follows a change of the status makes the flags right. -/
theorem afterChange_latest (hdb : db.Constraints) {p : ℕ} {v : String} {loaded : LoadedRelease}
    {status : ReleaseStatus} (hother : ∀ q, q ≠ p → LatestOf q db.standings) (q : ℕ) :
    LatestOf q (afterChange p loaded (writeStatus p v status db)).standings :=
  updateLatestForProject_latest (writeStatus_constraints hdb p v status) p
    (fun q hq => writeStatus_other hq (hother q hq) v status) q

/-- The gate refuses the release, which is `RELEASED`: a refresh takes it out. -/
def refuses (env : UploadEnv) (p : ℕ) (v : String) (db : UploadDb) : Bool :=
  (db.getReleaseEntity p v).any fun loaded =>
    loaded.release.status == .released && !(verdictOf env p v loaded db).passes

theorem beforeStatus_constraints (hdb : db.Constraints) (p : ℕ) (v : String)
    (loaded : LoadedRelease) : (beforeStatus env p v loaded db).Constraints := by
  have hcounts : (updateRegulationCounts p v (regulationsOf db p).length
      (numCompliant (regulationsOf db p) (getVersionRegulationsStatuses db p v)) db).Constraints :=
    hdb.updateReleases fun _ _ _ => ⟨rfl, rfl, rfl⟩
  exact hcounts.updateFiles fun _ => ⟨rfl, rfl⟩

/-- A status is decided on a released row, or it is `RELEASED` and the release passes. -/
theorem decideStatus_targets {read status : ReleaseStatus} {verdict : Verdict}
    (h : decideStatus read verdict = some status) :
    (true && (status == .released || read == .released)) = true ∧
      (status = .released → verdict.passes = true) := by
  unfold decideStatus at h
  cases hpasses : verdict.passes with
  | true => cases read <;> simp_all
  | false =>
      cases read <;> simp_all
      subst h
      split <;> simp

/-- A status is left where the release that is read stands as the verdict says. -/
theorem decideStatus_none {read : ReleaseStatus} {verdict : Verdict}
    (h : decideStatus read verdict = none) :
    (read = .released → verdict.passes = true) ∧ (read = .inReview → verdict.passes = false) := by
  unfold decideStatus at h
  cases hpasses : verdict.passes with
  | true => cases read <;> simp_all
  | false => cases read <;> simp_all

/-- What a refresh comes to: it skips the release, it leaves the status, or it writes one and
what follows. -/
inductive Refreshed (env : UploadEnv) (p : ℕ) (v : String) (db : UploadDb) : UploadDb → Prop
  | skipped (hskip : ∀ r, db.findRelease p v = some r → isTerminal r.status = true) :
      Refreshed env p v db db
  | kept (r : Release) (hfind : db.findRelease p v = some r)
      (hdecide : decideStatus r.status (verdictOf env p v (db.load r) db) = none) :
      Refreshed env p v db (beforeStatus env p v (db.load r) db)
  | moved (r : Release) (status : ReleaseStatus) (hfind : db.findRelease p v = some r)
      (hlive : isTerminal r.status = false)
      (hdecide : decideStatus r.status (verdictOf env p v (db.load r) db) = some status) :
      Refreshed env p v db
        (afterChange p (db.load r) (writeStatus p v status (beforeStatus env p v (db.load r) db)))

/-- The row that the refresh has read is hit by the write of the status it decides. -/
theorem any_statusTarget {p : ℕ} {v : String} {r : Release} (hfind : db.findRelease p v = some r)
    {status : ReleaseStatus}
    (hdecide : decideStatus r.status (verdictOf env p v (db.load r) db) = some status) :
    (beforeStatus env p v (db.load r) db).releases.any (statusTarget p v status) = true := by
  obtain ⟨hmem, hp, hv⟩ := UploadDb.findRelease_some hfind
  have hstanding := mem_standings hmem
  rw [← @SeesStandings.beforeStatus env _ _ standings_sees p v (db.load r) db] at hstanding
  obtain ⟨x, hx, hxr⟩ := Standing.mem_iff.mp hstanding
  have hxp : x.projectId = p := (congrArg Standing.projectId hxr).trans hp
  have hxv : x.version = v := (congrArg Standing.version hxr).trans hv
  have hxs : x.status = r.status := congrArg Standing.status hxr
  apply List.any_eq_true.mpr
  refine ⟨x, hx, ?_⟩
  unfold statusTarget
  rw [show UploadDb.isRelease p v x = true by simp [UploadDb.isRelease, hxp, hxv], hxs]
  exact (decideStatus_targets hdecide).1

theorem refreshReleaseState_refreshed (hdb : db.Constraints) (p : ℕ) (v : String) :
    Refreshed env p v db (refreshReleaseState env p v db).2 := by
  rw [refreshReleaseState_run env p v hdb]
  cases hload : db.getReleaseEntity p v with
  | none =>
      apply Refreshed.skipped
      intro r hfind
      rw [UploadDb.getReleaseEntity, hfind] at hload
      cases hload
  | some loaded =>
      obtain ⟨hfind, hloaded⟩ := UploadDb.getReleaseEntity_some hload
      obtain ⟨r, rfl⟩ : ∃ r, loaded = db.load r := ⟨_, hloaded⟩
      change db.findRelease p v = some r at hfind
      show Refreshed env p v db (if isTerminal r.status = true then _ else _ : _ × UploadDb).2
      by_cases hterminal : isTerminal r.status = true
      · rw [if_pos hterminal]
        apply Refreshed.skipped
        intro r' hfind'
        obtain rfl := Option.some.inj (hfind.symm.trans hfind')
        exact hterminal
      · rw [if_neg hterminal]
        show Refreshed env p v db (settle p v (db.load r) (verdictOf env p v (db.load r) db)
          (beforeStatus env p v (db.load r) db))
        unfold settle
        cases hdecide : decideStatus (db.load r).release.status (verdictOf env p v (db.load r) db) with
        | none => exact .kept r hfind hdecide
        | some status =>
            show Refreshed env p v db (if _ then _ else _ : UploadDb)
            rw [if_pos (any_statusTarget hfind hdecide)]
            exact .moved r status hfind (eq_false_of_ne_true hterminal) hdecide

/-- A refresh leaves the standings, or writes a status and computes the flags. -/
theorem refreshReleaseState_ends (hdb : db.Constraints) (p : ℕ) (v : String) :
    ((refreshReleaseState env p v db).2.standings = db.standings ∧ refuses env p v db = false) ∨
    ∃ loaded status, decideStatus loaded.release.status (verdictOf env p v loaded db) = some status ∧
      (refreshReleaseState env p v db).2 =
        afterChange p loaded (writeStatus p v status (beforeStatus env p v loaded db)) := by
  have hrefreshed := @refreshReleaseState_refreshed env db hdb p v
  generalize (refreshReleaseState env p v db).2 = db' at hrefreshed ⊢
  have haccepts : (∀ r, db.findRelease p v = some r →
      r.status = .released → (verdictOf env p v (db.load r) db).passes = true) →
      refuses env p v db = false := by
    intro h
    apply eq_false_of_ne_true
    intro hrefuses
    obtain ⟨loaded, hload, hof⟩ := (Option.any_eq_true _ _).mp hrefuses
    obtain ⟨hfind, hloaded⟩ := UploadDb.getReleaseEntity_some hload
    rw [Bool.and_eq_true, beq_iff_eq] at hof
    have hpasses := h loaded.release hfind hof.1
    rw [← hloaded] at hpasses
    rw [hpasses] at hof
    cases hof.2
  cases hrefreshed with
  | skipped hskip =>
      refine .inl ⟨rfl, haccepts fun r hfind hreleased => ?_⟩
      have hterminal := hskip r hfind
      rw [hreleased] at hterminal
      cases hterminal
  | kept r hfind hdecide =>
      refine .inl ⟨standings_sees.beforeStatus p v _ db, haccepts fun r' hfind' hreleased => ?_⟩
      obtain rfl := Option.some.inj (hfind.symm.trans hfind')
      exact (decideStatus_none hdecide).1 hreleased
  | moved r status hfind hlive hdecide => exact .inr ⟨db.load r, status, hdecide, rfl⟩

/-- **Main result.** A refresh keeps right flags right, and makes those of its project right
where it takes the release out of `RELEASED`. -/
theorem refreshReleaseState_latest (hdb : db.Constraints) {p : ℕ} {v : String}
    (hother : ∀ q, q ≠ p → LatestOf q db.standings)
    (hown : LatestOf p db.standings ∨ refuses env p v db = true) (q : ℕ) :
    LatestOf q (refreshReleaseState env p v db).2.standings := by
  rcases @refreshReleaseState_ends env db hdb p v with ⟨hsame, haccepts⟩ | ⟨loaded, status, -, hends⟩
  · rw [hsame]
    by_cases hq : q = p
    · rw [hq]
      exact hown.resolve_right (by rw [haccepts]; exact Bool.false_ne_true)
    · exact hother q hq
  · rw [hends]
    apply afterChange_latest (beforeStatus_constraints hdb p v loaded)
    intro q' hq'
    rw [standings_sees.beforeStatus p v loaded db]
    exact hother q' hq'

/-! ### Places in the order -/

/-- The standing with room made at the place. -/
def shifted (n : ℕ) (x : Standing) : Standing :=
  { x with sortOrder := if n ≤ x.sortOrder then x.sortOrder + 1 else x.sortOrder }

/-- What an insert does to the standings: the new one comes last, at its place. -/
theorem insertRelease_standings {semver : SemverLib} {projects : List Project} {row inserted : Release}
    {releases rows : List Release}
    (h : insertRelease semver projects row releases = some (inserted, rows)) :
    (semver.valid row.version = false ∧
      rows.map Release.standing = releases.map Release.standing ++ [inserted.standing]) ∨
    (semver.valid row.version = true ∧ ∃ n, 0 < n ∧
      rows.map Release.standing = (releases.map Release.standing).map (shifted n) ++
        [{ inserted.standing with sortOrder := n }]) := by
  have hversion : inserted.version = row.version := by
    rw [(insertRelease_some h).1]
    rfl
  rw [← hversion]
  rcases insertRelease_rows h with ⟨hvalid, rfl⟩ | ⟨hvalid, rfl⟩
  · exact .inl ⟨hvalid, by rw [List.map_append]; rfl⟩
  · refine .inr ⟨hvalid, _, newSortOrder_pos semver inserted (releases ++ [inserted]), ?_⟩
    rw [List.map_append, List.map_map, List.map_map]
    rfl

/-- Some row stands so after an insert, if one did before or the new one does. -/
theorem exists_standing_insert {semver : SemverLib} {projects : List Project}
    {row inserted : Release} {releases rows : List Release}
    (h : insertRelease semver projects row releases = some (inserted, rows))
    {P : Standing → Prop} (hP : ∀ x n, P { x with sortOrder := n } ↔ P x) :
    (∃ x ∈ rows.map Release.standing, P x) ↔
      (∃ x ∈ releases.map Release.standing, P x) ∨ P inserted.standing := by
  rcases insertRelease_standings h with ⟨-, hrows⟩ | ⟨-, n, -, hrows⟩
  · rw [hrows]
    simp only [List.mem_append, List.mem_singleton, or_and_right, exists_or, exists_eq_left]
  · rw [hrows]
    simp only [List.mem_append, List.mem_singleton, or_and_right, exists_or, exists_eq_left, hP]
    apply or_congr_left
    constructor
    · rintro ⟨x, hx, hPx⟩
      obtain ⟨y, hy, rfl⟩ := List.mem_map.mp hx
      exact ⟨y, hy, (hP y _).mp hPx⟩
    · rintro ⟨y, hy, hPy⟩
      exact ⟨shifted n y, List.mem_map_of_mem hy, (hP y _).mpr hPy⟩

theorem LatestOf.insert {p : ℕ} (h : LatestOf p db.standings) {semver : SemverLib}
    {row inserted : Release} {rows : List Release}
    (hins : insertRelease semver db.projects row db.releases = some (inserted, rows))
    (hlatest : row.latest = false)
    (hc : row.projectId = p → row.status = .released → ∀ x ∈ rows.map Release.standing,
      x.projectId = row.projectId → x.version = row.version → x.status = row.status →
        Leader.Behind (IsLatestOf p) Standing.sortOrder (rows.map Release.standing) x.sortOrder) :
    LatestOf p (rows.map Release.standing) := by
  obtain ⟨hrow, -, -⟩ := insertRelease_some hins
  have hunmarked : ∀ n, ¬ IsLatestOf p { inserted.standing with sortOrder := n } := by
    rintro n ⟨-, hl⟩
    rw [hrow] at hl
    exact Bool.false_ne_true (hlatest.symm.trans hl)
  -- the new row is behind a flag, which is not its own
  have happend : ∀ old n, LatestOf p old →
      rows.map Release.standing = old ++ [{ inserted.standing with sortOrder := n }] →
      LatestOf p (rows.map Release.standing) := by
    intro old n hold hrows
    rw [hrows]
    apply Leader.Marks.append hold (hunmarked n)
    have hnew : { inserted.standing with sortOrder := n } ∈ rows.map Release.standing := by
      rw [hrows]
      simp
    rintro ⟨hp, hs⟩
    rw [hrow] at hp hs
    obtain ⟨l, hl, hm, hle⟩ := hc hp hs _ hnew (by rw [hrow]; rfl) (by rw [hrow]; rfl)
      (by rw [hrow]; rfl)
    rw [hrows] at hl
    rcases List.mem_append.mp hl with hl | hl
    · exact ⟨l, hl, hm, hle⟩
    · rw [List.mem_singleton.mp hl] at hm
      exact absurd hm (hunmarked n)
  rcases insertRelease_standings hins with ⟨-, hrows⟩ | ⟨-, n, -, hrows⟩
  · exact happend _ inserted.sortOrder h hrows
  · refine happend _ n ?_ hrows
    apply Leader.Marks.map h fun m => if n ≤ m then m + 1 else m
    · intro a b hab
      dsimp only
      split
      · split
        · omega
        · omega
      · split
        · omega
        · omega
    · exact fun x _ => rfl
    · exact fun x _ => Iff.rfl
    · exact fun x hx hm => h.candidate x hx hm
    · exact fun x hx hx' => h.behind hx hx'

/-- Releases of one project have different places. -/
structure Placed (semver : SemverLib) (rows : List Standing) : Prop where
  positive : ∀ x ∈ rows, semver.valid x.version = true → 0 < x.sortOrder
  distinct : ∀ x ∈ rows, ∀ y ∈ rows, 0 < x.sortOrder → x.sortOrder = y.sortOrder →
    x.catalogId = y.catalogId
  /-- at most one version of a project is no version for the package -/
  sole : ∀ x ∈ rows, ∀ y ∈ rows, x.projectId = y.projectId → semver.valid x.version = false →
    semver.valid y.version = false → x.catalogId = y.catalogId

namespace Placed

variable {semver : SemverLib} {rows rows' : List Standing}

theorem eq (h : Placed semver rows) {x y : Standing} (hx : x ∈ rows) (hy : y ∈ rows)
    (hp : x.projectId = y.projectId) (hplace : x.sortOrder = y.sortOrder) :
    x.catalogId = y.catalogId := by
  by_cases hpos : 0 < x.sortOrder
  · exact h.distinct x hx y hy hpos hplace
  · have hinvalid : ∀ z ∈ rows, z.sortOrder = x.sortOrder → semver.valid z.version = false := by
      intro z hz heq
      apply eq_false_of_ne_true
      intro hvalid
      have hzpos := h.positive z hz hvalid
      omega
    exact h.sole x hx y hy hp (hinvalid x hx rfl) (hinvalid y hy hplace.symm)

/-- Rows may go, and other columns may change. -/
theorem of_rows (h : Placed semver rows) (hrows : ∀ x' ∈ rows', ∃ x ∈ rows,
    x.catalogId = x'.catalogId ∧ x.projectId = x'.projectId ∧ x.version = x'.version ∧
      x.sortOrder = x'.sortOrder) : Placed semver rows' where
  positive := by
    intro x' hx' hvalid
    obtain ⟨x, hx, -, -, hv, hs⟩ := hrows x' hx'
    rw [← hs]
    exact h.positive x hx (hv ▸ hvalid)
  distinct := by
    intro x' hx' y' hy' hpos heq
    obtain ⟨x, hx, hxc, -, -, hxs⟩ := hrows x' hx'
    obtain ⟨y, hy, hyc, -, -, hys⟩ := hrows y' hy'
    rw [← hxc, ← hyc]
    exact h.distinct x hx y hy (hxs ▸ hpos) (by rw [hxs, hys, heq])
  sole := by
    intro x' hx' y' hy' hp hxv hyv
    obtain ⟨x, hx, hxc, hxp, hxver, -⟩ := hrows x' hx'
    obtain ⟨y, hy, hyc, hyp, hyver, -⟩ := hrows y' hy'
    rw [← hxc, ← hyc]
    exact h.sole x hx y hy (by rw [hxp, hyp, hp]) (hxver ▸ hxv) (hyver ▸ hyv)

theorem updateWhere (h : Placed semver rows) {q : Standing → Bool} {f : Standing → Standing}
    (hf : ∀ x, (f x).catalogId = x.catalogId ∧ (f x).projectId = x.projectId ∧
      (f x).version = x.version ∧ (f x).sortOrder = x.sortOrder) :
    Placed semver (Rows.updateWhere q f rows) := by
  apply h.of_rows
  intro x' hx'
  rcases Rows.mem_updateWhere.mp hx' with ⟨x, hx, -, rfl⟩ | ⟨hx, -⟩
  · obtain ⟨hc, hp, hv, hs⟩ := hf x
    exact ⟨x, hx, hc.symm, hp.symm, hv.symm, hs.symm⟩
  · exact ⟨x', hx, rfl, rfl, rfl, rfl⟩

/-- The new version is one for the package, or the first of the project that is not. -/
def Fits (semver : SemverLib) (p : ℕ) (v : String) (db : UploadDb) : Prop :=
  semver.valid v = true ∨ ∀ x ∈ db.standings, x.projectId = p → semver.valid x.version = true

instance (semver : SemverLib) (p : ℕ) (v : String) (db : UploadDb) :
    Decidable (Fits semver p v db) :=
  inferInstanceAs (Decidable (_ ∨ _))

/-- **Main result.** A new row gets a place of its own in its project. -/
theorem insert (h : Placed semver db.standings) {row inserted : Release} {rows : List Release}
    (hins : insertRelease semver db.projects row db.releases = some (inserted, rows))
    (hplace : row.sortOrder = 0) (hfits : Fits semver row.projectId row.version db) :
    Placed semver (rows.map Release.standing) := by
  obtain ⟨hrow, -, -⟩ := insertRelease_some hins
  have hproject : inserted.projectId = row.projectId := by rw [hrow]; rfl
  have hversion : inserted.version = row.version := by rw [hrow]; rfl
  have horder : inserted.sortOrder = 0 := by rw [hrow]; exact hplace
  rcases insertRelease_standings hins with ⟨hinvalid, hrows⟩ | ⟨hvalid, n, hn, hrows⟩
  · have hothers := hfits.resolve_left (by simp [hinvalid])
    rw [hrows]
    have hnew : ∀ x ∈ db.standings ++ [inserted.standing], x ∈ db.standings ∨
        x = inserted.standing := by
      intro x hx
      simpa using hx
    refine ⟨?_, ?_, ?_⟩
    · intro x hx hv
      rcases hnew x hx with hx | rfl
      · exact h.positive x hx hv
      · rw [Release.standing_version, hversion, hinvalid] at hv
        cases hv
    · intro x hx y hy hpos heq
      rcases hnew x hx with hx | rfl
      · rcases hnew y hy with hy | rfl
        · exact h.distinct x hx y hy hpos heq
        · rw [Release.standing_sortOrder, horder] at heq
          omega
      · rw [Release.standing_sortOrder, horder] at hpos
        omega
    · intro x hx y hy hp hxv hyv
      rcases hnew x hx with hx | rfl
      · rcases hnew y hy with hy | rfl
        · exact h.sole x hx y hy hp hxv hyv
        · have hxvalid := hothers x hx (hp.trans hproject)
          rw [hxvalid] at hxv
          cases hxv
      · rcases hnew y hy with hy | rfl
        · have hyvalid := hothers y hy (hp.symm.trans hproject)
          rw [hyvalid] at hyv
          cases hyv
        · rfl
  · rw [hrows]
    have hcases : ∀ x ∈ db.standings.map (shifted n) ++ [{ inserted.standing with sortOrder := n }],
        (∃ y ∈ db.standings, x = shifted n y) ∨ x = { inserted.standing with sortOrder := n } := by
      intro x hx
      rcases List.mem_append.mp hx with hx | hx
      · obtain ⟨y, hy, rfl⟩ := List.mem_map.mp hx
        exact .inl ⟨y, hy, rfl⟩
      · exact .inr (List.mem_singleton.mp hx)
    have hmoved : ∀ y : Standing, (shifted n y).sortOrder ≠ n ∧
        (0 < (shifted n y).sortOrder → 0 < y.sortOrder) ∧ y.sortOrder ≤ (shifted n y).sortOrder := by
      intro y
      show (if n ≤ y.sortOrder then y.sortOrder + 1 else y.sortOrder) ≠ n ∧ _
      by_cases hle : n ≤ y.sortOrder
      · simp only [shifted, hle, if_true]
        omega
      · simp only [shifted, hle, if_false]
        omega
    have hvalidInserted : semver.valid inserted.version ≠ false := by
      rw [hversion, hvalid]
      exact Bool.noConfusion
    refine ⟨?_, ?_, ?_⟩
    · intro x hx hv
      rcases hcases x hx with ⟨y, hy, rfl⟩ | rfl
      · have hpos := h.positive y hy hv
        have hle := (hmoved y).2.2
        omega
      · exact hn
    · intro x hx y hy hpos heq
      rcases hcases x hx with ⟨x₀, hx₀, rfl⟩ | rfl
      · rcases hcases y hy with ⟨y₀, hy₀, rfl⟩ | rfl
        · apply h.distinct x₀ hx₀ y₀ hy₀ ((hmoved x₀).2.1 hpos)
          by_cases hxn : n ≤ x₀.sortOrder
          · by_cases hyn : n ≤ y₀.sortOrder
            · simpa [shifted, hxn, hyn] using heq
            · simp only [shifted, hxn, hyn, if_true, if_false] at heq
              omega
          · by_cases hyn : n ≤ y₀.sortOrder
            · simp only [shifted, hxn, hyn, if_true, if_false] at heq
              omega
            · simpa [shifted, hxn, hyn] using heq
        · exact absurd heq (hmoved x₀).1
      · rcases hcases y hy with ⟨y₀, hy₀, rfl⟩ | rfl
        · exact absurd heq.symm (hmoved y₀).1
        · rfl
    · intro x hx y hy hp hxv hyv
      rcases hcases x hx with ⟨x₀, hx₀, rfl⟩ | rfl
      · rcases hcases y hy with ⟨y₀, hy₀, rfl⟩ | rfl
        · exact h.sole x₀ hx₀ y₀ hy₀ hp hxv hyv
        · exact absurd hyv hvalidInserted
      · exact absurd hxv hvalidInserted

end Placed

end UploadService
