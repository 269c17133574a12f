import UploadService.Lib.Runs
import UploadService.Release.Subscriber

/-!
# The order of the releases

Every insert of a release with a valid version gives the new row a place in the sort order, one
past its predecessor in the project, and moves all rows from that place on, of every project. A
delete leaves a gap.

A move keeps the order of all rows, so that the places of each project stay in the order of its
versions: `Ranked` is the invariant of the whole table.

Main results:

- `newSortOrder_between`: the new place lies between the smaller and the greater versions;
- `Ranked.insertRelease`, `Ranked.deleteWhere`: what one step keeps;
- `sort_order_follows_versions`: the order of every project after every run.
-/

namespace UploadService

/-! ### The package -/

/-- What `semver` is relied on for: on valid versions, `compare` is an order of precedence. -/
structure SemverLib.Precedence (semver : SemverLib) : Prop where
  swap : ∀ v w, semver.valid v = true → semver.valid w = true →
    semver.compare w v = (semver.compare v w).swap
  trans : ∀ u v w, semver.valid u = true → semver.valid v = true → semver.valid w = true →
    semver.compare u v ≠ .gt → semver.compare v w ≠ .gt → semver.compare u w ≠ .gt

namespace SemverLib.Precedence

variable {semver : SemverLib} {u v w : String}

theorem gt_of_lt (h : semver.Precedence) (hv : semver.valid v = true) (hw : semver.valid w = true)
    (hvw : semver.compare v w = .lt) : semver.compare w v = .gt := by
  rw [h.swap v w hv hw, hvw]
  rfl

theorem le_or_ge (h : semver.Precedence) (hv : semver.valid v = true) (hw : semver.valid w = true) :
    semver.compare v w ≠ .gt ∨ semver.compare w v ≠ .gt := by
  rw [h.swap v w hv hw]
  cases semver.compare v w with
  | lt => exact .inl nofun
  | eq => exact .inl nofun
  | gt => exact .inr nofun

/-- A version that precedes or equals one before a third comes before the third. -/
theorem lt_of_le_of_lt (h : semver.Precedence) (hu : semver.valid u = true)
    (hv : semver.valid v = true) (hw : semver.valid w = true) (huv : semver.compare u v ≠ .gt)
    (hvw : semver.compare v w = .lt) : semver.compare u w = .lt := by
  have huw : semver.compare u w ≠ .gt := h.trans u v w hu hv hw huv (by rw [hvw]; nofun)
  have hne : semver.compare u w ≠ .eq := by
    intro heq
    have hwu : semver.compare w u ≠ .gt := by
      rw [h.swap u w hu hw, heq]
      nofun
    exact h.trans w u v hw hu hv hwu huv (h.gt_of_lt hv hw hvw)
  cases hcompare : semver.compare u w with
  | lt => rfl
  | eq => exact absurd hcompare hne
  | gt => exact absurd hcompare huw

end SemverLib.Precedence

/-! ### The invariant -/

/-- The places of the valid releases: each has one, and within a project they are distinct and
in the order of the versions. -/
structure Ranked (semver : SemverLib) (releases : List Release) : Prop where
  versions : Rows.KeysDistinct (fun r : Release => (r.projectId, r.version)) releases
  positive : ∀ r ∈ releases, semver.valid r.version = true → 0 < r.sortOrder
  ordered : ∀ a ∈ releases, ∀ b ∈ releases, a.projectId = b.projectId →
    semver.valid a.version = true → semver.valid b.version = true →
    semver.compare a.version b.version = .lt → a.sortOrder < b.sortOrder
  distinct : ∀ a ∈ releases, ∀ b ∈ releases, a.projectId = b.projectId →
    semver.valid a.version = true → semver.valid b.version = true →
    a.sortOrder = b.sortOrder → a = b

theorem ranked_nil (semver : SemverLib) : Ranked semver [] where
  versions := List.nodup_nil
  positive := by simp
  ordered := by simp
  distinct := by simp

namespace ReleaseSubscriber

variable {semver : SemverLib} {releases : List Release}

theorem mem_semverReleases {projectId : ℕ} {r : Release} :
    r ∈ semverReleases semver projectId releases ↔
      r ∈ releases ∧ r.projectId = projectId ∧ semver.valid r.version = true := by
  unfold semverReleases
  rw [List.mem_insertionSort, List.mem_filter, List.mem_insertionSort, List.mem_filter, and_assoc,
    beq_iff_eq]

/-- The valid releases of a project stand in version order, those of one precedence in sort
order. -/
theorem semverReleases_pairwise (h : semver.Precedence) (projectId : ℕ) :
    (semverReleases semver projectId releases).Pairwise fun a b =>
      semver.compare a.version b.version ≠ .gt ∧
        (semver.compare b.version a.version ≠ .gt → a.sortOrder ≤ b.sortOrder) := by
  unfold semverReleases
  have hsorted : ((releases.filter fun r => r.projectId == projectId).insertionSort
      fun a b => a.sortOrder ≤ b.sortOrder).Pairwise fun a b => a.sortOrder ≤ b.sortOrder := by
    apply (Rows.pairwise_insertionSort (t := fun _ _ => True) _ _ _).imp And.left
    · exact fun a _ b _ => Nat.le_total a.sortOrder b.sortOrder
    · exact fun a _ b _ c _ => Nat.le_trans
    · exact List.pairwise_of_forall fun _ _ => trivial
  have hvalid : ∀ {r}, r ∈ ((releases.filter fun r => r.projectId == projectId).insertionSort
      fun a b => a.sortOrder ≤ b.sortOrder).filter (fun r => semver.valid r.version) →
      semver.valid r.version = true := fun hr => (List.mem_filter.mp hr).2
  apply Rows.pairwise_insertionSort
  · exact fun a ha b hb => h.le_or_ge (hvalid ha) (hvalid hb)
  · exact fun a ha b hb c hc => h.trans _ _ _ (hvalid ha) (hvalid hb) (hvalid hc)
  · exact hsorted.filter _

/-- The place after the predecessor, or the first. -/
theorem newSortOrder_eq {row : Release} {pre post : List Release}
    (h : semverReleases semver row.projectId releases = pre ++ row :: post)
    (hpre : ∀ x ∈ pre, x.version ≠ row.version) :
    newSortOrder semver row releases = (pre.getLast?.map (·.sortOrder + 1)).getD 1 := by
  have hindex : (pre ++ row :: post).findIdx (fun r => r.version == row.version) = pre.length := by
    have hnone : pre.findIdx (fun r => r.version == row.version) = pre.length := by
      rw [List.findIdx_eq_length]
      exact fun x hx => by simpa using hpre x hx
    rw [List.findIdx_append, hnone, if_neg (by omega), List.findIdx_cons]
    simp
  unfold newSortOrder
  dsimp only
  rw [h, hindex]
  rcases List.eq_nil_or_concat pre with rfl | ⟨init, prev, rfl⟩
  · rfl
  · rw [List.concat_eq_append, List.length_append, List.length_singleton]
    simp

/-- **Main result.** The place of a new row lies past those of the smaller versions of its
project, and not past those of the greater ones. -/
theorem newSortOrder_between (h : semver.Precedence) {row : Release}
    (hvalid : semver.valid row.version = true) (hrows : Ranked semver releases)
    (hfresh : ∀ r ∈ releases, (r.projectId, r.version) ≠ (row.projectId, row.version)) :
    ∀ r ∈ releases, r.projectId = row.projectId → semver.valid r.version = true →
      (semver.compare r.version row.version = .lt →
        r.sortOrder < newSortOrder semver row (releases ++ [row])) ∧
      (semver.compare row.version r.version = .lt →
        newSortOrder semver row (releases ++ [row]) ≤ r.sortOrder) := by
  have hmem : ∀ {x}, x ∈ semverReleases semver row.projectId (releases ++ [row]) → x ≠ row →
      x ∈ releases ∧ x.projectId = row.projectId ∧ semver.valid x.version = true := by
    intro x hx hne
    obtain ⟨hin, hp, hv⟩ := mem_semverReleases.mp hx
    rcases List.mem_append.mp hin with hin | hin
    · exact ⟨hin, hp, hv⟩
    · exact absurd (List.mem_singleton.mp hin) hne
  -- the new row is the only one of its version
  have hfound : ∃ pre post, semverReleases semver row.projectId (releases ++ [row]) =
      pre ++ row :: post ∧ ∀ x ∈ pre, x.version ≠ row.version := by
    have hrow : row ∈ semverReleases semver row.projectId (releases ++ [row]) :=
      mem_semverReleases.mpr ⟨by simp, rfl, hvalid⟩
    obtain ⟨x, hx⟩ : ∃ x, (semverReleases semver row.projectId (releases ++ [row])).find?
        (fun r => r.version == row.version) = some x := by
      rw [← Option.isSome_iff_exists, List.find?_isSome]
      exact ⟨row, hrow, by simp⟩
    obtain ⟨hversion, pre, post, hsplit, hpre⟩ := List.find?_eq_some_iff_append.mp hx
    obtain rfl : x = row := by
      by_contra hne
      obtain ⟨hin, hp, -⟩ := hmem (List.mem_of_find?_eq_some hx) hne
      exact hfresh x hin (by rw [hp, beq_iff_eq.mp hversion])
    exact ⟨pre, post, hsplit, fun y hy => by simpa using hpre y hy⟩
  obtain ⟨pre, post, hsplit, hpre⟩ := hfound
  have hpairwise := @semverReleases_pairwise semver (releases ++ [row]) h row.projectId
  rw [hsplit] at hpairwise
  rw [hsplit] at hmem
  rw [newSortOrder_eq hsplit hpre]
  obtain ⟨hpairs, hrest, hcross⟩ := List.pairwise_append.mp hpairwise
  have hafter := (List.pairwise_cons.mp hrest).1
  intro r hr hp hv
  have hside : r ∈ pre ∨ r ∈ post := by
    have hin : r ∈ semverReleases semver row.projectId (releases ++ [row]) :=
      mem_semverReleases.mpr ⟨by simp [hr], hp, hv⟩
    rw [hsplit, List.mem_append, List.mem_cons] at hin
    rcases hin with hin | rfl | hin
    · exact .inl hin
    · exact absurd rfl (hfresh r hr)
    · exact .inr hin
  constructor
  · intro hlt
    have hin : r ∈ pre := by
      apply hside.resolve_right
      exact fun hpost => (hafter r hpost).1 (h.gt_of_lt hv hvalid hlt)
    rcases List.eq_nil_or_concat pre with rfl | ⟨init, prev, rfl⟩
    · cases hin
    · rw [List.concat_eq_append] at hin hpairs hmem hpre ⊢
      rw [List.getLast?_concat, Option.map_some, Option.getD_some]
      apply Nat.lt_succ_of_le
      rcases List.mem_append.mp hin with hinit | hlast
      · -- a row before the predecessor
        obtain ⟨hle, htie⟩ := (List.pairwise_append.mp hpairs).2.2 r hinit prev (by simp)
        have hprev : prev ≠ row := fun heq => hpre prev (by simp) (by rw [heq])
        obtain ⟨hprevIn, hprevProject, hprevValid⟩ := hmem (x := prev) (by simp) hprev
        cases hcompare : semver.compare r.version prev.version with
        | lt => exact (hrows.ordered r hr prev hprevIn (hp.trans hprevProject.symm) hv hprevValid
            hcompare).le
        | eq =>
            apply htie
            rw [h.swap _ _ hv hprevValid, hcompare]
            nofun
        | gt => exact absurd hcompare hle
      · rw [List.mem_singleton.mp hlast]
  · intro hlt
    rcases List.eq_nil_or_concat pre with rfl | ⟨init, prev, rfl⟩
    · exact hrows.positive r hr hv
    · rw [List.concat_eq_append] at hcross hmem hpre ⊢
      rw [List.getLast?_concat, Option.map_some, Option.getD_some]
      have hprev : prev ≠ row := fun heq => hpre prev (by simp) (by rw [heq])
      obtain ⟨hprevIn, hprevProject, hprevValid⟩ := hmem (x := prev) (by simp) hprev
      have hle := (hcross prev (by simp) row (by simp)).1
      exact hrows.ordered prev hprevIn r hr (hprevProject.trans hp.symm) hprevValid hv
        (h.lt_of_le_of_lt hprevValid hvalid hv hle hlt)

end ReleaseSubscriber

/-! ### Steps -/

theorem moved_lt_moved {n : ℕ} {a b : Release} :
    (moved n a).sortOrder < (moved n b).sortOrder ↔ a.sortOrder < b.sortOrder := by
  unfold moved
  dsimp only
  split <;> split <;> omega

theorem moved_ne (n : ℕ) (r : Release) : (moved n r).sortOrder ≠ n := by
  unfold moved
  dsimp only
  split <;> omega

namespace Ranked

variable {semver : SemverLib} {releases : List Release}

/-- **Step.** An insert; the new row has no place before it. -/
theorem insertRelease (h : semver.Precedence) (hrows : Ranked semver releases)
    {projects : List Project} {release inserted : Release} {rows : List Release}
    (hinsert : UploadService.insertRelease semver projects release releases = some (inserted, rows)) :
    Ranked semver rows := by
  have hfresh := insertRelease_fresh hinsert
  have hversions : Rows.KeysDistinct (fun r : Release => (r.projectId, r.version)) rows := by
    have hkeys : rows.map (fun r : Release => (r.projectId, r.version)) =
        (releases ++ [inserted]).map fun r => (r.projectId, r.version) := by
      have hall := congrArg (List.map fun k : ℕ × String × String => (k.1, k.2.1))
        (insertRelease_keys hinsert)
      rw [List.map_map, List.map_map] at hall
      exact hall
    unfold Rows.KeysDistinct
    rw [hkeys]
    exact hrows.versions.append_new hfresh
  rcases insertRelease_rows hinsert with ⟨hvalid, rfl⟩ | ⟨hvalid, rfl⟩
  · -- the new row is not valid, so that it stands beside the order
    have hold : ∀ r ∈ releases ++ [inserted], semver.valid r.version = true → r ∈ releases := by
      intro r hr hv
      rcases List.mem_append.mp hr with hr | hr
      · exact hr
      · rw [List.mem_singleton.mp hr, hvalid] at hv
        cases hv
    exact {
      versions := hversions
      positive := fun r hr hv => hrows.positive r (hold r hr hv) hv
      ordered := fun a ha b hb hp hva hvb =>
        hrows.ordered a (hold a ha hva) b (hold b hb hvb) hp hva hvb
      distinct := fun a ha b hb hp hva hvb =>
        hrows.distinct a (hold a ha hva) b (hold b hb hvb) hp hva hvb }
  · have hbetween := ReleaseSubscriber.newSortOrder_between h hvalid hrows hfresh
    have hpos := newSortOrder_pos semver inserted (releases ++ [inserted])
    generalize ReleaseSubscriber.newSortOrder semver inserted (releases ++ [inserted]) = n at *
    -- a row is a moved old one or the new one
    have hcases : ∀ {r}, r ∈ releases.map (moved n) ++ [{ inserted with sortOrder := n }] →
        (∃ x ∈ releases, r = moved n x) ∨ r = { inserted with sortOrder := n } := by
      intro r hr
      rcases List.mem_append.mp hr with hr | hr
      · obtain ⟨x, hx, rfl⟩ := List.mem_map.mp hr
        exact .inl ⟨x, hx, rfl⟩
      · exact .inr (List.mem_singleton.mp hr)
    exact {
      versions := hversions
      positive := by
        intro r hr hv
        rcases hcases hr with ⟨x, hx, rfl⟩ | rfl
        · have hx0 := hrows.positive x hx hv
          unfold moved
          dsimp only
          split <;> omega
        · exact hpos
      ordered := by
        intro a ha b hb hp hva hvb hlt
        rcases hcases ha with ⟨x, hx, rfl⟩ | rfl
        · rcases hcases hb with ⟨y, hy, rfl⟩ | rfl
          · exact moved_lt_moved.mpr (hrows.ordered x hx y hy hp hva hvb hlt)
          · have hbelow := (hbetween x hx hp hva).1 hlt
            unfold moved
            dsimp only
            rw [if_neg (by omega)]
            exact hbelow
        · rcases hcases hb with ⟨y, hy, rfl⟩ | rfl
          · have habove := (hbetween y hy hp.symm hvb).2 hlt
            unfold moved
            dsimp only
            rw [if_pos habove]
            omega
          · rw [h.gt_of_lt hva hvb hlt] at hlt
            cases hlt
      distinct := by
        intro a ha b hb hp hva hvb heq
        rcases hcases ha with ⟨x, hx, rfl⟩ | rfl
        · rcases hcases hb with ⟨y, hy, rfl⟩ | rfl
          · have hsame : x.sortOrder = y.sortOrder := by
              apply Nat.le_antisymm
              · exact Nat.le_of_not_lt fun hlt => (moved_lt_moved.mpr hlt).ne' heq
              · exact Nat.le_of_not_lt fun hlt => (moved_lt_moved.mpr hlt).ne heq
            rw [hrows.distinct x hx y hy hp hva hvb hsame]
          · exact absurd heq (moved_ne n x)
        · rcases hcases hb with ⟨y, hy, rfl⟩ | rfl
          · exact absurd heq.symm (moved_ne n y)
          · rfl }

/-- **Step.** A delete leaves a gap. -/
theorem deleteWhere (hrows : Ranked semver releases) (p : Release → Bool) :
    Ranked semver (Rows.deleteWhere p releases) where
  versions := hrows.versions.sublist (Rows.deleteWhere_sublist p releases)
  positive := fun r hr => hrows.positive r (Rows.mem_deleteWhere.mp hr).1
  ordered := fun a ha b hb =>
    hrows.ordered a (Rows.mem_deleteWhere.mp ha).1 b (Rows.mem_deleteWhere.mp hb).1
  distinct := fun a ha b hb =>
    hrows.distinct a (Rows.mem_deleteWhere.mp ha).1 b (Rows.mem_deleteWhere.mp hb).1

end Ranked

/-! ### Runs -/

/-- A statement on the release table. -/
inductive ReleaseEvent where
  /-- a new row, with the projects of the moment; its sort order is the column's default -/
  | insert (projects : List Project) (release : Release)
  | delete (catalogId : String)

/-- One statement. An insert that a key refuses changes nothing. -/
def ReleaseEvent.step (semver : SemverLib) (releases : List Release) : ReleaseEvent → List Release
  | insert projects release =>
      match insertRelease semver projects { release with sortOrder := 0 } releases with
      | none => releases
      | some (_, rows) => rows
  | delete catalogId => Rows.deleteWhere (fun r => r.catalogId == catalogId) releases

/-- The releases of the project with a valid version. -/
def validReleases (semver : SemverLib) (projectId : ℕ) (releases : List Release) : List Release :=
  releases.filter fun r => r.projectId == projectId && semver.valid r.version

/-- The sort order of the project is the order of its versions. -/
structure FollowsVersions (semver : SemverLib) (projectId : ℕ) (releases : List Release) : Prop where
  distinct : Rows.KeysDistinct Release.sortOrder (validReleases semver projectId releases)
  ordered : ∀ a ∈ validReleases semver projectId releases,
    ∀ b ∈ validReleases semver projectId releases,
    semver.compare a.version b.version = .lt → a.sortOrder < b.sortOrder
  /-- the greatest sort order is that of a newest version -/
  newest : ∀ a ∈ validReleases semver projectId releases,
    (∀ b ∈ validReleases semver projectId releases, b.sortOrder ≤ a.sortOrder) →
    ∀ b ∈ validReleases semver projectId releases, semver.compare a.version b.version ≠ .lt

theorem mem_validReleases {semver : SemverLib} {projectId : ℕ} {releases : List Release} {r : Release} :
    r ∈ validReleases semver projectId releases ↔
      r ∈ releases ∧ r.projectId = projectId ∧ semver.valid r.version = true := by
  unfold validReleases
  rw [List.mem_filter, Bool.and_eq_true, beq_iff_eq]

theorem Ranked.followsVersions {semver : SemverLib} {releases : List Release}
    (h : Ranked semver releases) (projectId : ℕ) : FollowsVersions semver projectId releases := by
  have hordered : ∀ a ∈ validReleases semver projectId releases,
      ∀ b ∈ validReleases semver projectId releases,
      semver.compare a.version b.version = .lt → a.sortOrder < b.sortOrder := by
    intro a ha b hb
    obtain ⟨ha, hpa, hva⟩ := mem_validReleases.mp ha
    obtain ⟨hb, hpb, hvb⟩ := mem_validReleases.mp hb
    exact h.ordered a ha b hb (hpa.trans hpb.symm) hva hvb
  refine ⟨?_, hordered, fun a ha hgreatest b hb hlt => ?_⟩
  · have hnodup : (validReleases semver projectId releases).Nodup :=
      (List.Nodup.of_map _ h.versions).sublist (List.filter_sublist)
    apply List.Nodup.map_on _ hnodup
    intro a ha b hb
    obtain ⟨ha, hpa, hva⟩ := mem_validReleases.mp ha
    obtain ⟨hb, hpb, hvb⟩ := mem_validReleases.mp hb
    exact h.distinct a ha b hb (hpa.trans hpb.symm) hva hvb
  · have habove := hordered a ha b hb hlt
    have hbelow := hgreatest b hb
    omega

/-- **Main result.** After every run of inserts and deletes from an empty table, the sort order
of every project is the order of its versions. -/
theorem sort_order_follows_versions (semver : SemverLib) (hsemver : semver.Precedence)
    (es : List ReleaseEvent) (projectId : ℕ) :
    FollowsVersions semver projectId (Runs.run (ReleaseEvent.step semver) [] es) := by
  apply Ranked.followsVersions
  apply Runs.invariant_run _ (ranked_nil semver)
  intro releases e hrows
  cases e with
  | insert projects release =>
      unfold ReleaseEvent.step
      dsimp only
      split
      · exact hrows
      · rename_i inserted rows hinsert
        exact hrows.insertRelease hsemver hinsert
  | delete catalogId => exact hrows.deleteWhere _

/-! ### Versions of three numbers -/

theorem then_ne_gt {o p : Ordering} : o.then p ≠ .gt ↔ o = .lt ∨ o = .eq ∧ p ≠ .gt := by
  cases o <;> cases p <;> decide

/-- The versions of three numbers are ordered by their first, second and third number. -/
theorem plainSemver_precedence : plainSemver.Precedence where
  swap := by
    intro v w hv hw
    obtain ⟨⟨a, b, c⟩, hv⟩ := Option.isSome_iff_exists.mp hv
    obtain ⟨⟨d, e, f⟩, hw⟩ := Option.isSome_iff_exists.mp hw
    unfold plainSemver
    dsimp only
    rw [hv, hw]
    dsimp only
    rw [Ordering.swap_then, Ordering.swap_then, Nat.compare_swap, Nat.compare_swap, Nat.compare_swap]
  trans := by
    intro u v w hu hv hw
    obtain ⟨⟨a, b, c⟩, hu⟩ := Option.isSome_iff_exists.mp hu
    obtain ⟨⟨d, e, f⟩, hv⟩ := Option.isSome_iff_exists.mp hv
    obtain ⟨⟨g, i, j⟩, hw⟩ := Option.isSome_iff_exists.mp hw
    unfold plainSemver
    dsimp only
    rw [hu, hv, hw]
    dsimp only
    rw [then_ne_gt, then_ne_gt, then_ne_gt, then_ne_gt, then_ne_gt, then_ne_gt]
    simp only [Nat.compare_eq_lt, Nat.compare_eq_eq, Nat.compare_ne_gt]
    omega

/-- Two versions in the wrong order, and one that is no version. -/
theorem places_after_three_inserts :
    FollowsVersions plainSemver 1 (Runs.run (ReleaseEvent.step plainSemver) []
      [.insert [⟨1, "one", .product⟩] (Release.create 1 "2.0.0"),
        .insert [⟨1, "one", .product⟩] (Release.create 1 "nightly"),
        .insert [⟨1, "one", .product⟩] (Release.create 1 "1.0.0")]) :=
  sort_order_follows_versions plainSemver plainSemver_precedence _ 1

end UploadService
