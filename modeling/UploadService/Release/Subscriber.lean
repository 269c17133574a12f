import Mathlib.Data.List.Sort
import UploadService.Lib.Rows
import UploadService.Release.Entities

/-!
# The release subscriber

`ReleaseSubscriber` runs around every insert of a release row: it derives the
catalog id from the project and the version before the insert, and places the
new row in the sort order after it. The versions are ordered by the `semver`
package, a parameter here.

The shift that makes room in the sort order names no project: it moves the rows
of every project.
-/

namespace UploadService

/-- The `semver` package: which texts are versions, and how two versions compare. -/
structure SemverLib where
  valid : String → Bool
  compare : String → String → Ordering

/-- The number a text of decimal digits without a leading zero stands for. -/
def plainPart? (cs : List Char) : Option ℕ :=
  if cs.isEmpty || !cs.all Char.isDigit || (cs.head? == some '0' && cs.length > 1) then none
  else some (Nat.ofDigitChars 10 cs 0)

/-- The parts of a version of three numbers. -/
def plainVersion? (version : String) : Option (ℕ × ℕ × ℕ) :=
  match (version.toList.splitOn '.').map plainPart? with
  | [some a, some b, some c] => some (a, b, c)
  | _ => none

/-- The package on versions without prerelease and build parts. -/
def plainSemver : SemverLib where
  valid := fun v => (plainVersion? v).isSome
  compare := fun v w => match plainVersion? v, plainVersion? w with
    | some (a, b, c), some (d, e, f) =>
        (Ord.compare a d).then ((Ord.compare b e).then (Ord.compare c f))
    | _, _ => .eq

namespace ReleaseSubscriber

/-- `${project.id}.${project?.name}@${version}`. -/
def catalogIdOf (projects : List Project) (projectId : ℕ) (version : String) : String :=
  let name := match Rows.findKey Project.id projectId projects with
    | some p => p.name
    | none => "undefined"
  s!"{projectId}.{name}@{version}"

/-- `beforeInsert`. -/
def beforeInsert (projects : List Project) (release : Release) : Release :=
  { release with catalogId := catalogIdOf projects release.projectId release.version }

/-- The valid releases of the project in version order, ties in sort order. -/
def semverReleases (semver : SemverLib) (projectId : ℕ) (releases : List Release) : List Release :=
  let ofProject := releases.filter fun r => r.projectId == projectId
  let bySortOrder := ofProject.insertionSort fun a b => a.sortOrder ≤ b.sortOrder
  (bySortOrder.filter fun r => semver.valid r.version).insertionSort
    fun a b => semver.compare a.version b.version ≠ .gt

/-- The sort order of the new row: one past its predecessor's, 1 without one. -/
def newSortOrder (semver : SemverLib) (release : Release) (releases : List Release) : ℕ :=
  let sorted := semverReleases semver release.projectId releases
  let currentIndex := sorted.findIdx fun r => r.version == release.version
  match currentIndex with
  | 0 => 1
  | i + 1 => match sorted[i]? with
    | some prev => if i + 1 < sorted.length then prev.sortOrder + 1 else 1
    | none => 1

/-- `UPDATE release SET sort_order = sort_order + 1 WHERE sort_order >= :newSortOrder`. -/
def shiftSortOrder (from' : ℕ) (releases : List Release) : List Release :=
  Rows.updateWhere (fun r => decide (from' ≤ r.sortOrder))
    (fun r => { r with sortOrder := r.sortOrder + 1 }) releases

/-- `afterInsert`; `releases` already holds the new row. -/
def afterInsert (semver : SemverLib) (release : Release) (releases : List Release) : List Release :=
  if semver.valid release.version then
    let order := newSortOrder semver release releases
    Rows.updateWhere (fun r => r.catalogId == release.catalogId)
      (fun r => { r with sortOrder := order }) (shiftSortOrder order releases)
  else releases

end ReleaseSubscriber

open ReleaseSubscriber in
/-- An insert of a release with the subscriber around it; `none` where the primary
key or the unique index on project and version refuses the row. -/
def insertRelease (semver : SemverLib) (projects : List Project) (release : Release)
    (releases : List Release) : Option (Release × List Release) :=
  let row := beforeInsert projects release
  if releases.any (fun r => r.catalogId == row.catalogId ||
      (r.projectId == row.projectId && r.version == row.version)) then none
  else some (row, afterInsert semver row (releases ++ [row]))

theorem insertRelease_some {semver : SemverLib} {projects : List Project} {release : Release}
    {releases rows : List Release} {row : Release}
    (h : insertRelease semver projects release releases = some (row, rows)) :
    row = ReleaseSubscriber.beforeInsert projects release ∧
      (∀ r ∈ releases, r.catalogId ≠ row.catalogId) ∧
      rows = ReleaseSubscriber.afterInsert semver row (releases ++ [row]) := by
  simp only [insertRelease] at h
  split at h
  · cases h
  · rename_i hnew
    obtain ⟨rfl, rfl⟩ := Prod.mk.inj (Option.some.inj h)
    refine ⟨rfl, fun r hr heq => hnew ?_, rfl⟩
    exact List.any_eq_true.mpr ⟨r, hr, by simp [heq]⟩

/-- The new row has a project and version of its own. -/
theorem insertRelease_fresh {semver : SemverLib} {projects : List Project} {release : Release}
    {releases rows : List Release} {row : Release}
    (h : insertRelease semver projects release releases = some (row, rows)) :
    ∀ r ∈ releases, (r.projectId, r.version) ≠ (row.projectId, row.version) := by
  simp only [insertRelease] at h
  split at h
  · cases h
  · rename_i hnew
    obtain ⟨rfl, rfl⟩ := Prod.mk.inj (Option.some.inj h)
    intro r hr heq
    obtain ⟨hp, hv⟩ := Prod.mk.inj heq
    exact hnew (List.any_eq_true.mpr ⟨r, hr, by simp [hp, hv]⟩)

theorem ReleaseSubscriber.afterInsert_catalogIds (semver : SemverLib) (row : Release)
    (rows : List Release) :
    (ReleaseSubscriber.afterInsert semver row rows).map Release.catalogId =
      rows.map Release.catalogId := by
  simp only [ReleaseSubscriber.afterInsert]
  split
  · rw [Rows.map_updateWhere]
    · exact Rows.map_updateWhere _ fun _ _ _ => rfl
    · exact fun _ _ _ => rfl
  · rfl

/-- Every row after an insert is one from before, or the new one, but for its sort order. -/
theorem mem_afterInsert {semver : SemverLib} {row : Release} {rows : List Release} {r : Release}
    (h : r ∈ ReleaseSubscriber.afterInsert semver row rows) :
    ∃ x ∈ rows, ∃ n, r = { x with sortOrder := n } := by
  simp only [ReleaseSubscriber.afterInsert] at h
  split at h
  · rcases Rows.mem_updateWhere.mp h with ⟨y, hy, -, rfl⟩ | ⟨hr, -⟩
    · rcases Rows.mem_updateWhere.mp hy with ⟨x, hx, -, rfl⟩ | ⟨hx, -⟩
      · exact ⟨x, hx, _, rfl⟩
      · exact ⟨y, hx, _, rfl⟩
    · rcases Rows.mem_updateWhere.mp hr with ⟨x, hx, -, rfl⟩ | ⟨hx, -⟩
      · exact ⟨x, hx, _, rfl⟩
      · exact ⟨r, hx, r.sortOrder, rfl⟩
  · exact ⟨r, h, r.sortOrder, rfl⟩

/-- The rows after an insert carry the projects, versions and catalog ids of those before it,
and of the new row. -/
theorem insertRelease_keys {semver : SemverLib} {projects : List Project} {release : Release}
    {releases rows : List Release} {row : Release}
    (h : insertRelease semver projects release releases = some (row, rows)) :
    rows.map (fun r : Release => (r.projectId, r.version, r.catalogId)) =
      (releases ++ [row]).map fun r => (r.projectId, r.version, r.catalogId) := by
  rw [(insertRelease_some h).2.2]
  unfold ReleaseSubscriber.afterInsert
  split
  · rw [Rows.map_updateWhere]
    · exact Rows.map_updateWhere _ fun _ _ _ => rfl
    · exact fun _ _ _ => rfl
  · rfl

/-! ### Places in the order -/

theorem newSortOrder_pos (semver : SemverLib) (release : Release) (releases : List Release) :
    0 < ReleaseSubscriber.newSortOrder semver release releases := by
  unfold ReleaseSubscriber.newSortOrder
  dsimp only
  split
  · omega
  · split
    · split
      · omega
      · omega
    · omega

/-- The row with room made at the place. -/
def moved (n : ℕ) (r : Release) : Release :=
  { r with sortOrder := if n ≤ r.sortOrder then r.sortOrder + 1 else r.sortOrder }

/-- What an insert does to the rows: the new one comes last, and a valid one makes room for
itself at its place. -/
theorem insertRelease_rows {semver : SemverLib} {projects : List Project} {row inserted : Release}
    {releases rows : List Release}
    (h : insertRelease semver projects row releases = some (inserted, rows)) :
    (semver.valid inserted.version = false ∧ rows = releases ++ [inserted]) ∨
    (semver.valid inserted.version = true ∧
      rows = releases.map (moved (ReleaseSubscriber.newSortOrder semver inserted
          (releases ++ [inserted]))) ++
        [{ inserted with sortOrder :=
            ReleaseSubscriber.newSortOrder semver inserted (releases ++ [inserted]) }]) := by
  obtain ⟨-, hfresh, rfl⟩ := insertRelease_some h
  unfold ReleaseSubscriber.afterInsert
  by_cases hvalid : semver.valid inserted.version = true
  · refine .inr ⟨hvalid, ?_⟩
    rw [if_pos hvalid]
    generalize ReleaseSubscriber.newSortOrder semver inserted (releases ++ [inserted]) = n
    show Rows.updateWhere _ _ (Rows.updateWhere _ _ (releases ++ [inserted])) = _
    rw [Rows.updateWhere_append, Rows.updateWhere_append]
    congr 1
    · -- the old rows are only moved
      rw [Rows.updateWhere_eq_self]
      · unfold Rows.updateWhere
        apply List.map_congr_left
        intro r _
        by_cases hn : n ≤ r.sortOrder
        · simp [moved, hn]
        · simp [moved, hn]
      · intro r hr hkey
        rcases Rows.mem_updateWhere.mp hr with ⟨x, hx, -, rfl⟩ | ⟨hr, -⟩
        · exact absurd (by simpa using hkey) (hfresh x hx)
        · exact absurd (by simpa using hkey) (hfresh r hr)
    · by_cases hn : n ≤ inserted.sortOrder
      · simp [Rows.updateWhere, hn]
      · simp [Rows.updateWhere, hn]
  · rw [if_neg hvalid]
    exact .inl ⟨eq_false_of_ne_true hvalid, rfl⟩

end UploadService
