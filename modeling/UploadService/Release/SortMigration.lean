import Mathlib.Data.List.Dedup
import UploadService.Release.SortOrder

/-!
# The migration of the sort order

`AddSortOrderToRelease.up`: the releases that are there get a sort order, project after project in
the order of the project ids. Versions are compared as they are: where a project has an invalid one
beside another release, `compare` throws, and no later project is processed. The subscriber leaves
invalid versions out before it sorts.

Main result: `established_iff`, every project has its order after the migration exactly where no
project up to the last one with a valid version has an invalid one beside another release.
-/

namespace UploadService

namespace AddSortOrderToRelease

variable {semver : SemverLib} {releases : List Release}

/-! ### The migration -/

/-- The keys of `releasesByProject`, in the order in which they are gone through. -/
def projectIds (releases : List Release) : List ℕ :=
  (releases.map Release.projectId).dedup.insertionSort (· ≤ ·)

def releasesOf (releases : List Release) (projectId : ℕ) : List Release :=
  releases.filter fun r => r.projectId == projectId

/-- `projectReleases.sort`. Every one of several releases is compared, and `compare` throws on an
invalid version. -/
def sortReleases (semver : SemverLib) (projectReleases : List Release) : Option (List Release) :=
  if projectReleases.length ≤ 1 || projectReleases.all fun r => semver.valid r.version then
    some (projectReleases.insertionSort fun a b => semver.compare a.version b.version ≠ .gt)
  else none

/-- The updates of a project, from the index `i` on. -/
def updateOrders : List Release → ℕ → List Release → List Release
  | [], _, table => table
  | release :: rest, i, table => updateOrders rest (i + 1)
      (Rows.updateWhere (fun r => r.catalogId == release.catalogId)
        (fun r => { r with sortOrder := i + 1 }) table)

/-- The loop over the projects; `releases` were read before it. -/
def processProjects (semver : SemverLib) (releases : List Release) :
    List ℕ → List Release → List Release
  | [], table => table
  | projectId :: rest, table =>
      match sortReleases semver (releasesOf releases projectId) with
      | none => table
      | some sorted => processProjects semver releases rest (updateOrders sorted 0 table)

/-- `up`: the column is added, and then filled. -/
def up (semver : SemverLib) (releases : List Release) : List Release :=
  let altered := releases.map fun r => { r with sortOrder := 0 }
  processProjects semver altered (projectIds altered) altered

/-! ### The order of a project -/

/-- The releases with a valid version have an order of their own, which is that of the versions. -/
structure Established (semver : SemverLib) (projectId : ℕ) (releases : List Release) : Prop where
  positive : ∀ r ∈ validReleases semver projectId releases, 1 ≤ r.sortOrder
  distinct : Rows.KeysDistinct Release.sortOrder (validReleases semver projectId releases)
  ordered : ∀ a ∈ validReleases semver projectId releases,
    ∀ b ∈ validReleases semver projectId releases,
    semver.compare a.version b.version = .lt → a.sortOrder < b.sortOrder

/-- The project has no invalid version beside another release. -/
def Sortable (semver : SemverLib) (releases : List Release) (projectId : ℕ) : Prop :=
  (releasesOf releases projectId).length ≤ 1 ∨
    ∀ r ∈ releasesOf releases projectId, semver.valid r.version = true

/-- The releases of a project in version order. -/
def sortedOf (semver : SemverLib) (releases : List Release) (projectId : ℕ) : List Release :=
  (releasesOf releases projectId).insertionSort
    fun a b => semver.compare a.version b.version ≠ .gt

theorem sortReleases_of_sortable {projectId : ℕ} (h : Sortable semver releases projectId) :
    sortReleases semver (releasesOf releases projectId) =
      some (sortedOf semver releases projectId) := by
  unfold sortReleases
  rw [if_pos]
  · rfl
  · rcases h with hone | hall
    · simp [hone]
    · simp [List.all_eq_true.mpr hall]

theorem sortReleases_of_not_sortable {projectId : ℕ} (h : ¬ Sortable semver releases projectId) :
    sortReleases semver (releasesOf releases projectId) = none := by
  unfold sortReleases
  rw [if_neg]
  intro hor
  rcases Bool.or_eq_true_iff.mp hor with hone | hall
  · exact h (.inl (of_decide_eq_true hone))
  · exact h (.inr (List.all_eq_true.mp hall))

/-! ### The updates -/

/-- The place of a release in a list, counted from 1. -/
def place (sorted : List Release) (release : Release) : Option ℕ :=
  (sorted.findIdx? fun r => r.catalogId == release.catalogId).map (· + 1)

/-- **Run.** The updates of a project write the places. -/
theorem updateOrders_eq {sorted : List Release} (h : Rows.KeysDistinct Release.catalogId sorted)
    (i : ℕ) (table : List Release) :
    updateOrders sorted i table = table.map fun r =>
      match place sorted r with
      | some n => { r with sortOrder := i + n }
      | none => r := by
  induction sorted generalizing i table with
  | nil => exact (List.map_id' table).symm
  | cons release rest ih =>
      obtain ⟨hnot, hrest⟩ := List.nodup_cons.mp h
      unfold updateOrders Rows.updateWhere
      rw [ih hrest, List.map_map]
      refine List.map_congr_left fun r _ => ?_
      unfold place
      rw [Function.comp_apply, List.findIdx?_cons]
      by_cases hkey : release.catalogId = r.catalogId
      · have hother : rest.findIdx? (fun x => x.catalogId == r.catalogId) = none := by
          rw [List.findIdx?_eq_none_iff]
          intro x hx
          rw [beq_eq_false_iff_ne, ← hkey]
          rintro heq
          exact hnot (heq ▸ List.mem_map_of_mem hx)
        rw [if_pos (beq_iff_eq.mpr hkey.symm), if_pos (beq_iff_eq.mpr hkey)]
        dsimp only
        rw [hother]
        rfl
      · rw [if_neg fun heq => hkey (beq_iff_eq.mp heq).symm, if_neg fun heq => hkey (beq_iff_eq.mp heq)]
        cases rest.findIdx? fun x => x.catalogId == r.catalogId with
        | none => rfl
        | some j =>
            simp only [Option.map_some]
            congr 1
            omega

/-! ### The loop -/

/-- The release with its place, where its project is among those that were processed. -/
def ordered (semver : SemverLib) (releases : List Release) (processed : List ℕ) (r : Release) :
    Release :=
  if r.projectId ∈ processed then
    match place (sortedOf semver releases r.projectId) r with
    | some n => { r with sortOrder := n }
    | none => r
  else r

theorem ordered_catalogId (semver : SemverLib) (releases : List Release) (processed : List ℕ)
    (r : Release) : (ordered semver releases processed r).catalogId = r.catalogId := by
  unfold ordered
  split
  · split
    · rfl
    · rfl
  · rfl

theorem mem_sortedOf {projectId : ℕ} {r : Release} :
    r ∈ sortedOf semver releases projectId ↔ r ∈ releases ∧ r.projectId = projectId := by
  unfold sortedOf releasesOf
  rw [List.mem_insertionSort, List.mem_filter, beq_iff_eq]

theorem sortedOf_keys (h : Rows.KeysDistinct Release.catalogId releases) (projectId : ℕ) :
    Rows.KeysDistinct Release.catalogId (sortedOf semver releases projectId) := by
  have hfilter : Rows.KeysDistinct Release.catalogId (releasesOf releases projectId) :=
    h.sublist List.filter_sublist
  exact ((List.perm_insertionSort _ _).map Release.catalogId).nodup_iff.mpr hfilter

/-- A release has a place among those of its own project only. -/
theorem place_of_other (h : Rows.KeysDistinct Release.catalogId releases) {projectId : ℕ}
    {r : Release} (hr : r ∈ releases) (hother : r.projectId ≠ projectId) :
    place (sortedOf semver releases projectId) r = none := by
  unfold place
  rw [Option.map_eq_none_iff, List.findIdx?_eq_none_iff]
  intro x hx
  obtain ⟨hx, hproject⟩ := mem_sortedOf.mp hx
  rw [beq_eq_false_iff_ne]
  intro heq
  rw [h.eq_of_mem hx hr heq] at hproject
  exact hother hproject

/-- **Step.** The updates of one more project. -/
theorem updateOrders_ordered (h : Rows.KeysDistinct Release.catalogId releases)
    {processed : List ℕ} {projectId : ℕ} (hnew : projectId ∉ processed) :
    updateOrders (sortedOf semver releases projectId) 0
        (releases.map (ordered semver releases processed)) =
      releases.map (ordered semver releases (processed ++ [projectId])) := by
  rw [updateOrders_eq (sortedOf_keys h projectId), List.map_map]
  refine List.map_congr_left fun r hr => ?_
  have hplace : place (sortedOf semver releases projectId) (ordered semver releases processed r) =
      place (sortedOf semver releases projectId) r := by
    unfold place
    rw [ordered_catalogId]
  rw [Function.comp_apply, hplace]
  unfold ordered
  by_cases hproject : r.projectId = projectId
  · rw [if_neg (hproject ▸ hnew), if_pos (List.mem_append_right _ (by simp [hproject])), hproject]
    cases place (sortedOf semver releases projectId) r with
    | none => rfl
    | some n => simp
  · rw [place_of_other h hr hproject]
    have hmem : r.projectId ∈ processed ++ [projectId] ↔ r.projectId ∈ processed := by
      simp [hproject]
    simp only [hmem]

/-- **Run.** The projects up to the first one that cannot be sorted are processed. -/
theorem processProjects_ordered (h : Rows.KeysDistinct Release.catalogId releases)
    {ids processed : List ℕ} (hnodup : (processed ++ ids).Nodup) :
    processProjects semver releases ids (releases.map (ordered semver releases processed)) =
      releases.map (ordered semver releases (processed ++ ids.takeWhile fun projectId =>
        (sortReleases semver (releasesOf releases projectId)).isSome)) := by
  induction ids generalizing processed with
  | nil =>
      rw [List.takeWhile_nil, List.append_nil]
      rfl
  | cons projectId rest ih =>
      unfold processProjects
      by_cases hsortable : Sortable semver releases projectId
      · have hnew : projectId ∉ processed := by
          intro hmem
          exact List.disjoint_of_nodup_append hnodup hmem List.mem_cons_self
        rw [sortReleases_of_sortable hsortable]
        dsimp only
        rw [updateOrders_ordered h hnew, ih (by rwa [List.append_assoc]),
          List.takeWhile_cons_of_pos (by rw [sortReleases_of_sortable hsortable]; rfl),
          List.append_assoc]
        rfl
      · rw [sortReleases_of_not_sortable hsortable,
          List.takeWhile_cons_of_neg (by rw [sortReleases_of_not_sortable hsortable]; nofun),
          List.append_nil]

/-- What is taken of an ascending list. -/
theorem mem_takeWhile_iff {ids : List ℕ} (h : ids.Pairwise (· < ·)) (f : ℕ → Bool) (p : ℕ) :
    p ∈ ids.takeWhile f ↔ p ∈ ids ∧ ∀ q ∈ ids, q ≤ p → f q = true := by
  induction ids with
  | nil => simp
  | cons q rest ih =>
      obtain ⟨hfirst, hrest⟩ := List.pairwise_cons.mp h
      cases hq : f q with
      | false =>
          rw [List.takeWhile_cons_of_neg (by rw [hq]; nofun)]
          constructor
          · intro hp
            cases hp
          · rintro ⟨hp, hall⟩
            have hle : q ≤ p := by
              rcases List.mem_cons.mp hp with rfl | hp
              · exact le_rfl
              · exact (hfirst p hp).le
            rw [hall q List.mem_cons_self hle] at hq
            cases hq
      | true =>
          rw [List.takeWhile_cons_of_pos hq, List.mem_cons, List.mem_cons, ih hrest]
          constructor
          · rintro (rfl | ⟨hp, hall⟩)
            · refine ⟨.inl rfl, fun x hx hle => ?_⟩
              rcases List.mem_cons.mp hx with rfl | hx
              · exact hq
              · exact absurd (hfirst x hx) (not_lt.mpr hle)
            · refine ⟨.inr hp, fun x hx hle => ?_⟩
              rcases List.mem_cons.mp hx with rfl | hx
              · exact hq
              · exact hall x hx hle
          · rintro ⟨rfl | hp, hall⟩
            · exact .inl rfl
            · exact .inr ⟨hp, fun x hx => hall x (List.mem_cons_of_mem q hx)⟩

theorem projectIds_pairwise (releases : List Release) :
    (projectIds releases).Pairwise (· < ·) := by
  have hle : (projectIds releases).Pairwise (· ≤ ·) := List.pairwise_insertionSort _ _
  have hnodup : (projectIds releases).Nodup :=
    (List.perm_insertionSort _ _).nodup_iff.mpr (List.nodup_dedup _)
  exact (hle.and hnodup).imp fun hboth => lt_of_le_of_ne hboth.1 hboth.2

theorem mem_projectIds {p : ℕ} : p ∈ projectIds releases ↔ ∃ r ∈ releases, r.projectId = p := by
  unfold projectIds
  rw [List.mem_insertionSort, List.mem_dedup, List.mem_map]

/-- The projects that are processed. -/
def processedOf (semver : SemverLib) (releases : List Release) : List ℕ :=
  (projectIds releases).takeWhile fun projectId =>
    (sortReleases semver (releasesOf releases projectId)).isSome

/-- **Spec.** A project is processed where it and all before it can be sorted. -/
theorem mem_processedOf {p : ℕ} :
    p ∈ processedOf semver releases ↔
      (∃ r ∈ releases, r.projectId = p) ∧ ∀ q, q ≤ p → Sortable semver releases q := by
  unfold processedOf
  rw [mem_takeWhile_iff (projectIds_pairwise releases), mem_projectIds]
  refine and_congr_right fun _ => ⟨fun h q hle => ?_, fun h q _ hle => ?_⟩
  · by_contra hnot
    by_cases hmem : q ∈ projectIds releases
    · have hsome := h q hmem hle
      rw [sortReleases_of_not_sortable hnot] at hsome
      cases hsome
    · -- a project without releases can be sorted
      have hempty : releasesOf releases q = [] := by
        rw [releasesOf, List.filter_eq_nil_iff]
        intro r hr heq
        exact hmem (mem_projectIds.mpr ⟨r, hr, beq_iff_eq.mp heq⟩)
      exact hnot (.inl (by rw [hempty]; exact Nat.zero_le 1))
  · rw [sortReleases_of_sortable (h q hle)]
    rfl

/-! ### Places -/

/-- **Spec.** A release of the project has the place at which it was sorted. -/
theorem place_eq (h : Rows.KeysDistinct Release.catalogId releases) {r : Release}
    (hr : r ∈ releases) :
    ∃ i, place (sortedOf semver releases r.projectId) r = some (i + 1) ∧
      (sortedOf semver releases r.projectId)[i]? = some r := by
  have hmem : r ∈ sortedOf semver releases r.projectId := mem_sortedOf.mpr ⟨hr, rfl⟩
  unfold place
  cases hfind : (sortedOf semver releases r.projectId).findIdx? fun x =>
      x.catalogId == r.catalogId with
  | none =>
      have hnone := List.findIdx?_eq_none_iff.mp hfind r hmem
      simp at hnone
  | some i =>
      obtain ⟨hi, hkey, -⟩ := List.findIdx?_eq_some_iff_getElem.mp hfind
      refine ⟨i, rfl, ?_⟩
      rw [List.getElem?_eq_getElem hi]
      have hthere := (mem_sortedOf.mp (List.getElem_mem hi)).1
      rw [h.eq_of_mem hthere hr (beq_iff_eq.mp hkey)]

/-- A release of an earlier version has an earlier place. -/
theorem place_lt (hsemver : semver.Precedence) {p i j : ℕ} (hsortable : Sortable semver releases p)
    {a b : Release} (ha : (sortedOf semver releases p)[i]? = some a)
    (hb : (sortedOf semver releases p)[j]? = some b) (hva : semver.valid a.version = true)
    (hvb : semver.valid b.version = true)
    (hlt : semver.compare a.version b.version = .lt) : i < j := by
  have hgt : semver.compare b.version a.version = .gt := hsemver.gt_of_lt hva hvb hlt
  rcases lt_trichotomy i j with hij | rfl | hji
  · exact hij
  · rw [ha] at hb
    obtain rfl := Option.some.inj hb
    rw [hgt] at hlt
    cases hlt
  · obtain ⟨hi, hgeta⟩ := List.getElem?_eq_some_iff.mp ha
    obtain ⟨hj, hgetb⟩ := List.getElem?_eq_some_iff.mp hb
    -- two releases, so all versions are valid and the list is in their order
    have hall : ∀ r ∈ releasesOf releases p, semver.valid r.version = true := by
      rcases hsortable with hone | hall
      · have hlength : (sortedOf semver releases p).length = (releasesOf releases p).length :=
          List.length_insertionSort _ _
        omega
      · exact hall
    have hsorted := @Rows.pairwise_insertionSort _
      (fun a b : Release => semver.compare a.version b.version ≠ .gt) (fun _ _ => True) _
      (releasesOf releases p) (fun x hx y hy => hsemver.le_or_ge (hall x hx) (hall y hy))
      (fun x hx y hy z hz => hsemver.trans _ _ _ (hall x hx) (hall y hy) (hall z hz))
      (List.pairwise_of_forall fun _ _ => trivial)
    have hle := (List.pairwise_iff_getElem.mp hsorted j i hj hi hji).1
    have hga : (sortedOf semver releases p)[i] = a := hgeta
    have hgb : (sortedOf semver releases p)[j] = b := hgetb
    unfold sortedOf at hga hgb
    rw [hga, hgb] at hle
    exact absurd hgt hle

/-! ### After the migration -/

/-- The new column. -/
def altered (r : Release) : Release := { r with sortOrder := 0 }

theorem keysDistinct_altered (h : Rows.KeysDistinct Release.catalogId releases) :
    Rows.KeysDistinct Release.catalogId (releases.map altered) := by
  unfold Rows.KeysDistinct
  rw [List.map_map]
  exact h

theorem sortable_altered {p : ℕ} :
    Sortable semver (releases.map altered) p ↔ Sortable semver releases p := by
  have hof : releasesOf (releases.map altered) p = (releasesOf releases p).map altered := by
    unfold releasesOf
    rw [List.filter_map]
    rfl
  unfold Sortable
  rw [hof, List.length_map, List.forall_mem_map]
  exact Iff.rfl

/-- **Spec.** The table after the migration. -/
theorem up_eq (h : Rows.KeysDistinct Release.catalogId releases) :
    up semver releases = (releases.map altered).map
      (ordered semver (releases.map altered) (processedOf semver (releases.map altered))) := by
  have hnodup : (projectIds (releases.map altered)).Nodup :=
    (projectIds_pairwise _).imp fun hlt => hlt.ne
  have hrun := @processProjects_ordered semver _ (keysDistinct_altered h)
    (projectIds (releases.map altered)) [] hnodup
  have hstart : (releases.map altered).map (ordered semver (releases.map altered) []) =
      releases.map altered := by
    conv_rhs => rw [← List.map_id (releases.map altered)]
    refine List.map_congr_left fun r _ => ?_
    unfold ordered
    rw [if_neg List.not_mem_nil]
    rfl
  rw [hstart] at hrun
  exact hrun

/-- A release after the migration, with a valid version: its place where the project was
processed, 0 otherwise. -/
theorem mem_validReleases_up (h : Rows.KeysDistinct Release.catalogId releases) {p : ℕ}
    {r : Release} (hr : r ∈ validReleases semver p (up semver releases)) :
    ∃ old ∈ releases.map altered, old.projectId = p ∧ semver.valid old.version = true ∧
      r.version = old.version ∧
      r = ordered semver (releases.map altered) (processedOf semver (releases.map altered)) old := by
  obtain ⟨hmem, hproject, hvalid⟩ := mem_validReleases.mp hr
  rw [up_eq h] at hmem
  obtain ⟨old, hold, rfl⟩ := List.mem_map.mp hmem
  have hsame : (ordered semver (releases.map altered)
      (processedOf semver (releases.map altered)) old).projectId = old.projectId ∧
      (ordered semver (releases.map altered)
        (processedOf semver (releases.map altered)) old).version = old.version := by
    unfold ordered
    split
    · split
      · exact ⟨rfl, rfl⟩
      · exact ⟨rfl, rfl⟩
    · exact ⟨rfl, rfl⟩
  exact ⟨old, hold, hsame.1 ▸ hproject, hsame.2 ▸ hvalid, hsame.2, rfl⟩

/-- **Main result.** Every project has its order after the migration exactly where no project up to
one with a valid version has an invalid version beside another release. -/
theorem established_iff (semver : SemverLib) (hsemver : semver.Precedence)
    (releases : List Release) (h : Rows.KeysDistinct Release.catalogId releases) :
    (∀ p, Established semver p (up semver releases)) ↔
      ∀ r ∈ releases, semver.valid r.version = true →
        ∀ q, q ≤ r.projectId → Sortable semver releases q := by
  have hkeys := keysDistinct_altered h
  constructor
  · intro hall r hr hvalid q hle
    by_contra hnot
    -- the project of the release is not processed, and its sort order stays 0
    have hprocessed : r.projectId ∉ processedOf semver (releases.map altered) := by
      intro hmem
      exact hnot (sortable_altered.mp ((mem_processedOf.mp hmem).2 q hle))
    have hup : altered r ∈ up semver releases := by
      rw [up_eq h]
      refine List.mem_map.mpr ⟨altered r, List.mem_map_of_mem hr, ?_⟩
      exact if_neg hprocessed
    have hpositive := (hall r.projectId).positive (altered r)
      (mem_validReleases.mpr ⟨hup, rfl, hvalid⟩)
    exact absurd hpositive (Nat.not_succ_le_zero 0)
  · intro hcondition p
    have hplace : ∀ r ∈ validReleases semver p (up semver releases), ∃ old i,
        old ∈ releases.map altered ∧ semver.valid old.version = true ∧ r.version = old.version ∧
        (sortedOf semver (releases.map altered) p)[i]? = some old ∧ r.sortOrder = i + 1 ∧
        Sortable semver (releases.map altered) p ∧
        r = ordered semver (releases.map altered) (processedOf semver (releases.map altered)) old := by
      intro r hr
      obtain ⟨old, hold, rfl, hvalid, hversion, hrow⟩ := mem_validReleases_up h hr
      obtain ⟨source, hsource, rfl⟩ := List.mem_map.mp hold
      have hsortable : ∀ q, q ≤ source.projectId → Sortable semver (releases.map altered) q :=
        fun q hle => sortable_altered.mpr (hcondition source hsource hvalid q hle)
      have hprocessed : (altered source).projectId ∈ processedOf semver (releases.map altered) :=
        mem_processedOf.mpr ⟨⟨altered source, hold, rfl⟩, hsortable⟩
      obtain ⟨i, hplace, hget⟩ := @place_eq semver _ hkeys _ hold
      refine ⟨altered source, i, hold, hvalid, hversion, hget, ?_, hsortable _ le_rfl, hrow⟩
      rw [hrow]
      unfold ordered
      rw [if_pos hprocessed, hplace]
    refine ⟨fun r hr => ?_, ?_, fun a ha b hb hlt => ?_⟩
    · obtain ⟨old, i, -, -, -, -, hi, -⟩ := hplace r hr
      omega
    · have hnodup : (validReleases semver p (up semver releases)).Nodup := by
        apply List.Nodup.filter
        apply List.Nodup.of_map Release.catalogId
        rw [up_eq h, List.map_map]
        have hsame : Release.catalogId ∘ ordered semver (releases.map altered)
            (processedOf semver (releases.map altered)) = Release.catalogId :=
          funext fun r => ordered_catalogId _ _ _ r
        rw [hsame]
        exact hkeys
      apply List.Nodup.map_on _ hnodup
      intro a ha b hb heq
      obtain ⟨olda, i, -, -, -, hgeta, hi, -, rfl⟩ := hplace a ha
      obtain ⟨oldb, j, -, -, -, hgetb, hj, -, rfl⟩ := hplace b hb
      have hij : i = j := by omega
      rw [hij, hgetb] at hgeta
      rw [Option.some.inj hgeta]
    · obtain ⟨olda, i, -, hva, hversiona, hgeta, hi, hsortable, -⟩ := hplace a ha
      obtain ⟨oldb, j, -, hvb, hversionb, hgetb, hj, -, -⟩ := hplace b hb
      rw [hversiona, hversionb] at hlt
      have hij := place_lt hsemver hsortable hgeta hgetb hva hvb hlt
      omega

/-! ### A build without a version number -/

def row (catalogId version : String) (projectId : ℕ) : Release :=
  { Release.create projectId version with catalogId := catalogId }

/-- Two versions in the wrong order. -/
theorem established_of_two :
    Established plainSemver 1 (up plainSemver [row "b" "2.0.0" 1, row "a" "1.0.0" 1]) := by
  have hall := (established_iff plainSemver plainSemver_precedence
    [row "b" "2.0.0" 1, row "a" "1.0.0" 1] (by decide)).mpr fun r _ _ q _ => by
      refine .inr fun x hx => ?_
      have hmem := List.mem_of_mem_filter hx
      rcases List.mem_pair.mp hmem with rfl | rfl
      · decide
      · decide
  exact hall 1

/-- An invalid version in the first project leaves the second one without an order. -/
theorem nightly_stops_the_migration :
    Rows.KeysDistinct Release.catalogId
        [row "a" "nightly" 1, row "b" "1.0.0" 1, row "c" "1.0.0" 2] ∧
      ¬ Established plainSemver 2
        (up plainSemver [row "a" "nightly" 1, row "b" "1.0.0" 1, row "c" "1.0.0" 2]) := by
  refine ⟨by decide, fun h => ?_⟩
  have hmem : altered (row "c" "1.0.0" 2) ∈ validReleases plainSemver 2
      (up plainSemver [row "a" "nightly" 1, row "b" "1.0.0" 1, row "c" "1.0.0" 2]) := by
    decide +kernel
  exact absurd (h.positive _ hmem) (by decide)

end AddSortOrderToRelease

end UploadService
