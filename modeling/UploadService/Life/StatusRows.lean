import UploadService.Life.SupportDeletes

/-!
# The status of a regulation

A release has at most one status linked to a regulation. Requests name the regulation, and the
service looks statuses up by that name: the name of the regulation that is linked, or the name
that a snapshot keeps, which is the displayed one.

Main results:

- `regulationOf_linked`: the regulation a status is linked to;
- `isFor_unique`: there is one status of a regulation and a release;
- `toDto_regulation_iff`, `isFor_of_toDto_eq`: a status of anything else is shown differently.
-/

namespace UploadService

open Prog RegulationStatusService

variable {db : UploadDb} {g : Regulation} {r : Release}

/-! ### Schema -/

/-- The schema of regulations and statuses: keys, the unique index of names in a project, the
references, and `regulation_version_unique_constraint`, which null links do not violate. -/
structure StatusSchema (db : UploadDb) : Prop where
  constraints : db.Constraints
  regulationKeys : Rows.KeysDistinct Regulation.id db.regulations
  regulationNames : Rows.KeysDistinct (fun g : Regulation => (g.projectId, g.name)) db.regulations
  links : ∀ s ∈ db.regulationStatuses, ∀ id, s.regulationId = some id →
    ∃ g ∈ db.regulations, g.id = id ∧
      ∀ r ∈ db.releases, r.catalogId = s.versionId → r.projectId = g.projectId
  linkedOnce : ∀ s ∈ db.regulationStatuses, ∀ t ∈ db.regulationStatuses, s.regulationId ≠ none →
    s.regulationId = t.regulationId → s.versionId = t.versionId → s = t

/-- The status is linked to the regulation, and is one of the release. -/
def isFor (g : Regulation) (r : Release) (s : RegulationStatus) : Bool :=
  s.regulationId == some g.id && s.versionId == r.catalogId

/-- The status of the regulation. -/
def ownStatus (db : UploadDb) (g : Regulation) (r : Release) : Option RegulationStatus :=
  db.regulationStatuses.find? (isFor g r)

theorem isFor_iff {s : RegulationStatus} :
    isFor g r s = true ↔ s.regulationId = some g.id ∧ s.versionId = r.catalogId := by
  unfold isFor
  rw [Bool.and_eq_true, beq_iff_eq, beq_iff_eq]

/-! ### Links -/

theorem regulationOf_isFor (h : StatusSchema db) (hg : g ∈ db.regulations) {s : RegulationStatus}
    (hs : isFor g r s = true) : regulationOf db s = some g := by
  unfold regulationOf
  rw [(isFor_iff.mp hs).1, Option.bind_some]
  exact Rows.findKey_unique h.regulationKeys hg

theorem regulationOf_none {s : RegulationStatus} (hs : s.regulationId = none) :
    regulationOf db s = none := by
  unfold regulationOf
  rw [hs, Option.bind_none]

/-- A link of a status of the release leads to a regulation of its project. -/
theorem regulationOf_linked (h : StatusSchema db) (hr : r ∈ db.releases) {s : RegulationStatus}
    (hs : s ∈ db.regulationStatuses) (hof : s.versionId = r.catalogId) {id : ℕ}
    (hid : s.regulationId = some id) :
    ∃ k ∈ db.regulations, k.id = id ∧ k.projectId = r.projectId ∧ regulationOf db s = some k := by
  obtain ⟨k, hk, hkid, hproject⟩ := h.links s hs id hid
  refine ⟨k, hk, hkid, (hproject r hr hof.symm).symm, ?_⟩
  unfold regulationOf
  rw [hid, Option.bind_some, ← hkid]
  exact Rows.findKey_unique h.regulationKeys hk

/-- There is one status of a regulation and a release. -/
theorem isFor_unique (h : StatusSchema db) {s t : RegulationStatus}
    (hs : s ∈ db.regulationStatuses) (ht : t ∈ db.regulationStatuses) (hsfor : isFor g r s = true)
    (htfor : isFor g r t = true) : s = t := by
  obtain ⟨hsid, hsof⟩ := isFor_iff.mp hsfor
  obtain ⟨htid, htof⟩ := isFor_iff.mp htfor
  apply h.linkedOnce s hs t ht
  · rw [hsid]
    exact Option.some_ne_none _
  · rw [hsid, htid]
  · rw [hsof, htof]

/-! ### Names -/

/-- A status of the release is shown under the name of a regulation of its project where it is
linked to that regulation, or where it has lost its link and its snapshot keeps the name. -/
theorem toDto_regulation_iff (h : StatusSchema db) (hg : g ∈ db.regulations) (hr : r ∈ db.releases)
    (hproject : r.projectId = g.projectId) {s : RegulationStatus}
    (hs : s ∈ db.regulationStatuses) (hof : s.versionId = r.catalogId) :
    (toDto db s).regulation = some g.name ↔ isFor g r s = true ∨
      (s.regulationId = none ∧ s.regulationSnapshot.map (·.name) = some g.name) := by
  cases hid : s.regulationId with
  | none =>
      have hnot : isFor g r s = false := by
        unfold isFor
        rw [hid]
        rfl
      rw [hnot]
      simp [toDto, regulationOf_none hid]
  | some id =>
      obtain ⟨k, hk, hkid, hkproject, hkof⟩ := regulationOf_linked h hr hs hof hid
      have hshown : (toDto db s).regulation = some k.name := by
        show ((regulationOf db s).map _).or _ = _
        rw [hkof]
        rfl
      rw [hshown, isFor_iff, hid, ← hkid]
      constructor
      · intro hname
        have heq : k = g := h.regulationNames.eq_of_mem hk hg (by
          rw [hkproject, hproject, Option.some.inj hname])
        rw [heq]
        exact .inl ⟨rfl, hof⟩
      · rintro (⟨hlink, -⟩ | ⟨hnone, -⟩)
        · rw [h.regulationKeys.eq_of_mem hk hg (Option.some.inj hlink)]
        · cases hnone

/-- A status answers to the name of its regulation. -/
theorem isNamed_isFor (h : StatusSchema db) (hg : g ∈ db.regulations) {s : RegulationStatus}
    (hs : isFor g r s = true) : isNamed db (some g.name) s = true := by
  unfold isNamed
  rw [regulationOf_isFor h hg hs]
  simp

/-- A status of the regulation is shown with its name and project, and no other status is. -/
theorem isFor_of_toDto_eq (h : StatusSchema db) (hg : g ∈ db.regulations) (hr : r ∈ db.releases)
    (hproject : r.projectId = g.projectId) {s t : RegulationStatus}
    (ht : t ∈ db.regulationStatuses) (htof : t.versionId = r.catalogId) (hs : isFor g r s = true)
    (heq : toDto db t = toDto db s) : isFor g r t = true := by
  have hof := regulationOf_isFor h hg hs
  have hname : (toDto db t).regulation = some g.name := by
    rw [heq]
    show ((regulationOf db s).map _).or _ = _
    rw [hof]
    rfl
  rcases (toDto_regulation_iff h hg hr hproject ht htof).mp hname with hfor | ⟨hnone, -⟩
  · exact hfor
  · have hproj := congrArg RegulationStatusDto.projectId heq
    change (regulationOf db t).map _ = (regulationOf db s).map _ at hproj
    rw [regulationOf_none hnone, hof] at hproj
    cases hproj

end UploadService
