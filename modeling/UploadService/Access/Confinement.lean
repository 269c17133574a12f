import UploadService.Access.Handlers
import UploadService.Access.Requests

/-!
# Handlers that write by a request's own keys

`updateFileMetadata` goes by an artifact id, `updateUploadStatus` by the key of a
component upload; `setRelease` moves the sort order of every release, and
`setReleaseArtifact` reuses a file upload by its object key. When these writes stay
inside the authorised project is made exact here.

Main results:

- `updateFileMetadata_confined_iff`, `updateUploadStatus_confined_iff`,
  `setRelease_confined_iff` and `setReleaseArtifact_confined_iff`: the condition under
  which each handler changes nothing outside the project.
-/

namespace UploadService

open Prog ReleaseService FileUploadService RegulationStatusService ComponentUploads

variable {p : ℕ} {o : Outside} {closed : Prop} {db : UploadDb} (env : UploadEnv)

/-! ### File metadata -/

theorem checkReadonlyReleasePermission_run (status : ReleaseStatus) (db : UploadDb) :
    ∃ result, checkReadonlyReleasePermission env status db = (result, db) ∧
      (result = .ok () ↔ isReadonly env status = false) := by
  unfold checkReadonlyReleasePermission
  by_cases h : isReadonly env status = true
  · exact ⟨_, by rw [if_pos h]; rfl, by simp [h]⟩
  · exact ⟨.ok (), by rw [if_neg h]; rfl, by simpa using h⟩

/-- What follows the check runs where the release is not read-only. -/
theorem checkReadonlyReleasePermission_bind {α : Type} (status : ReleaseStatus)
    (k : Unit → UploadProg α) (db : UploadDb) :
    ((checkReadonlyReleasePermission env status >>= k) db).2 =
      if isReadonly env status then db else (k () db).2 := by
  obtain ⟨result, hrun, hok⟩ := checkReadonlyReleasePermission_run env status db
  cases result with
  | ok u =>
      rw [bind_run_ok hrun, hok.mp rfl]
      rfl
  | error e =>
      have hreadonly : isReadonly env status = true := by
        by_contra hne
        cases hok.mpr (by simpa using hne)
      rw [bind_run_error hrun, hreadonly]
      rfl

/-- The release of the artifact lets the user change it. -/
def isEditable (db : UploadDb) (a : ReleaseArtifact) : Bool :=
  (Rows.findKey Release.catalogId a.releaseId db.releases).any fun r => !isReadonly env r.status

/-- The artifacts as the request changes them. -/
def withUpdatedProperties (dto : UpdateFilePropertiesDto) (db : UploadDb) : UploadDb :=
  { db with
    artifacts := Rows.updateWhere (fun a => some a.id == dto.id) (withProperties dto)
      db.artifacts }

theorem updateFoundArtifact_run (dto : UpdateFilePropertiesDto) (a : ReleaseArtifact) :
    (updateFoundArtifact env dto a db).2 =
      if isEditable env db a && hasProperties dto then withUpdatedProperties dto db else db := by
  unfold updateFoundArtifact isEditable
  rw [gets_bind_run]
  cases Rows.findKey Release.catalogId a.releaseId db.releases with
  | none => rfl
  | some release =>
      show ((checkReadonlyReleasePermission env release.status >>= _) db).2 = _
      rw [checkReadonlyReleasePermission_bind]
      by_cases hreadonly : isReadonly env release.status = true
      · simp [hreadonly]
      · by_cases hprops : hasProperties dto = true
        · simp [hreadonly, hprops, withUpdatedProperties]
        · simp [hreadonly, hprops]

theorem withProperties_none {dto : UpdateFilePropertiesDto} (h : hasProperties dto = false)
    (a : ReleaseArtifact) : withProperties dto a = a := by
  simp only [hasProperties, Bool.or_eq_false_iff, Option.isSome_eq_false_iff,
    Option.isNone_iff_eq_none] at h
  obtain ⟨⟨⟨h₁, h₂⟩, h₃⟩, h₄⟩ := h
  simp [withProperties, h₁, h₂, h₃, h₄]

/-- The change leaves every artifact outside as it is. -/
theorem confined_withUpdatedProperties_iff (dto : UpdateFilePropertiesDto) :
    db.Confined p (withUpdatedProperties dto db) ↔
      ∀ a ∈ db.outsideArtifacts p, some a.id = dto.id → withProperties dto a = a := by
  have hfilter : ((withUpdatedProperties dto db).artifacts.filter
      fun a => db.isOutside p a.releaseId) =
      Rows.updateWhere (fun a => some a.id == dto.id) (withProperties dto)
        (db.outsideArtifacts p) :=
    Rows.filter_updateWhere_comm fun _ _ _ => rfl
  constructor
  · intro h a ha hid
    have hsame : ((withUpdatedProperties dto db).outside p).artifacts = (db.outside p).artifacts := by
      rw [show (withUpdatedProperties dto db).outside p = db.outside p from h]
    apply Rows.eq_of_updateWhere_eq (hfilter.symm.trans hsame) ha
    simpa using hid
  · intro h
    apply outside_artifacts
    rw [show Rows.updateWhere _ _ db.artifacts = (withUpdatedProperties dto db).artifacts from rfl,
      hfilter]
    apply Rows.updateWhere_eq_self
    intro a ha hid
    exact h a ha (by simpa using hid)

/-- No artifact of another project that the user may change changes. -/
def MetadataStaysInside (p : ℕ) (dto : UpdateFilePropertiesDto) (db : UploadDb) : Prop :=
  ∀ a ∈ db.outsideArtifacts p, some a.id = dto.id → isEditable env db a = true →
    withProperties dto a = a

theorem updateFileMetadata_confined_iff (hdb : db.Constraints) (dto : UpdateFilePropertiesDto) :
    db.Confined p (updateFileMetadata env dto db).2 ↔ MetadataStaysInside env p dto db := by
  unfold updateFileMetadata MetadataStaysInside
  rw [gets_bind_run]
  cases hid : dto.id with
  | none =>
      have hself : withUpdatedProperties dto db = db := by
        unfold withUpdatedProperties
        rw [Rows.updateWhere_eq_self (by simp [hid])]
      have hrun : ∀ a, (updateFoundArtifact env dto a db).2 = db := by
        intro a
        rw [updateFoundArtifact_run, hself, ite_self]
      cases db.artifacts.head? with
      | none => simp [UploadDb.Confined]
      | some a =>
          show db.Confined p (updateFoundArtifact env dto a db).2 ↔ _
          rw [hrun]
          simp [UploadDb.Confined]
  | some id =>
      cases hfind : Rows.findKey ReleaseArtifact.id id db.artifacts with
      | none =>
          have hnone : ∀ a ∈ db.artifacts, a.id ≠ id := by
            simpa [Rows.findKey] using hfind
          simp only [hfind, throw_run, UploadDb.Confined, true_iff]
          intro a ha haid
          exact absurd (by simpa using haid) (hnone a (List.mem_filter.mp ha).1)
      | some found =>
          obtain ⟨hmem, hkey⟩ := Rows.findKey_some hfind
          simp only [hfind]
          rw [updateFoundArtifact_run]
          have honly : ∀ a ∈ db.outsideArtifacts p, some a.id = some id → a = found := by
            intro a ha haid
            exact hdb.artifactKeys.eq_of_mem (List.mem_filter.mp ha).1 hmem
              (by rw [hkey]; simpa using haid)
          by_cases hedit : isEditable env db found = true
          · by_cases hprops : hasProperties dto = true
            · rw [hedit, hprops, Bool.and_self, if_pos rfl, confined_withUpdatedProperties_iff, hid]
              constructor
              · exact fun h a ha haid _ => h a ha haid
              · intro h a ha haid
                exact h a ha haid (by rw [honly a ha haid]; exact hedit)
            · have hpropsf : hasProperties dto = false := by simpa using hprops
              simp [hpropsf, UploadDb.Confined, withProperties_none hpropsf]
          · have heditf : isEditable env db found = false := by simpa using hedit
            simp only [heditf, Bool.false_and, Bool.false_eq_true, if_false, UploadDb.Confined,
              true_iff]
            intro a ha haid hea
            rw [honly a ha haid, heditf] at hea
            cases hea

/-! ### Component uploads -/

/-- The newest ready upload of the slot, once the upload has its new status. -/
def newestReady (dto : UpdateUploadStatusDto) (base : UploadVersion) (db : UploadDb) :
    Option UploadVersion :=
  latestUpload (clearLatest base (setUploadStatus dto db.uploadVersions)) base

/-- The upload has the status already and is flagged exactly if it is the newest ready one. -/
def IsSettled (dto : UpdateUploadStatusDto) (base : UploadVersion) (db : UploadDb)
    (u : UploadVersion) : Prop :=
  (u.catalogId = dto.catalogId → u.uploadStatus = dto.status) ∧
  (sameSlot base u = true →
    u.latest = (newestReady dto base db).any fun v => v.catalogId == u.catalogId)

/-- The uploads outside the project, in the slot of the one that changes, are settled. -/
def UploadsStayInside (p : ℕ) (dto : UpdateUploadStatusDto) (db : UploadDb) : Prop :=
  ∀ base ∈ db.uploadVersions, base.catalogId = dto.catalogId →
    ∀ u ∈ db.uploadVersions, u.projectId ≠ some p → IsSettled dto base db u

/-- One row after all the writes. -/
def settledUpload (dto : UpdateUploadStatusDto) (base : UploadVersion)
    (newest : Option UploadVersion) (u : UploadVersion) : UploadVersion :=
  { u with
    uploadStatus := if u.catalogId = dto.catalogId then dto.status else u.uploadStatus
    latest := if sameSlot base u then newest.any fun v => v.catalogId == u.catalogId
      else u.latest }

theorem latestUpload_some {uploads : List UploadVersion} {base v : UploadVersion}
    (h : latestUpload uploads base = some v) : v ∈ uploads ∧ sameSlot base v = true := by
  have hmem := List.mem_of_mem_head? h
  rw [List.mem_insertionSort] at hmem
  obtain ⟨hv, hcond⟩ := List.mem_filter.mp hmem
  exact ⟨hv, (Bool.and_eq_true_iff.mp hcond).1⟩

/-- The newest ready upload is in the slot. -/
theorem newestReady_sameSlot (hdb : db.Constraints) {dto : UpdateUploadStatusDto}
    {base u v : UploadVersion} (hv : newestReady dto base db = some v) (hu : u ∈ db.uploadVersions)
    (hkey : v.catalogId = u.catalogId) : sameSlot base u = true := by
  obtain ⟨hmem, hslot⟩ := latestUpload_some hv
  have hfrom : ∃ x ∈ db.uploadVersions, x.catalogId = v.catalogId ∧
      sameSlot base x = sameSlot base v := by
    rcases Rows.mem_updateWhere.mp hmem with ⟨y, hy, -, rfl⟩ | ⟨hy, -⟩
    · rcases Rows.mem_updateWhere.mp hy with ⟨x, hx, -, rfl⟩ | ⟨hx, -⟩
      · exact ⟨x, hx, rfl, rfl⟩
      · exact ⟨y, hx, rfl, rfl⟩
    · rcases Rows.mem_updateWhere.mp hy with ⟨x, hx, -, rfl⟩ | ⟨hx, -⟩
      · exact ⟨x, hx, rfl, rfl⟩
      · exact ⟨v, hx, rfl, rfl⟩
  obtain ⟨x, hx, hxkey, hxslot⟩ := hfrom
  rw [← hdb.uploadKeys.eq_of_mem hx hu (hxkey.trans hkey), hxslot]
  exact hslot

/-- One row through the first two writes. -/
theorem clearLatest_row (dto : UpdateUploadStatusDto) (base u : UploadVersion) :
    (let v := if u.catalogId == dto.catalogId then { u with uploadStatus := dto.status } else u
      if sameSlot base v && v.latest then { v with latest := false } else v) =
      settledUpload dto base none u := by
  obtain ⟨catalogId, platform, component, formation, version, createdDate, status, latest,
    projectId⟩ := u
  by_cases hkey : catalogId = dto.catalogId <;>
    by_cases hslot : (platform = base.platform ∧ component = base.component) ∧
      formation = base.formation <;>
    cases latest <;> simp [settledUpload, sameSlot, hkey, hslot]

/-- The rows after the writes. -/
theorem updateUploads_eq_map (hdb : db.Constraints) (dto : UpdateUploadStatusDto)
    (base : UploadVersion) :
    markLatest base (clearLatest base (setUploadStatus dto db.uploadVersions)) =
      db.uploadVersions.map (settledUpload dto base (newestReady dto base db)) := by
  have hclear : clearLatest base (setUploadStatus dto db.uploadVersions) =
      db.uploadVersions.map (settledUpload dto base none) := by
    simp only [clearLatest, setUploadStatus, Rows.updateWhere, List.map_map]
    exact List.map_congr_left fun u _ => clearLatest_row dto base u
  unfold markLatest
  rw [show latestUpload (clearLatest base (setUploadStatus dto db.uploadVersions)) base =
    newestReady dto base db from rfl]
  cases hnew : newestReady dto base db with
  | none => exact hclear
  | some v =>
      simp only [hclear, Rows.updateWhere, List.map_map]
      refine List.map_congr_left fun u hu => ?_
      by_cases hkey : u.catalogId = v.catalogId
      · have hslot := newestReady_sameSlot hdb hnew hu hkey.symm
        simp [settledUpload, hkey, hslot]
      · have hkey' : v.catalogId ≠ u.catalogId := fun h => hkey h.symm
        by_cases hslot : sameSlot base u = true <;> simp [settledUpload, hkey, hkey', hslot]

/-- A settled row is one that the writes leave as it is. -/
theorem settledUpload_eq_self_iff (dto : UpdateUploadStatusDto) (base u : UploadVersion) :
    settledUpload dto base (newestReady dto base db) u = u ↔ IsSettled dto base db u := by
  unfold settledUpload IsSettled
  constructor
  · intro h
    have hstatus := congrArg UploadVersion.uploadStatus h
    have hlatest := congrArg UploadVersion.latest h
    refine ⟨fun hkey => ?_, fun hslot => ?_⟩
    · simpa [hkey] using hstatus.symm
    · simpa [hslot] using hlatest.symm
  · rintro ⟨hstatus, hlatest⟩
    have h₁ : (if u.catalogId = dto.catalogId then dto.status else u.uploadStatus) =
        u.uploadStatus := by
      split
      · rename_i hkey
        exact (hstatus hkey).symm
      · rfl
    have h₂ : (if sameSlot base u then (newestReady dto base db).any
        fun v => v.catalogId == u.catalogId else u.latest) = u.latest := by
      split
      · rename_i hslot
        exact (hlatest hslot).symm
      · rfl
    rw [h₁, h₂]

/-- `updateUploadStatus` on an upload that exists. -/
theorem updateUploadStatus_run (hdb : db.Constraints) {dto : UpdateUploadStatusDto}
    {base : UploadVersion} (hbase : base ∈ db.uploadVersions) (hkey : base.catalogId = dto.catalogId) :
    (updateUploadStatus dto db).2 = { db with
      uploadVersions := db.uploadVersions.map (settledUpload dto base (newestReady dto base db)) } := by
  have hany : db.uploadVersions.any (fun u => u.catalogId == dto.catalogId) = true :=
    List.any_eq_true.mpr ⟨base, hbase, by simpa using hkey⟩
  -- the upload that the flag is updated for is the one that got the status
  have hkeys : Rows.KeysDistinct UploadVersion.catalogId
      (setUploadStatus dto db.uploadVersions) := hdb.uploadKeys.updateWhere fun _ _ _ => rfl
  have hmem : ({ base with uploadStatus := dto.status } : UploadVersion) ∈
      setUploadStatus dto db.uploadVersions :=
    Rows.mem_updateWhere.mpr (.inl ⟨base, hbase, by simpa using hkey, rfl⟩)
  have hfound : Rows.findKey UploadVersion.catalogId dto.catalogId
      (setUploadStatus dto db.uploadVersions) = some { base with uploadStatus := dto.status } := by
    rw [← hkey]
    exact Rows.findKey_unique hkeys hmem
  unfold updateUploadStatus
  rw [gets_bind_run, if_pos hany, modify_bind_run]
  unfold updateLatestFlag
  rw [gets_bind_run]
  simp only [updateUploads, hfound]
  rw [modify_bind_run, modify_run]
  show ({ db with uploadVersions := markLatest base (clearLatest base
    (setUploadStatus dto db.uploadVersions)) } : UploadDb) = _
  rw [updateUploads_eq_map hdb]

/-- The rows of other projects after the writes are the same exactly if they are settled. -/
theorem updateUploadStatus_confined_iff (hdb : db.Constraints) (dto : UpdateUploadStatusDto) :
    db.Confined p (updateUploadStatus dto db).2 ↔ UploadsStayInside p dto db := by
  unfold UploadsStayInside
  by_cases hany : ∃ base ∈ db.uploadVersions, base.catalogId = dto.catalogId
  · obtain ⟨base, hbase, hkey⟩ := hany
    have honly : ∀ b ∈ db.uploadVersions, b.catalogId = dto.catalogId → b = base :=
      fun b hb hbkey => hdb.uploadKeys.eq_of_mem hb hbase (hbkey.trans hkey.symm)
    rw [updateUploadStatus_run hdb hbase hkey]
    have hfilter : (db.uploadVersions.map
        (settledUpload dto base (newestReady dto base db))).filter (fun u => u.projectId != some p) =
        ((db.outside p).uploadVersions).map (settledUpload dto base (newestReady dto base db)) := by
      rw [List.filter_map]
      rfl
    have hsame : db.Confined p { db with
        uploadVersions := db.uploadVersions.map
          (settledUpload dto base (newestReady dto base db)) } ↔
        ((db.outside p).uploadVersions).map (settledUpload dto base (newestReady dto base db)) =
          (db.outside p).uploadVersions.map id := by
      rw [List.map_id, ← hfilter]
      constructor
      · intro h
        exact congrArg Outside.uploadVersions h
      · intro h
        show ({ db.outside p with uploadVersions := _ } : Outside) = db.outside p
        rw [h]
    rw [hsame, List.map_inj_left]
    constructor
    · intro h b hb hbkey u hu hup
      rw [honly b hb hbkey]
      exact (settledUpload_eq_self_iff dto base u).mp
        (h u (List.mem_filter.mpr ⟨hu, by simpa using hup⟩))
    · intro h u hu
      obtain ⟨humem, hup⟩ := List.mem_filter.mp hu
      exact (settledUpload_eq_self_iff dto base u).mpr
        (h base hbase hkey u humem (by simpa using hup))
  · push Not at hany
    have hnone : ¬ db.uploadVersions.any (fun u => u.catalogId == dto.catalogId) = true := by
      simpa using hany
    have hrun : (updateUploadStatus dto db).2 = db := by
      unfold updateUploadStatus
      rw [gets_bind_run, if_neg hnone]
      rfl
    rw [hrun]
    simp only [UploadDb.Confined, true_iff]
    intro base hbase hkey
    exact absurd hkey (hany base hbase)

/-! ### Releases -/

/-- The releases outside, moved to make room at the position. -/
def Outside.shift (o : Outside) (position : Option ℕ) : Outside :=
  match position with
  | none => o
  | some n => { o with releases := ReleaseSubscriber.shiftSortOrder n o.releases }

/-- The position of a new row in the sort order; a version that is none gets no position. -/
def positionOf (inserted : Release) (releases : List Release) : Option ℕ :=
  if env.semver.valid inserted.version then
    some (ReleaseSubscriber.newSortOrder env.semver inserted (releases ++ [inserted]))
  else none

theorem Outside.shift_eq_self_iff (position : Option ℕ) :
    o.shift position = o ↔ ∀ n, position = some n → ∀ r ∈ o.releases, r.sortOrder < n := by
  cases position with
  | none => simp [Outside.shift]
  | some n =>
      have hiff : o.shift (some n) = o ↔
          ReleaseSubscriber.shiftSortOrder n o.releases = o.releases := by
        constructor
        · exact fun h => congrArg Outside.releases h
        · intro h
          show ({ o with releases := _ } : Outside) = o
          rw [h]
      rw [hiff]
      constructor
      · intro h m hm r hr
        obtain rfl := Option.some.inj hm
        by_contra hle
        have hself := Rows.eq_of_updateWhere_eq h hr (by simpa using hle)
        have := congrArg Release.sortOrder hself
        simp at this
      · intro h
        apply Rows.updateWhere_eq_self
        intro r hr hle
        have := h n rfl r hr
        simp only [decide_eq_true_eq] at hle
        omega

/-- The rows that an insert for the project leaves of a selection without it. -/
theorem afterInsert_outside {inserted : Release} (hp : inserted.projectId = p)
    (hfree : ∀ r ∈ db.releases, r.catalogId ≠ inserted.catalogId) :
    ((ReleaseSubscriber.afterInsert env.semver inserted (db.releases ++ [inserted])).filter
      fun r => r.projectId != p) =
      ((db.outside p).shift (positionOf env inserted db.releases)).releases := by
  have happend : ((db.releases ++ [inserted]).filter fun r => r.projectId != p) =
      db.outsideReleases p := by
    rw [List.filter_append]
    simp [hp, UploadDb.outsideReleases]
  simp only [ReleaseSubscriber.afterInsert, positionOf]
  by_cases hvalid : env.semver.valid inserted.version = true
  · rw [if_pos hvalid, if_pos hvalid]
    have hshift : ((ReleaseSubscriber.shiftSortOrder
        (ReleaseSubscriber.newSortOrder env.semver inserted (db.releases ++ [inserted]))
        (db.releases ++ [inserted])).filter fun r => r.projectId != p) =
        ReleaseSubscriber.shiftSortOrder
          (ReleaseSubscriber.newSortOrder env.semver inserted (db.releases ++ [inserted]))
          (db.outsideReleases p) := by
      rw [← happend]
      apply Rows.filter_updateWhere_comm
      exact fun _ _ _ => rfl
    rw [Rows.filter_updateWhere_comm]
    · rw [hshift]
      apply Rows.updateWhere_eq_self
      intro r hr hkey
      have hold : ∃ x ∈ db.releases, x.catalogId = r.catalogId := by
        rcases Rows.mem_updateWhere.mp hr with ⟨x, hx, -, rfl⟩ | ⟨hx, -⟩
        · exact ⟨x, (List.mem_filter.mp hx).1, rfl⟩
        · exact ⟨r, (List.mem_filter.mp hx).1, rfl⟩
      obtain ⟨x, hx, hxkey⟩ := hold
      exact absurd (hxkey.trans (by simpa using hkey)) (hfree x hx)
    · exact fun _ _ _ => rfl
  · rw [if_neg hvalid, if_neg hvalid]
    exact happend

/-- A new release of the project: what is outside is moved in the sort order. -/
theorem Inside.insertRelease (h : Inside p o closed db) {row inserted : Release}
    {releases : List Release} (hrow : row.projectId = p)
    (hins : insertRelease env.semver db.projects row db.releases = some (inserted, releases)) :
    o.hasRelease inserted.catalogId = false ∧
      Inside p (o.shift (positionOf env inserted db.releases)) closed
        { db with releases := releases } := by
  obtain ⟨hinserted, hfree, rfl⟩ := insertRelease_some hins
  have hp : inserted.projectId = p := by
    rw [hinserted]
    exact hrow
  have hsame := h.same
  subst hsame
  have hkey : (db.outside p).hasRelease inserted.catalogId = false := by
    rw [Outside.hasRelease, List.any_eq_false]
    intro r hr hkey
    exact hfree r (List.mem_filter.mp hr).1 (by simpa using hkey)
  refine ⟨hkey, ?_⟩
  have hreplace := h.replaceReleases (afterInsert_outside env hp hfree) ?_ ?_
  · have heta : ∀ position, ({ db.outside p with
        releases := ((db.outside p).shift position).releases } : Outside) =
        (db.outside p).shift position := by
      intro position
      cases position <;> rfl
    rw [heta] at hreplace
    exact hreplace
  · unfold Outside.shift
    split
    · rfl
    · exact Rows.map_updateWhere _ fun _ _ _ => rfl
  · intro r hr hrp
    obtain ⟨x, hx, n, rfl⟩ := mem_afterInsert hr
    rcases List.mem_append.mp hx with hx | hx
    · exact h.releases x hx hrp
    · rw [List.mem_singleton.mp hx]
      exact hkey

/-- The checks of `setRelease` write nothing. -/
theorem prepareRelease_reads (dto : SetReleaseDto) :
    Keeps (fun s => s = db) (prepareRelease env dto) := by
  refine Keeps.bind (Keeps.gets _) fun existing => ?_
  refine Keeps.bind (Keeps.gets _) fun ofProject => ?_
  refine Keeps.bind (fun s hs => ?_) fun _ => ?_
  · obtain ⟨result, hrun, -⟩ := checkReadonlyReleasePermission_run env
      (existing.getD (Release.create dto.projectId dto.version)).status s
    rw [hrun]
    exact hs
  · refine Keeps.bind (Keeps.gets _) fun required => ?_
    refine Keeps.bind ?_ fun dependencies => Keeps.pure _
    unfold requestedDependencies
    cases dto.dependencies with
    | none => exact Keeps.pure _
    | some dependencies =>
        refine Keeps.bind (Keeps.bind (Keeps.gets _) fun entities => ?_) fun _ => Keeps.pure _
        exact Keeps.ite (Keeps.throw _) (Keeps.ite (Keeps.throw _) (Keeps.pure _))

/-- The row that `setRelease` is about to save. -/
theorem prepareRelease_ok {dto : SetReleaseDto} {isNew : Bool} {row : Release}
    {dependencies : Option (List Release)} {db' : UploadDb}
    (h : prepareRelease env dto db = (.ok (isNew, row, dependencies), db')) :
    row.projectId = dto.projectId ∧
      (isNew = false → ∃ r ∈ db.releases, r.projectId = dto.projectId ∧
        r.catalogId = row.catalogId) := by
  unfold prepareRelease at h
  rw [gets_bind_run, gets_bind_run] at h
  obtain ⟨_, db₁, -, h₁⟩ := bind_ok_inv h
  rw [gets_bind_run] at h₁
  obtain ⟨deps, db₂, -, h₂⟩ := bind_ok_inv h₁
  simp only [pure_run, Prod.mk.injEq, Except.ok.injEq] at h₂
  obtain ⟨⟨rfl, rfl, rfl⟩, rfl⟩ := h₂
  cases hfind : db.findRelease dto.projectId dto.version with
  | none => exact ⟨rfl, fun hnew => by simp at hnew⟩
  | some r =>
      obtain ⟨hmem, hp, -⟩ := UploadDb.findRelease_some hfind
      exact ⟨hp, fun _ => ⟨r, hmem, hp, rfl⟩⟩

/-- The position at which the request inserts a release, if it inserts one. -/
def insertedAt (dto : SetReleaseDto) (db : UploadDb) : Option ℕ :=
  match (prepareRelease env dto db).1 with
  | .ok (true, row, _) => match insertRelease env.semver db.projects row db.releases with
    | some (inserted, _) => positionOf env inserted db.releases
    | none => none
  | _ => none

/-- What follows the save of `setRelease` stays inside. -/
theorem saveRelations_inside {dto : SetReleaseDto} (hp : dto.projectId = p)
    {catalogId : String} (hkey : o.hasRelease catalogId = false) (isNew : Bool)
    (dependencies : Option (List Release)) :
    Keeps (Inside p o closed) (saveRelations dto isNew dependencies catalogId) := by
  refine Keeps.bind (Keeps.modify fun db h => ?_) fun _ => ?_
  · cases dependencies with
    | none => exact h
    | some entities => exact h.saveDependencies hkey entities
  · refine Keeps.bind (Keeps.when (Keeps.modify fun db h => h.linkDefaultRule hkey)) fun _ => ?_
    rw [hp]
    exact Keeps.modify fun db h => h.updateTotalSize dto.version

theorem Outside.shift_hasRelease (position : Option ℕ) (c : String) :
    (o.shift position).hasRelease c = o.hasRelease c := by
  unfold Outside.shift
  split
  · rfl
  · apply any_key_congr
    apply Rows.map_updateWhere
    exact fun _ _ _ => rfl

/-- After the writes of `setRelease` that come before the status, what is outside is
moved to make room for a new row, and that is all. -/
theorem storeRelease_inside (h : Inside p o closed db) {dto : SetReleaseDto}
    (hp : dto.projectId = p) :
    Inside p (o.shift (insertedAt env dto db)) closed (storeRelease env dto db).2 := by
  have hreads := prepareRelease_reads env dto db rfl
  unfold storeRelease
  rcases hprep : prepareRelease env dto db with ⟨result, db₁⟩
  rw [hprep] at hreads
  obtain rfl : db₁ = db := hreads
  cases result with
  | error e =>
      rw [bind_run_error hprep, insertedAt, hprep]
      exact h
  | ok found =>
      obtain ⟨isNew, row, dependencies⟩ := found
      obtain ⟨hrow, hold⟩ := prepareRelease_ok env hprep
      rw [bind_run_ok hprep]
      show Inside p _ closed ((saveRelease env isNew row >>= saveRelations dto isNew dependencies) db₁).2
      cases isNew with
      | true =>
          cases hins : insertRelease env.semver db₁.projects row db₁.releases with
          | none =>
              have hsave : saveRelease env true row db₁ = (.error (.queryFailed
                  "duplicate key value violates unique constraint"), db₁) := by
                simp [saveRelease, hins]
              rw [bind_run_error hsave]
              simp only [insertedAt, hprep, hins]
              exact h
          | some inserted =>
              obtain ⟨inserted, releases⟩ := inserted
              have hsave : saveRelease env true row db₁ =
                  (.ok inserted.catalogId, { db₁ with releases := releases }) := by
                simp [saveRelease, hins]
              obtain ⟨hkey, hin⟩ := h.insertRelease env (hrow.trans hp) hins
              rw [bind_run_ok hsave]
              simp only [insertedAt, hprep, hins]
              exact saveRelations_inside hp ((Outside.shift_hasRelease _ _).trans hkey) _ _ _ hin
      | false =>
          obtain ⟨r, hr, hrp, hrkey⟩ := hold rfl
          have hkey : o.hasRelease row.catalogId = false :=
            hrkey ▸ h.releases r hr (hrp.trans hp)
          have hin : Inside p o closed
              (updateReleases (fun x => x.catalogId == row.catalogId) (fun _ => row) db₁) := by
            refine h.updateReleases (fun x hx hxkey => ?_) (fun x hx hxkey => ?_)
            · have : x.catalogId = row.catalogId := by simpa using hxkey
              exact h.projectId hx (this ▸ hkey)
            · have hx' : x.catalogId = row.catalogId := by simpa using hxkey
              exact ⟨(hrow.trans hp).trans (h.projectId hx (hx' ▸ hkey)).symm, hx'.symm⟩
          have hnone : insertedAt env dto db₁ = none := by simp [insertedAt, hprep]
          have hsave : saveRelease env false row db₁ = (.ok row.catalogId,
              updateReleases (fun x => x.catalogId == row.catalogId) (fun _ => row) db₁) := rfl
          rw [hnone, bind_run_ok hsave]
          exact saveRelations_inside hp hkey _ _ _ hin

/-- A new release moves no release of another project. -/
def ReleaseStaysInside (p : ℕ) (dto : SetReleaseDto) (db : UploadDb) : Prop :=
  ∀ n, insertedAt env dto db = some n → ∀ r ∈ db.releases, r.projectId ≠ p → r.sortOrder < n

theorem resolveProject_reads (projectIdentifier : Option Identifier) (projectId : ℕ) :
    Keeps (fun s => s = db) (resolveProject projectIdentifier projectId) := by
  cases projectIdentifier with
  | none => exact Keeps.pure _
  | some i =>
      cases i with
      | id n => exact Keeps.pure _
      | name s =>
          refine Keeps.bind (Keeps.gets _) fun found => ?_
          cases found with
          | none => exact Keeps.throw _
          | some project => exact Keeps.pure _

theorem getRelease_reads (projectIdentifier : Option Identifier) (projectId : ℕ)
    (version : String) : Keeps (fun s => s = db) (getRelease projectIdentifier projectId version) := by
  refine Keeps.bind (resolveProject_reads _ _) fun id => Keeps.bind (Keeps.gets _) fun found => ?_
  cases found with
  | none => exact Keeps.throw _
  | some loaded => exact Keeps.pure _

/-- A program that writes nothing keeps every invariant. -/
theorem keeps_of_reads {α : Type} {I : UploadDb → Prop} {prog : UploadProg α}
    (h : ∀ db, Keeps (fun s => s = db) prog) : Keeps I prog := by
  intro s hs
  rw [h s s rfl]
  exact hs

/-- After `setRelease`, what is outside is moved to make room for a new row. -/
theorem setRelease_inside (h : Inside p o closed db) {dto : SetReleaseDto} (hp : dto.projectId = p)
    (hclosed : closed → NoForeignDependents (o.shift (insertedAt env dto db))) :
    Inside p (o.shift (insertedAt env dto db)) closed (setRelease env dto db).2 := by
  unfold setRelease
  refine Keeps.bind_after (storeRelease_inside env h hp) fun _ => ?_
  refine Keeps.bind ?_ fun _ => ?_
  · unfold followStatus
    rw [hp]
    exact Keeps.ite (Keeps.modify fun db h => h.updateLatestForProject)
      (refreshReleaseState_inside env hclosed dto.version)
  · exact Keeps.bind (keeps_of_reads fun db => getRelease_reads _ _ _) fun _ => Keeps.pure _

theorem UploadDb.mem_outside_releases {r : Release} :
    r ∈ (db.outside p).releases ↔ r ∈ db.releases ∧ r.projectId ≠ p := by
  show r ∈ db.releases.filter (fun r => r.projectId != p) ↔ _
  simp

theorem setRelease_confined_iff (hdb : db.Constraints) {dto : SetReleaseDto}
    (hp : dto.projectId = p) :
    db.Confined p (setRelease env dto db).2 ↔ ReleaseStaysInside env p dto db := by
  have hin := setRelease_inside env (hdb.inside p False.elim) hp False.elim
  unfold UploadDb.Confined ReleaseStaysInside
  rw [hin.same, Outside.shift_eq_self_iff]
  constructor
  · intro h n hn r hr hrp
    exact h n hn r (UploadDb.mem_outside_releases.mpr ⟨hr, hrp⟩)
  · intro h n hn r hr
    obtain ⟨hmem, hrp⟩ := UploadDb.mem_outside_releases.mp hr
    exact h n hn r hmem hrp

/-! ### Artifacts -/

/-- The row of a file upload as the upsert changes it. -/
def reusedFile (fileName userId bucketName : String) (f : FileUpload) : FileUpload :=
  { f with fileName := fileName, userId := userId, bucketName := bucketName }

def Outside.reuseFile (o : Outside) (objectKey fileName userId bucketName : String) : Outside :=
  { o with
    fileUploads := Rows.updateWhere (fun f => f.objectKey == objectKey)
      (reusedFile fileName userId bucketName) o.fileUploads }

/-- The file upload behind an upload URL: the row with its object key is reused. -/
theorem Inside.upsertFileUpload (h : Inside p o closed db)
    (fileName userId objectKey bucketName : String) :
    Inside p (o.reuseFile objectKey fileName userId bucketName) closed
      (upsertFileUpload fileName userId objectKey bucketName db).2 := by
  have hsame := h.same
  subst hsame
  unfold FileUploadService.upsertFileUpload
  cases hfind : Rows.findKey FileUpload.objectKey objectKey db.fileUploads with
  | some file =>
      refine { h with same := ?_ }
      show ({ db.outside p with
        fileUploads := (Rows.updateWhere _ _ db.fileUploads).filter fun f =>
          (db.outside p).hasFile f.id } : Outside) = _
      rw [Rows.filter_updateWhere_comm]
      · rfl
      · exact fun _ _ _ => rfl
  | none =>
      have hnone : ∀ f ∈ db.fileUploads, f.objectKey ≠ objectKey := by
        simpa [Rows.findKey] using hfind
      have hself : (db.outside p).reuseFile objectKey fileName userId bucketName =
          db.outside p := by
        unfold Outside.reuseFile
        rw [Rows.updateWhere_eq_self]
        intro f hf hkey
        exact absurd (by simpa using hkey) (hnone f (List.mem_filter.mp hf).1)
      rw [hself]
      refine { h with same := ?_, fresh := fun n hn => h.fresh n (Nat.le_of_succ_le hn) }
      show ({ db.outside p with
        fileUploads := (db.fileUploads ++ [newFileUpload db.nextId fileName userId objectKey
          bucketName]).filter fun f => (db.outside p).hasFile f.id } : Outside) = db.outside p
      have hnew : [newFileUpload db.nextId fileName userId objectKey bucketName].filter
          (fun f => (db.outside p).hasFile f.id) = [] := by
        simp [newFileUpload, (h.fresh db.nextId le_rfl).2.1]
      rw [List.filter_append, hnew, List.append_nil]
      rfl

theorem isSameArtifact_spec {dto : SetReleaseArtifactDto} {catalogId : String}
    {fileUploadId : Option ℕ} {a : ReleaseArtifact}
    (h : isSameArtifact dto catalogId fileUploadId a = true) :
    a.releaseId = catalogId ∧ a.type = dto.type ∧
      (dto.type = .file → a.fileUploadId = fileUploadId) := by
  unfold isSameArtifact at h
  cases htype : dto.type <;> simp_all

theorem typeColumns_spec (dto : SetReleaseArtifactDto) (fileUploadId : Option ℕ)
    (a : ReleaseArtifact) :
    (typeColumns dto fileUploadId a).releaseId = a.releaseId ∧
      (typeColumns dto fileUploadId a).id = a.id ∧
      (typeColumns dto fileUploadId a).type = a.type ∧
      (typeColumns dto fileUploadId a).fileUploadId =
        if dto.type = .file then fileUploadId else a.fileUploadId := by
  unfold typeColumns
  cases htype : dto.type <;> simp

/-- The upsert of an artifact of the project. -/
theorem upsertArtifact_inside {dto : SetReleaseArtifactDto} {catalogId : String}
    {fileUploadId : Option ℕ} (hkey : o.hasRelease catalogId = false) :
    Keeps (Inside p o closed) (upsertArtifact dto catalogId fileUploadId) := by
  intro db h
  unfold upsertArtifact
  cases hfind : db.artifacts.find? (isSameArtifact dto catalogId fileUploadId) with
  | some a =>
      refine h.updateArtifacts (fun b _ hb => ?_) (fun b _ hb => ?_)
      · rw [(isSameArtifact_spec hb).1]
        exact hkey
      · obtain ⟨-, htype, hfile⟩ := isSameArtifact_spec hb
        obtain ⟨h₁, h₂, h₃, h₄⟩ := typeColumns_spec dto fileUploadId (changedArtifact dto b)
        refine ⟨h₁, h₂, ?_, h₃.trans htype.symm⟩
        rw [h₄]
        split
        · rename_i hdto
          exact (hfile hdto).symm
        · rfl
  | none =>
      by_cases htaken : (fileUploadId.isSome &&
          db.artifacts.any fun a => a.fileUploadId == fileUploadId) = true
      · simp only [htaken, if_true]
        exact h
      · simp only [htaken]
        obtain ⟨h₁, h₂, h₃, h₄⟩ := typeColumns_spec dto fileUploadId
          (changedArtifact dto (newArtifact db.nextId catalogId))
        refine h.appendArtifact ?_ ?_ (fun id hid => ?_) (fun hne => ?_) (Nat.le_succ _)
        · rw [h₁]
          exact hkey
        · rw [h₂]
          exact (h.fresh db.nextId le_rfl).1
        · rw [h₄] at hid
          split at hid
          · by_contra hfile
            apply htaken
            have htrue : o.hasFile id = true := by simpa using hfile
            obtain ⟨b, hb, hbfile⟩ := List.any_eq_true.mp htrue
            have hmem : b ∈ db.artifacts := by
              rw [← h.same] at hb
              exact (List.mem_filter.mp hb).1
            simp only [hid, Option.isSome_some, Bool.true_and, List.any_eq_true]
            exact ⟨b, hmem, hbfile⟩
          · cases hid
        · rw [h₃] at hne
          rw [h₄, if_neg (show ¬ dto.type = .file from hne)]
          rfl

/-- The file upload row that a file artifact of the request reuses, where it gets that far. -/
def reusesFile (p : ℕ) (dto : SetReleaseArtifactDto) (db : UploadDb) : Bool :=
  dto.type == .file &&
    (db.findRelease p dto.version).any fun r => !isReadonly env r.status

def artifactObjectKey (p : ℕ) (dto : SetReleaseArtifactDto) : String :=
  let version := dto.version
  createObjectKey "release" s!"{p}/{version}" dto.artifactName

/-- What is outside after the request: its file upload row is reused wherever it belongs. -/
def afterArtifact (p : ℕ) (dto : SetReleaseArtifactDto) (db : UploadDb) (o : Outside) : Outside :=
  if reusesFile env p dto db then
    o.reuseFile (artifactObjectKey p dto) dto.artifactName "release" env.bucketName
  else o

theorem setReleaseArtifact_inside (h : Inside p o closed db) {dto : SetReleaseArtifactDto}
    (hp : dto.projectId = p) :
    Inside p (afterArtifact env p dto db o) closed (setReleaseArtifact env dto db).2 := by
  unfold setReleaseArtifact
  rw [gets_bind_run, hp]
  cases hfind : db.findRelease p dto.version with
  | none =>
      have hno : reusesFile env p dto db = false := by simp [reusesFile, hfind]
      simp only [afterArtifact, hno]
      exact h
  | some release =>
      obtain ⟨hmem, hproject, -⟩ := UploadDb.findRelease_some hfind
      have hkey := h.releases release hmem hproject
      rw [checkReadonlyReleasePermission_bind]
      by_cases hreadonly : isReadonly env release.status = true
      · have hno : reusesFile env p dto db = false := by simp [reusesFile, hfind, hreadonly]
        simp only [afterArtifact, hno, hreadonly, if_true]
        exact h
      · rw [if_neg hreadonly]
        have hrest : ∀ o', o'.hasRelease release.catalogId = false → ∀ fileUploadId,
            Keeps (Inside p o' closed) (do
              let artifactId ← upsertArtifact dto release.catalogId fileUploadId
              modify (updateTotalSize p dto.version)
              when (dto.type != .file) (modify (start (.refreshReleaseState p dto.version)))
              pure artifactId : UploadProg ℕ) := by
          intro o' hkey' fileUploadId
          refine Keeps.bind (upsertArtifact_inside hkey') fun artifactId => ?_
          refine Keeps.bind (Keeps.modify fun db h => h.updateTotalSize dto.version) fun _ => ?_
          refine Keeps.bind (Keeps.when (Keeps.modify fun db h => ?_)) fun _ => Keeps.pure _
          exact h.start fun _ => rfl
        refine Keeps.bind_after ?_ fun fileUploadId => hrest _ ?_ fileUploadId
        · unfold artifactFile
          cases htype : dto.type with
          | file =>
              have hyes : reusesFile env p dto db = true := by
                simp [reusesFile, hfind, hreadonly, htype]
              simp only [afterArtifact, hyes, if_true, hp]
              exact h.upsertFileUpload _ _ _ _
          | dockerImage | rpm | deb =>
              have hno : reusesFile env p dto db = false := by simp [reusesFile, htype]
              simp only [afterArtifact, hno]
              exact h
        · unfold afterArtifact
          split
          · exact hkey
          · exact hkey

/-- The file upload row of the request, if another project holds it, is the same already. -/
def ArtifactStaysInside (p : ℕ) (dto : SetReleaseArtifactDto) (db : UploadDb) : Prop :=
  reusesFile env p dto db = true → ∀ f ∈ (db.outside p).fileUploads,
    f.objectKey = artifactObjectKey p dto →
      reusedFile dto.artifactName "release" env.bucketName f = f

theorem setReleaseArtifact_confined_iff (hdb : db.Constraints) {dto : SetReleaseArtifactDto}
    (hp : dto.projectId = p) :
    db.Confined p (setReleaseArtifact env dto db).2 ↔ ArtifactStaysInside env p dto db := by
  have hin := setReleaseArtifact_inside env (hdb.inside p False.elim) hp
  unfold UploadDb.Confined ArtifactStaysInside
  rw [hin.same, afterArtifact]
  by_cases hreuses : reusesFile env p dto db = true
  · rw [if_pos hreuses]
    constructor
    · intro h _ f hf hkey
      have hfiles := congrArg Outside.fileUploads h
      exact Rows.eq_of_updateWhere_eq hfiles hf (by simpa using hkey)
    · intro h
      unfold Outside.reuseFile
      rw [Rows.updateWhere_eq_self]
      intro f hf hkey
      exact h hreuses f hf (by simpa using hkey)
  · rw [if_neg hreuses]
    exact ⟨fun _ hyes => absurd hyes hreuses, fun _ => rfl⟩

end UploadService
