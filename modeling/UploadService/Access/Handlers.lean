import UploadService.Access.Outside

/-!
# The steps of the handlers stay inside

Every step of a handler that goes by the id of the authorised project, or by rows found
under it, keeps what is outside the project: the refresh of a release, the check of its
files, the writes on regulation statuses, the deletes of a release's contents.
-/

namespace UploadService

open Prog ReleaseService FileUploadService RegulationStatusService

section Steps

variable {p : ℕ} {o : Outside} {closed : Prop} (env : UploadEnv)

/-- No release outside depends on one of the project. -/
def NoForeignDependents (o : Outside) : Prop :=
  ∀ d ∈ o.dependencies, o.hasRelease d.dependencyReleaseId = true

/-! ### Refreshes -/

theorem isRelease_project {version : String} {r : Release}
    (h : UploadDb.isRelease p version r = true) : r.projectId = p := by
  simp only [UploadDb.isRelease, Bool.and_eq_true, beq_iff_eq] at h
  exact h.1

/-- What is loaded of a release of the project is the project's. -/
structure LoadedInside (p : ℕ) (o : Outside) (closed : Prop) (loaded : LoadedRelease) : Prop where
  release : loaded.release.projectId = p
  key : o.hasRelease loaded.release.catalogId = false
  files : ∀ id ∈ fileIds loaded, o.hasFile id = false
  dependents : closed → ∀ dep ∈ loaded.dependentReleases, dep.projectId = p

theorem Inside.loaded {db : UploadDb} (h : Inside p o closed db)
    (hclosed : closed → NoForeignDependents o) {version : String} {loaded : LoadedRelease}
    (hload : db.getReleaseEntity p version = some loaded) : LoadedInside p o closed loaded := by
  obtain ⟨hfind, hloaded⟩ := UploadDb.getReleaseEntity_some hload
  obtain ⟨hmem, hp, -⟩ := UploadDb.findRelease_some hfind
  have hkey := h.releases _ hmem hp
  refine ⟨hp, hkey, fun id hid => ?_, fun hc dep hdep => ?_⟩
  · obtain ⟨⟨a, file⟩, ha, hfile⟩ := List.mem_filterMap.mp hid
    have hart := (List.mem_filter.mp (List.mem_filter.mp ha).1).1
    rw [hloaded] at hart
    obtain ⟨b, hb, hpair⟩ := List.mem_map.mp hart
    obtain ⟨rfl, rfl⟩ := Prod.mk.inj hpair
    obtain ⟨hbmem, hbrel⟩ := List.mem_filter.mp hb
    have hrel : o.hasRelease b.releaseId = false := by
      rw [show b.releaseId = loaded.release.catalogId by simpa using hbrel]
      exact hkey
    obtain ⟨f, hf, rfl⟩ := Option.map_eq_some_iff.mp hfile
    obtain ⟨fid, hfid, hff⟩ := Option.bind_eq_some_iff.mp hf
    rw [(Rows.findKey_some hff).2]
    exact h.files b hbmem hrel fid hfid
  · rw [hloaded] at hdep
    obtain ⟨d, hd, hdep⟩ := List.mem_filterMap.mp hdep
    obtain ⟨hdmem, hdkey⟩ := List.mem_filter.mp hd
    obtain ⟨hdepmem, hdepkey⟩ := Rows.findKey_some hdep
    by_contra hne
    have hout : db.isOutside p d.releaseId = true :=
      List.any_eq_true.mpr ⟨dep, List.mem_filter.mpr ⟨hdepmem, by simpa using hne⟩, by simp [hdepkey]⟩
    have hdo : d ∈ o.dependencies := by
      rw [← h.same]
      exact List.mem_filter.mpr ⟨hdmem, hout⟩
    have := hclosed hc d hdo
    rw [show d.dependencyReleaseId = loaded.release.catalogId by simpa using hdkey, hkey] at this
    cases this

theorem syncAndCheckMissingFiles_inside {ids : List ℕ} (hids : ∀ id ∈ ids, o.hasFile id = false) :
    Keeps (Inside p o closed) (syncAndCheckMissingFiles env ids) := by
  unfold syncAndCheckMissingFiles
  refine Keeps.gets_bind (P := fun files => ∀ f ∈ files, o.hasFile f.id = false) ?_ ?_
  · intro db _ f hf
    exact hids f.id (by simpa using (List.mem_filter.mp hf).2)
  · intro files hfiles
    refine Keeps.foldEach (fun missing f hf => ?_) false
    unfold checkMissingFile
    refine Keeps.bind (Keeps.gets _) fun stat => ?_
    cases stat with
    | some _ => exact Keeps.pure _
    | none =>
        refine Keeps.bind (Keeps.when (Keeps.modify fun db h => ?_)) fun _ => Keeps.pure _
        exact h.updateFileUpload (hfiles f hf) fun _ => rfl

theorem Inside.updateLatestForProject {db : UploadDb} (h : Inside p o closed db) :
    Inside p o closed (updateLatestForProject p db) :=
  h.updateReleases (fun _ _ hq => by simpa using hq) fun _ _ _ => ⟨rfl, rfl⟩

theorem Inside.settle {db : UploadDb} (h : Inside p o closed db) {version : String}
    {loaded : LoadedRelease} (hloaded : LoadedInside p o closed loaded) (v : Verdict) :
    Inside p o closed (settle p version loaded v db) := by
  unfold ReleaseService.settle
  split
  · exact h
  · rename_i status _
    split
    · have hwrite : Inside p o closed (writeStatus p version status db) := by
        unfold writeStatus
        split
        · exact h.updateReleases (fun _ _ hq => isRelease_project hq) fun _ _ _ => ⟨rfl, rfl⟩
        · refine h.updateReleases (fun _ _ hq => ?_) fun _ _ _ => ⟨rfl, rfl⟩
          exact isRelease_project (Bool.and_eq_true_iff.mp hq).1
      exact hwrite.updateLatestForProject.startDependents hloaded.dependents
    · exact h

/-- **A refresh of a release of the project** stays inside. -/
theorem refreshReleaseState_inside (hclosed : closed → NoForeignDependents o) (version : String) :
    Keeps (Inside p o closed) (refreshReleaseState env p version) := by
  unfold refreshReleaseState
  refine Keeps.gets_bind
    (P := fun found => ∀ loaded, found = some loaded → LoadedInside p o closed loaded) ?_ ?_
  · intro db h loaded hload
    exact h.loaded hclosed hload
  · intro found hfound
    cases found with
    | none => exact Keeps.pure _
    | some loaded =>
        have hloaded := hfound loaded rfl
        refine Keeps.ite (Keeps.pure _) ?_
        unfold refreshLoaded
        refine Keeps.bind (Keeps.gets _) fun regulations => ?_
        refine Keeps.bind (Keeps.gets _) fun statuses => ?_
        refine Keeps.bind (Keeps.modify fun db h => ?_) fun _ => ?_
        · refine h.updateReleases (fun _ _ hq => ?_) fun _ _ _ => ⟨rfl, rfl⟩
          exact isRelease_project (Bool.and_eq_true_iff.mp hq).1
        · refine Keeps.bind (syncAndCheckMissingFiles_inside env hloaded.files) fun missing => ?_
          refine Keeps.bind (Keeps.gets _) fun uploaded => ?_
          exact Keeps.modify fun db h => h.settle hloaded _

/-! ### Files and totals -/

theorem Inside.setReleaseStatus {db : UploadDb} (h : Inside p o closed db) {catalogId : String}
    (hkey : o.hasRelease catalogId = false) (status : ReleaseStatus) :
    Inside p o closed (setReleaseStatus catalogId status db) := by
  refine h.updateReleases (fun r hr hq => ?_) fun _ _ _ => ⟨rfl, rfl⟩
  have : r.catalogId = catalogId := by simpa using hq
  exact h.projectId hr (this ▸ hkey)

theorem maybeRestoreReleasedStatus_inside {catalogId : String}
    (hkey : o.hasRelease catalogId = false) :
    Keeps (Inside p o closed) (maybeRestoreReleasedStatus catalogId) := by
  unfold maybeRestoreReleasedStatus
  refine Keeps.bind (Keeps.gets _) fun found => ?_
  cases found with
  | none => exact Keeps.pure _
  | some release =>
      refine Keeps.bind (Keeps.gets _) fun healthy => ?_
      exact Keeps.when (Keeps.modify fun db h => h.setReleaseStatus hkey _)

/-- A pending task of the project stays inside. -/
theorem PendingTask.run_inside (hclosed : closed → NoForeignDependents o) {task : PendingTask}
    (ht : task.isInside p o) : Keeps (Inside p o closed) (task.run env) := by
  cases task with
  | refreshReleaseState projectId version =>
      obtain rfl : projectId = p := ht
      exact refreshReleaseState_inside env hclosed version
  | maybeRestoreReleasedStatus catalogId => exact maybeRestoreReleasedStatus_inside ht

theorem Inside.updateTotalSize {db : UploadDb} (h : Inside p o closed db) (version : String) :
    Inside p o closed (updateTotalSize p version db) := by
  unfold ReleaseService.updateTotalSize
  split
  · exact h
  · exact h.updateReleases (fun _ _ hq => isRelease_project hq) fun _ _ _ => ⟨rfl, rfl⟩

theorem removeFile_inside {id : ℕ} (hid : o.hasFile id = false) :
    Keeps (Inside p o closed) (removeFile env id) := by
  unfold removeFile
  refine Keeps.bind (Keeps.gets _) fun found => ?_
  cases found with
  | none => exact Keeps.pure _
  | some file =>
      refine Keeps.bind (Keeps.when (Keeps.modify fun db h => h.storage _)) fun _ => ?_
      exact Keeps.modify fun db h => h.updateFileUpload hid fun _ => rfl

/-! ### Regulation statuses -/

theorem Inside.upsertStatus {db : UploadDb} (h : Inside p o closed db) {row : RegulationStatus}
    {f : RegulationStatus → RegulationStatus} (hrel : o.hasRelease row.versionId = false)
    (hf : ∀ s, (f s).versionId = s.versionId ∧ (f s).id = s.id) :
    Inside p o closed (upsertStatus row f db) := by
  unfold RegulationStatusService.upsertStatus
  split
  · apply h.updateStatuses _ hf
    intro s _ hs
    simp only [isSameStatus, Bool.and_eq_true, beq_iff_eq] at hs
    rw [hs.2]
    exact hrel
  · exact h.appendStatus (s := { row with id := db.nextId }) hrel rfl

theorem getRegulationAndRelease_run (params : RegulationStatusParams) (db : UploadDb) :
    (getRegulationAndRelease params db).2 = db ∧ ∀ g r,
      (getRegulationAndRelease params db).1 = .ok (g, r) →
        db.findRelease params.projectId params.version = some r := by
  unfold getRegulationAndRelease
  rw [gets_bind_run, gets_bind_run]
  cases db.findRelease params.projectId params.version with
  | none => exact ⟨rfl, fun g r h => by cases h⟩
  | some release =>
      cases db.regulations.find? fun g =>
          g.name == params.regulation && g.projectId == params.projectId with
      | none => exact ⟨rfl, fun g r h => by cases h⟩
      | some regulation => exact ⟨rfl, fun g r h => by cases h; rfl⟩

/-- What is found belongs to the project. -/
theorem getRegulationAndRelease_bind {α : Type} {params : RegulationStatusParams}
    (hp : params.projectId = p) {k : Regulation × Release → UploadProg α}
    (hk : ∀ g r, o.hasRelease r.catalogId = false → Keeps (Inside p o closed) (k (g, r))) :
    Keeps (Inside p o closed) (getRegulationAndRelease params >>= k) := by
  refine Keeps.bind_post (P := fun found => o.hasRelease found.2.catalogId = false) ?_ ?_ ?_
  · intro db h
    rw [(getRegulationAndRelease_run params db).1]
    exact h
  · rintro db h ⟨g, r⟩ db' hrun
    have hfind := (getRegulationAndRelease_run params db).2 g r (by rw [hrun])
    obtain ⟨hmem, hproject, -⟩ := UploadDb.findRelease_some hfind
    exact h.releases r hmem (hproject.trans hp)
  · rintro ⟨g, r⟩ hrel
    exact hk g r hrel

theorem getVersionRegulationStatus_inside (params : RegulationStatusParams) :
    Keeps (Inside p o closed) (getVersionRegulationStatus params) := by
  refine Keeps.bind (Keeps.gets _) fun found => ?_
  cases found with
  | none => exact Keeps.throw _
  | some dto => exact Keeps.pure _

theorem setRegulationStatus_inside {params : RegulationStatusParams} (hp : params.projectId = p)
    (value : String) (reportDetails : Option String) :
    Keeps (Inside p o closed) (setRegulationStatus env params value reportDetails) := by
  refine getRegulationAndRelease_bind hp fun g r hrel => ?_
  refine Keeps.bind (fun db h => h) fun isCompliant => ?_
  refine Keeps.bind (Keeps.modify fun db h => ?_) fun _ => getVersionRegulationStatus_inside params
  exact h.upsertStatus hrel fun _ => ⟨rfl, rfl⟩

theorem setComplianceStatus_inside {params : RegulationStatusParams} (hp : params.projectId = p)
    (isCompliant : Bool) :
    Keeps (Inside p o closed) (setComplianceStatus params isCompliant) := by
  refine getRegulationAndRelease_bind hp fun g r hrel => ?_
  refine Keeps.bind (Keeps.modify fun db h => ?_) fun _ => getVersionRegulationStatus_inside params
  exact h.upsertStatus hrel fun _ => ⟨rfl, rfl⟩

/-- A status of a release of the project is the project's. -/
theorem Inside.isStatusOf {db : UploadDb} (h : Inside p o closed db) {version : String}
    {s : RegulationStatus} (hs : isStatusOf db p version s = true) :
    o.hasRelease s.versionId = false := by
  obtain ⟨r, hr, hmatch⟩ := List.any_eq_true.mp hs
  simp only [Bool.and_eq_true, beq_iff_eq] at hmatch
  rw [← hmatch.1]
  exact h.releases r hr (isRelease_project hmatch.2)

theorem deleteVersionRegulationStatus_inside (version : String) (regulation : Option String) :
    Keeps (Inside p o closed) (deleteVersionRegulationStatus p version regulation) := by
  refine Keeps.gets_bind
    (P := fun found => ∀ s, found = some s → o.hasStatus s.id = false) ?_ fun found hfound => ?_
  · intro db h s hs
    have hcond := List.find?_some hs
    have hrel := h.isStatusOf (Bool.and_eq_true_iff.mp hcond).1
    exact h.statuses s (List.mem_of_find?_eq_some hs) hrel
  · cases found with
    | none => exact Keeps.throw _
    | some status =>
        refine Keeps.bind (Keeps.modify fun db h => ?_) fun _ => Keeps.pure _
        apply h.deleteStatuses
        intro s hs hkey
        by_contra hne
        have hout : s ∈ o.regulationStatuses := by
          rw [← h.same]
          exact List.mem_filter.mpr ⟨hs, by rw [h.isOutside]; simpa using hne⟩
        have hstatus := hfound status rfl
        rw [Outside.hasStatus, List.any_eq_false] at hstatus
        exact hstatus s hout hkey

end Steps

end UploadService
