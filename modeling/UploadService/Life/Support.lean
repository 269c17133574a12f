import Mathlib.Data.List.Perm.Subperm
import UploadService.Lib.Support
import UploadService.Life.Latest

/-!
# What supports a release

A refresh lets a release stay `RELEASED` while it has installation artifacts that are ready,
or dependencies that are all `RELEASED`. The releases are the nodes of a dependency net,
and the pending refreshes its queue.

Main results:

- `fileUploaded_iff`, `dependenciesReleased_iff`: what a refresh looks at, as statements
  about the tables;
- `isSupported_iff`: a release is supported in the net where the two looks of a refresh say so;
- `refreshReleaseState_settles`: a refresh settles its release, and keeps the others settled.
-/

namespace UploadService

open Prog ReleaseService FileUploadService

variable {env : UploadEnv} {db : UploadDb}

/-! ### The net of the releases -/

/-- The artifact is an installation artifact of the release. -/
def IsInstallation (c : String) (a : ReleaseArtifact) : Prop :=
  a.releaseId = c ∧ a.isInstallationFile = true

instance (c : String) : DecidablePred (IsInstallation c) :=
  fun _ => inferInstanceAs (Decidable (_ ∧ _))

/-- The file upload of the artifact is uploaded. -/
def FileIsUploaded (db : UploadDb) (a : ReleaseArtifact) : Prop :=
  ∃ f ∈ db.fileUploads, a.fileUploadId = some f.id ∧ f.status = .uploaded

/-- The release has installation artifacts, and their files are uploaded. -/
def Ready (db : UploadDb) (c : String) : Prop :=
  (∃ a ∈ db.artifacts, IsInstallation c a) ∧
    ∀ a ∈ db.artifacts, IsInstallation c a → a.type = .file → FileIsUploaded db a

def IsReleased (db : UploadDb) (c : String) : Prop :=
  ∃ x ∈ db.standings, x.catalogId = c ∧ x.status = .released

/-- A refresh of the release is pending. -/
def IsQueued (db : UploadDb) (c : String) : Prop :=
  ∃ x ∈ db.standings, x.catalogId = c ∧ .refreshReleaseState x.projectId x.version ∈ db.pending

def UploadDb.net (db : UploadDb) : Net String where
  up := IsReleased db
  ready := Ready db
  dep := fun c d => ⟨c, d⟩ ∈ db.dependencies
  queued := IsQueued db

/-! ### Ready artifacts -/

theorem mem_installationArtifacts {r : Release} {a : ReleaseArtifact} {f : Option FileUpload} :
    (a, f) ∈ installationArtifacts (db.load r) ↔
      a ∈ db.artifacts ∧ IsInstallation r.catalogId a ∧ f = db.fileUploadOf a := by
  simp only [installationArtifacts, UploadDb.load, UploadDb.artifactsOf, IsInstallation,
    List.mem_filter, List.mem_map, Prod.mk.injEq, beq_iff_eq]
  constructor
  · rintro ⟨⟨b, ⟨hb, hof⟩, rfl, rfl⟩, hinst⟩
    exact ⟨hb, ⟨hof, hinst⟩, rfl⟩
  · rintro ⟨ha, ⟨hof, hinst⟩, rfl⟩
    exact ⟨⟨a, ⟨ha, hof⟩, rfl, rfl⟩, hinst⟩

/-- The ids of the installation files of a release. -/
theorem mem_fileIds (hdb : db.Constraints) {r : Release} {id : ℕ} :
    id ∈ fileIds (db.load r) ↔ ∃ a ∈ db.artifacts, IsInstallation r.catalogId a ∧
      a.type = .file ∧ a.fileUploadId = some id := by
  unfold fileIds fileInstallationArtifacts
  constructor
  · intro hid
    obtain ⟨⟨a, f⟩, hmem, hfile⟩ := List.mem_filterMap.mp hid
    obtain ⟨hinst, htype⟩ := List.mem_filter.mp hmem
    obtain ⟨ha, hof, rfl⟩ := mem_installationArtifacts.mp hinst
    obtain ⟨f, hf, rfl⟩ := Option.map_eq_some_iff.mp hfile
    obtain ⟨i, hi, hfind⟩ := Option.bind_eq_some_iff.mp hf
    obtain ⟨-, rfl⟩ := Rows.findKey_some hfind
    exact ⟨a, ha, hof, by simpa using htype, hi⟩
  · rintro ⟨a, ha, hof, htype, hfile⟩
    obtain ⟨f, hf, rfl⟩ := hdb.artifactUploads a ha id hfile
    apply List.mem_filterMap.mpr
    refine ⟨(a, db.fileUploadOf a), List.mem_filter.mpr ⟨?_, by simpa using htype⟩, ?_⟩
    · exact mem_installationArtifacts.mpr ⟨ha, hof, rfl⟩
    · show (db.fileUploadOf a).map (·.id) = some f.id
      unfold UploadDb.fileUploadOf
      rw [hfile]
      show (Rows.findKey FileUpload.id f.id db.fileUploads).map (·.id) = some f.id
      rw [Rows.findKey_unique hdb.fileKeys hf]
      rfl

theorem fileIds_nodup (hdb : db.Constraints) (r : Release) : (fileIds (db.load r)).Nodup := by
  have hartifacts : db.artifacts.Nodup := List.Nodup.of_map _ hdb.artifactKeys
  have hloaded : (db.load r).artifacts.Nodup := by
    apply List.Nodup.map
    · exact fun a b hab => (Prod.mk.inj hab).1
    · exact hartifacts.filter _
  unfold fileIds fileInstallationArtifacts
  apply List.pairwise_filterMap.mpr
  apply ((hloaded.filter _).filter _).imp_of_mem
  rintro ⟨a, f⟩ ⟨b, g⟩ ha hb hne i hi j hj rfl
  -- a file upload belongs to one artifact
  obtain ⟨hamem, -, rfl⟩ := mem_installationArtifacts.mp (List.mem_filter.mp ha).1
  obtain ⟨hbmem, -, rfl⟩ := mem_installationArtifacts.mp (List.mem_filter.mp hb).1
  have hfile : ∀ x : ReleaseArtifact, (db.fileUploadOf x).map (·.id) = some i →
      x.fileUploadId = some i := by
    intro x hx
    obtain ⟨y, hy, rfl⟩ := Option.map_eq_some_iff.mp hx
    obtain ⟨k, hk, hfind⟩ := Option.bind_eq_some_iff.mp hy
    rw [(Rows.findKey_some hfind).2]
    exact hk
  obtain rfl := hdb.artifactFiles a hamem b hbmem i (hfile a hi) (hfile b hj)
  exact hne rfl

/-- As many uploaded rows as ids: all of them are uploaded. -/
theorem areFilesUploaded_iff (hkeys : Rows.KeysDistinct FileUpload.id db.fileUploads) {ids : List ℕ}
    (hids : ids.Nodup) : areFilesUploaded db ids = true ↔
      ∀ id ∈ ids, ∃ f ∈ db.fileUploads, f.id = id ∧ f.status = .uploaded := by
  set found := db.fileUploads.filter fun f => ids.contains f.id && f.status == .uploaded with hfound
  have hmem : ∀ f, f ∈ found ↔ f ∈ db.fileUploads ∧ f.id ∈ ids ∧ f.status = .uploaded := by
    intro f
    simp [hfound]
  have hnodup : (found.map (·.id)).Nodup := hkeys.sublist (List.filter_sublist)
  have hsub : found.map (·.id) ⊆ ids := by
    intro id hid
    obtain ⟨f, hf, rfl⟩ := List.mem_map.mp hid
    exact ((hmem f).mp hf).2.1
  have hcount : areFilesUploaded db ids = true ↔ (found.map (·.id)).length = ids.length := by
    rw [List.length_map]
    exact beq_iff_eq
  rw [hcount]
  constructor
  · intro hlength id hid
    have hperm := (List.Nodup.subperm hnodup hsub).perm_of_length_le (by omega)
    obtain ⟨f, hf, rfl⟩ := List.mem_map.mp (hperm.mem_iff.mpr hid)
    obtain ⟨hf, -, hstatus⟩ := (hmem f).mp hf
    exact ⟨f, hf, rfl, hstatus⟩
  · intro hall
    have hback : ids ⊆ found.map (·.id) := by
      intro id hid
      obtain ⟨f, hf, rfl, hstatus⟩ := hall id hid
      exact List.mem_map_of_mem ((hmem f).mpr ⟨hf, hid, hstatus⟩)
    have hle := (List.Nodup.subperm hnodup hsub).length_le
    have hge := (List.Nodup.subperm hids hback).length_le
    omega

/-- **Main result.** What a refresh asks of the installation artifacts it has read, in the
state `db'` that it has come to. -/
theorem fileUploaded_iff (hdb : db.Constraints) {db' : UploadDb}
    (hkeys : Rows.KeysDistinct FileUpload.id db'.fileUploads) (hart : db'.artifacts = db.artifacts)
    (r : Release) : fileUploaded db' (db.load r) = true ↔ Ready db' r.catalogId := by
  have hids := areFilesUploaded_iff hkeys (fileIds_nodup hdb r)
  have hfiles : areFilesUploaded db' (fileIds (db.load r)) = true ↔ ∀ a ∈ db'.artifacts,
      IsInstallation r.catalogId a → a.type = .file → FileIsUploaded db' a := by
    rw [hids, hart]
    constructor
    · intro hall a ha hof htype
      obtain ⟨id, hid⟩ := Option.ne_none_iff_exists'.mp (hdb.fileArtifacts a ha htype)
      obtain ⟨f, hf, rfl, hstatus⟩ := hall id ((mem_fileIds hdb).mpr ⟨a, ha, hof, htype, hid⟩)
      exact ⟨f, hf, hid, hstatus⟩
    · intro hall id hid
      obtain ⟨a, ha, hof, htype, hfile⟩ := (mem_fileIds hdb).mp hid
      obtain ⟨f, hf, hfid, hstatus⟩ := hall a ha hof htype
      exact ⟨f, hf, Option.some.inj (hfid.symm.trans hfile), hstatus⟩
  unfold fileUploaded Ready
  rw [Bool.and_eq_true]
  have hsome : (!(installationArtifacts (db.load r)).isEmpty) = true ↔
      ∃ a ∈ db'.artifacts, IsInstallation r.catalogId a := by
    rw [hart, Bool.not_eq_true', List.isEmpty_eq_false_iff_exists_mem]
    constructor
    · rintro ⟨⟨a, f⟩, hmem⟩
      obtain ⟨ha, hof, -⟩ := mem_installationArtifacts.mp hmem
      exact ⟨a, ha, hof⟩
    · rintro ⟨a, ha, hof⟩
      exact ⟨_, mem_installationArtifacts.mpr ⟨ha, hof, rfl⟩⟩
  rw [hsome]
  apply and_congr_right
  rintro ⟨a, ha, hof⟩
  cases hempty : (fileInstallationArtifacts (db.load r)).isEmpty with
  | false => exact hfiles
  | true =>
      -- without files, what is there is an image or a package
      have hnofile : ∀ b ∈ db'.artifacts, IsInstallation r.catalogId b → b.type ≠ .file := by
        intro b hb hbof htype
        have hmem : (b, db.fileUploadOf b) ∈ fileInstallationArtifacts (db.load r) :=
          List.mem_filter.mpr ⟨mem_installationArtifacts.mpr ⟨hart ▸ hb, hbof, rfl⟩, by simpa using htype⟩
        rw [List.isEmpty_iff.mp hempty] at hmem
        cases hmem
      have hother : (!(dockerInstallationArtifacts (db.load r)).isEmpty ||
          !(packageInstallationArtifacts (db.load r)).isEmpty) = true := by
        have hinst : (a, db.fileUploadOf a) ∈ installationArtifacts (db.load r) :=
          mem_installationArtifacts.mpr ⟨hart ▸ ha, hof, rfl⟩
        rw [Bool.or_eq_true, Bool.not_eq_true', Bool.not_eq_true',
          List.isEmpty_eq_false_iff_exists_mem, List.isEmpty_eq_false_iff_exists_mem]
        cases htype : a.type with
        | file => exact absurd htype (hnofile a ha hof)
        | dockerImage => exact .inl ⟨_, List.mem_filter.mpr ⟨hinst, by simp [htype]⟩⟩
        | rpm | deb => exact .inr ⟨_, List.mem_filter.mpr ⟨hinst, by simp [htype]⟩⟩
      simp only [if_true, hother, true_iff]
      exact fun b hb hbof htype => absurd htype (hnofile b hb hbof)

/-! ### Released dependencies -/

theorem isReleased_iff {r : Release} (hdb : db.Constraints) (hr : r ∈ db.releases) :
    IsReleased db r.catalogId ↔ r.status = .released := by
  constructor
  · rintro ⟨x, hx, hkey, hstatus⟩
    obtain rfl := hdb.standing_eq hx (mem_standings hr) hkey
    exact hstatus
  · intro hstatus
    exact ⟨r.standing, mem_standings hr, rfl, hstatus⟩

theorem mem_dependenciesOf (hdb : db.Constraints) {c : String} {d : Release} :
    d ∈ db.dependenciesOf c ↔ d ∈ db.releases ∧ ⟨c, d.catalogId⟩ ∈ db.dependencies := by
  unfold UploadDb.dependenciesOf
  constructor
  · intro hd
    obtain ⟨x, hx, hfind⟩ := List.mem_filterMap.mp hd
    obtain ⟨hx, hof⟩ := List.mem_filter.mp hx
    obtain ⟨hmem, hkey⟩ := Rows.findKey_some hfind
    rw [hkey, ← (beq_iff_eq.mp hof)]
    exact ⟨hmem, hx⟩
  · rintro ⟨hmem, hdep⟩
    apply List.mem_filterMap.mpr
    refine ⟨_, List.mem_filter.mpr ⟨hdep, by simp⟩, ?_⟩
    exact Rows.findKey_unique hdb.releaseKeys hmem

theorem mem_dependentReleasesOf (hdb : db.Constraints) {c : String} {d : Release} :
    d ∈ db.dependentReleasesOf c ↔ d ∈ db.releases ∧ ⟨d.catalogId, c⟩ ∈ db.dependencies := by
  unfold UploadDb.dependentReleasesOf
  constructor
  · intro hd
    obtain ⟨x, hx, hfind⟩ := List.mem_filterMap.mp hd
    obtain ⟨hx, hof⟩ := List.mem_filter.mp hx
    obtain ⟨hmem, hkey⟩ := Rows.findKey_some hfind
    rw [hkey, ← (beq_iff_eq.mp hof)]
    exact ⟨hmem, hx⟩
  · rintro ⟨hmem, hdep⟩
    apply List.mem_filterMap.mpr
    refine ⟨_, List.mem_filter.mpr ⟨hdep, by simp⟩, ?_⟩
    exact Rows.findKey_unique hdb.releaseKeys hmem

/-- **Main result.** What a refresh asks of the dependencies it has read. -/
theorem dependenciesReleased_iff (hdb : db.Constraints) (r : Release) :
    dependenciesReleased (db.load r) = true ↔ (∃ d, db.net.dep r.catalogId d) ∧
      ∀ d, db.net.dep r.catalogId d → db.net.up d := by
  have hthere : ∀ d, db.net.dep r.catalogId d → ∃ x ∈ db.releases, x.catalogId = d :=
    fun d hd => (hdb.dependencyReleases _ hd).2
  unfold dependenciesReleased
  rw [Bool.and_eq_true, Bool.not_eq_true', List.isEmpty_eq_false_iff_exists_mem, List.all_eq_true]
  show (∃ d, d ∈ db.dependenciesOf r.catalogId) ∧ (∀ d ∈ db.dependenciesOf r.catalogId, _) ↔ _
  constructor
  · rintro ⟨⟨d, hd⟩, hall⟩
    refine ⟨⟨d.catalogId, ((mem_dependenciesOf hdb).mp hd).2⟩, fun c hc => ?_⟩
    obtain ⟨x, hx, rfl⟩ := hthere c hc
    have hstatus := hall x ((mem_dependenciesOf hdb).mpr ⟨hx, hc⟩)
    exact (isReleased_iff hdb hx).mpr (by simpa using hstatus)
  · rintro ⟨⟨c, hc⟩, hall⟩
    obtain ⟨x, hx, rfl⟩ := hthere c hc
    refine ⟨⟨x, (mem_dependenciesOf hdb).mpr ⟨hx, hc⟩⟩, fun d hd => ?_⟩
    obtain ⟨hmem, hdep⟩ := (mem_dependenciesOf hdb).mp hd
    simpa using (isReleased_iff hdb hmem).mp (hall d.catalogId hdep)

/-! ### Supported releases -/

/-- The two looks of a refresh at the release: its installation artifacts are ready, or its
dependencies are released. -/
def isSupported (db : UploadDb) (r : Release) : Bool :=
  fileUploaded db (db.load r) || dependenciesReleased (db.load r)

/-- A refresh of the release is pending. -/
def isQueued (db : UploadDb) (r : Release) : Bool :=
  db.pending.contains (.refreshReleaseState r.projectId r.version)

theorem isSupported_iff (hdb : db.Constraints) (r : Release) :
    isSupported db r = true ↔ db.net.Supported r.catalogId := by
  unfold isSupported Net.Supported
  rw [Bool.or_eq_true, fileUploaded_iff hdb hdb.fileKeys rfl, dependenciesReleased_iff hdb]
  rfl

theorem isQueued_iff (hdb : db.Constraints) {r : Release} (hr : r ∈ db.releases) :
    isQueued db r = true ↔ db.net.queued r.catalogId := by
  unfold isQueued
  rw [List.contains_iff_mem]
  constructor
  · intro hpending
    exact ⟨r.standing, mem_standings hr, rfl, hpending⟩
  · rintro ⟨x, hx, hkey, hpending⟩
    obtain rfl := hdb.standing_eq hx (mem_standings hr) hkey
    exact hpending

/-! ### Changes of the net -/

/-- A write of standings that keeps the keys. Only rows it hits enter or leave `RELEASED`. -/
theorem isReleased_of_updateWhere {db' : UploadDb} {q : Standing → Bool} {f : Standing → Standing}
    (hs : db'.standings = Rows.updateWhere q f db.standings)
    (hf : ∀ x, (f x).catalogId = x.catalogId) {c : String}
    (hstay : ∀ x ∈ db.standings, x.catalogId = c → q x = true →
      ((f x).status = .released ↔ x.status = .released)) : IsReleased db' c ↔ IsReleased db c := by
  unfold IsReleased
  rw [hs]
  constructor
  · rintro ⟨x, hx, hkey, hstatus⟩
    rcases Rows.mem_updateWhere.mp hx with ⟨y, hy, hqy, rfl⟩ | ⟨hx, -⟩
    · rw [hf] at hkey
      exact ⟨y, hy, hkey, (hstay y hy hkey hqy).mp hstatus⟩
    · exact ⟨x, hx, hkey, hstatus⟩
  · rintro ⟨x, hx, hkey, hstatus⟩
    by_cases hqx : q x = true
    · refine ⟨f x, Rows.mem_updateWhere.mpr (.inl ⟨x, hx, hqx, rfl⟩), (hf x).trans hkey, ?_⟩
      exact (hstay x hx hkey hqx).mpr hstatus
    · exact ⟨x, Rows.mem_updateWhere.mpr (.inr ⟨hx, by simpa using hqx⟩), hkey, hstatus⟩

/-- Versions are kept, and so are the pending tasks. -/
theorem isQueued_of_updateWhere {db' : UploadDb} {q : Standing → Bool} {f : Standing → Standing}
    (hs : db'.standings = Rows.updateWhere q f db.standings)
    (hf : ∀ x, (f x).catalogId = x.catalogId ∧ (f x).projectId = x.projectId ∧
      (f x).version = x.version) (hpending : db.pending ⊆ db'.pending) {c : String}
    (h : IsQueued db c) : IsQueued db' c := by
  obtain ⟨x, hx, hkey, hmem⟩ := h
  unfold IsQueued
  rw [hs]
  by_cases hqx : q x = true
  · obtain ⟨hc, hp, hv⟩ := hf x
    refine ⟨f x, Rows.mem_updateWhere.mpr (.inl ⟨x, hx, hqx, rfl⟩), hc.trans hkey, ?_⟩
    rw [hp, hv]
    exact hpending hmem
  · exact ⟨x, Rows.mem_updateWhere.mpr (.inr ⟨hx, by simpa using hqx⟩), hkey, hpending hmem⟩

/-- A release with the same artifacts is still ready where their files are still uploaded. -/
theorem Ready.mono {db' : UploadDb} {c : String} (h : Ready db c)
    (hart : ∀ a, a.releaseId = c → (a ∈ db'.artifacts ↔ a ∈ db.artifacts))
    (hfiles : ∀ a ∈ db.artifacts, a.releaseId = c → FileIsUploaded db a → FileIsUploaded db' a) :
    Ready db' c := by
  obtain ⟨⟨a, ha, hof⟩, hall⟩ := h
  refine ⟨⟨a, (hart a hof.1).mpr ha, hof⟩, fun b hb hbof htype => ?_⟩
  have hmem := (hart b hbof.1).mp hb
  exact hfiles b hmem hbof.1 (hall b hmem hbof htype)

/-- A write of file uploads that keeps the ids, and leaves the file of the artifact uploaded. -/
theorem FileIsUploaded.updateWhere {db' : UploadDb} {q : FileUpload → Bool}
    {g : FileUpload → FileUpload} {a : ReleaseArtifact} (h : FileIsUploaded db a)
    (hs : db'.fileUploads = Rows.updateWhere q g db.fileUploads) (hid : ∀ f, (g f).id = f.id)
    (hstay : ∀ f ∈ db.fileUploads, a.fileUploadId = some f.id → q f = true →
      f.status = .uploaded → (g f).status = .uploaded) : FileIsUploaded db' a := by
  obtain ⟨f, hf, hof, hstatus⟩ := h
  unfold FileIsUploaded
  rw [hs]
  by_cases hqf : q f = true
  · refine ⟨g f, Rows.mem_updateWhere.mpr (.inl ⟨f, hf, hqf, rfl⟩), by rw [hid]; exact hof, ?_⟩
    exact hstay f hf hof hqf hstatus
  · exact ⟨f, Rows.mem_updateWhere.mpr (.inr ⟨hf, by simpa using hqf⟩), hof, hstatus⟩

/-- The artifacts and file uploads are as before. -/
theorem Ready.of_rows {db' : UploadDb} {c : String} (h : Ready db c)
    (hart : db'.artifacts = db.artifacts) (hfiles : db'.fileUploads = db.fileUploads) :
    Ready db' c := by
  unfold Ready FileIsUploaded at h ⊢
  rw [hart, hfiles]
  exact h

/-- A write of standings that keeps the keys. Outside `A` nothing enters or leaves `RELEASED`,
and what was ready stays so. -/
theorem outside_of_updateWhere {db' : UploadDb} {A : String → Prop} {q : Standing → Bool}
    {f : Standing → Standing} (hs : db'.standings = Rows.updateWhere q f db.standings)
    (hf : ∀ x, (f x).catalogId = x.catalogId ∧ (f x).projectId = x.projectId ∧
      (f x).version = x.version)
    (hstay : ∀ x ∈ db.standings, q x = true → ¬ A x.catalogId →
      ((f x).status = .released ↔ x.status = .released))
    (hd : db'.dependencies = db.dependencies) (hpending : db.pending ⊆ db'.pending)
    (hready : ∀ c, ¬ A c → Ready db c → Ready db' c) : Net.Outside A db.net db'.net where
  up := by
    intro c hc
    apply isReleased_of_updateWhere hs
    · exact fun x => (hf x).1
    · exact fun x hx hxc hq => hstay x hx hq (hxc ▸ hc)
  ready := hready
  dep := by
    intro c _ d
    show _ ∈ db'.dependencies ↔ _ ∈ db.dependencies
    rw [hd]
  queued := fun c _ h => isQueued_of_updateWhere hs hf hpending h

/-- A step that changes no status, no dependency and no queued refresh. -/
theorem outside_of_ready {db' : UploadDb} {A : String → Prop} (hs : db'.standings = db.standings)
    (hd : db'.dependencies = db.dependencies) (hpending : db.pending ⊆ db'.pending)
    (hready : ∀ c, ¬ A c → Ready db c → Ready db' c) : Net.Outside A db.net db'.net := by
  have hnone : db'.standings = Rows.updateWhere (fun _ => false) id db.standings := by
    rw [hs, Rows.updateWhere_eq_self fun _ _ h => by cases h]
  apply outside_of_updateWhere hnone _ _ hd hpending hready
  · exact fun _ => ⟨rfl, rfl, rfl⟩
  · exact fun _ _ h => by cases h

/-! ### Refreshes -/

/-- The release with the project and version. -/
def AtVersion (db : UploadDb) (p : ℕ) (v : String) (c : String) : Prop :=
  ∃ x ∈ db.standings, isStanding p v x = true ∧ x.catalogId = c

theorem atVersion_iff (hdb : db.Constraints) {p : ℕ} {v : String} {r : Release}
    (hfind : db.findRelease p v = some r) {c : String} : AtVersion db p v c ↔ c = r.catalogId := by
  obtain ⟨hr, hp, hv⟩ := UploadDb.findRelease_some hfind
  constructor
  · rintro ⟨x, hx, hof, rfl⟩
    obtain ⟨y, hy, rfl⟩ := Standing.mem_iff.mp hx
    simp only [isStanding, Release.standing_projectId, Release.standing_version, Bool.and_eq_true,
      beq_iff_eq] at hof
    have hkey : (y.projectId, y.version) = (r.projectId, r.version) := by
      rw [hof.1, hof.2, hp, hv]
    rw [hdb.releaseVersions.eq_of_mem hy hr hkey]
    rfl
  · rintro rfl
    exact ⟨r.standing, mem_standings hr, by simp [isStanding, hp, hv], rfl⟩

theorem not_atVersion {p : ℕ} {v : String} (hfind : db.findRelease p v = none) (c : String) :
    ¬ AtVersion db p v c := by
  rintro ⟨x, hx, hof, -⟩
  obtain ⟨r, hr, rfl⟩ := Standing.mem_iff.mp hx
  exact List.find?_eq_none.mp hfind r hr hof

/-- Up to the status, a refresh may mark files of its own release only. -/
theorem beforeStatus_outside (hdb : db.Constraints) {p : ℕ} {v : String} (r : Release) :
    Net.Outside (· = r.catalogId) db.net (beforeStatus env p v (db.load r) db).net := by
  apply outside_of_ready
  · exact standings_sees.beforeStatus p v _ db
  · rfl
  · exact List.Subset.refl _
  · intro c hc hready
    apply hready.mono
    · exact fun _ _ => Iff.rfl
    · intro a ha hof huploaded
      apply huploaded.updateWhere rfl
      · exact fun _ => rfl
      · intro f _ hfile hmark _
        simp only [Bool.and_eq_true, List.contains_iff_mem] at hmark
        obtain ⟨b, hb, hbof, -, hbfile⟩ := (mem_fileIds hdb).mp hmark.1
        obtain rfl := hdb.artifactFiles a ha b hb f.id hfile hbfile
        exact absurd (hof.symm.trans hbof.1) hc

/-- A release that passes is supported in the state in which the refresh comes to the status. -/
theorem supported_of_passes (hdb : db.Constraints) {p : ℕ} {v : String} (r : Release)
    (hpasses : (verdictOf env p v (db.load r) db).passes = true) :
    (beforeStatus env p v (db.load r) db).net.Supported r.catalogId := by
  simp only [Verdict.passes, Bool.and_eq_true, Bool.or_eq_true] at hpasses
  rcases hpasses.2 with hdeps | hfiles
  · obtain ⟨hsome, hall⟩ := (dependenciesReleased_iff hdb r).mp hdeps
    refine .inr ⟨hsome, fun d hd => ?_⟩
    show IsReleased (beforeStatus env p v (db.load r) db) d
    unfold IsReleased
    rw [standings_sees.beforeStatus p v _ db]
    exact hall d hd
  · left
    have hkeys : Rows.KeysDistinct FileUpload.id
        (markedMissing env (fileIds (db.load r)) db).fileUploads :=
      hdb.fileKeys.updateWhere fun _ _ _ => rfl
    exact (fileUploaded_iff hdb hkeys rfl r).mp hfiles

theorem afterChange_rows (p : ℕ) (v : String) (status : ReleaseStatus) (loaded : LoadedRelease)
    (db : UploadDb) :
    (afterChange p loaded (writeStatus p v status db)).artifacts = db.artifacts ∧
      (afterChange p loaded (writeStatus p v status db)).fileUploads = db.fileUploads ∧
      (afterChange p loaded (writeStatus p v status db)).dependencies = db.dependencies := by
  cases status <;> exact ⟨rfl, rfl, rfl⟩

/-- The write of a status changes nothing but the release it is written for. -/
theorem afterChange_outside {p : ℕ} {v : String} {status : ReleaseStatus}
    {loaded : LoadedRelease} {A : String → Prop}
    (hkey : ∀ x ∈ db.standings, isStanding p v x = true → A x.catalogId) :
    Net.Outside A db.net (afterChange p loaded (writeStatus p v status db)).net := by
  set written := writeStatus p v status db with hwritten
  have hwrites : written.standings = Rows.updateWhere
      (fun x => isStanding p v x && (status == .released || x.status == .released))
      (writtenStatus db.now status) db.standings := writeStatus_standings p v status db
  have helects : (afterChange p loaded written).standings =
      elect p (latestReleased written p) written.standings :=
    updateLatestForProject_standings p written
  have hmiddle : Net.Outside A db.net written.net := by
    apply outside_of_updateWhere hwrites
    · exact fun _ => ⟨rfl, rfl, rfl⟩
    · intro x hx hq hx'
      rw [Bool.and_eq_true] at hq
      exact absurd (hkey x hx hq.1) hx'
    · cases status <;> rfl
    · cases status <;> exact List.Subset.refl _
    · intro c _ hready
      cases status <;> exact hready
  apply hmiddle.trans
  apply outside_of_updateWhere helects
  · exact fun _ => ⟨rfl, rfl, rfl⟩
  · exact fun _ _ _ _ => Iff.rfl
  · rfl
  · exact fun _ h => List.mem_append.mpr (.inl h)
  · exact fun _ _ hready => hready

/-- The dependents are queued. -/
theorem afterChange_queues (hdb : db.Constraints) {s : UploadDb} (hs : s.standings = db.standings)
    {p : ℕ} {v : String} {status : ReleaseStatus} {r : Release} {c : String}
    (hc : ⟨c, r.catalogId⟩ ∈ db.dependencies) :
    IsQueued (afterChange p (db.load r) (writeStatus p v status s)) c := by
  obtain ⟨⟨x, hx, rfl⟩, -⟩ := hdb.dependencyReleases _ hc
  set t := afterChange p (db.load r) (writeStatus p v status s) with ht
  have hstarted : .refreshReleaseState x.projectId x.version ∈ t.pending := by
    apply List.mem_append.mpr
    right
    apply List.mem_map.mpr
    exact ⟨x, (mem_dependentReleasesOf hdb).mpr ⟨hx, hc⟩, rfl⟩
  have hbefore : IsQueued { s with pending := t.pending } x.catalogId := by
    refine ⟨x.standing, ?_, rfl, hstarted⟩
    show x.standing ∈ s.standings
    rw [hs]
    exact mem_standings hx
  have hwrote : IsQueued { writeStatus p v status s with pending := t.pending } x.catalogId := by
    apply isQueued_of_updateWhere _ _ _ hbefore
    · exact fun y => isStanding p v y && (status == .released || y.status == .released)
    · exact writtenStatus s.now status
    · exact writeStatus_standings p v status s
    · exact fun _ => ⟨rfl, rfl, rfl⟩
    · exact List.Subset.refl _
  apply isQueued_of_updateWhere _ _ _ hwrote
  · exact fun y => y.projectId == p
  · exact fun y => { y with latest := (latestReleased (writeStatus p v status s) p).any fun l =>
      l.catalogId == y.catalogId }
  · exact updateLatestForProject_standings p (writeStatus p v status s)
  · exact fun _ => ⟨rfl, rfl, rfl⟩
  · exact List.Subset.refl _

/-- The status of the release after it is written. -/
theorem afterChange_released {p : ℕ} {v : String} {status : ReleaseStatus}
    {loaded : LoadedRelease} {c : String}
    (hkey : ∀ x ∈ db.standings, x.catalogId = c → isStanding p v x = true)
    (h : IsReleased (afterChange p loaded (writeStatus p v status db)) c) : status = .released := by
  set written := writeStatus p v status db with hwritten
  have helects : (afterChange p loaded written).standings =
      elect p (latestReleased written p) written.standings :=
    updateLatestForProject_standings p written
  have hwrote : IsReleased written c :=
    (isReleased_of_updateWhere helects (fun _ => rfl) fun _ _ _ _ => Iff.rfl).mp h
  obtain ⟨x, hx, hxc, hstatus⟩ := hwrote
  rw [hwritten, writeStatus_standings] at hx
  rcases Rows.mem_updateWhere.mp hx with ⟨y, -, -, rfl⟩ | ⟨hx, hout⟩
  · exact hstatus
  · rw [hkey x hx hxc, hstatus] at hout
    simp at hout

/-- **Main result.** A refresh settles its release, and keeps the others settled. -/
theorem refreshReleaseState_settles (hdb : db.Constraints) {p : ℕ} {v : String}
    (h : db.net.SettledOff (AtVersion db p v)) :
    (refreshReleaseState env p v db).2.net.Settled := by
  have hrefreshed := @refreshReleaseState_refreshed env db hdb p v
  generalize (refreshReleaseState env p v db).2 = db' at hrefreshed ⊢
  have hown : ∀ {r}, db.findRelease p v = some r → db.net.SettledOff (· = r.catalogId) :=
    fun hfind c hc => h c fun hat => hc ((atVersion_iff hdb hfind).mp hat)
  -- up to the status, the other releases stay settled
  have hoff : ∀ {r}, db.findRelease p v = some r →
      (beforeStatus env p v (db.load r) db).net.SettledOff (· = r.catalogId) := by
    intro r hfind
    apply (hown hfind).change (beforeStatus_outside hdb r)
    intro y _ hyup hdown
    change ¬ IsReleased (beforeStatus env p v (db.load r) db) y at hdown
    unfold IsReleased at hdown
    rw [standings_sees.beforeStatus p v _ db] at hdown
    exact absurd hyup hdown
  have hsupported := fun r hpasses => @supported_of_passes env db hdb p v r hpasses
  cases hrefreshed with
  | skipped hskip =>
      apply Net.SettledOff.settled h
      rintro c ⟨x, hx, hof, rfl⟩ hc
      obtain ⟨r, hr, rfl⟩ := Standing.mem_iff.mp hx
      simp only [isStanding, Release.standing_projectId, Release.standing_version, Bool.and_eq_true,
        beq_iff_eq] at hof
      have hterminal := hskip r (hof.1 ▸ hof.2 ▸ hdb.findRelease_of_mem hr)
      rw [(isReleased_iff hdb hr).mp hc] at hterminal
      cases hterminal
  | kept r hfind hdecide =>
      apply (hoff hfind).settled
      rintro c rfl hc
      left
      apply hsupported r
      apply (decideStatus_none hdecide).1
      change IsReleased (beforeStatus env p v (db.load r) db) r.catalogId at hc
      unfold IsReleased at hc
      rw [standings_sees.beforeStatus p v _ db] at hc
      exact (isReleased_iff hdb (UploadDb.findRelease_some hfind).1).mp hc
  | moved r status hfind hlive hdecide =>
      obtain ⟨hr, hp, hv⟩ := UploadDb.findRelease_some hfind
      set s := beforeStatus env p v (db.load r) db with hs
      have hstandings : s.standings = db.standings := standings_sees.beforeStatus p v _ db
      have hkey : ∀ x ∈ s.standings, isStanding p v x = true → x.catalogId = r.catalogId := by
        intro x hx hof
        rw [hstandings] at hx
        exact (atVersion_iff hdb hfind).mp ⟨x, hx, hof, rfl⟩
      have hafter := @afterChange_outside s p v status (db.load r) (· = r.catalogId) hkey
      apply Net.SettledOff.settled ((hoff hfind).change hafter _)
      · rintro c rfl hc
        have hreleased : status = .released := by
          apply afterChange_released _ hc
          intro x hx hxc
          rw [hstandings] at hx
          obtain rfl := hdb.standing_eq hx (mem_standings hr) hxc
          simp [isStanding, hp, hv]
        obtain ⟨hart, hfiles, hdeps⟩ := afterChange_rows p v status (db.load r) s
        left
        apply (hsupported r ((decideStatus_targets hdecide).2 hreleased)).mono
        · exact fun hready => Ready.of_rows hready hart hfiles
        · intro y
          show _ ∈ UploadDb.dependencies _ ↔ _
          rw [hdeps]
          rfl
        · intro y _ hy
          by_cases hyr : y = r.catalogId
          · rw [hyr]
            exact hc
          · exact (hafter.up y hyr).mpr hy
      · intro y hy _ _ x _ _ hdep
        subst hy
        right
        exact afterChange_queues hdb hstandings hdep

end UploadService
