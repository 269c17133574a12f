import UploadService.Release.Tasks
import UploadService.Release.Uploads

/-!
# What lies outside a project

The rows of the upload service that belong to other projects than a given one: their
releases, and the rows that refer to those releases. A file upload belongs to the
releases of the artifacts that hold it, a rule to the releases it is associated with.

A write is confined to the project when it leaves all of them as they are. The writes
of the service are shown here, one by one, to keep what is outside, under the
conditions they need.
-/

namespace UploadService

open Prog ReleaseService FileUploadService RegulationStatusService

/-- The rows outside a project. -/
structure Outside where
  projects : List Project
  regulations : List Regulation
  releases : List Release
  dependencies : List ReleaseDependency
  artifacts : List ReleaseArtifact
  fileUploads : List FileUpload
  regulationStatuses : List RegulationStatus
  ruleReleases : List RuleRelease
  rules : List Rule
  uploadVersions : List UploadVersion
  deriving DecidableEq

def Outside.hasRelease (o : Outside) (catalogId : String) : Bool :=
  o.releases.any fun r => r.catalogId == catalogId

def Outside.hasFile (o : Outside) (id : ℕ) : Bool :=
  o.artifacts.any fun a => a.fileUploadId == some id

def Outside.hasArtifact (o : Outside) (id : ℕ) : Bool :=
  o.artifacts.any fun a => a.id == id

def Outside.hasStatus (o : Outside) (id : ℕ) : Bool :=
  o.regulationStatuses.any fun s => s.id == id

def Outside.hasRule (o : Outside) (id : String) : Bool :=
  o.ruleReleases.any fun a => a.ruleId == id

namespace UploadDb

def outsideReleases (db : UploadDb) (p : ℕ) : List Release :=
  db.releases.filter fun r => r.projectId != p

/-- The release is one of another project. -/
def isOutside (db : UploadDb) (p : ℕ) (catalogId : String) : Bool :=
  (db.outsideReleases p).any fun r => r.catalogId == catalogId

def outsideArtifacts (db : UploadDb) (p : ℕ) : List ReleaseArtifact :=
  db.artifacts.filter fun a => db.isOutside p a.releaseId

def outsideRuleReleases (db : UploadDb) (p : ℕ) : List RuleRelease :=
  db.ruleReleases.filter fun a => db.isOutside p a.releaseCatalogId

def outside (db : UploadDb) (p : ℕ) : Outside where
  projects := db.projects
  regulations := db.regulations
  releases := db.outsideReleases p
  dependencies := db.dependencies.filter fun d => db.isOutside p d.releaseId
  artifacts := db.outsideArtifacts p
  fileUploads := db.fileUploads.filter fun f =>
    (db.outsideArtifacts p).any fun a => a.fileUploadId == some f.id
  regulationStatuses := db.regulationStatuses.filter fun s => db.isOutside p s.versionId
  ruleReleases := db.outsideRuleReleases p
  rules := db.rules.filter fun rule =>
    (db.outsideRuleReleases p).any fun a => a.ruleId == rule.id
  uploadVersions := db.uploadVersions.filter fun u => u.projectId != some p

/-- Every row that is inserted, changed or deleted between the two belongs to the project. -/
def Confined (p : ℕ) (db db' : UploadDb) : Prop := db'.outside p = db.outside p

end UploadDb

/-! ### Tables that change alone -/

section Tables

variable {db : UploadDb} {p : ℕ}

theorem any_key_congr {xs ys : List Release} (h : xs.map Release.catalogId = ys.map Release.catalogId)
    (c : String) : (xs.any fun r => r.catalogId == c) = ys.any fun r => r.catalogId == c := by
  have hmap : ∀ zs : List Release,
      (zs.any fun r => r.catalogId == c) = (zs.map Release.catalogId).any (· == c) := by
    intro zs
    rw [List.any_map]
    rfl
  rw [hmap xs, hmap ys, h]

/-- Other releases under the same keys. -/
theorem outside_releases {rows X : List Release}
    (hX : (rows.filter fun r => r.projectId != p) = X)
    (hkeys : X.map Release.catalogId = (db.outsideReleases p).map Release.catalogId) :
    ({ db with releases := rows } : UploadDb).outside p = { db.outside p with releases := X } := by
  have hr : ({ db with releases := rows } : UploadDb).outsideReleases p = X := hX
  have ho : ({ db with releases := rows } : UploadDb).isOutside p = db.isOutside p := by
    funext c
    unfold UploadDb.isOutside
    rw [hr]
    exact any_key_congr hkeys c
  simp only [UploadDb.outside, UploadDb.outsideArtifacts, UploadDb.outsideRuleReleases, hr, ho]

theorem outside_artifacts {artifacts : List ReleaseArtifact}
    (h : (artifacts.filter fun a => db.isOutside p a.releaseId) = db.outsideArtifacts p) :
    ({ db with artifacts := artifacts } : UploadDb).outside p = db.outside p := by
  have ha : ({ db with artifacts := artifacts } : UploadDb).outsideArtifacts p =
      db.outsideArtifacts p := h
  have ho : ({ db with artifacts := artifacts } : UploadDb).isOutside p = db.isOutside p := rfl
  have hr : ({ db with artifacts := artifacts } : UploadDb).outsideRuleReleases p =
      db.outsideRuleReleases p := rfl
  have hs : ({ db with artifacts := artifacts } : UploadDb).outsideReleases p =
      db.outsideReleases p := rfl
  simp only [UploadDb.outside, ha, ho, hr, hs]

theorem outside_fileUploads {fileUploads : List FileUpload}
    (h : (fileUploads.filter fun f => (db.outside p).hasFile f.id) = (db.outside p).fileUploads) :
    ({ db with fileUploads := fileUploads } : UploadDb).outside p = db.outside p := by
  show ({ db.outside p with
    fileUploads := fileUploads.filter fun f => (db.outside p).hasFile f.id } : Outside) = db.outside p
  rw [h]

theorem outside_regulationStatuses {statuses : List RegulationStatus}
    (h : (statuses.filter fun s => db.isOutside p s.versionId) =
      (db.outside p).regulationStatuses) :
    ({ db with regulationStatuses := statuses } : UploadDb).outside p = db.outside p := by
  show ({ db.outside p with
    regulationStatuses := statuses.filter fun s => db.isOutside p s.versionId } : Outside) = db.outside p
  rw [h]

theorem outside_dependencies {dependencies : List ReleaseDependency}
    (h : (dependencies.filter fun d => db.isOutside p d.releaseId) = (db.outside p).dependencies) :
    ({ db with dependencies := dependencies } : UploadDb).outside p = db.outside p := by
  show ({ db.outside p with
    dependencies := dependencies.filter fun d => db.isOutside p d.releaseId } : Outside) = db.outside p
  rw [h]

theorem outside_ruleReleases {ruleReleases : List RuleRelease}
    (h : (ruleReleases.filter fun a => db.isOutside p a.releaseCatalogId) =
      db.outsideRuleReleases p) :
    ({ db with ruleReleases := ruleReleases } : UploadDb).outside p = db.outside p := by
  have hr : ({ db with ruleReleases := ruleReleases } : UploadDb).outsideRuleReleases p =
      db.outsideRuleReleases p := h
  have ha : ({ db with ruleReleases := ruleReleases } : UploadDb).outsideArtifacts p =
      db.outsideArtifacts p := rfl
  have ho : ({ db with ruleReleases := ruleReleases } : UploadDb).isOutside p =
      db.isOutside p := rfl
  have hs : ({ db with ruleReleases := ruleReleases } : UploadDb).outsideReleases p =
      db.outsideReleases p := rfl
  simp only [UploadDb.outside, hr, ha, ho, hs]

theorem outside_rules {rules : List Rule}
    (h : (rules.filter fun rule => (db.outside p).hasRule rule.id) = (db.outside p).rules) :
    ({ db with rules := rules } : UploadDb).outside p = db.outside p := by
  show ({ db.outside p with
    rules := rules.filter fun rule => (db.outside p).hasRule rule.id } : Outside) = db.outside p
  rw [h]

end Tables

/-! ### Rows that stay apart -/

/-- A pending task of the project. -/
def PendingTask.isInside (p : ℕ) (o : Outside) : PendingTask → Prop
  | refreshReleaseState projectId _ => projectId = p
  | maybeRestoreReleasedStatus catalogId => o.hasRelease catalogId = false

/-- What is outside is `o`, and the rows of the project share no key with it. In a
`closed` database the pending tasks are those of the project, and stay so. -/
structure Inside (p : ℕ) (o : Outside) (closed : Prop) (db : UploadDb) : Prop where
  same : db.outside p = o
  releases : ∀ r ∈ db.releases, r.projectId = p → o.hasRelease r.catalogId = false
  files : ∀ a ∈ db.artifacts, o.hasRelease a.releaseId = false →
    ∀ id, a.fileUploadId = some id → o.hasFile id = false
  artifacts : ∀ a ∈ db.artifacts, o.hasRelease a.releaseId = false → o.hasArtifact a.id = false
  statuses : ∀ s ∈ db.regulationStatuses, o.hasRelease s.versionId = false →
    o.hasStatus s.id = false
  fresh : ∀ n, db.nextId ≤ n →
    o.hasArtifact n = false ∧ o.hasFile n = false ∧ o.hasStatus n = false
  strays : closed → ∀ a ∈ db.artifacts, o.hasRelease a.releaseId = false → a.type ≠ .file →
    a.fileUploadId = none
  pending : closed → ∀ t ∈ db.pending, t.isInside p o

section Writes

variable {p : ℕ} {o : Outside} {closed : Prop} {db : UploadDb}

theorem Inside.isOutside (h : Inside p o closed db) (catalogId : String) :
    db.isOutside p catalogId = o.hasRelease catalogId := by
  rw [← h.same]
  rfl

/-- A release under a key that is not outside belongs to the project. -/
theorem Inside.projectId (h : Inside p o closed db) {r : Release} (hr : r ∈ db.releases)
    (hkey : o.hasRelease r.catalogId = false) : r.projectId = p := by
  by_contra hne
  have hout : r ∈ db.outsideReleases p := List.mem_filter.mpr ⟨hr, by simpa using hne⟩
  rw [← h.isOutside, UploadDb.isOutside, List.any_eq_false] at hkey
  exact hkey r hout (by simp)

/-- Other releases, those outside under the same keys. -/
theorem Inside.replaceReleases (h : Inside p o closed db) {rows X : List Release}
    (hX : (rows.filter fun r => r.projectId != p) = X)
    (hkeys : X.map Release.catalogId = o.releases.map Release.catalogId)
    (hrows : ∀ r ∈ rows, r.projectId = p → o.hasRelease r.catalogId = false) :
    Inside p { o with releases := X } closed { db with releases := rows } := by
  have hhas : ∀ c, ({ o with releases := X } : Outside).hasRelease c = o.hasRelease c :=
    any_key_congr hkeys
  have hsame := h.same
  refine {
    same := ?_
    releases := fun r hr hp => (hhas _).trans (hrows r hr hp)
    files := fun a ha hrel => h.files a ha ((hhas _).symm.trans hrel)
    artifacts := fun a ha hrel => h.artifacts a ha ((hhas _).symm.trans hrel)
    statuses := fun s hs hrel => h.statuses s hs ((hhas _).symm.trans hrel)
    fresh := h.fresh
    strays := fun hc a ha hrel => h.strays hc a ha ((hhas _).symm.trans hrel)
    pending := fun hc t ht => ?_ }
  · subst hsame
    exact outside_releases hX hkeys
  · have hin := h.pending hc t ht
    cases t with
    | refreshReleaseState projectId version => exact hin
    | maybeRestoreReleasedStatus catalogId => exact (hhas catalogId).trans hin

/-- An update of releases, wherever they belong. -/
theorem Inside.updateReleasesTo (h : Inside p o closed db) {q : Release → Bool}
    {f : Release → Release} (hf : ∀ r ∈ db.releases, q r = true →
      (f r).projectId = r.projectId ∧ (f r).catalogId = r.catalogId) :
    Inside p { o with releases := Rows.updateWhere q f o.releases } closed
      (updateReleases q f db) := by
  have hout : o.releases = db.outsideReleases p := by
    rw [← h.same]
    rfl
  apply h.replaceReleases
  · rw [hout]
    exact Rows.filter_updateWhere_comm fun r hr hq => by simp [(hf r hr hq).1]
  · apply Rows.map_updateWhere
    intro r hr hq
    rw [hout] at hr
    exact (hf r (List.mem_filter.mp hr).1 hq).2
  · intro r hr hp
    rcases Rows.mem_updateWhere.mp hr with ⟨x, hx, hq, rfl⟩ | ⟨hr, -⟩
    · rw [(hf x hx hq).2]
      exact h.releases x hx ((hf x hx hq).1.symm.trans hp)
    · exact h.releases r hr hp

theorem Inside.ne_project (h : Inside p o closed db) {r : Release} (hr : r ∈ o.releases) :
    r.projectId ≠ p := by
  rw [← h.same] at hr
  simpa using (List.mem_filter.mp hr).2

/-- An update of releases of the project. -/
theorem Inside.updateReleases (h : Inside p o closed db) {q : Release → Bool} {f : Release → Release}
    (hq : ∀ r ∈ db.releases, q r = true → r.projectId = p)
    (hf : ∀ r ∈ db.releases, q r = true →
      (f r).projectId = r.projectId ∧ (f r).catalogId = r.catalogId) :
    Inside p o closed (updateReleases q f db) := by
  have hto := h.updateReleasesTo hf
  have hself : Rows.updateWhere q f o.releases = o.releases := by
    apply Rows.updateWhere_eq_self
    intro r hr hqr
    have hmem : r ∈ db.releases := by
      rw [← h.same] at hr
      exact (List.mem_filter.mp hr).1
    exact absurd (hq r hmem hqr) (h.ne_project hr)
  rw [hself] at hto
  exact hto

theorem Inside.start (h : Inside p o closed db) {task : PendingTask}
    (ht : closed → task.isInside p o) : Inside p o closed (start task db) := by
  refine { h with same := h.same, pending := fun hc t hmem => ?_ }
  rcases List.mem_append.mp hmem with hmem | hmem
  · exact h.pending hc t hmem
  · rw [List.mem_singleton.mp hmem]
    exact ht hc

theorem Inside.startDependents (h : Inside p o closed db) {loaded : LoadedRelease}
    (hdeps : closed → ∀ dep ∈ loaded.dependentReleases, dep.projectId = p) :
    Inside p o closed (startDependents loaded db) := by
  refine { h with same := h.same, pending := fun hc t hmem => ?_ }
  rcases List.mem_append.mp hmem with hmem | hmem
  · exact h.pending hc t hmem
  · obtain ⟨dep, hdep, rfl⟩ := List.mem_map.mp hmem
    exact hdeps hc dep hdep

theorem Inside.updateFileUpload (h : Inside p o closed db) {id : ℕ} {f : FileUpload → FileUpload}
    (hid : o.hasFile id = false) (hf : ∀ file, (f file).id = file.id) :
    Inside p o closed (updateFileUpload id f db) := by
  refine { h with same := ?_ }
  rw [← h.same]
  apply outside_fileUploads
  rw [h.same]
  refine (Rows.filter_updateWhere ?_).trans ?_
  · intro file _ hfile
    have : file.id = id := by simpa using hfile
    rw [hf, this]
    exact ⟨hid, hid⟩
  · rw [← h.same]
    rfl

theorem Inside.storage (h : Inside p o closed db) (storage : List StoredObject) :
    Inside p o closed { db with storage := storage } := { h with same := h.same }

theorem Inside.deleteFileUpload (h : Inside p o closed db) {id : ℕ} (hid : o.hasFile id = false) :
    Inside p o closed
      { db with fileUploads := Rows.deleteWhere (fun f => f.id == id) db.fileUploads } := by
  refine { h with same := ?_ }
  rw [← h.same]
  apply outside_fileUploads
  rw [h.same]
  refine (Rows.filter_deleteWhere ?_).trans ?_
  · intro file _ hfile
    have : file.id = id := by simpa using hfile
    rw [this]
    exact hid
  · rw [← h.same]
    rfl

theorem Inside.deleteArtifact (h : Inside p o closed db) {id : ℕ}
    (hid : o.hasArtifact id = false) : Inside p o closed (deleteArtifact id db) := by
  have hsub : ∀ a ∈ (ReleaseService.deleteArtifact id db).artifacts, a ∈ db.artifacts :=
    fun a ha => (Rows.mem_deleteWhere.mp ha).1
  refine { h with
    same := ?_
    files := fun a ha => h.files a (hsub a ha)
    artifacts := fun a ha => h.artifacts a (hsub a ha)
    strays := fun hc a ha => h.strays hc a (hsub a ha) }
  rw [← h.same]
  apply outside_artifacts
  apply Rows.filter_deleteWhere
  intro a ha haid
  by_contra hout
  have hmem : a ∈ o.artifacts := by
    rw [← h.same]
    exact List.mem_filter.mpr ⟨ha, by simpa using hout⟩
  have : a.id = id := by simpa using haid
  rw [Outside.hasArtifact, List.any_eq_false] at hid
  exact hid a hmem (by simp [this])

/-- A new artifact of the project. -/
theorem Inside.appendArtifact (h : Inside p o closed db) {a : ReleaseArtifact} {n : ℕ}
    (hrel : o.hasRelease a.releaseId = false) (hid : o.hasArtifact a.id = false)
    (hfile : ∀ id, a.fileUploadId = some id → o.hasFile id = false)
    (hstray : a.type ≠ .file → a.fileUploadId = none) (hn : db.nextId ≤ n) :
    Inside p o closed { db with artifacts := db.artifacts ++ [a], nextId := n } := by
  have hcases : ∀ b ∈ db.artifacts ++ [a], b ∈ db.artifacts ∨ b = a := by
    intro b hb
    simpa using hb
  refine { h with
    same := ?_
    files := fun b hb => ?_
    artifacts := fun b hb => ?_
    strays := fun hc b hb => ?_
    fresh := fun m hm => h.fresh m (hn.trans hm) }
  · rw [← h.same]
    refine @outside_artifacts { db with nextId := n } p _ ?_
    show (db.artifacts ++ [a]).filter _ = _
    rw [List.filter_append]
    have hnot : db.isOutside p a.releaseId = false := by rw [h.isOutside]; exact hrel
    have : [a].filter (fun a => db.isOutside p a.releaseId) = [] := by simp [hnot]
    exact (congrArg _ this).trans (List.append_nil _)
  · rcases hcases b hb with hb | rfl
    · exact h.files b hb
    · exact fun _ => hfile
  · rcases hcases b hb with hb | rfl
    · exact h.artifacts b hb
    · exact fun _ => hid
  · rcases hcases b hb with hb | rfl
    · exact h.strays hc b hb
    · exact fun _ => hstray

/-- A change of artifacts of the project that keeps what they hold. -/
theorem Inside.updateArtifacts (h : Inside p o closed db) {q : ReleaseArtifact → Bool}
    {f : ReleaseArtifact → ReleaseArtifact}
    (hq : ∀ a ∈ db.artifacts, q a = true → o.hasRelease a.releaseId = false)
    (hf : ∀ a ∈ db.artifacts, q a = true → (f a).releaseId = a.releaseId ∧ (f a).id = a.id ∧
      (f a).fileUploadId = a.fileUploadId ∧ (f a).type = a.type) :
    Inside p o closed { db with artifacts := Rows.updateWhere q f db.artifacts } := by
  have hold : ∀ b ∈ Rows.updateWhere q f db.artifacts, ∃ a ∈ db.artifacts,
      b.releaseId = a.releaseId ∧ b.id = a.id ∧ b.fileUploadId = a.fileUploadId ∧
        b.type = a.type := by
    intro b hb
    rcases Rows.mem_updateWhere.mp hb with ⟨a, ha, hqa, rfl⟩ | ⟨hb, -⟩
    · exact ⟨a, ha, hf a ha hqa⟩
    · exact ⟨b, hb, rfl, rfl, rfl, rfl⟩
  refine { h with
    same := ?_
    files := fun b hb => ?_
    artifacts := fun b hb => ?_
    strays := fun hc b hb => ?_ }
  · rw [← h.same]
    apply outside_artifacts
    apply Rows.filter_updateWhere
    intro a ha hqa
    rw [(hf a ha hqa).1, h.isOutside]
    exact ⟨hq a ha hqa, hq a ha hqa⟩
  · obtain ⟨a, ha, h₁, -, h₃, -⟩ := hold b hb
    rw [h₁, h₃]
    exact h.files a ha
  · obtain ⟨a, ha, h₁, h₂, -, -⟩ := hold b hb
    rw [h₁, h₂]
    exact h.artifacts a ha
  · obtain ⟨a, ha, h₁, -, h₃, h₄⟩ := hold b hb
    rw [h₁, h₃, h₄]
    exact h.strays hc a ha

theorem Inside.updateStatuses (h : Inside p o closed db) {q : RegulationStatus → Bool}
    {f : RegulationStatus → RegulationStatus}
    (hq : ∀ s ∈ db.regulationStatuses, q s = true → o.hasRelease s.versionId = false)
    (hf : ∀ s, (f s).versionId = s.versionId ∧ (f s).id = s.id) :
    Inside p o closed
      { db with regulationStatuses := Rows.updateWhere q f db.regulationStatuses } := by
  refine { h with same := ?_, statuses := fun s hs => ?_ }
  · rw [← h.same]
    apply outside_regulationStatuses
    apply Rows.filter_updateWhere
    intro s hs hqs
    rw [(hf s).1, h.isOutside]
    exact ⟨hq s hs hqs, hq s hs hqs⟩
  · rcases Rows.mem_updateWhere.mp hs with ⟨x, hx, -, rfl⟩ | ⟨hs, -⟩
    · rw [(hf x).1, (hf x).2]
      exact h.statuses x hx
    · exact h.statuses s hs

/-- A new status of a release of the project. -/
theorem Inside.appendStatus (h : Inside p o closed db) {s : RegulationStatus}
    (hrel : o.hasRelease s.versionId = false) (hid : s.id = db.nextId) :
    Inside p o closed { db with
      regulationStatuses := db.regulationStatuses ++ [s]
      nextId := db.nextId + 1 } := by
  refine { h with
    same := ?_
    statuses := fun t ht => ?_
    fresh := fun n hn => h.fresh n (Nat.le_of_succ_le hn) }
  · rw [← h.same]
    refine @outside_regulationStatuses { db with nextId := db.nextId + 1 } p _ ?_
    show (db.regulationStatuses ++ [s]).filter (fun s => db.isOutside p s.versionId) = _
    have hnone : [s].filter (fun s => db.isOutside p s.versionId) = [] := by
      simp [h.isOutside, hrel]
    rw [List.filter_append, hnone, List.append_nil]
    rfl
  · rcases List.mem_append.mp ht with ht | ht
    · exact h.statuses t ht
    · rw [List.mem_singleton.mp ht, hid]
      exact fun _ => (h.fresh db.nextId le_rfl).2.2

theorem Inside.deleteStatuses (h : Inside p o closed db) {q : RegulationStatus → Bool}
    (hq : ∀ s ∈ db.regulationStatuses, q s = true → o.hasRelease s.versionId = false) :
    Inside p o closed
      { db with regulationStatuses := Rows.deleteWhere q db.regulationStatuses } := by
  refine { h with
    same := ?_
    statuses := fun s hs => h.statuses s (Rows.mem_deleteWhere.mp hs).1 }
  rw [← h.same]
  apply outside_regulationStatuses
  apply Rows.filter_deleteWhere
  intro s hs hqs
  rw [h.isOutside]
  exact hq s hs hqs

/-- Other dependencies of a release of the project. -/
theorem Inside.saveDependencies (h : Inside p o closed db) {catalogId : String}
    (hkey : o.hasRelease catalogId = false) (dependencies : List Release) :
    Inside p o closed (saveDependencies catalogId dependencies db) := by
  refine { h with same := ?_ }
  rw [← h.same]
  apply outside_dependencies
  rw [List.filter_append, Rows.filter_deleteWhere]
  · refine (congrArg _ (List.filter_eq_nil_iff.mpr ?_)).trans (List.append_nil _)
    intro d hd
    obtain ⟨c, -, rfl⟩ := List.mem_map.mp (List.mem_filter.mp hd).1
    simp [h.isOutside, hkey]
  · intro d _ hd
    have : d.releaseId = catalogId := by
      simp only [Bool.and_eq_true, beq_iff_eq] at hd
      exact hd.1
    rw [this, h.isOutside]
    exact hkey

theorem Inside.linkDefaultRule (h : Inside p o closed db) {catalogId : String}
    (hkey : o.hasRelease catalogId = false) :
    Inside p o closed (linkDefaultRuleToRelease catalogId db) := by
  unfold linkDefaultRuleToRelease
  split
  · refine { h with same := ?_ }
    rw [← h.same]
    apply outside_ruleReleases
    have hnone : [(⟨defaultRuleId, catalogId⟩ : RuleRelease)].filter
        (fun a => db.isOutside p a.releaseCatalogId) = [] := by
      simp [h.isOutside, hkey]
    rw [List.filter_append, hnone, List.append_nil]
    rfl
  · exact h

theorem Inside.deleteDependencies (h : Inside p o closed db) {catalogId : String}
    (hkey : o.hasRelease catalogId = false) :
    Inside p o closed { db with
      dependencies := Rows.deleteWhere (fun d => d.releaseId == catalogId) db.dependencies } := by
  refine { h with same := ?_ }
  rw [← h.same]
  apply outside_dependencies
  apply Rows.filter_deleteWhere
  intro d _ hd
  rw [h.isOutside, show d.releaseId = catalogId by simpa using hd]
  exact hkey

theorem Inside.deleteRuleReleases (h : Inside p o closed db) {catalogId : String}
    (hkey : o.hasRelease catalogId = false) :
    Inside p o closed { db with
      ruleReleases := Rows.deleteWhere (fun a => a.releaseCatalogId == catalogId)
        db.ruleReleases } := by
  refine { h with same := ?_ }
  rw [← h.same]
  apply outside_ruleReleases
  apply Rows.filter_deleteWhere
  intro a _ ha
  rw [h.isOutside, show a.releaseCatalogId = catalogId by simpa using ha]
  exact hkey

theorem Inside.deleteReleases (h : Inside p o closed db) {catalogId : String}
    (hkey : o.hasRelease catalogId = false) :
    Inside p o closed { db with
      releases := Rows.deleteWhere (fun r => r.catalogId == catalogId) db.releases } := by
  have hout : o.releases = db.outsideReleases p := by
    rw [← h.same]
    rfl
  refine h.replaceReleases ?_ rfl ?_
  · rw [hout]
    apply Rows.filter_deleteWhere
    intro r hr hc
    have hp := h.projectId hr (by rw [show r.catalogId = catalogId by simpa using hc]; exact hkey)
    simp [hp]
  · intro r hr
    exact h.releases r (Rows.mem_deleteWhere.mp hr).1

/-- Policies without an association left go. -/
theorem Inside.deleteOrphanedPolicies (h : Inside p o closed db) (policyRuleIds : List String) :
    Inside p o closed (deleteOrphanedPolicies policyRuleIds db) := by
  refine { h with same := ?_ }
  rw [← h.same]
  apply outside_rules
  refine Rows.filter_deleteWhere ?_
  intro rule _ horphan
  have hnone : ∀ a ∈ db.ruleReleases, a.ruleId ≠ rule.id := by
    have hmem : rule.id ∈ policyRuleIds.filter fun id =>
        !db.ruleReleases.any fun a => a.ruleId == id := by simpa using horphan
    simpa using (List.mem_filter.mp hmem).2
  show (db.outsideRuleReleases p).any (fun a => a.ruleId == rule.id) = false
  rw [List.any_eq_false]
  intro a ha
  simpa using hnone a (List.mem_filter.mp ha).1

end Writes

/-! ### The start -/

/-- Artifacts other than files hold no file upload. -/
def NoStrayFiles (db : UploadDb) (p : ℕ) : Prop :=
  ∀ a ∈ db.artifacts, db.isOutside p a.releaseId = false → a.type ≠ .file → a.fileUploadId = none

theorem UploadDb.Constraints.inside {db : UploadDb} (hdb : db.Constraints) (p : ℕ) {closed : Prop}
    (hclosed : closed → NoStrayFiles db p ∧ db.pending = []) :
    Inside p (db.outside p) closed db where
  same := rfl
  releases := by
    intro r hr hp
    show db.isOutside p r.catalogId = false
    rw [UploadDb.isOutside, List.any_eq_false]
    intro x hx hkey
    obtain ⟨hxmem, hxp⟩ := List.mem_filter.mp hx
    have : x = r := hdb.releaseKeys.eq_of_mem hxmem hr (by simpa using hkey)
    rw [this, hp] at hxp
    simp at hxp
  files := by
    intro a ha hrel id hid
    rw [Outside.hasFile, List.any_eq_false]
    intro b hb hfile
    obtain ⟨hbmem, hbout⟩ := List.mem_filter.mp hb
    have : a = b := hdb.artifactFiles a ha b hbmem id hid (by simpa using hfile)
    subst this
    rw [show db.isOutside p a.releaseId = false from hrel] at hbout
    cases hbout
  artifacts := by
    intro a ha hrel
    rw [Outside.hasArtifact, List.any_eq_false]
    intro b hb hkey
    obtain ⟨hbmem, hbout⟩ := List.mem_filter.mp hb
    have : b = a := hdb.artifactKeys.eq_of_mem hbmem ha (by simpa using hkey)
    subst this
    rw [show db.isOutside p b.releaseId = false from hrel] at hbout
    cases hbout
  statuses := by
    intro s hs hrel
    rw [Outside.hasStatus, List.any_eq_false]
    intro t ht hkey
    obtain ⟨htmem, htout⟩ := List.mem_filter.mp ht
    have : t = s := hdb.statusKeys.eq_of_mem htmem hs (by simpa using hkey)
    subst this
    rw [show db.isOutside p t.versionId = false from hrel] at htout
    cases htout
  fresh := by
    intro n hn
    refine ⟨?_, ?_, ?_⟩
    · rw [Outside.hasArtifact, List.any_eq_false]
      intro a ha hkey
      have hlt := hdb.freshArtifacts a (List.mem_filter.mp ha).1
      have : a.id = n := by simpa using hkey
      omega
    · rw [Outside.hasFile, List.any_eq_false]
      intro a ha hkey
      obtain ⟨f, hf, hid⟩ := hdb.artifactUploads a (List.mem_filter.mp ha).1 n (by simpa using hkey)
      have hlt := hdb.freshFiles f hf
      omega
    · rw [Outside.hasStatus, List.any_eq_false]
      intro s hs hkey
      have hlt := hdb.freshStatuses s (List.mem_filter.mp hs).1
      have : s.id = n := by simpa using hkey
      omega
  strays := fun hc => (hclosed hc).1
  pending := fun hc => by simp [(hclosed hc).2]

end UploadService
