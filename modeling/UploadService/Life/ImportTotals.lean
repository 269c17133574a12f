import UploadService.Life.Cascade
import UploadService.Life.ImportFiles
import UploadService.Life.TotalSizes

/-!
# Total sizes of imports

`importRelease` saves the metadata of its request, whatever its total size. The import of the
files writes their sizes to the rows; the total size is computed anew only when the storage
notifies of one of these files.

Main results:

- `importArtifactsInBackground_done`: what the import of the files does to the sizes, by what
  holds after each file;
- `importWithFiles_due`: an import leaves every release due but the one it creates.
-/

namespace UploadService

open Prog ReleaseService FileUploadService RegulationStatusService

variable {env : UploadEnv} {db : UploadDb}

/-! ### Imports with their files -/

/-- The release of the request, and then its files. -/
def importWithFiles (env : UploadEnv) (dto : ImportReleaseDto) (downloads : String → Option Download) :
    UploadProg Unit := do
  let projectId ← resolveProject (some dto.projectIdentifier) 0
  importReleaseInto env dto projectId
  importArtifactsInBackground env projectId dto.version dto.artifacts downloads

/-- The metadata of the request has the total size of a release without files. -/
def ImportReleaseDto.totalRight (dto : ImportReleaseDto) : Prop :=
  (dto.metadata.getD ⟨none, none, []⟩).totalSize =
    some (finiteSize (dto.metadata.getD ⟨none, none, []⟩).installationSize)

/-- Some file of these comes, the first one under its object key, which no row has. -/
def FirstComes (db : UploadDb) (projectId : ℕ) (version : String)
    (downloads : String → Option Download) (artifacts : List ImportArtifactDto) : Prop :=
  ∃ before artifact after, artifacts = before ++ artifact :: after ∧
    (comes downloads artifact).isSome = true ∧
    (∀ f ∈ db.fileUploads, f.objectKey ≠ importKey projectId version artifact) ∧
    ∀ a ∈ before, importKey projectId version a ≠ importKey projectId version artifact

/-- Some file of the request comes. -/
def BringsFile (db : UploadDb) (projectId : ℕ) (version : String) (artifacts : List ImportArtifactDto)
    (downloads : String → Option Download) : Prop :=
  FirstComes db projectId version downloads
    (artifacts.filter fun a => (truthy a.downloadUrl).isSome)

/-- The file upload with the key is the one behind an artifact of the release. -/
def Holds (db : UploadDb) (c objectKey : String) : Prop :=
  ∃ a ∈ db.artifacts, ∃ f ∈ db.fileUploads, a.releaseId = c ∧ a.fileUploadId = some f.id ∧
    f.objectKey = objectKey

/-! ### The release of an import -/

/-- The links, and the file uploads with their keys and sizes. -/
def UploadDb.fileView (db : UploadDb) : List (String × ℕ) × List (ℕ × String × Option ℕ) :=
  (db.links, db.fileUploads.map fun f => (f.id, f.objectKey, f.size))

theorem fileView_ignoresRefresh : IgnoresRefresh UploadDb.fileView where
  releases := fun _ _ _ _ => rfl
  missing := by
    intro db q
    unfold UploadDb.fileView
    congr 1
    exact Rows.map_updateWhere db.fileUploads fun _ _ _ => rfl
  pending := fun _ _ => rfl

/-- The release of an import has no files yet. -/
theorem importReleaseInto_fileView (dto : ImportReleaseDto) (p : ℕ) :
    Frames UploadDb.fileView (importReleaseInto env dto p) := by
  intro observed
  refine Keeps.bind (Keeps.gets _) fun found => ?_
  cases found with
  | some r => exact Keeps.throw _
  | none =>
      refine Keeps.bind (Keeps.gets _) fun required => Keeps.bind ?_ fun dependencies => ?_
      · exact keeps_of_reads fun s t ht => by rw [(importedDependencies_run dto p t).1, ht]
      refine Keeps.bind (fun s hs => ?_) fun c => ?_
      · rw [saveRelease_new]
        cases insertRelease env.semver s.projects _ s.releases with
        | none => exact hs
        | some saved => exact hs
      refine Keeps.bind (Keeps.modify fun s hs => ?_) fun _ => ?_
      · cases dependencies with
        | none => exact hs
        | some entities => exact hs
      refine Keeps.bind (Keeps.modify fun s hs => ?_) fun _ => ?_
      · unfold linkDefaultRuleToRelease
        split
        · exact hs
        · exact hs
      refine Keeps.bind (Keeps.forEach fun image _ => Keeps.tryCatch (fun s hs => ?_)
        fun _ => Keeps.pure _) fun _ => fileView_ignoresRefresh.refresh _ _ observed
      unfold importDockerImage
      split
      · exact hs
      · refine Eq.trans ?_ hs
        unfold UploadDb.fileView
        congr 1
        rw [links_append]
        exact List.append_nil _

/-- The state with a release that was just imported. -/
structure Imported (db : UploadDb) (dto : ImportReleaseDto) (p : ℕ) (c : String) (s : UploadDb) :
    Prop where
  constraints : s.Constraints
  metadata : s.sizing.metadata = db.sizing.metadata ++ [(c, dto.metadata.getD ⟨none, none, []⟩)]
  files : s.fileView = db.fileView
  found : ∃ r, s.findRelease p dto.version = some r ∧ r.catalogId = c
  fresh : ∀ link ∈ db.links, link.1 ≠ c

theorem importReleaseInto_imported (hdb : db.Constraints) (dto : ImportReleaseDto) (p : ℕ) :
    (∃ e, importReleaseInto env dto p db = (.error e, db)) ∨
    db.findRelease p dto.version = none ∧ ∃ c s, importReleaseInto env dto p db = (.ok (), s) ∧
      Imported db dto p c s := by
  have hfiles := (@importReleaseInto_fileView env dto p).eq db
  have hkeeps := @importReleaseInto_constraints env dto p db hdb
  rcases @importReleaseInto_ends env db dto p hdb with
    hrefused | ⟨hnew, inserted, rows, s, hins, hs, hrows, hrun⟩
  · exact .inl hrefused
  refine .inr ⟨hnew, inserted.catalogId, (importReleaseInto env dto p db).2, ?_, hkeeps, ?_, hfiles, ?_, ?_⟩
  · rw [hrun]
    have hok : (refreshReleaseState env p dto.version s).1 = .ok () := by
      rw [refreshReleaseState_run env p dto.version hs]
      split
      · rfl
      · split <;> rfl
    exact Prod.ext hok rfl
  · rw [hrun, (refreshReleaseState_sizing p dto.version).eq s]
    show s.releases.map _ = _
    rw [hrows, metadata_insert hins]
    rfl
  · -- the refresh keeps the keys of the row
    obtain ⟨r, hr, hc⟩ := findRelease_insert hdb hins
    have hr' : s.findRelease p dto.version = some r := by
      unfold UploadDb.findRelease
      rw [hrows]
      exact hr
    rw [hrun] at hkeeps ⊢
    obtain ⟨x, hx, hdetails⟩ := findRelease_of_details hkeeps
      ((details_ignoresRefresh.refresh p dto.version).eq s) hr'
    exact ⟨x, hx, (Release.details_inj hdetails).1.trans hc⟩
  · rintro ⟨c, id⟩ hlink hc
    obtain ⟨a, ha, harelease, -⟩ := mem_links.mp hlink
    obtain ⟨r, hr, hkey⟩ := hdb.artifactReleases a ha
    obtain ⟨-, hfresh, -⟩ := insertRelease_some hins
    exact hfresh r hr ((hkey.trans harelease).trans hc)

namespace Imported

variable {dto : ImportReleaseDto} {p : ℕ} {c : String} {s : UploadDb}

theorem links_eq (h : Imported db dto p c s) : s.links = db.links := congrArg Prod.fst h.files

theorem fileSize_eq (h : Imported db dto p c s) (id : ℕ) :
    s.sizing.fileSize id = db.sizing.fileSize id := by
  have hsizes : s.sizes = db.sizes := by
    have hfiles := congrArg (fun v => v.2.map fun f => (f.1, f.2.2)) h.files
    simp only [UploadDb.fileView, List.map_map] at hfiles
    exact hfiles
  show (Rows.findKey Prod.fst id s.sizes).bind _ = (Rows.findKey Prod.fst id db.sizes).bind _
  rw [hsizes]

/-- The other releases stay due. -/
theorem due (h : Imported db dto p c s) (hdue : AllDue db) : s.sizing.DueExcept (· = c) := by
  apply hdue.widen
  intro e he hfresh
  rw [h.metadata] at he
  rcases List.mem_append.mp he with hold | hnew
  · exact ⟨hold, not_false, Sizing.linked_congr h.links_eq fun link _ _ => h.fileSize_eq link.2⟩
  · rw [List.mem_singleton.mp hnew] at hfresh
    exact absurd rfl hfresh

end Imported

/-! ### The files of an import -/

/-- What the import of one file may do to a state. -/
structure FileTried (c objectKey : String) (s s' : UploadDb) : Prop where
  releases : s'.releases = s.releases
  links : s'.links = s.links ∨ s'.links = s.links ++ [(c, s.nextId)]
  sizes : ∀ id, id ≠ s.nextId → s'.sizing.fileSize id = s.sizing.fileSize id
  next : s.nextId ≤ s'.nextId
  keys : ∀ f ∈ s'.fileUploads, f.objectKey = objectKey ∨ ∃ g ∈ s.fileUploads, g.objectKey = f.objectKey

namespace FileTried

variable {c objectKey : String} {s s' : UploadDb}

theorem refl (c objectKey : String) (s : UploadDb) : FileTried c objectKey s s :=
  ⟨rfl, .inl rfl, fun _ _ => rfl, le_refl _, fun f hf => .inr ⟨f, hf, rfl⟩⟩

theorem withFile (env : UploadEnv) (c objectKey : String) (artifact : ImportArtifactDto)
    (s : UploadDb) : FileTried c objectKey s (withFile env c objectKey artifact s) where
  releases := rfl
  links := by
    right
    exact links_append s (importedFileRow (s.nextId + 1) c artifact s.nextId) (s.nextId + 2)
  sizes := by
    intro id _
    exact @fileSize_append s (newFileUpload s.nextId artifact.name "release" objectKey env.bucketName)
      rfl (s.nextId + 2) id
  next := by
    show s.nextId ≤ s.nextId + 2
    omega
  keys := by
    intro f hf
    rcases List.mem_append.mp hf with hold | hnew
    · exact .inr ⟨f, hold, rfl⟩
    · rw [List.mem_singleton.mp hnew]
      exact .inl rfl

/-- Writes of other columns than the size, and of the size of the new file. -/
theorem updateFiles (h : FileTried c objectKey s s') {q : FileUpload → Bool}
    {g : FileUpload → FileUpload} (hg : ∀ f, (g f).id = f.id ∧ (g f).objectKey = f.objectKey)
    (hsize : ∀ f, q f = true → (g f).size = f.size ∨ f.id = s.nextId) :
    FileTried c objectKey s { s' with fileUploads := Rows.updateWhere q g s'.fileUploads } where
  releases := h.releases
  links := h.links
  sizes := by
    intro id hid
    rw [← h.sizes id hid, fileSize_sizing, fileSize_sizing]
    show (Rows.findKey _ _ (Rows.updateWhere q g s'.fileUploads)).bind _ = _
    rw [Rows.findKey_updateWhere s'.fileUploads fun f => (hg f).1]
    cases hfind : Rows.findKey FileUpload.id id s'.fileUploads with
    | none => rfl
    | some f =>
        obtain ⟨-, hf⟩ := Rows.findKey_some hfind
        rw [Option.map_some]
        by_cases hq : q f = true
        · rw [if_pos hq]
          rcases hsize f hq with hsame | hnew
          · exact hsame
          · exact absurd (hf.symm.trans hnew) hid
        · rw [if_neg hq]
  next := h.next
  keys := by
    intro f hf
    rcases Rows.mem_updateWhere.mp hf with ⟨x, hx, -, rfl⟩ | ⟨hf, -⟩
    · rw [(hg x).2]
      exact h.keys x hx
    · exact h.keys f hf

theorem storage (h : FileTried c objectKey s s') (objects : List StoredObject) :
    FileTried c objectKey s { s' with storage := objects } :=
  ⟨h.releases, h.links, h.sizes, h.next, h.keys⟩

end FileTried

/-- A row that has arrived has a size. -/
theorem fileSize_arrived {s : UploadDb} {id : ℕ} (h : ∃ f ∈ s.fileUploads, f.id = id)
    (content : Download) :
    ((updateFileUpload id (arrived content) s).sizing.fileSize id).isSome = true := by
  obtain ⟨f, hf, hid⟩ := h
  have hthere : (Rows.findKey FileUpload.id id s.fileUploads).isSome = true := by
    unfold Rows.findKey
    rw [List.find?_isSome]
    exact ⟨f, hf, by simpa using hid⟩
  obtain ⟨g, hg⟩ := Option.isSome_iff_exists.mp hthere
  rw [fileSize_sizing]
  show ((Rows.findKey _ _ (Rows.updateWhere _ _ s.fileUploads)).bind _).isSome = true
  rw [Rows.findKey_updateWhere s.fileUploads fun f => (rfl : (arrived content f).id = f.id), hg]
  obtain ⟨-, hgid⟩ := Rows.findKey_some hg
  rw [Option.map_some, if_pos (by simpa using hgid)]
  rfl

/-- **Spec.** The import of one file: what it may do, and that a file that comes gets its size. -/
theorem tryImportArtifact_tried {s : UploadDb} {p : ℕ} {v : String} {r : Release}
    (hfind : s.findRelease p v = some r) (downloads : String → Option Download) (allCame : Bool)
    (artifact : ImportArtifactDto) :
    FileTried r.catalogId (importKey p v artifact) s
      (tryImportArtifact env p v downloads allCame artifact s).2 ∧
    ((∀ f ∈ s.fileUploads, f.objectKey ≠ importKey p v artifact) →
      (comes downloads artifact).isSome = true →
        (r.catalogId, s.nextId) ∈ (tryImportArtifact env p v downloads allCame artifact s).2.links ∧
        ((tryImportArtifact env p v downloads allCame artifact s).2.sizing.fileSize
          s.nextId).isSome = true) := by
  have hcatch : ∀ e (t : UploadDb), importArtifact env p v downloads artifact s = (.error e, t) →
      FileTried r.catalogId (importKey p v artifact) s t →
      FileTried r.catalogId (importKey p v artifact) s
        (tryImportArtifact env p v downloads allCame artifact s).2 := by
    intro e t hrun ht
    unfold tryImportArtifact
    rw [tryCatch_run_error (bind_run_error hrun _)]
    apply ht.updateFiles
    · exact fun _ => ⟨rfl, rfl⟩
    · exact fun _ _ => .inl rfl
  have hnew := FileTried.withFile env r.catalogId (importKey p v artifact) artifact s
  have huploading : FileTried r.catalogId (importKey p v artifact) s
      (updateFileUpload s.nextId uploading
        (withFile env r.catalogId (importKey p v artifact) artifact s)) := by
    apply hnew.updateFiles
    · exact fun _ => ⟨rfl, rfl⟩
    · exact fun _ _ => .inl rfl
  rcases @importArtifact_run env s p v r hfind downloads artifact with
    ⟨⟨f, hf, hkey⟩, e, hrun⟩ | ⟨hfree, hrun⟩
  · exact ⟨hcatch e s hrun (.refl _ _ s), fun hfree => absurd hkey (hfree f hf)⟩
  cases hcomes : comes downloads artifact with
  | none =>
      obtain ⟨e, text, hfailed⟩ := uploadFileFromUrl_failed hcomes s.nextId (importKey p v artifact)
        env.bucketName (withFile env r.catalogId (importKey p v artifact) artifact s)
      refine ⟨hcatch e _ (hrun.trans hfailed) ?_, fun _ h => by cases h⟩
      refine FileTried.updateFiles ?_ (fun _ => ⟨rfl, rfl⟩) fun _ _ => .inl rfl
      unfold afterFailure
      cases artifact.downloadUrl.bind downloads with
      | none => exact huploading
      | some content => exact huploading.storage _
  | some content =>
      have hcame := uploadFileFromUrl_came hcomes s.nextId (importKey p v artifact) env.bucketName
        (withFile env r.catalogId (importKey p v artifact) artifact s)
      have hdone : (tryImportArtifact env p v downloads allCame artifact s).2 =
          updateFileUpload s.nextId (arrived content) (putObject env.bucketName
            (importKey p v artifact) content (updateFileUpload s.nextId uploading
              (withFile env r.catalogId (importKey p v artifact) artifact s))) := by
        unfold tryImportArtifact
        rw [tryCatch_run_ok (bind_run_ok (hrun.trans hcame) _)]
      rw [hdone]
      refine ⟨?_, fun _ _ => ⟨?_, ?_⟩⟩
      · refine FileTried.updateFiles ?_ (fun _ => ⟨rfl, rfl⟩) fun f hf => .inr (by simpa using hf)
        exact huploading.storage _
      · show _ ∈ (withFile env r.catalogId (importKey p v artifact) artifact s).links
        rw [show (withFile env r.catalogId (importKey p v artifact) artifact s).links = _ from
          links_append s (importedFileRow (s.nextId + 1) r.catalogId artifact s.nextId) (s.nextId + 2)]
        exact List.mem_append_right _ (List.mem_singleton.mpr rfl)
      · apply fileSize_arrived
        refine ⟨uploading (newFileUpload s.nextId artifact.name "release" (importKey p v artifact)
          env.bucketName), Rows.mem_updateWhere.mpr (.inl ⟨_, List.mem_append_right _
            (List.mem_singleton.mpr rfl), by simp [newFileUpload], rfl⟩), rfl⟩

/-- The state in the course of the import of the files of a release. -/
structure Importing (s₁ : UploadDb) (p : ℕ) (v c : String) (s : UploadDb) : Prop where
  constraints : s.Constraints
  releases : s.releases = s₁.releases
  links : ∃ new, s.links = s₁.links ++ new ∧ ∀ link ∈ new, link.1 = c
  sizes : ∀ id < s₁.nextId, s.sizing.fileSize id = s₁.sizing.fileSize id
  next : s₁.nextId ≤ s.nextId

namespace Importing

variable {s₁ s : UploadDb} {p : ℕ} {v c : String}

theorem start (h : s₁.Constraints) : Importing s₁ p v c s₁ :=
  ⟨h, rfl, ⟨[], by simp, nofun⟩, fun _ _ => rfl, le_refl _⟩

/-- **Step.** The import of one file. -/
theorem tried (h : Importing s₁ p v c s) {r : Release} (hfind : s₁.findRelease p v = some r)
    (hc : r.catalogId = c) (downloads : String → Option Download) (allCame : Bool)
    (artifact : ImportArtifactDto) :
    Importing s₁ p v c (tryImportArtifact env p v downloads allCame artifact s).2 := by
  have hfind' : s.findRelease p v = some r := by
    unfold UploadDb.findRelease
    rw [h.releases]
    exact hfind
  obtain ⟨htried, -⟩ := @tryImportArtifact_tried env s p v r hfind' downloads allCame artifact
  obtain ⟨new, hnew, hof⟩ := h.links
  refine ⟨tryImportArtifact_constraints p v downloads allCame artifact s h.constraints,
    htried.releases.trans h.releases, ?_, fun id hid => ?_, h.next.trans htried.next⟩
  · rcases htried.links with hsame | hmore
    · exact ⟨new, hsame.trans hnew, hof⟩
    · refine ⟨new ++ [(r.catalogId, s.nextId)], ?_, ?_⟩
      · rw [hmore, hnew, List.append_assoc]
      · intro link hlink
        rcases List.mem_append.mp hlink with hold | hone
        · exact hof link hold
        · rw [List.mem_singleton.mp hone]
          exact hc
  · have hne : id ≠ s.nextId := by
      have hnext := h.next
      omega
    exact (htried.sizes id hne).trans (h.sizes id hid)

/-- The other releases stay due. -/
theorem due (h : Importing s₁ p v c s) (hs₁ : s₁.Constraints)
    (hdue : s₁.sizing.DueExcept (· = c)) : s.sizing.DueExcept (· = c) := by
  obtain ⟨new, hnew, hof⟩ := h.links
  apply hdue.widen
  intro e he hfresh
  refine ⟨?_, hfresh, ?_⟩
  · show e ∈ s₁.releases.map _
    rw [← h.releases]
    exact he
  · apply Sizing.linked_append hnew
    · intro link hlink heq
      exact hfresh (heq.symm.trans (hof link hlink))
    · rintro ⟨x, id⟩ hlink -
      obtain ⟨a, ha, -, hfile⟩ := mem_links.mp hlink
      obtain ⟨f, hf, hid⟩ := hs₁.artifactUploads a ha id hfile
      exact h.sizes id (hid ▸ hs₁.freshFiles f hf)

end Importing

/-- A file of the release has a size. -/
def HasSized (s : UploadDb) (c : String) : Prop :=
  ∃ id, (c, id) ∈ s.links ∧ (s.sizing.fileSize id).isSome = true

/-- The release is loaded with the file. -/
theorem HasSized.stored {s : UploadDb} {r : Release} (h : HasSized s r.catalogId) :
    ∃ a f n, (a, some f) ∈ (s.load r).artifacts ∧ f.size = some n ∧
      Holds s r.catalogId f.objectKey := by
  obtain ⟨id, hlink, hsize⟩ := h
  obtain ⟨a, ha, hof, hfile⟩ := mem_links.mp hlink
  rw [fileSize_sizing] at hsize
  obtain ⟨n, hn⟩ := Option.isSome_iff_exists.mp hsize
  obtain ⟨f, hfind, hfn⟩ := Option.bind_eq_some_iff.mp hn
  obtain ⟨hf, hid⟩ := Rows.findKey_some hfind
  have hupload : s.fileUploadOf a = some f := by
    unfold UploadDb.fileUploadOf
    rw [hfile]
    exact hfind
  refine ⟨a, f, n, ?_, hfn, a, ha, f, hf, hof, hid ▸ hfile, rfl⟩
  apply List.mem_map.mpr
  exact ⟨a, List.mem_filter.mpr ⟨ha, by simpa using hof⟩, by rw [hupload]⟩

/-- **Step.** A file that has a size keeps it. -/
theorem HasSized.tried {s : UploadDb} {c : String} (h : HasSized s c) (hs : s.Constraints) {p : ℕ}
    {v : String} {r : Release} (hfind : s.findRelease p v = some r)
    (downloads : String → Option Download) (allCame : Bool) (artifact : ImportArtifactDto) :
    HasSized (tryImportArtifact env p v downloads allCame artifact s).2 c := by
  obtain ⟨id, hlink, hsize⟩ := h
  obtain ⟨htried, -⟩ := @tryImportArtifact_tried env s p v r hfind downloads allCame artifact
  refine ⟨id, ?_, ?_⟩
  · rcases htried.links with hsame | hmore
    · rw [hsame]
      exact hlink
    · rw [hmore]
      exact List.mem_append_left _ hlink
  · obtain ⟨a, ha, -, hfile⟩ := mem_links.mp hlink
    obtain ⟨f, hf, hid⟩ := hs.artifactUploads a ha id hfile
    have hlt := hs.freshFiles f hf
    rw [htried.sizes id (by omega)]
    exact hsize

/-- What holds after the files of the import that are done. -/
structure FilesDone (s₁ : UploadDb) (p : ℕ) (v c : String) (downloads : String → Option Download)
    (done : List ImportArtifactDto) (s : UploadDb) : Prop where
  importing : Importing s₁ p v c s
  keys : ∀ f ∈ s.fileUploads, (∃ a ∈ done, f.objectKey = importKey p v a) ∨
    ∃ g ∈ s₁.fileUploads, g.objectKey = f.objectKey
  sized : FirstComes s₁ p v downloads done → HasSized s c

/-- **Step.** The next file. -/
theorem FilesDone.tried {s₁ s : UploadDb} {p : ℕ} {v c : String}
    {downloads : String → Option Download} {done : List ImportArtifactDto}
    (h : FilesDone s₁ p v c downloads done s) {r : Release} (hfind : s₁.findRelease p v = some r)
    (hc : r.catalogId = c) (allCame : Bool) (artifact : ImportArtifactDto) :
    FilesDone s₁ p v c downloads (done ++ [artifact])
      (tryImportArtifact env p v downloads allCame artifact s).2 := by
  have hfind' : s.findRelease p v = some r := by
    unfold UploadDb.findRelease
    rw [h.importing.releases]
    exact hfind
  obtain ⟨htried, hsized⟩ := @tryImportArtifact_tried env s p v r hfind' downloads allCame artifact
  refine ⟨h.importing.tried hfind hc downloads allCame artifact, fun f hf => ?_, ?_⟩
  · rcases htried.keys f hf with hkey | ⟨g, hg, hkey⟩
    · exact .inl ⟨artifact, List.mem_append_right _ (List.mem_singleton.mpr rfl), hkey⟩
    · rcases h.keys g hg with ⟨a, ha, hkeya⟩ | ⟨x, hx, hkeyx⟩
      · exact .inl ⟨a, List.mem_append_left _ ha, hkey ▸ hkeya⟩
      · exact .inr ⟨x, hx, hkeyx.trans hkey⟩
  · rintro ⟨before, a, after, heq, hcomes, hfree, hfirst⟩
    rcases List.eq_nil_or_concat after with rfl | ⟨after, y, rfl⟩
    · -- it is this file that comes
      obtain ⟨rfl, hone⟩ := List.append_inj' heq rfl
      obtain rfl := List.singleton_inj.mp hone
      have hfree' : ∀ f ∈ s.fileUploads, f.objectKey ≠ importKey p v artifact := by
        intro f hf hkey
        rcases h.keys f hf with ⟨b, hb, hkeyb⟩ | ⟨g, hg, hkeyg⟩
        · exact hfirst b hb (hkeyb.symm.trans hkey)
        · exact hfree g hg (hkeyg.trans hkey)
      obtain ⟨hlink, hsize⟩ := hsized hfree' hcomes
      exact ⟨s.nextId, hc ▸ hlink, hsize⟩
    · rw [List.concat_eq_append, ← List.cons_append, ← List.append_assoc] at heq
      obtain ⟨rfl, -⟩ := List.append_inj' heq rfl
      exact (h.sized ⟨before, a, after, rfl, hcomes, hfree, hfirst⟩).tried h.importing.constraints
        hfind' downloads allCame artifact

/-- **Run.** The import of all files. -/
theorem importArtifactsInBackground_done {s₁ : UploadDb} (hs₁ : s₁.Constraints) {p : ℕ} {v c : String}
    {r : Release} (hfind : s₁.findRelease p v = some r) (hc : r.catalogId = c)
    (artifacts : List ImportArtifactDto) (downloads : String → Option Download) :
    ∃ s, FilesDone s₁ p v c downloads
        (artifacts.filter fun a => (truthy a.downloadUrl).isSome) s ∧
      (importArtifactsInBackground env p v artifacts downloads s₁).2.sizing = s.sizing ∧
      (importArtifactsInBackground env p v artifacts downloads s₁).2.details = s.details := by
  have hstart : FilesDone s₁ p v c downloads [] s₁ := by
    refine ⟨.start hs₁, fun f hf => .inr ⟨f, hf, rfl⟩, ?_⟩
    rintro ⟨before, a, after, heq, -⟩
    cases before <;> cases heq
  obtain ⟨s, hdone, hsame⟩ := @importArtifactsInBackground_ends env p v artifacts downloads
    (FilesDone s₁ p v c downloads) s₁ hstart fun done artifact allCame s _ h =>
      h.tried hfind hc allCame artifact
  exact ⟨s, hdone, hsame sizing_ignoresRefresh, hsame details_ignoresRefresh⟩

/-! ### Imports -/

/-- What an import leaves: the releases are due but the one it creates. -/
structure LeavesOne (db : UploadDb) (dto : ImportReleaseDto) (downloads : String → Option Download)
    (t : UploadDb) (p : ℕ) (r : Release) : Prop where
  project : namedProject db (some dto.projectIdentifier) 0 = some p
  new : db.findRelease p dto.version = none
  found : t.findRelease p dto.version = some r
  due : t.sizing.DueExcept (· = r.catalogId)
  sized : BringsFile db p dto.version dto.artifacts downloads → HasSized t r.catalogId
  unsized : dto.totalRight → ¬ HasSized t r.catalogId → AllDue t

/-- A release with the right total size and no file of a known size. -/
theorem allDue_of_unsized (hdb : db.Constraints) {c : String} {metadata : ReleaseMetadata}
    (hmem : (c, metadata) ∈ db.sizing.metadata)
    (hright : metadata.totalSize = some (finiteSize metadata.installationSize))
    (hdue : db.sizing.DueExcept (· = c)) (hnone : ¬ HasSized db c) : AllDue db := by
  intro e he _
  by_cases hc : e.1 = c
  · have hzero : db.sizing.linked c = 0 := by
      apply Sizing.linked_eq_zero
      rintro ⟨x, id⟩ hlink rfl
      by_contra hsize
      exact hnone ⟨id, hlink, Option.isSome_iff_ne_none.mpr hsize⟩
    obtain ⟨x, hx, rfl⟩ := List.mem_map.mp he
    obtain ⟨y, hy, heq⟩ := List.mem_map.mp hmem
    obtain ⟨hyc, rfl⟩ := Prod.mk.inj heq
    obtain rfl := hdb.releaseKeys.eq_of_mem hx hy (hc.trans hyc.symm)
    show x.metadata.totalSize = some (_ + db.sizing.linked x.catalogId)
    rw [hyc, hzero, add_zero]
    exact hright
  · exact hdue e he hc

/-- **Spec.** An import with its files. -/
theorem importWithFiles_due (hdb : db.Constraints) (hdue : AllDue db) (dto : ImportReleaseDto)
    (downloads : String → Option Download) :
    AllDue (importWithFiles env dto downloads db).2 ∨
      ∃ p r, LeavesOne db dto downloads (importWithFiles env dto downloads db).2 p r := by
  obtain ⟨result, hresolve, hproject⟩ := resolveProject_run (some dto.projectIdentifier) 0 db
  unfold importWithFiles
  cases result with
  | error e =>
      rw [bind_run_error hresolve]
      exact .inl hdue
  | ok p =>
      rw [bind_run_ok hresolve]
      rcases @importReleaseInto_imported env db hdb dto p with
        ⟨e, hrun⟩ | ⟨hnew, c, s₁, hrun, himported⟩
      · rw [bind_run_error hrun]
        exact .inl hdue
      rw [bind_run_ok hrun]
      obtain ⟨r, hfind, hc⟩ := himported.found
      obtain ⟨s, hdone, hsizing, hdetails⟩ := @importArtifactsInBackground_done env s₁
        himported.constraints p dto.version c r hfind hc dto.artifacts downloads
      have ht := @importArtifactsInBackground_constraints env p dto.version dto.artifacts downloads s₁
        himported.constraints
      generalize (importArtifactsInBackground env p dto.version dto.artifacts downloads s₁).2 = t
        at hsizing hdetails ht ⊢
      have hreleases : s.releases = s₁.releases := hdone.importing.releases
      have hfind' : s.findRelease p dto.version = some r := by
        unfold UploadDb.findRelease
        rw [hreleases]
        exact hfind
      obtain ⟨r', hr', hsame⟩ := findRelease_of_details ht hdetails hfind'
      obtain rfl : r'.catalogId = c := (Release.details_inj hsame).1.trans hc
      have hexcept : t.sizing.DueExcept (· = r'.catalogId) := by
        rw [hsizing]
        exact hdone.importing.due himported.constraints (himported.due hdue)
      have hhas : HasSized s r'.catalogId → HasSized t r'.catalogId := by
        rintro ⟨id, hlink, hsize⟩
        refine ⟨id, ?_, hsizing ▸ hsize⟩
        show _ ∈ t.sizing.links
        rw [hsizing]
        exact hlink
      refine .inr ⟨p, r', (hproject p).mp rfl, hnew, hr', hexcept, fun hbrings => ?_,
        fun hright hnone => ?_⟩
      · -- the keys that are taken are those from before the import
        apply hhas
        apply hdone.sized
        obtain ⟨before, artifact, after, heq, hcomes, hfree, hfirst⟩ := hbrings
        refine ⟨before, artifact, after, heq, hcomes, fun f hf hkey => ?_, hfirst⟩
        have hmem : (f.id, f.objectKey, f.size) ∈ s₁.fileView.2 :=
          List.mem_map_of_mem (f := fun f : FileUpload => (f.id, f.objectKey, f.size)) hf
        rw [himported.files] at hmem
        obtain ⟨g, hg, hgf⟩ := List.mem_map.mp hmem
        obtain ⟨-, hgkey, -⟩ : g.id = f.id ∧ g.objectKey = f.objectKey ∧ g.size = f.size := by
          simpa using hgf
        exact hfree g hg (hgkey.trans hkey)
      · have hmem : (r'.catalogId, dto.metadata.getD ⟨none, none, []⟩) ∈ t.sizing.metadata := by
          rw [hsizing]
          show _ ∈ s.releases.map _
          rw [hreleases]
          show _ ∈ s₁.sizing.metadata
          rw [himported.metadata]
          exact List.mem_append_right _ (List.mem_singleton.mpr rfl)
        exact allDue_of_unsized ht hmem hright hexcept hnone

end UploadService
