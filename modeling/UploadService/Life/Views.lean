import UploadService.Life.ImportTotals

/-!
# Artifacts up to ids

What an artifact is, apart from its ids: its columns, and the checksum of the object behind its
file upload. The import of a file appends one such view, if its object key is free, and leaves
the others.

Main results:

- `importDockerImages_views`: the images of an import;
- `tryImportArtifact_views`: one file of an import.
-/

namespace UploadService

open Prog ReleaseService FileUploadService RegulationStatusService

variable {env : UploadEnv} {db : UploadDb}

/-! ### Views -/

/-- An artifact up to ids. -/
structure ArtifactView where
  type : ArtifactType
  artifactName : Option String
  /-- the checksum of the object -/
  digest : Option String
  dockerImageUrl : Option String
  packageVersion : Option String
  metadata : Object
  isInstallationFile : Bool
  isExecutable : Bool
  arguments : Option String
  deriving DecidableEq, Repr

def ReleaseArtifact.view (a : ReleaseArtifact) (digest : Option String) : ArtifactView where
  type := a.type
  artifactName := a.artifactName
  digest := digest
  dockerImageUrl := a.dockerImageUrl
  packageVersion := a.packageVersion
  metadata := a.metadata
  isInstallationFile := a.isInstallationFile
  isExecutable := a.isExecutable
  arguments := a.arguments

/-- The checksum of the object with the key. -/
def digestAt (env : UploadEnv) (db : UploadDb) (objectKey : String) : Option String :=
  (db.getObjectStat env.bucketName objectKey).bind (·.sha256)

/-- The object key of the file upload behind the artifact. -/
def UploadDb.keyOf (db : UploadDb) (a : ReleaseArtifact) : Option String :=
  (db.fileUploadOf a).map (·.objectKey)

def viewOf (env : UploadEnv) (db : UploadDb) (a : ReleaseArtifact) : ArtifactView :=
  a.view ((db.keyOf a).bind (digestAt env db))

/-- The artifacts of the release, up to ids. -/
def viewsOf (env : UploadEnv) (db : UploadDb) (c : String) : List ArtifactView :=
  (db.artifactsOf c).map (viewOf env db)

theorem viewOf_congr {db' : UploadDb} {a : ReleaseArtifact} (hkey : db'.keyOf a = db.keyOf a)
    (hdigest : ∀ key ∈ db.keyOf a, digestAt env db' key = digestAt env db key) :
    viewOf env db' a = viewOf env db a := by
  unfold viewOf
  rw [hkey]
  cases hof : db.keyOf a with
  | none => rfl
  | some key => exact congrArg a.view (hdigest key hof)

/-- Writes that leave the keys of the file uploads. -/
theorem viewsOf_updateFiles {q : FileUpload → Bool} {g : FileUpload → FileUpload} (db : UploadDb)
    (hg : ∀ f, (g f).id = f.id ∧ (g f).objectKey = f.objectKey) (c : String) :
    viewsOf env { db with fileUploads := Rows.updateWhere q g db.fileUploads } c = viewsOf env db c := by
  have hviews : ∀ a ∈ db.artifactsOf c,
      viewOf env { db with fileUploads := Rows.updateWhere q g db.fileUploads } a =
        viewOf env db a := by
    intro a _
    refine viewOf_congr ?_ fun _ _ => rfl
    unfold UploadDb.keyOf UploadDb.fileUploadOf
    cases a.fileUploadId with
    | none => rfl
    | some id =>
        show (Rows.findKey _ _ (Rows.updateWhere q g db.fileUploads)).map _ = _
        rw [Rows.findKey_updateWhere db.fileUploads fun f => (hg f).1, Option.map_map]
        show Option.map _ _ = Option.map _ (Rows.findKey FileUpload.id id db.fileUploads)
        congr 1
        funext f
        show (if q f then g f else f).objectKey = f.objectKey
        split
        · exact (hg f).2
        · rfl
  unfold viewsOf
  exact List.map_congr_left hviews

theorem viewsOf_ignoresRefresh (env : UploadEnv) (c : String) :
    IgnoresRefresh fun db => viewsOf env db c where
  releases := fun _ _ _ _ => rfl
  missing := by
    intro db q
    apply viewsOf_updateFiles
    exact fun _ => ⟨rfl, rfl⟩
  pending := fun _ _ => rfl

/-! ### Writes of the storage -/

theorem digestAt_putObject (content : Download) (key objectKey : String) :
    digestAt env (putObject env.bucketName key content db) objectKey =
      if objectKey = key then some content.sha256 else digestAt env db objectKey := by
  unfold digestAt UploadDb.getObjectStat putObject
  rw [List.find?_cons]
  by_cases hkey : objectKey = key
  · rw [if_pos hkey, hkey]
    simp
  · rw [if_neg hkey]
    have hne : (key == objectKey) = false := by simpa using fun h => hkey h.symm
    simp only [hne, Bool.and_false]
    congr 1
    apply Rows.find?_deleteWhere
    intro o _ ho
    have hokey : o.objectKey = key := by
      simp only [Bool.and_eq_true, beq_iff_eq] at ho
      exact ho.2
    simp [hokey, hne]

theorem digestAt_deleteObjects (key objectKey : String) :
    digestAt env (deleteObjects env.bucketName key db) objectKey =
      if objectKey = key then none else digestAt env db objectKey := by
  unfold digestAt
  by_cases hkey : objectKey = key
  · rw [if_pos hkey, hkey, getObjectStat_deleteObjects]
    rfl
  · rw [if_neg hkey]
    unfold UploadDb.getObjectStat deleteObjects
    congr 1
    apply Rows.find?_deleteWhere
    intro o _ ho
    simp only [Bool.and_eq_true, beq_iff_eq] at ho
    have hne : (o.objectKey == objectKey) = false := by
      rw [ho.2]
      simpa using fun h => hkey h.symm
    rw [hne, Bool.and_false]

/-! ### Imported files -/

/-- A file of an import, once its row is there. -/
def importedView (downloads : String → Option Download) (artifact : ImportArtifactDto) : ArtifactView where
  type := .file
  artifactName := some artifact.name
  digest := (comes downloads artifact).map (·.sha256)
  dockerImageUrl := none
  packageVersion := none
  metadata := artifact.metadata.getD []
  isInstallationFile := true
  isExecutable := artifact.isExecutable.getD false
  arguments := artifact.arguments

def UploadDb.objectKeys (db : UploadDb) : List String := db.fileUploads.map (·.objectKey)

theorem objectKeys_updateFiles {q : FileUpload → Bool} {g : FileUpload → FileUpload} (db : UploadDb)
    (hg : ∀ f, (g f).objectKey = f.objectKey) :
    UploadDb.objectKeys { db with fileUploads := Rows.updateWhere q g db.fileUploads } =
      db.objectKeys :=
  Rows.map_updateWhere db.fileUploads fun f _ _ => hg f

/-- The views once the rows of a file are there, and its object has changed. -/
theorem viewsOf_withFile (hdb : db.Constraints) {c key : String} (hfree : key ∉ db.objectKeys)
    (artifact : ImportArtifactDto) {s : UploadDb}
    (hs : s = { withFile env c key artifact db with storage := s.storage })
    (hdigest : ∀ k, k ≠ key → digestAt env s k = digestAt env db k) :
    viewsOf env s c = viewsOf env db c ++
      [(importedFileRow (db.nextId + 1) c artifact db.nextId).view (digestAt env s key)] := by
  have hartifacts : s.artifactsOf c =
      db.artifactsOf c ++ [importedFileRow (db.nextId + 1) c artifact db.nextId] := by
    rw [hs]
    show (db.artifacts ++ [_]).filter _ = _
    rw [List.filter_append]
    congr 1
    simp [importedFileRow, newArtifact]
  have hfiles : s.fileUploads = db.fileUploads ++
      [newFileUpload db.nextId artifact.name "release" key env.bucketName] := by
    rw [hs]
    rfl
  unfold viewsOf
  rw [hartifacts, List.map_append, List.map_singleton]
  congr 1
  · apply List.map_congr_left
    intro a ha
    have hmem : a ∈ db.artifacts := (List.mem_filter.mp ha).1
    have hfile : s.fileUploadOf a = db.fileUploadOf a := by
      unfold UploadDb.fileUploadOf
      cases hid : a.fileUploadId with
      | none => rfl
      | some id =>
          obtain ⟨f, hf, hfid⟩ := hdb.artifactUploads a hmem id hid
          show Rows.findKey _ _ _ = Rows.findKey _ _ _
          have hfound := hfid ▸ Rows.findKey_unique hdb.fileKeys hf
          unfold Rows.findKey at hfound ⊢
          rw [hfiles, List.find?_append, hfound]
          rfl
    apply viewOf_congr
    · unfold UploadDb.keyOf
      rw [hfile]
    · intro k hk
      apply hdigest
      rintro rfl
      obtain ⟨f, hof, rfl⟩ := Option.map_eq_some_iff.mp hk
      exact hfree (List.mem_map_of_mem (mem_of_fileUploadOf hof).1)
  · have hkey : s.keyOf (importedFileRow (db.nextId + 1) c artifact db.nextId) = some key := by
      have hfresh : db.fileUploads.find? (fun f => f.id == db.nextId) = none := by
        apply List.find?_eq_none.mpr
        intro f hf
        have hlt := hdb.freshFiles f hf
        simp only [beq_iff_eq]
        omega
      unfold UploadDb.keyOf UploadDb.fileUploadOf
      show (Rows.findKey FileUpload.id db.nextId s.fileUploads).map _ = _
      unfold Rows.findKey
      rw [hfiles, List.find?_append, hfresh]
      simp [newFileUpload]
    unfold viewOf
    rw [hkey]
    rfl

/-- What the import of one file does to the views of its release. -/
structure ViewTried (env : UploadEnv) (downloads : String → Option Download) (c key : String)
    (artifact : ImportArtifactDto) (s s' : UploadDb) : Prop where
  details : s'.details = s.details
  dependencies : s'.dependencies = s.dependencies
  keys : ∀ k, k ∈ s'.objectKeys ↔ k ∈ s.objectKeys ∨ k = key
  views : viewsOf env s' c = viewsOf env s c ++
    if key ∈ s.objectKeys then [] else [importedView downloads artifact]

theorem ViewTried.updateFiles {downloads : String → Option Download} {c key : String}
    {artifact : ImportArtifactDto} {s s' : UploadDb} (h : ViewTried env downloads c key artifact s s')
    {q : FileUpload → Bool} {g : FileUpload → FileUpload}
    (hg : ∀ f, (g f).id = f.id ∧ (g f).objectKey = f.objectKey) :
    ViewTried env downloads c key artifact s
      { s' with fileUploads := Rows.updateWhere q g s'.fileUploads } where
  details := h.details
  dependencies := h.dependencies
  keys := by
    intro k
    rw [objectKeys_updateFiles s' fun f => (hg f).2]
    exact h.keys k
  views := (viewsOf_updateFiles s' hg c).trans h.views

/-- A file whose rows are there, and whose object is the one that the view tells. -/
theorem ViewTried.withFile (hdb : db.Constraints) {downloads : String → Option Download} {c key : String}
    (hfree : key ∉ db.objectKeys) {artifact : ImportArtifactDto} {s : UploadDb}
    (hs : s = { withFile env c key artifact db with storage := s.storage })
    (hdigest : ∀ k, k ≠ key → digestAt env s k = digestAt env db k)
    (hown : digestAt env s key = (comes downloads artifact).map (·.sha256)) :
    ViewTried env downloads c key artifact db s where
  details := by
    rw [hs]
    rfl
  dependencies := by
    rw [hs]
    rfl
  keys := by
    intro k
    rw [hs]
    show k ∈ (db.fileUploads ++ [_]).map _ ↔ _
    rw [List.map_append, List.mem_append, List.map_singleton, List.mem_singleton]
    rfl
  views := by
    rw [viewsOf_withFile hdb hfree artifact hs hdigest, hown, if_neg hfree]
    rfl

/-- **Spec.** The import of one file, whose download gives some content. -/
theorem tryImportArtifact_views {s : UploadDb} (hs : s.Constraints) {p : ℕ} {v : String} {r : Release}
    (hfind : s.findRelease p v = some r) {downloads : String → Option Download} (allCame : Bool)
    {artifact : ImportArtifactDto} {content : Download}
    (hcontent : artifact.downloadUrl.bind downloads = some content) :
    ViewTried env downloads r.catalogId (importKey p v artifact) artifact s
      (tryImportArtifact env p v downloads allCame artifact s).2 := by
  have hcatch : ∀ e (t : UploadDb), importArtifact env p v downloads artifact s = (.error e, t) →
      (ViewTried env downloads r.catalogId (importKey p v artifact) artifact s t) →
      ViewTried env downloads r.catalogId (importKey p v artifact) artifact s
        (tryImportArtifact env p v downloads allCame artifact s).2 := by
    intro e t hrun ht
    unfold tryImportArtifact
    rw [tryCatch_run_error (bind_run_error hrun _)]
    apply ht.updateFiles
    exact fun _ => ⟨rfl, rfl⟩
  rcases @importArtifact_run env s p v r hfind downloads artifact with
    ⟨⟨f, hf, hkey⟩, e, hrun⟩ | ⟨hfree, hrun⟩
  · have hmem : importKey p v artifact ∈ s.objectKeys := hkey ▸ List.mem_map_of_mem hf
    apply hcatch e s hrun
    refine ⟨rfl, rfl, fun k => ?_, ?_⟩
    · constructor
      · exact .inl
      · rintro (hk | rfl)
        · exact hk
        · exact hmem
    · rw [if_pos hmem, List.append_nil]
  have hfree' : importKey p v artifact ∉ s.objectKeys := by
    intro hmem
    obtain ⟨f, hf, hkey⟩ := List.mem_map.mp hmem
    exact hfree f hf hkey
  cases hcomes : comes downloads artifact with
  | none =>
      obtain ⟨e, text, hfailed⟩ := uploadFileFromUrl_failed hcomes s.nextId (importKey p v artifact)
        env.bucketName (withFile env r.catalogId (importKey p v artifact) artifact s)
      rw [hcontent] at hrun hfailed
      apply hcatch e _ (hrun.trans hfailed)
      refine ViewTried.updateFiles ?_ fun _ => ⟨rfl, rfl⟩
      show ViewTried env downloads r.catalogId _ artifact s (updateFileUpload s.nextId uploading
        (deleteObjects env.bucketName (importKey p v artifact) _))
      refine ViewTried.updateFiles ?_ fun _ => ⟨rfl, rfl⟩
      apply ViewTried.withFile hs hfree' rfl
      · intro k hk
        exact (digestAt_deleteObjects _ k).trans (if_neg hk)
      · rw [hcomes]
        exact (digestAt_deleteObjects _ _).trans (if_pos rfl)
  | some content' =>
      have hcame := uploadFileFromUrl_came hcomes s.nextId (importKey p v artifact) env.bucketName
        (withFile env r.catalogId (importKey p v artifact) artifact s)
      unfold tryImportArtifact
      rw [tryCatch_run_ok (bind_run_ok (hrun.trans hcame) _)]
      refine ViewTried.updateFiles ?_ fun _ => ⟨rfl, rfl⟩
      show ViewTried env downloads r.catalogId _ artifact s (updateFileUpload s.nextId uploading
        (putObject env.bucketName (importKey p v artifact) content' _))
      refine ViewTried.updateFiles ?_ fun _ => ⟨rfl, rfl⟩
      apply ViewTried.withFile hs hfree' rfl
      · intro k hk
        exact (digestAt_putObject content' _ k).trans (if_neg hk)
      · rw [hcomes]
        exact (digestAt_putObject content' _ _).trans (if_pos rfl)

/-! ### Imported images -/

def imageView (image : ImportDockerImageDto) : ArtifactView where
  type := .dockerImage
  artifactName := image.name
  digest := none
  dockerImageUrl := some image.imageUrl
  packageVersion := none
  metadata := image.metadata.getD []
  isInstallationFile := true
  isExecutable := false
  arguments := none

/-- **Step.** An image that the release does not have. -/
theorem importDockerImage_view {c : String} {image : ImportDockerImageDto} {done : List ImportDockerImageDto}
    (hdone : viewsOf env db c = done.map imageView) (hnew : image.imageUrl ∉ done.map (·.imageUrl)) :
    ∃ s, importDockerImage c image db = (.ok (), s) ∧ s.releases = db.releases ∧
      s.dependencies = db.dependencies ∧ viewsOf env s c = (done ++ [image]).map imageView := by
  have hfree : (db.artifacts.any fun a => a.releaseId == c && a.type == .dockerImage &&
      a.dockerImageUrl == some image.imageUrl) = false := by
    apply eq_false_of_ne_true
    intro htaken
    obtain ⟨a, ha, hsame⟩ := List.any_eq_true.mp htaken
    simp only [Bool.and_eq_true, beq_iff_eq] at hsame
    have hview : viewOf env db a ∈ done.map imageView := by
      rw [← hdone]
      exact List.mem_map_of_mem (List.mem_filter.mpr ⟨ha, by simpa using hsame.1.1⟩)
    obtain ⟨other, hother, heq⟩ := List.mem_map.mp hview
    have hurl : (some other.imageUrl : Option String) = a.dockerImageUrl :=
      congrArg ArtifactView.dockerImageUrl heq
    apply hnew
    rw [← Option.some.inj (hurl.trans hsame.2)]
    exact List.mem_map_of_mem hother
  refine ⟨_, if_neg (by rw [hfree]; exact Bool.false_ne_true), rfl, rfl, ?_⟩
  rw [List.map_append, List.map_singleton, ← hdone]
  unfold viewsOf UploadDb.artifactsOf
  dsimp only
  rw [List.filter_append, List.map_append]
  congr 1
  simp [newArtifact, viewOf, UploadDb.keyOf, UploadDb.fileUploadOf, ReleaseArtifact.view, imageView]

/-- **Run.** The images of an import, each with a URL of its own. -/
theorem importDockerImages_views {c : String} (hnone : db.artifactsOf c = [])
    {images : List ImportDockerImageDto} (hurls : (images.map (·.imageUrl)).Nodup) :
    ∃ s, forEach (fun image => tryCatch (importDockerImage c image) fun _ => pure ()) images db =
        (.ok (), s) ∧ s.releases = db.releases ∧ s.dependencies = db.dependencies ∧
      viewsOf env s c = images.map imageView := by
  have hstep : ∀ (done : List ImportDockerImageDto) (image : ImportDockerImageDto) (s : UploadDb),
      image ∈ images → (s.releases = db.releases ∧ s.dependencies = db.dependencies ∧
        ((done.map (·.imageUrl)).Nodup → viewsOf env s c = done.map imageView)) →
      ∃ s', (tryCatch (importDockerImage c image) fun _ => pure ()) s = (.ok (), s') ∧
        s'.releases = db.releases ∧ s'.dependencies = db.dependencies ∧
        (((done ++ [image]).map (·.imageUrl)).Nodup →
          viewsOf env s' c = (done ++ [image]).map imageView) := by
    rintro done image s - ⟨hreleases, hdependencies, hviews⟩
    by_cases hnodup : ((done ++ [image]).map (·.imageUrl)).Nodup
    · rw [List.map_append, List.map_singleton, List.nodup_append] at hnodup
      obtain ⟨hdone, -, hdisjoint⟩ := hnodup
      have hnew : image.imageUrl ∉ done.map (·.imageUrl) :=
        fun hmem => hdisjoint _ hmem _ (List.mem_singleton.mpr rfl) rfl
      obtain ⟨s', hrun, hr, hd, hv⟩ := importDockerImage_view (hviews hdone) hnew
      exact ⟨s', tryCatch_run_ok hrun _, hr.trans hreleases, hd.trans hdependencies, fun _ => hv⟩
    · have hsame : ((importDockerImage c image s).2.releases = s.releases ∧
          (importDockerImage c image s).2.dependencies = s.dependencies) := by
        unfold importDockerImage
        split <;> exact ⟨rfl, rfl⟩
      refine ⟨(importDockerImage c image s).2, ?_, hsame.1.trans hreleases,
        hsame.2.trans hdependencies, fun h => absurd h hnodup⟩
      unfold Prog.tryCatch
      rcases importDockerImage c image s with ⟨result, s'⟩
      cases result <;> rfl
  have hstart : viewsOf env db c = [] := by
    unfold viewsOf
    rw [hnone]
    rfl
  obtain ⟨s, hrun, hreleases, hdependencies, hviews⟩ := Prog.forEach_run
    (I := fun done (s : UploadDb) => s.releases = db.releases ∧ s.dependencies = db.dependencies ∧
      ((done.map (·.imageUrl)).Nodup → viewsOf env s c = done.map imageView))
    hstep [] ⟨rfl, rfl, fun _ => hstart⟩
  exact ⟨s, hrun, hreleases, hdependencies, hviews hurls⟩

end UploadService
