import UploadService.Life.Exports
import UploadService.Life.ImportViews

/-!
# Exporting a release and importing it elsewhere

The export of a release is imported by a deployment that has its dependencies and not the
version; every download gives the object of its file. The release that the import creates is
compared with the one that was exported, up to ids.

Main results:

- `import_of_export_same_iff`: they are the same exactly when the release is one that the export
  can tell: images and plain installation files under names and keys of their own, with a name
  and notes;
- `package_not_exported`: otherwise a package is left out, and nothing fails.
-/

namespace UploadService

open Prog ReleaseService FileUploadService RegulationStatusService

variable {env : UploadEnv} {db : UploadDb}

/-! ### The release that was exported -/

/-- An artifact as it was loaded, up to ids. -/
def itemView (env : UploadEnv) (db : UploadDb) (item : ReleaseArtifact × Option FileUpload) : ArtifactView :=
  item.1.view ((item.2.map (·.objectKey)).bind (digestAt env db))

theorem viewsOf_load (r : Release) :
    viewsOf env db r.catalogId = (db.load r).artifacts.map (itemView env db) := by
  unfold UploadDb.load viewsOf
  rw [List.map_map]
  rfl

/-- The row of the file has the checksum of the object, if it has one. -/
def checksumKept (env : UploadEnv) (db : UploadDb) (file : FileUpload) : Prop :=
  ∀ sha256 ∈ truthy file.sha256, digestAt env db file.objectKey = some sha256

/-- The release is the one of the other deployment, up to ids. -/
structure SameRelease (env : UploadEnv) (source : UploadDb) (r : Release) (env' : UploadEnv)
    (target : UploadDb) (r' : Release) : Prop where
  name : r'.name = r.name
  version : r'.version = r.version
  releaseNotes : r'.releaseNotes = r.releaseNotes
  metadata : r'.metadata = r.metadata
  dependencies : (dependencyIds target r'.catalogId).Perm (dependencyIds source r.catalogId)
  artifacts : (viewsOf env' target r'.catalogId).Perm (viewsOf env source r.catalogId)

instance (env : UploadEnv) (source : UploadDb) (r : Release) (env' : UploadEnv) (target : UploadDb)
    (r' : Release) : Decidable (SameRelease env source r env' target r') :=
  decidable_of_iff (r'.name = r.name ∧ r'.version = r.version ∧ r'.releaseNotes = r.releaseNotes ∧
      r'.metadata = r.metadata ∧
      (dependencyIds target r'.catalogId).Perm (dependencyIds source r.catalogId) ∧
      (viewsOf env' target r'.catalogId).Perm (viewsOf env source r.catalogId))
    ⟨fun ⟨h₁, h₂, h₃, h₄, h₅, h₆⟩ => ⟨h₁, h₂, h₃, h₄, h₅, h₆⟩,
      fun ⟨h₁, h₂, h₃, h₄, h₅, h₆⟩ => ⟨h₁, h₂, h₃, h₄, h₅, h₆⟩⟩

/-- The other deployment has the release in the project. -/
def Survives (env : UploadEnv) (source : UploadDb) (r : Release) (env' : UploadEnv) (target : UploadDb)
    (p : ℕ) : Prop :=
  ∃ r' ∈ target.findRelease p r.version, SameRelease env source r env' target r'

instance (env : UploadEnv) (source : UploadDb) (r : Release) (env' : UploadEnv) (target : UploadDb)
    (p : ℕ) : Decidable (Survives env source r env' target p) :=
  inferInstanceAs (Decidable (∃ r' ∈ target.findRelease p r.version, _))

/-- A release of one deployment, and another deployment that is to import it: it has the
dependencies and not the version, and every download gives the object of its file. -/
structure Transfer (env : UploadEnv) (presign : String → String → String)
    (downloads : String → Option Download) (source : UploadDb) (loaded : LoadedRelease)
    (target : UploadDb) (identifier : Identifier) (p : ℕ) : Prop where
  sourceConstraints : source.Constraints
  targetConstraints : target.Constraints
  /-- the primary key of `release_dependencies` -/
  dependencyKeys : (dependencyIds source loaded.release.catalogId).Nodup
  /-- `unique_release_docker_image` -/
  imageUrls : ((imagesOf loaded.artifacts).map (·.dockerImageUrl)).Nodup
  /-- `CHECK (… docker_image_url IS NOT NULL AND type = 'docker_image' …)` -/
  imageUrl : ∀ a ∈ imagesOf loaded.artifacts, a.dockerImageUrl ≠ none
  present : ∀ c ∈ dependencyIds source loaded.release.catalogId, ∃ x ∈ target.releases, x.catalogId = c
  project : namedProject target (some identifier) 0 = some p
  new : target.findRelease p loaded.release.version = none
  presigned : ∀ bucketName objectKey, presign bucketName objectKey ≠ ""
  stored : ∀ item ∈ filesOf loaded.artifacts, ∃ content,
    digestAt env source item.2.objectKey = some content.sha256 ∧
      downloads (presign env.bucketName item.2.objectKey) = some content

/-- An artifact that the export can tell. -/
def ArtifactView.Plain (view : ArtifactView) : Prop :=
  view.packageVersion = none ∧ view.isInstallationFile = true ∧ view.isExecutable = false ∧
    view.arguments = none ∧
    (view.type = .file ∧ view.dockerImageUrl = none ∨ view.type = .dockerImage ∧ view.digest = none)

/-- The object key of a file of the release at the other deployment. -/
def keyAt (p : ℕ) (v : String) (item : ReleaseArtifact × FileUpload) : String :=
  createObjectKey "release" s!"{p}/{v}" item.2.fileName

/-- The release survives the export and the import into the other deployment. -/
structure Portable (env : UploadEnv) (source : UploadDb) (loaded : LoadedRelease) (target : UploadDb)
    (p : ℕ) : Prop where
  name : loaded.release.name = some ((truthy loaded.release.name).getD loaded.release.version)
  releaseNotes : loaded.release.releaseNotes ≠ none
  plain : ∀ item ∈ loaded.artifacts, (itemView env source item).Plain
  /-- the artifacts have the names of their files -/
  named : ((filesOf loaded.artifacts).map fun item => (item.1.artifactName,
      digestAt env source item.2.objectKey, item.1.metadata)).Perm
    ((filesOf loaded.artifacts).map fun item => (some item.2.fileName,
      digestAt env source item.2.objectKey, item.1.metadata))
  checksums : ∀ item ∈ filesOf loaded.artifacts, checksumKept env source item.2
  keys : ((filesOf loaded.artifacts).map (keyAt p loaded.release.version)).Nodup
  keysFree : ∀ item ∈ filesOf loaded.artifacts,
    keyAt p loaded.release.version item ∉ target.objectKeys
  catalogId : ∀ x ∈ target.releases,
    x.catalogId ≠ ReleaseSubscriber.catalogIdOf target.projects p loaded.release.version

theorem truthy_exported (name : Option String) : truthy (some ((truthy name).getD "")) = truthy name := by
  cases name with
  | none => rfl
  | some name =>
      by_cases hname : name = ""
      · rw [hname]
        rfl
      · simp [truthy, hname]

/-- A file of the export that is downloaded. -/
theorem comes_exported {presign : String → String → String} {downloads : String → Option Download}
    {a : ReleaseArtifact} {file : FileUpload} {content : Download}
    (hdigest : digestAt env db file.objectKey = some content.sha256)
    (hdownload : downloads (presign env.bucketName file.objectKey) = some content) :
    (checksumKept env db file → (comes downloads (exportedFile env presign db a file).asImport).map
        (·.sha256) = digestAt env db file.objectKey) ∧
      (¬ checksumKept env db file → comes downloads (exportedFile env presign db a file).asImport = none) := by
  have hexported : exportedSha256 env db file = (truthy file.sha256).getD content.sha256 := by
    unfold exportedSha256
    rw [show (db.getObjectStat env.bucketName file.objectKey).bind (·.sha256) = _ from hdigest]
    cases truthy file.sha256 <;> rfl
  have hcomes : comes downloads (exportedFile env presign db a file).asImport =
      (some content).filter fun content => !(truthy (some (exportedSha256 env db file))).any
        fun sha => sha != content.sha256 := by
    unfold comes
    show ((some (presign env.bucketName file.objectKey)).bind downloads).filter _ = _
    rw [Option.bind_some, hdownload]
    rfl
  rw [hcomes, Option.filter_some, hexported]
  unfold checksumKept
  rw [hdigest]
  cases hrow : truthy file.sha256 with
  | none =>
      refine ⟨fun _ => ?_, fun h => absurd nofun h⟩
      have hpass : (truthy (some content.sha256)).any (fun sha => sha != content.sha256) = false := by
        unfold truthy
        dsimp only
        split
        · rfl
        · simp
      simp [hpass]
  | some sha =>
      have htruthy : truthy (some sha) = some sha := by
        rw [← hrow]
        have hsame := truthy_exported file.sha256
        rw [hrow] at hsame ⊢
        exact hsame
      by_cases hsha : sha = content.sha256
      · refine ⟨fun _ => ?_, fun h => absurd ?_ h⟩
        · subst hsha
          simp [htruthy]
        · rintro x hx
          rw [← Option.some.inj hx, hsha]
      · refine ⟨fun h => absurd (Option.some.inj (h sha rfl)) fun heq => hsha heq.symm, fun _ => ?_⟩
        simp [htruthy, hsha]

/-! ### Kinds of artifacts -/

theorem mem_filesOf_items {items : List (ReleaseArtifact × Option FileUpload)}
    {pair : ReleaseArtifact × FileUpload} :
    pair ∈ filesOf items ↔ (pair.1, some pair.2) ∈ items ∧ pair.1.type = .file := by
  unfold filesOf
  rw [List.mem_filterMap]
  constructor
  · rintro ⟨⟨a, file⟩, hmem, hitem⟩
    cases htype : a.type <;> simp [htype] at hitem
    obtain ⟨file, rfl, rfl⟩ := hitem
    exact ⟨hmem, htype⟩
  · rintro ⟨hmem, htype⟩
    exact ⟨_, hmem, by simp [htype]⟩

/-- The file artifacts, as they were loaded. -/
theorem fileItems_eq {items : List (ReleaseArtifact × Option FileUpload)}
    (hfiles : ∀ item ∈ items, item.1.type = .file → item.2 ≠ none) :
    items.filter (fun item => item.1.type == .file) =
      (filesOf items).map fun pair => (pair.1, some pair.2) := by
  unfold filesOf
  induction items with
  | nil => rfl
  | cons item rest ih =>
      obtain ⟨a, file⟩ := item
      have ih' := ih fun x hx => hfiles x (List.mem_cons_of_mem _ hx)
      cases htype : a.type with
      | file =>
          cases file with
          | none => exact absurd rfl (hfiles (a, none) List.mem_cons_self htype)
          | some file => simp [htype, ih']
      | dockerImage => simpa [List.filter_cons, List.filterMap_cons, htype] using ih'
      | rpm => simpa [List.filter_cons, List.filterMap_cons, htype] using ih'
      | deb => simpa [List.filter_cons, List.filterMap_cons, htype] using ih'

theorem imageItems_eq (items : List (ReleaseArtifact × Option FileUpload)) :
    (items.filter fun item => item.1.type == .dockerImage).map (·.1) = imagesOf items := by
  unfold imagesOf
  rw [List.filter_map]
  rfl

/-- The artifacts are the images, the files and the packages. -/
theorem items_perm (items : List (ReleaseArtifact × Option FileUpload)) :
    items.Perm (items.filter (fun item => item.1.type == .dockerImage) ++
      (items.filter (fun item => item.1.type == .file) ++
        items.filter fun item => item.1.type != .dockerImage && item.1.type != .file)) := by
  have hfirst := List.filter_append_perm (fun item => item.1.type == .dockerImage) items
  have hsecond := List.filter_append_perm
    (fun item : ReleaseArtifact × Option FileUpload => item.1.type == .file)
    (items.filter fun item => !(item.1.type == .dockerImage))
  rw [List.filter_filter, List.filter_filter] at hsecond
  have hfiles : items.filter (fun item => item.1.type == .file && !(item.1.type == .dockerImage)) =
      items.filter fun item => item.1.type == .file := by
    apply List.filter_congr
    intro item _
    cases item.1.type <;> rfl
  have hpackages : items.filter (fun item => !(item.1.type == .file) && !(item.1.type == .dockerImage)) =
      items.filter fun item => item.1.type != .dockerImage && item.1.type != .file := by
    apply List.filter_congr
    intro item _
    cases item.1.type <;> rfl
  rw [hfiles, hpackages] at hsecond
  exact (hfirst.symm.trans (List.Perm.append_left _ hsecond.symm))

/-! ### The artifacts of the import -/

section Artifacts

variable {env env' : UploadEnv} {presign : String → String → String}
  {downloads : String → Option Download} {source target t : UploadDb} {loaded : LoadedRelease}
  {identifier : Identifier} {p : ℕ} {inserted r : Release} {dependencies : List String}

/-- A file that the export can tell. -/
def plainFile (x : Option String × Option String × Object) : ArtifactView :=
  ⟨.file, x.1, x.2.1, none, none, x.2.2, true, false, none⟩

theorem importedView_plain (artifact : ImportArtifactDto) (h : artifact.isExecutable = none)
    (harguments : artifact.arguments = none) : (importedView downloads artifact).Plain := by
  refine ⟨rfl, rfl, ?_, harguments, .inl ⟨rfl, rfl⟩⟩
  show artifact.isExecutable.getD false = false
  rw [h]
  rfl

theorem imageView_plain (image : ImportDockerImageDto) : (imageView image).Plain :=
  ⟨rfl, rfl, rfl, rfl, .inr ⟨rfl, rfl⟩⟩

theorem itemView_file {item : ReleaseArtifact × FileUpload} (htype : item.1.type = .file)
    (hplain : (itemView env source (item.1, some item.2)).Plain) :
    itemView env source (item.1, some item.2) = plainFile (item.1.artifactName,
      digestAt env source item.2.objectKey, item.1.metadata) := by
  obtain ⟨hversion, hinstall, hexecutable, harguments, hkind⟩ := hplain
  have hurl : item.1.dockerImageUrl = none := by
    rcases hkind with ⟨-, hurl⟩ | ⟨himage, -⟩
    · exact hurl
    · have hboth : item.1.type = .dockerImage := himage
      rw [htype] at hboth
      cases hboth
  show item.1.view _ = _
  simp only [itemView, ReleaseArtifact.view] at hversion hinstall hexecutable harguments
  simp only [ReleaseArtifact.view, plainFile, htype, hversion, hinstall, hexecutable, harguments, hurl]
  rfl

theorem itemView_image {item : ReleaseArtifact × Option FileUpload} (htype : item.1.type = .dockerImage)
    (hurl : item.1.dockerImageUrl ≠ none) (hplain : (itemView env source item).Plain) :
    itemView env source item = imageView (exportDockerImage item.1).asImport := by
  obtain ⟨hversion, hinstall, hexecutable, harguments, hkind⟩ := hplain
  have hdigest : (itemView env source item).digest = none := by
    rcases hkind with ⟨hfile, -⟩ | ⟨-, hdigest⟩
    · have hboth : item.1.type = .file := hfile
      rw [htype] at hboth
      cases hboth
    · exact hdigest
  obtain ⟨url, hsome⟩ := Option.ne_none_iff_exists'.mp hurl
  simp only [itemView, ReleaseArtifact.view] at hversion hinstall hexecutable harguments hdigest
  simp only [itemView, ReleaseArtifact.view, imageView, ExportDockerImageDto.asImport, exportDockerImage,
    htype, hversion, hinstall, hexecutable, harguments, hdigest, hsome, Option.getD_some]

/-- A loaded file artifact has its file upload. -/
theorem loaded_files (hsource : source.Constraints) (hloaded : loaded = source.load loaded.release) :
    ∀ item ∈ loaded.artifacts, item.1.type = .file → item.2 ≠ none := by
  rw [hloaded]
  intro item hitem htype
  obtain ⟨a, ha, rfl⟩ := List.mem_map.mp hitem
  have hmem : a ∈ source.artifacts := (List.mem_filter.mp ha).1
  obtain ⟨id, hid⟩ := Option.ne_none_iff_exists'.mp (hsource.fileArtifacts a hmem htype)
  obtain ⟨f, hf, rfl⟩ := hsource.artifactUploads a hmem id hid
  show source.fileUploadOf a ≠ none
  unfold UploadDb.fileUploadOf
  rw [hid, Option.bind_some, Rows.findKey_unique hsource.fileKeys hf]
  exact Option.some_ne_none f

/-- The files of the import, as the request names them. -/
def importedFiles (env : UploadEnv) (presign : String → String → String)
    (downloads : String → Option Download) (source : UploadDb) (loaded : LoadedRelease) :
    List ArtifactView :=
  (filesOf loaded.artifacts).map fun item =>
    importedView downloads (exportedFile env presign source item.1 item.2).asImport

def importedImages (loaded : LoadedRelease) : List ArtifactView :=
  (imagesOf loaded.artifacts).map fun a => imageView (exportDockerImage a).asImport

theorem importedFile_eq (h : Transfer env presign downloads source loaded target identifier p)
    {item : ReleaseArtifact × FileUpload} (hitem : item ∈ filesOf loaded.artifacts)
    (hsum : checksumKept env source item.2) :
    importedView downloads (exportedFile env presign source item.1 item.2).asImport =
      plainFile (some item.2.fileName, digestAt env source item.2.objectKey, item.1.metadata) := by
  obtain ⟨content, hdigest, hdownload⟩ := h.stored item hitem
  have hcomes := (comes_exported (a := item.1) hdigest hdownload).1 hsum
  rw [← hcomes]
  rfl

/-- **Spec.** The artifacts that the import creates, when every file has its rows, are those of the
release exactly when the export can tell them. -/
theorem imported_perm_iff (h : Transfer env presign downloads source loaded target identifier p)
    (hloaded : loaded = source.load loaded.release) :
    (importedImages loaded ++ importedFiles env presign downloads source loaded).Perm
        (loaded.artifacts.map (itemView env source)) ↔
      (∀ item ∈ loaded.artifacts, (itemView env source item).Plain) ∧
      ((filesOf loaded.artifacts).map fun item => (item.1.artifactName,
          digestAt env source item.2.objectKey, item.1.metadata)).Perm
        ((filesOf loaded.artifacts).map fun item => (some item.2.fileName,
          digestAt env source item.2.objectKey, item.1.metadata)) ∧
      ∀ item ∈ filesOf loaded.artifacts, checksumKept env source item.2 := by
  have hfiles := fileItems_eq (loaded_files h.sourceConstraints hloaded)
  have hplainFiles : (∀ item ∈ loaded.artifacts, (itemView env source item).Plain) →
      (loaded.artifacts.filter fun item => item.1.type == .file).map (itemView env source) =
        ((filesOf loaded.artifacts).map fun item => (item.1.artifactName,
          digestAt env source item.2.objectKey, item.1.metadata)).map plainFile := by
    intro hplain
    rw [hfiles, List.map_map, List.map_map]
    apply List.map_congr_left
    intro item hitem
    obtain ⟨hmem, htype⟩ := mem_filesOf_items.mp hitem
    exact itemView_file htype (hplain _ hmem)
  have hchecked : (∀ item ∈ filesOf loaded.artifacts, checksumKept env source item.2) →
      importedFiles env presign downloads source loaded =
        ((filesOf loaded.artifacts).map fun item => (some item.2.fileName,
          digestAt env source item.2.objectKey, item.1.metadata)).map plainFile := by
    intro hsums
    unfold importedFiles
    rw [List.map_map]
    apply List.map_congr_left
    intro item hitem
    exact importedFile_eq h hitem (hsums item hitem)
  constructor
  · intro hperm
    have hplain : ∀ item ∈ loaded.artifacts, (itemView env source item).Plain := by
      intro item hitem
      have hmem := hperm.mem_iff.mpr (List.mem_map_of_mem (f := itemView env source) hitem)
      rcases List.mem_append.mp hmem with himage | hfile
      · obtain ⟨a, -, heq⟩ := List.mem_map.mp himage
        rw [← heq]
        exact imageView_plain _
      · obtain ⟨x, -, heq⟩ := List.mem_map.mp hfile
        rw [← heq]
        exact importedView_plain _ rfl rfl
    -- the files among the artifacts are those of the request
    have hfilePerm : (importedFiles env presign downloads source loaded).Perm
        ((loaded.artifacts.filter fun item => item.1.type == .file).map (itemView env source)) := by
      have hfiltered := hperm.filter fun view => view.type == .file
      rw [List.filter_append, List.filter_map] at hfiltered
      have himages : (importedImages loaded).filter (fun view => view.type == .file) = [] := by
        apply List.filter_eq_nil_iff.mpr
        intro view hview
        obtain ⟨a, -, rfl⟩ := List.mem_map.mp hview
        exact Bool.false_ne_true
      have hall : (importedFiles env presign downloads source loaded).filter
          (fun view => view.type == .file) = importedFiles env presign downloads source loaded := by
        apply List.filter_eq_self.mpr
        intro view hview
        obtain ⟨x, -, rfl⟩ := List.mem_map.mp hview
        rfl
      rw [himages, hall, List.nil_append] at hfiltered
      exact hfiltered
    have hsums : ∀ item ∈ filesOf loaded.artifacts, checksumKept env source item.2 := by
      intro item hitem
      by_contra hsum
      obtain ⟨content, hdigest, hdownload⟩ := h.stored item hitem
      have hnone := (comes_exported (a := item.1) hdigest hdownload).2 hsum
      have hview : importedView downloads (exportedFile env presign source item.1 item.2).asImport ∈
          (loaded.artifacts.filter fun item => item.1.type == .file).map (itemView env source) :=
        hfilePerm.mem_iff.mp (List.mem_map_of_mem (f := fun item : ReleaseArtifact × FileUpload =>
          importedView downloads (exportedFile env presign source item.1 item.2).asImport) hitem)
      rw [hfiles, List.map_map] at hview
      obtain ⟨other, hother, heq⟩ := List.mem_map.mp hview
      obtain ⟨content', hdigest', -⟩ := h.stored other hother
      have hsome : (some content'.sha256 : Option String) =
          (comes downloads (exportedFile env presign source item.1 item.2).asImport).map (·.sha256) :=
        hdigest'.symm.trans (congrArg ArtifactView.digest heq)
      rw [hnone] at hsome
      cases hsome
    refine ⟨hplain, ?_, hsums⟩
    rw [hchecked hsums, hplainFiles hplain] at hfilePerm
    have hnames := (hfilePerm.map fun view => (view.artifactName, view.digest, view.metadata)).symm
    rw [List.map_map, List.map_map] at hnames
    simpa [plainFile, Function.comp_def] using hnames
  · rintro ⟨hplain, hnamed, hsums⟩
    have hpackages : loaded.artifacts.filter
        (fun item => item.1.type != .dockerImage && item.1.type != .file) = [] := by
      apply List.filter_eq_nil_iff.mpr
      intro item hitem
      obtain ⟨-, -, -, -, ⟨htype, -⟩ | ⟨htype, -⟩⟩ := hplain item hitem
      · have hfile : item.1.type = .file := htype
        simp [hfile]
      · have himage : item.1.type = .dockerImage := htype
        simp [himage]
    have himages : importedImages loaded =
        (loaded.artifacts.filter fun item => item.1.type == .dockerImage).map (itemView env source) := by
      unfold importedImages
      rw [← imageItems_eq, List.map_map]
      apply List.map_congr_left
      intro item hitem
      obtain ⟨hmem, htype⟩ := List.mem_filter.mp hitem
      have himage : item.1.type = .dockerImage := by simpa using htype
      have hof : item.1 ∈ imagesOf loaded.artifacts := by
        rw [← imageItems_eq]
        exact List.mem_map_of_mem hitem
      exact (itemView_image himage (h.imageUrl item.1 hof) (hplain item hmem)).symm
    have hitems := (items_perm loaded.artifacts).map (itemView env source)
    rw [hpackages, List.append_nil, List.map_append, ← himages, hplainFiles hplain] at hitems
    refine List.Perm.trans ?_ hitems.symm
    rw [hchecked hsums]
    exact List.Perm.append_left _ (hnamed.map plainFile).symm

/-! ### The dependencies and the row of the import -/

/-- The ids of the loaded dependencies. -/
theorem loaded_dependencyIds (hsource : source.Constraints) (c : String) :
    (source.dependenciesOf c).map (·.catalogId) = dependencyIds source c := by
  have hfound : ∀ d ∈ source.dependencies,
      (Rows.findKey Release.catalogId d.dependencyReleaseId source.releases).map (·.catalogId) =
        some d.dependencyReleaseId := by
    intro d hd
    obtain ⟨-, x, hx, hkey⟩ := hsource.dependencyReleases d hd
    rw [← hkey, Rows.findKey_unique hsource.releaseKeys hx]
    rfl
  unfold UploadDb.dependenciesOf dependencyIds
  rw [List.map_filterMap, List.filterMap_congr fun d hd => hfound d (List.mem_filter.mp hd).1]
  exact congrFun List.filterMap_eq_map _

/-- The dependencies that the import finds. -/
theorem importedDependencies_found (htarget : target.Constraints) {dto : ImportReleaseDto}
    (hnew : target.findRelease p dto.version = none) (hnodup : dto.dependencies.Nodup)
    (hpresent : ∀ c ∈ dto.dependencies, ∃ x ∈ target.releases, x.catalogId = c) :
    ∃ deps, importedDependencies dto p target = (.ok deps, target) ∧
      ((deps.getD []).map (·.catalogId)).Perm dto.dependencies := by
  unfold importedDependencies
  by_cases hempty : dto.dependencies = []
  · rw [hempty]
    exact ⟨none, rfl, List.Perm.nil⟩
  have hperm : ((target.releases.filter fun r => dto.dependencies.contains r.catalogId).map
      (·.catalogId)).Perm dto.dependencies := by
    have hkeys : ((target.releases.filter fun r => dto.dependencies.contains r.catalogId).map
        (·.catalogId)).Nodup :=
      htarget.releaseKeys.sublist List.filter_sublist
    apply (List.perm_ext_iff_of_nodup hkeys hnodup).mpr
    intro c
    constructor
    · intro hc
      obtain ⟨x, hx, rfl⟩ := List.mem_map.mp hc
      simpa using (List.mem_filter.mp hx).2
    · intro hc
      obtain ⟨x, hx, rfl⟩ := hpresent c hc
      exact List.mem_map_of_mem (List.mem_filter.mpr ⟨hx, by simpa using hc⟩)
  have hlength := hperm.length_eq
  rw [List.length_map] at hlength
  have hown : (target.releases.filter fun r => dto.dependencies.contains r.catalogId).any
      (UploadDb.isRelease p dto.version) = false := by
    apply List.any_eq_false.mpr
    intro x hx
    exact List.find?_eq_none.mp hnew x (List.mem_filter.mp hx).1
  have hvalid : getAndValidateDependenciesForRelease p dto.version dto.dependencies target =
      (.ok (target.releases.filter fun r => dto.dependencies.contains r.catalogId), target) := by
    unfold getAndValidateDependenciesForRelease
    rw [gets_bind_run, if_neg (by omega), if_neg (by rw [hown]; exact Bool.false_ne_true)]
    rfl
  refine ⟨some (target.releases.filter fun r => dto.dependencies.contains r.catalogId), ?_, hperm⟩
  rw [if_neg (by simpa using hempty)]
  exact bind_run_ok hvalid _

/-- The row of the import is refused exactly where its catalog id is taken. -/
theorem insertRelease_imported {semver : SemverLib} {row : Release}
    (hnew : target.findRelease row.projectId row.version = none) :
    (∃ inserted rows, insertRelease semver target.projects row target.releases = some (inserted, rows)) ↔
      ∀ x ∈ target.releases,
        x.catalogId ≠ ReleaseSubscriber.catalogIdOf target.projects row.projectId row.version := by
  have hrefused : (target.releases.any fun x =>
      x.catalogId == (ReleaseSubscriber.beforeInsert target.projects row).catalogId ||
        (x.projectId == (ReleaseSubscriber.beforeInsert target.projects row).projectId &&
          x.version == (ReleaseSubscriber.beforeInsert target.projects row).version)) = false ↔
      ∀ x ∈ target.releases,
        x.catalogId ≠ ReleaseSubscriber.catalogIdOf target.projects row.projectId row.version := by
    rw [List.any_eq_false]
    apply forall_congr'
    intro x
    apply forall_congr'
    intro hx
    have hother : (x.projectId == row.projectId && x.version == row.version) = false :=
      eq_false_of_ne_true (List.find?_eq_none.mp hnew x hx)
    show ¬ (x.catalogId == ReleaseSubscriber.catalogIdOf target.projects row.projectId row.version ||
      (x.projectId == row.projectId && x.version == row.version)) = true ↔ _
    rw [hother, Bool.or_false, beq_iff_eq]
  rw [← hrefused]
  unfold insertRelease
  constructor
  · rintro ⟨inserted, rows, hins⟩
    by_contra htaken
    rw [if_pos (eq_true_of_ne_false htaken)] at hins
    cases hins
  · intro hfree
    refine ⟨_, _, if_neg ?_⟩
    rw [hfree]
    exact Bool.false_ne_true

/-! ### The round trip -/

theorem allFree_exported :
    AllFree target p loaded.release.version
        ((exportedRelease env presign source loaded).asImport identifier).artifacts ↔
      ((filesOf loaded.artifacts).map (keyAt p loaded.release.version)).Nodup ∧
        ∀ item ∈ filesOf loaded.artifacts, keyAt p loaded.release.version item ∉ target.objectKeys := by
  have hartifacts : ((exportedRelease env presign source loaded).asImport identifier).artifacts =
      (filesOf loaded.artifacts).map fun item =>
        (exportedFile env presign source item.1 item.2).asImport := by
    show ((filesOf loaded.artifacts).map _).map _ = _
    rw [List.map_map]
    rfl
  unfold AllFree
  rw [hartifacts, List.map_map, List.forall_mem_map]
  rfl

theorem notes_kept_iff (notes : Option String) : some ((truthy notes).getD "") = notes ↔ notes ≠ none := by
  cases notes with
  | none => simp
  | some notes =>
      by_cases hnotes : notes = ""
      · rw [hnotes]
        simp [truthy]
      · simp [truthy, hnotes]

/-- The release that the import creates, against the one that was exported. -/
theorem sameRelease_iff (h : Transfer env presign downloads source loaded target identifier p)
    (hload : loaded = source.load loaded.release) {rows : List Release} {deps : List String}
    (hins : insertRelease env'.semver target.projects (importedRelease
        ((exportedRelease env presign source loaded).asImport identifier) p (regulationsOf target p).length)
      target.releases = some (inserted, rows))
    (hdeps : deps.Perm (dependencyIds source loaded.release.catalogId))
    (himported : ImportedAs env' downloads target
      ((exportedRelease env presign source loaded).asImport identifier) p inserted deps t r) :
    SameRelease env source loaded.release env' t r ↔
      Portable env source loaded target p := by
  obtain ⟨-, -, hv, hname, hnotes, hmetadata⟩ := Release.details_inj himported.details
  obtain ⟨hrow, -, -⟩ := insertRelease_some hins
  rw [hrow] at hv hname hnotes hmetadata
  have hname' : r.name = some ((truthy loaded.release.name).getD loaded.release.version) := by
    rw [hname, ← truthy_exported loaded.release.name]
    rfl
  have hnotes' : r.releaseNotes = some ((truthy loaded.release.releaseNotes).getD "") := hnotes
  have hv' : r.version = loaded.release.version := hv
  have hmetadata' : r.metadata = loaded.release.metadata := hmetadata
  have hviews : viewsOf env source loaded.release.catalogId =
      loaded.artifacts.map (itemView env source) := by
    rw [viewsOf_load, ← hload]
  have hfreeViews : AllFree target p loaded.release.version
      ((exportedRelease env presign source loaded).asImport identifier).artifacts →
        viewsOf env' t r.catalogId =
          importedImages loaded ++ importedFiles env presign downloads source loaded := by
    intro hall
    rw [himported.free hall]
    unfold importedImages importedFiles
    show (((imagesOf loaded.artifacts).map exportDockerImage).map _).map _ ++
      (((filesOf loaded.artifacts).map _).map _).map _ = _
    rw [List.map_map, List.map_map, List.map_map, List.map_map]
    rfl
  constructor
  · rintro ⟨hsameName, -, hsameNotes, -, -, hperm⟩
    have hall : AllFree target p loaded.release.version
        ((exportedRelease env presign source loaded).asImport identifier).artifacts := by
      by_contra htaken
      -- then the import has fewer artifacts than the release has images and files
      have hless := himported.taken htaken
      have hlength := hperm.length_eq
      have hitems := (items_perm loaded.artifacts).length_eq
      have himages := congrArg List.length (imageItems_eq loaded.artifacts)
      have hfiles := congrArg List.length
        (fileItems_eq (loaded_files h.sourceConstraints hload))
      have hdto : ((exportedRelease env presign source loaded).asImport identifier).dockerImages.length +
          ((exportedRelease env presign source loaded).asImport identifier).artifacts.length =
            (imagesOf loaded.artifacts).length + (filesOf loaded.artifacts).length := by
        show (((imagesOf loaded.artifacts).map exportDockerImage).map _).length +
          (((filesOf loaded.artifacts).map _).map _).length = _
        simp only [List.length_map]
      rw [hviews, List.length_map] at hlength
      rw [List.length_append, List.length_append] at hitems
      rw [List.length_map] at himages hfiles
      omega
    obtain ⟨hkeys, hkeysFree⟩ := allFree_exported.mp hall
    rw [hfreeViews hall, hviews] at hperm
    obtain ⟨hplain, hnamed, hsums⟩ := (imported_perm_iff h hload).mp hperm
    refine ⟨hsameName.symm.trans hname', ?_, hplain, hnamed, hsums, hkeys, hkeysFree, ?_⟩
    · apply (notes_kept_iff loaded.release.releaseNotes).mp
      exact hnotes'.symm.trans hsameNotes
    · exact (@insertRelease_imported target env'.semver (importedRelease
        ((exportedRelease env presign source loaded).asImport identifier) p
        (regulationsOf target p).length) h.new).mp ⟨inserted, rows, hins⟩
  · rintro ⟨hsameName, hsameNotes, hplain, hnamed, hsums, hkeys, hkeysFree, -⟩
    have hall := (@allFree_exported env presign source target loaded identifier p).mpr ⟨hkeys, hkeysFree⟩
    refine ⟨hname'.trans hsameName.symm, hv', ?_, hmetadata', ?_, ?_⟩
    · exact hnotes'.trans ((notes_kept_iff loaded.release.releaseNotes).mpr hsameNotes)
    · rw [himported.dependencies]
      exact hdeps
    · rw [hfreeViews hall, hviews]
      exact (imported_perm_iff h hload).mpr ⟨hplain, hnamed, hsums⟩

theorem exported_urls (h : Transfer env presign downloads source loaded target identifier p) :
    (((exportedRelease env presign source loaded).asImport identifier).dockerImages.map
      (·.imageUrl)).Nodup := by
  have hurls : ((exportedRelease env presign source loaded).asImport identifier).dockerImages.map
      (·.imageUrl) = ((imagesOf loaded.artifacts).map (·.dockerImageUrl)).map fun url => url.getD "" := by
    show (((imagesOf loaded.artifacts).map exportDockerImage).map _).map _ = _
    rw [List.map_map, List.map_map, List.map_map]
    rfl
  rw [hurls]
  apply List.Nodup.map_on _ h.imageUrls
  intro x hx y hy hsame
  obtain ⟨a, ha, rfl⟩ := List.mem_map.mp hx
  obtain ⟨b, hb, rfl⟩ := List.mem_map.mp hy
  obtain ⟨url, hurl⟩ := Option.ne_none_iff_exists'.mp (h.imageUrl a ha)
  obtain ⟨url', hurl'⟩ := Option.ne_none_iff_exists'.mp (h.imageUrl b hb)
  rw [hurl, hurl'] at hsame ⊢
  exact congrArg some hsame

theorem exported_contents (h : Transfer env presign downloads source loaded target identifier p) :
    ∀ a ∈ ((exportedRelease env presign source loaded).asImport identifier).artifacts,
      (truthy a.downloadUrl).isSome = true ∧
        ∃ content, a.downloadUrl.bind downloads = some content := by
  intro a ha
  obtain ⟨dto, hdto, rfl⟩ := List.mem_map.mp ha
  obtain ⟨item, hitem, rfl⟩ := List.mem_map.mp hdto
  obtain ⟨content, -, hdownload⟩ := h.stored item hitem
  refine ⟨?_, content, hdownload⟩
  show (truthy (some (presign env.bucketName item.2.objectKey))).isSome = true
  unfold truthy
  dsimp only
  rw [if_neg (h.presigned env.bucketName item.2.objectKey)]
  rfl

/-- **Main result.** The export of a release, imported by another deployment, gives the same release
exactly when the release is portable. -/
theorem import_of_export_same_iff {params : ReleaseParams} {q : ℕ}
    (hproject : exportedProject params source = (.ok q, source))
    (hload : source.getReleaseEntity q params.version = some loaded)
    (h : Transfer env presign downloads source loaded target identifier p) :
    ∃ dto, (exportRelease env presign params source).1 = .ok dto ∧
      (Survives env source loaded.release env'
          (importWithFiles env' (dto.asImport identifier) downloads target).2 p ↔
        Portable env source loaded target p) := by
  refine ⟨_, exportRelease_run presign hproject hload, ?_⟩
  obtain ⟨-, hloaded⟩ := UploadDb.getReleaseEntity_some hload
  have hids : loaded.dependencies.map (·.catalogId) = dependencyIds source loaded.release.catalogId := by
    rw [← loaded_dependencyIds h.sourceConstraints]
    exact congrArg (fun l => l.dependencies.map (·.catalogId)) hloaded
  have hdependencies : ((exportedRelease env presign source loaded).asImport identifier).dependencies =
      dependencyIds source loaded.release.catalogId := by
    rw [← hids]
    show ((loaded.dependencies.map exportDependency).map _) = _
    rw [List.map_map]
    rfl
  obtain ⟨deps, hdeps, hperm⟩ := @importedDependencies_found target p h.targetConstraints
    ((exportedRelease env presign source loaded).asImport identifier) h.new
    (hdependencies ▸ h.dependencyKeys) (hdependencies ▸ h.present)
  rw [hdependencies] at hperm
  have hcatalog := @insertRelease_imported target env'.semver (importedRelease
    ((exportedRelease env presign source loaded).asImport identifier) p (regulationsOf target p).length)
    h.new
  by_cases hfree : ∀ x ∈ target.releases,
      x.catalogId ≠ ReleaseSubscriber.catalogIdOf target.projects p loaded.release.version
  · obtain ⟨inserted, rows, hins⟩ := hcatalog.mpr hfree
    obtain ⟨r, himported⟩ := importWithFiles_views h.targetConstraints h.project h.new hdeps hins
      (exported_urls h) (exported_contents h)
    have hsame := @sameRelease_iff env env' presign downloads source target _ loaded identifier p
      inserted r h hloaded rows _ hins hperm himported
    constructor
    · rintro ⟨r', hfind, hr'⟩
      obtain rfl : r' = r := Option.some.inj (hfind.symm.trans himported.found)
      exact hsame.mp hr'
    · exact fun hportable => ⟨r, himported.found, hsame.mpr hportable⟩
  · constructor
    · rintro ⟨r, hfind, -⟩
      obtain ⟨result, hresolve, hof⟩ := resolveProject_run (some identifier) 0 target
      obtain rfl : result = .ok p := (hof p).mpr h.project
      rcases @importReleaseInto_ends env' target
        ((exportedRelease env presign source loaded).asImport identifier) p h.targetConstraints with
        ⟨e, hrun⟩ | ⟨-, inserted, rows, -, hins, -⟩
      · have hrefused : importWithFiles env'
            ((exportedRelease env presign source loaded).asImport identifier) downloads target =
              (.error e, target) := (bind_run_ok hresolve _).trans (bind_run_error hrun _)
        rw [hrefused, h.new] at hfind
        cases hfind
      · exact absurd (hcatalog.mp ⟨inserted, rows, hins⟩) hfree
    · exact fun hportable => absurd hportable.catalogId hfree

end Artifacts

/-! ### Two releases -/

/-- A request of `eve` for the version. -/
def setNamed (version : String) : SetReleaseDto :=
  { setVersion none none with version := version, name := some "one", releaseNotes := some "" }

/-- Version 1.0.0 has a file and an image, version 2.0.0 has a package and needs the other. -/
def exportingDb : UploadDb :=
  Runs.run (UploadDb.step plainUploadEnv) oneProject
    [requestOfEve (.setRelease (setNamed "1.0.0")),
      requestOfEve (.setReleaseArtifact { setImage with type := .file, dockerImageUrl := none }),
      requestOfEve (.setReleaseArtifact setImage),
      .storage [⟨"artifacts", "upload/release/1/1.0.0/app", some "a1"⟩],
      .call ⟨none, false⟩ (.updateUploadFile ⟨"upload/release/1/1.0.0/app", .uploaded, some 3⟩),
      requestOfEve (.setRelease (setNamed "2.0.0")),
      requestOfEve (.setReleaseArtifact { setImage with
        version := "2.0.0", type := .rpm, dockerImageUrl := none, packageVersion := some "2.0" })]

/-- The link to an object. -/
def linkTo (bucketName objectKey : String) : String := s!"https://{bucketName}/{objectKey}"

def appDownload (url : String) : Option Download :=
  if url = linkTo "artifacts" "upload/release/1/1.0.0/app" then some ⟨"a1", 3⟩ else none

def paramsOf (version : String) : ReleaseParams := ⟨some (.id 1), 1, version⟩

theorem exportingDb_constraints : exportingDb.Constraints := run_constraints oneProject_constraints _

def appRelease : LoadedRelease := (exportingDb.getReleaseEntity 1 "1.0.0").get (by decide +kernel)

def packageRelease : LoadedRelease := (exportingDb.getReleaseEntity 1 "2.0.0").get (by decide +kernel)

theorem appRelease_loaded : exportingDb.getReleaseEntity 1 "1.0.0" = some appRelease :=
  (Option.some_get _).symm

theorem packageRelease_loaded : exportingDb.getReleaseEntity 1 "2.0.0" = some packageRelease :=
  (Option.some_get _).symm

/-- The other deployment has the project and no releases. -/
theorem appRelease_transfer :
    Transfer plainUploadEnv linkTo appDownload exportingDb appRelease oneProject (.id 1) 1 where
  sourceConstraints := exportingDb_constraints
  targetConstraints := oneProject_constraints
  dependencyKeys := by decide +kernel
  imageUrls := by decide +kernel
  imageUrl := by decide +kernel
  present := by decide +kernel
  project := by decide +kernel
  new := by decide +kernel
  presigned := by
    intro bucketName objectKey h
    simp only [linkTo, String.append_eq_empty_iff] at h
    exact absurd h.1.1.1 (by decide)
  stored := by
    have hfiles : ∀ item ∈ filesOf appRelease.artifacts,
        digestAt plainUploadEnv exportingDb item.2.objectKey = some "a1" ∧
          appDownload (linkTo plainUploadEnv.bucketName item.2.objectKey) = some ⟨"a1", 3⟩ := by
      decide +kernel
    exact fun item hitem => ⟨⟨"a1", 3⟩, hfiles item hitem⟩

theorem packageRelease_transfer :
    Transfer plainUploadEnv linkTo appDownload exportingDb packageRelease oneProject (.id 1) 1 where
  sourceConstraints := exportingDb_constraints
  targetConstraints := oneProject_constraints
  dependencyKeys := by decide +kernel
  imageUrls := by decide +kernel
  imageUrl := by decide +kernel
  present := by decide +kernel
  project := by decide +kernel
  new := by decide +kernel
  presigned := appRelease_transfer.presigned
  stored := by
    have hfiles : (filesOf packageRelease.artifacts).isEmpty = true := by decide +kernel
    rw [List.isEmpty_iff.mp hfiles]
    intro item hitem
    cases hitem

theorem appRelease_portable : Portable plainUploadEnv exportingDb appRelease oneProject 1 where
  name := by decide +kernel
  releaseNotes := by decide +kernel
  plain := by
    unfold ArtifactView.Plain
    decide +kernel
  named := by decide +kernel
  checksums := by
    unfold checksumKept
    decide +kernel
  keys := by decide +kernel
  keysFree := by decide +kernel
  catalogId := by decide +kernel

/-- The file and the image are imported. -/
theorem app_release_survives :
    ∃ dto, (exportRelease plainUploadEnv linkTo (paramsOf "1.0.0") exportingDb).1 = .ok dto ∧
      Survives plainUploadEnv exportingDb appRelease.release plainUploadEnv
        (importWithFiles plainUploadEnv (dto.asImport (.id 1)) appDownload oneProject).2 1 := by
  have hproject : exportedProject (paramsOf "1.0.0") exportingDb = (.ok 1, exportingDb) := rfl
  obtain ⟨dto, hdto, hsame⟩ := @import_of_export_same_iff plainUploadEnv plainUploadEnv linkTo
    appDownload exportingDb oneProject appRelease (.id 1) 1 _ _ hproject appRelease_loaded
    appRelease_transfer
  exact ⟨dto, hdto, hsame.mpr appRelease_portable⟩

/-- The package is left out of the export, and the import succeeds without it. -/
theorem package_not_exported :
    Transfer plainUploadEnv linkTo appDownload exportingDb packageRelease oneProject (.id 1) 1 ∧
    ∃ dto, (exportRelease plainUploadEnv linkTo (paramsOf "2.0.0") exportingDb).1 = .ok dto ∧
      (importWithFiles plainUploadEnv (dto.asImport (.id 1)) appDownload oneProject).1 = .ok () ∧
      ¬ Survives plainUploadEnv exportingDb packageRelease.release plainUploadEnv
        (importWithFiles plainUploadEnv (dto.asImport (.id 1)) appDownload oneProject).2 1 := by
  have hproject : exportedProject (paramsOf "2.0.0") exportingDb = (.ok 1, exportingDb) := rfl
  refine ⟨packageRelease_transfer, _, exportRelease_run linkTo hproject packageRelease_loaded, ?_, ?_⟩
  · decide +kernel
  · decide +kernel

end UploadService
