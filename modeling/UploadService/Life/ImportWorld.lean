import UploadService.Life.ImportPhases

/-!
# The import of a release, step by step

The files of an import run side by side with whatever they set off, and every statement may fail.
The release becomes `RELEASED` when no file has failed; files without a download URL are not looked
at, and images whose save failed are passed over. `ImportComplete` says what a release should have
then.

Main results:

- `importDockerImages_there`: the images that a release gets;
- `createImportedRelease_run`: the release before its images and files.
-/

namespace UploadService

open Prog ReleaseService FileUploadService RegulationStatusService

variable {env : UploadEnv} {job : ImportJob} {c : String} {db db' : UploadDb}

/-! ### The import -/

/-- The end of the import, after all files. -/
inductive ImportClosing where
  | waiting
  /-- the update of the release failed -/
  | refused
  | updateLatest
  | refresh
  | closed
  deriving DecidableEq, Repr

structure ImportWorld where
  db : UploadDb
  /-- the files with a download URL, and the next statement of each -/
  files : List (ImportArtifactDto × ImportPhase)
  closing : ImportClosing

inductive ImportEvent where
  /-- the next statement of one of the files -/
  | statement (i : ℕ) (fails : Bool)
  /-- the next statement after all files -/
  | close (fails : Bool)
  /-- the refresh that `importRelease` ends with -/
  | refresh
  /-- what the writes of the import set off -/
  | followUp (followUp : FollowUp)
  deriving DecidableEq

namespace ImportWorld

/-- The import when its release, its dependencies and its images are there. -/
def start (dto : ImportReleaseDto) (c : String) (imageFails : ℕ → Bool) (db : UploadDb) :
    ImportWorld where
  db := importDockerImages c imageFails dto.dockerImages db
  files := (dto.artifacts.filter fun a => (truthy a.downloadUrl).isSome).map (·, .saveFile)
  closing := .waiting

/-- `results.every(r => r.success)`, of files that have all ended. -/
def allSucceeded (w : ImportWorld) : Bool := w.files.all fun file => file.2 == .settled true

/-- The import has set the release to `RELEASED`. -/
def released (w : ImportWorld) : Bool :=
  match w.closing with
  | .updateLatest | .refresh | .closed => true
  | _ => false

/-- The next statement after all files; without files there is none. -/
def close (env : UploadEnv) (job : ImportJob) (w : ImportWorld) (fails : Bool) : ImportWorld :=
  match w.closing with
  | .waiting =>
      if w.files.isEmpty || !w.allSucceeded then w
      else if fails then { w with closing := .refused }
      else { w with db := promote job.projectId job.version w.db, closing := .updateLatest }
  | .updateLatest =>
      if fails then { w with closing := .closed }
      else { w with db := updateLatestForProject job.projectId w.db, closing := .refresh }
  | .refresh =>
      if fails then { w with closing := .closed }
      else { w with
        db := (refreshReleaseState env job.projectId job.version w.db).2
        closing := .closed }
  | .refused | .closed => w

def step (env : UploadEnv) (job : ImportJob) (w : ImportWorld) : ImportEvent → ImportWorld
  | .statement i fails => match w.files[i]? with
      | none => w
      | some (artifact, phase) =>
          let next := job.step env artifact fails w.db phase
          { w with db := next.2, files := w.files.set i (artifact, next.1) }
  | .close fails => w.close env job fails
  | .refresh => { w with db := (refreshReleaseState env job.projectId job.version w.db).2 }
  | .followUp followUp => { w with db := followUp.run env w.db }

end ImportWorld

/-! ### Completeness -/

/-- The file is an artifact of the release, and its object is stored with the listed checksum. -/
def FileThere (env : UploadEnv) (job : ImportJob) (c : String) (db : UploadDb)
    (artifact : ImportArtifactDto) : Prop :=
  ∃ a ∈ db.artifactsOf c, a.type = .file ∧ a.artifactName = some artifact.name ∧
    db.keyOf a = some (job.objectKey artifact) ∧
    ∃ o ∈ db.getObjectStat env.bucketName (job.objectKey artifact),
      ∀ sha ∈ truthy artifact.sha256, o.sha256 = some sha

/-- The image is an artifact of the release. -/
def ImageThere (c : String) (db : UploadDb) (image : ImportDockerImageDto) : Prop :=
  ∃ a ∈ db.artifactsOf c, a.type = .dockerImage ∧ a.artifactName = image.name ∧
    a.dockerImageUrl = some image.imageUrl

/-- Every artifact of the request is there. -/
def ImportComplete (env : UploadEnv) (job : ImportJob) (c : String) (db : UploadDb)
    (dto : ImportReleaseDto) : Prop :=
  (∀ artifact ∈ dto.artifacts, FileThere env job c db artifact) ∧
    ∀ image ∈ dto.dockerImages, ImageThere c db image

/-- Another file of the request brings the content of a file without a download URL. -/
def HasTwin (dto : ImportReleaseDto) (downloads : String → Option Download)
    (artifact : ImportArtifactDto) : Prop :=
  ∃ twin ∈ dto.artifacts, (truthy twin.downloadUrl).isSome ∧ twin.name = artifact.name ∧
    ∃ content ∈ twin.downloadUrl.bind downloads,
      ∀ sha ∈ truthy artifact.sha256, content.sha256 = sha

/-- The first image with the URL whose save does not fail has the name. -/
def ImageSaved (dto : ImportReleaseDto) (imageFails : ℕ → Bool) (image : ImportDockerImageDto) : Prop :=
  ∃ first ∈ (savedImages imageFails dto.dockerImages).find? fun x => x.imageUrl == image.imageUrl,
    first.name = image.name

/-- Nothing of the request is passed over for good. -/
def ImportCovered (dto : ImportReleaseDto) (imageFails : ℕ → Bool)
    (downloads : String → Option Download) : Prop :=
  (∀ artifact ∈ dto.artifacts, truthy artifact.downloadUrl = none → HasTwin dto downloads artifact) ∧
    ∀ image ∈ dto.dockerImages, ImageSaved dto imageFails image

/-! ### The images -/

/-- **Spec.** The images of a release that has no artifacts yet: the first save of each URL stays. -/
theorem importDockerImages_there (hnone : db.artifactsOf c = []) (images : List ImportDockerImageDto)
    (image : ImportDockerImageDto) :
    ImageThere c (images.foldl (fun db image => (importDockerImage c image db).2) db) image ↔
      ∃ first ∈ images.find? fun x => x.imageUrl == image.imageUrl, first.name = image.name := by
  induction images using List.reverseRecOn generalizing image with
  | nil =>
      constructor
      · rintro ⟨a, ha, -⟩
        have hmem : a ∈ db.artifactsOf c := ha
        rw [hnone] at hmem
        cases hmem
      · rintro ⟨first, hfirst, -⟩
        cases hfirst
  | append_singleton images last ih =>
      rw [List.foldl_append, List.find?_append]
      generalize images.foldl (fun db image => (importDockerImage c image db).2) db = s at ih ⊢
      show ImageThere c (importDockerImage c last s).2 image ↔ _
      by_cases htaken : (s.artifacts.any fun a => a.releaseId == c && a.type == .dockerImage &&
          a.dockerImageUrl == some last.imageUrl) = true
      · -- the table refuses the image, and one with its URL is there
        have hrun : importDockerImage c last s =
            (.error (.queryFailed "duplicate key value violates unique constraint"), s) :=
          if_pos htaken
        rw [hrun, ih]
        cases hfind : images.find? fun x => x.imageUrl == image.imageUrl with
        | some first => rfl
        | none =>
            have hne : (last.imageUrl == image.imageUrl) = false := by
              by_contra heq
              obtain ⟨a, ha, hrow⟩ := List.any_eq_true.mp htaken
              simp only [Bool.and_eq_true, beq_iff_eq] at hrow
              obtain ⟨⟨hc, htype⟩, hurl⟩ := hrow
              have hthere : ImageThere c s ⟨a.artifactName, last.imageUrl, none⟩ :=
                ⟨a, List.mem_filter.mpr ⟨ha, by simpa using hc⟩, htype, rfl, hurl⟩
              obtain ⟨first, hfirst, -⟩ := (ih _).mp hthere
              have hsame : last.imageUrl = image.imageUrl := by simpa using heq
              rw [hsame, hfind] at hfirst
              cases hfirst
            rw [Option.none_or, List.find?_singleton, hne]
            rfl
      · have hrun : (importDockerImage c last s).2.artifacts = s.artifacts ++
            [{ newArtifact s.nextId c with
              type := .dockerImage
              artifactName := last.name
              dockerImageUrl := some last.imageUrl
              metadata := last.metadata.getD []
              isInstallationFile := true }] := by
          unfold importDockerImage
          rw [if_neg htaken]
        have hadd : ImageThere c (importDockerImage c last s).2 image ↔
            ImageThere c s image ∨ last.name = image.name ∧ last.imageUrl = image.imageUrl := by
          unfold ImageThere UploadDb.artifactsOf
          rw [hrun, List.filter_append]
          constructor
          · rintro ⟨a, ha, htype, hname, hurl⟩
            rcases List.mem_append.mp ha with ha | ha
            · exact .inl ⟨a, ha, htype, hname, hurl⟩
            · obtain rfl := List.mem_singleton.mp (List.mem_filter.mp ha).1
              exact .inr ⟨hname, Option.some.inj hurl⟩
          · rintro (⟨a, ha, hrow⟩ | ⟨hname, hurl⟩)
            · exact ⟨a, List.mem_append_left _ ha, hrow⟩
            · refine ⟨_, List.mem_append_right _ (List.mem_filter.mpr
                ⟨List.mem_singleton.mpr rfl, ?_⟩), rfl, hname, congrArg some hurl⟩
              exact beq_self_eq_true c
        rw [hadd, ih]
        cases hfind : images.find? fun x => x.imageUrl == image.imageUrl with
        | none =>
            rw [Option.none_or, List.find?_singleton]
            by_cases hurl : last.imageUrl = image.imageUrl
            · simp [hurl]
            · simp [hurl]
        | some first =>
            rw [Option.some_or]
            constructor
            · rintro (hfirst | ⟨hname, hurl⟩)
              · exact hfirst
              · -- the image would have been refused
                have hthere : ImageThere c s ⟨first.name, last.imageUrl, none⟩ := by
                  refine (ih _).mpr ⟨first, ?_, rfl⟩
                  rw [hurl, hfind]
                  rfl
                obtain ⟨a, ha, htype, -, haurl⟩ := hthere
                obtain ⟨hmem, hc⟩ := List.mem_filter.mp ha
                refine absurd (List.any_eq_true.mpr ⟨a, hmem, ?_⟩) htaken
                simp only [Bool.and_eq_true, beq_iff_eq]
                exact ⟨⟨by simpa using hc, htype⟩, haurl⟩
            · exact .inl

/-- The images leave the release, and add no files to it. -/
theorem importDockerImages_keeps (hdb : db.Constraints) (hkey : ∃ r ∈ db.releases, r.catalogId = c)
    (images : List ImportDockerImageDto) :
    (images.foldl (fun db image => (importDockerImage c image db).2) db).Constraints ∧
    (images.foldl (fun db image => (importDockerImage c image db).2) db).releases = db.releases ∧
    ∀ a ∈ (images.foldl (fun db image => (importDockerImage c image db).2) db).artifacts,
      a ∈ db.artifacts ∨ a.type = .dockerImage := by
  induction images generalizing db with
  | nil => exact ⟨hdb, rfl, fun _ ha => .inl ha⟩
  | cons image images ih =>
      obtain ⟨hnext, hreleases⟩ := importDockerImage_constraints image hdb hkey
      obtain ⟨hlast, hsame, hartifacts⟩ := ih hnext (hreleases ▸ hkey)
      refine ⟨hlast, hsame.trans hreleases, fun a ha => ?_⟩
      rcases hartifacts a ha with hold | himage
      · have hadded : a ∈ db.artifacts ∨ a.type = .dockerImage := by
          revert hold
          unfold importDockerImage
          split
          · exact .inl
          · intro hmem
            rcases List.mem_append.mp hmem with hmem | hmem
            · exact .inl hmem
            · obtain rfl := List.mem_singleton.mp hmem
              exact .inr rfl
        exact hadded
      · exact .inr himage

/-! ### The start -/

/-- **Spec.** A release that was created has no artifacts yet. -/
theorem createImportedRelease_run (hdb : db.Constraints) {dto : ImportReleaseDto} {p : ℕ} {s : UploadDb}
    (hrun : createImportedRelease env dto p db = (.ok c, s)) :
    s.Constraints ∧ (p, dto.version, c) ∈ releaseKeys s ∧ s.artifactsOf c = [] := by
  unfold createImportedRelease at hrun
  rw [gets_bind_run] at hrun
  cases hfind : db.findRelease p dto.version with
  | some r =>
      rw [hfind] at hrun
      cases hrun
  | none =>
      rw [hfind] at hrun
      dsimp only at hrun
      rw [gets_bind_run] at hrun
      obtain ⟨hsame, hdeps⟩ := importedDependencies_run dto p db
      obtain ⟨dependencies, t, hdependencies, hrun⟩ := bind_ok_inv hrun
      rw [hdependencies] at hsame hdeps
      obtain rfl : t = db := hsame
      obtain ⟨saved, u, hsaved, hrun⟩ := bind_ok_inv hrun
      rw [saveRelease_new] at hsaved
      cases hins : insertRelease env.semver t.projects
          (importedRelease dto p (regulationsOf t p).length) t.releases with
      | none =>
          rw [hins] at hsaved
          cases hsaved
      | some result =>
          obtain ⟨inserted, rows⟩ := result
          rw [hins] at hsaved
          obtain ⟨hid, rfl⟩ := Prod.mk.inj hsaved
          obtain rfl : inserted.catalogId = saved := Except.ok.inj hid
          obtain ⟨hrows, hkey⟩ := hdb.insertRelease hins
          obtain ⟨hrow, hfresh, heq⟩ := insertRelease_some hins
          have hthere : (p, dto.version, inserted.catalogId) ∈
              releaseKeys { t with releases := rows } := by
            have hmem : inserted.details ∈ rows.map Release.details := by
              rw [details_insert hins]
              exact List.mem_append_right _ (List.mem_singleton.mpr rfl)
            obtain ⟨r, hr, hdetails⟩ := List.mem_map.mp hmem
            obtain ⟨hc, hp, hv, -⟩ := Release.details_inj hdetails
            have hkeys : (inserted.projectId, inserted.version) = (p, dto.version) := by
              rw [hrow]
              rfl
            obtain ⟨hip, hiv⟩ := Prod.mk.inj hkeys
            exact List.mem_map.mpr ⟨r, hr, by rw [hc, hp, hv, hip, hiv]⟩
          have hnone : t.artifactsOf inserted.catalogId = [] := by
            apply List.filter_eq_nil_iff.mpr
            intro a ha
            obtain ⟨r, hr, hrkey⟩ := hdb.artifactReleases a ha
            simpa using fun heq => hfresh r hr (hrkey.trans heq)
          -- the dependencies and the rule leave releases and artifacts
          have hrest : ∀ u : UploadDb, u.Constraints → u.releases = rows → u.artifacts = t.artifacts →
              (linkDefaultRuleToRelease inserted.catalogId u).Constraints ∧
              (p, dto.version, inserted.catalogId) ∈
                releaseKeys (linkDefaultRuleToRelease inserted.catalogId u) ∧
              (linkDefaultRuleToRelease inserted.catalogId u).artifactsOf inserted.catalogId = [] := by
            intro u hu hreleases hartifacts
            refine ⟨hu.linkDefaultRule (hreleases ▸ hkey), ?_, ?_⟩
            · unfold linkDefaultRuleToRelease releaseKeys
              split
              · exact hreleases ▸ hthere
              · exact hreleases ▸ hthere
            · unfold linkDefaultRuleToRelease UploadDb.artifactsOf
              split
              · exact hartifacts ▸ hnone
              · exact hartifacts ▸ hnone
          have hentities : ∀ e ∈ t.releases, ∃ r ∈ rows, r.catalogId = e.catalogId := by
            intro e he
            have hmem : e.details ∈ rows.map Release.details := by
              rw [details_insert hins]
              exact List.mem_append_left _ (List.mem_map_of_mem he)
            obtain ⟨r, hr, hdetails⟩ := List.mem_map.mp hmem
            exact ⟨r, hr, (Release.details_inj hdetails).1⟩
          cases dependencies with
          | none =>
              obtain ⟨hc, rfl⟩ := Prod.mk.inj hrun
              obtain rfl := Except.ok.inj hc
              exact hrest _ hrows rfl rfl
          | some entities =>
              obtain ⟨hc, rfl⟩ := Prod.mk.inj hrun
              obtain rfl := Except.ok.inj hc
              refine hrest _ (hrows.saveDependencies hkey fun e he => ?_) rfl rfl
              exact hentities e (hdeps _ rfl entities rfl e he)

end UploadService
