import UploadService.Life.ImportWorld

/-!
# When an imported release is complete

The import sets the release to `RELEASED` once every file with a download URL has come. What it has
passed over is not there.

Main results:

- `ImportInv.step`: what every step of an import keeps;
- `released_complete_iff`: a release that its import has released is complete exactly where the
  files without a download URL have a twin that brings their content, and no image is lost.
-/

namespace UploadService

open Prog ReleaseService FileUploadService RegulationStatusService

variable {env : UploadEnv} {job : ImportJob} {c : String} {db db' : UploadDb}

/-! ### The run -/

/-- The artifacts, the keys of the file uploads, and the objects. -/
def UploadDb.listing (db : UploadDb) :
    (List ReleaseArtifact × List (ℕ × String)) × List StoredObject :=
  (db.holdings, db.storage)

theorem listing_ignoresFollowUps : IgnoresFollowUps UploadDb.listing where
  releases := fun _ _ _ => rfl
  files := by
    intro db q f hf
    have hsame := holdings_ignoresFollowUps.files db q f hf
    unfold UploadDb.listing
    rw [hsame]

theorem releaseKeys_ignoresRefresh : IgnoresRefresh releaseKeys where
  releases := by
    intro db q f hf
    apply Rows.map_updateWhere
    intro r _ _
    obtain ⟨hc, hp, hv, -⟩ := Release.details_inj (hf r)
    rw [hc, hp, hv]
  missing := fun _ _ => rfl
  pending := fun _ _ => rfl

/-- Follow-ups leave the keys of the releases. -/
theorem followUp_releaseKeys (followUp : FollowUp) (db : UploadDb) :
    releaseKeys (followUp.run env db) = releaseKeys db := by
  have hstandings : ∀ db' : UploadDb, db'.standings = db.standings → releaseKeys db' = releaseKeys db := by
    intro db' h
    have hkeys : ∀ s : UploadDb, releaseKeys s =
        s.standings.map fun x => (x.projectId, x.version, x.catalogId) := by
      intro s
      unfold releaseKeys UploadDb.standings
      rw [List.map_map]
      rfl
    rw [hkeys, hkeys, h]
  cases followUp with
  | task i => exact releaseKeys_ignoresRefresh.runPending db i
  | objectCreated objectKey size =>
      exact hstandings _ ((standings_sees.updateUploadFile _).eq db)
  | objectRemoved objectKey =>
      exact hstandings _ ((standings_sees.updateUploadFile _).eq db)
  | processAndSaveFile objectKey calculateSha256 =>
      exact hstandings _ ((standings_sees.processAndSaveFile objectKey calculateSha256).eq db)

/-- A step that leaves the artifacts, the keys and the objects. -/
theorem Advances.of_listing (hdb' : db'.Constraints) (hkeys : releaseKeys db' = releaseKeys db)
    (hsame : db'.listing = db.listing) : Advances env none "" db db' := by
  obtain ⟨hholdings, hstorage⟩ := Prod.mk.inj hsame
  obtain ⟨hartifacts, hfiles⟩ := Prod.mk.inj hholdings
  refine ⟨hdb', hkeys, ?_, fun a ha => hartifacts ▸ ha, fun a ha => .inl (hartifacts ▸ ha), ?_⟩
  · rintro id k ⟨f, hf, hid, hkey⟩
    have hmem : (f.id, f.objectKey) ∈ db'.fileUploads.map fun f => (f.id, f.objectKey) := by
      rw [hfiles]
      exact List.mem_map_of_mem hf
    obtain ⟨g, hg, heq⟩ := List.mem_map.mp hmem
    obtain ⟨hgid, hgkey⟩ := Prod.mk.inj heq
    exact ⟨g, hg, hgid.trans hid, hgkey.trans hkey⟩
  · intro k _
    unfold digestAt UploadDb.getObjectStat
    rw [hstorage]

/-- What holds in every state of an import that began in `s`. -/
structure ImportInv (env : UploadEnv) (job : ImportJob) (c : String)
    (artifacts : List ImportArtifactDto) (s : UploadDb) (w : ImportWorld) : Prop where
  constraints : w.db.Constraints
  release : (job.projectId, job.version, c) ∈ releaseKeys w.db
  images : ∀ image, ImageThere c w.db image ↔ ImageThere c s image
  files : w.files.map (·.1) = artifacts
  listed : ∀ a ∈ w.db.artifactsOf c, a.type = .file → ∃ b ∈ artifacts, a.artifactName = some b.name
  phases : ∀ (i : ℕ) (artifact : ImportArtifactDto) (phase : ImportPhase),
    w.files[i]? = some (artifact, phase) → PhaseOk env job c artifact w.db phase
  /-- a row belongs to one file -/
  apart : ∀ (i j : ℕ) (a b : ImportArtifactDto) (phase phase' : ImportPhase), i ≠ j →
    w.files[i]? = some (a, phase) → w.files[j]? = some (b, phase') → phase.holds = true →
      phase'.holds = true → job.objectKey a ≠ job.objectKey b
  succeeded : w.released = true → w.allSucceeded = true

namespace ImportInv

variable {artifacts : List ImportArtifactDto} {s : UploadDb} {w : ImportWorld}

/-- The images outlast what adds artifacts of files only. -/
theorem images_of_advances {own : Option String} {name : String}
    (hadvances : Advances env own name db db') (image : ImportDockerImageDto) :
    ImageThere c db' image ↔ ImageThere c db image := by
  constructor
  · rintro ⟨a, ha, htype, hrow⟩
    obtain ⟨hmem, hc⟩ := List.mem_filter.mp ha
    rcases hadvances.new a hmem with hold | ⟨hfile, -⟩
    · exact ⟨a, List.mem_filter.mpr ⟨hold, hc⟩, htype, hrow⟩
    · rw [hfile] at htype
      cases htype
  · rintro ⟨a, ha, hrow⟩
    obtain ⟨hmem, hc⟩ := List.mem_filter.mp ha
    exact ⟨a, List.mem_filter.mpr ⟨hadvances.artifacts a hmem, hc⟩, hrow⟩

/-- A step that is no statement of a file. -/
theorem other (h : ImportInv env job c artifacts s w) (hdb' : db'.Constraints)
    (hkeys : releaseKeys db' = releaseKeys w.db) (hsame : db'.listing = w.db.listing)
    {closing : ImportClosing}
    (hreleased : ImportWorld.released { w with db := db', closing := closing } = true →
      w.allSucceeded = true) :
    ImportInv env job c artifacts s { w with db := db', closing := closing } := by
  have hadvances : Advances env none "" w.db db' := .of_listing hdb' hkeys hsame
  refine ⟨hdb', hkeys ▸ h.release, fun image => ?_, h.files, fun a ha htype => ?_,
    fun i artifact phase hfile => ?_, h.apart, hreleased⟩
  · exact (images_of_advances hadvances image).trans (h.images image)
  · obtain ⟨hmem, hc⟩ := List.mem_filter.mp ha
    rcases hadvances.new a hmem with hold | ⟨-, -, id, -, k, hk, -⟩
    · exact h.listed a (List.mem_filter.mpr ⟨hold, hc⟩) htype
    · cases hk
  · exact (h.phases i artifact phase hfile).mono h.constraints hadvances nofun

/-- A statement of one of the files. -/
theorem statement (h : ImportInv env job c artifacts s w) {i : ℕ} {artifact : ImportArtifactDto}
    {phase : ImportPhase} (hi : w.files[i]? = some (artifact, phase)) (fails : Bool) :
    ImportInv env job c artifacts s { w with
      db := (job.step env artifact fails w.db phase).2
      files := w.files.set i (artifact, (job.step env artifact fails w.db phase).1) } := by
  obtain ⟨hadvances, hphase⟩ := job.step_ok h.constraints h.release (h.phases i _ _ hi) fails
  have hlt : i < w.files.length := (List.getElem?_eq_some_iff.mp hi).1
  have hset : ∀ j b phase', (w.files.set i
      (artifact, (job.step env artifact fails w.db phase).1))[j]? = some (b, phase') →
      (j = i ∧ b = artifact ∧ phase' = (job.step env artifact fails w.db phase).1) ∨
        (j ≠ i ∧ w.files[j]? = some (b, phase')) := by
    intro j b phase' hj
    by_cases hji : j = i
    · rw [hji, List.getElem?_set_self hlt] at hj
      obtain ⟨rfl, rfl⟩ := Prod.mk.inj (Option.some.inj hj)
      exact .inl ⟨hji, rfl, rfl⟩
    · rw [List.getElem?_set_ne (Ne.symm hji)] at hj
      exact .inr ⟨hji, hj⟩
  -- a row that this file makes its own has a key that no other has
  have hnew : ∀ j b phase', j ≠ i → w.files[j]? = some (b, phase') → phase'.holds = true →
      (job.step env artifact fails w.db phase).1.holds = true →
        job.objectKey artifact ≠ job.objectKey b := by
    intro j b phase' hji hj hholds hstep
    rcases ImportJob.step_holds hstep with hown | rfl
    · exact h.apart i j _ _ _ _ (Ne.symm hji) hi hj hown hholds
    · intro hkey
      obtain ⟨id, hfile⟩ := (h.phases j _ _ hj).hasFile hholds
      rw [← hkey] at hfile
      exact (job.saveFile_ok (c := c) h.constraints artifact fails).2 hstep id hfile
  refine ⟨hadvances.constraints, ?_, fun image => ?_, ?_, fun a ha htype => ?_,
    fun j b phase' hj => ?_, fun j k a b x y hjk hj hk hx hy => ?_, fun hreleased => ?_⟩
  · rw [hadvances.releases]
    exact h.release
  · exact (images_of_advances hadvances image).trans (h.images image)
  · rw [← h.files, List.map_set]
    apply List.ext_getElem?
    intro j
    by_cases hj : i = j
    · subst hj
      rw [List.getElem?_set_self (by simpa using hlt), List.getElem?_map, hi]
      rfl
    · rw [List.getElem?_set_ne hj]
  · obtain ⟨hmem, hc⟩ := List.mem_filter.mp ha
    rcases hadvances.new a hmem with hold | ⟨-, hname, -⟩
    · exact h.listed a (List.mem_filter.mpr ⟨hold, hc⟩) htype
    · refine ⟨artifact, ?_, hname⟩
      rw [← h.files]
      exact List.mem_map_of_mem (List.mem_of_getElem? hi)
  · rcases hset j b phase' hj with ⟨-, rfl, rfl⟩ | ⟨hji, hj⟩
    · exact hphase
    · refine (h.phases j _ _ hj).mono h.constraints hadvances fun hholds => ?_
      unfold ImportJob.ownKey
      cases hown : phase.holds with
      | false => exact nofun
      | true =>
          intro heq
          exact h.apart i j _ _ _ _ (Ne.symm hji) hi hj hown hholds (Option.some.inj heq)
  · rcases hset j a x hj with ⟨hji, rfl, rfl⟩ | ⟨hji, hja⟩
    · rcases hset k b y hk with ⟨hki, -, -⟩ | ⟨hki, hkb⟩
      · exact absurd (hji.trans hki.symm) hjk
      · exact hnew k b y hki hkb hy hx
    · rcases hset k b y hk with ⟨-, rfl, rfl⟩ | ⟨-, hkb⟩
      · exact (hnew j a x hji hja hx hy).symm
      · exact h.apart j k _ _ _ _ hjk hja hkb hx hy
  · have hall := h.succeeded hreleased
    unfold ImportWorld.allSucceeded at hall ⊢
    rw [List.all_eq_true] at hall ⊢
    obtain rfl : phase = .settled true := by simpa using hall _ (List.mem_of_getElem? hi)
    intro file hfile
    rcases List.mem_or_eq_of_mem_set hfile with hold | rfl
    · exact hall file hold
    · rfl

/-- **Step.** Every step of the import. -/
theorem step (h : ImportInv env job c artifacts s w) (e : ImportEvent) :
    ImportInv env job c artifacts s (w.step env job e) := by
  cases e with
  | statement i fails =>
      unfold ImportWorld.step
      dsimp only
      cases hi : w.files[i]? with
      | none => exact h
      | some file => exact h.statement hi fails
  | close fails =>
      show ImportInv env job c artifacts s (w.close env job fails)
      unfold ImportWorld.close
      cases hclosing : w.closing with
      | waiting =>
          dsimp only
          split
          · exact h
          · rename_i hready
            have hall : w.allSucceeded = true := by
              simp only [Bool.or_eq_true, Bool.not_eq_true', not_or, Bool.not_eq_false] at hready
              exact hready.2
            cases fails with
            | true => exact h.other h.constraints rfl rfl nofun
            | false =>
                have hpromote : ∀ {γ : Type} {g : UploadDb → γ}, IgnoresRefresh g →
                    g (promote job.projectId job.version w.db) = g w.db :=
                  fun hg => hg.releases w.db _ _ fun _ => rfl
                refine h.other ?_ (hpromote releaseKeys_ignoresRefresh)
                  (hpromote listing_ignoresFollowUps.ignoresRefresh) fun _ => hall
                exact h.constraints.updateReleases fun _ _ _ => ⟨rfl, rfl, rfl⟩
      | updateLatest =>
          have hall : w.allSucceeded = true := h.succeeded (by rw [ImportWorld.released, hclosing])
          cases fails with
          | true => exact h.other h.constraints rfl rfl fun _ => hall
          | false =>
              have hlatest : ∀ {γ : Type} {g : UploadDb → γ}, IgnoresRefresh g →
                  g (updateLatestForProject job.projectId w.db) = g w.db :=
                fun hg => hg.releases w.db _ _ fun _ => rfl
              refine h.other ?_ (hlatest releaseKeys_ignoresRefresh)
                (hlatest listing_ignoresFollowUps.ignoresRefresh) fun _ => hall
              exact h.constraints.updateReleases fun _ _ _ => ⟨rfl, rfl, rfl⟩
      | refresh =>
          have hall : w.allSucceeded = true := h.succeeded (by rw [ImportWorld.released, hclosing])
          cases fails with
          | true => exact h.other h.constraints rfl rfl fun _ => hall
          | false =>
              exact h.other (refreshReleaseState_constraints _ _ _ h.constraints)
                ((releaseKeys_ignoresRefresh.refresh _ _).eq w.db)
                ((listing_ignoresFollowUps.ignoresRefresh.refresh _ _).eq w.db) fun _ => hall
      | refused => exact h
      | closed => exact h
  | refresh =>
      exact h.other (refreshReleaseState_constraints _ _ _ h.constraints)
        ((releaseKeys_ignoresRefresh.refresh _ _).eq w.db)
        ((listing_ignoresFollowUps.ignoresRefresh.refresh _ _).eq w.db) h.succeeded
  | followUp followUp =>
      exact h.other (followUp_constraints h.constraints followUp) (followUp_releaseKeys followUp w.db)
        (listing_ignoresFollowUps.run followUp w.db) h.succeeded

/-- The start, once the release is created. -/
theorem start {dto : ImportReleaseDto} (hs : s.Constraints)
    (hrelease : (job.projectId, job.version, c) ∈ releaseKeys s) (hnone : s.artifactsOf c = [])
    (imageFails : ℕ → Bool) :
    ImportInv env job c (dto.artifacts.filter fun a => (truthy a.downloadUrl).isSome)
      (importDockerImages c imageFails dto.dockerImages s) (.start dto c imageFails s) := by
  obtain ⟨r, hr, hkeys⟩ := List.mem_map.mp hrelease
  have hc : r.catalogId = c := congrArg (fun k => k.2.2) hkeys
  obtain ⟨hconstraints, hreleases, hartifacts⟩ :=
    importDockerImages_keeps hs ⟨r, hr, hc⟩ (savedImages imageFails dto.dockerImages)
  have hphase : ∀ (i : ℕ) (a : ImportArtifactDto) (phase : ImportPhase),
      (ImportWorld.start dto c imageFails s).files[i]? = some (a, phase) → phase = .saveFile := by
    intro i a phase hi
    obtain ⟨b, -, heq⟩ := List.mem_map.mp (List.mem_of_getElem? hi)
    exact (congrArg Prod.snd heq).symm
  refine ⟨hconstraints, ?_, fun _ => Iff.rfl, ?_, fun a ha htype => ?_, fun i a phase hi => ?_,
    fun i j a b phase phase' _ hi _ hholds => ?_, nofun⟩
  · unfold releaseKeys at hrelease ⊢
    show _ ∈ ((savedImages imageFails dto.dockerImages).foldl _ s).releases.map _
    rw [hreleases]
    exact hrelease
  · show List.map _ (List.map _ _) = _
    rw [List.map_map]
    exact List.map_id _
  · obtain ⟨hmem, hac⟩ := List.mem_filter.mp ha
    rcases hartifacts a hmem with hold | himage
    · have hin : a ∈ s.artifactsOf c := List.mem_filter.mpr ⟨hold, hac⟩
      rw [hnone] at hin
      cases hin
    · rw [htype] at himage
      cases himage
  · rw [hphase i a phase hi]
    trivial
  · rw [hphase i a phase hi] at hholds
    cases hholds

/-- When all have succeeded, each file with a download URL has brought its content. -/
theorem brought (h : ImportInv env job c artifacts s w) (hall : w.allSucceeded = true)
    {b : ImportArtifactDto} (hb : b ∈ artifacts) :
    ∃ id content, HasFile w.db id (job.objectKey b) ∧ HasArtifact w.db c id b.name ∧
      comes job.downloads b = some content ∧
      digestAt env w.db (job.objectKey b) = some content.sha256 := by
  rw [← h.files] at hb
  obtain ⟨⟨x, phase⟩, hmem, rfl⟩ := List.mem_map.mp hb
  obtain ⟨i, hi⟩ := List.mem_iff_getElem?.mp hmem
  have hphase := h.phases i _ _ hi
  obtain rfl : phase = .settled true := by
    unfold ImportWorld.allSucceeded at hall
    simpa using List.all_eq_true.mp hall _ hmem
  obtain ⟨id, hfile, hrow, content, hcomes, hdigest⟩ := hphase
  exact ⟨id, content, hfile, hrow, hcomes, hdigest⟩

/-- A file is there that another one, or the file itself, has brought. -/
theorem fileThere (h : ImportInv env job c artifacts s w) (hall : w.allSucceeded = true)
    {a b : ImportArtifactDto} (hb : b ∈ artifacts) (hname : b.name = a.name)
    (hmatch : ∀ content ∈ comes job.downloads b, ∀ sha ∈ truthy a.sha256, content.sha256 = sha) :
    FileThere env job c w.db a := by
  obtain ⟨id, content, ⟨f, hf, hfid, hkey⟩, ⟨x, hx, hc, htype, hxname, hxid⟩, hcomes, hdigest⟩ :=
    h.brought hall hb
  have hsame : job.objectKey a = job.objectKey b := by
    unfold ImportJob.objectKey importKey
    rw [hname]
  obtain ⟨o, ho, hsha⟩ := Option.bind_eq_some_iff.mp hdigest
  refine ⟨x, List.mem_filter.mpr ⟨hx, by simpa using hc⟩, htype, by rw [hxname, hname], ?_, o, ?_, ?_⟩
  · unfold UploadDb.keyOf UploadDb.fileUploadOf
    rw [hxid, hsame, ← hkey, ← hfid]
    show Option.map _ (Rows.findKey FileUpload.id f.id w.db.fileUploads) = _
    rw [Rows.findKey_unique h.constraints.fileKeys hf]
    rfl
  · rw [hsame]
    exact ho
  · intro sha hgiven
    rw [hsha, hmatch content hcomes sha hgiven]

/-- A file that is there was brought by one with its name. -/
theorem twin_of_fileThere (h : ImportInv env job c artifacts s w) (hall : w.allSucceeded = true)
    {a : ImportArtifactDto} (hthere : FileThere env job c w.db a) :
    ∃ b ∈ artifacts, b.name = a.name ∧ ∃ content, comes job.downloads b = some content ∧
      ∀ sha ∈ truthy a.sha256, content.sha256 = sha := by
  obtain ⟨x, hx, htype, hname, -, o, ho, hmatch⟩ := hthere
  obtain ⟨b, hb, hxname⟩ := h.listed x hx htype
  have hsame : b.name = a.name := Option.some.inj (hxname.symm.trans hname)
  obtain ⟨id, content, -, -, hcomes, hdigest⟩ := h.brought hall hb
  refine ⟨b, hb, hsame, content, hcomes, fun sha hgiven => ?_⟩
  have hkey : job.objectKey b = job.objectKey a := by
    unfold ImportJob.objectKey importKey
    rw [hsame]
  have hstored : digestAt env w.db (job.objectKey b) = o.sha256 := by
    unfold digestAt
    rw [hkey, ho]
    rfl
  rw [hstored, hmatch sha hgiven] at hdigest
  exact (Option.some.inj hdigest).symm

end ImportInv

/-- **Main result.** Once its import has released it, a release is complete exactly where nothing of
the request was passed over for good. -/
theorem released_complete_iff (hdb : db.Constraints) {dto : ImportReleaseDto} {p : ℕ} {s : UploadDb}
    (hcreate : createImportedRelease env dto p db = (.ok c, s)) (imageFails : ℕ → Bool)
    (downloads : String → Option Download) (es : List ImportEvent) {w : ImportWorld}
    (hw : Runs.run (ImportWorld.step env ⟨p, dto.version, downloads⟩) (.start dto c imageFails s) es = w)
    (hreleased : w.released = true) :
    ImportComplete env ⟨p, dto.version, downloads⟩ c w.db dto ↔
      ImportCovered dto imageFails downloads := by
  obtain ⟨hs, hrelease, hnone⟩ := createImportedRelease_run hdb hcreate
  have hinv : ImportInv env ⟨p, dto.version, downloads⟩ c
      (dto.artifacts.filter fun a => (truthy a.downloadUrl).isSome)
      (importDockerImages c imageFails dto.dockerImages s) w := by
    rw [← hw]
    exact Runs.invariant_run (fun w e h => h.step e) (.start hs hrelease hnone imageFails) es
  have hall := hinv.succeeded hreleased
  have himage : ∀ image, ImageThere c w.db image ↔ ImageSaved dto imageFails image := by
    intro image
    rw [hinv.images]
    exact importDockerImages_there hnone _ image
  unfold ImportComplete ImportCovered
  constructor
  · rintro ⟨hfiles, himages⟩
    refine ⟨fun a ha hurl => ?_, fun image hmem => (himage image).mp (himages image hmem)⟩
    obtain ⟨b, hb, hname, content, hcomes, hmatch⟩ := hinv.twin_of_fileThere hall (hfiles a ha)
    obtain ⟨hbmem, hburl⟩ := List.mem_filter.mp hb
    exact ⟨b, hbmem, hburl, hname, content, (Option.filter_eq_some_iff.mp hcomes).1, hmatch⟩
  · rintro ⟨hfiles, himages⟩
    refine ⟨fun a ha => ?_, fun image hmem => (himage image).mpr (himages image hmem)⟩
    cases hurl : truthy a.downloadUrl with
    | none =>
        obtain ⟨b, hb, hburl, hname, content, hdownload, hmatch⟩ := hfiles a ha hurl
        apply hinv.fileThere hall (List.mem_filter.mpr ⟨hb, hburl⟩) hname
        intro content' hcomes sha hgiven
        obtain rfl := Option.some.inj ((Option.filter_eq_some_iff.mp hcomes).1.symm.trans hdownload)
        exact hmatch sha hgiven
    | some url =>
        apply hinv.fileThere hall (List.mem_filter.mpr ⟨ha, by rw [hurl]; rfl⟩) rfl
        intro content hcomes sha hgiven
        obtain ⟨-, hmatch⟩ := Option.filter_eq_some_iff.mp hcomes
        rw [show truthy a.sha256 = some sha from hgiven] at hmatch
        have hsame : sha = content.sha256 := by simpa using hmatch
        exact hsame.symm

/-- All statements of the first file, and those after it. -/
def firstFile : List ImportEvent :=
  List.replicate 7 (.statement 0 false) ++ List.replicate 3 (.close false)

/-- The import of the request into the first project, without failures. -/
def importedWorld (dto : ImportReleaseDto) (downloads : String → Option Download) : ImportWorld :=
  Runs.run (ImportWorld.step plainUploadEnv ⟨1, dto.version, downloads⟩)
    (.start dto "1.one@2.0.0" (fun _ => false)
      (createImportedRelease plainUploadEnv dto 1 oneProject).2) firstFile

/-- A file that is listed twice, once without a download URL, and an image. -/
def appImport : ImportReleaseDto :=
  ⟨.id 1, "2.0.0", none, none, none, none, [], [⟨some "web", "registry/web", none⟩],
    [⟨"app", some "https://files/app", some "a1", none, none, none⟩,
      ⟨"app", none, some "a1", none, none, none⟩]⟩

/-- The release is complete. -/
theorem app_import_complete :
    (importedWorld appImport fun _ => some ⟨"a1", 3⟩).released = true ∧
      ImportComplete plainUploadEnv ⟨1, "2.0.0", fun _ => some ⟨"a1", 3⟩⟩ "1.one@2.0.0"
        (importedWorld appImport fun _ => some ⟨"a1", 3⟩).db appImport := by
  have hreleased : (importedWorld appImport fun _ => some ⟨"a1", 3⟩).released = true := by
    decide +kernel
  have hcreate : createImportedRelease plainUploadEnv appImport 1 oneProject =
      (.ok "1.one@2.0.0", (createImportedRelease plainUploadEnv appImport 1 oneProject).2) :=
    Prod.ext rfl rfl
  refine ⟨hreleased, (released_complete_iff oneProject_constraints hcreate (fun _ => false) _ firstFile
    rfl hreleased).mpr ⟨fun a ha hurl => ?_, fun image himage => ?_⟩⟩
  · rcases List.mem_cons.mp ha with rfl | ha
    · cases hurl
    · obtain rfl := List.mem_singleton.mp ha
      refine ⟨_, List.mem_cons_self, rfl, rfl, _, rfl, fun sha hsha => ?_⟩
      exact Option.some.inj hsha
  · obtain rfl := List.mem_singleton.mp himage
    exact ⟨_, rfl, rfl⟩

/-- A file, and another one without a download URL. -/
def manualImport : ImportReleaseDto :=
  ⟨.id 1, "2.0.0", none, none, none, none, [], [],
    [⟨"app", some "https://files/app", some "a1", none, none, none⟩,
      ⟨"manual", none, some "b2", none, none, none⟩]⟩

/-- The release is released, and the second file is no artifact of it. -/
theorem skipped_file_missing :
    (importedWorld manualImport fun _ => some ⟨"a1", 3⟩).released = true ∧
      ¬ ImportComplete plainUploadEnv ⟨1, "2.0.0", fun _ => some ⟨"a1", 3⟩⟩ "1.one@2.0.0"
        (importedWorld manualImport fun _ => some ⟨"a1", 3⟩).db manualImport := by
  refine ⟨by decide +kernel, fun hcomplete => ?_⟩
  obtain ⟨a, ha, -, hname, -⟩ := hcomplete.1 ⟨"manual", none, some "b2", none, none, none⟩ (by decide)
  have hnames : ∀ a ∈ (importedWorld manualImport fun _ => some ⟨"a1", 3⟩).db.artifactsOf
      "1.one@2.0.0", a.artifactName = some "app" := by
    decide +kernel
  rw [hnames a ha] at hname
  exact absurd hname (by decide)

end UploadService
