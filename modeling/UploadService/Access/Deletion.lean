import UploadService.Access.Confinement

/-!
# Deletes and the authorised project

`deleteReleaseArtifact` goes by the project id, but for one branch: the file upload of
an artifact that is no file is announced without its object key, and the release found
then is the first of the table. `deleteRelease` goes by the project that the identifier
of the request names when it is looked up again.

Main results:

- `deleteReleaseArtifact_confined_iff` and `deleteRelease_confined_iff`: when the two
  deletes are confined to the authorised project.
-/

namespace UploadService

open Prog ReleaseService FileUploadService RegulationStatusService

variable {p : ℕ} {o : Outside} {closed : Prop} {db : UploadDb} (env : UploadEnv)

/-! ### The release a keyless file is taken for -/

def Outside.totalSizeOf (o : Outside) (r : Release) : ℤ :=
  finiteSize r.metadata.installationSize +
    (((o.artifacts.filter fun a => a.releaseId == r.catalogId).filterMap fun a =>
      (a.fileUploadId.bind fun id => Rows.findKey FileUpload.id id o.fileUploads).bind
        (·.size)).map Int.ofNat).sum

/-- The metadata of the release with the total size that is due. -/
def Outside.dueMetadata (o : Outside) (r : Release) : ReleaseMetadata :=
  { r.metadata with totalSize := some (o.totalSizeOf r) }

def Outside.withTotalSize (o : Outside) (projectId : ℕ) (version : String) : Outside :=
  match o.releases.find? (UploadDb.isRelease projectId version) with
  | none => o
  | some r => { o with
      releases := Rows.updateWhere (UploadDb.isRelease projectId version)
        (fun x => { x with metadata := o.dueMetadata r }) o.releases }

/-- The project and version of the first release of the table. -/
def headKey (db : UploadDb) : Option (ℕ × String) :=
  db.releases.head?.map fun r => (r.projectId, r.version)

/-- What is outside after a keyless file was announced. -/
def Outside.touch (o : Outside) (p : ℕ) (key : Option (ℕ × String)) : Outside :=
  match key with
  | none => o
  | some (projectId, version) => if projectId = p then o else o.withTotalSize projectId version

theorem find?_outside {projectId : ℕ} (hne : projectId ≠ p) (version : String) :
    (db.outside p).releases.find? (UploadDb.isRelease projectId version) =
      db.findRelease projectId version := by
  show (db.releases.filter fun r => r.projectId != p).find? _ = db.releases.find? _
  rw [List.find?_filter]
  congr 1
  funext r
  by_cases h : r.projectId = projectId
  · simp [UploadDb.isRelease, h, hne, beq_eq_decide]
  · simp [UploadDb.isRelease, h]

theorem totalSizeOf_outside {r : Release} (hr : r ∈ (db.outside p).releases) :
    (db.outside p).totalSizeOf r = totalSizeOf (db.load r) := by
  have hout : db.isOutside p r.catalogId = true := List.any_eq_true.mpr ⟨r, hr, by simp⟩
  have hart : (db.outside p).artifacts.filter (fun a => a.releaseId == r.catalogId) =
      db.artifactsOf r.catalogId := by
    show (db.artifacts.filter _).filter _ = db.artifacts.filter _
    rw [List.filter_filter]
    apply List.filter_congr
    intro a _
    by_cases h : a.releaseId = r.catalogId
    · simp [h, hout]
    · simp [h]
  have hfile : ∀ a ∈ db.artifactsOf r.catalogId,
      (a.fileUploadId.bind fun id => Rows.findKey FileUpload.id id (db.outside p).fileUploads) =
        db.fileUploadOf a := by
    intro a ha
    obtain ⟨hmem, hrel⟩ := List.mem_filter.mp ha
    have hrel' : a.releaseId = r.catalogId := by simpa using hrel
    unfold UploadDb.fileUploadOf
    cases hid : a.fileUploadId with
    | none => rfl
    | some id =>
        have hheld : (db.outsideArtifacts p).any (fun a => a.fileUploadId == some id) = true :=
          List.any_eq_true.mpr ⟨a, List.mem_filter.mpr ⟨hmem, by rw [hrel']; exact hout⟩, by simp [hid]⟩
        show (db.fileUploads.filter _).find? _ = db.fileUploads.find? _
        rw [List.find?_filter]
        congr 1
        funext f
        by_cases h : f.id = id
        · simp [h, hheld]
        · simp [h]
  unfold Outside.totalSizeOf ReleaseService.totalSizeOf UploadDb.load
  rw [hart, List.filterMap_map]
  congr 3
  apply List.filterMap_congr
  intro a ha
  rw [hfile a ha]
  rfl

/-- A total size of another project's release. -/
theorem Inside.updateTotalSizeTo (h : Inside p o closed db) {projectId : ℕ} (hne : projectId ≠ p)
    (version : String) :
    Inside p (o.withTotalSize projectId version) closed
      (ReleaseService.updateTotalSize projectId version db) := by
  have hsame := h.same
  subst hsame
  unfold Outside.withTotalSize ReleaseService.updateTotalSize UploadDb.getReleaseEntity
  rw [find?_outside hne]
  cases hfind : db.findRelease projectId version with
  | none => exact h
  | some r =>
      obtain ⟨hmem, hp, -⟩ := UploadDb.findRelease_some hfind
      have hr : r ∈ (db.outside p).releases :=
        UploadDb.mem_outside_releases.mpr ⟨hmem, fun heq => hne (hp.symm.trans heq)⟩
      have hto := h.updateReleasesTo (q := UploadDb.isRelease projectId version)
        (f := fun x => { x with metadata := (db.outside p).dueMetadata r })
        fun _ _ _ => ⟨rfl, rfl⟩
      have hdue : (db.outside p).dueMetadata r =
          { r.metadata with totalSize := some (totalSizeOf (db.load r)) } := by
        unfold Outside.dueMetadata
        rw [totalSizeOf_outside hr]
      simp only [Option.map_some]
      rw [hdue] at hto ⊢
      exact hto

/-- A second announcement changes nothing more. -/
theorem Outside.withTotalSize_idem (o : Outside) (projectId : ℕ) (version : String) :
    (o.withTotalSize projectId version).withTotalSize projectId version =
      o.withTotalSize projectId version := by
  cases hfind : o.releases.find? (UploadDb.isRelease projectId version) with
  | none => simp only [Outside.withTotalSize, hfind]
  | some r =>
      set f : Release → Release := fun x => { x with metadata := o.dueMetadata r } with hf
      have hfirst : o.withTotalSize projectId version = { o with
          releases := Rows.updateWhere (UploadDb.isRelease projectId version) f o.releases } := by
        simp only [Outside.withTotalSize, hfind, hf]
      have hfind' : (Rows.updateWhere (UploadDb.isRelease projectId version) f o.releases).find?
          (UploadDb.isRelease projectId version) = some (f r) := by
        unfold Rows.updateWhere
        rw [List.find?_map]
        have hcomp : (UploadDb.isRelease projectId version ∘ fun x =>
            if UploadDb.isRelease projectId version x then f x else x) =
            UploadDb.isRelease projectId version := by
          funext x
          by_cases hx : UploadDb.isRelease projectId version x = true
          · simp only [Function.comp, hx, if_true]
            exact hx
          · simp only [Function.comp, hx]
            simpa using hx
        rw [hcomp, hfind]
        simp [List.find?_some hfind]
      rw [hfirst]
      unfold Outside.withTotalSize
      simp only [hfind']
      rw [Rows.updateWhere_eq_self]
      intro x hx hxkey
      have hdue : ({ o with
          releases := Rows.updateWhere (UploadDb.isRelease projectId version) f o.releases } :
          Outside).dueMetadata (f r) = o.dueMetadata r := rfl
      rcases Rows.mem_updateWhere.mp hx with ⟨y, -, -, rfl⟩ | ⟨-, hnot⟩
      · rfl
      · rw [hnot] at hxkey
        cases hxkey

/-! ### One artifact -/

/-- The keys of the release rows, in the order of the table. -/
def releaseKeys (db : UploadDb) : List (ℕ × String × String) :=
  db.releases.map fun r => (r.projectId, r.version, r.catalogId)

theorem headKey_eq (db : UploadDb) :
    headKey db = (releaseKeys db).head?.map fun key => (key.1, key.2.1) := by
  unfold headKey releaseKeys
  cases db.releases <;> rfl

/-- A release is found under its keys alone. -/
theorem findRelease_releaseKeys (db : UploadDb) (projectId : ℕ) (version : String) :
    (db.findRelease projectId version).map Release.catalogId =
      ((releaseKeys db).find? fun key => key.1 == projectId && key.2.1 == version).map (·.2.2) := by
  unfold UploadDb.findRelease releaseKeys
  rw [List.find?_map, Option.map_map]
  rfl

theorem releaseKeys_updateTotalSize (projectId : ℕ) (version : String) (db : UploadDb) :
    releaseKeys (updateTotalSize projectId version db) = releaseKeys db := by
  unfold updateTotalSize
  split
  · rfl
  · apply Rows.map_updateWhere
    exact fun _ _ _ => rfl

/-- The artifact is no file and holds a file upload all the same. -/
def isStray (a : ReleaseArtifact) : Bool := a.type != .file && a.fileUploadId.isSome

theorem Outside.touch_hasArtifact (key : Option (ℕ × String)) (id : ℕ) :
    (o.touch p key).hasArtifact id = o.hasArtifact id := by
  unfold Outside.touch Outside.withTotalSize
  split
  · rfl
  · split
    · rfl
    · split <;> rfl

/-- Announcing a keyless file touches the first release, wherever it belongs. -/
theorem onFileChange_inside (h : Inside p o closed db) (hc : ¬ closed) :
    Inside p (o.touch p (headKey db)) closed (onFileChange none db).2 := by
  unfold ReleaseService.onFileChange
  rw [gets_bind_run]
  simp only [releaseOfFile, headKey]
  cases hhead : db.releases.head? with
  | none => exact h
  | some r =>
      simp only [Option.map_some, Outside.touch]
      have hrest : ∀ o', Inside p o' closed (updateTotalSize r.projectId r.version db) →
          Inside p o' closed ((do
            modify (updateTotalSize r.projectId r.version)
            modify (start (.refreshReleaseState r.projectId r.version))
            when (r.status == .error)
              (modify (start (.maybeRestoreReleasedStatus r.catalogId))) : UploadProg Unit) db).2 := by
        intro o' h'
        rw [modify_bind_run]
        refine Keeps.bind (Keeps.modify fun _ hin => hin.start fun hyes => absurd hyes hc)
          (fun _ => ?_) _ h'
        exact Keeps.when (Keeps.modify fun _ hin => hin.start fun hyes => absurd hyes hc)
      apply hrest
      by_cases hp : r.projectId = p
      · rw [if_pos hp, hp]
        exact h.updateTotalSize r.version
      · rw [if_neg hp]
        exact h.updateTotalSizeTo hp r.version

/-- Deleting an artifact of the project; a stray one touches the first release. -/
theorem removeArtifact_inside (h : Inside p o closed db) {a : ReleaseArtifact}
    (ha : a ∈ db.artifacts) (hrel : o.hasRelease a.releaseId = false) :
    Inside p (if isStray a then o.touch p (headKey db) else o) closed
      (removeArtifact env a db).2 := by
  have hart := h.artifacts a ha hrel
  unfold ReleaseService.removeArtifact
  cases htype : a.type with
  | file =>
      have hno : isStray a = false := by simp [isStray, htype]
      rw [hno]
      cases hfile : a.fileUploadId with
      | none => exact h
      | some fileId =>
          have hid := h.files a ha hrel fileId hfile
          refine Keeps.bind (removeFile_inside env hid) (fun _ => ?_) db h
          refine Keeps.bind (Keeps.modify fun _ hin => hin.deleteArtifact hart) fun _ => ?_
          exact Keeps.modify fun _ hin => hin.deleteFileUpload hid
  | dockerImage | rpm | deb =>
      cases hfile : a.fileUploadId with
      | none =>
          have hno : isStray a = false := by simp [isStray, hfile]
          rw [hno]
          exact h.deleteArtifact hart
      | some fileId =>
          have hyes : isStray a = true := by simp [isStray, htype, hfile]
          simp only [hyes, if_true]
          have hc : ¬ closed := by
            intro hc
            have := h.strays hc a ha hrel (by simp [htype])
            rw [hfile] at this
            cases this
          refine Keeps.bind_after (onFileChange_inside h hc) fun _ => Keeps.modify fun s hin => ?_
          exact hin.deleteArtifact ((Outside.touch_hasArtifact _ _).trans hart)

theorem findArtifact_some {projectId : ℕ} {version : String} {id : ℕ} {a : ReleaseArtifact}
    {status : ReleaseStatus} (h : findArtifact db projectId version id = some (a, status)) :
    a ∈ db.artifacts ∧ a.id = id ∧ ∃ r, db.findRelease projectId version = some r ∧
      a.releaseId = r.catalogId ∧ r.status = status := by
  unfold findArtifact at h
  obtain ⟨r, hr, hfound⟩ := Option.bind_eq_some_iff.mp h
  obtain ⟨b, hb, hpair⟩ := Option.map_eq_some_iff.mp hfound
  obtain ⟨rfl, rfl⟩ := Prod.mk.inj hpair
  obtain ⟨hmem, hrel⟩ := List.mem_filter.mp (List.mem_of_find?_eq_some hb)
  have hid := List.find?_some hb
  exact ⟨hmem, by simpa using hid, r, hr, by simpa using hrel, rfl⟩

/-- The request comes to delete a stray artifact. -/
def deletesStray (p : ℕ) (version : String) (id : ℕ) (skip : Bool) (db : UploadDb) : Bool :=
  (findArtifact db p version id).any fun found =>
    isStray found.1 && (skip || !isReadonly env found.2)

theorem deleteReleaseArtifact_inside (h : Inside p o closed db) (version : String) (id : ℕ)
    (skip : Bool) :
    Inside p (if deletesStray env p version id skip db then o.touch p (headKey db) else o) closed
      (deleteReleaseArtifact env p version id skip db).2 := by
  unfold deleteReleaseArtifact deletesStray
  rw [gets_bind_run]
  cases hfind : findArtifact db p version id with
  | none => exact h
  | some found =>
      obtain ⟨a, status⟩ := found
      obtain ⟨hmem, -, r, hr, hrel, -⟩ := findArtifact_some hfind
      obtain ⟨hrmem, hrp, -⟩ := UploadDb.findRelease_some hr
      have hkey : o.hasRelease a.releaseId = false := hrel ▸ h.releases r hrmem hrp
      have hremove := removeArtifact_inside env h hmem hkey
      simp only [Option.any_some]
      cases skip with
      | true =>
          simp only [Bool.true_or, Bool.and_true]
          show Inside p _ closed ((removeArtifact env a >>= fun _ => pure _) db).2
          exact Keeps.bind_after hremove fun _ => Keeps.pure _
      | false =>
          simp only [Bool.false_or]
          show Inside p _ closed ((checkReadonlyReleasePermission env status >>= _) db).2
          rw [checkReadonlyReleasePermission_bind]
          by_cases hreadonly : isReadonly env status = true
          · simp only [hreadonly, if_true, Bool.not_true, Bool.and_false]
            exact h
          · simp only [hreadonly, Bool.not_false, Bool.and_true]
            exact Keeps.bind_after hremove fun _ => Keeps.pure _

/-- The first release of the table is the project's, or has the total size that is due. -/
def FirstTotalIsDue (p : ℕ) (db : UploadDb) : Prop :=
  ∀ r, db.releases.head? = some r → r.projectId ≠ p →
    r.metadata.totalSize = some (totalSizeOf (db.load r))

theorem touch_eq_self_iff (hdb : db.Constraints) :
    (db.outside p).touch p (headKey db) = db.outside p ↔ FirstTotalIsDue p db := by
  unfold FirstTotalIsDue headKey
  cases hhead : db.releases.head? with
  | none => simp [Outside.touch]
  | some r =>
      have hmem : r ∈ db.releases := List.mem_of_mem_head? hhead
      simp only [Option.map_some, Outside.touch]
      by_cases hp : r.projectId = p
      · rw [if_pos hp]
        constructor
        · intro _ x hx hxp
          obtain rfl := Option.some.inj hx
          exact absurd hp hxp
        · exact fun _ => rfl
      · rw [if_neg hp]
        have hr : r ∈ (db.outside p).releases := UploadDb.mem_outside_releases.mpr ⟨hmem, hp⟩
        have hself : UploadDb.isRelease r.projectId r.version r = true := by
          simp [UploadDb.isRelease]
        have hfind : (db.outside p).releases.find?
            (UploadDb.isRelease r.projectId r.version) = some r := by
          rw [find?_outside hp, hdb.findRelease_of_mem hmem]
        have hdue : (db.outside p).dueMetadata r =
            { r.metadata with totalSize := some (totalSizeOf (db.load r)) } := by
          unfold Outside.dueMetadata
          rw [totalSizeOf_outside hr]
        simp only [Outside.withTotalSize, hfind, hdue]
        constructor
        · intro h x hx _
          obtain rfl := Option.some.inj hx
          have hrow := Rows.eq_of_updateWhere_eq (congrArg Outside.releases h) hr hself
          have hmeta := congrArg (fun x => x.metadata.totalSize) hrow
          exact hmeta.symm
        · intro h
          rw [Rows.updateWhere_eq_self]
          intro x hx hxkey
          obtain ⟨hxmem, -⟩ := UploadDb.mem_outside_releases.mp hx
          simp only [UploadDb.isRelease, Bool.and_eq_true, beq_iff_eq] at hxkey
          have hxr : x = r := hdb.releaseVersions.eq_of_mem hxmem hmem (by rw [hxkey.1, hxkey.2])
          rw [hxr, ← h r rfl hp]

/-- **Main result.** The delete of an artifact is confined, but for a stray one. -/
theorem deleteReleaseArtifact_confined_iff (hdb : db.Constraints) (version : String) (id : ℕ)
    (skip : Bool) :
    db.Confined p (deleteReleaseArtifact env p version id skip db).2 ↔
      (deletesStray env p version id skip db = true → FirstTotalIsDue p db) := by
  have hin := deleteReleaseArtifact_inside env (hdb.inside p False.elim) version id skip
  unfold UploadDb.Confined
  rw [hin.same]
  by_cases hstray : deletesStray env p version id skip db = true
  · rw [if_pos hstray, touch_eq_self_iff hdb]
    exact ⟨fun h _ => h, fun h => h hstray⟩
  · rw [if_neg hstray]
    exact ⟨fun _ hyes => absurd hyes hstray, fun _ => rfl⟩

/-! ### The contents of a release -/

/-- What the writes of the delete keep, the delete keeps. -/
theorem keeps_deleteReleaseArtifact {I : UploadDb → Prop} {id : ℕ}
    (hstorage : ∀ (s : UploadDb) storage, I s → I { s with storage := storage })
    (hfiles : ∀ (s : UploadDb) files, I s → I { s with fileUploads := files })
    (htotal : ∀ s q v, I s → I (updateTotalSize q v s))
    (hstart : ∀ s task, I s → I (start task s))
    (hdelete : ∀ s, I s → I (deleteArtifact id s)) (projectId : ℕ) (version : String)
    (skip : Bool) : Keeps I (deleteReleaseArtifact env projectId version id skip) := by
  have hremove : ∀ fileId, Keeps I (removeFile env fileId) := by
    intro fileId
    refine Keeps.bind (Keeps.gets _) fun found => ?_
    cases found with
    | none => exact Keeps.pure _
    | some file =>
        refine Keeps.bind (Keeps.when (Keeps.modify fun s h => hstorage s _ h)) fun _ => ?_
        exact Keeps.modify fun s h => hfiles s _ h
  have hchange : Keeps I (onFileChange none) := by
    refine Keeps.bind (Keeps.gets _) fun found => ?_
    cases found with
    | none => exact Keeps.pure _
    | some release =>
        refine Keeps.bind (Keeps.modify fun s h => htotal s _ _ h) fun _ => ?_
        refine Keeps.bind (Keeps.modify fun s h => hstart s _ h) fun _ => ?_
        exact Keeps.when (Keeps.modify fun s h => hstart s _ h)
  refine Keeps.gets_bind
    (P := fun found => ∀ a status, found = some (a, status) → a.id = id) ?_ fun found hfound => ?_
  · intro s _ a status hfind
    exact (findArtifact_some hfind).2.1
  · cases found with
    | none => exact Keeps.throw _
    | some found =>
        obtain ⟨a, status⟩ := found
        obtain rfl := hfound a status rfl
        have hrow : Keeps I (modify (deleteArtifact a.id) : UploadProg Unit) := Keeps.modify hdelete
        refine Keeps.bind (Keeps.when fun s hs => ?_) fun _ => Keeps.bind ?_ fun _ => Keeps.pure _
        · obtain ⟨result, hrun, -⟩ := checkReadonlyReleasePermission_run env status s
          rw [hrun]
          exact hs
        · unfold ReleaseService.removeArtifact
          cases a.type with
          | file =>
              cases a.fileUploadId with
              | none => exact Keeps.throw _
              | some fileId =>
                  refine Keeps.bind (hremove fileId) fun _ => Keeps.bind hrow fun _ => ?_
                  exact Keeps.modify fun s h => hfiles s _ h
          | dockerImage | rpm | deb =>
              cases a.fileUploadId with
              | none => exact hrow
              | some fileId => exact Keeps.bind hchange fun _ => hrow

theorem deleteReleaseArtifact_keys (projectId : ℕ) (version : String) (id : ℕ) (skip : Bool) :
    Frames releaseKeys (deleteReleaseArtifact env projectId version id skip) := by
  intro keys
  apply keeps_deleteReleaseArtifact
  · exact fun _ _ h => h
  · exact fun _ _ h => h
  · intro s q v h
    rw [releaseKeys_updateTotalSize]
    exact h
  · exact fun _ _ h => h
  · exact fun _ h => h

theorem updateTotalSize_frames {γ : Type} {g : UploadDb → γ}
    (hg : ∀ (s : UploadDb) releases, g { s with releases := releases } = g s) (q : ℕ) (v : String)
    (s : UploadDb) : g (updateTotalSize q v s) = g s := by
  unfold updateTotalSize
  split
  · rfl
  · exact hg _ _

theorem deleteReleaseArtifact_statuses (projectId : ℕ) (version : String) (id : ℕ) (skip : Bool) :
    Frames UploadDb.regulationStatuses (deleteReleaseArtifact env projectId version id skip) := by
  intro statuses
  apply keeps_deleteReleaseArtifact
  · exact fun _ _ h => h
  · exact fun _ _ h => h
  · exact fun s q v h => (updateTotalSize_frames (fun _ _ => rfl) q v s).trans h
  · exact fun _ _ h => h
  · exact fun _ h => h

/-- Only the artifact with the id goes. -/
theorem deleteReleaseArtifact_artifacts (projectId : ℕ) (version : String) (id : ℕ) (skip : Bool)
    (s : UploadDb) :
    (deleteReleaseArtifact env projectId version id skip s).2.artifacts = s.artifacts ∨
      (deleteReleaseArtifact env projectId version id skip s).2.artifacts =
        Rows.deleteWhere (fun a => a.id == id) s.artifacts := by
  refine keeps_deleteReleaseArtifact env (I := fun t => t.artifacts = s.artifacts ∨
    t.artifacts = Rows.deleteWhere (fun a => a.id == id) s.artifacts) ?_ ?_ ?_ ?_ ?_ projectId
    version skip s (.inl rfl)
  · exact fun _ _ h => h
  · exact fun _ _ h => h
  · intro t q v h
    rw [updateTotalSize_frames (g := UploadDb.artifacts) (fun _ _ => rfl) q v t]
    exact h
  · exact fun _ _ h => h
  · intro t h
    right
    show Rows.deleteWhere _ t.artifacts = _
    rcases h with h | h
    · rw [h]
    · rw [h, Rows.deleteWhere_idem]

theorem deleteVersionRegulationStatus_frames {γ : Type} {g : UploadDb → γ}
    (hg : ∀ (s : UploadDb) statuses, g { s with regulationStatuses := statuses } = g s)
    (projectId : ℕ) (version : String) (regulation : Option String) :
    Frames g (deleteVersionRegulationStatus projectId version regulation) := by
  intro v
  refine Keeps.bind (Keeps.gets _) fun found => ?_
  cases found with
  | none => exact Keeps.throw _
  | some status => exact Keeps.bind (Keeps.modify fun s h => (hg s _).trans h) fun _ => Keeps.pure _

/-- Failures of the deletes are logged, and what they wrote stays. -/
theorem logged_run {α : Type} (prog : UploadProg α) (s : UploadDb) :
    (tryCatch (do let _ ← prog; pure ()) fun _ => pure () : UploadProg Unit) s =
      (.ok (), (prog s).2) := by
  unfold Prog.tryCatch
  rw [bind_run]
  rcases prog s with ⟨result, s'⟩
  cases result <;> rfl

theorem keeps_logged {α : Type} {I : UploadDb → Prop} {prog : UploadProg α} (h : Keeps I prog) :
    Keeps I (tryCatch (do let _ ← prog; pure ()) fun _ => pure () : UploadProg Unit) := by
  intro s hs
  rw [logged_run]
  exact h s hs

theorem deleteStatuses_cons (q : ℕ) (version : String) (dto : RegulationStatusDto)
    (dtos : List RegulationStatusDto) (s : UploadDb) :
    deleteStatuses q version (dto :: dtos) s =
      deleteStatuses q version dtos (deleteVersionRegulationStatus q version dto.regulation s).2 :=
  bind_run_ok (logged_run _ _) _

theorem deleteArtifacts_cons (q : ℕ) (version : String) (a : ReleaseArtifact × Option FileUpload)
    (as : List (ReleaseArtifact × Option FileUpload)) (s : UploadDb) :
    deleteArtifacts env q version (a :: as) s =
      deleteArtifacts env q version as (deleteReleaseArtifact env q version a.1.id true s).2 :=
  bind_run_ok (logged_run _ _) _

theorem deleteStatuses_ok (q : ℕ) (version : String) (dtos : List RegulationStatusDto)
    (s : UploadDb) : (deleteStatuses q version dtos s).1 = .ok () := by
  induction dtos generalizing s with
  | nil => rfl
  | cons dto dtos ih =>
      rw [deleteStatuses_cons]
      exact ih _

theorem deleteContents_run (q : ℕ) (version : String) (loaded : LoadedRelease) (s : UploadDb) :
    deleteContents env q version loaded s = deleteArtifacts env q version loaded.artifacts
      (deleteStatuses q version (getVersionRegulationsStatuses s q version) s).2 :=
  bind_run_ok (Prod.ext (deleteStatuses_ok _ _ _ _) rfl) _

/-- The release is there under its key, and so are the artifacts still to be deleted. -/
structure Remaining (keys : List (ℕ × String × String)) (catalogId : String)
    (todo : List (ReleaseArtifact × Option FileUpload)) (s : UploadDb) : Prop where
  keys : releaseKeys s = keys
  distinct : Rows.KeysDistinct ReleaseArtifact.id s.artifacts
  todo : ∀ a ∈ todo, a.1 ∈ s.artifacts ∧ a.1.releaseId = catalogId

theorem Remaining.findArtifact {keys : List (ℕ × String × String)} {catalogId version : String}
    {a : ReleaseArtifact × Option FileUpload} {todo : List (ReleaseArtifact × Option FileUpload)}
    {s : UploadDb} (h : Remaining keys catalogId (a :: todo) s)
    (hkey : ((keys.find? fun key => key.1 == p && key.2.1 == version).map (·.2.2)) =
      some catalogId) :
    ∃ status, findArtifact s p version a.1.id = some (a.1, status) := by
  obtain ⟨hmem, hrel⟩ := h.todo a (by simp)
  rw [← h.keys, ← findRelease_releaseKeys] at hkey
  obtain ⟨r, hr, hcat⟩ := Option.map_eq_some_iff.mp hkey
  have hof : a.1 ∈ s.artifactsOf r.catalogId :=
    List.mem_filter.mpr ⟨hmem, by simp [hrel, hcat]⟩
  refine ⟨r.status, ?_⟩
  have hfind : (s.artifactsOf r.catalogId).find? (fun b => b.id == a.1.id) = some a.1 := by
    cases hf : (s.artifactsOf r.catalogId).find? (fun b => b.id == a.1.id) with
    | none => simpa using List.find?_eq_none.mp hf a.1 hof
    | some b =>
        have hb := (List.mem_filter.mp (List.mem_of_find?_eq_some hf)).1
        have hid := List.find?_some hf
        rw [h.distinct.eq_of_mem hb hmem (by simpa using hid)]
  unfold ReleaseService.findArtifact
  rw [hr, Option.bind_some, hfind]
  rfl

theorem Remaining.delete (p : ℕ) (version : String) {keys : List (ℕ × String × String)}
    {catalogId : String}
    {a : ReleaseArtifact × Option FileUpload} {todo : List (ReleaseArtifact × Option FileUpload)}
    {s : UploadDb} (h : Remaining keys catalogId (a :: todo) s)
    (hne : ∀ b ∈ todo, b.1.id ≠ a.1.id) :
    Remaining keys catalogId todo (deleteReleaseArtifact env p version a.1.id true s).2 := by
  have hrows := deleteReleaseArtifact_artifacts env p version a.1.id true s
  refine ⟨?_, ?_, fun b hb => ?_⟩
  · rw [(deleteReleaseArtifact_keys env p version a.1.id true).eq s]
    exact h.keys
  · rcases hrows with hrows | hrows
    · rw [hrows]
      exact h.distinct
    · rw [hrows]
      exact h.distinct.sublist (Rows.deleteWhere_sublist _ _)
  · obtain ⟨hmem, hrel⟩ := h.todo b (List.mem_cons_of_mem a hb)
    refine ⟨?_, hrel⟩
    rcases hrows with hrows | hrows
    · rw [hrows]
      exact hmem
    · rw [hrows]
      exact Rows.mem_deleteWhere.mpr ⟨hmem, by simpa using hne b hb⟩

theorem Outside.touch_idem (o : Outside) (p : ℕ) (key : Option (ℕ × String)) :
    (o.touch p key).touch p key = o.touch p key := by
  cases key with
  | none => rfl
  | some key =>
      obtain ⟨projectId, version⟩ := key
      by_cases hp : projectId = p
      · simp [Outside.touch, hp]
      · simp only [Outside.touch, if_neg hp]
        exact o.withTotalSize_idem projectId version

/-- The loop over the artifacts of a release of the project: what is outside is touched
once if a stray one is among them. -/
theorem deleteArtifacts_inside {version catalogId : String} {keys : List (ℕ × String × String)}
    (hkey : ((keys.find? fun key => key.1 == p && key.2.1 == version).map (·.2.2)) =
      some catalogId) (todo : List (ReleaseArtifact × Option FileUpload)) :
    ∀ {o : Outside} {s : UploadDb}, Inside p o closed s → Remaining keys catalogId todo s →
      (todo.map (·.1.id)).Nodup →
      Inside p (if todo.any (isStray ·.1)
        then o.touch p (keys.head?.map fun key => (key.1, key.2.1)) else o) closed
        (deleteArtifacts env p version todo s).2 := by
  induction todo with
  | nil => exact fun h _ _ => h
  | cons a todo ih =>
      intro o s hin hrem hids
      obtain ⟨hnot, hids'⟩ := List.nodup_cons.mp hids
      have hne : ∀ b ∈ todo, b.1.id ≠ a.1.id := by
        intro b hb hid
        exact hnot (List.mem_map.mpr ⟨b, hb, hid⟩)
      obtain ⟨status, hfind⟩ := hrem.findArtifact hkey
      have hafter := deleteReleaseArtifact_inside env hin version a.1.id true
      have hstray : deletesStray env p version a.1.id true s = isStray a.1 := by
        simp [deletesStray, hfind]
      rw [hstray, headKey_eq, hrem.keys] at hafter
      have hrem' := hrem.delete env p version hne
      rw [deleteArtifacts_cons]
      by_cases ha : isStray a.1 = true
      · rw [if_pos ha] at hafter
        have hrest := ih hafter hrem' hids'
        rw [Outside.touch_idem, ite_self] at hrest
        rw [List.any_cons, ha, Bool.true_or, if_pos rfl]
        exact hrest
      · rw [if_neg ha] at hafter
        rw [List.any_cons, show isStray a.1 = false by simpa using ha, Bool.false_or]
        exact ih hafter hrem' hids'

/-! ### Deleting a release -/

/-- The project that `getRelease` goes by. -/
def namedProject (db : UploadDb) (projectIdentifier : Option Identifier) (projectId : ℕ) :
    Option ℕ :=
  match projectIdentifier with
  | none => some projectId
  | some (.id n) => some n
  | some (.name s) => (Rows.findKey Project.name s db.projects).map (·.id)

theorem resolveProject_run (projectIdentifier : Option Identifier) (projectId : ℕ) (db : UploadDb) :
    ∃ result, resolveProject projectIdentifier projectId db = (result, db) ∧
      ∀ q, result = .ok q ↔ namedProject db projectIdentifier projectId = some q := by
  unfold resolveProject namedProject
  cases projectIdentifier with
  | none => exact ⟨_, rfl, fun q => by simp⟩
  | some identifier =>
      cases identifier with
      | id n => exact ⟨_, rfl, fun q => by simp⟩
      | name s =>
          simp only [gets_bind_run]
          cases Rows.findKey Project.name s db.projects with
          | none => exact ⟨_, rfl, fun q => by simp⟩
          | some project => exact ⟨_, rfl, fun q => by simp⟩

theorem getRelease_run (projectIdentifier : Option Identifier) (projectId : ℕ) (version : String)
    (db : UploadDb) :
    ∃ result, getRelease projectIdentifier projectId version db = (result, db) ∧
      ∀ q loaded, result = .ok (q, loaded) ↔
        namedProject db projectIdentifier projectId = some q ∧
          db.getReleaseEntity q version = some loaded := by
  obtain ⟨resolved, hrun, hok⟩ := resolveProject_run projectIdentifier projectId db
  unfold getRelease
  cases resolved with
  | error e =>
      refine ⟨_, bind_run_error hrun _, fun q loaded => ?_⟩
      have hnone := (hok q).not.mp (by simp)
      simp [hnone]
  | ok id =>
      have hid : namedProject db projectIdentifier projectId = some id := (hok id).mp rfl
      rw [bind_run_ok hrun, gets_bind_run, hid]
      cases hget : db.getReleaseEntity id version with
      | none =>
          refine ⟨_, rfl, fun q loaded => ?_⟩
          constructor
          · intro h
            cases h
          · rintro ⟨hq, h⟩
            rw [← Option.some.inj hq, hget] at h
            cases h
      | some found =>
          refine ⟨_, rfl, fun q loaded => ?_⟩
          constructor
          · intro h
            cases h
            exact ⟨rfl, hget⟩
          · rintro ⟨hq, h⟩
            obtain rfl := Option.some.inj hq
            rw [hget] at h
            rw [Option.some.inj h]

/-- What follows the lookup of a release that has no dependents. -/
theorem deleteRelease_run {projectIdentifier : Option Identifier} {version : String} {q : ℕ}
    {loaded : LoadedRelease} (hname : namedProject db projectIdentifier p = some q)
    (hload : db.getReleaseEntity q version = some loaded)
    (hdeps : loaded.dependentReleases = []) :
    deleteRelease env ⟨projectIdentifier, p, version⟩ db = (do
      deleteContents env q version loaded
      let policyRuleIds ← gets (policyRuleIdsOf · loaded.release.catalogId)
      deleteReleaseRow loaded.release.catalogId
      modify (deleteOrphanedPolicies policyRuleIds)
      pure q : UploadProg ℕ) db := by
  obtain ⟨result, hrun, hok⟩ := getRelease_run projectIdentifier p version db
  obtain rfl := (hok q loaded).mpr ⟨hname, hload⟩
  unfold deleteRelease
  have hcheck : checkNoDependents loaded = pure () := by
    unfold checkNoDependents
    rw [hdeps]
    rfl
  rw [bind_run_ok hrun]
  show (checkNoDependents loaded >>= _) db = _
  rw [hcheck]
  rfl

theorem deleteRelease_refused {projectIdentifier : Option Identifier} {version : String}
    (h : ∀ q loaded, namedProject db projectIdentifier p = some q →
      db.getReleaseEntity q version = some loaded → loaded.dependentReleases ≠ []) :
    ∃ e, deleteRelease env ⟨projectIdentifier, p, version⟩ db = (.error e, db) := by
  obtain ⟨result, hrun, hok⟩ := getRelease_run projectIdentifier p version db
  unfold deleteRelease
  cases result with
  | error e => exact ⟨e, bind_run_error hrun _⟩
  | ok found =>
      obtain ⟨q, loaded⟩ := found
      obtain ⟨hname, hload⟩ := (hok q loaded).mp rfl
      have hdeps : loaded.dependentReleases.isEmpty = false := by
        simpa [List.isEmpty_iff] using h q loaded hname hload
      obtain ⟨e, hcheck⟩ : ∃ e, checkNoDependents loaded = Prog.throw e := by
        unfold checkNoDependents
        rw [hdeps]
        exact ⟨_, rfl⟩
      rw [bind_run_ok hrun]
      show ∃ e, (checkNoDependents loaded >>= _) db = _
      rw [hcheck]
      exact ⟨e, rfl⟩

theorem deleteRelease_ok {projectIdentifier : Option Identifier} {version : String} {q : ℕ}
    {db' : UploadDb} (h : deleteRelease env ⟨projectIdentifier, p, version⟩ db = (.ok q, db')) :
    namedProject db projectIdentifier p = some q := by
  obtain ⟨result, hrun, hok⟩ := getRelease_run projectIdentifier p version db
  unfold deleteRelease at h
  obtain ⟨⟨q', loaded⟩, s₁, hget, h⟩ := bind_ok_inv h
  rw [hrun] at hget
  obtain ⟨rfl, rfl⟩ := Prod.mk.inj hget
  obtain ⟨_, _, -, h⟩ := bind_ok_inv h
  obtain ⟨_, _, -, h⟩ := bind_ok_inv h
  obtain ⟨_, _, -, h⟩ := bind_ok_inv h
  obtain ⟨_, _, -, h⟩ := bind_ok_inv h
  obtain ⟨_, _, -, h⟩ := bind_ok_inv h
  obtain ⟨hq, -⟩ := Prod.mk.inj h
  rw [← Except.ok.inj hq]
  exact ((hok q' loaded).mp rfl).1

/-- The contents of a release of the project. -/
theorem deleteContents_inside (hin : Inside p o closed db)
    (hdistinct : Rows.KeysDistinct ReleaseArtifact.id db.artifacts) {version : String}
    {loaded : LoadedRelease} (hload : db.getReleaseEntity p version = some loaded) :
    Inside p (if loaded.artifacts.any (isStray ·.1) then o.touch p (headKey db) else o) closed
      (deleteContents env p version loaded db).2 := by
  obtain ⟨hfind, hloaded⟩ := UploadDb.getReleaseEntity_some hload
  have hkey : (((releaseKeys db).find? fun key => key.1 == p && key.2.1 == version).map (·.2.2)) =
      some loaded.release.catalogId := by
    rw [← findRelease_releaseKeys, hfind]
    rfl
  have hartifacts : loaded.artifacts =
      (db.artifactsOf loaded.release.catalogId).map fun a => (a, db.fileUploadOf a) := by
    rw [hloaded]
    rfl
  -- the statuses go first: neither the artifacts nor the keys of releases change
  have hstatuses : Keeps (fun s => Inside p o closed s ∧ releaseKeys s = releaseKeys db ∧
      s.artifacts = db.artifacts)
      (deleteStatuses p version (getVersionRegulationsStatuses db p version)) := by
    refine Keeps.forEach fun status _ => keeps_logged ?_
    rintro s ⟨hs, hkeys, hrows⟩
    refine ⟨deleteVersionRegulationStatus_inside version status.regulation s hs, ?_, ?_⟩
    · rw [(deleteVersionRegulationStatus_frames (g := releaseKeys) (fun _ _ => rfl) p version
        status.regulation).eq s]
      exact hkeys
    · rw [(deleteVersionRegulationStatus_frames (g := UploadDb.artifacts) (fun _ _ => rfl) p version
        status.regulation).eq s]
      exact hrows
  obtain ⟨hs, hkeys, hrows⟩ := hstatuses db ⟨hin, rfl, rfl⟩
  rw [deleteContents_run, headKey_eq]
  refine deleteArtifacts_inside env hkey loaded.artifacts hs ⟨hkeys, ?_, fun a ha => ?_⟩ ?_
  · rw [hrows]
    exact hdistinct
  · rw [hartifacts] at ha
    obtain ⟨b, hb, rfl⟩ := List.mem_map.mp ha
    obtain ⟨hmem, hrel⟩ := List.mem_filter.mp hb
    rw [hrows]
    exact ⟨hmem, by simpa using hrel⟩
  · rw [hartifacts, List.map_map]
    exact hdistinct.sublist List.filter_sublist

theorem Outside.touch_hasRelease (key : Option (ℕ × String)) (catalogId : String) :
    (o.touch p key).hasRelease catalogId = o.hasRelease catalogId := by
  unfold Outside.touch Outside.withTotalSize
  split
  · rfl
  · split
    · rfl
    · split
      · rfl
      · apply any_key_congr
        apply Rows.map_updateWhere
        exact fun _ _ _ => rfl

/-- The row of a release of the project goes, or the delete is refused. -/
theorem deleteReleaseRow_inside {catalogId : String} (hkey : o.hasRelease catalogId = false) :
    Keeps (Inside p o closed) (deleteReleaseRow catalogId) := by
  intro s h
  unfold deleteReleaseRow
  split
  · exact h
  · exact ((h.deleteDependencies hkey).deleteRuleReleases hkey).deleteReleases hkey

/-- The delete of a release of the project. -/
theorem deleteRelease_inside (hin : Inside p o closed db)
    (hdistinct : Rows.KeysDistinct ReleaseArtifact.id db.artifacts)
    {projectIdentifier : Option Identifier} {version : String} {loaded : LoadedRelease}
    (hname : namedProject db projectIdentifier p = some p)
    (hload : db.getReleaseEntity p version = some loaded)
    (hdeps : loaded.dependentReleases = []) :
    Inside p (if loaded.artifacts.any (isStray ·.1) then o.touch p (headKey db) else o) closed
      ((GuardedBody.deleteRelease version).handle env projectIdentifier p db).2 := by
  have hcontents := deleteContents_inside env hin hdistinct hload
  obtain ⟨hfind, -⟩ := UploadDb.getReleaseEntity_some hload
  obtain ⟨hmem, hp, -⟩ := UploadDb.findRelease_some hfind
  set o' := if loaded.artifacts.any (isStray ·.1) then o.touch p (headKey db) else o with ho'
  have hkey : o'.hasRelease loaded.release.catalogId = false := by
    rw [ho']
    split
    · rw [Outside.touch_hasRelease]
      exact hin.releases _ hmem hp
    · exact hin.releases _ hmem hp
  have hdelete : Inside p o' closed
      (deleteRelease env ⟨projectIdentifier, p, version⟩ db).2 := by
    rw [deleteRelease_run env hname hload hdeps]
    refine Keeps.bind_after hcontents fun _ => Keeps.bind (Keeps.gets _) fun ids => ?_
    refine Keeps.bind (deleteReleaseRow_inside hkey) fun _ => ?_
    exact Keeps.bind (Keeps.modify fun _ h => h.deleteOrphanedPolicies ids) fun _ => Keeps.pure _
  refine Keeps.bind_after_ok hdelete fun q s hrun => Keeps.modify fun _ h => ?_
  have hq := deleteRelease_ok env hrun
  rw [hname] at hq
  rw [← Option.some.inj hq]
  exact h.updateLatestForProject

/-! ### A release of another project -/

/-- The artifacts, the regulation statuses and the keys of releases are among these. -/
structure Within (s₀ s : UploadDb) : Prop where
  artifacts : s.artifacts ⊆ s₀.artifacts
  statuses : s.regulationStatuses ⊆ s₀.regulationStatuses
  releases : releaseKeys s ⊆ releaseKeys s₀

theorem Within.refl (s : UploadDb) : Within s s :=
  ⟨List.Subset.refl _, List.Subset.refl _, List.Subset.refl _⟩

theorem Within.trans {s₀ s₁ s₂ : UploadDb} (h₁ : Within s₀ s₁) (h₂ : Within s₁ s₂) :
    Within s₀ s₂ :=
  ⟨List.Subset.trans h₂.artifacts h₁.artifacts, List.Subset.trans h₂.statuses h₁.statuses,
    List.Subset.trans h₂.releases h₁.releases⟩

theorem deleteVersionRegulationStatus_within (q : ℕ) (version : String)
    (regulation : Option String) (s : UploadDb) :
    Within s (deleteVersionRegulationStatus q version regulation s).2 := by
  unfold deleteVersionRegulationStatus
  rw [gets_bind_run]
  cases s.regulationStatuses.find? fun t => isStatusOf s q version t && isNamed s regulation t with
  | none => exact Within.refl s
  | some status =>
      exact ⟨List.Subset.refl _, (Rows.deleteWhere_sublist _ _).subset, List.Subset.refl _⟩

theorem deleteReleaseArtifact_within (q : ℕ) (version : String) (id : ℕ) (skip : Bool)
    (s : UploadDb) : Within s (deleteReleaseArtifact env q version id skip s).2 := by
  refine ⟨?_, ?_, ?_⟩
  · rcases deleteReleaseArtifact_artifacts env q version id skip s with h | h
    · rw [h]
      exact List.Subset.refl _
    · rw [h]
      exact (Rows.deleteWhere_sublist _ _).subset
  · rw [(deleteReleaseArtifact_statuses env q version id skip).eq s]
    exact List.Subset.refl _
  · rw [(deleteReleaseArtifact_keys env q version id skip).eq s]
    exact List.Subset.refl _

theorem deleteStatuses_within (q : ℕ) (version : String) (dtos : List RegulationStatusDto)
    (s₀ : UploadDb) : Keeps (Within s₀) (deleteStatuses q version dtos) :=
  Keeps.forEach fun dto _ => keeps_logged fun s hs =>
    hs.trans (deleteVersionRegulationStatus_within q version dto.regulation s)

theorem deleteArtifacts_within (q : ℕ) (version : String)
    (as : List (ReleaseArtifact × Option FileUpload)) (s₀ : UploadDb) :
    Keeps (Within s₀) (deleteArtifacts env q version as) :=
  Keeps.forEach fun a _ => keeps_logged fun s hs =>
    hs.trans (deleteReleaseArtifact_within env q version a.1.id true s)

/-- Some status is deleted under the name that a status of the release is shown with. -/
theorem deleteVersionRegulationStatus_deletes {q : ℕ} {version : String} {s : RegulationStatus}
    (hs : s ∈ db.regulationStatuses) (hof : isStatusOf db q version s = true) :
    ∃ t ∈ db.regulationStatuses, isStatusOf db q version t = true ∧
      t ∉ (deleteVersionRegulationStatus q version (toDto db s).regulation db).2.regulationStatuses := by
  have hnamed : isNamed db (toDto db s).regulation s = true := by
    unfold isNamed toDto
    cases hg : regulationOf db s with
    | some g => simp
    | none =>
        cases hsnap : s.regulationSnapshot with
        | none => simp
        | some snapshot => simp
  unfold deleteVersionRegulationStatus
  rw [gets_bind_run]
  cases hfind : db.regulationStatuses.find? fun t =>
      isStatusOf db q version t && isNamed db (toDto db s).regulation t with
  | none =>
      have hnone := List.find?_eq_none.mp hfind s hs
      simp [hof, hnamed] at hnone
  | some t =>
      have hcond := List.find?_some hfind
      refine ⟨t, List.mem_of_find?_eq_some hfind, (Bool.and_eq_true_iff.mp hcond).1, ?_⟩
      · intro hmem
        simpa using (Rows.mem_deleteWhere.mp hmem).2

theorem removeFile_ok (id : ℕ) (s : UploadDb) : (removeFile env id s).1 = .ok () := by
  unfold removeFile
  rw [gets_bind_run]
  cases Rows.findKey FileUpload.id id s.fileUploads with
  | none => rfl
  | some file =>
      show ((when (file.status == .uploaded) _ >>= _) s).1 = _
      cases (file.status == .uploaded) <;> rfl

theorem onFileChange_ok (key : Option String) (s : UploadDb) : (onFileChange key s).1 = .ok () := by
  unfold onFileChange
  rw [gets_bind_run]
  cases releaseOfFile s key with
  | none => rfl
  | some release =>
      show (when (release.status == .error) _ _).1 = _
      cases (release.status == .error) <;> rfl

/-- The row of an artifact goes, unless it is a file without a file upload. -/
theorem removeArtifact_deletes {a : ReleaseArtifact} (ha : a.type = .file → a.fileUploadId ≠ none)
    (s : UploadDb) : a ∉ (removeArtifact env a s).2.artifacts := by
  have hgone : ∀ s, a ∉ (deleteArtifact a.id s).artifacts := by
    intro s hmem
    simpa using (Rows.mem_deleteWhere.mp hmem).2
  unfold removeArtifact
  cases htype : a.type with
  | file =>
      cases hfile : a.fileUploadId with
      | none => exact absurd hfile (ha htype)
      | some fileId =>
          show a ∉ ((removeFile env fileId >>= _) s).2.artifacts
          rw [bind_run_ok (Prod.ext (removeFile_ok env fileId s) rfl)]
          exact hgone _
  | dockerImage | rpm | deb =>
      cases hfile : a.fileUploadId with
      | none => exact hgone s
      | some fileId =>
          show a ∉ ((onFileChange none >>= _) s).2.artifacts
          rw [bind_run_ok (Prod.ext (onFileChange_ok none s) rfl)]
          exact hgone _

/-- Of the contents of a release some row goes, if there is one. -/
theorem deleteContents_deletes (hdb : db.Constraints) {q : ℕ} {version : String}
    {loaded : LoadedRelease} (hload : db.getReleaseEntity q version = some loaded) :
    (∃ t ∈ db.regulationStatuses, isStatusOf db q version t = true ∧
      t ∉ (deleteContents env q version loaded db).2.regulationStatuses) ∨
    (∃ a ∈ db.artifacts, a.releaseId = loaded.release.catalogId ∧
      a ∉ (deleteContents env q version loaded db).2.artifacts) ∨
    ((∀ s ∈ db.regulationStatuses, isStatusOf db q version s = false) ∧
      (∀ a ∈ db.artifacts, a.releaseId ≠ loaded.release.catalogId) ∧
      deleteContents env q version loaded db = (.ok (), db)) := by
  obtain ⟨hfind, hloaded⟩ := UploadDb.getReleaseEntity_some hload
  have hartifacts : loaded.artifacts =
      (db.artifactsOf loaded.release.catalogId).map fun a => (a, db.fileUploadOf a) := by
    rw [hloaded]
    rfl
  rw [deleteContents_run]
  cases hstatuses : getVersionRegulationsStatuses db q version with
  | cons dto statuses =>
      left
      have hdto : dto ∈ getVersionRegulationsStatuses db q version := by
        rw [hstatuses]
        exact List.mem_cons_self
      obtain ⟨s, hs, rfl⟩ := List.mem_map.mp hdto
      obtain ⟨hmem, hof⟩ := List.mem_filter.mp ((List.mem_insertionSort _).mp hs)
      obtain ⟨t, ht, htof, hnot⟩ := deleteVersionRegulationStatus_deletes hmem hof
      refine ⟨t, ht, htof, fun hstays => hnot ?_⟩
      rw [deleteStatuses_cons] at hstays
      exact (deleteArtifacts_within env q version loaded.artifacts _ _
        (deleteStatuses_within q version statuses _ _ (Within.refl _))).statuses hstays
  | nil =>
      right
      have hnone : ∀ s ∈ db.regulationStatuses, isStatusOf db q version s = false := by
        intro s hs
        by_contra hof
        have hmem : toDto db s ∈ getVersionRegulationsStatuses db q version := by
          refine List.mem_map_of_mem ((List.mem_insertionSort _).mpr ?_)
          exact List.mem_filter.mpr ⟨hs, by simpa using hof⟩
        rw [hstatuses] at hmem
        cases hmem
      cases hrows : db.artifactsOf loaded.release.catalogId with
      | nil =>
          right
          refine ⟨hnone, fun a ha hrel => ?_, ?_⟩
          · have hmem : a ∈ db.artifactsOf loaded.release.catalogId :=
              List.mem_filter.mpr ⟨ha, by simpa using hrel⟩
            rw [hrows] at hmem
            cases hmem
          · rw [hartifacts, hrows]
            rfl
      | cons a rows =>
          left
          have hmem : a ∈ db.artifactsOf loaded.release.catalogId := by
            rw [hrows]
            exact List.mem_cons_self
          obtain ⟨ha, hrel⟩ := List.mem_filter.mp hmem
          refine ⟨a, ha, by simpa using hrel, fun hstays => ?_⟩
          have hkey : (((releaseKeys db).find? fun key => key.1 == q && key.2.1 == version).map
              (·.2.2)) = some loaded.release.catalogId := by
            rw [← findRelease_releaseKeys, hfind]
            rfl
          have hrem : Remaining (releaseKeys db) loaded.release.catalogId
              [(a, db.fileUploadOf a)] db := by
            refine ⟨rfl, hdb.artifactKeys, fun b hb => ?_⟩
            rw [List.mem_singleton.mp hb]
            exact ⟨ha, by simpa using hrel⟩
          obtain ⟨status, hfound⟩ := hrem.findArtifact hkey
          have hgone : a ∉ (deleteReleaseArtifact env q version a.id true db).2.artifacts := by
            unfold deleteReleaseArtifact
            rw [gets_bind_run, hfound]
            show a ∉ ((removeArtifact env a >>= fun _ => pure _) db).2.artifacts
            have hremoved := removeArtifact_deletes env (hdb.fileArtifacts a ha) db
            exact Keeps.bind_after (I := fun s : UploadDb => a ∉ s.artifacts) hremoved
              fun _ => Keeps.pure _
          rw [hartifacts, hrows, List.map_cons, deleteArtifacts_cons] at hstays
          exact hgone ((deleteArtifacts_within env q version _ _ _ (Within.refl _)).artifacts hstays)

/-- The row of a release whose contents are gone is deleted. -/
theorem deleteReleaseRow_ok (hdb : db.Constraints) {q : ℕ} {version : String}
    {loaded : LoadedRelease} (hload : db.getReleaseEntity q version = some loaded)
    (hdeps : loaded.dependentReleases = [])
    (hstatuses : ∀ s ∈ db.regulationStatuses, isStatusOf db q version s = false)
    (hartifacts : ∀ a ∈ db.artifacts, a.releaseId ≠ loaded.release.catalogId) :
    ∃ s, deleteReleaseRow loaded.release.catalogId db = (.ok (), s) ∧
      ∀ r ∈ s.releases, r.catalogId ≠ loaded.release.catalogId := by
  obtain ⟨hfind, hloaded⟩ := UploadDb.getReleaseEntity_some hload
  obtain ⟨hmem, hq, hversion⟩ := UploadDb.findRelease_some hfind
  have hstatus : ∀ s ∈ db.regulationStatuses, s.versionId ≠ loaded.release.catalogId := by
    intro s hs hkey
    have hof : isStatusOf db q version s = true :=
      List.any_eq_true.mpr ⟨loaded.release, hmem, by simp [UploadDb.isRelease, hkey, hq, hversion]⟩
    rw [hstatuses s hs] at hof
    cases hof
  have hdep : ∀ d ∈ db.dependencies, d.dependencyReleaseId ≠ loaded.release.catalogId := by
    intro d hd hkey
    obtain ⟨⟨r, hr, hrkey⟩, -⟩ := hdb.dependencyReleases d hd
    have hfound : r ∈ db.dependentReleasesOf loaded.release.catalogId := by
      refine List.mem_filterMap.mpr ⟨d, List.mem_filter.mpr ⟨hd, by simpa using hkey⟩, ?_⟩
      rw [← hrkey]
      exact Rows.findKey_unique hdb.releaseKeys hr
    have hloadedDeps : loaded.dependentReleases =
        db.dependentReleasesOf loaded.release.catalogId := by
      rw [hloaded]
      rfl
    rw [← hloadedDeps, hdeps] at hfound
    cases hfound
  have hfree : ¬ ((db.artifacts.any fun a => a.releaseId == loaded.release.catalogId) ||
      (db.regulationStatuses.any fun s => s.versionId == loaded.release.catalogId) ||
      (db.dependencies.any fun d => d.dependencyReleaseId == loaded.release.catalogId &&
        d.releaseId != loaded.release.catalogId)) = true := by
    simp only [Bool.or_eq_true, List.any_eq_true, Bool.and_eq_true, beq_iff_eq, not_or, not_exists,
      not_and]
    exact ⟨⟨hartifacts, hstatus⟩, fun d hd hkey => absurd hkey (hdep d hd)⟩
  unfold deleteReleaseRow
  rw [if_neg hfree]
  refine ⟨_, rfl, fun r hr => ?_⟩
  simpa using (Rows.mem_deleteWhere.mp hr).2

theorem deleteReleaseRow_within (catalogId : String) (s₀ : UploadDb) :
    Keeps (Within s₀) (deleteReleaseRow catalogId) := by
  refine fun s hs => hs.trans ?_
  unfold deleteReleaseRow
  split
  · exact Within.refl s
  · exact ⟨List.Subset.refl _, List.Subset.refl _,
      ((Rows.deleteWhere_sublist _ _).map _).subset⟩

/-- After the contents, the delete of a release only deletes. -/
theorem deleteRelease_within {projectIdentifier : Option Identifier} {version : String} {q : ℕ}
    {loaded : LoadedRelease} (hname : namedProject db projectIdentifier p = some q)
    (hload : db.getReleaseEntity q version = some loaded)
    (hdeps : loaded.dependentReleases = []) :
    Within (deleteContents env q version loaded db).2
      ((GuardedBody.deleteRelease version).handle env projectIdentifier p db).2 := by
  refine Keeps.bind_after (I := Within _) ?_ fun id => Keeps.modify fun s hs => hs.trans ?_
  · show Within _ (deleteRelease env ⟨projectIdentifier, p, version⟩ db).2
    rw [deleteRelease_run env hname hload hdeps]
    refine Keeps.bind_after (Within.refl _) fun _ => Keeps.bind (Keeps.gets _) fun ids => ?_
    refine Keeps.bind (deleteReleaseRow_within _ _) fun _ => ?_
    refine Keeps.bind (Keeps.modify fun s hs => hs.trans ?_) fun _ => Keeps.pure _
    exact ⟨List.Subset.refl _, List.Subset.refl _, List.Subset.refl _⟩
  · refine ⟨List.Subset.refl _, List.Subset.refl _, ?_⟩
    have hkeys : releaseKeys (updateLatestForProject id s) = releaseKeys s :=
      Rows.map_updateWhere _ fun _ _ _ => rfl
    rw [hkeys]
    exact List.Subset.refl _

/-- A delete that finds a release of another project deletes a row outside. -/
theorem deleteRelease_not_confined (hdb : db.Constraints) {projectIdentifier : Option Identifier}
    {version : String} {q : ℕ} {loaded : LoadedRelease}
    (hname : namedProject db projectIdentifier p = some q) (hq : q ≠ p)
    (hload : db.getReleaseEntity q version = some loaded)
    (hdeps : loaded.dependentReleases = []) :
    ¬ db.Confined p ((GuardedBody.deleteRelease version).handle env projectIdentifier p db).2 := by
  intro hconfined
  have hwithin := deleteRelease_within env hname hload hdeps
  obtain ⟨hfind, -⟩ := UploadDb.getReleaseEntity_some hload
  obtain ⟨hmem, hproject, hversion⟩ := UploadDb.findRelease_some hfind
  have hrelease : loaded.release ∈ (db.outside p).releases :=
    UploadDb.mem_outside_releases.mpr ⟨hmem, fun hp => hq (hproject.symm.trans hp)⟩
  have hout : db.isOutside p loaded.release.catalogId = true :=
    List.any_eq_true.mpr ⟨loaded.release, hrelease, by simp⟩
  rcases deleteContents_deletes env hdb hload with ⟨t, ht, hof, hnot⟩ | ⟨a, ha, hrel, hnot⟩ |
    ⟨hstatuses, hartifacts, hrun⟩
  · -- a regulation status of the release is gone
    obtain ⟨r, hr, hkey⟩ := List.any_eq_true.mp hof
    simp only [UploadDb.isRelease, Bool.and_eq_true, beq_iff_eq] at hkey
    have hsame : r = loaded.release := hdb.releaseVersions.eq_of_mem hr hmem
      (by rw [hkey.2.1, hkey.2.2, hproject, hversion])
    have htout : t ∈ (db.outside p).regulationStatuses :=
      List.mem_filter.mpr ⟨ht, by rw [← hkey.1, hsame]; exact hout⟩
    rw [← hconfined] at htout
    exact hnot (hwithin.statuses (List.mem_filter.mp htout).1)
  · -- an artifact of the release is gone
    have haout : a ∈ (db.outside p).artifacts := List.mem_filter.mpr ⟨ha, by rw [hrel]; exact hout⟩
    rw [← hconfined] at haout
    exact hnot (hwithin.artifacts (List.mem_filter.mp haout).1)
  · -- the release had no contents, and its row is gone
    obtain ⟨s, hrow, hgone⟩ := deleteReleaseRow_ok hdb hload hdeps hstatuses hartifacts
    have hdeleted : deleteRelease env ⟨projectIdentifier, p, version⟩ db =
        (.ok q, deleteOrphanedPolicies (policyRuleIdsOf db loaded.release.catalogId) s) := by
      rw [deleteRelease_run env hname hload hdeps, bind_run_ok hrun, gets_bind_run,
        bind_run_ok hrow]
      rfl
    have hfinal : ((GuardedBody.deleteRelease version).handle env projectIdentifier p db).2 =
        updateLatestForProject q
          (deleteOrphanedPolicies (policyRuleIdsOf db loaded.release.catalogId) s) := by
      show ((deleteRelease env ⟨projectIdentifier, p, version⟩ >>= _) db).2 = _
      rw [bind_run_ok hdeleted]
      rfl
    rw [hfinal] at hconfined
    rw [← hconfined] at hrelease
    have hstill := (List.mem_filter.mp hrelease).1
    rcases Rows.mem_updateWhere.mp hstill with ⟨x, hx, -, heq⟩ | ⟨hx, -⟩
    · exact hgone x hx (by rw [← heq])
    · exact hgone _ hx rfl

/-- The release that the identifier names is the authorised project's, and no stray file
of it touches the first release. -/
def DeletionStaysInside (p : ℕ) (projectIdentifier : Option Identifier) (version : String)
    (db : UploadDb) : Prop :=
  ∀ q loaded, namedProject db projectIdentifier p = some q →
    db.getReleaseEntity q version = some loaded → loaded.dependentReleases = [] →
      q = p ∧ (loaded.artifacts.any (isStray ·.1) = true → FirstTotalIsDue p db)

/-- **Main result.** When the delete of a release is confined. -/
theorem deleteRelease_confined_iff (hdb : db.Constraints) (projectIdentifier : Option Identifier)
    (version : String) :
    db.Confined p ((GuardedBody.deleteRelease version).handle env projectIdentifier p db).2 ↔
      DeletionStaysInside p projectIdentifier version db := by
  unfold DeletionStaysInside
  constructor
  · intro hconfined q loaded hname hload hdeps
    by_cases hq : q = p
    · subst hq
      refine ⟨rfl, fun hstray => ?_⟩
      have hin := deleteRelease_inside env (hdb.inside q False.elim) hdb.artifactKeys hname hload hdeps
      rw [if_pos hstray] at hin
      rw [← touch_eq_self_iff hdb, ← hin.same]
      exact hconfined
    · exact absurd hconfined (deleteRelease_not_confined env hdb hname hq hload hdeps)
  · intro h
    by_cases hfound : ∃ q loaded, namedProject db projectIdentifier p = some q ∧
        db.getReleaseEntity q version = some loaded ∧ loaded.dependentReleases = []
    · obtain ⟨q, loaded, hname, hload, hdeps⟩ := hfound
      obtain ⟨rfl, hstray⟩ := h q loaded hname hload hdeps
      have hin := deleteRelease_inside env (hdb.inside q False.elim) hdb.artifactKeys hname hload hdeps
      unfold UploadDb.Confined
      rw [hin.same]
      by_cases hany : loaded.artifacts.any (isStray ·.1) = true
      · rw [if_pos hany]
        exact (touch_eq_self_iff hdb).mpr (hstray hany)
      · rw [if_neg hany]
    · have hnone : ∀ q loaded, namedProject db projectIdentifier p = some q →
          db.getReleaseEntity q version = some loaded → loaded.dependentReleases ≠ [] :=
        fun q loaded hname hload hdeps => hfound ⟨q, loaded, hname, hload, hdeps⟩
      obtain ⟨e, hrefused⟩ := deleteRelease_refused env hnone
      show ((deleteRelease env ⟨projectIdentifier, p, version⟩ >>= _) db).2.outside p = _
      rw [bind_run_error hrefused]

end UploadService
