import UploadService.Life.Support

/-!
# What keeps released releases supported

One lemma for each operation: what it must find, so that afterwards every released release is
supported or looked at again. A release that leaves `RELEASED` without a refresh of those that
depend on it must not hold one of them; an artifact that comes or goes without a refresh of its
release must leave an installation.

Main results:

- `setRelease_settles`, `archiveProjectReleases_settles`: statuses that are written;
- `maybeRestoreReleasedStatus_settles`: a release that comes back;
- `setReleaseArtifact_settles`, `deleteReleaseArtifact_settles`: artifacts that come and go;
- `updateUploadFile_settles`: a file that came or went.
-/

namespace UploadService

open Prog ReleaseService FileUploadService RegulationStatusService

variable {env : UploadEnv} {db : UploadDb}

/-! ### Leaving the released releases -/

/-- The releases that leave hold none of the others: a released one that depends on a released
one of them is ready, or looked at again. -/
def LeavesNoneBehind (leaves : Release → Bool) (db : UploadDb) : Prop :=
  ∀ y ∈ db.releases, leaves y = true → y.status = .released → ∀ x ∈ db.releases, leaves x = false →
    x.status = .released → ⟨x.catalogId, y.catalogId⟩ ∈ db.dependencies →
      fileUploaded db (db.load x) = true ∨ isQueued db x = true

instance (leaves : Release → Bool) (db : UploadDb) : Decidable (LeavesNoneBehind leaves db) :=
  inferInstanceAs (Decidable (∀ y ∈ db.releases, _ → _ → ∀ x ∈ db.releases, _))

/-- Nothing that stays behind loses its support. -/
theorem LeavesNoneBehind.settled {leaves : Release → Bool} (h : LeavesNoneBehind leaves db)
    (hdb : db.Constraints) (hsettled : db.net.Settled) {db' : UploadDb} {A : String → Prop}
    (hA : ∀ r ∈ db.releases, A r.catalogId ↔ leaves r = true)
    (hout : Net.Outside A db.net db'.net) : db'.net.SettledOff A := by
  apply (hsettled.off A).change hout
  rintro y hy hup - x hx hxup hdep
  obtain ⟨⟨a, ha, rfl⟩, b, hb, rfl⟩ := hdb.dependencyReleases _ hdep
  have hxreleased := (isReleased_iff hdb ha).mp ((hout.up _ hx).mp hxup)
  have hyreleased := (isReleased_iff hdb hb).mp hup
  have hstays : leaves a = false := eq_false_of_ne_true fun hleaves => hx ((hA a ha).mpr hleaves)
  rcases h b hb ((hA b hb).mp hy) hyreleased a ha hstays hxreleased hdep with hready | hqueued
  · left
    exact hout.ready _ hx ((fileUploaded_iff hdb hdb.fileKeys rfl a).mp hready)
  · right
    exact hout.queued _ hx ((isQueued_iff hdb ha).mp hqueued)

/-! ### Setting a release -/

theorem updateTotalSize_rows (p : ℕ) (v : String) (db : UploadDb) :
    (updateTotalSize p v db).artifacts = db.artifacts ∧
      (updateTotalSize p v db).fileUploads = db.fileUploads ∧
      (updateTotalSize p v db).pending = db.pending :=
  ⟨updateTotalSize_frames (fun _ _ => rfl) p v db, updateTotalSize_frames (fun _ _ => rfl) p v db,
    updateTotalSize_frames (fun _ _ => rfl) p v db⟩

theorem mem_saveDependencies {c : String} {entities : List Release} {d : ReleaseDependency}
    (hd : d.releaseId ≠ c) :
    d ∈ (saveDependencies c entities db).dependencies ↔ d ∈ db.dependencies := by
  unfold saveDependencies
  simp only [List.mem_append, Rows.mem_deleteWhere, List.mem_filter, List.mem_map]
  constructor
  · rintro (⟨hmem, -⟩ | ⟨⟨e, -, rfl⟩, -⟩)
    · exact hmem
    · exact absurd rfl hd
  · intro hmem
    exact .inl ⟨hmem, by simp [hd]⟩

/-- The relations of a release: only its own dependencies are written. -/
theorem saveRelations_outside (dto : SetReleaseDto) (isNew : Bool)
    (dependencies : Option (List Release)) (c : String) (db : UploadDb) :
    Net.Outside (· = c) db.net (saveRelations dto isNew dependencies c db).2.net := by
  set saved : UploadDb := dependencies.elim db fun entities => saveDependencies c entities db with hsaved
  set linked : UploadDb := if isNew then linkDefaultRuleToRelease c saved else saved with hlinked
  have hrun : (saveRelations dto isNew dependencies c db).2 =
      updateTotalSize dto.projectId dto.version linked := by
    cases dependencies <;> cases isNew <;> rfl
  have hlink : linked.artifacts = saved.artifacts ∧ linked.fileUploads = saved.fileUploads ∧
      linked.pending = saved.pending ∧ linked.dependencies = saved.dependencies := by
    rw [hlinked]
    unfold linkDefaultRuleToRelease
    split
    · split <;> exact ⟨rfl, rfl, rfl, rfl⟩
    · exact ⟨rfl, rfl, rfl, rfl⟩
  have hsave : saved.artifacts = db.artifacts ∧ saved.fileUploads = db.fileUploads ∧
      saved.pending = db.pending ∧
      ∀ d : ReleaseDependency, d.releaseId ≠ c → (d ∈ saved.dependencies ↔ d ∈ db.dependencies) := by
    rw [hsaved]
    cases dependencies with
    | none => exact ⟨rfl, rfl, rfl, fun _ _ => Iff.rfl⟩
    | some entities => exact ⟨rfl, rfl, rfl, fun _ hd => mem_saveDependencies hd⟩
  obtain ⟨hart, hfiles, hpending⟩ := updateTotalSize_rows dto.projectId dto.version linked
  have hstandings := (saveRelations_standings dto isNew dependencies c).eq db
  rw [hrun] at hstandings ⊢
  refine ⟨fun x _ => ?_, fun x _ hready => ?_, fun x hx y => ?_, fun x _ hqueued => ?_⟩
  · show IsReleased _ x ↔ IsReleased db x
    unfold IsReleased
    rw [hstandings]
  · apply Ready.of_rows hready
    · rw [hart, hlink.1, hsave.1]
    · rw [hfiles, hlink.2.1, hsave.2.1]
  · show _ ∈ (updateTotalSize _ _ linked).dependencies ↔ _
    rw [updateTotalSize_frames (g := UploadDb.dependencies) (fun _ _ => rfl), hlink.2.2.2]
    exact hsave.2.2.2 ⟨x, y⟩ hx
  · obtain ⟨y, hy, hkey, hmem⟩ := hqueued
    refine ⟨y, ?_, hkey, ?_⟩
    · rw [hstandings]
      exact hy
    · rw [hpending, hlink.2.2.1, hsave.2.2.1]
      exact hmem

/-- What `setRelease` must find: a release that it takes out of `RELEASED` leaves none behind. -/
def SetsSupported (env : UploadEnv) (dto : SetReleaseDto) (db : UploadDb) : Prop :=
  ∀ r ∈ db.findRelease dto.projectId dto.version, requestedStatus dto r.status ≠ .released →
    isReadonly env r.status = false → (requestedDependencies dto db).1.isOk = true →
      LeavesNoneBehind (UploadDb.isRelease dto.projectId dto.version) db

instance (env : UploadEnv) (dto : SetReleaseDto) (db : UploadDb) :
    Decidable (SetsSupported env dto db) :=
  inferInstanceAs (Decidable (∀ r ∈ db.findRelease dto.projectId dto.version, _ → _ → _ → _))

/-- A request that is stored asked for dependencies that are there. -/
theorem requestedDependencies_of_stored {dto : SetReleaseDto}
    (hok : (storeRelease env dto db).1.isOk = true) :
    (requestedDependencies dto db).1.isOk = true := by
  unfold storeRelease at hok
  rcases hrun : prepareRelease env dto db with ⟨result, s⟩
  cases result with
  | error e =>
      rw [bind_run_error hrun] at hok
      cases hok
  | ok found =>
      unfold prepareRelease at hrun
      rw [gets_bind_run, gets_bind_run] at hrun
      obtain ⟨_, s₁, hcheck, hrest⟩ := bind_ok_inv hrun
      obtain ⟨result, hchecked, -⟩ := checkReadonlyReleasePermission_run env
        ((db.findRelease dto.projectId dto.version).getD
          (Release.create dto.projectId dto.version)).status db
      obtain rfl : db = s₁ := (Prod.mk.inj (hchecked.symm.trans hcheck)).2
      rw [gets_bind_run] at hrest
      obtain ⟨deps, s₂, hdeps, -⟩ := bind_ok_inv hrest
      rw [hdeps]
      rfl

/-- What is stored leaves the other releases settled. -/
theorem Stored.settles {dto : SetReleaseDto} {result : Except Exception Unit × UploadDb}
    (hstored : Stored env dto db result) (hdb : db.Constraints) (h : db.net.Settled)
    (hleaves : ∀ r ∈ db.findRelease dto.projectId dto.version,
      requestedStatus dto r.status ≠ .released → isReadonly env r.status = false →
        LeavesNoneBehind (UploadDb.isRelease dto.projectId dto.version) db) :
    result.2.net.SettledOff (AtVersion result.2 dto.projectId dto.version) := by
  cases hstored with
  | refused e => exact h.off _
  | inserted row inserted rows dependencies hfind hrow hins hdeps =>
      obtain ⟨hbefore, hfresh, -⟩ := insertRelease_some hins
      obtain ⟨name, required, rfl⟩ := hrow
      set stored : UploadDb := { db with releases := rows } with hstored
      -- the new row, with the keys of the request
      have hnew : ∀ {P : Standing → Prop}, (∀ x n, P { x with sortOrder := n } ↔ P x) →
          ((∃ x ∈ stored.standings, P x) ↔ (∃ x ∈ db.standings, P x) ∨ P inserted.standing) :=
        fun hP => exists_standing_insert hins hP
      have hother : Net.Outside (· = inserted.catalogId) db.net stored.net := by
        refine ⟨fun c hc => ?_, fun _ _ h => h, fun _ _ _ => Iff.rfl, fun c hc hqueued => ?_⟩
        · refine (hnew fun _ _ => Iff.rfl).trans (or_iff_left ?_)
          exact fun h => hc h.1.symm
        · exact (hnew fun _ _ => Iff.rfl).mpr (.inl hqueued)
      have hsaved := saveRelations_outside dto true dependencies inserted.catalogId stored
      have hoff : (saveRelations dto true dependencies inserted.catalogId stored).2.net.SettledOff
          (· = inserted.catalogId) := by
        apply (h.off _).change (hother.trans hsaved)
        rintro y rfl ⟨x, hx, hkey, -⟩
        obtain ⟨r, hr, rfl⟩ := Standing.mem_iff.mp hx
        exact absurd hkey (hfresh r hr)
      apply hoff.subset
      rintro c rfl
      unfold AtVersion
      rw [(saveRelations_standings dto true dependencies inserted.catalogId).eq]
      apply (hnew fun _ _ => Iff.rfl).mpr
      right
      refine ⟨?_, rfl⟩
      rw [hbefore]
      simp [isStanding, ReleaseSubscriber.beforeInsert, changedRelease, Release.create]
  | changed r row dependencies hfind hedit hrow hdeps =>
      obtain ⟨hr, hp, hv⟩ := UploadDb.findRelease_some hfind
      set stored := updateReleases (fun x => x.catalogId == r.catalogId) (fun _ => row) db with hstored
      have hwrites := changed_standings hdb hfind hrow
      have hsaved := saveRelations_outside dto false dependencies r.catalogId stored
      have hchange : Net.Outside (· = r.catalogId) db.net stored.net := by
        apply outside_of_updateWhere hwrites
        · exact fun _ => ⟨rfl, rfl, rfl⟩
        · intro x _ hx hne
          exact absurd (by simpa using hx) hne
        · rfl
        · exact List.Subset.refl _
        · exact fun _ _ hready => hready
      have hown : { r.standing with status := requestedStatus dto r.status } ∈
          (saveRelations dto false dependencies r.catalogId stored).2.standings := by
        rw [(saveRelations_standings dto false dependencies r.catalogId).eq, hwrites]
        exact Rows.mem_updateWhere.mpr (.inl ⟨r.standing, mem_standings hr, by simp, rfl⟩)
      have hoff : (saveRelations dto false dependencies r.catalogId stored).2.net.SettledOff
          (· = r.catalogId) := by
        by_cases hstatus : requestedStatus dto r.status = .released
        · apply (h.off _).change (hchange.trans hsaved)
          rintro y rfl - hdown
          exact absurd ⟨_, hown, rfl, hstatus⟩ hdown
        · apply (hleaves r hfind hstatus hedit).settled hdb h _ (hchange.trans hsaved)
          intro x hx
          constructor
          · intro hkey
            obtain rfl := hdb.releaseKeys.eq_of_mem hx hr hkey
            simp [UploadDb.isRelease, hp, hv]
          · intro hof
            simp only [UploadDb.isRelease, Bool.and_eq_true, beq_iff_eq] at hof
            rw [hdb.releaseVersions.eq_of_mem hx hr (by rw [hof.1, hof.2, hp, hv])]
      apply hoff.subset
      rintro c rfl
      exact ⟨_, hown, by simp [isStanding, hp, hv], rfl⟩

/-- A request for an archived release stores an archived one. -/
theorem Stored.archived {dto : SetReleaseDto} {result : Except Exception Unit × UploadDb}
    (hstored : Stored env dto db result) (hdb : db.Constraints) (hok : result.1.isOk = true)
    (hdto : dto.status = some .archived) :
    ∀ x ∈ result.2.standings, isStanding dto.projectId dto.version x = true →
      x.status = .archived := by
  have hrequested : ∀ status, requestedStatus dto status = .archived := by
    intro status
    unfold requestedStatus
    rw [hdto]
  cases hstored with
  | refused e => cases hok
  | inserted row inserted rows dependencies hfind hrow hins hdeps =>
      obtain ⟨hbefore, -, -⟩ := insertRelease_some hins
      obtain ⟨name, required, rfl⟩ := hrow
      rw [(saveRelations_standings dto true dependencies inserted.catalogId).eq]
      have hnew := @exists_standing_insert _ _ _ _ _ _ hins
        (fun x => isStanding dto.projectId dto.version x = true ∧ x.status ≠ .archived)
        (fun _ _ => Iff.rfl)
      intro x hx hof
      by_contra hne
      rcases hnew.mp ⟨x, hx, hof, hne⟩ with ⟨y, hy, hyof, -⟩ | ⟨-, hnot⟩
      · exact not_atVersion hfind y.catalogId ⟨y, hy, hyof, rfl⟩
      · apply hnot
        rw [hbefore]
        exact hrequested _
  | changed r row dependencies hfind hedit hrow hdeps =>
      rw [(saveRelations_standings dto false dependencies r.catalogId).eq,
        changed_standings hdb hfind hrow]
      intro x hx hof
      rcases Rows.mem_updateWhere.mp hx with ⟨y, -, -, rfl⟩ | ⟨hx, hne⟩
      · exact hrequested _
      · have hkey := (atVersion_iff hdb hfind).mp ⟨x, hx, hof, rfl⟩
        simp [hkey] at hne

/-- The computation of the flags changes nothing that supports a release. -/
theorem updateLatestForProject_outside (p : ℕ) (db : UploadDb) :
    Net.Outside (fun _ => False) db.net (updateLatestForProject p db).net := by
  apply outside_of_updateWhere (updateLatestForProject_standings p db)
  · exact fun _ => ⟨rfl, rfl, rfl⟩
  · exact fun _ _ _ _ => Iff.rfl
  · rfl
  · exact List.Subset.refl _
  · exact fun _ _ hready => hready

/-- **Main result.** A release that `setRelease` takes out of `RELEASED` is not refreshed with
those that depend on it; where it leaves none behind, all are settled. -/
theorem setRelease_settles {dto : SetReleaseDto} (hdb : db.Constraints) (h : db.net.Settled)
    (hset : SetsSupported env dto db) : (setRelease env dto db).2.net.Settled := by
  have hstored := storeRelease_stored env dto db
  have hconstraints := @storeRelease_constraints env dto db hdb
  have hrequested := @requestedDependencies_of_stored env db dto
  unfold setRelease
  rcases hrun : storeRelease env dto db with ⟨result, s⟩
  rw [hrun] at hstored hconstraints hrequested
  cases result with
  | error e =>
      rw [bind_run_error hrun]
      obtain rfl : s = db := hstored.refused_eq rfl
      exact h
  | ok _ =>
      have hoff := hstored.settles hdb h fun r hr hstatus hedit => hset r hr hstatus hedit (hrequested rfl)
      rw [bind_run_ok hrun]
      apply Keeps.bind_after (I := fun t : UploadDb => t.net.Settled)
      · unfold followStatus
        by_cases harchived : dto.status = some .archived
        · rw [if_pos harchived]
          refine Net.Settled.mono ?_ (updateLatestForProject_outside dto.projectId s)
          apply hoff.settled
          rintro c ⟨x, hx, hof, rfl⟩ ⟨y, hy, hkey, hreleased⟩
          obtain rfl := hconstraints.standing_eq hy hx hkey
          rw [hstored.archived hdb rfl harchived y hy hof] at hreleased
          cases hreleased
        · rw [if_neg harchived]
          exact refreshReleaseState_settles hconstraints hoff
      · intro _
        exact Keeps.bind (keeps_of_reads fun db => getRelease_reads _ _ _) fun _ => Keeps.pure _

/-! ### Archiving and restoring -/

/-- The release is one of the project. -/
def OfProject (db : UploadDb) (p : ℕ) (c : String) : Prop :=
  ∃ x ∈ db.standings, x.projectId = p ∧ x.catalogId = c

theorem ofProject_iff (hdb : db.Constraints) {p : ℕ} {r : Release} (hr : r ∈ db.releases) :
    OfProject db p r.catalogId ↔ r.projectId = p := by
  constructor
  · rintro ⟨x, hx, hp, hkey⟩
    obtain rfl := hdb.standing_eq hx (mem_standings hr) hkey
    exact hp
  · exact fun hp => ⟨r.standing, mem_standings hr, hp, rfl⟩

/-- **Main result.** Archiving a project refreshes nothing; it must leave none behind. -/
theorem archiveProjectReleases_settles {p : ℕ} (hdb : db.Constraints) (h : db.net.Settled)
    (hleaves : LeavesNoneBehind (fun r => r.projectId == p) db) :
    (archiveProjectReleases p db).net.Settled := by
  have hwrites : (archiveProjectReleases p db).standings = Rows.updateWhere
      (fun x => x.projectId == p && x.status != .archived)
      (fun x => { x with status := .archived, latest := false }) db.standings :=
    standings_updateReleases (fun _ => rfl) fun _ _ _ => rfl
  have hout : Net.Outside (OfProject db p) db.net (archiveProjectReleases p db).net := by
    apply outside_of_updateWhere hwrites
    · exact fun _ => ⟨rfl, rfl, rfl⟩
    · intro x hx hq hnot
      rw [Bool.and_eq_true, beq_iff_eq] at hq
      exact absurd ⟨x, hx, hq.1, rfl⟩ hnot
    · rfl
    · exact List.Subset.refl _
    · exact fun _ _ hready => hready
  have hoff := hleaves.settled hdb h
    (fun r hr => (ofProject_iff hdb hr).trans beq_iff_eq.symm) hout
  apply hoff.settled
  rintro c ⟨y, hy, hyp, rfl⟩ ⟨x, hx, hkey, hreleased⟩
  rw [hwrites] at hx
  rcases Rows.mem_updateWhere.mp hx with ⟨z, -, -, rfl⟩ | ⟨hx, hne⟩
  · cases hreleased
  · obtain rfl := hdb.standing_eq hx hy hkey
    simp [hyp, hreleased] at hne

theorem restoreProjectReleases_settles (p : ℕ) (h : db.net.Settled) :
    (restoreProjectReleases p db).net.Settled := by
  set drafts := updateReleases (fun r => r.projectId == p && r.status == .archived)
    (fun r => { r with status := .draft }) db with hdrafts
  have hwrites : drafts.standings = Rows.updateWhere
      (fun x => x.projectId == p && x.status == .archived)
      (fun x => { x with status := .draft }) db.standings :=
    standings_updateReleases (fun _ => rfl) fun _ _ _ => rfl
  have hout : Net.Outside (fun _ => False) db.net drafts.net := by
    apply outside_of_updateWhere hwrites
    · exact fun _ => ⟨rfl, rfl, rfl⟩
    · intro x _ hq _
      rw [Bool.and_eq_true, beq_iff_eq, beq_iff_eq] at hq
      simp [hq.2]
    · rfl
    · exact List.Subset.refl _
    · exact fun _ _ hready => hready
  exact (h.mono hout).mono (updateLatestForProject_outside p drafts)

/-- A release that may be restored is supported, or looked at again. -/
def RestoresSupported (c : String) (db : UploadDb) : Prop :=
  ∀ r ∈ db.releases, r.catalogId = c → mayBeRestored r = true → allHealthy db c = true →
    isSupported db r = true ∨ isQueued db r = true

instance (c : String) (db : UploadDb) : Decidable (RestoresSupported c db) :=
  inferInstanceAs (Decidable (∀ r ∈ db.releases, _))

/-- **Main result.** A restoration looks at the files alone; it must find the release supported. -/
theorem maybeRestoreReleasedStatus_settles {c : String} (hdb : db.Constraints)
    (h : db.net.Settled) (hrestore : RestoresSupported c db) :
    (maybeRestoreReleasedStatus c db).2.net.Settled := by
  unfold maybeRestoreReleasedStatus
  rw [gets_bind_run]
  cases hfind : Rows.findKey Release.catalogId c db.releases with
  | none => exact h
  | some r =>
      obtain ⟨hr, rfl⟩ := Rows.findKey_some hfind
      show Net.Settled (UploadDb.net (when (mayBeRestored r && allHealthy db r.catalogId)
        (modify (setReleaseStatus r.catalogId .released)) db : Except Exception Unit × UploadDb).2)
      by_cases hboth : (mayBeRestored r && allHealthy db r.catalogId) = true
      · rw [hboth]
        show (setReleaseStatus r.catalogId .released db).net.Settled
        rw [Bool.and_eq_true] at hboth
        have hsupported := hrestore r hr rfl hboth.1 hboth.2
        rw [isSupported_iff hdb, isQueued_iff hdb hr] at hsupported
        have hwrites := setReleaseStatus_standings r.catalogId .released db
        have hout : Net.Outside (· = r.catalogId) db.net
            (setReleaseStatus r.catalogId .released db).net := by
          apply outside_of_updateWhere hwrites
          · exact fun _ => ⟨rfl, rfl, rfl⟩
          · intro x _ hx hne
            exact absurd (by simpa using hx) hne
          · rfl
          · exact List.Subset.refl _
          · exact fun _ _ hready => hready
        have hown : (setReleaseStatus r.catalogId .released db).net.up r.catalogId := by
          refine ⟨{ r.standing with status := .released }, ?_, rfl, rfl⟩
          rw [hwrites]
          exact Rows.mem_updateWhere.mpr (.inl ⟨r.standing, mem_standings hr, by simp, rfl⟩)
        apply ((h.off _).change hout _).settled
        · rintro c rfl -
          rcases hsupported with hsupported | hqueued
          · left
            apply hsupported.mono
            · exact fun hready => hready
            · exact fun _ => Iff.rfl
            · intro y _ hy
              by_cases hyr : y = r.catalogId
              · exact hyr ▸ hown
              · exact (hout.up y hyr).mpr hy
          · right
            apply isQueued_of_updateWhere hwrites _ _ hqueued
            · exact fun _ => ⟨rfl, rfl, rfl⟩
            · exact List.Subset.refl _
        · rintro y rfl - hdown
          exact absurd hown hdown
      · rw [eq_false_of_ne_true hboth]
        exact h

/-! ### Artifacts -/

/-- What the delete of an artifact leaves. -/
structure WithoutArtifact (a : ReleaseArtifact) (db db' : UploadDb) : Prop where
  standings : db'.standings = db.standings
  dependencies : db'.dependencies = db.dependencies
  artifacts : db'.artifacts = Rows.deleteWhere (fun b => b.id == a.id) db.artifacts
  files : ∀ f ∈ db.fileUploads, a.fileUploadId ≠ some f.id → f ∈ db'.fileUploads
  pending : db.pending ⊆ db'.pending

/-- What a changed file leaves, and the refresh it starts. -/
structure FileSeen (key : Option String) (db db' : UploadDb) : Prop where
  standings : db'.standings = db.standings
  dependencies : db'.dependencies = db.dependencies
  artifacts : db'.artifacts = db.artifacts
  files : db'.fileUploads = db.fileUploads
  pending : db.pending ⊆ db'.pending
  started : ∀ r, releaseOfFile db key = some r →
    .refreshReleaseState r.projectId r.version ∈ db'.pending

theorem onFileChange_seen (key : Option String) (db : UploadDb) :
    FileSeen key db (onFileChange key db).2 := by
  have hstandings := (standings_sees.onFileChange key).eq db
  have hdependencies := (dependencies_sees.onFileChange key).eq db
  have hchanged := onFileChange_changed key db
  generalize (onFileChange key db).2 = db' at hchanged hstandings hdependencies ⊢
  cases hchanged with
  | ignored hnone =>
      exact ⟨rfl, rfl, rfl, rfl, List.Subset.refl _, fun r hr => by rw [hnone] at hr; cases hr⟩
  | seen r hfind =>
      obtain ⟨hart, hfiles, hpending⟩ := updateTotalSize_rows r.projectId r.version db
      refine ⟨hstandings, hdependencies, hart, hfiles, fun t ht => ?_, fun x hx => ?_⟩
      · apply List.mem_append.mpr
        left
        rw [hpending]
        exact ht
      · obtain rfl := Option.some.inj (hfind.symm.trans hx)
        simp [start]
  | seenError r hfind herror =>
      obtain ⟨hart, hfiles, hpending⟩ := updateTotalSize_rows r.projectId r.version db
      refine ⟨hstandings, hdependencies, hart, hfiles, fun t ht => ?_, fun x hx => ?_⟩
      · apply List.mem_append.mpr
        left
        apply List.mem_append.mpr
        left
        rw [hpending]
        exact ht
      · obtain rfl := Option.some.inj (hfind.symm.trans hx)
        simp [start]

/-- A removed file: its object may go, and its row is marked. -/
theorem removeFile_removed (id : ℕ) (db : UploadDb) :
    (removeFile env id db).2 = db ∨ ∃ storage, (removeFile env id db).2 = { db with
      storage := storage
      fileUploads := Rows.updateWhere (fun f => f.id == id) (fun f => { f with status := .removed })
        db.fileUploads } := by
  unfold removeFile
  rw [gets_bind_run]
  cases Rows.findKey FileUpload.id id db.fileUploads with
  | none => exact .inl rfl
  | some file =>
      right
      cases hstatus : (file.status == .uploaded) with
      | true =>
          refine ⟨Rows.deleteWhere
            (fun o => o.bucketName == env.bucketName && o.objectKey == file.objectKey) db.storage, ?_⟩
          show ((when (file.status == .uploaded) _ >>= _ : UploadProg Unit) db).2 = _
          rw [hstatus]
          rfl
      | false =>
          refine ⟨db.storage, ?_⟩
          show ((when (file.status == .uploaded) _ >>= _ : UploadProg Unit) db).2 = _
          rw [hstatus]
          rfl

/-- A removed file leaves every other row. -/
theorem removeFile_rows (id : ℕ) (db : UploadDb) :
    (removeFile env id db).2.standings = db.standings ∧
      (removeFile env id db).2.dependencies = db.dependencies ∧
      (removeFile env id db).2.artifacts = db.artifacts ∧
      (removeFile env id db).2.pending = db.pending ∧
      ∀ f ∈ db.fileUploads, f.id ≠ id → f ∈ (removeFile env id db).2.fileUploads := by
  rcases @removeFile_removed env id db with hsame | ⟨storage, hrun⟩
  · rw [hsame]
    exact ⟨rfl, rfl, rfl, rfl, fun f hf _ => hf⟩
  · rw [hrun]
    refine ⟨rfl, rfl, rfl, rfl, fun f hf hne => ?_⟩
    exact Rows.mem_updateWhere.mpr (.inr ⟨hf, by simpa using hne⟩)

theorem removeArtifact_without {a : ReleaseArtifact}
    (ha : a.type = .file → a.fileUploadId ≠ none) (db : UploadDb) :
    WithoutArtifact a db (removeArtifact env a db).2 := by
  unfold removeArtifact
  cases htype : a.type with
  | file =>
      cases hfile : a.fileUploadId with
      | none => exact absurd hfile (ha htype)
      | some fileId =>
          show WithoutArtifact a db ((removeFile env fileId >>= _ : UploadProg Unit) db).2
          rw [bind_run_ok (Prod.ext (removeFile_ok env fileId db) rfl)]
          obtain ⟨hstandings, hdeps, hart, hpending, hfiles⟩ := @removeFile_rows env fileId db
          refine ⟨hstandings, hdeps, ?_, fun f hf hne => ?_, fun t ht => ?_⟩
          · show Rows.deleteWhere _ (removeFile env fileId db).2.artifacts = _
            rw [hart]
          · rw [hfile] at hne
            have hid : f.id ≠ fileId := fun heq => hne (by rw [heq])
            exact Rows.mem_deleteWhere.mpr ⟨hfiles f hf hid, by simpa using hid⟩
          · show t ∈ (removeFile env fileId db).2.pending
            rw [hpending]
            exact ht
  | dockerImage | rpm | deb =>
      cases hfile : a.fileUploadId with
      | none => exact ⟨rfl, rfl, rfl, fun _ hf _ => hf, List.Subset.refl _⟩
      | some fileId =>
          show WithoutArtifact a db ((onFileChange none >>= _ : UploadProg Unit) db).2
          rw [bind_run_ok (Prod.ext (onFileChange_ok none db) rfl)]
          have hseen := onFileChange_seen none db
          refine ⟨hseen.standings, hseen.dependencies, ?_, fun f hf _ => ?_, hseen.pending⟩
          · show Rows.deleteWhere _ (onFileChange none db).2.artifacts = _
            rw [hseen.artifacts]
          · show f ∈ (onFileChange none db).2.fileUploads
            rw [hseen.files]
            exact hf

/-- The delete of an artifact is refused, or the artifact goes with its file. -/
theorem deleteReleaseArtifact_without (p : ℕ) (v : String) (id : ℕ) (skip : Bool)
    (hdb : db.Constraints) :
    ((deleteReleaseArtifact env p v id skip db).2 = db ∧ ((findArtifact db p v id).isSome = true →
      skip = false)) ∨
      ∃ a status, findArtifact db p v id = some (a, status) ∧
        (skip = false → isReadonly env status = false) ∧
        WithoutArtifact a db (deleteReleaseArtifact env p v id skip db).2 := by
  unfold deleteReleaseArtifact
  rw [gets_bind_run]
  cases hfind : findArtifact db p v id with
  | none => exact .inl ⟨rfl, fun h => by cases h⟩
  | some found =>
      obtain ⟨a, status⟩ := found
      obtain ⟨r, -, hmem⟩ := Option.bind_eq_some_iff.mp hfind
      obtain ⟨b, hb, hpair⟩ := Option.map_eq_some_iff.mp hmem
      obtain rfl : b = a := (Prod.mk.inj hpair).1
      have hfiles := hdb.fileArtifacts b (List.mem_filter.mp (List.mem_of_find?_eq_some hb)).1
      have hwithout := @removeArtifact_without env b hfiles db
      have hremoves : WithoutArtifact b db
          ((removeArtifact env b >>= fun _ => pure "Release Artifact deleted" : UploadProg String)
            db).2 := by
        apply Keeps.bind_after (I := WithoutArtifact b db) hwithout
        exact fun _ => Keeps.pure _
      cases skip with
      | true => exact .inr ⟨b, status, rfl, by simp, hremoves⟩
      | false =>
          show ((checkReadonlyReleasePermission env status >>= fun _ => removeArtifact env b >>=
            fun _ => pure "Release Artifact deleted" : UploadProg String) db).2 = db ∧ _ ∨ _
          have hcheck := checkReadonlyReleasePermission_bind env status (fun _ =>
            removeArtifact env b >>= fun _ => pure "Release Artifact deleted") db
          cases hread : isReadonly env status with
          | true =>
              rw [hread] at hcheck
              exact .inl ⟨hcheck, fun _ => rfl⟩
          | false =>
              rw [hread] at hcheck
              refine .inr ⟨b, status, rfl, fun _ => hread, ?_⟩
              have hrun : ((checkReadonlyReleasePermission env status >>= fun _ =>
                  removeArtifact env b >>= fun _ => pure "Release Artifact deleted" :
                    UploadProg String) db).2 = _ := hcheck
              show WithoutArtifact b db ((checkReadonlyReleasePermission env status >>= fun _ =>
                removeArtifact env b >>= fun _ => pure "Release Artifact deleted" :
                  UploadProg String) db).2
              rw [hrun]
              exact hremoves

/-- The delete of an artifact leaves the other releases. -/
theorem WithoutArtifact.outside {a : ReleaseArtifact} {db' : UploadDb}
    (h : WithoutArtifact a db db') (hdb : db.Constraints) (ha : a ∈ db.artifacts) :
    Net.Outside (· = a.releaseId) db.net db'.net := by
  apply outside_of_ready h.standings h.dependencies h.pending
  intro c hc hready
  have hne : ∀ b ∈ db.artifacts, b.releaseId = c → b ≠ a := by
    rintro b - hof rfl
    exact hc hof.symm
  apply hready.mono
  · intro b hof
    rw [h.artifacts, Rows.mem_deleteWhere]
    apply and_iff_left_of_imp
    intro hb
    have hid : b.id ≠ a.id := fun heq => hne b hb hof (hdb.artifactKeys.eq_of_mem hb ha heq)
    simpa using hid
  · rintro b hb hof ⟨f, hf, hfile, hstatus⟩
    refine ⟨f, h.files f hf fun heq => ?_, hfile, hstatus⟩
    exact hne b hb hof (hdb.artifactFiles b hb a ha f.id hfile heq)

/-- The release stays ready where another installation artifact remains. -/
theorem WithoutArtifact.ready {a : ReleaseArtifact} {db' : UploadDb} (h : WithoutArtifact a db db')
    (hdb : db.Constraints) (ha : a ∈ db.artifacts) {c : String} (hready : Ready db c)
    (hrest : ∃ b ∈ db.artifacts, IsInstallation c b ∧ b.id ≠ a.id) : Ready db' c := by
  unfold Ready
  simp only [h.artifacts, Rows.mem_deleteWhere]
  obtain ⟨b, hb, hof, hne⟩ := hrest
  refine ⟨⟨b, ⟨hb, by simpa using hne⟩, hof⟩, ?_⟩
  rintro x ⟨hx, hstays⟩ hxof htype
  obtain ⟨f, hf, hfile, hstatus⟩ := hready.2 x hx hxof htype
  refine ⟨f, h.files f hf fun heq => ?_, hfile, hstatus⟩
  rw [hdb.artifactFiles x hx a ha f.id hfile heq] at hstays
  simp at hstays

/-- What the delete of an artifact must find: a released release keeps an installation, or it
needs none. -/
def DeletesSupported (env : UploadEnv) (p : ℕ) (v : String) (id : ℕ) (db : UploadDb) : Prop :=
  ∀ r ∈ db.findRelease p v, ∀ a ∈ db.artifacts, a.releaseId = r.catalogId → a.id = id →
    r.status = .released → isReadonly env r.status = false →
      dependenciesReleased (db.load r) = true ∨ isQueued db r = true ∨
        a.isInstallationFile = false ∨ ∃ b ∈ db.artifacts, IsInstallation r.catalogId b ∧ b.id ≠ id

instance (env : UploadEnv) (p : ℕ) (v : String) (id : ℕ) (db : UploadDb) :
    Decidable (DeletesSupported env p v id db) :=
  inferInstanceAs (Decidable (∀ r ∈ db.findRelease p v, ∀ a ∈ db.artifacts, _))

/-- **Main result.** The delete of an artifact starts no refresh of its release. -/
theorem deleteReleaseArtifact_settles {p : ℕ} {v : String} {id : ℕ} (hdb : db.Constraints)
    (h : db.net.Settled) (hdelete : DeletesSupported env p v id db) :
    (deleteReleaseArtifact env p v id false db).2.net.Settled := by
  rcases @deleteReleaseArtifact_without env db p v id false hdb with
    ⟨hsame, -⟩ | ⟨a, status, hfound, hedit, hwithout⟩
  · rw [hsame]
    exact h
  · obtain ⟨r, hfind, hmem⟩ := Option.bind_eq_some_iff.mp hfound
    obtain ⟨b, hb, hpair⟩ := Option.map_eq_some_iff.mp hmem
    obtain ⟨rfl, rfl⟩ := Prod.mk.inj hpair
    obtain ⟨hr, -, -⟩ := UploadDb.findRelease_some hfind
    obtain ⟨ha, hof⟩ := List.mem_filter.mp (List.mem_of_find?_eq_some hb)
    have hid : b.id = id := by simpa using List.find?_some hb
    have hrel : b.releaseId = r.catalogId := by simpa using hof
    have hout := hwithout.outside hdb ha
    have hup : ∀ c, (deleteReleaseArtifact env p v id false db).2.net.up c ↔ db.net.up c := by
      intro c
      show IsReleased _ c ↔ IsReleased db c
      unfold IsReleased
      rw [hwithout.standings]
    apply ((h.off _).change hout _).settled
    · rintro c rfl hc
      rw [hup] at hc
      have hreleased := (isReleased_iff hdb hr).mp (hrel ▸ hc)
      have hkeeps := hdelete r hfind b ha hrel hid hreleased (hedit rfl)
      rw [dependenciesReleased_iff hdb, isQueued_iff hdb hr, ← hrel] at hkeeps
      apply h.touched hc
      · exact fun y hy => (hup y).mpr hy
      · intro y
        show _ ∈ (deleteReleaseArtifact env p v id false db).2.dependencies ↔ _ ∈ db.dependencies
        rw [hwithout.dependencies]
      · rintro ⟨x, hx, hkey, hpending⟩
        exact ⟨x, hwithout.standings ▸ hx, hkey, hwithout.pending hpending⟩
      · rcases hkeeps with hdeps | hqueued | hrest
        · exact .inl hdeps
        · exact .inr (.inl hqueued)
        · refine .inr (.inr fun hready => hwithout.ready hdb ha hready ?_)
          rcases hrest with hnone | ⟨x, hx, hxof, hne⟩
          · obtain ⟨x, hx, hxof⟩ := hready.1
            refine ⟨x, hx, hxof, fun heq => ?_⟩
            rw [hdb.artifactKeys.eq_of_mem hx ha heq] at hxof
            rw [hxof.2] at hnone
            cases hnone
          · exact ⟨x, hx, hxof, hid.symm ▸ hne⟩
    · intro y _ hy hdown
      exact absurd ((hup y).mpr hy) hdown

/-- The upsert of a file upload writes no status; the id of the row is that of the key. -/
theorem fileStep_rows (env : UploadEnv) (dto : SetReleaseArtifactDto) (db : UploadDb) :
    (fileStep env dto db).2.standings = db.standings ∧
      (fileStep env dto db).2.dependencies = db.dependencies ∧
      (fileStep env dto db).2.artifacts = db.artifacts ∧
      (fileStep env dto db).2.pending = db.pending ∧
      (∀ a, FileIsUploaded db a → FileIsUploaded (fileStep env dto db).2 a) := by
  unfold fileStep
  split
  · dsimp only
    unfold upsertFileUpload
    split
    · refine ⟨rfl, rfl, rfl, rfl, fun a h => h.updateWhere rfl (fun _ => rfl) ?_⟩
      exact fun f _ _ _ hf => hf
    · refine ⟨rfl, rfl, rfl, rfl, fun a h => ?_⟩
      obtain ⟨f, hf, hfile, hstatus⟩ := h
      exact ⟨f, List.mem_append.mpr (.inl hf), hfile, hstatus⟩
  · exact ⟨rfl, rfl, rfl, rfl, fun _ h => h⟩

/-- The upsert of an artifact leaves those of other releases. -/
theorem Upserted.other {dto : SetReleaseArtifactDto} {c : String} {fileUploadId : Option ℕ}
    {db' : UploadDb} (h : Upserted dto c fileUploadId db db') {a : ReleaseArtifact}
    (ha : a.releaseId ≠ c) : a ∈ db'.artifacts ↔ a ∈ db.artifacts := by
  have hrow : ∀ b, (artifactRow dto fileUploadId b).releaseId = b.releaseId := by
    intro b
    unfold artifactRow typeColumns
    split <;> rfl
  cases h with
  | taken => rfl
  | existing b hb hsame =>
      have hown : ∀ x, isSameArtifact dto c fileUploadId x = true → x.releaseId = c := by
        intro x hx
        unfold isSameArtifact at hx
        rw [Bool.and_eq_true, beq_iff_eq] at hx
        exact hx.1
      constructor
      · intro hmem
        rcases Rows.mem_updateWhere.mp hmem with ⟨x, -, hx, rfl⟩ | ⟨hmem, -⟩
        · exact absurd ((hrow x).trans (hown x hx)) ha
        · exact hmem
      · intro hmem
        apply Rows.mem_updateWhere.mpr
        refine .inr ⟨hmem, eq_false_of_ne_true fun hx => ha (hown a hx)⟩
  | new hnone hfree =>
      constructor
      · intro hmem
        rcases List.mem_append.mp hmem with hmem | hmem
        · exact hmem
        · rw [List.mem_singleton.mp hmem] at ha
          exact absurd (hrow _) ha
      · exact fun hmem => List.mem_append.mpr (.inl hmem)

theorem Upserted.rows {dto : SetReleaseArtifactDto} {c : String} {fileUploadId : Option ℕ}
    {db' : UploadDb} (h : Upserted dto c fileUploadId db db') :
    db'.fileUploads = db.fileUploads ∧ db'.pending = db.pending := by
  cases h <;> exact ⟨rfl, rfl⟩

/-- The artifact is the file artifact of the release with this file upload. -/
def isFileArtifact (c : String) (fileUploadId : ℕ) (a : ReleaseArtifact) : Prop :=
  a.releaseId = c ∧ a.type = .file ∧ a.fileUploadId = some fileUploadId

/-- The upsert of a file artifact: nothing is written, or one row with the file. -/
theorem Upserted.file {dto : SetReleaseArtifactDto} {c : String} {id : ℕ} {db' : UploadDb}
    (h : Upserted dto c (some id) db db') (htype : dto.type = .file)
    (hunique : ∀ a ∈ db.artifacts, ∀ b ∈ db.artifacts, a.fileUploadId = some id →
      b.fileUploadId = some id → a = b) :
    db'.artifacts = db.artifacts ∨
      (∀ a ∈ db.artifacts, a.fileUploadId = some id → isFileArtifact c id a) ∧
      ∃ row, isFileArtifact c id row ∧ row.isInstallationFile = dto.isInstallationFile ∧
        ∀ a, a ∈ db'.artifacts ↔ (a ∈ db.artifacts ∧ ¬ isFileArtifact c id a) ∨ a = row := by
  have hsame : ∀ a, isSameArtifact dto c (some id) a = true ↔ isFileArtifact c id a := by
    intro a
    unfold isSameArtifact isFileArtifact
    rw [htype]
    simp only [Bool.and_eq_true, beq_iff_eq]
    constructor
    · rintro ⟨hrel, ⟨hfile, -⟩, hid⟩
      exact ⟨hrel, hfile, hid⟩
    · rintro ⟨hrel, hfile, hid⟩
      exact ⟨hrel, ⟨hfile, by rw [hid]; rfl⟩, hid⟩
  have hrow : ∀ b, b.releaseId = c → isFileArtifact c id (artifactRow dto (some id) b) ∧
      (artifactRow dto (some id) b).isInstallationFile = dto.isInstallationFile := by
    intro b hb
    unfold artifactRow typeColumns isFileArtifact
    simp only [htype]
    exact ⟨⟨hb, htype, trivial⟩, rfl⟩
  cases h with
  | taken => exact .inl rfl
  | existing b hb hbsame =>
      right
      obtain ⟨hrel, hfile, hid⟩ := (hsame b).mp hbsame
      refine ⟨fun a ha haid => hunique a ha b hb haid hid ▸ ⟨hrel, hfile, hid⟩,
        artifactRow dto (some id) b, (hrow b hrel).1, (hrow b hrel).2, fun a => ?_⟩
      rw [Rows.mem_updateWhere]
      constructor
      · rintro (⟨x, hx, hxsame, rfl⟩ | ⟨ha, hnot⟩)
        · right
          rw [hunique x hx b hb ((hsame x).mp hxsame).2.2 hid]
        · exact .inl ⟨ha, fun hfa => by rw [(hsame a).mpr hfa] at hnot; cases hnot⟩
      · rintro (⟨ha, hnot⟩ | rfl)
        · exact .inr ⟨ha, eq_false_of_ne_true fun hx => hnot ((hsame a).mp hx)⟩
        · exact .inl ⟨b, hb, hbsame, rfl⟩
  | new hnone hfree =>
      right
      refine ⟨fun a ha haid => absurd haid (hfree id rfl a ha),
        artifactRow dto (some id) (newArtifact db.nextId c), (hrow _ rfl).1, (hrow _ rfl).2,
        fun a => ?_⟩
      show a ∈ db.artifacts ++ [_] ↔ _
      rw [List.mem_append, List.mem_singleton]
      apply or_congr_left
      refine (and_iff_left_of_imp fun ha hfa => ?_).symm
      exact hfree id rfl a ha hfa.2.2

/-- The file upload of the artifact has the object key. -/
def holdsFile (db : UploadDb) (key : String) (a : ReleaseArtifact) : Bool :=
  (db.fileUploadOf a).any fun f => f.objectKey == key

/-- The request leaves the release an installation: its file is uploaded, or, where it is no
installation file, another artifact is one. -/
def KeepsInstallation (dto : SetReleaseArtifactDto) (c : String) (db : UploadDb) : Prop :=
  let key := artifactObjectKey dto.projectId dto
  (dto.isInstallationFile = true ∧ ∃ f ∈ db.fileUploads, f.objectKey = key ∧ f.status = .uploaded) ∨
    (dto.isInstallationFile = false ∧ ∃ a ∈ db.artifacts, IsInstallation c a ∧
      ¬ (a.type = .file ∧ holdsFile db key a = true))

instance (dto : SetReleaseArtifactDto) (c : String) (db : UploadDb) :
    Decidable (KeepsInstallation dto c db) :=
  inferInstanceAs (Decidable (_ ∨ _))

/-- The file upload belongs to an artifact that the upsert does not name. -/
def IsTakenElsewhere (dto : SetReleaseArtifactDto) (c : String) (db : UploadDb) : Prop :=
  ∃ a ∈ db.artifacts, holdsFile db (artifactObjectKey dto.projectId dto) a = true ∧
    ¬ (a.releaseId = c ∧ a.type = .file)

instance (dto : SetReleaseArtifactDto) (c : String) (db : UploadDb) :
    Decidable (IsTakenElsewhere dto c db) :=
  inferInstanceAs (Decidable (∃ a ∈ db.artifacts, _))

/-- What `setReleaseArtifact` must find when it writes a file artifact of a released release. -/
def ArtifactsSupported (env : UploadEnv) (dto : SetReleaseArtifactDto) (db : UploadDb) : Prop :=
  ∀ r ∈ db.findRelease dto.projectId dto.version, dto.type = .file → r.status = .released →
    isReadonly env r.status = false →
      dependenciesReleased (db.load r) = true ∨ isQueued db r = true ∨
        KeepsInstallation dto r.catalogId db ∨ IsTakenElsewhere dto r.catalogId db

instance (env : UploadEnv) (dto : SetReleaseArtifactDto) (db : UploadDb) :
    Decidable (ArtifactsSupported env dto db) :=
  inferInstanceAs (Decidable (∀ r ∈ db.findRelease dto.projectId dto.version, _))

theorem holdsFile_iff (hdb : db.Constraints) {key : String} {a : ReleaseArtifact} :
    holdsFile db key a = true ↔
      ∃ f ∈ db.fileUploads, f.objectKey = key ∧ a.fileUploadId = some f.id := by
  unfold holdsFile UploadDb.fileUploadOf
  rw [Option.any_eq_true]
  constructor
  · rintro ⟨f, hfind, hkey⟩
    obtain ⟨id, hid, hrow⟩ := Option.bind_eq_some_iff.mp hfind
    obtain ⟨hf, rfl⟩ := Rows.findKey_some hrow
    exact ⟨f, hf, by simpa using hkey, hid⟩
  · rintro ⟨f, hf, rfl, hid⟩
    refine ⟨f, ?_, by simp⟩
    rw [hid]
    exact Rows.findKey_unique hdb.fileKeys hf

/-- The artifacts of the file upload are those of the object key. -/
theorem fileStep_id (hdb : db.Constraints) {dto : SetReleaseArtifactDto} (htype : dto.type = .file) :
    ∃ id, (fileStep env dto db).1 = some id ∧
      (∀ f ∈ db.fileUploads, f.objectKey = artifactObjectKey dto.projectId dto → f.id = id) ∧
      ∀ a ∈ db.artifacts, a.fileUploadId = some id ↔
        holdsFile db (artifactObjectKey dto.projectId dto) a = true := by
  unfold fileStep
  rw [htype]
  refine ⟨_, rfl, ?_⟩
  show (∀ f ∈ db.fileUploads, _ → f.id = (upsertFileUpload dto.artifactName "release"
    (artifactObjectKey dto.projectId dto) env.bucketName db).1) ∧ ∀ a ∈ db.artifacts,
      a.fileUploadId = some (upsertFileUpload dto.artifactName "release"
        (artifactObjectKey dto.projectId dto) env.bucketName db).1 ↔ _
  unfold upsertFileUpload
  cases hfind : Rows.findKey FileUpload.objectKey (artifactObjectKey dto.projectId dto)
      db.fileUploads with
  | some file =>
      obtain ⟨hfile, hkey⟩ := Rows.findKey_some hfind
      have hunique : ∀ f ∈ db.fileUploads, f.objectKey = artifactObjectKey dto.projectId dto →
          f = file :=
        fun f hf hfkey => hdb.fileObjectKeys.eq_of_mem hf hfile (hfkey.trans hkey.symm)
      refine ⟨fun f hf hfkey => by rw [hunique f hf hfkey], fun a ha => ?_⟩
      rw [holdsFile_iff hdb]
      constructor
      · exact fun hid => ⟨file, hfile, hkey, hid⟩
      · rintro ⟨f, hf, hfkey, hid⟩
        rw [hid, hunique f hf hfkey]
  | none =>
      have hnone : ∀ f ∈ db.fileUploads, f.objectKey ≠ artifactObjectKey dto.projectId dto := by
        intro f hf hfkey
        simpa [hfkey] using List.find?_eq_none.mp hfind f hf
      refine ⟨fun f hf hfkey => absurd hfkey (hnone f hf), fun a ha => ?_⟩
      rw [holdsFile_iff hdb]
      constructor
      · intro hid
        obtain ⟨f, hf, hfid⟩ := hdb.artifactUploads a ha db.nextId hid
        have hfresh := hdb.freshFiles f hf
        omega
      · rintro ⟨f, hf, hfkey, -⟩
        exact absurd hfkey (hnone f hf)

/-- The artifact of a file keeps its release ready. -/
theorem Upserted.ready {dto : SetReleaseArtifactDto} {c : String} {db' : UploadDb}
    (h : Upserted dto c (fileStep env dto db).1 (fileStep env dto db).2 db') (hdb : db.Constraints)
    (htype : dto.type = .file) (hfiles : db'.fileUploads = (fileStep env dto db).2.fileUploads)
    (hready : Ready db c) (hkeeps : KeepsInstallation dto c db ∨ IsTakenElsewhere dto c db) :
    Ready db' c := by
  obtain ⟨-, -, hart, -, huploaded⟩ := fileStep_rows env dto db
  have hstays : ∀ a, FileIsUploaded db a → FileIsUploaded db' a := by
    intro a ha
    unfold FileIsUploaded
    rw [hfiles]
    exact huploaded a ha
  obtain ⟨id, hid, hkey, hholds⟩ := @fileStep_id env db hdb dto htype
  rw [hid] at h
  have hunique : ∀ a ∈ (fileStep env dto db).2.artifacts, ∀ b ∈ (fileStep env dto db).2.artifacts,
      a.fileUploadId = some id → b.fileUploadId = some id → a = b := by
    rw [hart]
    exact fun a ha b hb => hdb.artifactFiles a ha b hb id
  rcases h.file htype hunique with hsame | ⟨hall, row, hrow, hinst, hmem⟩
  · apply hready.mono
    · intro a _
      rw [hsame, hart]
    · exact fun a _ _ ha => hstays a ha
  · simp only [hart] at hall hmem
    rcases hkeeps with (⟨htrue, f, hf, hfkey, hstatus⟩ | ⟨hfalse, a, ha, hof, hnot⟩) |
      ⟨a, ha, hheld, hnot⟩
    · refine ⟨⟨row, (hmem row).mpr (.inr rfl), hrow.1, hinst.trans htrue⟩, fun b hb hbof hbtype => ?_⟩
      rcases (hmem b).mp hb with ⟨hb, -⟩ | rfl
      · exact hstays b (hready.2 b hb hbof hbtype)
      · exact hstays b ⟨f, hf, by rw [hkey f hf hfkey]; exact hrow.2.2, hstatus⟩
    · refine ⟨⟨a, (hmem a).mpr (.inl ⟨ha, fun hfa => hnot ⟨hfa.2.1, ?_⟩⟩), hof⟩,
        fun b hb hbof hbtype => ?_⟩
      · exact (hholds a ha).mp hfa.2.2
      · rcases (hmem b).mp hb with ⟨hb, -⟩ | rfl
        · exact hstays b (hready.2 b hb hbof hbtype)
        · have hno := hbof.2
          rw [hinst, hfalse] at hno
          cases hno
    · have hfa := hall a ha ((hholds a ha).mpr hheld)
      exact absurd ⟨hfa.1, hfa.2.1⟩ hnot

/-- **Main result.** A file artifact starts no refresh of its release; any other does. -/
theorem setReleaseArtifact_settles {dto : SetReleaseArtifactDto} (hdb : db.Constraints)
    (h : db.net.Settled) (hset : ArtifactsSupported env dto db) :
    (setReleaseArtifact env dto db).2.net.Settled := by
  have hstandings := (@SeesStandings.setReleaseArtifact env _ _ standings_sees dto).eq db
  have hdependencies := (@SeesStandings.setReleaseArtifact env _ _ dependencies_sees dto).eq db
  have hways := setReleaseArtifact_set env dto db
  obtain ⟨hstand, hdep, hart, hpending, huploaded⟩ := fileStep_rows env dto db
  generalize (setReleaseArtifact env dto db).2 = db' at hstandings hdependencies hways ⊢
  cases hways with
  | refused => exact h
  | fileOnly r hfind hedit =>
      apply h.mono
      apply outside_of_ready hstand hdep (hpending ▸ List.Subset.refl _)
      intro c _ hready
      apply hready.mono
      · exact fun a _ => by rw [hart]
      · exact fun a _ _ ha => huploaded a ha
  | set r t hfind hedit hups =>
      obtain ⟨hr, hp, hv⟩ := UploadDb.findRelease_some hfind
      obtain ⟨hfiles, hqueue⟩ := hups.rows
      obtain ⟨htart, htfiles, htqueue⟩ := updateTotalSize_rows dto.projectId dto.version t
      set total := updateTotalSize dto.projectId dto.version t with htotal
      set after := if dto.type = .file then total
        else start (.refreshReleaseState dto.projectId dto.version) total with hafter
      have hrows : after.artifacts = t.artifacts ∧ after.fileUploads = t.fileUploads ∧
          db.pending ⊆ after.pending := by
        have hkept : db.pending ⊆ total.pending := by
          rw [htqueue, hqueue, hpending]
          exact List.Subset.refl _
        rw [hafter]
        split
        · exact ⟨htart, htfiles, hkept⟩
        · exact ⟨htart, htfiles, fun x hx => List.mem_append.mpr (.inl (hkept hx))⟩
      have hup : ∀ c, after.net.up c ↔ db.net.up c := by
        intro c
        show IsReleased after c ↔ IsReleased db c
        unfold IsReleased
        rw [hstandings]
      have hout : Net.Outside (· = r.catalogId) db.net after.net := by
        apply outside_of_ready hstandings hdependencies hrows.2.2
        intro c hc hready
        apply hready.mono
        · intro a hof
          rw [hrows.1, hups.other (by rw [hof]; exact hc), hart]
        · intro a _ _ ha
          unfold FileIsUploaded
          rw [hrows.2.1, hfiles]
          exact huploaded a ha
      apply ((h.off _).change hout _).settled
      · rintro c rfl hc
        rw [hup] at hc
        by_cases htype : dto.type = .file
        · apply h.touched hc
          · exact fun y hy => (hup y).mpr hy
          · intro y
            show _ ∈ after.dependencies ↔ _ ∈ db.dependencies
            rw [hdependencies]
          · rintro ⟨x, hx, hkey, hmem⟩
            exact ⟨x, hstandings ▸ hx, hkey, hrows.2.2 hmem⟩
          · have hkeeps := hset r hfind htype ((isReleased_iff hdb hr).mp hc) hedit
            rw [dependenciesReleased_iff hdb, isQueued_iff hdb hr] at hkeeps
            rcases hkeeps with hdeps | hqueued | hkeeps
            · exact .inl hdeps
            · exact .inr (.inl hqueued)
            · refine .inr (.inr fun hready => ?_)
              exact Ready.of_rows (hups.ready hdb htype hfiles hready hkeeps) hrows.1 hrows.2.1
        · right
          refine ⟨r.standing, hstandings ▸ mem_standings hr, rfl, ?_⟩
          rw [hafter, if_neg htype, Release.standing_projectId, Release.standing_version, hp, hv]
          exact List.mem_append.mpr (.inr (List.mem_singleton.mpr rfl))
      · intro y _ hy hdown
        exact absurd ((hup y).mpr hy) hdown

/-! ### Notifications -/

theorem FileSeen.outside {key : Option String} {db' : UploadDb} (h : FileSeen key db db') :
    Net.Outside (fun _ => False) db.net db'.net := by
  apply outside_of_ready h.standings h.dependencies h.pending
  exact fun c _ hready => hready.of_rows h.artifacts h.files

/-- The release of a file is the one whose artifact holds it. -/
theorem releaseOfFile_eq (hdb : db.Constraints) {key : String} {a : ReleaseArtifact}
    (ha : a ∈ db.artifacts) (hheld : holdsFile db key a = true) :
    ∃ r ∈ db.releases, r.catalogId = a.releaseId ∧ releaseOfFile db (some key) = some r := by
  obtain ⟨f, hf, hkey, hfile⟩ := (holdsFile_iff hdb).mp hheld
  have hof : ∀ r : Release, ((db.artifactsOf r.catalogId).any fun b =>
      (db.fileUploadOf b).any fun f => f.objectKey == key) = true ↔ r.catalogId = a.releaseId := by
    intro r
    rw [List.any_eq_true]
    constructor
    · rintro ⟨b, hb, hbheld⟩
      obtain ⟨hb, hrel⟩ := List.mem_filter.mp hb
      obtain ⟨g, hg, hgkey, hgfile⟩ := (holdsFile_iff hdb).mp hbheld
      obtain rfl := hdb.fileObjectKeys.eq_of_mem hg hf (hgkey.trans hkey.symm)
      rw [hdb.artifactFiles a ha b hb g.id hfile hgfile]
      exact (beq_iff_eq.mp hrel).symm
    · intro hrel
      exact ⟨a, List.mem_filter.mpr ⟨ha, by simp [hrel]⟩, hheld⟩
  obtain ⟨r, hr, hrel⟩ := hdb.artifactReleases a ha
  cases hfind : releaseOfFile db (some key) with
  | none => exact absurd ((hof r).mpr hrel) (List.find?_eq_none.mp hfind r hr)
  | some x =>
      have hx : ((db.artifactsOf x.catalogId).any fun b =>
          (db.fileUploadOf b).any fun f => f.objectKey == key) = true := by
        unfold releaseOfFile at hfind
        simpa using List.find?_some hfind
      exact ⟨x, List.mem_of_find?_eq_some hfind, (hof x).mp hx, rfl⟩

/-- A bucket notification of a created or removed object. -/
def IsFileEvent (file : UpdateFileUploadDto) : Prop :=
  file.status = .uploaded ∨ file.status = .removed

instance (file : UpdateFileUploadDto) : Decidable (IsFileEvent file) :=
  inferInstanceAs (Decidable (_ ∨ _))

/-- The row of the object is written, and the listener is told; of an object without a row
nothing is written. -/
theorem updateUploadFile_ends {file : UpdateFileUploadDto} (hevent : IsFileEvent file)
    (db : UploadDb) : (updateUploadFile file db).2 = db ∨
      (updateUploadFile file db).2 = (onFileChange (some file.objectKey) { db with
        fileUploads := Rows.updateWhere (fun f => f.objectKey == file.objectKey) (notified file)
          db.fileUploads }).2 := by
  unfold updateUploadFile
  rw [gets_bind_run]
  cases Rows.findKey FileUpload.objectKey file.objectKey db.fileUploads with
  | none =>
      left
      rcases hevent with hstatus | hstatus <;> rw [hstatus] <;> rfl
  | some f =>
      right
      rcases hevent with hstatus | hstatus <;> rw [hstatus] <;> rfl

/-- **Main result.** A file that came or went belongs to one release, and its refresh is started. -/
theorem updateUploadFile_settles {file : UpdateFileUploadDto} (hdb : db.Constraints)
    (h : db.net.Settled) (hevent : IsFileEvent file) :
    (updateUploadFile file db).2.net.Settled := by
  set told : UploadDb := { db with
    fileUploads := Rows.updateWhere (fun f => f.objectKey == file.objectKey) (notified file)
      db.fileUploads } with htold
  have hends := updateUploadFile_ends hevent db
  rw [← htold] at hends
  rcases hends with hsame | hrun
  · rw [hsame]
    exact h
  · rw [hrun]
    have htoldc : told.Constraints := hdb.updateFiles fun _ => ⟨rfl, rfl⟩
    have hseen := onFileChange_seen (some file.objectKey) told
    set A : String → Prop := fun c => ∃ a ∈ db.artifacts, a.releaseId = c ∧
      holdsFile told file.objectKey a = true with hA
    have hout : Net.Outside A db.net told.net := by
      apply @outside_of_ready db told A rfl rfl (List.Subset.refl _)
      intro c hc hready
      apply hready.mono
      · exact fun _ _ => Iff.rfl
      · intro a ha hof huploaded
        apply huploaded.updateWhere rfl
        · exact fun _ => rfl
        · intro f hf hfile hkey _
          refine absurd ⟨a, ha, hof, (holdsFile_iff htoldc).mpr ⟨notified file f, ?_, ?_, hfile⟩⟩ hc
          · exact Rows.mem_updateWhere.mpr (.inl ⟨f, hf, hkey, rfl⟩)
          · exact beq_iff_eq.mp hkey
    have hstandings : (onFileChange (some file.objectKey) told).2.standings = db.standings :=
      hseen.standings
    have hoff : (onFileChange (some file.objectKey) told).2.net.SettledOff A := by
      apply (h.off A).change (hout.trans (hseen.outside.subset fun _ hno => hno.elim))
      rintro y - ⟨x, hx, hxy⟩ hdown
      exact absurd ⟨x, hstandings ▸ hx, hxy⟩ hdown
    apply hoff.settled
    rintro c ⟨a, ha, rfl, hheld⟩ -
    right
    obtain ⟨r, hr, hrel, hfind⟩ := releaseOfFile_eq htoldc ha hheld
    exact ⟨r.standing, hseen.standings ▸ mem_standings hr, hrel, hseen.started r hfind⟩

theorem processAndSaveFile_settles {objectKey : String} {calculateSha256 : Bool}
    (h : db.net.Settled) : (processAndSaveFile env objectKey calculateSha256 db).2.net.Settled := by
  have hkeeps : Keeps (fun s : UploadDb => s.net.Settled)
      (processAndSaveFile env objectKey calculateSha256) := by
    refine Keeps.bind (Keeps.gets _) fun found => ?_
    cases found with
    | none => exact Keeps.pure _
    | some file =>
        refine Keeps.bind (Keeps.gets _) fun stat => ?_
        cases stat with
        | none => exact Keeps.throw _
        | some stored =>
            refine Keeps.bind (Keeps.modify fun s hs => ?_) fun _ => Keeps.when fun s hs => ?_
            · apply hs.mono
              apply @outside_of_ready s (updateFileUpload file.id (processed calculateSha256 stored) s)
                _ rfl rfl (List.Subset.refl _)
              intro c _ hready
              apply hready.mono
              · exact fun _ _ => Iff.rfl
              · intro a _ _ huploaded
                apply huploaded.updateWhere rfl
                · exact fun _ => rfl
                · exact fun _ _ _ _ hf => hf
            · exact hs.mono (onFileChange_seen _ s).outside
  exact hkeeps db h

end UploadService
