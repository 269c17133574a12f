import UploadService.Release.Interleaving

/-!
# Terminal statuses under interleaving

`ARCHIVED` and `ERROR` are terminal for a refresh: it skips a release that it reads in
one of them. Between the reading and the write others may have archived or demoted the
release. The demoting updates of a refresh repeat the status they expect; the promoting
update does not.

Main results:

- `terminal_kept_along_runs`: in every run where no release becomes terminal while a
  refresh that read it in review may still promote it, no write of a refresh changes a
  terminal status;
- `promotion_over_archive`: otherwise an archived release comes back as released.
-/

namespace UploadService

open ReleaseService FileUploadService RegulationStatusService

variable {env : UploadEnv}

/-! ### What a run may do -/

/-- The refresh read the release in review, with dependencies that are released or with
installation artifacts. -/
def couldPromote (loaded : LoadedRelease) : Bool :=
  loaded.release.status == .inReview &&
    (dependenciesReleased loaded || !(installationArtifacts loaded).isEmpty)

/-- What the refresh has read so far leaves the promotion open. -/
def RefreshPhase.mayPromote : RefreshPhase → Bool
  | readRegulations loaded | readStatuses loaded _ => couldPromote loaded
  | writeCounts loaded regulations statuses =>
      couldPromote loaded && regulations.all (isCompliantWith statuses)
  | readFiles loaded compliant | checkFile loaded compliant _ _ | flagFile loaded compliant _ _
  | readUploaded loaded compliant _ => couldPromote loaded && compliant
  | writeStatus loaded verdict => decideStatus loaded.release.status verdict == some .released
  | readRelease | updateLatest | finished => false

/-- The next statement of the refresh writes the status over the row. -/
def Refresh.writes (refresh : Refresh) (status : ReleaseStatus) (r : Release) : Bool :=
  match refresh.phase with
  | .writeStatus loaded verdict =>
      decideStatus loaded.release.status verdict == some status &&
        statusTarget refresh.projectId refresh.version status r
  | _ => false

/-- The step sets the status of the row to `ARCHIVED` or to `ERROR`. -/
def World.terminates (s : World) (r : Release) : WorldEvent → Bool
  | .archiveProjectReleases projectId => r.projectId == projectId
  | .stepRefresh i => (s.refreshes[i]?).any fun refresh => refresh.writes .error r
  | .stepArchiving i => (s.archivings[i]?).any fun archiving => match archiving.phase with
    | .save false row _ => r.catalogId == row.catalogId
    | _ => false
  | .stepSync i => (s.syncs[i]?).any fun phase => match phase with
    | .demote a _ _ _ => r.catalogId == a.release.catalogId
    | _ => false
  | _ => false

/-- No release becomes terminal while a refresh of it may still promote it. -/
def Undisturbed (s : World) (e : WorldEvent) : Prop :=
  ∀ r ∈ s.db.releases, s.terminates r e = true → ∀ refresh ∈ s.refreshes,
    refresh.phase.mayPromote = true → UploadDb.isRelease refresh.projectId refresh.version r = false

instance (s : World) (e : WorldEvent) : Decidable (Undisturbed s e) :=
  inferInstanceAs (Decidable (∀ r ∈ s.db.releases, s.terminates r e = true → ∀ refresh ∈ s.refreshes,
    refresh.phase.mayPromote = true →
      UploadDb.isRelease refresh.projectId refresh.version r = false))

/-- A write that a refresh issues changes no terminal status. -/
def TerminalKept (env : UploadEnv) (s : World) (e : WorldEvent) : Prop :=
  ∀ i, e = .stepRefresh i → List.Forall₂
    (fun r r' => r'.catalogId = r.catalogId ∧
      (isTerminal r.status = true → r'.status = r.status))
    s.db.releases (s.step env e).db.releases

/-! ### Rows before and after a step -/

/-- The row keeps its keys, and becomes terminal only where `t` says so. -/
def StatusStep (t : Release → Bool) (r r' : Release) : Prop :=
  r'.catalogId = r.catalogId ∧ r'.projectId = r.projectId ∧ r'.version = r.version ∧
    (isTerminal r'.status = true → isTerminal r.status = true ∨ t r = true)

theorem StatusStep.refl (t : Release → Bool) (r : Release) : StatusStep t r r :=
  ⟨rfl, rfl, rfl, .inl⟩

/-- The row keeps its keys and its status. -/
def SameStatus (r r' : Release) : Prop :=
  r'.catalogId = r.catalogId ∧ r'.projectId = r.projectId ∧ r'.version = r.version ∧
    r'.status = r.status

theorem SameStatus.statusStep {t : Release → Bool} {r r' : Release} (h : SameStatus r r') :
    StatusStep t r r' := by
  obtain ⟨h₁, h₂, h₃, h₄⟩ := h
  exact ⟨h₁, h₂, h₃, fun hterminal => .inl (h₄ ▸ hterminal)⟩

/-- A write that leaves the keys and the status of every row. -/
theorem sameStatus_updateReleases {q : Release → Bool} {f : Release → Release} (db : UploadDb)
    (hf : ∀ r, SameStatus r (f r)) :
    List.Forall₂ SameStatus db.releases (updateReleases q f db).releases :=
  Rows.forall₂_updateWhere db.releases (fun r _ _ => hf r) fun _ => ⟨rfl, rfl, rfl, rfl⟩

theorem sameStatus_of_eq {db db' : UploadDb} (h : db'.releases = db.releases) :
    List.Forall₂ SameStatus db.releases db'.releases := by
  rw [h]
  exact List.forall₂_same.mpr fun r _ => ⟨rfl, rfl, rfl, rfl⟩

/-- The write of a status that a refresh has decided on. -/
theorem forall₂_writeStatus {t : Release → Bool} (p : ℕ) (v : String) (status : ReleaseStatus)
    (hne : status ≠ .archived)
    (ht : ∀ r, status = .error → statusTarget p v status r = true → t r = true) (db : UploadDb) :
    List.Forall₂ (StatusStep t) db.releases (writeStatus p v status db).releases := by
  have hdemote : ∀ status, status ≠ .archived →
      (∀ r, status = .error → statusTarget p v status r = true → t r = true) →
      List.Forall₂ (StatusStep t) db.releases (demote p v status db).releases := by
    intro status hne ht
    apply Rows.forall₂_updateWhere
    · intro r _ hq
      refine ⟨rfl, rfl, rfl, fun h => .inr ?_⟩
      have herror : status = .error := by
        simp only [isTerminal, Bool.or_eq_true, beq_iff_eq] at h
        exact h.resolve_right hne
      apply ht r herror
      simp only [Bool.and_eq_true, beq_iff_eq] at hq
      simp [statusTarget, hq.1, hq.2]
    · exact StatusStep.refl t
  cases status with
  | released =>
      apply Rows.forall₂_updateWhere
      · exact fun r _ _ => ⟨rfl, rfl, rfl, fun h => by simp [isTerminal] at h⟩
      · exact StatusStep.refl t
  | draft | inReview | approved | archived | error => exact hdemote _ hne ht

/-- A refresh decides on `RELEASED`, `IN_REVIEW` or `ERROR`. -/
theorem decideStatus_some {read status : ReleaseStatus} {v : Verdict}
    (h : decideStatus read v = some status) :
    (status = .released ∧ read = .inReview) ∨
      ((status = .error ∨ status = .inReview) ∧ read = .released) := by
  unfold decideStatus at h
  split at h
  · rename_i hcond
    simp only [Bool.and_eq_true, beq_iff_eq] at hcond
    right
    split at h
    · exact ⟨.inl (Option.some.inj h).symm, hcond.2⟩
    · exact ⟨.inr (Option.some.inj h).symm, hcond.2⟩
  · split at h
    · rename_i hcond
      simp only [Bool.and_eq_true, beq_iff_eq] at hcond
      exact .inl ⟨(Option.some.inj h).symm, hcond.2⟩
    · cases h

/-- What one statement of a refresh does to the releases: nothing to their status, or the
write of the status it decided on. -/
theorem Refresh.stepPhase_releases (p : ℕ) (v : String) (db : UploadDb) (phase : RefreshPhase) :
    List.Forall₂ SameStatus db.releases (Refresh.stepPhase env p v db phase).2.releases ∨
    ∃ loaded verdict status, phase = .writeStatus loaded verdict ∧
      decideStatus loaded.release.status verdict = some status ∧
      (Refresh.stepPhase env p v db phase).2.releases = (writeStatus p v status db).releases := by
  cases phase with
  | readRelease =>
      refine .inl (sameStatus_of_eq ?_)
      simp only [Refresh.stepPhase]
      split
      · rfl
      · split <;> rfl
  | readRegulations loaded | readStatuses loaded regulations | readFiles loaded compliant
  | readUploaded loaded compliant missing | finished => exact .inl (sameStatus_of_eq rfl)
  | writeCounts loaded regulations statuses =>
      left
      show List.Forall₂ SameStatus db.releases (updateRegulationCounts p v _ _ db).releases
      exact sameStatus_updateReleases db fun r => ⟨rfl, rfl, rfl, rfl⟩
  | checkFile loaded compliant missing todo =>
      refine .inl (sameStatus_of_eq ?_)
      cases todo with
      | nil => rfl
      | cons file todo =>
          simp only [Refresh.stepPhase]
          split
          · rfl
          · split <;> rfl
  | flagFile loaded compliant file todo => exact .inl (sameStatus_of_eq rfl)
  | writeStatus loaded verdict =>
      cases hdecide : decideStatus loaded.release.status verdict with
      | none =>
          refine .inl (sameStatus_of_eq ?_)
          simp only [Refresh.stepPhase, hdecide]
      | some status =>
          by_cases hany : db.releases.any (statusTarget p v status) = true
          · refine .inr ⟨loaded, verdict, status, rfl, hdecide, ?_⟩
            simp only [Refresh.stepPhase, hdecide, hany, if_true]
            rfl
          · refine .inl (sameStatus_of_eq ?_)
            simp only [Refresh.stepPhase, hdecide, hany, Bool.false_eq_true, if_false]
  | updateLatest =>
      left
      show List.Forall₂ SameStatus db.releases (updateLatestForProject p db).releases
      exact sameStatus_updateReleases db fun r => ⟨rfl, rfl, rfl, rfl⟩

/-! ### Each event on the releases -/

/-- The releases after a step: the rows before, step by step, and perhaps a new one under
a key of its own. -/
def ReleasesStep (t : Release → Bool) (db db' : UploadDb) : Prop :=
  ∃ extra : Option Release,
    (∀ x ∈ extra, ∀ r ∈ db.releases, (r.projectId, r.version) ≠ (x.projectId, x.version)) ∧
    List.Forall₂ (StatusStep t) (db.releases ++ extra.toList) db'.releases

theorem ReleasesStep.of_rows {t : Release → Bool} {db db' : UploadDb}
    (h : List.Forall₂ (StatusStep t) db.releases db'.releases) : ReleasesStep t db db' :=
  ⟨none, fun x hx => absurd hx (by simp), by simpa using h⟩

theorem ReleasesStep.of_sameStatus {t : Release → Bool} {db db' : UploadDb}
    (h : List.Forall₂ SameStatus db.releases db'.releases) : ReleasesStep t db db' :=
  .of_rows (h.imp fun _ _ hrow => hrow.statusStep)

theorem ReleasesStep.of_eq {t : Release → Bool} {db db' : UploadDb}
    (h : db'.releases = db.releases) : ReleasesStep t db db' :=
  .of_sameStatus (sameStatus_of_eq h)

theorem Refresh.step_releases (refresh : Refresh) (db : UploadDb) :
    List.Forall₂ (StatusStep (refresh.writes .error)) db.releases
      (refresh.step env db).2.releases := by
  rcases @Refresh.stepPhase_releases env refresh.projectId refresh.version db refresh.phase
    with h | ⟨loaded, verdict, status, hphase, hdecide, hrows⟩
  · exact h.imp fun _ _ hrow => hrow.statusStep
  · have hne : status ≠ .archived := by
      rcases decideStatus_some hdecide with ⟨rfl, -⟩ | ⟨rfl | rfl, -⟩ <;> simp
    show List.Forall₂ _ db.releases (Refresh.stepPhase env _ _ db refresh.phase).2.releases
    rw [hrows]
    apply forall₂_writeStatus _ _ _ hne
    intro r herror htarget
    subst herror
    simp [Refresh.writes, hphase, hdecide, htarget]

/-- An insert moves rows in the sort order only. -/
theorem sameStatus_afterInsert (semver : SemverLib) (row : Release) (rows : List Release) :
    List.Forall₂ SameStatus rows (ReleaseSubscriber.afterInsert semver row rows) := by
  have hmap : ∀ f : Release → Release, (∀ r, SameStatus r (f r)) →
      List.Forall₂ SameStatus rows (rows.map f) := by
    intro f hf
    rw [List.forall₂_map_right_iff, List.forall₂_same]
    exact fun r _ => hf r
  simp only [ReleaseSubscriber.afterInsert]
  split
  · simp only [ReleaseSubscriber.shiftSortOrder, Rows.updateWhere, List.map_map]
    apply hmap
    intro r
    simp only [Function.comp]
    split <;> split <;> exact ⟨rfl, rfl, rfl, rfl⟩
  · exact List.forall₂_same.mpr fun r _ => ⟨rfl, rfl, rfl, rfl⟩

theorem sameStatus_updateTotalSize (p : ℕ) (v : String) (db : UploadDb) :
    List.Forall₂ SameStatus db.releases (updateTotalSize p v db).releases := by
  unfold updateTotalSize
  split
  · exact sameStatus_of_eq rfl
  · exact sameStatus_updateReleases db fun r => ⟨rfl, rfl, rfl, rfl⟩

theorem sameStatus_saveRelations (dto : SetReleaseDto) (isNew : Bool)
    (dependencies : Option (List Release)) (catalogId : String) (db : UploadDb) :
    List.Forall₂ SameStatus db.releases
      (saveRelations dto isNew dependencies catalogId db).2.releases := by
  have hlink : ∀ s : UploadDb, (linkDefaultRuleToRelease catalogId s).releases = s.releases := by
    intro s
    unfold linkDefaultRuleToRelease
    split <;> rfl
  have hupdate : ∀ s : UploadDb, s.releases = db.releases →
      List.Forall₂ SameStatus db.releases
        (updateTotalSize dto.projectId dto.version s).releases := by
    intro s hs
    rw [← hs]
    exact sameStatus_updateTotalSize _ _ s
  unfold saveRelations
  rw [Prog.modify_bind_run]
  cases isNew with
  | true =>
      apply hupdate
      rw [hlink]
      cases dependencies <;> rfl
  | false =>
      apply hupdate
      cases dependencies <;> rfl

theorem Archiving.step_releases (archiving : Archiving) (db : UploadDb) :
    ReleasesStep (fun r => match archiving.phase with
      | .save false row _ => r.catalogId == row.catalogId
      | _ => false) db (archiving.step env db).2 := by
  obtain ⟨dto, phase⟩ := archiving
  cases phase with
  | readRelease =>
      apply ReleasesStep.of_eq
      simp only [Archiving.step, Archiving.stepPhase]
      split <;> rfl
  | countRegulations existing projectName | finished => exact .of_eq rfl
  | findDependencies existing projectName required =>
      apply ReleasesStep.of_eq
      simp only [Archiving.step, Archiving.stepPhase]
      split <;> rfl
  | save isNew row dependencies =>
      cases isNew with
      | false =>
          apply ReleasesStep.of_rows
          apply Rows.forall₂_updateWhere
          · exact fun r _ hq => ⟨rfl, rfl, rfl, fun _ => .inr hq⟩
          · exact StatusStep.refl _
      | true =>
          simp only [Archiving.step, Archiving.stepPhase]
          cases hins : insertRelease env.semver db.projects row db.releases with
          | none => exact .of_eq rfl
          | some inserted =>
              obtain ⟨inserted, releases⟩ := inserted
              obtain ⟨-, -, hrows⟩ := insertRelease_some hins
              refine ⟨some inserted, fun x hx => ?_, ?_⟩
              · rw [← Option.some.inj hx]
                exact insertRelease_fresh hins
              · show List.Forall₂ _ (db.releases ++ [inserted]) releases
                rw [hrows]
                exact (sameStatus_afterInsert _ _ _).imp fun _ _ h => h.statusStep
  | saveRelations isNew dependencies catalogId =>
      exact .of_sameStatus (sameStatus_saveRelations _ _ _ _ db)
  | updateLatest => exact .of_sameStatus (sameStatus_updateReleases db fun r => ⟨rfl, rfl, rfl, rfl⟩)

theorem SyncPhase.step_releases (phase : SyncPhase) (db : UploadDb) :
    List.Forall₂ (StatusStep fun r => match phase with
      | .demote a _ _ _ => r.catalogId == a.release.catalogId
      | _ => false) db.releases (phase.step env db).2.releases := by
  cases phase with
  | readArtifacts | finished => exact (sameStatus_of_eq rfl).imp fun _ _ h => h.statusStep
  | flagFile a batch recheck later | clearFile a batch recheck later
  | readFiles release recheck later => exact (sameStatus_of_eq rfl).imp fun _ _ h => h.statusStep
  | check batch recheck later =>
      refine (sameStatus_of_eq ?_).imp fun _ _ h => h.statusStep
      cases batch with
      | nil => rfl
      | cons a batch =>
          simp only [SyncPhase.step]
          split
          · split <;> rfl
          · split <;> rfl
  | readRelease recheck later =>
      refine (sameStatus_of_eq ?_).imp fun _ _ h => h.statusStep
      cases recheck with
      | nil => rfl
      | cons catalogId recheck =>
          simp only [SyncPhase.step]
          split
          · rfl
          · split <;> rfl
  | demote a batch recheck later =>
      apply Rows.forall₂_updateWhere
      · exact fun r _ hq => ⟨rfl, rfl, rfl, fun _ => .inr hq⟩
      · exact StatusStep.refl _
  | restore catalogId recheck later =>
      apply Rows.forall₂_updateWhere
      · exact fun r _ _ => ⟨rfl, rfl, rfl, fun h => by simp [isTerminal] at h⟩
      · exact StatusStep.refl _

/-! ### What a refresh that may promote knows -/

/-- A refresh that may promote had that open a statement earlier, or has just read a release
that is not terminal. -/
theorem Refresh.mayPromote_step {refresh : Refresh} {db : UploadDb}
    (h : (refresh.step env db).1.phase.mayPromote = true) :
    refresh.phase.mayPromote = true ∨
      ∃ r, db.findRelease refresh.projectId refresh.version = some r ∧
        isTerminal r.status = false ∧ (refresh.step env db).2 = db := by
  obtain ⟨p, v, phase⟩ := refresh
  cases phase with
  | readRelease =>
      right
      cases hload : db.getReleaseEntity p v with
      | none => simp [Refresh.step, Refresh.stepPhase, hload, RefreshPhase.mayPromote] at h
      | some loaded =>
          obtain ⟨hfind, -⟩ := UploadDb.getReleaseEntity_some hload
          by_cases hterminal : isTerminal loaded.release.status = true
          · simp [Refresh.step, Refresh.stepPhase, hload, hterminal, RefreshPhase.mayPromote] at h
          · refine ⟨loaded.release, hfind, by simpa using hterminal, ?_⟩
            simp [Refresh.step, Refresh.stepPhase, hload, hterminal]
  | readRegulations loaded => exact .inl h
  | readStatuses loaded regulations =>
      left
      simp only [Refresh.step, Refresh.stepPhase, RefreshPhase.mayPromote, Bool.and_eq_true] at h ⊢
      exact h.1
  | writeCounts loaded regulations statuses => exact .inl h
  | readFiles loaded compliant => exact .inl h
  | checkFile loaded compliant missing todo =>
      left
      cases todo with
      | nil => exact h
      | cons file todo =>
          simp only [Refresh.step, Refresh.stepPhase] at h
          split at h
          · exact h
          · split at h <;> exact h
  | flagFile loaded compliant file todo => exact .inl h
  | readUploaded loaded compliant missing =>
      left
      simp only [Refresh.step, Refresh.stepPhase, RefreshPhase.mayPromote, beq_iff_eq] at h
      simp only [RefreshPhase.mayPromote, couldPromote]
      unfold decideStatus at h
      split at h
      · split at h <;> cases h
      · split at h
        · rename_i hpass
          simp only [Verdict.passes, Bool.and_eq_true, Bool.or_eq_true, beq_iff_eq] at hpass
          obtain ⟨⟨hcompliant, hready⟩, hreview⟩ := hpass
          have hinstallation : dependenciesReleased loaded = true ∨
              (installationArtifacts loaded).isEmpty = false := by
            rcases hready with hdeps | hfiles
            · exact .inl hdeps
            · unfold fileUploaded at hfiles
              simp only [Bool.and_eq_true, Bool.not_eq_true'] at hfiles
              exact .inr hfiles.1
          rcases hinstallation with hdeps | hinst <;> simp_all
        · cases h
  | writeStatus loaded verdict =>
      simp only [Refresh.step, Refresh.stepPhase] at h
      split at h
      · cases h
      · split at h <;> cases h
  | updateLatest => cases h
  | finished => cases h

/-- A row under the key of every refresh that may promote, and none that is terminal. -/
structure WorldInv (s : World) : Prop where
  versions : Rows.KeysDistinct (fun r : Release => (r.projectId, r.version)) s.db.releases
  found : ∀ refresh ∈ s.refreshes, refresh.phase.mayPromote = true →
    ∃ r ∈ s.db.releases, UploadDb.isRelease refresh.projectId refresh.version r = true
  notTerminal : ∀ refresh ∈ s.refreshes, refresh.phase.mayPromote = true →
    ∀ r ∈ s.db.releases, UploadDb.isRelease refresh.projectId refresh.version r = true →
      isTerminal r.status = false

/-- The invariant for the rows after a step and the refreshes from before. -/
theorem WorldInv.releasesStep {s : World} (h : WorldInv s) {t : Release → Bool} {db' : UploadDb}
    (hstep : ReleasesStep t s.db db')
    (hquiet : ∀ r ∈ s.db.releases, t r = true → ∀ refresh ∈ s.refreshes,
      refresh.phase.mayPromote = true →
        UploadDb.isRelease refresh.projectId refresh.version r = false) :
    WorldInv { s with db := db' } := by
  obtain ⟨extra, hfresh, hrows⟩ := hstep
  have hkeys : db'.releases.map (fun r => (r.projectId, r.version)) =
      (s.db.releases ++ extra.toList).map fun r => (r.projectId, r.version) := by
    apply Rows.map_eq_of_forall₂ hrows
    intro r r' hrow
    rw [hrow.2.1, hrow.2.2.1]
  refine ⟨?_, ?_, ?_⟩
  · unfold Rows.KeysDistinct
    rw [hkeys]
    cases extra with
    | none => simpa [Rows.KeysDistinct] using h.versions
    | some x => exact h.versions.append_new (hfresh x rfl)
  · intro refresh hmem hmay
    obtain ⟨r, hr, hkey⟩ := h.found refresh hmem hmay
    obtain ⟨r', hr', -, hp, hv, -⟩ :=
      Rows.exists_right_of_forall₂ hrows (List.mem_append_left extra.toList hr)
    refine ⟨r', hr', ?_⟩
    unfold UploadDb.isRelease
    rw [hp, hv]
    exact hkey
  · intro refresh hmem hmay r' hr' hkey
    obtain ⟨r, hr, -, hp, hv, hterminal⟩ := Rows.exists_left_of_forall₂ hrows hr'
    have hkey' : UploadDb.isRelease refresh.projectId refresh.version r = true := by
      unfold UploadDb.isRelease at hkey ⊢
      rw [← hp, ← hv]
      exact hkey
    rcases List.mem_append.mp hr with hr | hr
    · by_contra hyes
      rcases hterminal (by simpa using hyes) with hold | ht
      · rw [h.notTerminal refresh hmem hmay r hr hkey'] at hold
        cases hold
      · rw [hquiet r hr ht refresh hmem hmay] at hkey'
        cases hkey'
    · -- a new row cannot have the key of the release that was read
      obtain ⟨x, hx, hxkey⟩ := h.found refresh hmem hmay
      have hextra : r ∈ extra := by simpa using hr
      simp only [UploadDb.isRelease, Bool.and_eq_true, beq_iff_eq] at hkey' hxkey
      exact absurd (by rw [hkey'.1, hkey'.2, hxkey.1, hxkey.2]) (hfresh r hextra x hx)

/-- The invariant where one refresh is replaced by another, which may promote only if a
refresh of the same release could, or if the release is there and not terminal. -/
theorem WorldInv.set {s : World} (h : WorldInv s) {i : ℕ} {x : Refresh}
    (hx : x.phase.mayPromote = true →
      (∃ y ∈ s.refreshes, y.projectId = x.projectId ∧ y.version = x.version ∧
        y.phase.mayPromote = true) ∨
      ∃ r ∈ s.db.releases, UploadDb.isRelease x.projectId x.version r = true ∧
        isTerminal r.status = false) :
    WorldInv { s with refreshes := s.refreshes.set i x } := by
  refine ⟨h.versions, ?_, ?_⟩
  · intro refresh hmem hmay
    rcases List.mem_or_eq_of_mem_set hmem with hold | rfl
    · exact h.found refresh hold hmay
    · rcases hx hmay with ⟨y, hy, hp, hv, hymay⟩ | ⟨r, hr, hkey, -⟩
      · rw [← hp, ← hv]
        exact h.found y hy hymay
      · exact ⟨r, hr, hkey⟩
  · intro refresh hmem hmay r hr hkey
    rcases List.mem_or_eq_of_mem_set hmem with hold | rfl
    · exact h.notTerminal refresh hold hmay r hr hkey
    · rcases hx hmay with ⟨y, hy, hp, hv, hymay⟩ | ⟨x, hxmem, hxkey, hterminal⟩
      · rw [← hp, ← hv] at hkey
        exact h.notTerminal y hy hymay r hr hkey
      · simp only [UploadDb.isRelease, Bool.and_eq_true, beq_iff_eq] at hkey hxkey
        have heq : r = x :=
          h.versions.eq_of_mem hr hxmem (by rw [hkey.1, hkey.2, hxkey.1, hxkey.2])
        rw [heq]
        exact hterminal

/-! ### The invariant along a run -/

theorem worldInv_stepRefresh {s : World} (h : WorldInv s) (i : ℕ)
    (hquiet : Undisturbed s (.stepRefresh i)) : WorldInv (s.stepRefresh env i) := by
  unfold World.stepRefresh
  cases hget : s.refreshes[i]? with
  | none => exact h
  | some refresh =>
      have hmem : refresh ∈ s.refreshes := List.mem_of_getElem? hget
      have hrows : WorldInv { s with db := (refresh.step env s.db).2 } := by
        apply h.releasesStep (.of_rows (refresh.step_releases s.db))
        intro r hr hwrites
        apply hquiet r hr
        show ((s.refreshes[i]?).any fun refresh => refresh.writes .error r) = true
        rw [hget]
        exact hwrites
      show WorldInv { s with
        db := (refresh.step env s.db).2
        refreshes := s.refreshes.set i (refresh.step env s.db).1 }
      apply hrows.set
      intro hmay
      rcases Refresh.mayPromote_step hmay with hbefore | ⟨r, hfind, hterminal, hsame⟩
      · exact .inl ⟨refresh, hmem, rfl, rfl, hbefore⟩
      · -- the release was read by this very statement, which wrote nothing
        right
        obtain ⟨hr, hp, hv⟩ := UploadDb.findRelease_some hfind
        refine ⟨r, by rw [hsame]; exact hr, ?_, hterminal⟩
        show (r.projectId == refresh.projectId && r.version == refresh.version) = true
        rw [hp, hv]
        simp

theorem worldInv_step {s : World} {e : WorldEvent} (h : WorldInv s) (hquiet : Undisturbed s e) :
    WorldInv (s.step env e) := by
  cases e with
  | refreshReleaseState projectId version =>
      have hold : ∀ refresh ∈ s.refreshes ++ [⟨projectId, version, .readRelease⟩],
          refresh.phase.mayPromote = true → refresh ∈ s.refreshes := by
        intro refresh hmem hmay
        rcases List.mem_append.mp hmem with hmem | hmem
        · exact hmem
        · rw [List.mem_singleton.mp hmem] at hmay
          cases hmay
      exact ⟨h.versions, fun refresh hmem hmay => h.found refresh (hold refresh hmem hmay) hmay,
        fun refresh hmem hmay => h.notTerminal refresh (hold refresh hmem hmay) hmay⟩
  | archiveProjectReleases projectId =>
      apply h.releasesStep (t := fun r => r.projectId == projectId) (.of_rows ?_)
      · exact fun r hr ht => hquiet r hr ht
      · apply Rows.forall₂_updateWhere
        · exact fun r _ hq => ⟨rfl, rfl, rfl, fun _ => .inr (by simp_all)⟩
        · exact StatusStep.refl _
  | setRelease dto => exact ⟨h.versions, h.found, h.notTerminal⟩
  | syncArtifactsStorageStatus => exact ⟨h.versions, h.found, h.notTerminal⟩
  | stepRefresh i => exact worldInv_stepRefresh h i hquiet
  | stepArchiving i =>
      show WorldInv (s.stepArchiving env i)
      unfold World.stepArchiving
      cases hget : s.archivings[i]? with
      | none => exact h
      | some archiving =>
          have hrows := h.releasesStep (@Archiving.step_releases env archiving s.db) fun r hr ht =>
            hquiet r hr (by
              show ((s.archivings[i]?).any _) = true
              rw [hget]
              exact ht)
          exact ⟨hrows.versions, hrows.found, hrows.notTerminal⟩
  | stepSync i =>
      show WorldInv (s.stepSync env i)
      unfold World.stepSync
      cases hget : s.syncs[i]? with
      | none => exact h
      | some phase =>
          have hrows := h.releasesStep (.of_rows (@SyncPhase.step_releases env phase s.db))
            fun r hr ht => hquiet r hr (by
              show ((s.syncs[i]?).any _) = true
              rw [hget]
              exact ht)
          exact ⟨hrows.versions, hrows.found, hrows.notTerminal⟩

/-! ### Terminal statuses -/

/-- The write of a refresh changes no terminal status, where the release it promotes is
not terminal. -/
theorem terminalKept_of_worldInv {s : World} {e : WorldEvent} (h : WorldInv s) :
    TerminalKept env s e := by
  intro i he
  subst he
  have hrefl : ∀ r : Release, r.catalogId = r.catalogId ∧
      (isTerminal r.status = true → r.status = r.status) := fun r => ⟨rfl, fun _ => rfl⟩
  show List.Forall₂ _ s.db.releases (s.stepRefresh env i).db.releases
  unfold World.stepRefresh
  cases hget : s.refreshes[i]? with
  | none => exact List.forall₂_same.mpr fun r _ => hrefl r
  | some refresh =>
      have hmem : refresh ∈ s.refreshes := List.mem_of_getElem? hget
      show List.Forall₂ _ s.db.releases (refresh.step env s.db).2.releases
      rcases @Refresh.stepPhase_releases env refresh.projectId refresh.version s.db
        refresh.phase with hsame | ⟨loaded, verdict, status, hphase, hdecide, hrows⟩
      · exact hsame.imp fun _ _ hrow => ⟨hrow.1, fun _ => hrow.2.2.2⟩
      · show List.Forall₂ _ s.db.releases
          (Refresh.stepPhase env refresh.projectId refresh.version s.db refresh.phase).2.releases
        rw [hrows]
        have hdemote : ∀ status, List.Forall₂
            (fun r r' : Release => r'.catalogId = r.catalogId ∧
              (isTerminal r.status = true → r'.status = r.status)) s.db.releases
            (demote refresh.projectId refresh.version status s.db).releases := by
          intro status
          apply Rows.forall₂_updateWhere
          · intro r _ hq
            simp only [Bool.and_eq_true, beq_iff_eq] at hq
            exact ⟨rfl, fun hterminal => by simp [isTerminal, hq.2] at hterminal⟩
          · exact hrefl
        cases status with
        | released =>
            apply Rows.forall₂_updateWhere
            · intro r hr hq
              have hmay : refresh.phase.mayPromote = true := by
                rw [hphase]
                show (decideStatus loaded.release.status verdict == some .released) = true
                rw [hdecide]
                rfl
              have hno := h.notTerminal refresh hmem hmay r hr hq
              exact ⟨rfl, fun hterminal => by rw [hno] at hterminal; cases hterminal⟩
            · exact hrefl
        | draft | inReview | approved | archived | error => exact hdemote _

/-- **Main result.** In every run of refreshes, archivings and passes over the storage,
statement by statement in any order, in which no release becomes terminal while a refresh
that read it in review may still promote it: what a refresh writes changes no terminal
status. -/
theorem terminal_kept_along_runs (env : UploadEnv) (db : UploadDb) (es : List WorldEvent)
    (hdb : Rows.KeysDistinct (fun r : Release => (r.projectId, r.version)) db.releases)
    (h : Runs.Along (World.step env) Undisturbed (World.start db) es) :
    Runs.Along (World.step env) (TerminalKept env) (World.start db) es := by
  have hstart : WorldInv (World.start db) :=
    ⟨hdb, by simp [World.start], by simp [World.start]⟩
  exact Runs.along_of_invariant (I := WorldInv) (fun s e hs hC => worldInv_step hs hC)
    (fun s e hs _ => terminalKept_of_worldInv hs) hstart h

/-! ### An archived release that comes back -/

/-- A refresh of the release of the first project, up to the write of its status. -/
def refreshUpToWrite : List WorldEvent :=
  .refreshReleaseState 1 "1.0" :: List.replicate 7 (.stepRefresh 0)

/-- A refresh on its own, and the project archived afterwards. -/
theorem terminal_kept_after_refresh :
    Runs.Along (World.step plainUploadEnv) (TerminalKept plainUploadEnv)
      (World.start (releaseWithImage .inReview))
      (refreshUpToWrite ++ [.stepRefresh 0, .stepRefresh 0, .archiveProjectReleases 1]) := by
  apply terminal_kept_along_runs
  · decide
  · decide

/-- The project is archived between the reading of the release and the promotion. -/
theorem promotion_over_archive :
    let s := Runs.run (World.step plainUploadEnv) (World.start (releaseWithImage .inReview))
      (refreshUpToWrite ++ [.archiveProjectReleases 1])
    s.db.releases.map (·.status) = [.archived] ∧
    (s.step plainUploadEnv (.stepRefresh 0)).db.releases.map (·.status) = [.released] ∧
    ¬ TerminalKept plainUploadEnv s (.stepRefresh 0) := by
  refine ⟨by decide, by decide, ?_⟩
  intro h
  have hrow := h 0 rfl
  have hfirst := (List.forall₂_iff_get.mp hrow).2 0 (by decide) (by decide)
  revert hfirst
  decide

end UploadService
