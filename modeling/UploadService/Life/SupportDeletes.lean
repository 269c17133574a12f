import UploadService.Life.SupportWrites

/-!
# Deleting the releases of a project

`deleteProjectReleases` takes the dependencies on the project away and deletes its releases
one by one. Nothing is refreshed: what depended on the project must be ready, looked at again,
or depend on something else. The statuses of a release are deleted by the names they are shown
under; a status that answers to the name of another can survive that, and then the release
stays, without its artifacts.

Main results:

- `deleteStatuses_clears`: with unambiguous names all statuses of a release go;
- `deleteProjectReleases_settles`: the delete of a project.
-/

namespace UploadService

open Prog ReleaseService FileUploadService RegulationStatusService

variable {env : UploadEnv} {db : UploadDb}

/-! ### Statuses by their names -/

/-- A status of the release that answers to the name of another is shown under that name. -/
def StatusesNamed (db : UploadDb) (c : String) : Prop :=
  ∀ s ∈ db.regulationStatuses, ∀ t ∈ db.regulationStatuses, s.versionId = c → t.versionId = c →
    isNamed db (toDto db s).regulation t = true → (toDto db t).regulation = (toDto db s).regulation

theorem isStatusOf_iff (hdb : db.Constraints) {p : ℕ} {v : String} {r : Release}
    (hfind : db.findRelease p v = some r) (s : RegulationStatus) :
    isStatusOf db p v s = true ↔ s.versionId = r.catalogId := by
  obtain ⟨hr, hp, hv⟩ := UploadDb.findRelease_some hfind
  unfold isStatusOf
  rw [List.any_eq_true]
  constructor
  · rintro ⟨x, hx, hof⟩
    simp only [UploadDb.isRelease, Bool.and_eq_true, beq_iff_eq] at hof
    obtain rfl := hdb.releaseVersions.eq_of_mem hx hr (by rw [hof.2.1, hof.2.2, hp, hv])
    exact hof.1.symm
  · intro hkey
    exact ⟨r, hr, by simp [UploadDb.isRelease, hkey, hp, hv]⟩

/-- A status is found under its own name. -/
theorem isNamed_self (db : UploadDb) (s : RegulationStatus) :
    isNamed db (toDto db s).regulation s = true := by
  unfold isNamed toDto
  cases hg : regulationOf db s with
  | some g => simp
  | none =>
      cases hsnap : s.regulationSnapshot with
      | none => simp
      | some snapshot => simp

/-- The loop over the names: each takes one status shown under it. -/
theorem deleteStatuses_run {p : ℕ} {v : String} {dtos : List RegulationStatusDto} {s : UploadDb}
    (hreleases : s.releases = db.releases) (hregulations : s.regulations = db.regulations)
    (hkeys : Rows.KeysDistinct RegulationStatus.id s.regulationStatuses)
    (hnamed : ∀ x ∈ s.regulationStatuses, ∀ y ∈ s.regulationStatuses,
      isStatusOf db p v x = true → isStatusOf db p v y = true →
        isNamed db (toDto db x).regulation y = true →
          (toDto db y).regulation = (toDto db x).regulation)
    (hnames : ((s.regulationStatuses.filter (isStatusOf db p v)).map fun x =>
      (toDto db x).regulation).Perm (dtos.map (·.regulation))) :
    ∀ x ∈ (deleteStatuses p v dtos s).2.regulationStatuses, isStatusOf db p v x = false := by
  induction dtos generalizing s with
  | nil =>
      intro x hx
      have hnil := List.map_eq_nil_iff.mp hnames.eq_nil
      exact eq_false_of_ne_true fun hof => by
        have hmem : x ∈ s.regulationStatuses.filter (isStatusOf db p v) :=
          List.mem_filter.mpr ⟨hx, hof⟩
        rw [hnil] at hmem
        cases hmem
  | cons dto dtos ih =>
      rw [deleteStatuses_cons]
      have hof : isStatusOf s p v = isStatusOf db p v := by
        funext x
        unfold isStatusOf
        rw [hreleases]
      have hname : isNamed s dto.regulation = isNamed db dto.regulation := by
        funext x
        unfold isNamed regulationOf
        rw [hregulations]
      -- some status is shown under the name, and what is deleted is shown under it too
      have hshown : dto.regulation ∈ (dto :: dtos).map (·.regulation) :=
        List.mem_map_of_mem List.mem_cons_self
      obtain ⟨x, hx, hxname⟩ := List.mem_map.mp (hnames.mem_iff.mpr hshown)
      obtain ⟨hxmem, hxof⟩ := List.mem_filter.mp hx
      have hxnamed : isNamed db dto.regulation x = true := hxname ▸ isNamed_self db x
      unfold deleteVersionRegulationStatus
      rw [gets_bind_run, hof, hname]
      cases hfind : s.regulationStatuses.find? fun y =>
          isStatusOf db p v y && isNamed db dto.regulation y with
      | none =>
          have hnone := List.find?_eq_none.mp hfind x hxmem
          simp [hxof, hxnamed] at hnone
      | some t =>
          have htmem := List.mem_of_find?_eq_some hfind
          have htboth : (isStatusOf db p v t && isNamed db dto.regulation t) = true := by
            simpa using List.find?_some hfind
          obtain ⟨htof, htnamed⟩ := Bool.and_eq_true_iff.mp htboth
          have htname : (toDto db t).regulation = dto.regulation := by
            rw [← hxname] at htnamed ⊢
            exact hnamed x hxmem t htmem hxof htof htnamed
          have hsub := Rows.deleteWhere_sublist (fun y : RegulationStatus => y.id == t.id)
            s.regulationStatuses
          apply @ih { s with
            regulationStatuses := Rows.deleteWhere (fun y => y.id == t.id) s.regulationStatuses }
          · exact hreleases
          · exact hregulations
          · exact hkeys.sublist hsub
          · exact fun y hy z hz => hnamed y (hsub.subset hy) z (hsub.subset hz)
          · have hfiltered := hkeys.sublist (List.filter_sublist (p := isStatusOf db p v))
            have hone := hfiltered.perm_deleteWhere (List.mem_filter.mpr ⟨htmem, htof⟩)
            have hcomm : (Rows.deleteWhere (fun y => y.id == t.id) s.regulationStatuses).filter
                (isStatusOf db p v) = Rows.deleteWhere (fun y => y.id == t.id)
                  (s.regulationStatuses.filter (isStatusOf db p v)) := List.filter_comm _ _ _
            have hperm := (hone.map fun y => (toDto db y).regulation).symm.trans hnames
            rw [List.map_cons, List.map_cons, htname] at hperm
            show ((Rows.deleteWhere _ s.regulationStatuses).filter _ |>.map _).Perm _
            rw [hcomm]
            exact hperm.cons_inv

/-- **Main result.** With unambiguous names all statuses of the release go. -/
theorem deleteStatuses_clears (hdb : db.Constraints) {p : ℕ} {v : String} {r : Release}
    (hfind : db.findRelease p v = some r) (hnamed : StatusesNamed db r.catalogId) :
    ∀ s ∈ (deleteStatuses p v (getVersionRegulationsStatuses db p v) db).2.regulationStatuses,
      s.versionId ≠ r.catalogId := by
  have hof : ∀ s, isStatusOf db p v s = true ↔ s.versionId = r.catalogId := isStatusOf_iff hdb hfind
  have hnames : ((db.regulationStatuses.filter (isStatusOf db p v)).map fun x =>
      (toDto db x).regulation).Perm
        ((getVersionRegulationsStatuses db p v).map (·.regulation)) := by
    unfold getVersionRegulationsStatuses
    rw [List.map_map]
    exact (List.perm_insertionSort _ _).symm.map _
  have hgone := @deleteStatuses_run db p v (getVersionRegulationsStatuses db p v) db rfl rfl
    hdb.statusKeys (fun x hx y hy hxof hyof =>
      hnamed x hx y hy ((hof x).mp hxof) ((hof y).mp hyof)) hnames
  intro s hs hkey
  rw [← hof, hgone s hs] at hkey
  cases hkey

/-! ### Contents of a release -/

/-- What the delete of the contents of a release leaves. -/
structure Emptied (c : String) (db db' : UploadDb) : Prop where
  standings : db'.standings = db.standings
  dependencies : db'.dependencies = db.dependencies
  regulations : db'.regulations = db.regulations
  statuses : db'.regulationStatuses ⊆ db.regulationStatuses
  ready : ∀ x, x ≠ c → Ready db x → Ready db' x
  pending : db.pending ⊆ db'.pending

theorem Emptied.refl (c : String) (db : UploadDb) : Emptied c db db :=
  ⟨rfl, rfl, rfl, List.Subset.refl _, fun _ _ h => h, List.Subset.refl _⟩

theorem Emptied.trans {c : String} {db' db'' : UploadDb} (h : Emptied c db db')
    (h' : Emptied c db' db'') : Emptied c db db'' where
  standings := h'.standings.trans h.standings
  dependencies := h'.dependencies.trans h.dependencies
  regulations := h'.regulations.trans h.regulations
  statuses := fun _ hs => h.statuses (h'.statuses hs)
  ready := fun x hx hr => h'.ready x hx (h.ready x hx hr)
  pending := fun _ ht => h'.pending (h.pending ht)

theorem deleteStatuses_emptied (c : String) (p : ℕ) (v : String) (dtos : List RegulationStatusDto)
    (db : UploadDb) : Emptied c db (deleteStatuses p v dtos db).2 := by
  induction dtos generalizing db with
  | nil => exact Emptied.refl c db
  | cons dto dtos ih =>
      rw [deleteStatuses_cons]
      refine Emptied.trans ?_ (ih _)
      unfold deleteVersionRegulationStatus
      rw [gets_bind_run]
      cases db.regulationStatuses.find? fun s =>
          isStatusOf db p v s && isNamed db dto.regulation s with
      | none => exact Emptied.refl c db
      | some status =>
          exact ⟨rfl, rfl, rfl, (Rows.deleteWhere_sublist _ _).subset, fun _ _ h => h,
            List.Subset.refl _⟩

theorem regulations_sees : SeesStandings UploadDb.regulations :=
  fun _ _ _ _ _ _ _ _ _ _ => rfl

/-- The artifacts of the release are deleted, until none remains. -/
theorem deleteArtifacts_emptied {p : ℕ} {v : String} {c : String}
    (todo : List (ReleaseArtifact × Option FileUpload)) (hdb : db.Constraints)
    (hat : AtVersion db p v c)
    (htodo : ∀ a ∈ db.artifacts, a.releaseId = c → ∃ x ∈ todo, x.1 = a) :
    Emptied c db (deleteArtifacts env p v todo db).2 ∧
      ∀ a ∈ (deleteArtifacts env p v todo db).2.artifacts, a.releaseId ≠ c := by
  induction todo generalizing db with
  | nil =>
      refine ⟨Emptied.refl c db, fun a ha hof => ?_⟩
      obtain ⟨x, hx, -⟩ := htodo a ha hof
      cases hx
  | cons x todo ih =>
      rw [deleteArtifacts_cons]
      obtain ⟨r, hfind, rfl⟩ : ∃ r, db.findRelease p v = some r ∧ r.catalogId = c := by
        cases hfind : db.findRelease p v with
        | none => exact absurd hat (not_atVersion hfind c)
        | some r => exact ⟨r, rfl, ((atVersion_iff hdb hfind).mp hat).symm⟩
      set db' := (deleteReleaseArtifact env p v x.1.id true db).2 with hdb'
      have hconstraints : db'.Constraints := deleteReleaseArtifact_constraints p v x.1.id true db hdb
      have hstep : Emptied r.catalogId db db' ∧
          ∀ a ∈ db'.artifacts, a.releaseId = r.catalogId → a ∈ db.artifacts ∧ a.id ≠ x.1.id := by
        rcases @deleteReleaseArtifact_without env db p v x.1.id true hdb with
          ⟨hsame, hnone⟩ | ⟨b, status, hfound, -, hwithout⟩
        · rw [hdb', hsame]
          refine ⟨Emptied.refl _ db, fun a ha hof => ⟨ha, fun hid => ?_⟩⟩
          have hfound : (findArtifact db p v x.1.id).isSome = true := by
            unfold findArtifact
            rw [hfind, Option.bind_some, Option.isSome_map, List.find?_isSome]
            exact ⟨a, List.mem_filter.mpr ⟨ha, by simp [hof]⟩, by simp [hid]⟩
          cases hnone hfound
        · obtain ⟨y, hy, hmem⟩ := Option.bind_eq_some_iff.mp hfound
          obtain ⟨z, hz, hpair⟩ := Option.map_eq_some_iff.mp hmem
          obtain ⟨rfl, -⟩ := Prod.mk.inj hpair
          obtain rfl := Option.some.inj (hfind.symm.trans hy)
          obtain ⟨hb, hof⟩ := List.mem_filter.mp (List.mem_of_find?_eq_some hz)
          have hid : z.id = x.1.id := by simpa using List.find?_some hz
          have hrel : z.releaseId = r.catalogId := by simpa using hof
          refine ⟨⟨hwithout.standings, hwithout.dependencies, ?_, ?_,
            hrel ▸ (hwithout.outside hdb hb).ready, hwithout.pending⟩, fun a ha _ => ?_⟩
          · exact (@SeesStandings.deleteReleaseArtifact env _ _ regulations_sees p v _ _).eq db
          · rw [(deleteReleaseArtifact_statuses env p v x.1.id true).eq db]
            exact List.Subset.refl _
          · rw [hwithout.artifacts] at ha
            obtain ⟨hmem, hne⟩ := Rows.mem_deleteWhere.mp ha
            rw [hid] at hne
            exact ⟨hmem, by simpa using hne⟩
      have hat' : AtVersion db' p v r.catalogId := by
        unfold AtVersion
        rw [hstep.1.standings]
        exact hat
      obtain ⟨hrest, hnone⟩ := ih hconstraints hat' fun a ha hof => by
        obtain ⟨hmem, hne⟩ := hstep.2 a ha hof
        obtain ⟨y, hy, hya⟩ := htodo a hmem hof
        rcases List.mem_cons.mp hy with rfl | hy
        · exact absurd (by rw [hya]) hne
        · exact ⟨y, hy, hya⟩
      exact ⟨hstep.1.trans hrest, hnone⟩

theorem deleteContents_ok (p : ℕ) (v : String) (loaded : LoadedRelease) (db : UploadDb) :
    (deleteContents env p v loaded db).1 = .ok () := by
  have hartifacts : ∀ (todo : List (ReleaseArtifact × Option FileUpload)) (s : UploadDb),
      (deleteArtifacts env p v todo s).1 = .ok () := by
    intro todo
    induction todo with
    | nil => exact fun _ => rfl
    | cons x todo ih =>
        intro s
        rw [deleteArtifacts_cons]
        exact ih _
  rw [deleteContents_run]
  exact hartifacts _ _

/-- The contents of a release are deleted. -/
theorem deleteContents_emptied (hdb : db.Constraints) {p : ℕ} {v : String} {r : Release}
    (hfind : db.findRelease p v = some r) :
    Emptied r.catalogId db (deleteContents env p v (db.load r) db).2 ∧
      (∀ a ∈ (deleteContents env p v (db.load r) db).2.artifacts, a.releaseId ≠ r.catalogId) ∧
      (StatusesNamed db r.catalogId →
        ∀ s ∈ (deleteContents env p v (db.load r) db).2.regulationStatuses,
          s.versionId ≠ r.catalogId) := by
  rw [deleteContents_run]
  set dtos := getVersionRegulationsStatuses db p v with hdtos
  set db₁ := (deleteStatuses p v dtos db).2 with hdb₁
  have hfirst : Emptied r.catalogId db db₁ := deleteStatuses_emptied r.catalogId p v dtos db
  have hconstraints : db₁.Constraints := by
    have hkeeps : Keeps UploadDb.Constraints (deleteStatuses p v dtos) :=
      Keeps.forEach fun s _ => keeps_logged (deleteVersionRegulationStatus_constraints _ _ _)
    exact hkeeps db hdb
  have hat : AtVersion db₁ p v r.catalogId := by
    unfold AtVersion
    rw [hfirst.standings]
    exact (atVersion_iff hdb hfind).mpr rfl
  have hart : db₁.artifacts = db.artifacts := by
    have hframe : Frames UploadDb.artifacts (deleteStatuses p v dtos) := fun observed =>
      Keeps.forEach fun s _ => keeps_logged
        (deleteVersionRegulationStatus_frames (fun _ _ => rfl) p v _ observed)
    exact hframe.eq db
  obtain ⟨hrest, hnone⟩ := @deleteArtifacts_emptied env db₁ p v r.catalogId (db.load r).artifacts
    hconstraints hat fun a ha hof => by
      rw [hart] at ha
      refine ⟨(a, db.fileUploadOf a), ?_, rfl⟩
      exact List.mem_map_of_mem (List.mem_filter.mpr ⟨ha, by simp [hof]⟩)
  refine ⟨hfirst.trans hrest, hnone, fun hnamed s hs => ?_⟩
  exact deleteStatuses_clears hdb hfind hnamed s (hrest.statuses hs)

/-! ### Deleting a release -/

/-- What the delete of a release without dependents leaves: its row goes with its
dependencies, or it stays without its contents. -/
structure Dropped (r : Release) (db db' : UploadDb) : Prop where
  regulations : db'.regulations = db.regulations
  statuses : db'.regulationStatuses ⊆ db.regulationStatuses
  /-- what is ready or queued outside stays so -/
  ready : ∀ c, c ≠ r.catalogId → Ready db c → Ready db' c
  pending : db.pending ⊆ db'.pending
  rows : (db'.standings = db.standings ∧ db'.dependencies = db.dependencies ∧
      ¬ StatusesNamed db r.catalogId) ∨
    (db'.standings = Rows.deleteWhere (fun x => x.catalogId == r.catalogId) db.standings ∧
      db'.dependencies = Rows.deleteWhere (fun d => d.releaseId == r.catalogId) db.dependencies)

theorem deleteRelease_dropped (hdb : db.Constraints) {p : ℕ} {r : Release}
    (hr : r ∈ db.releases) (hp : r.projectId = p)
    (hdeps : ∀ d ∈ db.dependencies, d.dependencyReleaseId ≠ r.catalogId) :
    Dropped r db (deleteRelease env ⟨some (.id p), p, r.version⟩ db).2 := by
  have hfind : db.findRelease p r.version = some r := hp ▸ hdb.findRelease_of_mem hr
  have hload : db.getReleaseEntity p r.version = some (db.load r) := by
    unfold UploadDb.getReleaseEntity
    rw [hfind]
    rfl
  have hnone : (db.load r).dependentReleases = [] := by
    apply List.eq_nil_iff_forall_not_mem.mpr
    intro x hx
    exact hdeps _ ((mem_dependentReleasesOf hdb).mp hx).2 rfl
  rw [deleteRelease_run env rfl hload hnone]
  obtain ⟨hempty, hart, hstatuses⟩ := @deleteContents_emptied env db hdb p r.version r hfind
  have hok := @deleteContents_ok env p r.version (db.load r) db
  rcases hrun : deleteContents env p r.version (db.load r) db with ⟨result, db₁⟩
  rw [hrun] at hempty hart hstatuses hok
  obtain rfl : result = .ok () := hok
  rw [bind_run_ok hrun, gets_bind_run]
  by_cases hheld : ((db₁.artifacts.any fun a => a.releaseId == r.catalogId) ||
      (db₁.regulationStatuses.any fun s => s.versionId == r.catalogId) ||
      (db₁.dependencies.any fun d => d.dependencyReleaseId == r.catalogId &&
        d.releaseId != r.catalogId)) = true
  · have hrow : deleteReleaseRow r.catalogId db₁ = (.error (.queryFailed
        "update or delete on table \"release\" violates foreign key constraint"), db₁) := if_pos hheld
    show Dropped r db ((deleteReleaseRow r.catalogId >>= _) db₁).2
    rw [bind_run_error hrow]
    refine ⟨hempty.regulations, hempty.statuses, hempty.ready, hempty.pending,
      .inl ⟨hempty.standings, hempty.dependencies, fun hnamed => ?_⟩⟩
    simp only [Bool.or_eq_true, List.any_eq_true, Bool.and_eq_true, beq_iff_eq] at hheld
    rcases hheld with (⟨a, ha, hof⟩ | ⟨s, hs, hof⟩) | ⟨d, hd, hof, -⟩
    · exact hart a ha hof
    · exact hstatuses hnamed s hs hof
    · rw [hempty.dependencies] at hd
      exact hdeps d hd hof
  · have hrow : deleteReleaseRow r.catalogId db₁ = (.ok (), withoutRelease r.catalogId db₁) :=
      if_neg hheld
    show Dropped r db ((deleteReleaseRow r.catalogId >>= _) db₁).2
    rw [bind_run_ok hrow]
    refine ⟨hempty.regulations, hempty.statuses, fun c hc hready => hempty.ready c hc hready,
      hempty.pending, .inr ⟨?_, ?_⟩⟩
    · rw [← hempty.standings]
      show (db₁.releases.filter _).map Release.standing = (db₁.releases.map Release.standing).filter _
      rw [List.filter_map]
      rfl
    · rw [← hempty.dependencies]
      rfl

/-! ### Deleting a project -/

/-- While the releases of the project are deleted, the other releases stay as they were, but
for their dependencies on the project. -/
structure Deleting (p : ℕ) (db : UploadDb) (done : List Release) (s : UploadDb) : Prop where
  constraints : s.Constraints
  standings : s.standings ⊆ db.standings
  others : ∀ x ∈ db.standings, x.projectId ≠ p → x ∈ s.standings
  /-- the releases still to be deleted are there -/
  todo : ∀ r ∈ db.releases, r.projectId = p → r ∉ done → r.standing ∈ s.standings
  gone : ∀ r ∈ done, StatusesNamed db r.catalogId → ∀ x ∈ s.standings, x.catalogId ≠ r.catalogId
  dependencies : ∀ d ∈ s.dependencies, d ∈ db.dependencies ∧ ¬ OfProject db p d.dependencyReleaseId
  kept : ∀ d ∈ db.dependencies, ¬ OfProject db p d.dependencyReleaseId →
    (∃ x ∈ s.standings, x.catalogId = d.releaseId) → d ∈ s.dependencies
  regulations : s.regulations = db.regulations
  statuses : s.regulationStatuses ⊆ db.regulationStatuses
  ready : ∀ c, ¬ OfProject db p c → Ready db c → Ready s c
  pending : db.pending ⊆ s.pending

theorem StatusesNamed.mono {db' : UploadDb} {c : String} (h : StatusesNamed db c)
    (hregulations : db'.regulations = db.regulations)
    (hstatuses : db'.regulationStatuses ⊆ db.regulationStatuses) : StatusesNamed db' c := by
  have hof : regulationOf db' = regulationOf db := by
    funext s
    unfold regulationOf
    rw [hregulations]
  have hdto : toDto db' = toDto db := by
    funext s
    unfold toDto
    rw [hof]
  have hnamed : isNamed db' = isNamed db := by
    funext name s
    unfold isNamed
    rw [hof]
  unfold StatusesNamed
  rw [hdto, hnamed]
  exact fun s hs t ht => h s (hstatuses hs) t (hstatuses ht)

/-- One release of the project is deleted. -/
theorem Deleting.drop {p : ℕ} {done : List Release} {s : UploadDb} (h : Deleting p db done s)
    (hdb : db.Constraints) {r : Release} (hr : r ∈ db.releases) (hp : r.projectId = p)
    (hnew : r ∉ done) :
    Deleting p db (done ++ [r]) (deleteRelease env ⟨some (.id p), p, r.version⟩ s).2 := by
  have hof : OfProject db p r.catalogId := (ofProject_iff hdb hr).mpr hp
  obtain ⟨r', hr', hstanding⟩ := Standing.mem_iff.mp (h.todo r hr hp hnew)
  have hkey : r'.catalogId = r.catalogId := congrArg Standing.catalogId hstanding
  have hversion : r'.version = r.version := congrArg Standing.version hstanding
  have hproject : r'.projectId = p := (congrArg Standing.projectId hstanding).trans hp
  have hfree : ∀ d ∈ s.dependencies, d.dependencyReleaseId ≠ r'.catalogId := by
    intro d hd hdep
    apply (h.dependencies d hd).2
    rw [hdep, hkey]
    exact hof
  have hconstraints := @deleteRelease_constraints env ⟨some (.id p), p, r.version⟩ s h.constraints
  have hdrop := @deleteRelease_dropped env s h.constraints p r' hr' hproject hfree
  rw [hversion] at hdrop
  generalize (deleteRelease env ⟨some (.id p), p, r.version⟩ s).2 = s' at hconstraints hdrop ⊢
  have hrow : ∀ x, x ∈ s'.standings → x ∈ s.standings := by
    intro x hx
    rcases hdrop.rows with ⟨hsame, -, -⟩ | ⟨hdeleted, -⟩
    · exact hsame ▸ hx
    · rw [hdeleted] at hx
      exact (Rows.mem_deleteWhere.mp hx).1
  have hstays : ∀ x ∈ s.standings, x.catalogId ≠ r.catalogId → x ∈ s'.standings := by
    intro x hx hne
    rcases hdrop.rows with ⟨hsame, -, -⟩ | ⟨hdeleted, -⟩
    · exact hsame ▸ hx
    · rw [hdeleted, hkey]
      exact Rows.mem_deleteWhere.mpr ⟨hx, by simpa using hne⟩
  have hother : ∀ c, ¬ OfProject db p c → c ≠ r'.catalogId := by
    rintro c hc rfl
    rw [hkey] at hc
    exact hc hof
  refine ⟨hconstraints, fun x hx => h.standings (hrow x hx), ?_, ?_, ?_, ?_, ?_,
    hdrop.regulations.trans h.regulations, fun t ht => h.statuses (hdrop.statuses ht), ?_,
    fun t ht => hdrop.pending (h.pending ht)⟩
  · intro x hx hxp
    apply hstays x (h.others x hx hxp)
    intro hxr
    obtain rfl := hdb.standing_eq hx (mem_standings hr) hxr
    exact hxp hp
  · intro y hy hyp hnot
    have hyr : y ≠ r := fun heq => hnot (by simp [heq])
    apply hstays _ (h.todo y hy hyp fun hdone => hnot (by simp [hdone]))
    exact fun heq => hyr (hdb.releaseKeys.eq_of_mem hy hr heq)
  · intro y hy hnamed x hx
    rcases List.mem_append.mp hy with hy | hy
    · exact h.gone y hy hnamed x (hrow x hx)
    · obtain rfl := List.mem_singleton.mp hy
      rcases hdrop.rows with ⟨-, -, hambiguous⟩ | ⟨hdeleted, -⟩
      · rw [hkey] at hambiguous
        exact absurd (hnamed.mono h.regulations h.statuses) hambiguous
      · rw [hdeleted, hkey] at hx
        simpa using (Rows.mem_deleteWhere.mp hx).2
  · intro d hd
    apply h.dependencies
    rcases hdrop.rows with ⟨-, hsame, -⟩ | ⟨-, hdeleted⟩
    · exact hsame ▸ hd
    · rw [hdeleted] at hd
      exact (Rows.mem_deleteWhere.mp hd).1
  · rintro d hd hdep ⟨x, hx, hxd⟩
    have hmem := h.kept d hd hdep ⟨x, hrow x hx, hxd⟩
    rcases hdrop.rows with ⟨-, hsame, -⟩ | ⟨hstandings, hdeleted⟩
    · exact hsame ▸ hmem
    · rw [hstandings] at hx
      rw [hdeleted]
      apply Rows.mem_deleteWhere.mpr
      refine ⟨hmem, ?_⟩
      rw [← hxd]
      exact (Rows.mem_deleteWhere.mp hx).2
  · exact fun c hc hready => hdrop.ready c (hother c hc) (h.ready c hc hready)

/-- The loop over the releases of the project. -/
theorem Deleting.loop {p : ℕ} (hdb : db.Constraints) (todo : List Release) :
    ∀ {done : List Release} {s : UploadDb}, Deleting p db done s → todo.Nodup →
      (∀ r ∈ todo, r ∈ db.releases ∧ r.projectId = p ∧ r ∉ done) →
      Deleting p db (done ++ todo) (forEach (fun r => tryCatch (do
        let _ ← deleteRelease env ⟨some (.id p), p, r.version⟩
        pure ()) fun _ => pure ()) todo s).2 := by
  induction todo with
  | nil =>
      intro done s h _ _
      rw [List.append_nil]
      exact h
  | cons r todo ih =>
      intro done s h hnodup htodo
      obtain ⟨hnot, hrest⟩ := List.nodup_cons.mp hnodup
      obtain ⟨hr, hp, hnew⟩ := htodo r List.mem_cons_self
      have hdropped := @Deleting.drop env db p done s h hdb r hr hp hnew
      have hnext := ih hdropped hrest fun x hx => by
        obtain ⟨hx', hxp, hxnew⟩ := htodo x (List.mem_cons_of_mem r hx)
        refine ⟨hx', hxp, fun hmem => ?_⟩
        rcases List.mem_append.mp hmem with hmem | hmem
        · exact hxnew hmem
        · rw [List.mem_singleton.mp hmem] at hx
          exact hnot hx
      rw [List.append_cons]
      have hrun := logged_run (deleteRelease env ⟨some (.id p), p, r.version⟩) s
      show Deleting p db _ ((tryCatch _ _ >>= _ : UploadProg Unit) s).2
      rw [bind_run_ok hrun]
      exact hnext

/-- The releases of the project are deleted one by one. -/
theorem deleteProjectReleases_deleting (hdb : db.Constraints) (p : ℕ) :
    Deleting p db (db.releases.filter fun r => r.projectId == p)
      (deleteProjectReleases env p db).2 := by
  set releases := db.releases.filter fun r => r.projectId == p with hreleases
  have hof : ∀ {r}, r ∈ releases ↔ r ∈ db.releases ∧ r.projectId = p := by
    intro r
    rw [hreleases, List.mem_filter, beq_iff_eq]
  have hcontains : ∀ d ∈ db.dependencies,
      (releases.map (·.catalogId)).contains d.dependencyReleaseId = true ↔
        OfProject db p d.dependencyReleaseId := by
    intro d hd
    rw [List.contains_iff_mem, List.mem_map]
    constructor
    · rintro ⟨r, hr, hkey⟩
      rw [← hkey]
      exact (ofProject_iff hdb (hof.mp hr).1).mpr (hof.mp hr).2
    · rintro ⟨x, hx, hxp, hkey⟩
      obtain ⟨r, hr, rfl⟩ := Standing.mem_iff.mp hx
      exact ⟨r, hof.mpr ⟨hr, hxp⟩, hkey⟩
  set cleared : UploadDb := clearDependents (releases.map (·.catalogId)) db with hcleared
  have hstart : Deleting p db [] cleared := by
    refine ⟨?_, List.Subset.refl _, fun _ hx _ => hx, fun r hr _ _ => mem_standings hr, ?_, ?_, ?_,
      rfl, List.Subset.refl _, fun _ _ h => h, List.Subset.refl _⟩
    · exact hdb.dependencies fun d hd => .inl (Rows.mem_deleteWhere.mp hd).1
    · exact fun r hr => absurd hr List.not_mem_nil
    · intro d hd
      obtain ⟨hmem, hnot⟩ := Rows.mem_deleteWhere.mp hd
      refine ⟨hmem, fun hd => ?_⟩
      rw [(hcontains d hmem).mpr hd] at hnot
      cases hnot
    · intro d hd hdep _
      refine Rows.mem_deleteWhere.mpr ⟨hd, eq_false_of_ne_true fun h => hdep ((hcontains d hd).mp h)⟩
  have hclear : (when (!releases.isEmpty) (modify (clearDependents (releases.map (·.catalogId)))) :
      UploadProg Unit) db = (.ok (), cleared) := by
    cases hempty : releases with
    | nil =>
        have hsame : cleared = db := by
          have hnone : Rows.deleteWhere (fun d : ReleaseDependency =>
              ([] : List String).contains d.dependencyReleaseId) db.dependencies = db.dependencies :=
            List.filter_eq_self.mpr fun _ _ => rfl
          rw [hcleared, hempty]
          unfold clearDependents
          rw [List.map_nil, hnone]
        rw [hsame]
        rfl
    | cons r rest =>
        rw [hcleared, hempty]
        rfl
  have hnodup : releases.Nodup := (List.Nodup.of_map _ hdb.releaseKeys).filter _
  unfold deleteProjectReleases
  rw [gets_bind_run, bind_run_ok hclear]
  exact @Deleting.loop env db p hdb releases [] cleared hstart hnodup fun r hr =>
    ⟨(hof.mp hr).1, (hof.mp hr).2, List.not_mem_nil⟩

/-- Without the project the release depends on something, and all of that is released. -/
def HeldOutside (p : ℕ) (c : String) (db : UploadDb) : Prop :=
  (∃ z ∈ db.releases, z.projectId ≠ p ∧ ⟨c, z.catalogId⟩ ∈ db.dependencies) ∧
    ∀ z ∈ db.releases, z.projectId ≠ p → ⟨c, z.catalogId⟩ ∈ db.dependencies → z.status = .released

/-- What the delete of a project must find: a released release that depends on the project has
something else, and a released release of the project can go, or is supported from outside. -/
def DeletesProjectSupported (p : ℕ) (db : UploadDb) : Prop :=
  (∀ y ∈ db.releases, y.projectId = p → ∀ x ∈ db.releases, x.projectId ≠ p → x.status = .released →
    ⟨x.catalogId, y.catalogId⟩ ∈ db.dependencies →
      fileUploaded db (db.load x) = true ∨ isQueued db x = true ∨
        ∃ z ∈ db.releases, z.projectId ≠ p ∧ ⟨x.catalogId, z.catalogId⟩ ∈ db.dependencies) ∧
  ∀ r ∈ db.releases, r.projectId = p → r.status = .released →
    StatusesNamed db r.catalogId ∨ isQueued db r = true ∨ HeldOutside p r.catalogId db

/-- **Main result.** The delete of a project refreshes nothing. -/
theorem deleteProjectReleases_settles {p : ℕ} (hdb : db.Constraints) (h : db.net.Settled)
    (hdelete : DeletesProjectSupported p db) : (deleteProjectReleases env p db).2.net.Settled := by
  obtain ⟨houtside, hinside⟩ := hdelete
  have hdone := @deleteProjectReleases_deleting env db hdb p
  generalize (deleteProjectReleases env p db).2 = s at hdone ⊢
  have hproject : ∀ x ∈ db.standings, ¬ OfProject db p x.catalogId → x.projectId ≠ p :=
    fun x hx hnot hp => hnot ⟨x, hx, hp, rfl⟩
  have hup : ∀ c, ¬ OfProject db p c → (s.net.up c ↔ db.net.up c) := by
    intro c hc
    constructor
    · rintro ⟨x, hx, rfl, hstatus⟩
      exact ⟨x, hdone.standings hx, rfl, hstatus⟩
    · rintro ⟨x, hx, rfl, hstatus⟩
      exact ⟨x, hdone.others x hx (hproject x hx hc), rfl, hstatus⟩
  have hqueued : ∀ x ∈ s.standings, db.net.queued x.catalogId → s.net.queued x.catalogId := by
    rintro x hx ⟨y, hy, hkey, hpending⟩
    obtain rfl := hdb.standing_eq hy (hdone.standings hx) hkey
    exact ⟨y, hx, rfl, hdone.pending hpending⟩
  have hoff : s.net.SettledOff (OfProject db p) := by
    apply (h.off _).remove hup
    · exact fun c hc hready => hdone.ready c hc hready
    · intro c hc d
      constructor
      · exact fun hd => hdone.dependencies _ hd
      · rintro ⟨hd, hnot⟩
        obtain ⟨⟨x, hx, rfl⟩, -⟩ := hdb.dependencyReleases _ hd
        exact hdone.kept _ hd hnot ⟨x.standing, hdone.others _ (mem_standings hx)
          (hproject _ (mem_standings hx) hc), rfl⟩
    · rintro c hc ⟨x, hx, rfl, hpending⟩
      exact ⟨x, hdone.others x hx (hproject x hx hc), rfl, hdone.pending hpending⟩
    · rintro c hc d hd hxup hdep
      obtain ⟨⟨x, hx, rfl⟩, y, hy, rfl⟩ := hdb.dependencyReleases _ hdep
      have hxp : x.projectId ≠ p := hproject x.standing (mem_standings hx) hd
      have hyp : y.projectId = p := (ofProject_iff hdb hy).mp hc
      have hreleased := (isReleased_iff hdb hx).mp ((hup _ hd).mp hxup)
      rcases houtside y hy hyp x hx hxp hreleased hdep with hready | hqueue | ⟨z, hz, hzp, hzdep⟩
      · left
        exact hdone.ready _ hd ((fileUploaded_iff hdb hdb.fileKeys rfl x).mp hready)
      · right
        left
        exact hqueued x.standing (hdone.others _ (mem_standings hx) hxp) ((isQueued_iff hdb hx).mp hqueue)
      · right
        right
        exact ⟨z.catalogId, hzdep, fun hof => hzp ((ofProject_iff hdb hz).mp hof)⟩
  apply hoff.settled
  rintro c ⟨y, hy, hyp, rfl⟩ ⟨x, hx, hkey, hstatus⟩
  obtain rfl := hdb.standing_eq (hdone.standings hx) hy hkey
  obtain ⟨r, hr, rfl⟩ := Standing.mem_iff.mp hy
  rcases hinside r hr hyp hstatus with hnamed | hqueue | ⟨⟨z, hz, hzp, hzdep⟩, hall⟩
  · have hmem : r ∈ db.releases.filter fun r => r.projectId == p :=
      List.mem_filter.mpr ⟨hr, beq_iff_eq.mpr hyp⟩
    exact absurd rfl (hdone.gone r hmem hnamed _ hx)
  · exact .inr (hqueued _ hx ((isQueued_iff hdb hr).mp hqueue))
  · left
    right
    refine ⟨⟨z.catalogId, hdone.kept _ hzdep (fun hof => hzp ((ofProject_iff hdb hz).mp hof))
      ⟨r.standing, hx, rfl⟩⟩, fun d hd => ?_⟩
    obtain ⟨hmem, hnot⟩ := hdone.dependencies _ hd
    obtain ⟨-, w, hw, rfl⟩ := hdb.dependencyReleases _ hmem
    have hwp : w.projectId ≠ p := hproject w.standing (mem_standings hw) hnot
    exact (hup _ hnot).mpr ((isReleased_iff hdb hw).mpr (hall w hw hwp hmem))

end UploadService
