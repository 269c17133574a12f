import UploadService.Lib.Acyclic
import UploadService.Life.SupportRuns

/-!
# Links between releases

A release is given its dependencies as a list of catalog ids. The check of the list refuses the
release itself and no more, so a release may be linked to one that depends on it already.

Main results:

- `saveDependencies_acyclic_iff`: the links of one release close a cycle exactly when one of its
  new dependencies depends on it already;
- `acyclic_along_runs`: in every run in which no release that is there is linked to one that
  depends on it, no release comes to depend on itself;
- `mutual_dependencies_cycle`: two releases linked to each other.
-/

namespace UploadService

open Prog ReleaseService FileUploadService RegulationStatusService Relation

variable {env : UploadEnv} {db : UploadDb}

/-- The release depends on the other by one link. -/
def DependsOn (db : UploadDb) (c d : String) : Prop := ⟨c, d⟩ ∈ db.dependencies

instance (db : UploadDb) (c d : String) : Decidable (DependsOn db c d) :=
  inferInstanceAs (Decidable (_ ∈ _))

/-! ### The new links of a release -/

theorem mem_savedDependencies {c : String} {entities : List Release} {d : ReleaseDependency} :
    d ∈ (saveDependencies c entities db).dependencies ↔
      (d.releaseId ≠ c ∧ d ∈ db.dependencies) ∨
        (d.releaseId = c ∧ d.dependencyReleaseId ∈ entities.map (·.catalogId)) := by
  have hkept : ∀ rows : List ReleaseDependency, d ∈ Rows.deleteWhere (fun d =>
      d.releaseId == c && !(entities.map (·.catalogId)).contains d.dependencyReleaseId) rows ↔
        d ∈ rows ∧ (d.releaseId = c → d.dependencyReleaseId ∈ entities.map (·.catalogId)) := by
    intro rows
    rw [Rows.mem_deleteWhere]
    simp
  unfold saveDependencies
  show d ∈ _ ++ _ ↔ _
  rw [List.mem_append, hkept, List.mem_filter, List.mem_map (l := entities.map (·.catalogId))]
  constructor
  · rintro (⟨hmem, hwanted⟩ | ⟨⟨w, hw, rfl⟩, -⟩)
    · by_cases hc : d.releaseId = c
      · exact .inr ⟨hc, hwanted hc⟩
      · exact .inl ⟨hc, hmem⟩
    · exact .inr ⟨rfl, hw⟩
  · rintro (⟨hc, hmem⟩ | ⟨hc, hwanted⟩)
    · exact .inl ⟨hmem, fun heq => absurd heq hc⟩
    · -- the link is there already, or it is added
      by_cases hmem : d ∈ db.dependencies
      · exact .inl ⟨hmem, fun _ => hwanted⟩
      · right
        refine ⟨⟨d.dependencyReleaseId, hwanted, by rw [← hc]⟩, ?_⟩
        rw [Bool.not_eq_true', ← Bool.not_eq_true, List.contains_iff_mem]
        exact fun hin => hmem ((hkept _).mp hin).1

/-- **Main result.** The new links of a release close a cycle exactly when it links to a release
that depends on it already. -/
theorem saveDependencies_acyclic_iff (h : Acyclic (DependsOn db)) (c : String)
    (entities : List Release) :
    Acyclic (DependsOn (saveDependencies c entities db)) ↔
      ∀ e ∈ entities, ¬ ReflTransGen (DependsOn db) e.catalogId c := by
  have hlinks : ∀ x y, DependsOn (saveDependencies c entities db) x y ↔
      (x ≠ c ∧ DependsOn db x y) ∨ (x = c ∧ y ∈ entities.map (·.catalogId)) :=
    fun x y => mem_savedDependencies (d := ⟨x, y⟩)
  rw [h.relink_iff hlinks]
  exact List.forall_mem_map

/-- The first dependencies of a new release close no cycle: nothing depends on it yet. -/
theorem saveDependencies_new_acyclic (hdb : db.Constraints) (h : Acyclic (DependsOn db)) {c : String}
    (hnew : ∀ r ∈ db.releases, r.catalogId ≠ c) {entities : List Release}
    (hthere : ∀ e ∈ entities, e ∈ db.releases) :
    Acyclic (DependsOn (saveDependencies c entities db)) := by
  rw [saveDependencies_acyclic_iff h]
  intro e he hreach
  rcases ReflTransGen.cases_tail hreach with heq | ⟨x, -, hlast⟩
  · exact hnew e (hthere e he) heq.symm
  · obtain ⟨-, r, hr, hkey⟩ := hdb.dependencyReleases _ hlast
    exact hnew r hr hkey

/-! ### Setting a release -/

/-- What a request gives a release that is there: the request is not refused. -/
structure Relinks (env : UploadEnv) (dto : SetReleaseDto) (db : UploadDb) (r : Release)
    (names : List String) : Prop where
  found : db.findRelease dto.projectId dto.version = some r
  editable : isReadonly env r.status = false
  requested : dto.dependencies = some names
  exist : names.length ≤ (db.releases.filter fun e => names.contains e.catalogId).length
  notItself : r.catalogId ∉ names

/-- A release that is there is linked to none that depends on it. -/
def OpensNoCycle (env : UploadEnv) (dto : SetReleaseDto) (db : UploadDb) : Prop :=
  ∀ r names, Relinks env dto db r names → ∀ c ∈ names, ¬ TransGen (DependsOn db) c r.catalogId

/-- The dependencies of an accepted request: the releases that it names. -/
theorem requestedDependencies_some {dto : SetReleaseDto} {entities : List Release} {db' : UploadDb}
    (h : requestedDependencies dto db = (.ok (some entities), db')) :
    ∃ names, dto.dependencies = some names ∧
      entities = db.releases.filter (fun e => names.contains e.catalogId) ∧
      names.length ≤ entities.length ∧
      ∀ e ∈ entities, UploadDb.isRelease dto.projectId dto.version e = false := by
  unfold requestedDependencies at h
  cases hnames : dto.dependencies with
  | none =>
      rw [hnames] at h
      cases h
  | some names =>
      rw [hnames] at h
      obtain ⟨found, db₁, hrun, hrest⟩ := bind_ok_inv h
      obtain rfl : found = entities := by
        have hsome := congrArg Prod.fst hrest
        exact Option.some.inj (Except.ok.inj hsome)
      unfold getAndValidateDependenciesForRelease at hrun
      rw [gets_bind_run] at hrun
      split at hrun
      · cases hrun
      · rename_i hlength
        split at hrun
        · cases hrun
        · rename_i hself
          have hfound := Except.ok.inj (congrArg Prod.fst hrun)
          refine ⟨names, rfl, hfound.symm, ?_, fun e he => ?_⟩
          · rw [← hfound]
            omega
          · rw [← hfound] at he
            apply eq_false_of_ne_true
            intro hof
            exact hself (List.any_eq_true.mpr ⟨e, he, hof⟩)

/-- The dependencies that `setRelease` is about to save are those of an accepted request. -/
theorem prepareRelease_dependencies {dto : SetReleaseDto} {isNew : Bool} {row : Release}
    {dependencies : Option (List Release)} {db' : UploadDb}
    (h : prepareRelease env dto db = (.ok (isNew, row, dependencies), db')) :
    (requestedDependencies dto db).1 = .ok dependencies := by
  unfold prepareRelease at h
  rw [gets_bind_run, gets_bind_run] at h
  obtain ⟨_, db₁, hcheck, h₁⟩ := bind_ok_inv h
  obtain ⟨result, hrun, -⟩ := checkReadonlyReleasePermission_run env
    ((db.findRelease dto.projectId dto.version).getD
      (Release.create dto.projectId dto.version)).status db
  rw [hrun] at hcheck
  obtain ⟨-, rfl⟩ := Prod.mk.inj hcheck
  rw [gets_bind_run] at h₁
  obtain ⟨deps, db₂, hdeps, h₂⟩ := bind_ok_inv h₁
  have hsaved := congrArg Prod.fst h₂
  simp only [pure_run, Except.ok.injEq, Prod.mk.injEq] at hsaved
  rw [hdeps, hsaved.2.2]

/-- What a request makes of the links. -/
inductive LinksChanged (env : UploadEnv) (dto : SetReleaseDto) (db : UploadDb) :
    List ReleaseDependency → Prop where
  | kept : LinksChanged env dto db db.dependencies
  | opened (c : String) (entities : List Release) (hnew : ∀ r ∈ db.releases, r.catalogId ≠ c)
      (hthere : ∀ e ∈ entities, e ∈ db.releases) :
      LinksChanged env dto db (saveDependencies c entities db).dependencies
  | relinked (r : Release) (names : List String) (h : Relinks env dto db r names) :
      LinksChanged env dto db (saveDependencies r.catalogId
        (db.releases.filter fun e => names.contains e.catalogId) db).dependencies

theorem saveRelations_dependencies (dto : SetReleaseDto) (isNew : Bool)
    (dependencies : Option (List Release)) (c : String) (db : UploadDb) :
    (saveRelations dto isNew dependencies c db).2.dependencies = match dependencies with
      | none => db.dependencies
      | some entities => (saveDependencies c entities db).dependencies := by
  have htotal : ∀ s, (updateTotalSize dto.projectId dto.version s).dependencies = s.dependencies :=
    updateTotalSize_frames (fun _ _ => rfl) _ _
  have hlink : ∀ s, (linkDefaultRuleToRelease c s).dependencies = s.dependencies := by
    intro s
    unfold linkDefaultRuleToRelease
    split <;> rfl
  unfold saveRelations
  rw [modify_bind_run]
  cases isNew with
  | false =>
      show (updateTotalSize _ _ _).dependencies = _
      rw [htotal]
      cases dependencies <;> rfl
  | true =>
      show (updateTotalSize _ _ (linkDefaultRuleToRelease c _)).dependencies = _
      rw [htotal, hlink]
      cases dependencies <;> rfl

theorem storeRelease_links (hdb : db.Constraints) (dto : SetReleaseDto) :
    LinksChanged env dto db (storeRelease env dto db).2.dependencies := by
  unfold storeRelease
  rcases hrun : prepareRelease env dto db with ⟨result, db'⟩
  cases result with
  | error e =>
      have hreads := @prepareRelease_reads db env dto db rfl
      rw [hrun] at hreads
      rw [bind_run_error hrun]
      obtain rfl : db' = db := hreads
      exact .kept
  | ok found =>
      obtain ⟨isNew, row, dependencies⟩ := found
      obtain ⟨rfl, hnew, hthere, hedit, name, required, hrow⟩ := prepareRelease_spec hrun
      have hrequest := prepareRelease_dependencies hrun
      rw [bind_run_ok hrun]
      show LinksChanged env dto db' ((saveRelease env isNew row >>= _) db').2.dependencies
      cases hfind : db'.findRelease dto.projectId dto.version with
      | none =>
          rw [hfind] at hnew
          obtain rfl : isNew = true := hnew
          have hsave := saveRelease_new env row db'
          cases hins : insertRelease env.semver db'.projects row db'.releases with
          | none =>
              rw [hins] at hsave
              rw [bind_run_error hsave]
              exact .kept
          | some saved =>
              obtain ⟨inserted, rows⟩ := saved
              rw [hins] at hsave
              rw [bind_run_ok hsave, saveRelations_dependencies]
              cases dependencies with
              | none => exact .kept
              | some entities =>
                  exact .opened inserted.catalogId entities (insertRelease_some hins).2.1
                    (hthere entities rfl)
      | some r =>
          rw [hfind] at hnew hrow
          obtain rfl : isNew = false := hnew
          have hkey : row.catalogId = r.catalogId := by rw [hrow]; rfl
          have hsave : saveRelease env false row db' = (.ok r.catalogId,
              updateReleases (fun x => x.catalogId == r.catalogId) (fun _ => row) db') := by
            rw [← hkey]
            rfl
          rw [bind_run_ok hsave, saveRelations_dependencies]
          cases dependencies with
          | none => exact .kept
          | some entities =>
              obtain ⟨db₁, hdeps⟩ : ∃ db₁, requestedDependencies dto db' =
                  (.ok (some entities), db₁) := ⟨_, Prod.ext hrequest rfl⟩
              obtain ⟨names, hnames, rfl, hlength, hself⟩ := requestedDependencies_some hdeps
              refine .relinked r names ⟨hfind, hedit r hfind, hnames, hlength, fun hin => ?_⟩
              obtain ⟨hr, hp, hv⟩ := UploadDb.findRelease_some hfind
              have hitself := hself r (List.mem_filter.mpr ⟨hr, by simpa using hin⟩)
              simp [UploadDb.isRelease, hp, hv] at hitself

/-- The request keeps the links acyclic, where it opens no cycle. -/
theorem LinksChanged.acyclic {dto : SetReleaseDto} {rows : List ReleaseDependency}
    (h : LinksChanged env dto db rows) (hdb : db.Constraints) (hacyclic : Acyclic (DependsOn db))
    (hopens : OpensNoCycle env dto db) :
    Acyclic (DependsOn { db with dependencies := rows }) := by
  cases h with
  | kept => exact hacyclic
  | opened c entities hnew hthere => exact saveDependencies_new_acyclic hdb hacyclic hnew hthere
  | relinked r names h =>
      apply (saveDependencies_acyclic_iff hacyclic r.catalogId _).mpr
      intro e he hreach
      have hname : e.catalogId ∈ names := by simpa using (List.mem_filter.mp he).2
      rcases reflTransGen_iff_eq_or_transGen.mp hreach with heq | hpath
      · exact h.notItself (heq ▸ hname)
      · exact hopens r names h e.catalogId hname hpath

/-- Programs that do not write the links keep them acyclic. -/
theorem keeps_acyclic {α : Type} {prog : UploadProg α} (h : Frames UploadDb.dependencies prog) :
    Keeps (fun s => Acyclic (DependsOn s)) prog := by
  intro s hs
  show Acyclic fun c d => (⟨c, d⟩ : ReleaseDependency) ∈ (prog s).2.dependencies
  rw [h.eq s]
  exact hs

theorem setRelease_acyclic (hdb : db.Constraints) (h : Acyclic (DependsOn db)) {dto : SetReleaseDto}
    (hopens : OpensNoCycle env dto db) :
    Acyclic (DependsOn (setRelease env dto db).2) := by
  refine Keeps.bind_after (I := fun s => Acyclic (DependsOn s)) ?_ fun _ => Keeps.bind ?_ fun _ => ?_
  · exact (storeRelease_links hdb dto).acyclic hdb h hopens
  · refine keeps_acyclic fun observed => Keeps.ite (Keeps.modify fun s hs => hs) ?_
    exact refreshReleaseState_frames (fun _ _ _ _ => rfl) _ _ observed
  · exact Keeps.bind (keeps_of_reads fun _ => getRelease_reads _ _ _) fun _ => Keeps.pure _

/-! ### Imports -/

theorem importReleaseInto_acyclic (hdb : db.Constraints) (h : Acyclic (DependsOn db))
    (dto : ImportReleaseDto) (p : ℕ) :
    Acyclic (DependsOn (importReleaseInto env dto p db).2) := by
  unfold importReleaseInto
  rw [gets_bind_run]
  cases hfind : db.findRelease p dto.version with
  | some r => exact h
  | none =>
      obtain ⟨hsame, hdeps⟩ := importedDependencies_run dto p db
      rcases hrun : importedDependencies dto p db with ⟨result, db'⟩
      rw [hrun] at hsame hdeps
      obtain rfl : db' = db := hsame
      dsimp only
      rw [gets_bind_run]
      cases result with
      | error e =>
          rw [bind_run_error hrun]
          exact h
      | ok dependencies =>
          rw [bind_run_ok hrun]
          have hsave := saveRelease_new env (importedRelease dto p (regulationsOf db' p).length) db'
          cases hins : insertRelease env.semver db'.projects
              (importedRelease dto p (regulationsOf db' p).length) db'.releases with
          | none =>
              rw [hins] at hsave
              rw [bind_run_error hsave]
              exact h
          | some saved =>
              obtain ⟨inserted, rows⟩ := saved
              rw [hins] at hsave
              rw [bind_run_ok hsave]
              -- the links of the new row, then programs that write none
              refine Keeps.bind_after (I := fun s => Acyclic (DependsOn s)) ?_ fun _ => ?_
              · cases dependencies with
                | none => exact h
                | some entities =>
                    exact saveDependencies_new_acyclic hdb h (insertRelease_some hins).2.1
                      (hdeps _ rfl entities rfl)
              · refine keeps_acyclic fun observed => Keeps.bind (Keeps.modify fun s hs => ?_) fun _ =>
                  Keeps.bind (Keeps.forEach fun image _ => Keeps.tryCatch (fun s hs => ?_) fun _ =>
                    Keeps.pure _) fun _ => ?_
                · unfold linkDefaultRuleToRelease
                  split <;> exact hs
                · unfold importDockerImage
                  split <;> exact hs
                · exact refreshReleaseState_frames (fun _ _ _ _ => rfl) _ _ observed

theorem importRelease_acyclic (hdb : db.Constraints) (h : Acyclic (DependsOn db))
    (dto : ImportReleaseDto) : Acyclic (DependsOn (importRelease env dto db).2) := by
  have hkeeps : Keeps (fun s : UploadDb => s.Constraints ∧ Acyclic (DependsOn s))
      (importRelease env dto) := by
    refine Keeps.bind (keeps_of_reads fun _ => resolveProject_reads _ _) fun p s hs => ?_
    exact ⟨importReleaseInto_constraints dto p s hs.1, importReleaseInto_acyclic hs.1 hs.2 dto p⟩
  exact (hkeeps db ⟨hdb, h⟩).2

/-! ### Deletes -/

/-- Programs that only take links away keep them acyclic. -/
theorem acyclic_of_fewer {db' : UploadDb} (h : Acyclic (DependsOn db))
    (hfewer : ∀ d ∈ db'.dependencies, d ∈ db.dependencies) : Acyclic (DependsOn db') :=
  h.of_subrel fun _ _ hlink => hfewer _ hlink

theorem deleteContents_acyclic (p : ℕ) (v : String) (loaded : LoadedRelease) :
    Keeps (fun s => Acyclic (DependsOn s)) (deleteContents env p v loaded) := by
  refine Keeps.bind (Keeps.gets _) fun statuses => Keeps.bind ?_ fun _ => ?_
  · refine Keeps.forEach fun s _ => keeps_logged (keeps_acyclic ?_)
    exact deleteVersionRegulationStatus_frames (fun _ _ => rfl) _ _ _
  · refine Keeps.forEach fun a _ => keeps_logged (keeps_acyclic ?_)
    exact dependencies_sees.deleteReleaseArtifact _ _ _ _

theorem deleteRelease_acyclic (params : ReleaseParams) :
    Keeps (fun s => Acyclic (DependsOn s)) (deleteRelease env params) := by
  intro db h
  have hdeleted := deleteRelease_deleted env params.projectIdentifier params.projectId params.version db
  generalize deleteRelease env params db = result at hdeleted ⊢
  cases hdeleted with
  | refused e => exact h
  | stuck e q loaded => exact deleteContents_acyclic q params.version loaded db h
  | deleted q loaded policies hname hload hdeps =>
      apply acyclic_of_fewer (@deleteContents_acyclic env q params.version loaded db h)
      exact fun d hd => (Rows.mem_deleteWhere.mp hd).1

theorem deleteProjectReleases_acyclic (p : ℕ) :
    Keeps (fun s => Acyclic (DependsOn s)) (deleteProjectReleases env p) := by
  refine Keeps.bind (Keeps.gets _) fun releases => ?_
  refine Keeps.bind (Keeps.when (Keeps.modify fun s hs => ?_)) fun _ => ?_
  · exact acyclic_of_fewer hs fun d hd => (Rows.mem_deleteWhere.mp hd).1
  · exact Keeps.forEach fun r _ => keeps_logged (deleteRelease_acyclic _)

/-! ### Runs -/

/-- The calls that write links, with the tasks they leave and what happens outside. -/
def WritesLinks : ServiceEvent → Prop
  | .call _ (.handle _ _ (.setRelease _)) | .call _ (.handle _ _ (.deleteRelease _))
  | .call _ (.importRelease _) | .call _ (.deleteProjectReleases _) => True
  | .call _ _ => False
  | .task _ | .storage _ | .clock _ => True

/-- A call of `setRelease` links no release that is there to one that depends on it. -/
def LinksForward (env : UploadEnv) (db : UploadDb) : ServiceEvent → Prop
  | .call caller (.handle projectIdentifier projectId (.setRelease dto)) =>
      OpensNoCycle (env.calledBy caller)
        { dto with projectIdentifier := projectIdentifier, projectId := projectId } db
  | _ => True

/-- **Step.** An event keeps the links acyclic, where it opens no cycle. -/
theorem step_acyclic {e : ServiceEvent} (hdb : db.Constraints) (h : Acyclic (DependsOn db))
    (hwrites : WritesLinks e) (hforward : LinksForward env db e) :
    Acyclic (DependsOn (db.step env e)) := by
  cases e with
  | task i =>
      have hdependencies : IgnoresRefresh UploadDb.dependencies := .of_tables fun _ _ _ _ => rfl
      have hframe := @hdependencies.runPending env _ _ db i
      exact acyclic_of_fewer h fun d hd => hframe ▸ hd
  | storage objects => exact h
  | clock now => exact h
  | call caller call =>
      cases call with
      | handle projectIdentifier projectId body =>
          cases body with
          | setRelease dto =>
              exact Keeps.bind_after (I := fun s => Acyclic (DependsOn s))
                (setRelease_acyclic hdb h hforward) fun _ => Keeps.pure _
          | deleteRelease v =>
              have hlatest : ∀ id, Keeps (fun s => Acyclic (DependsOn s))
                  (modify (updateLatestForProject id) : UploadProg Unit) :=
                fun id => Keeps.modify fun s hs => hs
              exact Keeps.bind (deleteRelease_acyclic _) hlatest db h
          | _ => exact hwrites.elim
      | importRelease dto => exact importRelease_acyclic hdb h dto
      | deleteProjectReleases p => exact deleteProjectReleases_acyclic p db h
      | _ => exact hwrites.elim

/-- **Main result.** In every run from a database without releases in which no release that is
there is linked to one that depends on it, no release comes to depend on itself through one or
more links. -/
theorem acyclic_along_runs (env : UploadEnv) (db : UploadDb) (es : List ServiceEvent)
    (hdb : db.Constraints) (hempty : db.releases = [])
    (h : Runs.Along (UploadDb.step env) (fun s e => WritesLinks e ∧ LinksForward env s e) db es) :
    ∀ c, ¬ TransGen (DependsOn (Runs.run (UploadDb.step env) db es)) c c := by
  have hstart : Acyclic (DependsOn db) := by
    intro c hc
    obtain ⟨d, hlink, -⟩ := TransGen.head'_iff.mp hc
    obtain ⟨⟨r, hr, -⟩, -⟩ := hdb.dependencyReleases _ hlink
    rw [hempty] at hr
    cases hr
  have hstep : ∀ (s : UploadDb) e, (s.Constraints ∧ Acyclic (DependsOn s)) →
      WritesLinks e ∧ LinksForward env s e →
        (s.step env e).Constraints ∧ Acyclic (DependsOn (s.step env e)) :=
    fun s e hs hC => ⟨step_constraints hs.1 e, step_acyclic hs.1 hs.2 hC.1 hC.2⟩
  exact (Runs.invariant_along hstep ⟨hdb, hstart⟩ h).2

/-! ### Releases of two projects -/

/-- A draft of the project with dependencies. -/
def draftWith (p : ℕ) (dependencies : List String) : ServiceEvent :=
  .call ⟨some "eve", false⟩ (.handle (some (.id p)) p (.setRelease
    { setVersion (some true) none with dependencies := some dependencies }))

/-- A draft in each project, and the second made to depend on the first. -/
def linkedDrafts : List ServiceEvent :=
  [draftWith 1 [], draftWith 2 [], draftWith 2 ["1.one@1.0.0"]]

theorem linked_drafts_acyclic :
    let s := Runs.run (UploadDb.step plainUploadEnv) twoProjects linkedDrafts
    s.dependencies = [⟨"2.two@1.0.0", "1.one@1.0.0"⟩] ∧ ∀ c, ¬ TransGen (DependsOn s) c c := by
  refine ⟨by decide, ?_⟩
  apply acyclic_along_runs plainUploadEnv twoProjects linkedDrafts twoProjects_constraints rfl
  have hnew : ∀ {s : UploadDb} {p : ℕ} {names : List String}, s.findRelease p "1.0.0" = none →
      LinksForward plainUploadEnv s (draftWith p names) := by
    intro s p names hnone r names' hrelinks
    have hfound := hrelinks.found
    change s.findRelease p "1.0.0" = some r at hfound
    rw [hnone] at hfound
    cases hfound
  refine ⟨⟨trivial, hnew (by decide)⟩, ⟨trivial, hnew (by decide)⟩, ⟨trivial, ?_⟩, trivial⟩
  -- nothing is linked yet
  intro r names _ c _ hpath
  obtain ⟨d, hlink, -⟩ := TransGen.head'_iff.mp hpath
  have hnone : (Runs.run (UploadDb.step plainUploadEnv) twoProjects
      [draftWith 1 [], draftWith 2 []]).dependencies = [] := by decide
  change (⟨c, d⟩ : ReleaseDependency) ∈ (Runs.run (UploadDb.step plainUploadEnv) twoProjects
      [draftWith 1 [], draftWith 2 []]).dependencies at hlink
  rw [hnone] at hlink
  cases hlink

/-- The first is then made to depend on the second. -/
theorem mutual_dependencies_cycle :
    TransGen (DependsOn (Runs.run (UploadDb.step plainUploadEnv) twoProjects
      (linkedDrafts ++ [draftWith 1 ["2.two@1.0.0"]]))) "1.one@1.0.0" "1.one@1.0.0" := by
  have hlinks : DependsOn (Runs.run (UploadDb.step plainUploadEnv) twoProjects
      (linkedDrafts ++ [draftWith 1 ["2.two@1.0.0"]])) "1.one@1.0.0" "2.two@1.0.0" ∧
    DependsOn (Runs.run (UploadDb.step plainUploadEnv) twoProjects
      (linkedDrafts ++ [draftWith 1 ["2.two@1.0.0"]])) "2.two@1.0.0" "1.one@1.0.0" := by decide
  exact (TransGen.single hlinks.1).tail hlinks.2

end UploadService
