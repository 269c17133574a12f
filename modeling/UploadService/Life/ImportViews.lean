import UploadService.Life.Views

/-!
# The artifacts of an import

What a whole import leaves, when every download gives some content: the details of its row, its
dependencies, and its artifacts up to ids. Where the object key of a file is taken, the import
has fewer artifacts than the request.

Main results:

- `FilesViewed.tried`: what holds after one more file;
- `importWithFiles_views`: what the whole import leaves.
-/

namespace UploadService

open Prog ReleaseService FileUploadService RegulationStatusService

variable {env : UploadEnv} {db : UploadDb}

/-! ### The files of an import -/

/-- The object keys are free, and no two files have the same. -/
def AllFree (db : UploadDb) (p : ℕ) (v : String) (artifacts : List ImportArtifactDto) : Prop :=
  (artifacts.map (importKey p v)).Nodup ∧ ∀ a ∈ artifacts, importKey p v a ∉ db.objectKeys

theorem allFree_append {p : ℕ} {v : String} {done : List ImportArtifactDto} {a : ImportArtifactDto} :
    AllFree db p v (done ++ [a]) ↔ AllFree db p v done ∧ importKey p v a ∉ db.objectKeys ∧
      ∀ x ∈ done, importKey p v x ≠ importKey p v a := by
  unfold AllFree
  rw [List.map_append, List.map_singleton, List.nodup_append]
  constructor
  · rintro ⟨⟨hnodup, -, hdisjoint⟩, hfree⟩
    refine ⟨⟨hnodup, fun x hx => hfree x (List.mem_append_left _ hx)⟩,
      hfree a (List.mem_append_right _ (List.mem_singleton.mpr rfl)), fun x hx => ?_⟩
    exact hdisjoint _ (List.mem_map_of_mem hx) _ (List.mem_singleton.mpr rfl)
  · rintro ⟨⟨hnodup, hdone⟩, hown, hdisjoint⟩
    refine ⟨⟨hnodup, List.nodup_singleton _, ?_⟩, fun x hx => ?_⟩
    · intro k hk l hl
      obtain ⟨x, hx, rfl⟩ := List.mem_map.mp hk
      rw [List.mem_singleton.mp hl]
      exact hdisjoint x hx
    · rcases List.mem_append.mp hx with hx | hx
      · exact hdone x hx
      · rw [List.mem_singleton.mp hx]
        exact hown

/-- What holds after the files of the import that are done: each is there, or some are missing. -/
structure FilesViewed (env : UploadEnv) (downloads : String → Option Download) (p : ℕ) (v c : String)
    (s₁ : UploadDb) (done : List ImportArtifactDto) (s : UploadDb) : Prop where
  constraints : s.Constraints
  details : s.details = s₁.details
  dependencies : s.dependencies = s₁.dependencies
  keys : ∀ k, k ∈ s.objectKeys ↔ k ∈ s₁.objectKeys ∨ ∃ a ∈ done, importKey p v a = k
  free : AllFree s₁ p v done →
    viewsOf env s c = viewsOf env s₁ c ++ done.map (importedView downloads)
  taken : ¬ AllFree s₁ p v done →
    (viewsOf env s c).length < (viewsOf env s₁ c).length + done.length

/-- **Step.** The next file. -/
theorem FilesViewed.tried {downloads : String → Option Download} {p : ℕ} {v c : String}
    {s₁ s : UploadDb} {done : List ImportArtifactDto} (h : FilesViewed env downloads p v c s₁ done s)
    {r : Release} (hfind : s₁.findRelease p v = some r) (hc : r.catalogId = c) (allCame : Bool)
    {artifact : ImportArtifactDto} {content : Download}
    (hcontent : artifact.downloadUrl.bind downloads = some content) :
    FilesViewed env downloads p v c s₁ (done ++ [artifact])
      (tryImportArtifact env p v downloads allCame artifact s).2 := by
  obtain ⟨x, hx, hsame⟩ := findRelease_of_details h.constraints h.details hfind
  have htried := @tryImportArtifact_views env s h.constraints p v x hx downloads allCame artifact
    content hcontent
  obtain rfl : x.catalogId = c := (Release.details_inj hsame).1.trans hc
  have htaken : importKey p v artifact ∈ s.objectKeys ↔
      importKey p v artifact ∈ s₁.objectKeys ∨ ∃ a ∈ done, importKey p v a = importKey p v artifact :=
    h.keys _
  refine ⟨tryImportArtifact_constraints p v downloads allCame artifact s h.constraints,
    htried.details.trans h.details, htried.dependencies.trans h.dependencies, fun k => ?_, fun hall => ?_,
    fun hsome => ?_⟩
  · rw [htried.keys, h.keys]
    simp only [List.mem_append, List.mem_singleton, or_assoc, or_and_right, exists_or, exists_eq_left]
    exact or_congr Iff.rfl (or_congr Iff.rfl ⟨Eq.symm, Eq.symm⟩)
  · obtain ⟨hdone, hown, hothers⟩ := allFree_append.mp hall
    have hfree : importKey p v artifact ∉ s.objectKeys := by
      rw [htaken]
      rintro (hold | ⟨a, ha, hkey⟩)
      · exact hown hold
      · exact hothers a ha hkey
    rw [htried.views, if_neg hfree, h.free hdone, List.map_append, List.append_assoc]
    rfl
  · rw [htried.views, List.length_append, List.length_append]
    by_cases hdone : AllFree s₁ p v done
    · have hkey : importKey p v artifact ∈ s.objectKeys := by
        by_contra hfree
        rw [htaken] at hfree
        apply hsome
        rw [allFree_append]
        exact ⟨hdone, fun hold => hfree (.inl hold), fun a ha hkey => hfree (.inr ⟨a, ha, hkey⟩)⟩
      rw [if_pos hkey, h.free hdone, List.length_append, List.length_map]
      show _ + _ + 0 < _ + (_ + 1)
      omega
    · have hless := h.taken hdone
      have hone : (if importKey p v artifact ∈ s.objectKeys then []
          else [importedView downloads artifact]).length ≤ 1 := by
        split
        · exact Nat.zero_le 1
        · exact le_refl 1
      show _ < _ + (_ + 1)
      omega

/-! ### The release of an import -/

/-- The ids of the releases that the release depends on. -/
def dependencyIds (db : UploadDb) (c : String) : List String :=
  (db.dependencies.filter fun d => d.releaseId == c).map (·.dependencyReleaseId)

theorem dependencyIds_ignoresRefresh (c : String) : IgnoresRefresh fun db => dependencyIds db c where
  releases := fun _ _ _ _ => rfl
  missing := fun _ _ => rfl
  pending := fun _ _ => rfl

/-- The dependencies of a release that has none yet. -/
theorem dependencyIds_save {c : String} (hnone : ∀ d ∈ db.dependencies, d.releaseId ≠ c)
    (entities : List Release) :
    dependencyIds (saveDependencies c entities db) c = entities.map (·.catalogId) := by
  have hkept : Rows.deleteWhere (fun d : ReleaseDependency => d.releaseId == c &&
      !(entities.map (·.catalogId)).contains d.dependencyReleaseId) db.dependencies =
        db.dependencies := by
    apply List.filter_eq_self.mpr
    intro d hd
    simp [hnone d hd]
  have hadded : ((entities.map (·.catalogId)).map fun x => (⟨c, x⟩ : ReleaseDependency)).filter
      (fun d => !db.dependencies.contains d) =
        (entities.map (·.catalogId)).map fun x => ⟨c, x⟩ := by
    apply List.filter_eq_self.mpr
    intro d hd
    obtain ⟨x, -, rfl⟩ := List.mem_map.mp hd
    have hno : (⟨c, x⟩ : ReleaseDependency) ∉ db.dependencies := fun hmem => hnone _ hmem rfl
    simpa using hno
  unfold dependencyIds saveDependencies
  dsimp only
  rw [hkept, hadded, List.filter_append, List.map_append]
  have hold : db.dependencies.filter (fun d => d.releaseId == c) = [] := by
    apply List.filter_eq_nil_iff.mpr
    intro d hd
    simpa using hnone d hd
  have hnew : ((entities.map (·.catalogId)).map fun x => (⟨c, x⟩ : ReleaseDependency)).filter
      (fun d => d.releaseId == c) = (entities.map (·.catalogId)).map fun x => ⟨c, x⟩ := by
    apply List.filter_eq_self.mpr
    intro d hd
    obtain ⟨x, -, rfl⟩ := List.mem_map.mp hd
    exact beq_self_eq_true c
  rw [hold, hnew, List.map_map, List.map_nil, List.nil_append]
  exact List.map_id _

/-- The state after the row of the release, its dependencies and its default rule. -/
theorem importReleaseInto_run {dto : ImportReleaseDto} {p : ℕ} (hnew : db.findRelease p dto.version = none)
    {deps : Option (List Release)} (hdeps : importedDependencies dto p db = (.ok deps, db))
    {inserted : Release} {rows : List Release}
    (hins : insertRelease env.semver db.projects (importedRelease dto p (regulationsOf db p).length)
      db.releases = some (inserted, rows)) :
    ∃ s, s.releases = rows ∧ s.artifacts = db.artifacts ∧
      (s.dependencies = match deps with
        | none => db.dependencies
        | some entities => (saveDependencies inserted.catalogId entities db).dependencies) ∧
      importReleaseInto env dto p db = (do
        forEach (fun image => tryCatch (importDockerImage inserted.catalogId image) fun _ => pure ())
          dto.dockerImages
        refreshReleaseState env p dto.version : UploadProg Unit) s := by
  have hsave := saveRelease_new env (importedRelease dto p (regulationsOf db p).length) db
  rw [hins] at hsave
  unfold importReleaseInto
  rw [gets_bind_run, hnew]
  have hlink : ∀ t : UploadDb, (linkDefaultRuleToRelease inserted.catalogId t).releases = t.releases ∧
      (linkDefaultRuleToRelease inserted.catalogId t).artifacts = t.artifacts ∧
      (linkDefaultRuleToRelease inserted.catalogId t).dependencies = t.dependencies := by
    intro t
    unfold linkDefaultRuleToRelease
    split <;> exact ⟨rfl, rfl, rfl⟩
  cases deps with
  | none =>
      obtain ⟨hr, ha, hd⟩ := hlink { db with releases := rows }
      exact ⟨_, hr, ha, hd, (bind_run_ok hdeps _).trans (bind_run_ok hsave _)⟩
  | some entities =>
      obtain ⟨hr, ha, hd⟩ := hlink (saveDependencies inserted.catalogId entities
        { db with releases := rows })
      exact ⟨_, hr, ha, hd, (bind_run_ok hdeps _).trans (bind_run_ok hsave _)⟩

/-- What the import of a release leaves, before that of its files. -/
theorem importReleaseInto_views (hdb : db.Constraints) {dto : ImportReleaseDto} {p : ℕ}
    (hnew : db.findRelease p dto.version = none) {deps : Option (List Release)}
    (hdeps : importedDependencies dto p db = (.ok deps, db)) {inserted : Release} {rows : List Release}
    (hins : insertRelease env.semver db.projects (importedRelease dto p (regulationsOf db p).length)
      db.releases = some (inserted, rows))
    (hurls : (dto.dockerImages.map (·.imageUrl)).Nodup) :
    (importReleaseInto env dto p db).2.details = db.details ++ [inserted.details] ∧
    dependencyIds (importReleaseInto env dto p db).2 inserted.catalogId =
      (deps.getD []).map (·.catalogId) ∧
    viewsOf env (importReleaseInto env dto p db).2 inserted.catalogId =
      dto.dockerImages.map imageView := by
  obtain ⟨-, hfresh, -⟩ := insertRelease_some hins
  obtain ⟨s, hreleases, hartifacts, hdependencies, hrun⟩ := importReleaseInto_run hnew hdeps hins
  have hnone : s.artifactsOf inserted.catalogId = [] := by
    apply List.filter_eq_nil_iff.mpr
    intro a ha
    rw [hartifacts] at ha
    obtain ⟨r, hr, hkey⟩ := hdb.artifactReleases a ha
    simpa using fun heq => hfresh r hr (hkey.trans heq)
  have hfree : ∀ d ∈ db.dependencies, d.releaseId ≠ inserted.catalogId := by
    intro d hd heq
    obtain ⟨⟨r, hr, hkey⟩, -⟩ := hdb.dependencyReleases d hd
    exact hfresh r hr (hkey.trans heq)
  have hids : dependencyIds s inserted.catalogId = (deps.getD []).map (·.catalogId) := by
    unfold dependencyIds
    rw [hdependencies]
    cases deps with
    | none =>
        show (db.dependencies.filter _).map _ = []
        rw [List.filter_eq_nil_iff.mpr fun d hd => by simpa using hfree d hd]
        rfl
    | some entities => exact dependencyIds_save hfree entities
  obtain ⟨t, himages, hr, hd, hviews⟩ := importDockerImages_views hnone hurls
  rw [hrun, bind_run_ok himages]
  refine ⟨?_, ?_, ?_⟩
  · rw [(details_ignoresRefresh.refresh p dto.version).eq t]
    show t.releases.map _ = _
    rw [hr, hreleases, details_insert hins]
  · refine ((dependencyIds_ignoresRefresh _).refresh p dto.version |>.eq t).trans ?_
    unfold dependencyIds
    rw [hd]
    exact hids
  · exact ((viewsOf_ignoresRefresh env _).refresh p dto.version |>.eq t).trans hviews

/-- What an import with its files leaves. -/
structure ImportedAs (env : UploadEnv) (downloads : String → Option Download) (db : UploadDb)
    (dto : ImportReleaseDto) (p : ℕ) (inserted : Release) (dependencies : List String) (t : UploadDb)
    (r : Release) : Prop where
  found : t.findRelease p dto.version = some r
  details : r.details = inserted.details
  dependencies : dependencyIds t r.catalogId = dependencies
  free : AllFree db p dto.version dto.artifacts → viewsOf env t r.catalogId =
    dto.dockerImages.map imageView ++ dto.artifacts.map (importedView downloads)
  taken : ¬ AllFree db p dto.version dto.artifacts →
    (viewsOf env t r.catalogId).length < dto.dockerImages.length + dto.artifacts.length

/-- **Spec.** An import all whose files are downloaded. -/
theorem importWithFiles_views (hdb : db.Constraints) {dto : ImportReleaseDto} {p : ℕ}
    (hproject : namedProject db (some dto.projectIdentifier) 0 = some p)
    (hnew : db.findRelease p dto.version = none) {deps : Option (List Release)}
    (hdeps : importedDependencies dto p db = (.ok deps, db)) {inserted : Release} {rows : List Release}
    (hins : insertRelease env.semver db.projects (importedRelease dto p (regulationsOf db p).length)
      db.releases = some (inserted, rows))
    (hurls : (dto.dockerImages.map (·.imageUrl)).Nodup) {downloads : String → Option Download}
    (hcontents : ∀ a ∈ dto.artifacts, (truthy a.downloadUrl).isSome = true ∧
      ∃ content, a.downloadUrl.bind downloads = some content) :
    ∃ r, ImportedAs env downloads db dto p inserted ((deps.getD []).map (·.catalogId))
      (importWithFiles env dto downloads db).2 r := by
  obtain ⟨hdetails, hids, hviews⟩ := importReleaseInto_views hdb hnew hdeps hins hurls
  obtain ⟨result, hresolve, hof⟩ := resolveProject_run (some dto.projectIdentifier) 0 db
  obtain rfl : result = .ok p := (hof p).mpr hproject
  rcases @importReleaseInto_imported env db hdb dto p with ⟨e, hrun⟩ | ⟨-, c, s₁, hrun, himported⟩
  · -- a refused import would leave the releases as they were
    rw [hrun] at hdetails
    exact absurd hdetails.symm (by simp)
  rw [hrun] at hdetails hids hviews
  obtain ⟨hrow, -, -⟩ := insertRelease_some hins
  obtain ⟨r, hr, hsame⟩ : ∃ r ∈ s₁.releases, r.details = inserted.details := by
    apply List.mem_map.mp
    show _ ∈ s₁.details
    rw [hdetails]
    exact List.mem_append_right _ (List.mem_singleton.mpr rfl)
  obtain ⟨hc, hp, hv, -⟩ := Release.details_inj hsame
  have hfind : s₁.findRelease p dto.version = some r := by
    have hfound := himported.constraints.findRelease_of_mem hr
    rw [hp, hv, hrow] at hfound
    exact hfound
  rw [← hc] at hids hviews
  have hkeys : s₁.objectKeys = db.objectKeys := by
    have hfiles := congrArg (fun v => v.2.map fun f => f.2.1) himported.files
    simp only [UploadDb.fileView, List.map_map] at hfiles
    exact hfiles
  have hfree : AllFree s₁ p dto.version dto.artifacts ↔ AllFree db p dto.version dto.artifacts := by
    unfold AllFree
    rw [hkeys]
  have hstart : FilesViewed env downloads p dto.version r.catalogId s₁ [] s₁ :=
    ⟨himported.constraints, rfl, rfl, fun k => by simp, fun _ => by simp,
      fun h => absurd ⟨List.nodup_nil, fun _ ha => absurd ha List.not_mem_nil⟩ h⟩
  obtain ⟨s, hdone, hsame'⟩ := @importArtifactsInBackground_ends env p dto.version dto.artifacts downloads
    (FilesViewed env downloads p dto.version r.catalogId s₁) s₁ hstart
    fun done artifact allCame s hartifact h => by
      obtain ⟨-, content, hcontent⟩ := hcontents artifact hartifact
      exact h.tried hfind rfl allCame hcontent
  have hall : (dto.artifacts.filter fun a => (truthy a.downloadUrl).isSome) = dto.artifacts :=
    List.filter_eq_self.mpr fun a ha => (hcontents a ha).1
  rw [hall] at hdone
  have ht := @importArtifactsInBackground_constraints env p dto.version dto.artifacts downloads s₁
    himported.constraints
  unfold importWithFiles
  rw [bind_run_ok hresolve, bind_run_ok hrun]
  generalize (importArtifactsInBackground env p dto.version dto.artifacts downloads s₁).2 = t
    at hsame' ht ⊢
  obtain ⟨x, hx, hxr⟩ := findRelease_of_details ht
    ((hsame' details_ignoresRefresh).trans hdone.details) hfind
  have hxc : x.catalogId = r.catalogId := (Release.details_inj hxr).1
  refine ⟨x, hx, hxr.trans hsame, ?_, fun h => ?_, fun h => ?_⟩
  · rw [hxc, hsame' (dependencyIds_ignoresRefresh r.catalogId)]
    show (s.dependencies.filter _).map _ = _
    rw [hdone.dependencies]
    exact hids
  · rw [hxc, hsame' (viewsOf_ignoresRefresh env r.catalogId), hdone.free (hfree.mpr h), hviews]
  · rw [hxc, hsame' (viewsOf_ignoresRefresh env r.catalogId)]
    have hless := hdone.taken fun h' => h (hfree.mp h')
    rw [hviews, List.length_map] at hless
    exact hless

end UploadService
