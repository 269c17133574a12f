import Mathlib.Algebra.Group.Int.Defs
import UploadService.Life.Calls
import UploadService.Life.Sizes

/-!
# Total sizes and the calls of the release service

`setRelease` and `setReleaseArtifact` compute the total size anew after their writes.
`updateFileMetadata` changes nothing that it depends on. `deleteReleaseArtifact` deletes a file
and computes nothing.

Main results:

- `setRelease_due`, `setReleaseArtifact_due`, `updateFileMetadata_due`: the calls leave every
  release due;
- `deleteReleaseArtifact_due`: a deleted artifact without a size leaves every release due.
-/

namespace UploadService

open Prog ReleaseService FileUploadService RegulationStatusService

variable {env : UploadEnv} {db : UploadDb}

/-- Every release is due. -/
def AllDue (db : UploadDb) : Prop := db.sizing.DueExcept fun _ => False

theorem AllDue.of_sizing {db' : UploadDb} (h : AllDue db) (hsame : db'.sizing = db.sizing) :
    AllDue db' := by
  unfold AllDue
  rw [hsame]
  exact h

/-- Where the release that is computed anew is the only stale one, all are due afterwards. -/
theorem allDue_updateTotalSize (hdb : db.Constraints) {p : ℕ} {v : String} {r : Release}
    (hfind : db.findRelease p v = some r) (h : db.sizing.DueExcept (· = r.catalogId)) :
    AllDue (updateTotalSize p v db) := by
  apply (updateTotalSize_due hdb.releaseKeys hdb.releaseVersions hfind h).mono
  rintro c ⟨hc, hne⟩
  exact hne hc

/-! ### Setting a release -/

/-- What follows the save of the row ends with the total size. -/
theorem saveRelations_total (dto : SetReleaseDto) (isNew : Bool)
    (dependencies : Option (List Release)) (c : String) (db : UploadDb) :
    ∃ s : UploadDb, s.sizing = db.sizing ∧ s.releases = db.releases ∧
      (saveRelations dto isNew dependencies c db).2 = updateTotalSize dto.projectId dto.version s := by
  have hrest : ∀ s : UploadDb, s.sizing = db.sizing → s.releases = db.releases →
      ∃ t : UploadDb, t.sizing = db.sizing ∧ t.releases = db.releases ∧
        ((when isNew (Prog.modify (linkDefaultRuleToRelease c)) >>= fun _ =>
          (Prog.modify (updateTotalSize dto.projectId dto.version) : UploadProg Unit)) s).2 =
            updateTotalSize dto.projectId dto.version t := by
    intro s hsizing hrows
    have hlink : (linkDefaultRuleToRelease c s).sizing = s.sizing ∧
        (linkDefaultRuleToRelease c s).releases = s.releases := by
      unfold linkDefaultRuleToRelease
      split <;> exact ⟨rfl, rfl⟩
    cases isNew with
    | true => exact ⟨linkDefaultRuleToRelease c s, hlink.1.trans hsizing, hlink.2.trans hrows, rfl⟩
    | false => exact ⟨s, hsizing, hrows, rfl⟩
  cases dependencies with
  | none => exact hrest db rfl rfl
  | some entities => exact hrest (saveDependencies c entities db) rfl rfl

theorem saveRelations_due (hdb : db.Constraints) {dto : SetReleaseDto} (isNew : Bool)
    (dependencies : Option (List Release)) {r : Release}
    (hfind : db.findRelease dto.projectId dto.version = some r)
    (h : db.sizing.DueExcept (· = r.catalogId)) (c : String) :
    AllDue (saveRelations dto isNew dependencies c db).2 := by
  obtain ⟨s, hsizing, hrows, hrun⟩ := saveRelations_total dto isNew dependencies c db
  have hfind' : s.findRelease dto.projectId dto.version = some r := by
    unfold UploadDb.findRelease
    rw [hrows]
    exact hfind
  have hdue := updateTotalSize_due (hrows ▸ hdb.releaseKeys) (hrows ▸ hdb.releaseVersions) hfind'
    (hsizing ▸ h)
  rw [hrun]
  apply hdue.mono
  rintro x ⟨hx, hne⟩
  exact hne hx

/-- A save of the row makes no other release stale. -/
theorem due_of_saved {q : Release → Bool} {f : Release → Release} {c : String}
    (hf : ∀ r, q r = true → (f r).catalogId = c)
    (h : AllDue db) : (updateReleases q f db).sizing.DueExcept (· = c) := by
  apply h.widen
  intro e he hfresh
  obtain ⟨x', hx', rfl⟩ := List.mem_map.mp he
  rcases Rows.mem_updateWhere.mp hx' with ⟨x, hx, hkey, rfl⟩ | ⟨hx, hkey⟩
  · exact absurd (hf x hkey) hfresh
  · exact ⟨List.mem_map_of_mem hx, not_false, rfl⟩

/-- The details after an insert. -/
theorem details_insert {semver : SemverLib} {row inserted : Release} {rows : List Release}
    (h : insertRelease semver db.projects row db.releases = some (inserted, rows)) :
    rows.map Release.details = db.details ++ [inserted.details] := by
  rcases insertRelease_rows h with ⟨-, hrows⟩ | ⟨-, hrows⟩
  · rw [hrows, List.map_append]
    rfl
  · rw [hrows, List.map_append, List.map_map]
    rfl

/-- The metadata after an insert. -/
theorem metadata_insert {semver : SemverLib} {row inserted : Release} {rows : List Release}
    (h : insertRelease semver db.projects row db.releases = some (inserted, rows)) :
    rows.map (fun r => (r.catalogId, r.metadata)) =
      db.sizing.metadata ++ [(inserted.catalogId, row.metadata)] := by
  have hmetadata : inserted.metadata = row.metadata := by
    rw [(insertRelease_some h).1]
    rfl
  have hdetails := congrArg (List.map fun d => (d.1, d.2.2.2.2.2)) (details_insert h)
  rw [List.map_map, List.map_append, UploadDb.details, List.map_map, List.map_singleton] at hdetails
  rw [← hmetadata]
  exact hdetails

/-- The insert of a row makes no other release stale. -/
theorem due_of_insert {semver : SemverLib} {row inserted : Release} {rows : List Release}
    (hins : insertRelease semver db.projects row db.releases = some (inserted, rows))
    (h : AllDue db) :
    UploadDb.sizing { db with releases := rows } |>.DueExcept (· = inserted.catalogId) := by
  apply h.widen
  intro e he hfresh
  have he' : e ∈ db.sizing.metadata ++ [(inserted.catalogId, row.metadata)] := by
    rw [← metadata_insert hins]
    exact he
  rcases List.mem_append.mp he' with hold | hnew
  · exact ⟨hold, not_false, rfl⟩
  · rw [List.mem_singleton.mp hnew] at hfresh
    exact absurd rfl hfresh

/-- The row that was inserted is found. -/
theorem findRelease_insert (hdb : db.Constraints) {semver : SemverLib} {row inserted : Release}
    {rows : List Release}
    (hins : insertRelease semver db.projects row db.releases = some (inserted, rows)) :
    ∃ r, UploadDb.findRelease { db with releases := rows } row.projectId row.version = some r ∧
      r.catalogId = inserted.catalogId := by
  obtain ⟨hrow, -, -⟩ := insertRelease_some hins
  obtain ⟨hdb', -⟩ := hdb.insertRelease hins
  have hmem : (inserted.projectId, inserted.version, inserted.catalogId) ∈
      rows.map fun r : Release => (r.projectId, r.version, r.catalogId) := by
    rw [insertRelease_keys hins]
    exact List.mem_map_of_mem (f := fun r : Release => (r.projectId, r.version, r.catalogId))
      (List.mem_append_right db.releases (List.mem_singleton.mpr rfl))
  obtain ⟨r, hr, heq⟩ := List.mem_map.mp hmem
  obtain ⟨hp, hv, hc⟩ : r.projectId = inserted.projectId ∧ r.version = inserted.version ∧
      r.catalogId = inserted.catalogId := by simpa using heq
  have hfind := hdb'.findRelease_of_mem hr
  rw [hp, hv, hrow] at hfind
  exact ⟨r, hfind, hc⟩

theorem setRelease_due (hdb : db.Constraints) (h : AllDue db) (dto : SetReleaseDto) :
    AllDue (setRelease env dto db).2 := by
  have hstored := storeRelease_stored env dto db
  have hdue : ∀ result, Stored env dto db result → AllDue result.2 := by
    intro result hresult
    cases hresult with
    | refused e => exact h
    | inserted row inserted rows dependencies hfind hrow hins hdeps =>
        obtain ⟨name, required, hrow⟩ := hrow
        obtain ⟨r, hr, hc⟩ := findRelease_insert hdb hins
        rw [hrow] at hr
        have hstale := due_of_insert hins h
        rw [← hc] at hstale
        exact saveRelations_due (hdb.insertRelease hins).1 true dependencies hr hstale _
    | changed r row dependencies hfind hedit hrow hdeps =>
        obtain ⟨name, required, hrow⟩ := hrow
        obtain ⟨hmem, hp, hv⟩ := UploadDb.findRelease_some hfind
        have hkeys : row.catalogId = r.catalogId ∧ row.projectId = r.projectId ∧
            row.version = r.version := by
          rw [hrow]
          exact ⟨rfl, rfl, rfl⟩
        have hdb' : (updateReleases (fun x => x.catalogId == r.catalogId) (fun _ => row)
            db).Constraints := by
          apply hdb.updateReleases
          intro x hx hq
          obtain rfl := hdb.releaseKeys.eq_of_mem hx hmem (by simpa using hq)
          exact hkeys
        have hfind' : (updateReleases (fun x => x.catalogId == r.catalogId) (fun _ => row)
            db).findRelease dto.projectId dto.version = some row := by
          have hin : row ∈ (updateReleases (fun x => x.catalogId == r.catalogId) (fun _ => row)
              db).releases := Rows.mem_updateWhere.mpr (.inl ⟨r, hmem, by simp, rfl⟩)
          have hfound := hdb'.findRelease_of_mem hin
          rw [hkeys.2.1, hkeys.2.2, hp, hv] at hfound
          exact hfound
        have hstale : (updateReleases (fun x => x.catalogId == r.catalogId) (fun _ => row)
            db).sizing.DueExcept (· = row.catalogId) := by
          apply due_of_saved _ h
          exact fun _ _ => rfl
        exact saveRelations_due hdb' false dependencies hfind' hstale _
  unfold setRelease
  apply Keeps.bind_after (I := AllDue) (hdue _ hstored)
  intro _
  refine Keeps.bind (Keeps.ite (Keeps.modify fun s hs => ?_) ?_) fun _ => ?_
  · exact hs.of_sizing (sizing_updateReleases s fun _ => rfl)
  · intro s hs
    exact hs.of_sizing ((refreshReleaseState_sizing _ _).eq s)
  · exact Keeps.bind (keeps_of_reads fun _ => getRelease_reads _ _ _) fun _ => Keeps.pure _

/-! ### Artifacts -/

/-- The sizing is the same but for file uploads of no known size. -/
theorem AllDue.of_same {db' : UploadDb} (h : AllDue db)
    (hmetadata : db'.sizing.metadata = db.sizing.metadata) (hlinks : db'.links = db.links)
    (hsizes : ∀ id, db'.sizing.fileSize id = db.sizing.fileSize id) : AllDue db' := by
  apply h.widen
  intro e he _
  refine ⟨hmetadata ▸ he, not_false, ?_⟩
  exact Sizing.linked_congr hlinks fun link _ _ => hsizes link.2

theorem links_append (db : UploadDb) (a : ReleaseArtifact) (nextId : ℕ) :
    UploadDb.links { db with artifacts := db.artifacts ++ [a], nextId := nextId } =
      db.links ++ a.link.toList := by
  show (db.artifacts ++ [a]).filterMap ReleaseArtifact.link = _
  rw [List.filterMap_append]
  congr 1

/-- A new file upload has no size. -/
theorem fileSize_append {f : FileUpload} (hsize : f.size = none) (nextId id : ℕ) :
    (UploadDb.sizing { db with fileUploads := db.fileUploads ++ [f], nextId := nextId }).fileSize id =
      db.sizing.fileSize id := by
  rw [fileSize_sizing, fileSize_sizing]
  unfold Rows.findKey
  rw [List.find?_append]
  cases hfind : db.fileUploads.find? fun g => decide (g.id = id) with
  | some g => rfl
  | none =>
      rw [Option.none_or, List.find?_singleton]
      split
      · exact hsize
      · rfl

theorem fileStep_sizing (dto : SetReleaseArtifactDto) (db : UploadDb) :
    (fileStep env dto db).2.releases = db.releases ∧ (fileStep env dto db).2.links = db.links ∧
      ∀ id, (fileStep env dto db).2.sizing.fileSize id = db.sizing.fileSize id := by
  unfold fileStep
  cases dto.type with
  | file =>
      dsimp only
      unfold upsertFileUpload
      split
      · refine ⟨rfl, rfl, fun id => ?_⟩
        apply congrArg (Sizing.fileSize · id)
        apply sizing_updateFiles
        exact fun _ => ⟨rfl, rfl⟩
      · refine ⟨rfl, rfl, fun id => ?_⟩
        exact fileSize_append rfl _ id
  | dockerImage | rpm | deb => exact ⟨rfl, rfl, fun _ => rfl⟩

theorem AllDue.fileStep (h : AllDue db) (dto : SetReleaseArtifactDto) :
    AllDue (fileStep env dto db).2 := by
  obtain ⟨hrows, hlinks, hsizes⟩ := @fileStep_sizing env dto db
  apply h.of_same _ hlinks hsizes
  show List.map _ _ = List.map _ _
  rw [hrows]

/-- Only the release of the artifact can become stale. -/
theorem Upserted.due {dto : SetReleaseArtifactDto} {c : String} {fileUploadId : Option ℕ}
    {db' : UploadDb} (hups : Upserted dto c fileUploadId db db') (h : AllDue db) :
    db'.sizing.DueExcept (· = c) := by
  cases hups with
  | taken => exact h.mono fun _ => False.elim
  | existing a ha hsame =>
      apply h.widen
      intro e he _
      refine ⟨he, not_false, Sizing.linked_congr ?_ fun _ _ _ => rfl⟩
      show (Rows.updateWhere _ _ db.artifacts).filterMap ReleaseArtifact.link = db.links
      unfold Rows.updateWhere UploadDb.links
      rw [List.filterMap_map]
      apply List.filterMap_congr
      intro b _
      by_cases hb : isSameArtifact dto c fileUploadId b = true
      · obtain ⟨-, hrelease, -, -, hfile⟩ := artifactRow_spec dto fileUploadId b
        obtain ⟨-, -, hupload⟩ := isSameArtifact_spec hb
        have hsameFile : (artifactRow dto fileUploadId b).fileUploadId = b.fileUploadId := by
          rw [hfile]
          split
          · rename_i htype
            exact (hupload htype).symm
          · rfl
        simp [hb, ReleaseArtifact.link, hrelease, hsameFile]
      · simp [hb]
  | new hnone hfree =>
      apply h.widen
      intro e he hfresh
      refine ⟨he, not_false, ?_⟩
      have hlinks := links_append db (artifactRow dto fileUploadId (newArtifact db.nextId c))
        (db.nextId + 1)
      apply Sizing.linked_append hlinks
      · intro link hlink
        obtain ⟨id, -, rfl⟩ := Option.map_eq_some_iff.mp (Option.mem_toList.mp hlink)
        rw [(artifactRow_spec dto fileUploadId _).2.1]
        exact fun heq => hfresh heq.symm
      · exact fun _ _ _ => rfl

theorem setReleaseArtifact_due (hdb : db.Constraints) (h : AllDue db) (dto : SetReleaseArtifactDto) :
    AllDue (setReleaseArtifact env dto db).2 := by
  have hset := setReleaseArtifact_set env dto db
  generalize (setReleaseArtifact env dto db).2 = db' at hset
  obtain ⟨hfile, hreleases, -, hthere, hsome⟩ := @fileStep_constraints env db dto hdb
  cases hset with
  | refused => exact h
  | fileOnly r hfind hedit => exact h.fileStep dto
  | set r s hfind hedit hups =>
      have hkey : ∃ x ∈ (fileStep env dto db).2.releases, x.catalogId = r.catalogId :=
        ⟨r, hreleases ▸ (UploadDb.findRelease_some hfind).1, rfl⟩
      have hs := hups.constraints hfile hkey hthere hsome
      have hfind' : s.findRelease dto.projectId dto.version = some r := by
        have hrows : s.releases = db.releases := by
          cases hups with
          | taken | existing a ha hsame | new hnone hfree => exact hreleases
        unfold UploadDb.findRelease
        rw [hrows]
        exact hfind
      have hdue := allDue_updateTotalSize hs hfind' (hups.due (h.fileStep dto))
      split
      · exact hdue
      · exact hdue

theorem updateFileMetadata_due (h : AllDue db) (dto : UpdateFilePropertiesDto) :
    AllDue (updateFileMetadata env dto db).2 := by
  have hkeeps : Keeps AllDue (updateFileMetadata env dto) := by
    refine Keeps.bind (Keeps.gets _) fun found => ?_
    cases found with
    | none => exact Keeps.throw _
    | some artifact =>
        refine Keeps.bind (Keeps.gets _) fun found => ?_
        cases found with
        | none => exact Keeps.throw _
        | some release =>
            refine Keeps.bind ?_ fun _ => ?_
            · intro s hs
              obtain ⟨result, hrun, -⟩ := checkReadonlyReleasePermission_run env release.status s
              rw [hrun]
              exact hs
            · refine Keeps.ite (Keeps.modify fun s hs => hs.of_same rfl ?_ fun _ => rfl) (Keeps.throw _)
              show (Rows.updateWhere _ _ s.artifacts).filterMap ReleaseArtifact.link = _
              unfold Rows.updateWhere UploadDb.links
              rw [List.filterMap_map]
              apply List.filterMap_congr
              intro a _
              show ReleaseArtifact.link (if some a.id == dto.id then withProperties dto a else a) = _
              split <;> rfl
  exact hkeeps db h

/-! ### Deleting an artifact -/

/-- The file upload behind the artifact has no size, or the size 0. -/
def CountsNothing (db : UploadDb) (a : ReleaseArtifact) : Prop :=
  ((db.fileUploadOf a).bind (·.size)).getD 0 = 0

theorem removeFile_sizing (id : ℕ) : Frames UploadDb.sizing (removeFile env id) := by
  intro observed
  refine Keeps.bind (Keeps.gets _) fun found => ?_
  cases found with
  | none => exact Keeps.pure _
  | some file =>
      refine Keeps.bind (Keeps.when (Keeps.modify fun db h => h)) fun _ => Keeps.modify fun db h => ?_
      refine Eq.trans (sizing_updateFiles db ?_) h
      exact fun _ => ⟨rfl, rfl⟩

/-- An artifact that counts nothing goes. -/
theorem AllDue.deleteArtifact (hdb : db.Constraints) (h : AllDue db) {a : ReleaseArtifact}
    (ha : a ∈ db.artifacts) (hcounts : CountsNothing db a) : AllDue (deleteArtifact a.id db) := by
  apply h.widen
  intro e he _
  refine ⟨he, not_false, ?_⟩
  show (((Rows.deleteWhere (fun b => b.id == a.id) db.artifacts).filterMap
    ReleaseArtifact.link).map (db.sizing.weight e.1)).sum =
      ((db.artifacts.filterMap ReleaseArtifact.link).map (db.sizing.weight e.1)).sum
  apply Rows.sum_filterMap_deleteWhere
  intro b hb hid link hlink
  obtain rfl := hdb.artifactKeys.eq_of_mem hb ha (by simpa using hid)
  obtain ⟨id, hfile, rfl⟩ := Option.map_eq_some_iff.mp hlink
  have hsize : (db.sizing.fileSize id).getD 0 = 0 := by
    unfold CountsNothing UploadDb.fileUploadOf at hcounts
    rw [hfile] at hcounts
    rw [fileSize_sizing]
    exact hcounts
  show (if b.releaseId = e.1 then (((db.sizing.fileSize id).getD 0 : ℕ) : ℤ) else 0) = 0
  rw [hsize]
  split <;> rfl

/-- A file upload goes that no artifact holds. -/
theorem AllDue.deleteFile (h : AllDue db) {id : ℕ} (hfree : ∀ a ∈ db.artifacts, a.fileUploadId ≠ some id) :
    AllDue { db with fileUploads := Rows.deleteWhere (fun f => f.id == id) db.fileUploads } := by
  apply h.widen
  intro e he _
  refine ⟨he, not_false, Sizing.linked_congr rfl ?_⟩
  rintro ⟨c, x⟩ hlink -
  obtain ⟨a, ha, -, hfile⟩ := mem_links.mp hlink
  rw [fileSize_sizing, fileSize_sizing]
  show (List.find? _ (Rows.deleteWhere _ db.fileUploads)).bind _ = _
  rw [Rows.find?_deleteWhere]
  · rfl
  · intro f _ hid
    apply eq_false_of_ne_true
    intro hf
    have hx : f.id = x := by simpa using hf
    apply hfree a ha
    rw [hfile, ← hx, beq_iff_eq.mp hid]

theorem removeArtifact_due (hdb : db.Constraints) (h : AllDue db) {a : ReleaseArtifact}
    (ha : a ∈ db.artifacts) (hcounts : CountsNothing db a) : AllDue (removeArtifact env a db).2 := by
  unfold removeArtifact
  have hchanged : ∀ s : UploadDb, s.Constraints → AllDue s → s.artifacts = db.artifacts →
      s.sizing = db.sizing → CountsNothing s a := by
    intro s hs hdue hartifacts hsizing
    unfold CountsNothing at hcounts ⊢
    cases hfile : a.fileUploadId with
    | none => simp [UploadDb.fileUploadOf, hfile]
    | some id =>
        have hsize : ∀ t : UploadDb, (t.fileUploadOf a).bind (·.size) = t.sizing.fileSize id := by
          intro t
          rw [fileSize_sizing]
          unfold UploadDb.fileUploadOf
          rw [hfile]
          rfl
        rw [hsize] at hcounts ⊢
        rw [hsizing]
        exact hcounts
  cases htype : a.type with
  | file =>
      cases hfile : a.fileUploadId with
      | none => exact h
      | some fileId =>
          show AllDue ((removeFile env fileId >>= _) db).2
          rw [bind_run_ok (Prod.ext (removeFile_ok env fileId db) rfl)]
          have hremoved := @removeFile_constraints env fileId db hdb
          have hrows := (@removeFile_artifacts env fileId).eq db
          have hsizing := (@removeFile_sizing env fileId).eq db
          have hdue := h.of_sizing hsizing
          have hdeleted := hdue.deleteArtifact hremoved (hrows ▸ ha)
            (hchanged _ hremoved hdue hrows hsizing)
          apply hdeleted.deleteFile
          intro b hb hbfile
          obtain ⟨hb, hother⟩ := Rows.mem_deleteWhere.mp hb
          rw [hrows] at hb
          have heq : b = a := hdb.artifactFiles b hb a ha fileId hbfile hfile
          simp [heq] at hother
  | dockerImage | rpm | deb =>
      cases hfile : a.fileUploadId with
      | none => exact h.deleteArtifact hdb ha hcounts
      | some fileId =>
          show AllDue ((onFileChange none >>= _) db).2
          rw [bind_run_ok (Prod.ext (onFileChange_ok none db) rfl)]
          have hs := onFileChange_constraints none db hdb
          have hdue : AllDue (onFileChange none db).2 := (onFileChange_due hdb h).1
          have hartifacts : (onFileChange none db).2.artifacts = db.artifacts :=
            onFileChange_frames (fun _ _ _ => rfl) none db
          apply hdue.deleteArtifact hs (hartifacts ▸ ha)
          unfold CountsNothing UploadDb.fileUploadOf at hcounts ⊢
          rw [onFileChange_fileUploads]
          exact hcounts

theorem deleteReleaseArtifact_due (hdb : db.Constraints) (h : AllDue db) {p : ℕ} {v : String}
    {id : ℕ} {skip : Bool} (hcounts : ∀ a status, findArtifact db p v id = some (a, status) →
      (skip = false → isReadonly env status = false) → CountsNothing db a) :
    AllDue (deleteReleaseArtifact env p v id skip db).2 := by
  unfold deleteReleaseArtifact
  rw [gets_bind_run]
  cases hfind : findArtifact db p v id with
  | none => exact h
  | some found =>
      obtain ⟨a, status⟩ := found
      have hdone : (skip = false → isReadonly env status = false) →
          AllDue ((removeArtifact env a >>= fun _ => pure "Release Artifact deleted") db).2 := by
        intro hedit
        have hremove := @removeArtifact_due env db hdb h a (findArtifact_some hfind).1
          (hcounts a status hfind hedit)
        exact Keeps.bind_after hremove fun _ => Keeps.pure _
      cases skip with
      | true => exact hdone nofun
      | false =>
          show AllDue ((checkReadonlyReleasePermission env status >>= _) db).2
          rw [checkReadonlyReleasePermission_bind]
          cases hread : isReadonly env status with
          | true => exact h
          | false => exact hdone fun _ => hread

end UploadService
