import Mathlib.Data.List.TakeWhile
import UploadService.Life.StatusRows

/-!
# Requests about one regulation

A request about the status of a regulation should be about the status that is linked to it. The
service writes that status, by the unique constraint; but it reads and deletes the first status
of the release that answers to the name. A status of another regulation answers to it where its
snapshot displays the name, and so does a status whose regulation was deleted.

Main results:

- `StatusWrite.write_own`: the write reaches the status of the regulation, and no other;
- `status_op_own_iff`: each request is about the status of the regulation exactly when no other
  status that answers to the name comes before it.
-/

namespace UploadService

open Prog RegulationStatusService

variable {env : UploadEnv} {db : UploadDb} {g : Regulation} {r : Release}

/-! ### The requests -/

/-- A request about the status of a regulation. -/
inductive StatusOp where
  | setRegulationStatus (value : String) (reportDetails : Option String)
  | setComplianceStatus (isCompliant : Bool)
  | getVersionRegulationStatus
  | deleteVersionRegulationStatus
  deriving DecidableEq, Repr

/-- The request names the regulation and the release. -/
def statusParams (projectIdentifier : Option Identifier) (g : Regulation) (r : Release) :
    RegulationStatusParams := ⟨projectIdentifier, g.projectId, r.version, g.name⟩

/-- A write of the status: it is the status of the regulation that is written and returned, and
the others stay. -/
def WritesOwn (isCompliant : Bool) (g : Regulation) (r : Release) (db : UploadDb)
    (run : Except Exception RegulationStatusDto × UploadDb) : Prop :=
  ∃ s, ownStatus run.2 g r = some s ∧ s.isCompliant = isCompliant ∧
    run.1 = .ok (toDto run.2 s) ∧
    run.2.regulationStatuses.filter (fun t => !isFor g r t) =
      db.regulationStatuses.filter fun t => !isFor g r t

/-- A read of the status of the regulation. -/
def ReadsOwn (g : Regulation) (r : Release) (db : UploadDb)
    (run : Except Exception RegulationStatusDto × UploadDb) : Prop :=
  run.2 = db ∧ match ownStatus db g r with
    | some s => run.1 = .ok (toDto db s)
    | none => ∃ e, run.1 = .error e

/-- A delete of the status of the regulation, and of no other row. -/
def DeletesOwn (g : Regulation) (r : Release) (db : UploadDb)
    (run : Except Exception String × UploadDb) : Prop :=
  match ownStatus db g r with
  | some s => run = (.ok "Regulation status deleted", { db with
      regulationStatuses := Rows.deleteWhere (fun t => t.id == s.id) db.regulationStatuses })
  | none => ∃ e, run = (.error e, db)

/-- The request is about the status of the regulation. A value is judged first; a value that
cannot be judged is not stored. -/
def StatusOp.Own (env : UploadEnv) (params : RegulationStatusParams) (g : Regulation) (r : Release)
    (db : UploadDb) : StatusOp → Prop
  | setRegulationStatus value reportDetails => ∀ isCompliant,
      env.enforce db g value = .ok isCompliant → WritesOwn isCompliant g r db
        (RegulationStatusService.setRegulationStatus env params value reportDetails db)
  | setComplianceStatus isCompliant => WritesOwn isCompliant g r db
      (RegulationStatusService.setComplianceStatus params isCompliant db)
  | getVersionRegulationStatus => ReadsOwn g r db
      (RegulationStatusService.getVersionRegulationStatus params db)
  | deleteVersionRegulationStatus => DeletesOwn g r db
      (RegulationStatusService.deleteVersionRegulationStatus params.projectId params.version
        (some params.regulation) db)

/-- The request comes to look for a status. -/
def StatusOp.Looks (env : UploadEnv) (g : Regulation) (db : UploadDb) : StatusOp → Prop
  | setRegulationStatus value _ => ∃ isCompliant, env.enforce db g value = .ok isCompliant
  | _ => True

/-- No other status of the release that answers to the name of the regulation comes before the
status of the regulation, or is there at all where the regulation has none. -/
def NotShadowed (db : UploadDb) (g : Regulation) (r : Release) : Prop :=
  ∀ s ∈ db.regulationStatuses.takeWhile (fun s => !isFor g r s),
    (s.versionId == r.catalogId && isNamed db (some g.name) s) = false

instance : Decidable (NotShadowed db g r) :=
  inferInstanceAs (Decidable (∀ s ∈ db.regulationStatuses.takeWhile _, _))

/-! ### The status that is found -/

/-- The first status of the release that answers to the name. -/
def namedStatus (db : UploadDb) (g : Regulation) (r : Release) : Option RegulationStatus :=
  db.regulationStatuses.find? fun s => s.versionId == r.catalogId && isNamed db (some g.name) s

theorem namedStatus_eq (h : StatusSchema db) (hr : r ∈ db.releases)
    (hproject : r.projectId = g.projectId) :
    (db.regulationStatuses.find? fun s => isStatusOf db g.projectId r.version s &&
      isNamed db (some g.name) s) = namedStatus db g r := by
  have hfind : db.findRelease g.projectId r.version = some r := by
    rw [← hproject]
    exact h.constraints.findRelease_of_mem hr
  unfold namedStatus
  congr 1
  funext s
  have hof : isStatusOf db g.projectId r.version s = (s.versionId == r.catalogId) := by
    rw [Bool.eq_iff_iff, isStatusOf_iff h.constraints hfind, beq_iff_eq]
  rw [hof]

/-- **Step.** The status found is that of the regulation where no other comes before. -/
theorem namedStatus_own_iff (h : StatusSchema db) (hg : g ∈ db.regulations) :
    namedStatus db g r = ownStatus db g r ↔ NotShadowed db g r := by
  apply Rows.find?_eq_find?_iff
  intro s _ hs
  rw [(isFor_iff.mp hs).2, isNamed_isFor h hg hs, beq_self_eq_true]
  rfl

theorem ownStatus_some {s : RegulationStatus} (hs : ownStatus db g r = some s) :
    s ∈ db.regulationStatuses ∧ isFor g r s = true :=
  ⟨List.mem_of_find?_eq_some hs, List.find?_some hs⟩

theorem namedStatus_some {s : RegulationStatus} (hs : namedStatus db g r = some s) :
    s ∈ db.regulationStatuses ∧ s.versionId = r.catalogId := by
  refine ⟨List.mem_of_find?_eq_some hs, ?_⟩
  have hboth := List.find?_some hs
  simp only [Bool.and_eq_true, beq_iff_eq] at hboth
  exact hboth.1

/-- A status that is shown as the status of the regulation is that status. -/
theorem namedStatus_eq_of_toDto (h : StatusSchema db) (hg : g ∈ db.regulations)
    (hr : r ∈ db.releases) (hproject : r.projectId = g.projectId) {s t : RegulationStatus}
    (hs : ownStatus db g r = some s) (ht : namedStatus db g r = some t)
    (heq : toDto db t = toDto db s) : t = s := by
  obtain ⟨hsmem, hsfor⟩ := ownStatus_some hs
  obtain ⟨htmem, htof⟩ := namedStatus_some ht
  have htfor := isFor_of_toDto_eq h hg hr hproject htmem htof hsfor heq
  exact isFor_unique h htmem hsmem htfor hsfor

theorem getVersionRegulationStatus_named (h : StatusSchema db) (hr : r ∈ db.releases)
    (hproject : r.projectId = g.projectId) (projectIdentifier : Option Identifier) :
    getVersionRegulationStatus (statusParams projectIdentifier g r) db =
      (match namedStatus db g r with
        | some s => .ok (toDto db s)
        | none => .error (.notFound (s!"Regulation status with regulation {g.name} for " ++
            s!"Project ID {g.projectId} not found")), db) := by
  unfold getVersionRegulationStatus
  rw [gets_bind_run]
  have hnamed : (db.regulationStatuses.find? fun s =>
      isStatusOf db (statusParams projectIdentifier g r).projectId
        (statusParams projectIdentifier g r).version s &&
      isNamed db (some (statusParams projectIdentifier g r).regulation) s) = namedStatus db g r :=
    namedStatus_eq h hr hproject
  rw [hnamed]
  cases namedStatus db g r with
  | none => rfl
  | some s => rfl

/-- A read answers with the status of the regulation where that is the one found. -/
theorem reads_own_iff (h : StatusSchema db) (hg : g ∈ db.regulations) (hr : r ∈ db.releases)
    (hproject : r.projectId = g.projectId) (projectIdentifier : Option Identifier) :
    ReadsOwn g r db (getVersionRegulationStatus (statusParams projectIdentifier g r) db) ↔
      NotShadowed db g r := by
  rw [← namedStatus_own_iff h hg, getVersionRegulationStatus_named h hr hproject]
  unfold ReadsOwn
  cases hown : ownStatus db g r with
  | none =>
      cases hnamed : namedStatus db g r with
      | none => simp
      | some t => simp
  | some s =>
      cases hnamed : namedStatus db g r with
      | none => simp
      | some t =>
          simp only [true_and, Except.ok.injEq, Option.some.injEq]
          constructor
          · exact namedStatus_eq_of_toDto h hg hr hproject hown hnamed
          · intro heq
            rw [heq]

/-- A delete takes the status of the regulation where that is the one found. -/
theorem deletes_own_iff (h : StatusSchema db) (hg : g ∈ db.regulations) (hr : r ∈ db.releases)
    (hproject : r.projectId = g.projectId) :
    DeletesOwn g r db (deleteVersionRegulationStatus g.projectId r.version (some g.name) db) ↔
      NotShadowed db g r := by
  rw [← namedStatus_own_iff h hg]
  unfold DeletesOwn deleteVersionRegulationStatus
  rw [gets_bind_run, namedStatus_eq h hr hproject]
  cases hown : ownStatus db g r with
  | none =>
      cases hnamed : namedStatus db g r with
      | none => exact ⟨fun _ => rfl, fun _ => ⟨_, rfl⟩⟩
      | some t =>
          constructor
          · intro hrun
            obtain ⟨e, he⟩ := hrun
            cases congrArg Prod.fst he
          · intro heq
            cases heq
  | some s =>
      cases hnamed : namedStatus db g r with
      | none =>
          constructor
          · intro he
            cases congrArg Prod.fst he
          · intro heq
            cases heq
      | some t =>
          constructor
          · intro heq
            have hrows : Rows.deleteWhere (fun x : RegulationStatus => x.id == t.id)
                db.regulationStatuses = Rows.deleteWhere (fun x => x.id == s.id)
                  db.regulationStatuses := congrArg (UploadDb.regulationStatuses ·.2) heq
            obtain ⟨hsmem, -⟩ := ownStatus_some hown
            obtain ⟨htmem, -⟩ := namedStatus_some hnamed
            by_cases hid : t.id = s.id
            · rw [h.constraints.statusKeys.eq_of_mem htmem hsmem hid]
            · -- the delete of another row leaves the status of the regulation
              have hkept : s ∈ Rows.deleteWhere (fun x : RegulationStatus => x.id == t.id)
                  db.regulationStatuses :=
                Rows.mem_deleteWhere.mpr ⟨hsmem, by simpa using fun heq => hid heq.symm⟩
              rw [hrows] at hkept
              simp [Rows.mem_deleteWhere] at hkept
          · intro heq
            rw [Option.some.inj heq]
            rfl

/-! ### The status that is written -/

/-- The write of `setRegulationStatus` and `setComplianceStatus`: the row of the regulation and
the release, with the verdict. -/
structure StatusWrite (g : Regulation) (r : Release) (isCompliant : Bool) where
  row : RegulationStatus
  change : RegulationStatus → RegulationStatus
  isFor_row : isFor g r row = true
  row_isCompliant : row.isCompliant = isCompliant
  change_keys : ∀ s, (change s).id = s.id ∧ (change s).regulationId = s.regulationId ∧
    (change s).versionId = s.versionId
  change_isCompliant : ∀ s, (change s).isCompliant = isCompliant

namespace StatusWrite

variable {isCompliant : Bool} (w : StatusWrite g r isCompliant)

def write (db : UploadDb) : UploadDb := upsertStatus w.row w.change db

theorem isFor_change {k : Regulation} {q : Release} (s : RegulationStatus) :
    isFor k q (w.change s) = isFor k q s := by
  unfold isFor
  rw [(w.change_keys s).2.1, (w.change_keys s).2.2]

theorem isSameStatus_row : isSameStatus w.row = isFor g r := by
  funext s
  obtain ⟨hid, hof⟩ := isFor_iff.mp w.isFor_row
  unfold isSameStatus isFor
  rw [hid, hof]

/-- The write changes the status of the regulation, or inserts it. -/
theorem write_eq (db : UploadDb) : w.write db =
    if db.regulationStatuses.any (isFor g r) then
      { db with regulationStatuses := Rows.updateWhere (isFor g r) w.change db.regulationStatuses }
    else
      { db with
        regulationStatuses := db.regulationStatuses ++ [{ w.row with id := db.nextId }]
        nextId := db.nextId + 1 } := by
  unfold write upsertStatus
  rw [w.isSameStatus_row]

theorem regulations_write (db : UploadDb) : (w.write db).regulations = db.regulations := by
  rw [w.write_eq]
  split <;> rfl

theorem releases_write (db : UploadDb) : (w.write db).releases = db.releases := by
  rw [w.write_eq]
  split <;> rfl

/-- A status after the write is one from before, or the one that is inserted. -/
theorem mem_write {s : RegulationStatus} (hs : s ∈ (w.write db).regulationStatuses) :
    (∃ t ∈ db.regulationStatuses, s.id = t.id ∧ s.regulationId = t.regulationId ∧
      s.versionId = t.versionId) ∨
    ((∀ t ∈ db.regulationStatuses, isFor g r t = false) ∧ isFor g r s = true ∧ s.id = db.nextId) := by
  rw [w.write_eq] at hs
  split at hs
  · left
    rcases Rows.mem_updateWhere.mp hs with ⟨t, ht, -, rfl⟩ | ⟨hs, -⟩
    · exact ⟨t, ht, w.change_keys t⟩
    · exact ⟨s, hs, rfl, rfl, rfl⟩
  · rename_i hnone
    rcases List.mem_append.mp hs with hs | hs
    · exact .inl ⟨s, hs, rfl, rfl, rfl⟩
    · right
      rw [List.mem_singleton.mp hs]
      refine ⟨fun t ht => ?_, w.isFor_row, rfl⟩
      rw [Bool.not_eq_true, List.any_eq_false] at hnone
      simpa using hnone t ht

/-- **Step.** The write keeps the schema. -/
theorem write_schema (h : StatusSchema db) (hg : g ∈ db.regulations) (hr : r ∈ db.releases)
    (hproject : r.projectId = g.projectId) : StatusSchema (w.write db) := by
  obtain ⟨hrowid, hrowof⟩ := isFor_iff.mp w.isFor_row
  have hconstraints : (w.write db).Constraints := by
    apply h.constraints.upsertStatus
    · exact ⟨r, hr, hrowof.symm⟩
    · exact fun s => ⟨(w.change_keys s).1, (w.change_keys s).2.2⟩
  refine { constraints := hconstraints, regulationKeys := ?_, regulationNames := ?_,
           links := fun s hs id hid => ?_, linkedOnce := fun s hs t ht hlinked hid hof => ?_ }
  · rw [w.regulations_write]
    exact h.regulationKeys
  · rw [w.regulations_write]
    exact h.regulationNames
  · rw [w.regulations_write, w.releases_write]
    rcases w.mem_write hs with ⟨t, ht, -, hlink, hof⟩ | ⟨-, hfor, -⟩
    · rw [hof]
      exact h.links t ht id (hlink ▸ hid)
    · obtain ⟨hlink, hof⟩ := isFor_iff.mp hfor
      refine ⟨g, hg, Option.some.inj (hlink.symm.trans hid), fun q hq hkey => ?_⟩
      rw [h.constraints.releaseKeys.eq_of_mem hq hr (hkey.trans hof), hproject]
  · have hkeys := hconstraints.statusKeys
    apply hkeys.eq_of_mem hs ht
    rcases w.mem_write hs with ⟨s', hs', hsid, hslink, hsof⟩ | ⟨hnone, hsfor, hsid⟩
    · rcases w.mem_write ht with ⟨t', ht', htid, htlink, htof⟩ | ⟨hnone, htfor, -⟩
      · rw [hsid, htid]
        congr 1
        apply h.linkedOnce s' hs' t' ht'
        · rwa [← hslink]
        · rw [← hslink, ← htlink, hid]
        · rw [← hsof, ← htof, hof]
      · -- the one that is inserted had no row to be changed
        obtain ⟨htlink, htof⟩ := isFor_iff.mp htfor
        have hfor : isFor g r s' = true :=
          isFor_iff.mpr ⟨by rw [← hslink, hid, htlink], by rw [← hsof, hof, htof]⟩
        rw [hnone s' hs'] at hfor
        cases hfor
    · obtain ⟨hslink, hsof⟩ := isFor_iff.mp hsfor
      rcases w.mem_write ht with ⟨t', ht', -, htlink, htof⟩ | ⟨-, -, htid⟩
      · have hfor : isFor g r t' = true :=
          isFor_iff.mpr ⟨by rw [← htlink, ← hid, hslink], by rw [← htof, ← hof, hsof]⟩
        rw [hnone t' ht'] at hfor
        cases hfor
      · rw [hsid, htid]

/-- **Step.** The write reaches the status of the regulation, and no other. -/
theorem write_own (db : UploadDb) :
    (∃ s, ownStatus (w.write db) g r = some s ∧ s.isCompliant = isCompliant) ∧
      (w.write db).regulationStatuses.filter (fun t => !isFor g r t) =
        db.regulationStatuses.filter fun t => !isFor g r t := by
  rw [w.write_eq]
  split
  · rename_i hany
    obtain ⟨t, ht, hfor⟩ := List.any_eq_true.mp hany
    have hmem : w.change t ∈ Rows.updateWhere (isFor g r) w.change db.regulationStatuses :=
      Rows.mem_updateWhere.mpr (.inl ⟨t, ht, hfor, rfl⟩)
    constructor
    · cases hown : ownStatus { db with
          regulationStatuses := Rows.updateWhere (isFor g r) w.change db.regulationStatuses } g r with
      | none =>
          have hnone := List.find?_eq_none.mp hown (w.change t) hmem
          rw [w.isFor_change, hfor] at hnone
          exact absurd rfl hnone
      | some s =>
          refine ⟨s, rfl, ?_⟩
          obtain ⟨hs, hsfor⟩ := ownStatus_some hown
          rcases Rows.mem_updateWhere.mp hs with ⟨x, -, -, rfl⟩ | ⟨-, hnot⟩
          · exact w.change_isCompliant x
          · rw [hsfor] at hnot
            cases hnot
    · apply Rows.filter_updateWhere
      intro x _ hx
      rw [w.isFor_change, hx]
      exact ⟨rfl, rfl⟩
  · rename_i hnone
    rw [Bool.not_eq_true, List.any_eq_false] at hnone
    have hfor : isFor g r { w.row with id := db.nextId } = true := w.isFor_row
    constructor
    · refine ⟨{ w.row with id := db.nextId }, ?_, w.row_isCompliant⟩
      show (db.regulationStatuses ++ [_]).find? (isFor g r) = _
      rw [List.find?_append, List.find?_eq_none.mpr hnone, Option.none_or, List.find?_cons_of_pos hfor]
    · show (db.regulationStatuses ++ [_]).filter _ = _
      rw [List.filter_append, List.filter_cons_of_neg (by rw [hfor]; simp), List.filter_nil,
        List.append_nil]

/-- **Step.** The write leaves what comes before the status of the regulation. -/
theorem notShadowed_write (db : UploadDb) :
    NotShadowed (w.write db) g r ↔ NotShadowed db g r := by
  have hbefore : (w.write db).regulationStatuses.takeWhile (fun s => !isFor g r s) =
      db.regulationStatuses.takeWhile fun s => !isFor g r s := by
    rw [w.write_eq]
    split
    · apply Rows.takeWhile_updateWhere
      intro s _ hs
      rw [w.isFor_change, hs]
    · rename_i hnone
      rw [Bool.not_eq_true, List.any_eq_false] at hnone
      have hfor : isFor g r { w.row with id := db.nextId } = true := w.isFor_row
      have hall : ∀ s ∈ db.regulationStatuses, (!isFor g r s) = true := by
        intro s hs
        simpa using hnone s hs
      show (db.regulationStatuses ++ [_]).takeWhile _ = _
      rw [List.takeWhile_append_of_pos hall, List.takeWhile_eq_self_iff.mpr hall]
      simp [hfor]
  have hnamed : isNamed (w.write db) (some g.name) = isNamed db (some g.name) := by
    funext s
    unfold isNamed regulationOf
    rw [w.regulations_write]
  unfold NotShadowed
  rw [hbefore, hnamed]

/-- A write, and the read after it. -/
theorem writes_own_iff (h : StatusSchema db) (hg : g ∈ db.regulations) (hr : r ∈ db.releases)
    (hproject : r.projectId = g.projectId) (projectIdentifier : Option Identifier) :
    WritesOwn isCompliant g r db
      (getVersionRegulationStatus (statusParams projectIdentifier g r) (w.write db)) ↔
        NotShadowed db g r := by
  have hschema := w.write_schema h hg hr hproject
  have hg' : g ∈ (w.write db).regulations := by rwa [w.regulations_write]
  have hr' : r ∈ (w.write db).releases := by rwa [w.releases_write]
  obtain ⟨⟨s, hown, hverdict⟩, hothers⟩ := w.write_own db
  rw [← w.notShadowed_write db, ← reads_own_iff hschema hg' hr' hproject projectIdentifier]
  have hsame : (getVersionRegulationStatus (statusParams projectIdentifier g r) (w.write db)).2 =
      w.write db := by
    rw [getVersionRegulationStatus_named hschema hr' hproject]
  unfold WritesOwn ReadsOwn
  rw [hsame, hown]
  constructor
  · intro hwrites
    obtain ⟨t, ht, -, hrun, -⟩ := hwrites
    rw [← Option.some.inj ht] at hrun
    exact ⟨rfl, hrun⟩
  · intro hreads
    exact ⟨s, rfl, hverdict, hreads.2, hothers⟩

end StatusWrite

/-- The write of `setRegulationStatus`. -/
def regulationStatusWrite (g : Regulation) (r : Release) (isCompliant : Bool) (value : String)
    (reportDetails : Option String) : StatusWrite g r isCompliant where
  row := ⟨0, r.catalogId, some g.id, if isCompliant then some (createRegulationSnapshot g) else none,
    isCompliant, some value, reportDetails⟩
  change := fun s => { s with
    value := some value
    reportDetails := reportDetails
    isCompliant := isCompliant
    regulationSnapshot := if isCompliant then some (createRegulationSnapshot g) else none }
  isFor_row := isFor_iff.mpr ⟨rfl, rfl⟩
  row_isCompliant := rfl
  change_keys := fun _ => ⟨rfl, rfl, rfl⟩
  change_isCompliant := fun _ => rfl

/-- The write of `setComplianceStatus`. -/
def complianceStatusWrite (g : Regulation) (r : Release) (isCompliant : Bool) :
    StatusWrite g r isCompliant where
  row := ⟨0, r.catalogId, some g.id, if isCompliant then some (createRegulationSnapshot g) else none,
    isCompliant, none, none⟩
  change := fun s => { s with
    isCompliant := isCompliant
    regulationSnapshot := if isCompliant then some (createRegulationSnapshot g) else none }
  isFor_row := isFor_iff.mpr ⟨rfl, rfl⟩
  row_isCompliant := rfl
  change_keys := fun _ => ⟨rfl, rfl, rfl⟩
  change_isCompliant := fun _ => rfl

/-! ### The requests, run -/

/-- The names lead to the regulation and the release. -/
theorem getRegulationAndRelease_found (h : StatusSchema db) (hg : g ∈ db.regulations)
    (hr : r ∈ db.releases) (hproject : r.projectId = g.projectId)
    (projectIdentifier : Option Identifier) :
    getRegulationAndRelease (statusParams projectIdentifier g r) db = (.ok (g, r), db) := by
  have hrelease : db.findRelease (statusParams projectIdentifier g r).projectId
      (statusParams projectIdentifier g r).version = some r := by
    show db.findRelease g.projectId r.version = some r
    rw [← hproject]
    exact h.constraints.findRelease_of_mem hr
  have hregulation : (db.regulations.find? fun k => k.name == g.name && k.projectId == g.projectId) =
      some g := by
    cases hfind : db.regulations.find? fun k => k.name == g.name && k.projectId == g.projectId with
    | none =>
        have hnone := List.find?_eq_none.mp hfind g hg
        simp at hnone
    | some k =>
        have hboth := List.find?_some hfind
        simp only [Bool.and_eq_true, beq_iff_eq] at hboth
        rw [h.regulationNames.eq_of_mem (List.mem_of_find?_eq_some hfind) hg (by
          rw [hboth.1, hboth.2])]
  unfold getRegulationAndRelease
  rw [gets_bind_run, gets_bind_run, hrelease]
  have hread : (db.regulations.find? fun k => k.name == (statusParams projectIdentifier g r).regulation &&
      k.projectId == (statusParams projectIdentifier g r).projectId) = some g := hregulation
  rw [hread]
  rfl

theorem setRegulationStatus_run (h : StatusSchema db) (hg : g ∈ db.regulations)
    (hr : r ∈ db.releases) (hproject : r.projectId = g.projectId)
    (projectIdentifier : Option Identifier) {value : String} {isCompliant : Bool}
    (henforce : env.enforce db g value = .ok isCompliant) (reportDetails : Option String) :
    setRegulationStatus env (statusParams projectIdentifier g r) value reportDetails db =
      getVersionRegulationStatus (statusParams projectIdentifier g r)
        ((regulationStatusWrite g r isCompliant value reportDetails).write db) := by
  unfold setRegulationStatus
  refine (bind_run_ok (getRegulationAndRelease_found h hg hr hproject projectIdentifier) _).trans ?_
  have hverdict : (fun s => (env.enforce s g value, s) : UploadProg Bool) db = (.ok isCompliant, db) := by
    show (env.enforce db g value, db) = _
    rw [henforce]
  exact bind_run_ok hverdict _

theorem setComplianceStatus_run (h : StatusSchema db) (hg : g ∈ db.regulations)
    (hr : r ∈ db.releases) (hproject : r.projectId = g.projectId)
    (projectIdentifier : Option Identifier) (isCompliant : Bool) :
    setComplianceStatus (statusParams projectIdentifier g r) isCompliant db =
      getVersionRegulationStatus (statusParams projectIdentifier g r)
        ((complianceStatusWrite g r isCompliant).write db) := by
  unfold setComplianceStatus
  exact bind_run_ok (getRegulationAndRelease_found h hg hr hproject projectIdentifier) _

/-- **Main result.** A request about the status of a regulation is about the status that is linked
to it, exactly when no other status that answers to the name comes before. -/
theorem status_op_own_iff (env : UploadEnv) (db : UploadDb) (h : StatusSchema db) (g : Regulation)
    (hg : g ∈ db.regulations) (r : Release) (hr : r ∈ db.releases)
    (hproject : r.projectId = g.projectId) (projectIdentifier : Option Identifier) (op : StatusOp) :
    op.Own env (statusParams projectIdentifier g r) g r db ↔
      (op.Looks env g db → NotShadowed db g r) := by
  cases op with
  | setRegulationStatus value reportDetails =>
      have hrun : ∀ isCompliant, env.enforce db g value = .ok isCompliant →
          (WritesOwn isCompliant g r db (RegulationStatusService.setRegulationStatus env
            (statusParams projectIdentifier g r) value reportDetails db) ↔ NotShadowed db g r) := by
        intro isCompliant henforce
        rw [setRegulationStatus_run h hg hr hproject projectIdentifier henforce reportDetails]
        exact StatusWrite.writes_own_iff _ h hg hr hproject projectIdentifier
      constructor
      · intro hown hlooks
        obtain ⟨isCompliant, henforce⟩ := hlooks
        exact (hrun isCompliant henforce).mp (hown isCompliant henforce)
      · intro hnot isCompliant henforce
        exact (hrun isCompliant henforce).mpr (hnot ⟨isCompliant, henforce⟩)
  | setComplianceStatus isCompliant =>
      have hrun := (complianceStatusWrite g r isCompliant).writes_own_iff h hg hr hproject
        projectIdentifier
      rw [← setComplianceStatus_run h hg hr hproject projectIdentifier isCompliant] at hrun
      exact hrun.trans ⟨fun hnot _ => hnot, fun hnot => hnot trivial⟩
  | getVersionRegulationStatus =>
      exact (reads_own_iff h hg hr hproject projectIdentifier).trans
        ⟨fun hnot _ => hnot, fun hnot => hnot trivial⟩
  | deleteVersionRegulationStatus =>
      exact (deletes_own_iff h hg hr hproject).trans
        ⟨fun hnot _ => hnot, fun hnot => hnot trivial⟩

/-! ### A name that two regulations share -/

/-- A regulation that is displayed under another name. -/
def displayedAsReview : Regulation :=
  ⟨1, "license", some "review", none, ⟨1, "boolean"⟩, 1, none, 0⟩

def reviewRegulation : Regulation := ⟨2, "review", none, none, ⟨1, "boolean"⟩, 1, none, 1⟩

def versionUnderReview : Release := { Release.create 1 "1.0" with catalogId := "one@1.0" }

/-- The release meets the first regulation. -/
def meetsDisplayed : UploadDb :=
  { oneProject with
    releases := [versionUnderReview]
    regulations := [displayedAsReview, reviewRegulation]
    regulationStatuses := [⟨1, "one@1.0", some 1, some (createRegulationSnapshot displayedAsReview),
      true, none, none⟩]
    nextId := 2 }

theorem meetsDisplayed_schema : StatusSchema meetsDisplayed where
  constraints := {
    projectKeys := by decide
    projectNames := by decide
    releaseKeys := by decide
    releaseVersions := by decide
    artifactKeys := by decide
    artifactReleases := by decide
    artifactFiles := by simp [meetsDisplayed, oneProject]
    fileKeys := by decide
    fileObjectKeys := by decide
    fileArtifacts := by decide
    artifactUploads := by simp [meetsDisplayed, oneProject]
    statusKeys := by decide
    statusReleases := by decide
    dependencyReleases := by decide
    ruleReleases := by decide
    uploadKeys := by decide
    freshArtifacts := by decide
    freshFiles := by decide
    freshStatuses := by decide }
  regulationKeys := by decide
  regulationNames := by decide
  links := by
    intro s hs id hid
    obtain rfl := List.mem_singleton.mp hs
    obtain rfl := Option.some.inj hid
    exact ⟨displayedAsReview, by decide, rfl, by decide⟩
  linkedOnce := by decide

/-- The regulation itself is read back. -/
theorem displayed_status_read :
    StatusOp.getVersionRegulationStatus.Own plainUploadEnv
      (statusParams none displayedAsReview versionUnderReview) displayedAsReview versionUnderReview
      meetsDisplayed := by
  apply (status_op_own_iff plainUploadEnv meetsDisplayed meetsDisplayed_schema displayedAsReview
    (by decide) versionUnderReview (by decide) rfl none .getVersionRegulationStatus).mpr
  intro _
  decide

/-- The other regulation is set to be not compliant, and the answer is compliant: it is the status
of the first. A delete takes that status. -/
theorem displayed_name_redirects :
    StatusSchema meetsDisplayed ∧ reviewRegulation ∈ meetsDisplayed.regulations ∧
    versionUnderReview ∈ meetsDisplayed.releases ∧
    versionUnderReview.projectId = reviewRegulation.projectId ∧
    ¬ (StatusOp.setComplianceStatus false).Own plainUploadEnv
      (statusParams none reviewRegulation versionUnderReview) reviewRegulation versionUnderReview
      meetsDisplayed ∧
    ¬ StatusOp.deleteVersionRegulationStatus.Own plainUploadEnv
      (statusParams none reviewRegulation versionUnderReview) reviewRegulation versionUnderReview
      meetsDisplayed := by
  refine ⟨meetsDisplayed_schema, by decide, by decide, rfl, ?_, ?_⟩
  · intro hwrites
    obtain ⟨s, -, hverdict, hrun, -⟩ := hwrites
    have hanswer : (setComplianceStatus (statusParams none reviewRegulation versionUnderReview) false
        meetsDisplayed).1.map (·.isCompliant) = .ok true := by decide
    rw [hrun] at hanswer
    have hcompliant : s.isCompliant = true := Except.ok.inj hanswer
    rw [hverdict] at hcompliant
    cases hcompliant
  · intro hdeletes
    obtain ⟨e, he⟩ := hdeletes
    have hgone : (deleteVersionRegulationStatus 1 "1.0" (some "review")
        meetsDisplayed).2.regulationStatuses = [] := by decide
    have hkept := congrArg (fun run => run.2.regulationStatuses) he
    cases hgone.symm.trans hkept

end UploadService
