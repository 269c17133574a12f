import UploadService.Life.Writes
import UploadService.Release.Interleaving

/-!
# The metadata of a release under interleaving

`updateTotalSize` reads the whole metadata of a release, computes the total size and
writes the whole metadata back. `setRelease` writes the metadata of its request, and then
runs `updateTotalSize` itself. Both are cut at their awaits here, and run in any order on
one release, together with whatever else leaves the metadata of that release alone.

Main results:

- `SetCall.alone_eq`: a call of `setRelease` that nothing interrupts is `setRelease`;
- `metadata_kept_iff_fresh`: the metadata is that of the last save, the total size apart,
  in every state of a run exactly where every write of a total size finds the metadata
  that it was computed from;
- `stale_total_overwrites`: otherwise the metadata of a save is lost.
-/

namespace UploadService

open Prog ReleaseService FileUploadService RegulationStatusService

/-! ### The calls -/

/-- The statement that `updateTotalSize` issues next. -/
inductive TotalPhase where
  | readRelease
  | writeMetadata (metadata : ReleaseMetadata)
  | finished
  deriving DecidableEq

/-- One statement of `updateTotalSize`. -/
def TotalPhase.step (projectId : ℕ) (version : String) (db : UploadDb) :
    TotalPhase → TotalPhase × UploadDb
  | .readRelease => match db.getReleaseEntity projectId version with
    | none => (.finished, db)
    | some loaded => (.writeMetadata
        { loaded.release.metadata with totalSize := some (totalSizeOf loaded) }, db)
  | .writeMetadata metadata => (.finished, updateReleases (UploadDb.isRelease projectId version)
      (fun r => { r with metadata := metadata }) db)
  | .finished => (.finished, db)

/-- The metadata that the statement writes. -/
def TotalPhase.written : TotalPhase → Option ReleaseMetadata
  | .writeMetadata metadata => some metadata
  | _ => none

/-- The statement that `setRelease` issues next. Up to the save they are those of a call
that archives. -/
inductive SetPhase where
  | upToSave (phase : ArchivePhase)
  | relations (isNew : Bool) (dependencies : Option (List Release)) (catalogId : String)
  | total (phase : TotalPhase)
  | updateLatest
  | refresh (phase : RefreshPhase)
  | finished

def SetPhase.isFinished : SetPhase → Bool
  | finished => true
  | _ => false

/-- A call of `setRelease` that runs. -/
structure SetCall where
  dto : SetReleaseDto
  phase : SetPhase

namespace SetCall

/-- What follows the writes of the call. -/
def followUp (dto : SetReleaseDto) : SetPhase :=
  if dto.status = some .archived then .updateLatest else .refresh .readRelease

/-- One statement of the call. -/
def stepPhase (env : UploadEnv) (dto : SetReleaseDto) (db : UploadDb) :
    SetPhase → SetPhase × UploadDb
  | .upToSave phase =>
      let next := Archiving.stepPhase env dto db phase
      (match next.1 with
        | .saveRelations isNew dependencies catalogId => .relations isNew dependencies catalogId
        | .finished => .finished
        | later => .upToSave later, next.2)
  | .relations isNew dependencies catalogId =>
      let saved := match dependencies with
        | none => db
        | some entities => saveDependencies catalogId entities db
      (.total .readRelease, if isNew then linkDefaultRuleToRelease catalogId saved else saved)
  | .total .finished => (followUp dto, db)
  | .total phase =>
      let next := phase.step dto.projectId dto.version db
      (.total next.1, next.2)
  | .updateLatest => (.finished, updateLatestForProject dto.projectId db)
  | .refresh .finished => (.finished, db)
  | .refresh phase =>
      let next := Refresh.stepPhase env dto.projectId dto.version db phase
      (.refresh next.1, next.2)
  | .finished => (.finished, db)

def step (env : UploadEnv) (call : SetCall) (db : UploadDb) : SetCall × UploadDb :=
  let next := stepPhase env call.dto db call.phase
  ({ call with phase := next.1 }, next.2)

/-- Steps of one call with nothing in between. -/
def alone (env : UploadEnv) : ℕ → SetCall × UploadDb → SetCall × UploadDb
  | 0, s => s
  | n + 1, s => alone env n (s.1.step env s.2)

/-- The metadata that the next statement of the call saves. -/
def saved (env : UploadEnv) (call : SetCall) (db : UploadDb) : Option ReleaseMetadata :=
  match call.phase with
  | .upToSave (.save isNew row _) =>
      if isNew = false ∨ (insertRelease env.semver db.projects row db.releases).isSome = true then
        call.dto.metadata.map normalizedMetadata
      else none
  | _ => none

/-- The metadata that the next statement of the call writes with a total size. -/
def totalWritten (call : SetCall) : Option ReleaseMetadata :=
  match call.phase with
  | .total phase => phase.written
  | _ => none

end SetCall

/-! ### The calls on one release -/

structure MetadataWorld where
  db : UploadDb
  calls : List SetCall
  totals : List TotalPhase

inductive MetadataEvent where
  /-- a call of `setRelease` on the release, with a metadata object -/
  | setRelease (dto : SetReleaseDto) (metadata : ReleaseMetadata)
  /-- a run that an upload of an artifact or an event of a file starts -/
  | updateTotalSize
  /-- the next statement of a call, or of a run, that has started -/
  | stepCall (i : ℕ)
  | stepTotal (i : ℕ)
  /-- others change the database; the release keeps its metadata -/
  | otherWrite (db : UploadDb)

namespace MetadataWorld

/-- No call runs. -/
def start (db : UploadDb) : MetadataWorld := ⟨db, [], []⟩

/-- The key of the release and its metadata, where it is there. -/
def standing (projectId : ℕ) (version : String) (db : UploadDb) :
    Option (String × ReleaseMetadata) :=
  (db.findRelease projectId version).map fun r => (r.catalogId, r.metadata)

/-- A request about the release, with metadata. -/
def request (projectId : ℕ) (version : String) (dto : SetReleaseDto) (metadata : ReleaseMetadata) :
    SetReleaseDto :=
  { dto with projectId := projectId, version := version, metadata := some metadata }

def stepCall (env : UploadEnv) (i : ℕ) (s : MetadataWorld) : MetadataWorld :=
  match s.calls[i]? with
  | none => s
  | some call =>
      let next := call.step env s.db
      { s with db := next.2, calls := s.calls.set i next.1 }

def stepTotal (projectId : ℕ) (version : String) (i : ℕ) (s : MetadataWorld) : MetadataWorld :=
  match s.totals[i]? with
  | none => s
  | some phase =>
      let next := phase.step projectId version s.db
      { s with db := next.2, totals := s.totals.set i next.1 }

def step (env : UploadEnv) (projectId : ℕ) (version : String) (s : MetadataWorld) :
    MetadataEvent → MetadataWorld
  | .setRelease dto metadata => { s with
      calls := s.calls ++ [⟨request projectId version dto metadata, .upToSave .readRelease⟩] }
  | .updateTotalSize => { s with totals := s.totals ++ [.readRelease] }
  | .stepCall i => s.stepCall env i
  | .stepTotal i => s.stepTotal projectId version i
  | .otherWrite db =>
      if standing projectId version db = standing projectId version s.db then { s with db := db }
      else s

/-- The metadata that a step of a `setRelease` saves. -/
def saved (env : UploadEnv) (s : MetadataWorld) : MetadataEvent → Option ReleaseMetadata
  | .stepCall i => (s.calls[i]?).bind fun call => call.saved env s.db
  | _ => none

/-- The metadata that a step writes with a total size. -/
def totalWritten (s : MetadataWorld) : MetadataEvent → Option ReleaseMetadata
  | .stepCall i => (s.calls[i]?).bind SetCall.totalWritten
  | .stepTotal i => (s.totals[i]?).bind TotalPhase.written
  | _ => none

/-- Every call and every run has finished. -/
def allFinished (s : MetadataWorld) : Bool :=
  (s.calls.all fun call => call.phase.isFinished) && s.totals.all fun phase => phase == .finished

/-- The metadata that the steps of a run save, in order. -/
def saves (env : UploadEnv) (projectId : ℕ) (version : String) (s : MetadataWorld)
    (es : List MetadataEvent) : List ReleaseMetadata :=
  Runs.outputs (step env projectId version) (fun s e => (s.saved env e).toList) s es

end MetadataWorld

/-- The metadata apart from the total size. -/
def ReleaseMetadata.apart (metadata : ReleaseMetadata) : ReleaseMetadata :=
  { metadata with totalSize := none }

namespace MetadataWorld

/-- The metadata of the release, apart from its total size. -/
def userMetadata (projectId : ℕ) (version : String) (db : UploadDb) : Option ReleaseMetadata :=
  (standing projectId version db).map fun entry => entry.2.apart

/-- The metadata of the last save, or what there was where nothing was saved. -/
def lastSaved (held : Option ReleaseMetadata) (saves : List ReleaseMetadata) :
    Option ReleaseMetadata :=
  (saves.getLast?.map ReleaseMetadata.apart).or held

/-- A write of a total size finds the metadata that it was computed from. -/
def FindsWhatItRead (projectId : ℕ) (version : String) (s : MetadataWorld) (e : MetadataEvent) :
    Prop :=
  ∀ metadata ∈ s.totalWritten e, userMetadata projectId version s.db = some metadata.apart

end MetadataWorld

/-! ### A call that nothing interrupts -/

namespace SetCall

variable {env : UploadEnv} {dto : SetReleaseDto}

/-- Steps of the call alone lead from one state to the other. -/
def Reaches (env : UploadEnv) (s t : SetCall × UploadDb) : Prop := ∃ n, alone env n s = t

theorem alone_add (m n : ℕ) (s : SetCall × UploadDb) :
    alone env (m + n) s = alone env n (alone env m s) := by
  induction m generalizing s with
  | zero => rw [Nat.zero_add, alone]
  | succ m ih =>
      rw [Nat.succ_add, alone, alone]
      exact ih _

theorem Reaches.trans {s t u : SetCall × UploadDb} (h₁ : Reaches env s t) (h₂ : Reaches env t u) :
    Reaches env s u := by
  obtain ⟨m, hm⟩ := h₁
  obtain ⟨n, hn⟩ := h₂
  exact ⟨m + n, by rw [alone_add, hm, hn]⟩

theorem total_reaches (db : UploadDb) :
    Reaches env (⟨dto, .total .readRelease⟩, db)
      (⟨dto, followUp dto⟩, updateTotalSize dto.projectId dto.version db) := by
  unfold updateTotalSize
  cases hload : db.getReleaseEntity dto.projectId dto.version with
  | none =>
      refine ⟨2, ?_⟩
      simp only [alone, step, stepPhase, TotalPhase.step, hload]
  | some loaded =>
      refine ⟨3, ?_⟩
      simp only [alone, step, stepPhase, TotalPhase.step, hload]

/-- The refresh of the call goes as a refresh alone does. -/
theorem refresh_reaches (n : ℕ) (phase : RefreshPhase) (db : UploadDb) :
    Reaches env (⟨dto, .refresh phase⟩, db)
      (⟨dto, .refresh (Refresh.alone env n (⟨dto.projectId, dto.version, phase⟩, db)).1.phase⟩,
        (Refresh.alone env n (⟨dto.projectId, dto.version, phase⟩, db)).2) := by
  induction n generalizing phase db with
  | zero => exact ⟨0, rfl⟩
  | succ n ih =>
      have hstep : phase = .finished ∨ alone env 1 (⟨dto, .refresh phase⟩, db) =
          (⟨dto, .refresh (Refresh.stepPhase env dto.projectId dto.version db phase).1⟩,
            (Refresh.stepPhase env dto.projectId dto.version db phase).2) := by
        cases phase with
        | finished => exact .inl rfl
        | _ => exact .inr rfl
      rcases hstep with rfl | hstep
      · exact ih .finished db
      · exact Reaches.trans ⟨1, hstep⟩ (ih _ _)

theorem followUp_reaches (db : UploadDb) :
    Reaches env (⟨dto, followUp dto⟩, db) (⟨dto, .finished⟩, (followStatus env dto db).2) := by
  unfold followUp followStatus
  by_cases harchived : dto.status = some .archived
  · rw [if_pos harchived, if_pos harchived]
    exact ⟨1, rfl⟩
  · rw [if_neg harchived, if_neg harchived]
    obtain ⟨n, hn⟩ := @Refresh.alone_eq env dto.projectId dto.version db
    have hrefresh := @refresh_reaches env dto n .readRelease db
    rw [hn] at hrefresh
    exact hrefresh.trans ⟨1, rfl⟩

/-- What follows the save of the row. -/
theorem relations_reaches (isNew : Bool) (dependencies : Option (List Release)) (catalogId : String)
    (db : UploadDb) :
    Reaches env (⟨dto, .relations isNew dependencies catalogId⟩, db) (⟨dto, .finished⟩,
      (followStatus env dto (saveRelations dto isNew dependencies catalogId db).2).2) := by
  have hsave : Reaches env (⟨dto, .relations isNew dependencies catalogId⟩, db)
      (⟨dto, followUp dto⟩, (saveRelations dto isNew dependencies catalogId db).2) := by
    cases isNew with
    | true => exact Reaches.trans ⟨1, rfl⟩ (total_reaches _)
    | false => exact Reaches.trans ⟨1, rfl⟩ (total_reaches _)
  exact hsave.trans (followUp_reaches _)

/-- Where the row is saved, the call ends with what follows the status. -/
theorem setRelease_of_stored {db s : UploadDb} (h : storeRelease env dto db = (.ok (), s)) :
    (setRelease env dto db).2 = (followStatus env dto s).2 := by
  unfold setRelease
  rw [bind_run_ok h]
  apply Keeps.bind_after (I := fun t => t = (followStatus env dto s).2) rfl
  intro _
  exact Keeps.bind (getRelease_reads _ _ _) fun _ => Keeps.pure _

theorem setRelease_of_refused {db s : UploadDb} {e : Exception}
    (h : storeRelease env dto db = (.error e, s)) : (setRelease env dto db).2 = s := by
  unfold setRelease
  rw [bind_run_error h]

/-- A save with nothing in between hits the row that was read. -/
theorem saveStale_eq {db : UploadDb} (hdb : db.Constraints) {r : Release} (hr : r ∈ db.releases)
    (projectName : String) (required : ℕ) :
    Archiving.saveStale dto (changedRelease env dto projectName false required r) db =
      updateReleases (fun x => x.catalogId == r.catalogId)
        (fun _ => changedRelease env dto projectName false required r) db := by
  unfold Archiving.saveStale updateReleases
  congr 1
  unfold Rows.updateWhere
  apply List.map_congr_left
  intro x hx
  by_cases hkey : (x.catalogId == r.catalogId) = true
  · obtain rfl := hdb.releaseKeys.eq_of_mem hx hr (by simpa using hkey)
    simp [changedRelease]
  · simp [changedRelease, hkey]

/-- The name of the project that a call of `setRelease` reads. -/
def projectNameOf (dto : SetReleaseDto) (db : UploadDb) : String :=
  ((((db.findRelease dto.projectId dto.version).bind fun _ =>
    Rows.findKey Project.id dto.projectId db.projects).map (·.name)).or
      (dto.projectIdentifier.map (·.toText))).getD "undefined"

/-- The row that a call of `setRelease` saves. -/
def rowOf (env : UploadEnv) (dto : SetReleaseDto) (db : UploadDb) : Release :=
  changedRelease env dto (projectNameOf dto db) (db.findRelease dto.projectId dto.version).isNone
    (regulationsOf db dto.projectId).length
    ((db.findRelease dto.projectId dto.version).getD (Release.create dto.projectId dto.version))

theorem storeRelease_readonly {db : UploadDb}
    (h : ((db.findRelease dto.projectId dto.version).any fun r => isReadonly env r.status) = true) :
    ∃ e, storeRelease env dto db = (.error e, db) := by
  have hstatus : isReadonly env ((db.findRelease dto.projectId dto.version).getD
      (Release.create dto.projectId dto.version)).status = true := by
    cases hfind : db.findRelease dto.projectId dto.version with
    | none => rw [hfind] at h; cases h
    | some r => rw [hfind] at h; exact h
  obtain ⟨result, hrun, hok⟩ := checkReadonlyReleasePermission_run env
    ((db.findRelease dto.projectId dto.version).getD
      (Release.create dto.projectId dto.version)).status db
  cases result with
  | ok u => rw [hok.mp rfl] at hstatus; cases hstatus
  | error e =>
      have hprepare : prepareRelease env dto db = (.error e, db) := by
        unfold prepareRelease
        rw [gets_bind_run, gets_bind_run]
        exact bind_run_error hrun _
      exact ⟨e, bind_run_error hprepare _⟩

/-- Where the release may be edited, the call goes on to the dependencies. -/
theorem prepareRelease_editable {db : UploadDb}
    (h : ((db.findRelease dto.projectId dto.version).any fun r => isReadonly env r.status) = false) :
    prepareRelease env dto db = (requestedDependencies dto >>= fun dependencies =>
      pure ((db.findRelease dto.projectId dto.version).isNone, rowOf env dto db, dependencies)) db := by
  have hstatus : isReadonly env ((db.findRelease dto.projectId dto.version).getD
      (Release.create dto.projectId dto.version)).status = false := by
    cases hfind : db.findRelease dto.projectId dto.version with
    | none => rfl
    | some r => rw [hfind] at h; exact h
  obtain ⟨result, hrun, hok⟩ := checkReadonlyReleasePermission_run env
    ((db.findRelease dto.projectId dto.version).getD
      (Release.create dto.projectId dto.version)).status db
  obtain rfl : result = .ok () := hok.mpr hstatus
  unfold prepareRelease
  rw [gets_bind_run, gets_bind_run]
  exact bind_run_ok hrun _

/-- **Main result.** A call of `setRelease` that nothing interrupts does what `setRelease` does. -/
theorem alone_eq {db : UploadDb} (hdb : db.Constraints) (dto : SetReleaseDto) :
    ∃ n, alone env n (⟨dto, .upToSave .readRelease⟩, db) =
      (⟨dto, .finished⟩, (setRelease env dto db).2) := by
  by_cases hreadonly : ((db.findRelease dto.projectId dto.version).any fun r =>
      isReadonly env r.status) = true
  · obtain ⟨e, hrefused⟩ := @storeRelease_readonly env dto db hreadonly
    rw [setRelease_of_refused hrefused]
    refine ⟨1, ?_⟩
    simp only [alone, step, stepPhase, Archiving.stepPhase, if_pos hreadonly]
  have hedit : ((db.findRelease dto.projectId dto.version).any fun r =>
      isReadonly env r.status) = false := eq_false_of_ne_true hreadonly
  have hreads : Reaches env (⟨dto, .upToSave .readRelease⟩, db)
      (⟨dto, .upToSave (.findDependencies (db.findRelease dto.projectId dto.version)
        (projectNameOf dto db) (regulationsOf db dto.projectId).length)⟩, db) := by
    refine ⟨2, ?_⟩
    simp only [alone, step, stepPhase, Archiving.stepPhase, if_neg hreadonly]
    rfl
  have hdeps := (requestedDependencies_run dto db).1
  rcases hrun : requestedDependencies dto db with ⟨result, db'⟩
  rw [hrun] at hdeps
  obtain rfl : db' = db := hdeps
  cases result with
  | error e =>
      have hrefused : storeRelease env dto db' = (.error e, db') := by
        apply bind_run_error
        rw [prepareRelease_editable hedit]
        exact bind_run_error hrun _
      rw [setRelease_of_refused hrefused]
      refine hreads.trans ⟨1, ?_⟩
      simp only [alone, step, stepPhase, Archiving.stepPhase, hrun]
  | ok dependencies =>
      have hprepare : prepareRelease env dto db' = (.ok ((db'.findRelease dto.projectId
          dto.version).isNone, rowOf env dto db', dependencies), db') := by
        rw [prepareRelease_editable hedit]
        exact bind_run_ok hrun _
      have hsave : Reaches env (⟨dto, .upToSave .readRelease⟩, db')
          (⟨dto, .upToSave (.save (db'.findRelease dto.projectId dto.version).isNone
            (rowOf env dto db') dependencies)⟩, db') := by
        refine hreads.trans ⟨1, ?_⟩
        simp only [alone, step, stepPhase, Archiving.stepPhase, hrun]
        rfl
      cases hfind : db'.findRelease dto.projectId dto.version with
      | some r =>
          obtain ⟨hr, -, -⟩ := UploadDb.findRelease_some hfind
          rw [hfind] at hprepare hsave
          have hrow : rowOf env dto db' = changedRelease env dto (projectNameOf dto db') false
              (regulationsOf db' dto.projectId).length r := by
            unfold rowOf
            rw [hfind]
            rfl
          have hstored : storeRelease env dto db' = (.ok (), (saveRelations dto false dependencies
              r.catalogId (Archiving.saveStale dto (rowOf env dto db') db')).2) := by
            rw [hrow, saveStale_eq hdb hr]
            apply (bind_run_ok hprepare _).trans
            rw [hrow]
            rfl
          rw [setRelease_of_stored hstored]
          apply hsave.trans
          refine Reaches.trans ⟨1, rfl⟩ ?_
          have hrelations := @relations_reaches env dto false dependencies r.catalogId
            (Archiving.saveStale dto (rowOf env dto db') db')
          rw [hrow] at hrelations ⊢
          exact hrelations
      | none =>
          rw [hfind] at hprepare hsave
          cases hins : insertRelease env.semver db'.projects (rowOf env dto db') db'.releases with
          | none =>
              have hnew := saveRelease_new env (rowOf env dto db') db'
              rw [hins] at hnew
              have hrefused : storeRelease env dto db' = (.error (.queryFailed
                  "duplicate key value violates unique constraint"), db') :=
                (bind_run_ok hprepare _).trans (bind_run_error hnew _)
              rw [setRelease_of_refused hrefused]
              refine hsave.trans ⟨1, ?_⟩
              simp only [alone, step, stepPhase, Archiving.stepPhase, Option.isNone_none, hins]
          | some saved =>
              obtain ⟨inserted, rows⟩ := saved
              have hstored : storeRelease env dto db' = (.ok (), (saveRelations dto true dependencies
                  inserted.catalogId { db' with releases := rows }).2) := by
                apply (bind_run_ok hprepare _).trans
                have hnew := saveRelease_new env (rowOf env dto db') db'
                rw [hins] at hnew
                apply (bind_run_ok hnew _).trans
                exact Prod.ext (saveRelations_ok _ _ _ _ _) rfl
              rw [setRelease_of_stored hstored]
              apply hsave.trans
              have hinsert : Reaches env (⟨dto, .upToSave (.save true (rowOf env dto db')
                  dependencies)⟩, db') (⟨dto, .relations true dependencies inserted.catalogId⟩,
                  { db' with releases := rows }) := by
                refine ⟨1, ?_⟩
                simp only [alone, step, stepPhase, Archiving.stepPhase, hins]
              exact hinsert.trans (relations_reaches _ _ _ _)

end SetCall

namespace MetadataWorld

/-! ### The standing of the release under each write -/

theorem findRelease_updateReleases {q : Release → Bool} {f : Release → Release} (projectId : ℕ)
    (version : String) (db : UploadDb)
    (hf : ∀ r, (f r).projectId = r.projectId ∧ (f r).version = r.version) :
    (updateReleases q f db).findRelease projectId version =
      (db.findRelease projectId version).map fun r => if q r then f r else r := by
  have hkey : ∀ r : Release, UploadDb.isRelease projectId version (if q r then f r else r) =
      UploadDb.isRelease projectId version r := by
    intro r
    split
    · simp only [UploadDb.isRelease, (hf r).1, (hf r).2]
    · rfl
  show (Rows.updateWhere q f db.releases).find? _ = _
  unfold Rows.updateWhere
  rw [List.find?_map]
  congr 1
  apply congrArg (List.find? · db.releases)
  funext r
  exact hkey r

theorem standing_some {p : ℕ} {v : String} {db : UploadDb} {c : String} {m : ReleaseMetadata}
    (h : standing p v db = some (c, m)) :
    ∃ r, db.findRelease p v = some r ∧ r.catalogId = c ∧ r.metadata = m := by
  obtain ⟨r, hr, heq⟩ := Option.map_eq_some_iff.mp h
  exact ⟨r, hr, congrArg Prod.fst heq, congrArg Prod.snd heq⟩

/-- A write that leaves the keys and the metadata of every row. -/
theorem standing_updateReleases {q : Release → Bool} {f : Release → Release} (p : ℕ) (v : String)
    (db : UploadDb) (hf : ∀ r, (f r).projectId = r.projectId ∧ (f r).version = r.version)
    (hkept : ∀ r, (f r).catalogId = r.catalogId ∧ (f r).metadata = r.metadata) :
    standing p v (updateReleases q f db) = standing p v db := by
  unfold standing
  rw [findRelease_updateReleases p v db hf, Option.map_map]
  congr 1
  funext r
  by_cases hq : q r = true
  · simp [hq, hkept r]
  · simp [hq]

theorem standing_writeMetadata {p : ℕ} {v : String} {db : UploadDb} {c : String}
    {m : ReleaseMetadata} (h : standing p v db = some (c, m)) (metadata : ReleaseMetadata) :
    standing p v (updateReleases (UploadDb.isRelease p v)
      (fun r => { r with metadata := metadata }) db) = some (c, metadata) := by
  obtain ⟨r, hr, rfl, -⟩ := standing_some h
  have hkey : UploadDb.isRelease p v r = true := List.find?_some hr
  unfold standing
  rw [findRelease_updateReleases, hr]
  · simp [hkey]
  · exact fun _ => ⟨rfl, rfl⟩

/-- The save of a row that is there. -/
theorem standing_saveStale {p : ℕ} {v : String} {db : UploadDb} {row : Release}
    {m metadata : ReleaseMetadata} {dto : SetReleaseDto} (hdto : dto.metadata = some metadata)
    (h : standing p v db = some (row.catalogId, m)) :
    standing p v (Archiving.saveStale dto row db) =
      some (row.catalogId, normalizedMetadata metadata) := by
  obtain ⟨r, hr, hc, -⟩ := standing_some h
  unfold standing Archiving.saveStale
  rw [findRelease_updateReleases, hr]
  · simp [hc, hdto]
  · exact fun _ => ⟨rfl, rfl⟩

/-- The insert of a row is the first one for its release. -/
theorem standing_insert {semver : SemverLib} {db : UploadDb} {row inserted : Release}
    {releases : List Release}
    (h : insertRelease semver db.projects row db.releases = some (inserted, releases)) :
    standing row.projectId row.version db = none ∧
      standing row.projectId row.version { db with releases := releases } =
        some (inserted.catalogId, row.metadata) := by
  obtain ⟨hinserted, -, -⟩ := insertRelease_some h
  have hnone : db.findRelease row.projectId row.version = none := by
    apply List.find?_eq_none.mpr
    intro r hr hkey
    simp only [UploadDb.isRelease, Bool.and_eq_true, beq_iff_eq] at hkey
    apply insertRelease_fresh h r hr
    rw [hkey.1, hkey.2, hinserted]
    rfl
  refine ⟨by unfold standing; rw [hnone]; rfl, ?_⟩
  have hkey : ∀ r : Release, r.projectId = inserted.projectId → r.version = inserted.version →
      UploadDb.isRelease row.projectId row.version r = true := by
    intro r hp hv
    rw [hinserted] at hp hv
    simp [UploadDb.isRelease, hp, hv, ReleaseSubscriber.beforeInsert]
  have hmetadata : inserted.metadata = row.metadata := by rw [hinserted]; rfl
  have hlast : ∀ r : Release, r.projectId = inserted.projectId → r.version = inserted.version →
      r.catalogId = inserted.catalogId → r.metadata = inserted.metadata →
      ([r].find? (UploadDb.isRelease row.projectId row.version)).map
        (fun r => (r.catalogId, r.metadata)) = some (inserted.catalogId, row.metadata) := by
    intro r hp hv hc hm
    rw [List.find?_cons_of_pos (hkey r hp hv), Option.map_some, hc, hm, hmetadata]
  unfold standing UploadDb.findRelease
  rcases insertRelease_rows h with ⟨-, hrows⟩ | ⟨-, hrows⟩
  · rw [hrows, List.find?_append]
    show (Option.or (db.findRelease row.projectId row.version) _).map _ = _
    rw [hnone, Option.none_or]
    exact hlast inserted rfl rfl rfl rfl
  · have hmoved : (db.releases.map (moved (ReleaseSubscriber.newSortOrder semver inserted
        (db.releases ++ [inserted])))).find? (UploadDb.isRelease row.projectId row.version) = none := by
      rw [List.find?_map]
      show Option.map _ (db.findRelease row.projectId row.version) = none
      rw [hnone]
      rfl
    rw [hrows, List.find?_append, hmoved, Option.none_or]
    exact hlast _ rfl rfl rfl rfl

theorem standing_refresh {env : UploadEnv} (p : ℕ) (v : String) (q : ℕ) (w : String) (db : UploadDb)
    (phase : RefreshPhase) :
    standing p v (Refresh.stepPhase env q w db phase).2 = standing p v db := by
  cases phase with
  | readRelease =>
      simp only [Refresh.stepPhase]
      split
      · rfl
      · split <;> rfl
  | readRegulations loaded | readStatuses loaded regulations | readFiles loaded compliant
  | readUploaded loaded compliant missing | finished | flagFile loaded compliant file todo => rfl
  | writeCounts loaded regulations statuses =>
      exact standing_updateReleases p v db (fun _ => ⟨rfl, rfl⟩) fun _ => ⟨rfl, rfl⟩
  | checkFile loaded compliant missing todo =>
      cases todo with
      | nil => rfl
      | cons file todo =>
          simp only [Refresh.stepPhase]
          split
          · rfl
          · split <;> rfl
  | writeStatus loaded verdict =>
      simp only [Refresh.stepPhase]
      split
      · rfl
      · rename_i status _
        split
        · cases status with
          | released =>
              exact standing_updateReleases p v db (fun _ => ⟨rfl, rfl⟩) fun _ => ⟨rfl, rfl⟩
          | draft | inReview | approved | archived | error =>
              exact standing_updateReleases p v db (fun _ => ⟨rfl, rfl⟩) fun _ => ⟨rfl, rfl⟩
        · rfl
  | updateLatest =>
      exact standing_updateReleases p v db (fun _ => ⟨rfl, rfl⟩) fun _ => ⟨rfl, rfl⟩

/-! ### What one step does -/

/-- A step changes the metadata by what it saves, or by what it writes with a total size, and the
release keeps its key. -/
inductive Effect (p : ℕ) (v : String) (db db' : UploadDb) :
    Option ReleaseMetadata → Option ReleaseMetadata → Prop
  | quiet (h : standing p v db' = standing p v db) : Effect p v db db' none none
  | saved {c : String} {m : ReleaseMetadata} (hkey : ∀ entry ∈ standing p v db, entry.1 = c)
      (h : standing p v db' = some (c, m)) : Effect p v db db' (some m) none
  | written {c : String} {m₀ m : ReleaseMetadata} (hheld : standing p v db = some (c, m₀))
      (h : standing p v db' = some (c, m)) : Effect p v db db' none (some m)

/-- The release is there under the key. -/
def Known (p : ℕ) (v : String) (db : UploadDb) (c : String) : Prop := ∃ m, standing p v db = some (c, m)

theorem Effect.known {p : ℕ} {v : String} {db db' : UploadDb} {saved written : Option ReleaseMetadata}
    (h : Effect p v db db' saved written) {c : String} (hc : Known p v db c) : Known p v db' c := by
  obtain ⟨m, hm⟩ := hc
  cases h with
  | quiet h => exact ⟨m, h.trans hm⟩
  | saved hkey h =>
      rw [show c = _ from hkey (c, m) hm]
      exact ⟨_, h⟩
  | written hheld h =>
      rw [hm] at hheld
      cases hheld
      exact ⟨_, h⟩

/-- **Step.** The metadata follows the saves exactly where a total size is written to the metadata
that it was computed from. -/
theorem Effect.follows_iff {p : ℕ} {v : String} {db db' : UploadDb}
    {saved written : Option ReleaseMetadata} (h : Effect p v db db' saved written) :
    userMetadata p v db' =
        saved.toList.foldl (fun _ m => some m.apart) (userMetadata p v db) ↔
      ∀ m ∈ written, userMetadata p v db = some m.apart := by
  cases h with
  | quiet h => simp [userMetadata, h]
  | saved hkey h => simp [userMetadata, h]
  | written hheld h => simp [userMetadata, h, hheld, eq_comm]

/-- What a call has read of the release is still so, as far as its key goes. -/
def PhaseOk (p : ℕ) (v : String) (dto : SetReleaseDto) (db : UploadDb) : SetPhase → Prop
  | .upToSave (.countRegulations existing _) | .upToSave (.findDependencies existing _ _) =>
      ∀ r ∈ existing, Known p v db r.catalogId
  | .upToSave (.save false row _) => Known p v db row.catalogId
  | .upToSave (.save true row _) =>
      row.projectId = p ∧ row.version = v ∧ dto.metadata.map normalizedMetadata = some row.metadata
  | .upToSave (.saveRelations _ _ _) | .upToSave .updateLatest => False
  | .total (.writeMetadata _) => ∃ c, Known p v db c
  | _ => True

def TotalOk (p : ℕ) (v : String) (db : UploadDb) : TotalPhase → Prop
  | .writeMetadata _ => ∃ c, Known p v db c
  | _ => True

/-- The request of the call is one about the release, with metadata. -/
structure CallOk (p : ℕ) (v : String) (db : UploadDb) (call : SetCall) : Prop where
  project : call.dto.projectId = p
  version : call.dto.version = v
  metadata : ∃ m, call.dto.metadata = some m
  phase : PhaseOk p v call.dto db call.phase

theorem phaseOk_total {p : ℕ} {v : String} {dto : SetReleaseDto} {db : UploadDb}
    {phase : TotalPhase} : PhaseOk p v dto db (.total phase) ↔ TotalOk p v db phase := by
  cases phase <;> rfl

theorem TotalOk.mono {p : ℕ} {v : String} {db db' : UploadDb}
    (hknown : ∀ c, Known p v db c → Known p v db' c) {phase : TotalPhase}
    (h : TotalOk p v db phase) : TotalOk p v db' phase := by
  cases phase with
  | writeMetadata metadata =>
      obtain ⟨c, hc⟩ := h
      exact ⟨c, hknown c hc⟩
  | readRelease | finished => trivial

theorem PhaseOk.mono {p : ℕ} {v : String} {dto : SetReleaseDto} {db db' : UploadDb}
    (hknown : ∀ c, Known p v db c → Known p v db' c) {phase : SetPhase}
    (h : PhaseOk p v dto db phase) : PhaseOk p v dto db' phase := by
  cases phase with
  | upToSave phase =>
      cases phase with
      | save isNew row dependencies =>
          cases isNew with
          | false => exact hknown _ h
          | true => exact h
      | countRegulations existing projectName => exact fun r hr => hknown _ (h r hr)
      | findDependencies existing projectName required => exact fun r hr => hknown _ (h r hr)
      | readRelease | saveRelations isNew dependencies catalogId | updateLatest | finished => exact h
  | total phase => exact phaseOk_total.mpr ((phaseOk_total.mp h).mono hknown)
  | relations isNew dependencies catalogId | updateLatest | refresh phase | finished => trivial

/-- **Step.** One statement of `updateTotalSize`. -/
theorem total_step {p : ℕ} {v : String} {db : UploadDb} {phase : TotalPhase}
    (h : TotalOk p v db phase) :
    Effect p v db (phase.step p v db).2 none phase.written ∧
      TotalOk p v (phase.step p v db).2 (phase.step p v db).1 := by
  cases phase with
  | readRelease =>
      simp only [TotalPhase.step]
      cases hload : db.getReleaseEntity p v with
      | none => exact ⟨.quiet rfl, trivial⟩
      | some loaded =>
          obtain ⟨hfind, -⟩ := UploadDb.getReleaseEntity_some hload
          refine ⟨.quiet rfl, loaded.release.catalogId, loaded.release.metadata, ?_⟩
          show standing p v db = _
          unfold standing
          rw [hfind]
          rfl
  | writeMetadata metadata =>
      obtain ⟨c, m₀, hheld⟩ := h
      exact ⟨.written hheld (standing_writeMetadata hheld metadata), trivial⟩
  | finished => exact ⟨.quiet rfl, trivial⟩

theorem standing_relations {p : ℕ} {v : String} (db : UploadDb) (isNew : Bool)
    (dependencies : Option (List Release)) (catalogId : String) (dto : SetReleaseDto)
    (env : UploadEnv) :
    standing p v (SetCall.stepPhase env dto db (.relations isNew dependencies catalogId)).2 =
      standing p v db := by
  have hlink : ∀ db, standing p v (linkDefaultRuleToRelease catalogId db) = standing p v db := by
    intro db
    unfold linkDefaultRuleToRelease
    split <;> rfl
  have hsaved : standing p v (match dependencies with
      | none => db
      | some entities => saveDependencies catalogId entities db) = standing p v db := by
    cases dependencies <;> rfl
  cases isNew with
  | true => exact (hlink _).trans hsaved
  | false => exact hsaved

/-- **Step.** One statement of a call of `setRelease`. -/
theorem call_step {env : UploadEnv} {p : ℕ} {v : String} {db : UploadDb} {call : SetCall}
    (h : CallOk p v db call) :
    Effect p v db (call.step env db).2 (call.saved env db) call.totalWritten ∧
      CallOk p v (call.step env db).2 (call.step env db).1 := by
  obtain ⟨dto, phase⟩ := call
  obtain ⟨rfl, rfl, ⟨m, hm⟩, hphase⟩ := h
  have hsaves : dto.metadata.map normalizedMetadata = some (normalizedMetadata m) := by rw [hm]; rfl
  cases phase with
  | upToSave phase =>
      cases phase with
      | readRelease =>
          simp only [SetCall.step, SetCall.stepPhase, Archiving.stepPhase]
          by_cases hreadonly : ((db.findRelease dto.projectId dto.version).any fun r =>
              isReadonly env r.status) = true
          · rw [if_pos hreadonly]
            exact ⟨.quiet rfl, rfl, rfl, ⟨m, hm⟩, trivial⟩
          · rw [if_neg hreadonly]
            refine ⟨.quiet rfl, rfl, rfl, ⟨m, hm⟩, fun r hr => ⟨r.metadata, ?_⟩⟩
            show standing dto.projectId dto.version db = _
            unfold standing
            rw [show db.findRelease dto.projectId dto.version = some r from hr]
            rfl
      | countRegulations existing projectName => exact ⟨.quiet rfl, rfl, rfl, ⟨m, hm⟩, hphase⟩
      | findDependencies existing projectName required =>
          simp only [SetCall.step, SetCall.stepPhase, Archiving.stepPhase]
          cases hdeps : (requestedDependencies dto db).1 with
          | error e => exact ⟨.quiet rfl, rfl, rfl, ⟨m, hm⟩, trivial⟩
          | ok dependencies =>
              refine ⟨.quiet rfl, rfl, rfl, ⟨m, hm⟩, ?_⟩
              cases existing with
              | none =>
                  refine ⟨rfl, rfl, ?_⟩
                  simp [changedRelease, hsaves]
              | some r => exact hphase r rfl
      | save isNew row dependencies =>
          cases isNew with
          | false =>
              obtain ⟨m₀, hheld⟩ := hphase
              have heffect : Effect dto.projectId dto.version db (Archiving.saveStale dto row db)
                  (dto.metadata.map normalizedMetadata) none := by
                rw [hsaves]
                apply Effect.saved _ (standing_saveStale hm hheld)
                intro entry hentry
                rw [hheld] at hentry
                rw [← Option.some.inj hentry]
              have hsaved : SetCall.saved env ⟨dto, .upToSave (.save false row dependencies)⟩ db =
                  dto.metadata.map normalizedMetadata := by simp [SetCall.saved]
              rw [hsaved]
              exact ⟨heffect, rfl, rfl, ⟨m, hm⟩, trivial⟩
          | true =>
              obtain ⟨hp, hv, hrow⟩ := hphase
              simp only [SetCall.step, SetCall.stepPhase, Archiving.stepPhase, SetCall.saved]
              cases hins : insertRelease env.semver db.projects row db.releases with
              | none => exact ⟨.quiet rfl, rfl, rfl, ⟨m, hm⟩, trivial⟩
              | some inserted =>
                  obtain ⟨inserted, releases⟩ := inserted
                  obtain ⟨hnone, hstanding⟩ := standing_insert hins
                  rw [hp, hv] at hnone hstanding
                  refine ⟨?_, rfl, rfl, ⟨m, hm⟩, trivial⟩
                  have heffect : Effect dto.projectId dto.version db { db with releases := releases }
                      (dto.metadata.map normalizedMetadata) none := by
                    rw [hrow]
                    apply Effect.saved _ hstanding
                    rw [hnone]
                    intro entry hentry
                    exact absurd hentry (Option.not_mem_none entry)
                  simpa [SetCall.totalWritten] using heffect
      | saveRelations isNew dependencies catalogId | updateLatest => exact hphase.elim
      | finished => exact ⟨.quiet rfl, rfl, rfl, ⟨m, hm⟩, trivial⟩
  | relations isNew dependencies catalogId =>
      exact ⟨.quiet (standing_relations db isNew dependencies catalogId dto env), rfl, rfl, ⟨m, hm⟩,
        trivial⟩
  | total phase =>
      obtain ⟨heffect, hnext⟩ := total_step (phaseOk_total.mp hphase)
      cases phase with
      | finished =>
          refine ⟨.quiet rfl, rfl, rfl, ⟨m, hm⟩, ?_⟩
          show PhaseOk _ _ _ _ (SetCall.followUp dto)
          unfold SetCall.followUp
          split <;> trivial
      | readRelease | writeMetadata metadata =>
          exact ⟨heffect, rfl, rfl, ⟨m, hm⟩, phaseOk_total.mpr hnext⟩
  | updateLatest =>
      refine ⟨.quiet ?_, rfl, rfl, ⟨m, hm⟩, trivial⟩
      exact standing_updateReleases _ _ db (fun _ => ⟨rfl, rfl⟩) fun _ => ⟨rfl, rfl⟩
  | refresh phase =>
      cases phase with
      | finished => exact ⟨.quiet rfl, rfl, rfl, ⟨m, hm⟩, trivial⟩
      | readRelease | readRegulations loaded | readStatuses loaded regulations
      | writeCounts loaded regulations statuses | readFiles loaded compliant
      | checkFile loaded compliant missing todo | flagFile loaded compliant file todo
      | readUploaded loaded compliant missing | writeStatus loaded verdict | updateLatest =>
          exact ⟨.quiet (standing_refresh _ _ _ _ db _), rfl, rfl, ⟨m, hm⟩, trivial⟩
  | finished => exact ⟨.quiet rfl, rfl, rfl, ⟨m, hm⟩, trivial⟩

/-! ### Along a run -/

structure WorldOk (p : ℕ) (v : String) (s : MetadataWorld) : Prop where
  calls : ∀ call ∈ s.calls, CallOk p v s.db call
  totals : ∀ phase ∈ s.totals, TotalOk p v s.db phase

theorem worldOk_start (p : ℕ) (v : String) (db : UploadDb) : WorldOk p v (start db) where
  calls := fun _ hcall => absurd hcall List.not_mem_nil
  totals := fun _ hphase => absurd hphase List.not_mem_nil

/-- A change of the database that keeps the key of the release. -/
theorem WorldOk.mono {p : ℕ} {v : String} {s : MetadataWorld} {db : UploadDb} (h : WorldOk p v s)
    (hknown : ∀ c, Known p v s.db c → Known p v db c) : WorldOk p v { s with db := db } where
  calls := by
    intro call hcall
    obtain ⟨hp, hv, hm, hphase⟩ := h.calls call hcall
    exact ⟨hp, hv, hm, hphase.mono hknown⟩
  totals := fun phase hphase => (h.totals phase hphase).mono hknown

variable {env : UploadEnv} {p : ℕ} {v : String}

/-- **Step.** What an event does to the metadata, and that what has been read stays so. -/
theorem world_step {s : MetadataWorld} (h : WorldOk p v s) (e : MetadataEvent) :
    Effect p v s.db (s.step env p v e).db (s.saved env e) (s.totalWritten e) ∧
      WorldOk p v (s.step env p v e) := by
  cases e with
  | setRelease dto metadata =>
      refine ⟨.quiet rfl, ?_, h.totals⟩
      intro call hcall
      rcases List.mem_append.mp hcall with hcall | hcall
      · exact h.calls call hcall
      · rw [List.mem_singleton.mp hcall]
        exact ⟨rfl, rfl, ⟨metadata, rfl⟩, trivial⟩
  | updateTotalSize =>
      refine ⟨.quiet rfl, h.calls, ?_⟩
      intro phase hphase
      rcases List.mem_append.mp hphase with hphase | hphase
      · exact h.totals phase hphase
      · rw [List.mem_singleton.mp hphase]
        trivial
  | stepCall i =>
      simp only [step, stepCall, saved, totalWritten]
      cases hget : s.calls[i]? with
      | none => exact ⟨.quiet rfl, h⟩
      | some call =>
          obtain ⟨heffect, hnext⟩ := @call_step env p v s.db call (h.calls call (List.mem_of_getElem? hget))
          have hothers := h.mono fun c => heffect.known
          refine ⟨heffect, ?_, hothers.totals⟩
          intro other hother
          rcases List.mem_or_eq_of_mem_set hother with hother | rfl
          · exact hothers.calls other hother
          · exact hnext
  | stepTotal i =>
      simp only [step, stepTotal, saved, totalWritten]
      cases hget : s.totals[i]? with
      | none => exact ⟨.quiet rfl, h⟩
      | some phase =>
          obtain ⟨heffect, hnext⟩ := total_step (h.totals phase (List.mem_of_getElem? hget))
          have hothers := h.mono fun c => heffect.known
          refine ⟨heffect, hothers.calls, ?_⟩
          intro other hother
          rcases List.mem_or_eq_of_mem_set hother with hother | rfl
          · exact hothers.totals other hother
          · exact hnext
  | otherWrite db =>
      simp only [step, saved, totalWritten]
      by_cases hkept : standing p v db = standing p v s.db
      · rw [if_pos hkept]
        have heffect : Effect p v s.db db none none := .quiet hkept
        exact ⟨heffect, h.mono fun c => heffect.known⟩
      · rw [if_neg hkept]
        exact ⟨.quiet rfl, h⟩

theorem foldl_saves (saves : List ReleaseMetadata) (held : Option ReleaseMetadata) :
    saves.foldl (fun _ m => some m.apart) held = lastSaved held saves := by
  induction saves generalizing held with
  | nil => rfl
  | cons m saves ih =>
      rw [List.foldl_cons, ih]
      unfold lastSaved
      cases saves with
      | nil => rfl
      | cons m' saves => rw [List.getLast?_cons_cons, List.getLast?_eq_some_getLast (by simp)]; rfl

/-- **Main result.** In every state of a run the metadata, apart from the total size, is that of
the save executed last, exactly where every write of a total size finds the metadata that it was
computed from. -/
theorem metadata_kept_iff_fresh (env : UploadEnv) (p : ℕ) (v : String) (db : UploadDb)
    (es : List MetadataEvent) :
    (∀ done, done <+: es → userMetadata p v (Runs.run (step env p v) (start db) done).db =
      lastSaved (userMetadata p v db) (saves env p v (start db) done)) ↔
    Runs.Along (step env p v) (FindsWhatItRead p v) (start db) es := by
  have hserial := Runs.along_iff_serial (step env p v) (fun s e => (saved env s e).toList)
    (fun s => userMetadata p v s.db) (fun _ m => some m.apart) (start db) es
  have hsteps := @Runs.along_congr MetadataWorld MetadataEvent (step env p v) _ _ (WorldOk p v)
    (fun s e h => (world_step h e).2) (fun s e h => (@world_step env p v s h e).1.follows_iff)
    (start db) (worldOk_start p v db) es
  rw [show Runs.Along (step env p v) (FindsWhatItRead p v) (start db) es ↔ _ from hsteps.symm,
    ← hserial]
  constructor
  · intro h done hdone
    rw [foldl_saves]
    exact h done hdone
  · intro h done hdone
    have hdone := h done hdone
    rw [foldl_saves] at hdone
    exact hdone

/-- A run of `updateTotalSize` reads the release, a call of `setRelease` saves an installation size,
and the run writes back what it read. -/
def staleTotal : List MetadataEvent :=
  [.updateTotalSize, .stepTotal 0,
    .setRelease ⟨none, 1, "1.0", none, none, none, none, none, none⟩ ⟨some (.finite 5), none, []⟩] ++
  List.replicate 4 (.stepCall 0) ++ [.stepTotal 0] ++ List.replicate 13 (.stepCall 0)

/-- The installation size is gone when all have finished. -/
theorem stale_total_overwrites :
    (Runs.run (step plainUploadEnv 1 "1.0") (start (releaseWithImage .draft)) staleTotal).allFinished =
      true ∧
    saves plainUploadEnv 1 "1.0" (start (releaseWithImage .draft)) staleTotal =
      [⟨some (.finite 5), none, []⟩] ∧
    userMetadata 1 "1.0" (Runs.run (step plainUploadEnv 1 "1.0") (start (releaseWithImage .draft))
      staleTotal).db = some ⟨none, none, []⟩ ∧
    ¬ (userMetadata 1 "1.0" (Runs.run (step plainUploadEnv 1 "1.0")
        (start (releaseWithImage .draft)) staleTotal).db =
      lastSaved (userMetadata 1 "1.0" (releaseWithImage .draft))
        (saves plainUploadEnv 1 "1.0" (start (releaseWithImage .draft)) staleTotal)) := by
  decide +kernel

end MetadataWorld

end UploadService
