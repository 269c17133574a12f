import UploadService.Lib.Runs
import UploadService.Release.Service

/-!
# Refreshes statement by statement

`refreshReleaseState`, `setRelease` with the status `archived` and the synchronisation
with the storage, cut at their awaits: every read and every write of the database and
every request to the storage is a step of its own. A call that runs knows what it has
read so far; what the others write in between it does not see.

A world is the database with the calls that run on it. The events start a call or take
one of them a step further, in any order.

Main results:

- `Refresh.alone_eq`: a refresh that nothing interrupts is `refreshReleaseState`.
-/

namespace UploadService

open Prog ReleaseService FileUploadService RegulationStatusService

/-! ### A refresh -/

/-- The statement a refresh issues next, with what it has read. -/
inductive RefreshPhase where
  | readRelease
  | readRegulations (loaded : LoadedRelease)
  | readStatuses (loaded : LoadedRelease) (regulations : List Regulation)
  | writeCounts (loaded : LoadedRelease) (regulations : List Regulation)
      (statuses : List RegulationStatusDto)
  | readFiles (loaded : LoadedRelease) (compliant : Bool)
  | checkFile (loaded : LoadedRelease) (compliant missing : Bool) (todo : List FileUpload)
  | flagFile (loaded : LoadedRelease) (compliant : Bool) (file : FileUpload) (todo : List FileUpload)
  | readUploaded (loaded : LoadedRelease) (compliant missing : Bool)
  | writeStatus (loaded : LoadedRelease) (verdict : Verdict)
  | updateLatest
  | finished
  deriving DecidableEq

/-- A call of `refreshReleaseState` that runs. -/
structure Refresh where
  projectId : ℕ
  version : String
  phase : RefreshPhase
  deriving DecidableEq

namespace Refresh

/-- One statement of a refresh. -/
def stepPhase (env : UploadEnv) (projectId : ℕ) (version : String) (db : UploadDb) :
    RefreshPhase → RefreshPhase × UploadDb
  | .readRelease => match db.getReleaseEntity projectId version with
    | none => (.finished, db)
    | some loaded =>
        if isTerminal loaded.release.status then (.finished, db) else (.readRegulations loaded, db)
  | .readRegulations loaded => (.readStatuses loaded (regulationsOf db projectId), db)
  | .readStatuses loaded regulations =>
      (.writeCounts loaded regulations (getVersionRegulationsStatuses db projectId version), db)
  | .writeCounts loaded regulations statuses =>
      (.readFiles loaded (regulations.all (isCompliantWith statuses)),
        updateRegulationCounts projectId version regulations.length
          (numCompliant regulations statuses) db)
  | .readFiles loaded compliant =>
      (.checkFile loaded compliant false
        (db.fileUploads.filter fun f => (fileIds loaded).contains f.id), db)
  | .checkFile loaded compliant missing [] => (.readUploaded loaded compliant missing, db)
  | .checkFile loaded compliant missing (file :: todo) => match UploadDb.statOf env db file with
    | some _ => (.checkFile loaded compliant missing todo, db)
    | none =>
        if file.status = .removed then (.checkFile loaded compliant true todo, db)
        else (.flagFile loaded compliant file todo, db)
  | .flagFile loaded compliant file todo =>
      (.checkFile loaded compliant true todo, updateFileUpload file.id markMissing db)
  | .readUploaded loaded compliant missing => (.writeStatus loaded {
      regulationsCompliant := compliant
      dependenciesReleased := dependenciesReleased loaded
      storageMissing := missing
      fileUploaded := fileUploaded db loaded }, db)
  | .writeStatus loaded verdict => match decideStatus loaded.release.status verdict with
    | none => (.finished, db)
    | some status =>
        -- the update answers whether it affected a row; only then the rest follows
        if db.releases.any (statusTarget projectId version status) then
          (.updateLatest,
            startDependents loaded (ReleaseService.writeStatus projectId version status db))
        else (.finished, db)
  | .updateLatest => (.finished, updateLatestForProject projectId db)
  | .finished => (.finished, db)

def step (env : UploadEnv) (refresh : Refresh) (db : UploadDb) : Refresh × UploadDb :=
  let next := stepPhase env refresh.projectId refresh.version db refresh.phase
  ({ refresh with phase := next.1 }, next.2)

/-- Steps of one refresh with nothing in between. -/
def alone (env : UploadEnv) : ℕ → Refresh × UploadDb → Refresh × UploadDb
  | 0, s => s
  | n + 1, s => alone env n (s.1.step env s.2)

end Refresh

/-! ### Archiving one release -/

/-- The statement that `setRelease` issues next on its way to archive a release. -/
inductive ArchivePhase where
  | readRelease
  | countRegulations (existing : Option Release) (projectName : String)
  | findDependencies (existing : Option Release) (projectName : String) (required : ℕ)
  | save (isNew : Bool) (row : Release) (dependencies : Option (List Release))
  | saveRelations (isNew : Bool) (dependencies : Option (List Release)) (catalogId : String)
  | updateLatest
  | finished

/-- A call of `setRelease` with the status `archived`. -/
structure Archiving where
  dto : SetReleaseDto
  phase : ArchivePhase

namespace Archiving

/-- The request with the status `archived`. -/
def request (archiving : Archiving) : SetReleaseDto :=
  { archiving.dto with status := some .archived }

/-- The save of a row that was read before: every column the entity holds is written,
also where the row has changed since. It is found by its key, and its project and version
never change. -/
def saveStale (dto : SetReleaseDto) (row : Release) (db : UploadDb) : UploadDb :=
  updateReleases (fun r => r.catalogId == row.catalogId)
    (fun r => { row with
      catalogId := r.catalogId
      projectId := r.projectId
      version := r.version
      releaseNotes := dto.releaseNotes.or r.releaseNotes
      metadata := (dto.metadata.map normalizedMetadata).getD r.metadata }) db

/-- One statement of the call. -/
def stepPhase (env : UploadEnv) (dto : SetReleaseDto) (db : UploadDb) :
    ArchivePhase → ArchivePhase × UploadDb
  | .readRelease =>
      let existing := db.findRelease dto.projectId dto.version
      let ofProject := existing.bind fun _ => Rows.findKey Project.id dto.projectId db.projects
      let projectName := ((ofProject.map (·.name)).or
        (dto.projectIdentifier.map (·.toText))).getD "undefined"
      if existing.any fun r => isReadonly env r.status then (.finished, db)
      else (.countRegulations existing projectName, db)
  | .countRegulations existing projectName =>
      (.findDependencies existing projectName (regulationsOf db dto.projectId).length, db)
  | .findDependencies existing projectName required =>
      match (requestedDependencies dto db).1 with
      | .error _ => (.finished, db)
      | .ok dependencies =>
          (.save existing.isNone (changedRelease env dto projectName existing.isNone required
            (existing.getD (Release.create dto.projectId dto.version))) dependencies, db)
  | .save false row dependencies =>
      (.saveRelations false dependencies row.catalogId, saveStale dto row db)
  | .save true row dependencies =>
      match insertRelease env.semver db.projects row db.releases with
      | none => (.finished, db)
      | some (inserted, releases) =>
          (.saveRelations true dependencies inserted.catalogId, { db with releases := releases })
  | .saveRelations isNew dependencies catalogId =>
      (.updateLatest, (ReleaseService.saveRelations dto isNew dependencies catalogId db).2)
  | .updateLatest => (.finished, updateLatestForProject dto.projectId db)
  | .finished => (.finished, db)

def step (env : UploadEnv) (archiving : Archiving) (db : UploadDb) : Archiving × UploadDb :=
  let next := stepPhase env archiving.request db archiving.phase
  ({ archiving with phase := next.1 }, next.2)

end Archiving

/-! ### The synchronisation with the storage -/

/-- The statement the synchronisation issues next: the batch it works on, the releases
of the batch to check again, and the later batches. -/
inductive SyncPhase where
  | readArtifacts
  | check (batch : List SyncedArtifact) (recheck : List String) (later : List (List SyncedArtifact))
  | flagFile (a : SyncedArtifact) (batch : List SyncedArtifact) (recheck : List String)
      (later : List (List SyncedArtifact))
  | demote (a : SyncedArtifact) (batch : List SyncedArtifact) (recheck : List String)
      (later : List (List SyncedArtifact))
  | clearFile (a : SyncedArtifact) (batch : List SyncedArtifact) (recheck : List String)
      (later : List (List SyncedArtifact))
  | readRelease (recheck : List String) (later : List (List SyncedArtifact))
  | readFiles (release : Release) (recheck : List String) (later : List (List SyncedArtifact))
  | restore (catalogId : String) (recheck : List String) (later : List (List SyncedArtifact))
  | finished

namespace SyncPhase

/-- The batch after this one. -/
def next : List (List SyncedArtifact) → SyncPhase
  | [] => finished
  | batch :: later => check batch [] later

/-- One statement of the synchronisation. -/
def step (env : UploadEnv) (db : UploadDb) : SyncPhase → SyncPhase × UploadDb
  | readArtifacts => (next ((relevantArtifacts db).toChunks 10), db)
  | check [] recheck later => (readRelease recheck later, db)
  | check (a :: batch) recheck later => match UploadDb.statOf env db a.fileUpload with
    | none =>
        if a.fileUpload.status = .uploaded then (flagFile a batch recheck later, db)
        else (check batch recheck later, db)
    | some stored =>
        if a.fileUpload.status = .removed ∧ isRestored a.fileUpload stored = true then
          (clearFile a batch recheck later, db)
        else (check batch recheck later, db)
  | flagFile a batch recheck later =>
      (if a.release.status = .released then demote a batch recheck later
        else check batch recheck later,
        updateFileUpload a.fileUpload.id markMissing db)
  | demote a batch recheck later =>
      (check batch recheck later, setReleaseStatus a.release.catalogId .error db)
  | clearFile a batch recheck later =>
      (check batch (if a.release.releasedAt.isSome ∧ a.release.status = .error
        then ObjectMap.addKeys recheck [a.release.catalogId] else recheck) later,
        updateFileUpload a.fileUpload.id
          (fun f => { f with status := .uploaded, error := none, progress := 100 }) db)
  | readRelease [] later => (next later, db)
  | readRelease (catalogId :: recheck) later =>
      match Rows.findKey Release.catalogId catalogId db.releases with
      | none => (readRelease recheck later, db)
      | some release =>
          if mayBeRestored release then (readFiles release recheck later, db)
          else (readRelease recheck later, db)
  | readFiles release recheck later =>
      (if allHealthy db release.catalogId then restore release.catalogId recheck later
        else readRelease recheck later, db)
  | restore catalogId recheck later =>
      (readRelease recheck later, setReleaseStatus catalogId .released db)
  | finished => (finished, db)

end SyncPhase

/-! ### The world -/

structure World where
  db : UploadDb
  refreshes : List Refresh
  archivings : List Archiving
  syncs : List SyncPhase

/-- No call runs. -/
def World.start (db : UploadDb) : World := ⟨db, [], [], []⟩

inductive WorldEvent where
  /-- a call of `refreshReleaseState`, waited for or not -/
  | refreshReleaseState (projectId : ℕ) (version : String)
  | archiveProjectReleases (projectId : ℕ)
  /-- a call of `setRelease`, with the status `archived` -/
  | setRelease (dto : SetReleaseDto)
  | syncArtifactsStorageStatus
  /-- the next statement of a call that runs -/
  | stepRefresh (i : ℕ)
  | stepArchiving (i : ℕ)
  | stepSync (i : ℕ)

namespace World

def stepRefresh (env : UploadEnv) (i : ℕ) (s : World) : World :=
  match s.refreshes[i]? with
  | none => s
  | some refresh =>
      let next := refresh.step env s.db
      { s with db := next.2, refreshes := s.refreshes.set i next.1 }

def stepArchiving (env : UploadEnv) (i : ℕ) (s : World) : World :=
  match s.archivings[i]? with
  | none => s
  | some archiving =>
      let next := archiving.step env s.db
      { s with db := next.2, archivings := s.archivings.set i next.1 }

def stepSync (env : UploadEnv) (i : ℕ) (s : World) : World :=
  match s.syncs[i]? with
  | none => s
  | some phase =>
      let next := phase.step env s.db
      { s with db := next.2, syncs := s.syncs.set i next.1 }

def step (env : UploadEnv) (s : World) : WorldEvent → World
  | .refreshReleaseState projectId version =>
      { s with refreshes := s.refreshes ++ [⟨projectId, version, .readRelease⟩] }
  | .archiveProjectReleases projectId =>
      { s with db := ReleaseService.archiveProjectReleases projectId s.db }
  | .setRelease dto => { s with archivings := s.archivings ++ [⟨dto, .readRelease⟩] }
  | .syncArtifactsStorageStatus => { s with syncs := s.syncs ++ [.readArtifacts] }
  | .stepRefresh i => s.stepRefresh env i
  | .stepArchiving i => s.stepArchiving env i
  | .stepSync i => s.stepSync env i

end World

/-! ### A refresh that nothing interrupts -/

namespace Refresh

variable {env : UploadEnv}

/-- Steps of the refresh alone lead from one state to the other. -/
def Reaches (env : UploadEnv) (s t : Refresh × UploadDb) : Prop := ∃ n, alone env n s = t

theorem alone_add (m n : ℕ) (s : Refresh × UploadDb) :
    alone env (m + n) s = alone env n (alone env m s) := by
  induction m generalizing s with
  | zero => rw [Nat.zero_add, alone]
  | succ m ih =>
      rw [Nat.succ_add, alone, alone]
      exact ih _

theorem Reaches.trans {s t u : Refresh × UploadDb} (h₁ : Reaches env s t) (h₂ : Reaches env t u) :
    Reaches env s u := by
  obtain ⟨m, hm⟩ := h₁
  obtain ⟨n, hn⟩ := h₂
  exact ⟨m + n, by rw [alone_add, hm, hn]⟩

theorem Reaches.step (refresh : Refresh) (db : UploadDb) :
    Reaches env (refresh, db) (refresh.step env db) := ⟨1, rfl⟩

/-- The checks of the files, one after the other. -/
theorem checkFile_reaches (p : ℕ) (v : String) (loaded : LoadedRelease) (compliant : Bool)
    (todo : List FileUpload) (missing : Bool) (db : UploadDb) :
    ∃ missing' db', foldEach (checkMissingFile env) missing todo db = (.ok missing', db') ∧
      Reaches env (⟨p, v, .checkFile loaded compliant missing todo⟩, db)
        (⟨p, v, .readUploaded loaded compliant missing'⟩, db') := by
  induction todo generalizing missing db with
  | nil => exact ⟨missing, db, rfl, Reaches.step _ _⟩
  | cons file todo ih =>
      have hfold : ∀ m db₁, checkMissingFile env missing file db = (.ok m, db₁) →
          foldEach (checkMissingFile env) missing (file :: todo) db =
            foldEach (checkMissingFile env) m todo db₁ := by
        intro m db₁ hcheck
        exact bind_run_ok hcheck _
      have hstep : Reaches env (⟨p, v, .checkFile loaded compliant missing (file :: todo)⟩, db)
          (Refresh.step env ⟨p, v, .checkFile loaded compliant missing (file :: todo)⟩ db) :=
        Reaches.step _ _
      cases hstat : UploadDb.statOf env db file with
      | some stored =>
          obtain ⟨missing', db', hrun, hreach⟩ := ih missing db
          refine ⟨missing', db', ?_, ?_⟩
          · rw [hfold missing db (by simp only [checkMissingFile, gets_bind_run, hstat, pure_run])]
            exact hrun
          · simp only [Refresh.step, stepPhase, hstat] at hstep
            exact hstep.trans hreach
      | none =>
          by_cases hremoved : file.status = .removed
          · obtain ⟨missing', db', hrun, hreach⟩ := ih true db
            refine ⟨missing', db', ?_, ?_⟩
            · rw [hfold true db]
              · exact hrun
              · simp only [checkMissingFile, gets_bind_run, hstat, hremoved]
                rfl
            · simp only [Refresh.step, stepPhase, hstat, if_pos hremoved] at hstep
              exact hstep.trans hreach
          · obtain ⟨missing', db', hrun, hreach⟩ := ih true (updateFileUpload file.id markMissing db)
            refine ⟨missing', db', ?_, ?_⟩
            · rw [hfold true (updateFileUpload file.id markMissing db)]
              · exact hrun
              · have hne : (file.status != .removed) = true := by simpa using hremoved
                simp only [checkMissingFile, gets_bind_run, hstat, hne]
                rfl
            · simp only [Refresh.step, stepPhase, hstat, if_neg hremoved] at hstep
              exact (hstep.trans (Reaches.step _ _)).trans hreach

/-- The write of the status, and what follows it. -/
theorem writeStatus_reaches (p : ℕ) (v : String) (loaded : LoadedRelease) (verdict : Verdict)
    (db : UploadDb) :
    Reaches env (⟨p, v, .writeStatus loaded verdict⟩, db)
      (⟨p, v, .finished⟩, settle p v loaded verdict db) := by
  have hstep : Reaches env (⟨p, v, .writeStatus loaded verdict⟩, db)
      (Refresh.step env ⟨p, v, .writeStatus loaded verdict⟩ db) := Reaches.step _ _
  unfold settle
  cases hdecide : decideStatus loaded.release.status verdict with
  | none =>
      simp only [Refresh.step, stepPhase, hdecide] at hstep
      exact hstep
  | some status =>
      by_cases hany : db.releases.any (statusTarget p v status) = true
      · simp only [Refresh.step, stepPhase, hdecide, hany, if_true] at hstep
        simp only [hany, if_true]
        exact hstep.trans (Reaches.step _ _)
      · simp only [Refresh.step, stepPhase, hdecide, hany, Bool.false_eq_true, if_false] at hstep
        simp only [hany, Bool.false_eq_true, if_false]
        exact hstep

/-- **Main result.** A refresh that nothing interrupts does what `refreshReleaseState`
does. -/
theorem alone_eq (p : ℕ) (v : String) (db : UploadDb) :
    ∃ n, alone env n (⟨p, v, .readRelease⟩, db) =
      (⟨p, v, .finished⟩, (refreshReleaseState env p v db).2) := by
  have hstep : Reaches env (⟨p, v, .readRelease⟩, db)
      (Refresh.step env ⟨p, v, .readRelease⟩ db) := Reaches.step _ _
  unfold refreshReleaseState
  rw [gets_bind_run]
  cases hload : db.getReleaseEntity p v with
  | none =>
      simp only [Refresh.step, stepPhase, hload] at hstep
      exact hstep
  | some loaded =>
      by_cases hterminal : isTerminal loaded.release.status = true
      · simp only [Refresh.step, stepPhase, hload, hterminal, if_true] at hstep
        simp only [hterminal, if_true]
        exact hstep
      · simp only [Refresh.step, stepPhase, hload, hterminal, Bool.false_eq_true, if_false] at hstep
        simp only [hterminal, Bool.false_eq_true, if_false]
        have hcounts : Reaches env (⟨p, v, .readRegulations loaded⟩, db)
            (⟨p, v, .checkFile loaded
              ((regulationsOf db p).all (isCompliantWith (getVersionRegulationsStatuses db p v))) false
              (db.fileUploads.filter fun f => (fileIds loaded).contains f.id)⟩,
              updateRegulationCounts p v (regulationsOf db p).length (numCompliant
                (regulationsOf db p) (getVersionRegulationsStatuses db p v)) db) := ⟨4, rfl⟩
        obtain ⟨missing, db', hrun, hcheck⟩ := @checkFile_reaches env p v loaded
          ((regulationsOf db p).all (isCompliantWith (getVersionRegulationsStatuses db p v)))
          (db.fileUploads.filter fun f => (fileIds loaded).contains f.id) false
          (updateRegulationCounts p v (regulationsOf db p).length (numCompliant
            (regulationsOf db p) (getVersionRegulationsStatuses db p v)) db)
        have hall := (((hstep.trans hcounts).trans hcheck).trans (Reaches.step _ _)).trans
          (writeStatus_reaches p v loaded _ db')
        have hrefresh : refreshLoaded env p v loaded db = (.ok (), settle p v loaded {
            regulationsCompliant :=
              (regulationsOf db p).all (isCompliantWith (getVersionRegulationsStatuses db p v))
            dependenciesReleased := dependenciesReleased loaded
            storageMissing := missing
            fileUploaded := fileUploaded db' loaded } db') := by
          unfold refreshLoaded
          rw [gets_bind_run, gets_bind_run, modify_bind_run]
          exact bind_run_ok hrun _
        rw [hrefresh]
        exact hall

end Refresh

end UploadService
