import UploadService.Config.Versions

/-!
# Activation with failing steps

`applyRevision` archives the ACTIVE revision, saves the draft as the new one, deletes the
old config release, saves a release with the new version and pushes it again, each as a
statement of its own and none in a transaction. Here every one of these statements may
throw, by a schedule `Faults`.

`stage` says how far a run gets and `Stage.leaves` which rows it leaves there. The state
after a failing run is whole exactly where that stage is harmless.

Main results:

- `applyRevisionWith_none`: without a failing statement the operation is `applyRevision`;
- `applyRevisionWith_run`: a run leaves the rows of its stage, and fails before the last one;
- `allOrNothing_iff`: activation is all-or-nothing exactly where it `FailsSafely`;
- `failed_save_no_active`: a failing save of the draft leaves no ACTIVE revision.
-/

namespace UploadService

open Prog ConfigService

/-! ### The operation -/

/-- The statements of `applyRevision` that may throw. -/
inductive ApplyStep where
  | revisionLookup | revisionUpdate | revisionSave
  | releaseLookup | offeringLookup | releaseDelete | releaseSave | offeringUpsert
  | deviceLookup | payloadRead | cacheWrite
  deriving DecidableEq, Repr

/-- Which statements throw in one run. -/
abbrev Faults : Type := ApplyStep → Bool

/-- A statement that throws before it writes, or runs. -/
def attempt {α : Type} (fails : Faults) (statement : ApplyStep) (p : ConfigProg α) : ConfigProg α :=
  if fails statement then Prog.throw (.queryFailed "Connection terminated") else p

/-- The rows of `offeringRepo.upsert` for the devices that are pushed again. -/
def pushRows (catalogId : String) (deviceIds : List String) (offerings : List ComponentOffering) :
    List ComponentOffering :=
  deviceIds.foldl (fun rows deviceId => Rows.save (fun o => (o.deviceId, o.releaseCatalogId))
    ⟨deviceId, catalogId, .push⟩ rows) offerings

/-- The devices the old release was pushed to, where there is an old release. -/
def findPushed (fails : Faults) : Option Release → ConfigProg (List String)
  | none => pure []
  | some old => attempt fails .offeringLookup (Prog.gets fun db => pushedDevices db old.catalogId)

def deleteOldRelease (fails : Faults) : Option Release → ConfigProg Unit
  | none => pure ()
  | some old => attempt fails .releaseDelete (deleteConfigRelease (some old))

def pushAgain (fails : Faults) (catalogId : String) (deviceIds : List String) : ConfigProg Unit :=
  if deviceIds.isEmpty then pure ()
  else attempt fails .offeringUpsert (Prog.modify fun db =>
    { db with offerings := pushRows catalogId deviceIds db.offerings })

/-- `updateConfigProjectRelease`, statement by statement. -/
def updateConfigProjectReleaseWith (fails : Faults) (peers : Peers) (projectId : ℕ)
    (newSemVer : String) : ConfigProg Unit := do
  let oldRelease ← attempt fails .releaseLookup (Prog.gets fun db => lastRelease db projectId)
  let pushedDeviceIds ← findPushed fails oldRelease
  deleteOldRelease fails oldRelease
  let newRelease ← attempt fails .releaseSave (insertConfigRelease peers projectId newSemVer)
  pushAgain fails newRelease.catalogId pushedDeviceIds

/-- The peers of a run: a failing question to the device service is answered with no
types, and a failing cache write is only logged. -/
def peersWith (fails : Faults) (peers : Peers) : Peers :=
  { peers with
    deviceTypeIds := fun d => if fails .deviceLookup then [] else peers.deviceTypeIds d
    bucketUp := peers.bucketUp && !fails .cacheWrite }

/-- `publishToDevice`, statement by statement. -/
def publishToDeviceWith (fails : Faults) (peers : Peers) (project : Project) (semVer : String) :
    ConfigProg Unit :=
  match deviceOfName project.name with
  | none => pure ()
  | some deviceId =>
      if project.projectType = .config then do
        updateConfigProjectReleaseWith fails peers project.id semVer
        attempt fails .payloadRead
          (assembleAndCacheDeviceConfig (peersWith fails peers) deviceId semVer)
      else pure ()

/-- `applyRevision`, statement by statement. -/
def applyRevisionWith (fails : Faults) (peers : Peers) (dto : ApplyConfigRevisionDto) :
    ConfigProg ConfigRevisionDto := do
  let project ← requireProject peers dto.projectIdentifier [.config, .configMap]
  let draft ← attempt fails .revisionLookup (findWithGroups project.id .draft)
  let previousActive ← attempt fails .revisionLookup (findWithGroups project.id .active)
  match draft with
  | none =>
    Prog.throw (.notFound s!"No draft revision found for project '{dto.projectIdentifier.toText}'")
  | some (draft, draftGroups) => do
    attempt fails .revisionUpdate (ConfigRepo.archiveActive project.id)
    let semVer := computeNextSemVer (previousActive.map (·.2)) draftGroups
      (previousActive.bind (·.1.semVer))
    let applied := { draft with
      semVer := some semVer, status := .active, appliedBy := dto.appliedBy,
      appliedAt := some peers.now }
    attempt fails .revisionSave
      (ConfigRepo.updateRevisions (fun r => r.id == draft.id) fun _ => applied)
    publishToDeviceWith fails peers project semVer
    Prog.ofExcept (mapRevisionToDto applied (some draftGroups))

/-! ### Without a failing statement -/

/-- No statement throws. -/
def noFaults : Faults := fun _ => false

theorem pushAgain_none (catalogId : String) (deviceIds : List String) :
    pushAgain noFaults catalogId deviceIds = Prog.modify fun db =>
      { db with offerings := pushRows catalogId deviceIds db.offerings } := by
  cases deviceIds with
  | nil => rfl
  | cons d ds => rfl

theorem updateConfigProjectReleaseWith_none (peers : Peers) (projectId : ℕ) (semVer : String) :
    updateConfigProjectReleaseWith noFaults peers projectId semVer =
      updateConfigProjectRelease peers projectId semVer := by
  funext db
  unfold updateConfigProjectReleaseWith updateConfigProjectRelease
  simp only [pushAgain_none]
  show (Prog.gets (fun db => lastRelease db projectId) >>= _) db = _
  rw [gets_bind_run, gets_bind_run, gets_bind_run]
  cases lastRelease db projectId with
  | none => rfl
  | some old => rfl

/-- **Connection.** Without a failing statement the operation is `applyRevision`. -/
theorem applyRevisionWith_none (peers : Peers) (dto : ApplyConfigRevisionDto) :
    applyRevisionWith noFaults peers dto = applyRevision peers dto := by
  have hpeers : peersWith noFaults peers = peers := by
    unfold peersWith noFaults
    simp
  have hpublish : ∀ project semVer, publishToDeviceWith noFaults peers project semVer =
      publishToDevice peers project semVer := by
    intro project semVer
    unfold publishToDeviceWith publishToDevice
    simp only [updateConfigProjectReleaseWith_none, hpeers]
    rfl
  unfold applyRevisionWith applyRevision
  simp only [hpublish]
  rfl

/-! ### How far a run gets -/

/-- How far a run of `applyRevision` gets. -/
inductive Stage where
  /-- nothing is written -/
  | unchanged
  /-- the ACTIVE revision is archived -/
  | archived
  /-- the draft is ACTIVE, the release is the old one -/
  | activated
  /-- the old release is deleted -/
  | unreleased
  /-- the new release is saved -/
  | unpushed
  /-- everything but the cache object is written -/
  | published
  /-- the draft is ACTIVE in a project that has no config release -/
  | revised
  deriving DecidableEq, Repr

/-- The project of a device, whose version a config release carries. -/
def isDeviceProject (project : Project) : Bool :=
  project.projectType == .config && (deviceOfName project.name).isSome

/-- The version that activation gives the draft. -/
def nextSemVer (db : ConfigDb) (projectId : ℕ) : String :=
  computeNextSemVer ((replaced db projectId).map (·.2))
    (((db.findRevision projectId .draft).map fun d => db.groupsOf d.id).getD [])
    ((replaced db projectId).bind (·.1.semVer))

/-- The draft as activation saves it. -/
def appliedRow (peers : Peers) (dto : ApplyConfigRevisionDto) (semVer : String)
    (draft : ConfigRevision) : ConfigRevision :=
  { draft with
    semVer := some semVer, status := .active, appliedBy := dto.appliedBy,
    appliedAt := some peers.now }

/-- The release rows without the old release. -/
def otherReleases (db : ConfigDb) (projectId : ℕ) : List Release :=
  match lastRelease db projectId with
  | none => db.releases
  | some old => Rows.deleteWhere (fun r => r.catalogId == old.catalogId) db.releases

/-- The offerings that do not go with the old release. -/
def otherOfferings (db : ConfigDb) (projectId : ℕ) : List ComponentOffering :=
  match lastRelease db projectId with
  | none => db.offerings
  | some old => Rows.deleteWhere (fun o => o.releaseCatalogId == old.catalogId) db.offerings

/-- The devices that are pushed again. -/
def pushedBefore (db : ConfigDb) (projectId : ℕ) : List String :=
  match lastRelease db projectId with
  | none => []
  | some old => pushedDevices db old.catalogId

/-- The insert of the new release, after the old one is deleted. -/
def savedRelease (peers : Peers) (db : ConfigDb) (projectId : ℕ) : Option (Release × List Release) :=
  insertRelease peers.semver db.projects
    { Release.create projectId (nextSemVer db projectId) with status := .released }
    (otherReleases db projectId)

/-- How far the statements on the release get. -/
def releaseStage (fails : Faults) (peers : Peers) (db : ConfigDb) (projectId : ℕ) : Stage :=
  if fails .releaseLookup || ((lastRelease db projectId).isSome &&
      (fails .offeringLookup || fails .releaseDelete)) then .activated
  else if fails .releaseSave || (savedRelease peers db projectId).isNone then .unreleased
  else if !(pushedBefore db projectId).isEmpty && fails .offeringUpsert then .unpushed
  else .published

/-- How far a run gets: the first statement that throws decides. -/
def stage (fails : Faults) (peers : Peers) (project : Project) (db : ConfigDb) : Stage :=
  if fails .revisionLookup || fails .revisionUpdate then .unchanged
  else if fails .revisionSave then .archived
  else if isDeviceProject project then releaseStage fails peers db project.id
  else .revised

/-- The revisions after the draft was saved as ACTIVE. -/
def activatedRows (db : ConfigDb) (projectId : ℕ) (applied : ConfigRevision) : List ConfigRevision :=
  setRow applied (archiveRows projectId db.revisions)

/-- The rows that a run leaves at a stage. -/
inductive Left (peers : Peers) (db : ConfigDb) (p : ℕ) (applied : ConfigRevision) :
    Stage → ConfigDb → Prop
  | unchanged : Left peers db p applied .unchanged db
  | archived : Left peers db p applied .archived { db with revisions := archiveRows p db.revisions }
  | activated : Left peers db p applied .activated
      { db with revisions := activatedRows db p applied }
  | revised : Left peers db p applied .revised { db with revisions := activatedRows db p applied }
  | unreleased : Left peers db p applied .unreleased
      { db with
        revisions := activatedRows db p applied
        releases := otherReleases db p
        offerings := otherOfferings db p }
  | unpushed {row : Release} {rows : List Release} (h : savedRelease peers db p = some (row, rows)) :
      Left peers db p applied .unpushed
        { db with
          revisions := activatedRows db p applied
          releases := rows
          offerings := otherOfferings db p }
  | published {row : Release} {rows : List Release} (h : savedRelease peers db p = some (row, rows))
      {db' : ConfigDb} (hrevisions : db'.revisions = activatedRows db p applied)
      (hreleases : db'.releases = rows)
      (hofferings : db'.offerings =
        pushRows row.catalogId (pushedBefore db p) (otherOfferings db p)) :
      Left peers db p applied .published db'

/-- A run that gets to the stage has made all its writes. -/
def Stage.isLast : Stage → Bool
  | .published | .revised => true
  | _ => false

/-! ### Runs -/

theorem attempt_run {α : Type} {fails : Faults} {statement : ApplyStep} (p : ConfigProg α)
    (h : fails statement = false) : attempt fails statement p = p := by
  unfold attempt
  rw [h]
  rfl

theorem attempt_bind_fails {α β : Type} {fails : Faults} {statement : ApplyStep} (p : ConfigProg α)
    (h : fails statement = true) (rest : α → ConfigProg β) (db : ConfigDb) :
    ∃ e, (attempt fails statement p >>= rest) db = (.error e, db) := by
  unfold attempt
  rw [h]
  exact ⟨_, rfl⟩

section Runs

variable {fails : Faults} {peers : Peers} {db : ConfigDb} {p : ℕ} {applied : ConfigRevision}

/-- The lookups and the deletion around the old release stop before they write. -/
theorem oldRelease_fails (rows : List ConfigRevision) (rest : List String → ConfigProg Unit)
    (h : (fails .releaseLookup || ((lastRelease db p).isSome &&
      (fails .offeringLookup || fails .releaseDelete))) = true) :
    ∃ e, (attempt fails .releaseLookup (Prog.gets fun db => lastRelease db p) >>= fun old =>
      findPushed fails old >>= fun ids => deleteOldRelease fails old >>= fun _ => rest ids)
      { db with revisions := rows } = (.error e, { db with revisions := rows }) := by
  cases hlookup : fails .releaseLookup with
  | true => exact attempt_bind_fails _ hlookup _ _
  | false =>
      rw [attempt_run _ hlookup, gets_bind_run]
      show ∃ e, (findPushed fails (lastRelease db p) >>= fun ids =>
        deleteOldRelease fails (lastRelease db p) >>= fun _ => rest ids) _ = _
      rw [hlookup, Bool.false_or] at h
      cases hold : lastRelease db p with
      | none =>
          rw [hold] at h
          cases h
      | some old =>
          rw [hold, Option.isSome_some, Bool.true_and] at h
          cases hoffering : fails .offeringLookup with
          | true => exact attempt_bind_fails _ hoffering _ _
          | false =>
              have hdelete : fails .releaseDelete = true := by simpa [hoffering] using h
              show ∃ e, (attempt fails .offeringLookup _ >>= _) _ = _
              rw [attempt_run _ hoffering, gets_bind_run]
              exact attempt_bind_fails _ hdelete _ _

/-- Where they do not, the old release is gone with its offerings. -/
theorem oldRelease_run (rows : List ConfigRevision) (rest : List String → ConfigProg Unit)
    (h : (fails .releaseLookup || ((lastRelease db p).isSome &&
      (fails .offeringLookup || fails .releaseDelete))) = false) :
    (attempt fails .releaseLookup (Prog.gets fun db => lastRelease db p) >>= fun old =>
      findPushed fails old >>= fun ids => deleteOldRelease fails old >>= fun _ => rest ids)
      { db with revisions := rows } =
    rest (pushedBefore db p)
      { db with
        revisions := rows, releases := otherReleases db p, offerings := otherOfferings db p } := by
  rw [Bool.or_eq_false_iff] at h
  obtain ⟨hlookup, hrest⟩ := h
  unfold pushedBefore otherReleases otherOfferings
  rw [attempt_run _ hlookup, gets_bind_run]
  show (findPushed fails (lastRelease db p) >>= fun ids =>
    deleteOldRelease fails (lastRelease db p) >>= fun _ => rest ids) _ = _
  cases hold : lastRelease db p with
  | none => rfl
  | some old =>
      rw [hold, Option.isSome_some, Bool.true_and, Bool.or_eq_false_iff] at hrest
      show (attempt fails .offeringLookup _ >>= fun ids =>
        attempt fails .releaseDelete _ >>= fun _ => rest ids) _ = _
      rw [attempt_run _ hrest.1, attempt_run _ hrest.2]
      rfl

theorem insertConfigRelease_none (h : savedRelease peers db p = none) (rows : List ConfigRevision)
    (offerings : List ComponentOffering) :
    ∃ e, insertConfigRelease peers p (nextSemVer db p)
      { db with revisions := rows, releases := otherReleases db p, offerings := offerings } =
      (.error e, { db with
        revisions := rows, releases := otherReleases db p, offerings := offerings }) := by
  simp only [insertConfigRelease]
  rw [show insertRelease peers.semver db.projects _ (otherReleases db p) = none from h]
  exact ⟨_, rfl⟩

theorem insertConfigRelease_some {row : Release} {releases : List Release}
    (h : savedRelease peers db p = some (row, releases)) (rows : List ConfigRevision)
    (offerings : List ComponentOffering) :
    insertConfigRelease peers p (nextSemVer db p)
      { db with revisions := rows, releases := otherReleases db p, offerings := offerings } =
      (.ok row, { db with revisions := rows, releases := releases, offerings := offerings }) := by
  simp only [insertConfigRelease]
  rw [show insertRelease peers.semver db.projects _ (otherReleases db p) = some (row, releases)
    from h]

/-- The statements on the release stop at their stage, or write all their rows. -/
theorem updateConfigProjectReleaseWith_run (applied : ConfigRevision) :
    (∃ e db', updateConfigProjectReleaseWith fails peers p (nextSemVer db p)
        { db with revisions := activatedRows db p applied } = (.error e, db') ∧
      Left peers db p applied (releaseStage fails peers db p) db') ∨
    ∃ row rows, releaseStage fails peers db p = .published ∧
      savedRelease peers db p = some (row, rows) ∧
      updateConfigProjectReleaseWith fails peers p (nextSemVer db p)
        { db with revisions := activatedRows db p applied } =
      (.ok (), { db with
        revisions := activatedRows db p applied, releases := rows,
        offerings := pushRows row.catalogId (pushedBefore db p) (otherOfferings db p) }) := by
  unfold updateConfigProjectReleaseWith
  cases hold : (fails .releaseLookup || ((lastRelease db p).isSome &&
      (fails .offeringLookup || fails .releaseDelete))) with
  | true =>
      have hstage : releaseStage fails peers db p = .activated := by
        unfold releaseStage
        rw [hold]
        rfl
      obtain ⟨e, he⟩ := oldRelease_fails (activatedRows db p applied) _ hold
      exact .inl ⟨e, _, he, hstage ▸ .activated⟩
  | false =>
      rw [oldRelease_run _ _ hold]
      unfold releaseStage
      rw [hold]
      cases hsave : fails .releaseSave with
      | true =>
          obtain ⟨e, he⟩ := attempt_bind_fails _ hsave _ _
          exact .inl ⟨e, _, he, .unreleased⟩
      | false =>
          rw [attempt_run _ hsave]
          cases hrow : savedRelease peers db p with
          | none =>
              obtain ⟨e, he⟩ := insertConfigRelease_none hrow (activatedRows db p applied)
                (otherOfferings db p)
              rw [bind_run_error he]
              exact .inl ⟨e, _, rfl, .unreleased⟩
          | some saved =>
              obtain ⟨row, rows⟩ := saved
              rw [bind_run_ok (insertConfigRelease_some hrow _ _)]
              cases hids : (pushedBefore db p).isEmpty with
              | true =>
                  refine .inr ⟨row, rows, rfl, rfl, ?_⟩
                  rw [List.isEmpty_iff] at hids
                  rw [hids]
                  rfl
              | false =>
                  have hpush : ∀ db₁, pushAgain fails row.catalogId (pushedBefore db p) db₁ =
                      attempt fails .offeringUpsert (Prog.modify fun db₁ => { db₁ with
                        offerings := pushRows row.catalogId (pushedBefore db p) db₁.offerings })
                        db₁ := by
                    intro db₁
                    unfold pushAgain
                    rw [hids]
                    rfl
                  rw [hpush]
                  cases hupsert : fails .offeringUpsert with
                  | true =>
                      unfold attempt
                      rw [hupsert]
                      exact .inl ⟨_, _, rfl, .unpushed hrow⟩
                  | false =>
                      rw [attempt_run _ hupsert]
                      exact .inr ⟨row, rows, rfl, rfl, rfl⟩

/-- A run ends with the rows of a stage, and throws where the stage is not the last. -/
structure Reaches {α : Type} (peers : Peers) (db : ConfigDb) (p : ℕ) (applied : ConfigRevision)
    (s : Stage) (result : Except Exception α × ConfigDb) : Prop where
  left : Left peers db p applied s result.2
  throws : s.isLast = false → ∃ e, result.1 = .error e

theorem Reaches.of_throw {α : Type} {s : Stage} {e : Exception} {db' : ConfigDb}
    (h : Left peers db p applied s db') :
    Reaches peers db p applied s ((.error e, db') : Except Exception α × ConfigDb) :=
  ⟨h, fun _ => ⟨e, rfl⟩⟩

/-- Building the response writes nothing, also where it throws. -/
theorem Reaches.bind_ofExcept {α β : Type} {s : Stage} {q : ConfigProg α} {db₁ : ConfigDb}
    (response : Except Exception β) (h : Reaches peers db p applied s (q db₁)) :
    Reaches peers db p applied s
      ((q >>= fun _ => (Prog.ofExcept response : ConfigProg β)) db₁) := by
  rw [bind_run]
  rcases hr : q db₁ with ⟨r, db₂⟩
  rw [hr] at h
  cases r with
  | ok a =>
      refine ⟨h.left, fun hs => ?_⟩
      obtain ⟨e, he⟩ := h.throws hs
      cases he
  | error e => exact ⟨h.left, fun _ => ⟨e, rfl⟩⟩

/-- Reading the payload and writing the cache object change no row of a stage. -/
theorem assembleAndCache_keeps_left (fails : Faults) (peers' : Peers) (deviceId semVer : String) :
    Keeps (Left peers db p applied .published)
      (attempt fails .payloadRead (assembleAndCacheDeviceConfig peers' deviceId semVer)) := by
  have hvault : VaultRequests (Left peers db p applied .published) := by
    intro db' faults h
    cases h with
    | published h hrevisions hreleases hofferings =>
        exact .published h hrevisions hreleases hofferings
  refine Keeps.ite (Keeps.throw _) ?_
  refine Keeps.bind (buildDeviceConfigPayload_keeps hvault peers' deviceId) fun payload => ?_
  refine Keeps.when fun db' h => ?_
  cases h with
  | published h hrevisions hreleases hofferings =>
      exact .published h hrevisions hreleases hofferings

theorem publishToDeviceWith_reaches (project : Project) :
    Reaches peers db project.id applied
      (if isDeviceProject project then releaseStage fails peers db project.id else .revised)
      (publishToDeviceWith fails peers project (nextSemVer db project.id)
        { db with revisions := activatedRows db project.id applied }) := by
  unfold publishToDeviceWith isDeviceProject
  cases hname : deviceOfName project.name with
  | none =>
      rw [Option.isSome_none, Bool.and_false]
      exact ⟨.revised, fun h => by cases h⟩
  | some deviceId =>
      by_cases htype : project.projectType = .config
      · rw [htype]
        show Reaches peers db project.id applied (releaseStage fails peers db project.id)
          ((updateConfigProjectReleaseWith fails peers project.id _ >>= _) _)
        rcases @updateConfigProjectReleaseWith_run fails peers db project.id applied with
          ⟨e, db', hrun, hleft⟩ | ⟨row, rows, hstage, hsaved, hrun⟩
        · rw [bind_run_error hrun]
          exact .of_throw hleft
        · rw [bind_run_ok hrun, hstage]
          refine ⟨?_, fun h => by cases h⟩
          exact assembleAndCache_keeps_left fails _ deviceId _ _ (.published hsaved rfl rfl rfl)
      · have hnot : (project.projectType == .config) = false := by simpa using htype
        rw [hnot, Bool.false_and]
        show Reaches peers db project.id applied _
          ((if project.projectType = .config then (_ : ConfigProg Unit) else pure ()) _)
        rw [if_neg htype]
        exact ⟨.revised, fun h => by cases h⟩

/-- The save of the draft and what follows it, where the ACTIVE revision is archived. -/
theorem saveDraft_reaches {dto : ApplyConfigRevisionDto} {project : Project} {d : ConfigRevision}
    {semVer : String} (hsemVer : nextSemVer db project.id = semVer)
    (response : Except Exception ConfigRevisionDto) :
    Reaches peers db project.id (appliedRow peers dto semVer d)
      (if fails .revisionSave then .archived
        else if isDeviceProject project then releaseStage fails peers db project.id else .revised)
      ((attempt fails .revisionSave (ConfigRepo.updateRevisions (fun r => r.id == d.id) fun _ =>
          appliedRow peers dto semVer d) >>= fun _ =>
        publishToDeviceWith fails peers project semVer >>= fun _ => Prog.ofExcept response)
        { db with revisions := archiveRows project.id db.revisions }) := by
  cases hsave : fails .revisionSave with
  | true =>
      obtain ⟨e, he⟩ := attempt_bind_fails _ hsave _ _
      rw [he]
      exact .of_throw .archived
  | false =>
      rw [attempt_run _ hsave, ← hsemVer]
      exact (publishToDeviceWith_reaches project).bind_ofExcept response

/-- **Run.** A run of activation leaves the rows of its stage. -/
theorem applyRevisionWith_run (fails : Faults) {peers : Peers} {dto : ApplyConfigRevisionDto}
    {project : Project} (hproject : peers.project dto.projectIdentifier = some project)
    (htype : project.projectType ∈ [ProjectType.config, ProjectType.configMap])
    {db : ConfigDb} {d : ConfigRevision} (hd : db.findRevision project.id .draft = some d) :
    Reaches peers db project.id (appliedRow peers dto (nextSemVer db project.id) d)
      (stage fails peers project db) (applyRevisionWith fails peers dto db) := by
  have hversion : nextSemVer db project.id = computeNextSemVer
      ((replaced db project.id).map (·.2)) (db.groupsOf d.id)
      ((replaced db project.id).bind (·.1.semVer)) := by
    unfold nextSemVer
    rw [hd]
    rfl
  unfold applyRevisionWith stage
  rw [bind_run_ok (requireProject_ok hproject htype)]
  cases hlookup : fails .revisionLookup with
  | true =>
      obtain ⟨e, he⟩ := attempt_bind_fails _ hlookup _ _
      rw [he]
      exact .of_throw .unchanged
  | false =>
      rw [attempt_run _ hlookup, attempt_run _ hlookup]
      unfold findWithGroups
      rw [gets_bind_run, gets_bind_run, hd]
      show Reaches peers db project.id _ _ ((attempt fails .revisionUpdate _ >>= _) db)
      cases hupdate : fails .revisionUpdate with
      | true =>
          obtain ⟨e, he⟩ := attempt_bind_fails _ hupdate _ _
          rw [he]
          exact .of_throw .unchanged
      | false =>
          rw [attempt_run _ hupdate, archiveActive_bind_run, hversion]
          exact saveDraft_reaches hversion _

end Runs

/-! ### All or nothing -/

/-- The device has a PUSH offering of a release of the project. -/
def HasPush (db : ConfigDb) (p : ℕ) (deviceId : String) : Prop :=
  ∃ r ∈ db.releases, r.projectId = p ∧ ∃ o ∈ db.offerings,
    o.releaseCatalogId = r.catalogId ∧ o.action = .push ∧ o.deviceId = deviceId

/-- The project has one ACTIVE revision, and a device project a release with its version. -/
def Consistent (project : Project) (db : ConfigDb) : Prop :=
  ∃ a, db.revisionsIn project.id .active = [a] ∧ (isDeviceProject project = true →
    ∃ r ∈ db.releases, r.projectId = project.id ∧ a.semVer = some r.version)

/-- The state `db'` after a failed activation from `db` is whole. -/
structure Whole (project : Project) (db db' : ConfigDb) : Prop where
  consistent : Consistent project db'
  pushes : ∀ deviceId, HasPush db project.id deviceId → HasPush db' project.id deviceId

/-- A run of activation that throws leaves a whole state. -/
def AllOrNothing (fails : Faults) (peers : Peers) (dto : ApplyConfigRevisionDto) (project : Project)
    (db : ConfigDb) : Prop :=
  ∀ e, (applyRevisionWith fails peers dto db).1 = .error e →
    Whole project db (applyRevisionWith fails peers dto db).2

/-- A release that is not replaced carries the version. -/
def CarriedElsewhere (db : ConfigDb) (p : ℕ) (semVer : String) : Prop :=
  ∃ r ∈ otherReleases db p, r.projectId = p ∧ r.version = semVer

/-- Every pushed device has a push of a release that is not replaced. -/
def PushedElsewhere (db : ConfigDb) (p : ℕ) : Prop :=
  ∀ deviceId, HasPush db p deviceId → ∃ r ∈ otherReleases db p, r.projectId = p ∧
    ∃ o ∈ db.offerings, o.releaseCatalogId = r.catalogId ∧ o.action = .push ∧ o.deviceId = deviceId

/-- A run that stops at the stage does no harm: nothing is written to a consistent project, or
the releases that are not replaced make up for what is missing. -/
def Harmless (project : Project) (db : ConfigDb) : Stage → Prop
  | .unchanged => Consistent project db
  | .archived => False
  | .activated => ∃ r ∈ db.releases, r.projectId = project.id ∧ r.version = nextSemVer db project.id
  | .unreleased => CarriedElsewhere db project.id (nextSemVer db project.id) ∧
      PushedElsewhere db project.id
  | .unpushed => PushedElsewhere db project.id
  | .published | .revised => True

/-- The first statement that throws, if any, does no harm. -/
def FailsSafely (fails : Faults) (peers : Peers) (project : Project) (db : ConfigDb) : Prop :=
  Harmless project db (stage fails peers project db)

/-- Every offering is one of a release that is there, by its foreign key. -/
def OfferingsLinked (db : ConfigDb) : Prop :=
  ∀ o ∈ db.offerings, ∃ r ∈ db.releases, r.catalogId = o.releaseCatalogId

/-! ### Rows of the stages -/

section StageRows

variable {db : ConfigDb} {p : ℕ} {d applied : ConfigRevision}

/-- Once the ACTIVE revision is archived there is none. -/
theorem archived_no_active (rows : List ConfigRevision) :
    (archiveRows p rows).filter (fun r => r.projectId == p && r.status == .active) = [] := by
  rw [List.filter_eq_nil_iff]
  intro r hr hq
  rcases Rows.mem_updateWhere.mp hr with ⟨r₀, -, -, rfl⟩ | ⟨-, hne⟩
  · simp at hq
  · rw [hne] at hq
    cases hq

/-- Once the draft is saved it is the one ACTIVE revision. -/
theorem activated_one_active (hids : Rows.KeysDistinct ConfigRevision.id db.revisions)
    (hd : db.findRevision p .draft = some d) (hid : applied.id = d.id)
    (hp : applied.projectId = p) (hs : applied.status = .active) :
    (activatedRows db p applied).filter (fun r => r.projectId == p && r.status == .active) =
      [applied] := by
  have hdraft : d.projectId = p ∧ d.status = .draft := by
    simpa using List.find?_some hd
  have hkept : d ∈ archiveRows p db.revisions :=
    mem_archiveRows_of_ne_active (List.mem_of_find?_eq_some hd) (by simp [hdraft.2])
  have hdistinct : Rows.KeysDistinct ConfigRevision.id (activatedRows db p applied) := by
    refine (archiveRows_distinct hids).updateWhere fun r _ hr => ?_
    exact (by simpa using hr : r.id = applied.id).symm
  refine filter_eq_singleton hdistinct ?_ (by simp [hp, hs]) fun r hr hq => ?_
  · exact Rows.mem_updateWhere.mpr (.inl ⟨d, hkept, by simp [hid], rfl⟩)
  · rcases mem_setRow hr with rfl | ⟨hr, -⟩
    · rfl
    · have hnone := List.filter_eq_nil_iff.mp (archived_no_active (p := p) db.revisions) r hr
      exact absurd hq hnone

theorem mem_otherReleases {r : Release} : r ∈ otherReleases db p ↔
    r ∈ db.releases ∧ ∀ old, lastRelease db p = some old → r.catalogId ≠ old.catalogId := by
  unfold otherReleases
  cases lastRelease db p with
  | none => simp
  | some old => simp [Rows.mem_deleteWhere]

theorem mem_otherOfferings {o : ComponentOffering} : o ∈ otherOfferings db p ↔
    o ∈ db.offerings ∧ ∀ old, lastRelease db p = some old → o.releaseCatalogId ≠ old.catalogId := by
  unfold otherOfferings
  cases lastRelease db p with
  | none => simp
  | some old => simp [Rows.mem_deleteWhere]

theorem mem_pushRows {catalogId : String} {deviceIds : List String}
    {offerings : List ComponentOffering} {o : ComponentOffering}
    (h : o ∈ offerings) (hne : o.releaseCatalogId ≠ catalogId) :
    o ∈ pushRows catalogId deviceIds offerings := by
  unfold pushRows
  induction deviceIds generalizing offerings with
  | nil => exact h
  | cons d ds ih =>
      refine ih (Rows.mem_save.mpr (.inr ⟨h, fun heq => hne ?_⟩))
      exact congrArg Prod.snd heq

/-- Every device that is pushed again has its push. -/
theorem push_mem_pushRows {catalogId : String} {deviceIds : List String}
    (offerings : List ComponentOffering) {deviceId : String} (h : deviceId ∈ deviceIds) :
    (⟨deviceId, catalogId, .push⟩ : ComponentOffering) ∈ pushRows catalogId deviceIds offerings := by
  have hkept : ∀ ds (rows : List ComponentOffering),
      (⟨deviceId, catalogId, .push⟩ : ComponentOffering) ∈ rows →
      (⟨deviceId, catalogId, .push⟩ : ComponentOffering) ∈ pushRows catalogId ds rows := by
    intro ds
    induction ds with
    | nil => exact fun rows h => h
    | cons d ds ih =>
        intro rows hrows
        refine ih _ (Rows.mem_save.mpr ?_)
        by_cases hd : deviceId = d
        · exact .inl (by rw [hd])
        · exact .inr ⟨hrows, fun heq => hd (congrArg Prod.fst heq)⟩
  unfold pushRows
  induction deviceIds generalizing offerings with
  | nil => cases h
  | cons d ds ih =>
      rcases List.mem_cons.mp h with rfl | h
      · exact hkept ds _ (Rows.mem_save.mpr (.inl rfl))
      · exact ih _ h

section Saved

variable {peers : Peers} {row : Release} {rows : List Release}

/-- A release that is not replaced, or the new one, is in the table after the insert. -/
theorem mem_of_savedRelease (h : savedRelease peers db p = some (row, rows)) {r : Release}
    (hr : r ∈ otherReleases db p ∨ r = row) :
    ∃ x ∈ rows, x.projectId = r.projectId ∧ x.version = r.version ∧ x.catalogId = r.catalogId := by
  have hin : (r.projectId, r.version, r.catalogId) ∈
      rows.map fun r : Release => (r.projectId, r.version, r.catalogId) := by
    rw [insertRelease_keys h]
    exact List.mem_map.mpr ⟨r, List.mem_append.mpr (by simpa using hr), rfl⟩
  obtain ⟨x, hx, hkeys⟩ := List.mem_map.mp hin
  simp only [Prod.mk.injEq] at hkeys
  exact ⟨x, hx, hkeys⟩

/-- Every row after the insert is a release that is not replaced, or the new one. -/
theorem savedRelease_mem (h : savedRelease peers db p = some (row, rows)) {x : Release}
    (hx : x ∈ rows) : ∃ r, (r ∈ otherReleases db p ∨ r = row) ∧ r.projectId = x.projectId ∧
      r.version = x.version ∧ r.catalogId = x.catalogId := by
  have hin : (x.projectId, x.version, x.catalogId) ∈
      rows.map fun r : Release => (r.projectId, r.version, r.catalogId) :=
    List.mem_map.mpr ⟨x, hx, rfl⟩
  rw [insertRelease_keys h] at hin
  obtain ⟨r, hr, hkeys⟩ := List.mem_map.mp hin
  simp only [Prod.mk.injEq] at hkeys
  exact ⟨r, by simpa using hr, hkeys⟩

/-- The new row is the project's, with the next version. -/
theorem savedRelease_row (h : savedRelease peers db p = some (row, rows)) :
    row.projectId = p ∧ row.version = nextSemVer db p := by
  obtain ⟨hrow, -⟩ := insertRelease_some h
  rw [hrow]
  exact ⟨rfl, rfl⟩

/-- A push of a release that is not replaced outlives the deletion of the old one. -/
theorem offering_of_other {r : Release} (hr : r ∈ otherReleases db p) {o : ComponentOffering}
    (ho : o ∈ db.offerings) (hor : o.releaseCatalogId = r.catalogId) : o ∈ otherOfferings db p :=
  mem_otherOfferings.mpr ⟨ho, fun old hold => hor ▸ (mem_otherReleases.mp hr).2 old hold⟩

/-- An offering that outlives the deletion is one of a release that does. -/
theorem release_of_other (hlinked : OfferingsLinked db) {o : ComponentOffering}
    (ho : o ∈ otherOfferings db p) : ∃ r ∈ otherReleases db p, r.catalogId = o.releaseCatalogId := by
  obtain ⟨hmem, hother⟩ := mem_otherOfferings.mp ho
  obtain ⟨r, hr, hcat⟩ := hlinked o hmem
  exact ⟨r, mem_otherReleases.mpr ⟨hr, fun old hold => hcat ▸ hother old hold⟩, hcat⟩

/-- Where every push is made up for, the devices of the replaced release are pushed again. -/
theorem mem_pushedBefore {deviceId : String} (h : HasPush db p deviceId) :
    deviceId ∈ pushedBefore db p ∨ ∃ r ∈ otherReleases db p, r.projectId = p ∧
      ∃ o ∈ db.offerings, o.releaseCatalogId = r.catalogId ∧ o.action = .push ∧
        o.deviceId = deviceId := by
  obtain ⟨r, hr, hp, o, ho, hor, hpush, hdevice⟩ := h
  unfold pushedBefore
  cases hold : lastRelease db p with
  | none =>
      refine .inr ⟨r, mem_otherReleases.mpr ⟨hr, fun old h => ?_⟩, hp, o, ho, hor, hpush, hdevice⟩
      rw [hold] at h
      cases h
  | some old =>
      by_cases hcat : r.catalogId = old.catalogId
      · refine .inl (List.mem_map.mpr ⟨o, List.mem_filter.mpr ⟨ho, ?_⟩, hdevice⟩)
        simp [hor, hcat, hpush]
      · refine .inr ⟨r, mem_otherReleases.mpr ⟨hr, fun old' h => ?_⟩, hp, o, ho, hor, hpush, hdevice⟩
        rw [hold] at h
        cases h
        exact hcat

end Saved

end StageRows

/-! ### The stages that do no harm -/

section Stages

variable {peers : Peers} {project : Project} {db db' : ConfigDb} {d : ConfigRevision}
  {dto : ApplyConfigRevisionDto}

/-- Once the draft is saved, a state is consistent where its release carries the version. -/
theorem consistent_activated_iff (hids : Rows.KeysDistinct ConfigRevision.id db.revisions)
    (hd : db.findRevision project.id .draft = some d)
    (hrevisions : db'.revisions = activatedRows db project.id
      (appliedRow peers dto (nextSemVer db project.id) d)) :
    Consistent project db' ↔ (isDeviceProject project = true → ∃ r ∈ db'.releases,
      r.projectId = project.id ∧ r.version = nextSemVer db project.id) := by
  have hproject : d.projectId = project.id := by
    have hquery : d.projectId = project.id ∧ d.status = .draft := by
      simpa using List.find?_some hd
    exact hquery.1
  have hone : db'.revisionsIn project.id .active =
      [appliedRow peers dto (nextSemVer db project.id) d] := by
    unfold ConfigDb.revisionsIn
    rw [hrevisions]
    exact activated_one_active hids hd rfl hproject rfl
  unfold Consistent
  rw [hone]
  constructor
  · rintro ⟨a, ha, hrelease⟩ hdevice
    obtain ⟨r, hr, hp, hv⟩ := hrelease hdevice
    cases ha
    exact ⟨r, hr, hp, (Option.some.inj hv).symm⟩
  · intro h
    refine ⟨_, rfl, fun hdevice => ?_⟩
    obtain ⟨r, hr, hp, hv⟩ := h hdevice
    exact ⟨r, hr, hp, congrArg some hv.symm⟩

/-- The statements on the release run in device projects only. -/
theorem isDeviceProject_of_stage {fails : Faults} {s : Stage}
    (h : stage fails peers project db = s)
    (hs : s ≠ .unchanged ∧ s ≠ .archived ∧ s ≠ .revised) : isDeviceProject project = true := by
  unfold stage at h
  split at h
  · exact absurd h.symm hs.1
  · split at h
    · exact absurd h.symm hs.2.1
    · split at h
      · assumption
      · exact absurd h.symm hs.2.2

theorem not_isDeviceProject_of_stage {fails : Faults}
    (h : stage fails peers project db = .revised) : isDeviceProject project = false := by
  by_contra hdevice
  rw [Bool.not_eq_false] at hdevice
  unfold stage releaseStage at h
  rw [hdevice] at h
  split at h
  · cases h
  · split at h
    · cases h
    · rw [if_pos rfl] at h
      split at h
      · cases h
      · split at h
        · cases h
        · split at h <;> cases h

/-- Of the replaced release's pushes those of other releases are left. -/
theorem hasPush_other {rows : List Release} {offerings : List ComponentOffering}
    {revisions : List ConfigRevision}
    (hrows : ∀ r ∈ otherReleases db project.id, ∃ x ∈ rows, x.projectId = r.projectId ∧
      x.catalogId = r.catalogId)
    (hoffers : ∀ o ∈ otherOfferings db project.id, ∀ r ∈ otherReleases db project.id,
      o.releaseCatalogId = r.catalogId → o ∈ offerings) {deviceId : String}
    (h : ∃ r ∈ otherReleases db project.id, r.projectId = project.id ∧ ∃ o ∈ db.offerings,
      o.releaseCatalogId = r.catalogId ∧ o.action = .push ∧ o.deviceId = deviceId) :
    HasPush { db with revisions := revisions, releases := rows, offerings := offerings }
      project.id deviceId := by
  obtain ⟨r, hr, hp, o, ho, hor, hpush, hdevice⟩ := h
  obtain ⟨x, hx, hxp, hxc⟩ := hrows r hr
  refine ⟨x, hx, hxp.trans hp, o, ?_, hor.trans hxc.symm, hpush, hdevice⟩
  exact hoffers o (offering_of_other hr ho hor) r hr hor

/-- The old release is deleted: a device keeps a push where another release has one. -/
theorem whole_unreleased_iff (hids : Rows.KeysDistinct ConfigRevision.id db.revisions)
    (hd : db.findRevision project.id .draft = some d) (hdevice : isDeviceProject project = true) :
    Whole project db { db with
        revisions := activatedRows db project.id
          (appliedRow peers dto (nextSemVer db project.id) d)
        releases := otherReleases db project.id
        offerings := otherOfferings db project.id } ↔
      CarriedElsewhere db project.id (nextSemVer db project.id) ∧
        PushedElsewhere db project.id := by
  constructor
  · intro h
    refine ⟨(consistent_activated_iff hids hd rfl).mp h.consistent hdevice, fun deviceId hpush => ?_⟩
    obtain ⟨r, hr, hp, o, ho, hrest⟩ := h.pushes deviceId hpush
    exact ⟨r, hr, hp, o, (mem_otherOfferings.mp ho).1, hrest⟩
  · rintro ⟨hcarried, hpushed⟩
    refine ⟨(consistent_activated_iff hids hd rfl).mpr fun _ => hcarried, fun deviceId hpush => ?_⟩
    exact hasPush_other (fun r hr => ⟨r, hr, rfl, rfl⟩) (fun o ho _ _ _ => ho)
      (hpushed deviceId hpush)

section Saved

variable {row : Release} {rows : List Release}

/-- The new release is saved: the project is consistent. -/
theorem consistent_saved (hids : Rows.KeysDistinct ConfigRevision.id db.revisions)
    (hd : db.findRevision project.id .draft = some d)
    (h : savedRelease peers db project.id = some (row, rows))
    (hrevisions : db'.revisions = activatedRows db project.id
      (appliedRow peers dto (nextSemVer db project.id) d))
    (hreleases : db'.releases = rows) : Consistent project db' := by
  refine (consistent_activated_iff hids hd hrevisions).mpr fun _ => ?_
  obtain ⟨x, hx, hxp, hxv, -⟩ := mem_of_savedRelease h (.inr rfl)
  obtain ⟨hp, hv⟩ := savedRelease_row h
  exact ⟨x, hreleases ▸ hx, hxp.trans hp, hxv.trans hv⟩

theorem other_rows (h : savedRelease peers db project.id = some (row, rows)) :
    ∀ r ∈ otherReleases db project.id, ∃ x ∈ rows, x.projectId = r.projectId ∧
      x.catalogId = r.catalogId := by
  intro r hr
  obtain ⟨x, hx, hxp, -, hxc⟩ := mem_of_savedRelease h (.inl hr)
  exact ⟨x, hx, hxp, hxc⟩

/-- The new release has no push yet: a device keeps one where another release has one. -/
theorem whole_unpushed_iff (hids : Rows.KeysDistinct ConfigRevision.id db.revisions)
    (hlinked : OfferingsLinked db) (hd : db.findRevision project.id .draft = some d)
    (h : savedRelease peers db project.id = some (row, rows)) :
    Whole project db { db with
        revisions := activatedRows db project.id
          (appliedRow peers dto (nextSemVer db project.id) d)
        releases := rows
        offerings := otherOfferings db project.id } ↔ PushedElsewhere db project.id := by
  constructor
  · intro hwhole deviceId hpush
    obtain ⟨x, hx, hp, o, ho, hox, hrest⟩ := hwhole.pushes deviceId hpush
    obtain ⟨r, hr, hcat⟩ := release_of_other hlinked ho
    obtain ⟨y, hy, hyp, -, hyc⟩ := savedRelease_mem h hx
    rcases hy with hy | rfl
    · exact ⟨y, hy, hyp.trans hp, o, (mem_otherOfferings.mp ho).1, hox.trans hyc.symm, hrest⟩
    · -- the new row has a catalog id of its own
      exact absurd (hcat.trans (hox.trans hyc.symm)) ((insertRelease_some h).2.1 r hr)
  · intro hpushed
    refine ⟨consistent_saved hids hd h rfl rfl, ?_⟩
    exact fun deviceId hpush => hasPush_other (other_rows h) (fun o ho _ _ _ => ho)
      (hpushed deviceId hpush)

/-- The pushes are repeated: the state is whole. -/
theorem whole_published (hids : Rows.KeysDistinct ConfigRevision.id db.revisions)
    (hd : db.findRevision project.id .draft = some d)
    (h : savedRelease peers db project.id = some (row, rows))
    (hrevisions : db'.revisions = activatedRows db project.id
      (appliedRow peers dto (nextSemVer db project.id) d))
    (hreleases : db'.releases = rows)
    (hofferings : db'.offerings = pushRows row.catalogId (pushedBefore db project.id)
      (otherOfferings db project.id)) : Whole project db db' := by
  refine ⟨consistent_saved hids hd h hrevisions hreleases, fun deviceId hpush => ?_⟩
  rcases mem_pushedBefore hpush with hagain | ⟨r, hr, hp, o, ho, hor, hrest⟩
  · obtain ⟨x, hx, hxp, -, hxc⟩ := mem_of_savedRelease h (.inr rfl)
    refine ⟨x, hreleases ▸ hx, hxp.trans (savedRelease_row h).1,
      ⟨deviceId, row.catalogId, .push⟩, ?_, hxc.symm, rfl, rfl⟩
    rw [hofferings]
    exact push_mem_pushRows _ hagain
  · obtain ⟨x, hx, hxp, hxc⟩ := other_rows h r hr
    refine ⟨x, hreleases ▸ hx, hxp.trans hp, o, ?_, hor.trans hxc.symm, hrest⟩
    rw [hofferings]
    exact mem_pushRows (offering_of_other hr ho hor)
      (hor ▸ (insertRelease_some h).2.1 r hr)

end Saved

/-- The rows of a stage are whole exactly where stopping there does no harm. -/
theorem whole_iff_harmless {fails : Faults} {s : Stage}
    (hids : Rows.KeysDistinct ConfigRevision.id db.revisions) (hlinked : OfferingsLinked db)
    (hd : db.findRevision project.id .draft = some d) (hs : stage fails peers project db = s)
    (hleft : Left peers db project.id (appliedRow peers dto (nextSemVer db project.id) d) s db') :
    Whole project db db' ↔ Harmless project db s := by
  cases hleft with
  | unchanged => exact ⟨fun h => h.consistent, fun h => ⟨h, fun _ hpush => hpush⟩⟩
  | archived =>
      refine ⟨fun h => ?_, fun h => h.elim⟩
      obtain ⟨a, ha, -⟩ := h.consistent
      unfold ConfigDb.revisionsIn at ha
      rw [archived_no_active] at ha
      cases ha
  | activated =>
      have hdevice := isDeviceProject_of_stage hs (by decide)
      constructor
      · intro h
        have hrelease := (consistent_activated_iff hids hd rfl).mp h.consistent
        exact hrelease hdevice
      · intro h
        exact ⟨(consistent_activated_iff hids hd rfl).mpr fun _ => h, fun _ hpush => hpush⟩
  | revised =>
      have hdevice := not_isDeviceProject_of_stage hs
      refine ⟨fun _ => trivial, fun _ => ⟨?_, fun _ hpush => hpush⟩⟩
      refine (consistent_activated_iff hids hd rfl).mpr fun h => ?_
      rw [hdevice] at h
      cases h
  | unreleased => exact whole_unreleased_iff hids hd (isDeviceProject_of_stage hs (by decide))
  | unpushed h => exact whole_unpushed_iff hids hlinked hd h
  | published h hrevisions hreleases hofferings =>
      exact ⟨fun _ => trivial, fun _ => whole_published hids hd h hrevisions hreleases hofferings⟩

end Stages

/-- **Main result.** A failing activation leaves a whole state exactly where the statement it
stops at does no harm. -/
theorem allOrNothing_iff (fails : Faults) (peers : Peers) (dto : ApplyConfigRevisionDto)
    (project : Project) (hproject : peers.project dto.projectIdentifier = some project)
    (htype : project.projectType ∈ [ProjectType.config, ProjectType.configMap])
    (db : ConfigDb) (hids : Rows.KeysDistinct ConfigRevision.id db.revisions)
    (hlinked : OfferingsLinked db) (d : ConfigRevision)
    (hd : db.findRevision project.id .draft = some d) :
    AllOrNothing fails peers dto project db ↔ FailsSafely fails peers project db := by
  have hrun := applyRevisionWith_run fails hproject htype hd
  have hwhole := whole_iff_harmless hids hlinked hd rfl hrun.left
  unfold AllOrNothing FailsSafely
  rw [← hwhole]
  cases hlast : (stage fails peers project db).isLast with
  | false =>
      obtain ⟨e, he⟩ := hrun.throws hlast
      exact ⟨fun h => h e he, fun h _ _ => h⟩
  | true =>
      refine ⟨fun _ => hwhole.mpr ?_, fun h _ _ => h⟩
      cases hs : stage fails peers project db with
      | published => trivial
      | revised => trivial
      | _ =>
          rw [hs] at hlast
          cases hlast

/-- The device project of the small world with an ACTIVE revision, a DRAFT, and the release of
the ACTIVE version pushed to the device. -/
def pushedDb : ConfigDb :=
  { smallDb with
    revisions := [⟨1, 1, 1, .active, none, some 0, some "1.0.0"⟩, draftRow 2 1 2]
    groups := [{ newGroup 1 "net" 0 with id := 3 }, { newGroup 2 "net" 0 with id := 4 }]
    releases := [{ Release.create 1 "1.0.0" with
      catalogId := "1.config:dev-1@1.0.0", status := .released, sortOrder := 1 }]
    offerings := [⟨"dev-1", "1.config:dev-1@1.0.0", .push⟩]
    nextId := 5 }

theorem pushedDb_linked : OfferingsLinked pushedDb := by
  unfold OfferingsLinked
  decide

/-- A failing read of the payload comes after everything that has to be whole. -/
theorem failed_payload_whole :
    AllOrNothing (· == .payloadRead) smallPeers ⟨.id 1, none⟩ ⟨1, "config:dev-1", .config⟩ pushedDb := by
  have hstage : stage (· == .payloadRead) smallPeers ⟨1, "config:dev-1", .config⟩ pushedDb =
      .published := by decide
  refine (allOrNothing_iff (· == .payloadRead) smallPeers ⟨.id 1, none⟩
    ⟨1, "config:dev-1", .config⟩ (by decide) (by decide) pushedDb (by decide) pushedDb_linked
    (draftRow 2 1 2) (by decide)).mpr ?_
  unfold FailsSafely
  rw [hstage]
  trivial

/-- A failing save of the draft leaves the project without an ACTIVE revision. -/
theorem failed_save_no_active :
    ¬ AllOrNothing (· == .revisionSave) smallPeers ⟨.id 1, none⟩ ⟨1, "config:dev-1", .config⟩
      pushedDb := by
  intro h
  have hwhole := h (.queryFailed "Connection terminated") rfl
  obtain ⟨a, ha, -⟩ := hwhole.consistent
  have hnone : (applyRevisionWith (· == .revisionSave) smallPeers ⟨.id 1, none⟩ pushedDb).2.revisionsIn
      1 .active = [] := by decide
  rw [hnone] at ha
  cases ha

end UploadService
