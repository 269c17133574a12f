import UploadService.Release.Uploads

/-!
# The steps of component uploads

`updateUploadStatus`, `updateLatestFlag` and `moveImageToS3` run next to each other, and each
statement for the database is a step of its own. The status is written first; the flag is then
cleared, looked for and saved by a call that nobody waits for. The image mover keeps one entity
and saves it whole at each change of its status, and does not wait for the saves.
-/

namespace UploadService

open ComponentUploads

namespace UploadVersion

/-- What no call changes of a version: all but the status and the flag. -/
def identity (upload : UploadVersion) : UploadVersion :=
  { upload with uploadStatus := .started, latest := false }

end UploadVersion

/-- `uploadVersionRepo.save`: the whole entity is written. -/
def saveUpload (upload : UploadVersion) : List UploadVersion → List UploadVersion :=
  Rows.save UploadVersion.catalogId upload

/-! ### `updateLatestFlag` -/

/-- The next statement of a call of `updateLatestFlag`. -/
inductive FlagPhase where
  | findBase (catalogId : String)
  | clearFlags (base : UploadVersion)
  | findNewest (base : UploadVersion)
  /-- the save of the version that was found, as it was read then -/
  | saveNewest (upload : UploadVersion)
  deriving DecidableEq, Repr

/-- One statement: the next one, if there is one, and the table. -/
def FlagPhase.step (uploads : List UploadVersion) : FlagPhase → Option FlagPhase × List UploadVersion
  | .findBase catalogId =>
      ((Rows.findKey UploadVersion.catalogId catalogId uploads).map .clearFlags, uploads)
  | .clearFlags base => (some (.findNewest base), clearLatest base uploads)
  | .findNewest base => ((latestUpload uploads base).map fun upload =>
      .saveNewest { upload with latest := true }, uploads)
  | .saveNewest upload => (none, saveUpload upload uploads)

/-! ### `moveImageToS3` -/

/-- What a mover waits for. -/
inductive MovePhase where
  | download
  | upload
  deriving DecidableEq, Repr

/-- A call of `moveImageToS3`, with the entity that all its saves write. -/
structure Mover where
  upload : UploadVersion
  phase : MovePhase
  deriving DecidableEq, Repr

/-- The status that the end of a download or of an upload leads to. -/
def MovePhase.outcome : MovePhase → Bool → UploadStatus
  | .download, false => .failToDownload
  | .download, true => .uploadingToS3
  | .upload, false => .failToUpload
  | .upload, true => .ready

/-- The mover goes on only after a download that did not fail. -/
def Mover.next (mover : Mover) (succeeds : Bool) (upload : UploadVersion) : Option Mover :=
  match mover.phase, succeeds with
  | .download, true => some ⟨upload, .upload⟩
  | _, _ => none

structure UploadArtifactDto where
  platform : String
  component : String
  formation : String
  version : String
  projectId : Option ℕ
  deriving DecidableEq, Repr

/-- `UploadVersionEntity.fromArtifact`, with the columns that the insert fills. -/
def UploadVersion.fromArtifact (artifact : UploadArtifactDto) (catalogId : String)
    (createdDate : ℕ) : UploadVersion where
  catalogId := catalogId
  platform := artifact.platform
  component := artifact.component
  formation := artifact.formation
  version := artifact.version
  createdDate := createdDate
  uploadStatus := .started
  latest := false
  projectId := artifact.projectId

/-- The key and the unique constraint let the version in. -/
def fitsUploads (upload : UploadVersion) (uploads : List UploadVersion) : Bool :=
  uploads.all fun u => u.catalogId != upload.catalogId &&
    !(sameSlot upload u && u.version == upload.version)

/-! ### The world -/

/-- The table, the calls in flight, the saves of movers that are not stored yet, and the status
changes made so far, the last one first. -/
structure UploadWorld where
  uploads : List UploadVersion
  flagUpdates : List FlagPhase
  movers : List Mover
  saves : List UploadVersion
  changes : List (String × UploadStatus)

/-- No call runs. -/
def UploadWorld.start (uploads : List UploadVersion) : UploadWorld := ⟨uploads, [], [], [], []⟩

inductive UploadStep where
  /-- the status update of a call of `updateUploadStatus` -/
  | updateUploadStatus (dto : UpdateUploadStatusDto)
  /-- the insert of a call of `uploadArtifact`, and the start of its mover -/
  | uploadArtifact (artifact : UploadArtifactDto) (catalogId : String) (createdDate : ℕ)
  /-- the next statement of a call of `updateLatestFlag` -/
  | flag (i : ℕ)
  /-- what a mover waits for ends -/
  | move (i : ℕ) (succeeds : Bool)
  /-- a save of a mover is stored -/
  | store (i : ℕ)
  deriving DecidableEq, Repr

namespace UploadWorld

/-- The mover sets the status of its entity and starts a save. -/
def startSave (upload : UploadVersion) (w : UploadWorld) : UploadWorld :=
  { w with
    saves := upload :: w.saves
    changes := (upload.catalogId, upload.uploadStatus) :: w.changes }

def updateStatus (dto : UpdateUploadStatusDto) (w : UploadWorld) : UploadWorld :=
  if w.uploads.any fun u => u.catalogId == dto.catalogId then
    { w with
      uploads := setUploadStatus dto w.uploads
      flagUpdates := .findBase dto.catalogId :: w.flagUpdates
      changes := (dto.catalogId, dto.status) :: w.changes }
  else w

/-- `moveImageToS3` begins with a save. -/
def startMove (upload : UploadVersion) (w : UploadWorld) : UploadWorld :=
  startSave { upload with uploadStatus := .downloadingFromUrl }
    { w with movers := ⟨{ upload with uploadStatus := .downloadingFromUrl }, .download⟩ :: w.movers }

def insertArtifact (upload : UploadVersion) (w : UploadWorld) : UploadWorld :=
  if fitsUploads upload w.uploads then
    startMove upload { w with uploads := w.uploads ++ [upload] }
  else w

def stepFlag (i : ℕ) (w : UploadWorld) : UploadWorld :=
  match w.flagUpdates[i]? with
  | none => w
  | some phase =>
      let next := phase.step w.uploads
      { w with uploads := next.2, flagUpdates := next.1.toList ++ w.flagUpdates.eraseIdx i }

def stepMove (i : ℕ) (succeeds : Bool) (w : UploadWorld) : UploadWorld :=
  match w.movers[i]? with
  | none => w
  | some mover =>
      let upload := { mover.upload with uploadStatus := mover.phase.outcome succeeds }
      startSave upload
        { w with movers := (mover.next succeeds upload).toList ++ w.movers.eraseIdx i }

def storeSave (i : ℕ) (w : UploadWorld) : UploadWorld :=
  match w.saves[i]? with
  | none => w
  | some upload =>
      { w with uploads := saveUpload upload w.uploads, saves := w.saves.eraseIdx i }

def step (w : UploadWorld) : UploadStep → UploadWorld
  | .updateUploadStatus dto => w.updateStatus dto
  | .uploadArtifact artifact catalogId createdDate =>
      w.insertArtifact (.fromArtifact artifact catalogId createdDate)
  | .flag i => w.stepFlag i
  | .move i succeeds => w.stepMove i succeeds
  | .store i => w.storeSave i

/-- Every call has finished, and every save is stored. -/
def Finished (w : UploadWorld) : Prop := w.flagUpdates = [] ∧ w.movers = [] ∧ w.saves = []

instance (w : UploadWorld) : Decidable w.Finished := inferInstanceAs (Decidable (_ ∧ _))

/-- The last status change made for a version. -/
def lastChange (w : UploadWorld) (catalogId : String) : Option UploadStatus :=
  (w.changes.find? fun change => change.1 == catalogId).map (·.2)

end UploadWorld

end UploadService
