import UploadService.Release.Store

/-!
# Component uploads

`UploadService.updateUploadStatus`: the status of a component upload, and after it the
flag that marks the newest ready upload of each platform, component and formation.

Both writes go by the upload and by its slot; no project is part of their conditions.
-/

namespace UploadService

structure UpdateUploadStatusDto where
  catalogId : String
  status : UploadStatus
  deriving DecidableEq, Repr

namespace ComponentUploads

open Prog

/-- Two uploads of one platform, component and formation. -/
def sameSlot (base u : UploadVersion) : Bool :=
  u.platform == base.platform && u.component == base.component && u.formation == base.formation

/-- The newest ready upload of the slot. -/
def latestUpload (uploads : List UploadVersion) (base : UploadVersion) : Option UploadVersion :=
  ((uploads.filter fun u => sameSlot base u && u.uploadStatus == .ready).insertionSort
    fun u v => v.createdDate ≤ u.createdDate).head?

def setUploadStatus (dto : UpdateUploadStatusDto) : List UploadVersion → List UploadVersion :=
  Rows.updateWhere (fun u => u.catalogId == dto.catalogId)
    fun u => { u with uploadStatus := dto.status }

/-- The slot loses its flag. -/
def clearLatest (base : UploadVersion) : List UploadVersion → List UploadVersion :=
  Rows.updateWhere (fun u => sameSlot base u && u.latest) fun u => { u with latest := false }

/-- The flag goes to the newest ready upload, if there is one. -/
def markLatest (base : UploadVersion) (uploads : List UploadVersion) : List UploadVersion :=
  match latestUpload uploads base with
  | none => uploads
  | some latest => Rows.updateWhere (fun u => u.catalogId == latest.catalogId)
      (fun u => { u with latest := true }) uploads

def updateUploads (f : List UploadVersion → List UploadVersion) (db : UploadDb) : UploadDb :=
  { db with uploadVersions := f db.uploadVersions }

/-- `updateLatestFlag`. -/
def updateLatestFlag (catalogId : String) : UploadProg Unit := do
  match ← gets fun db : UploadDb =>
      Rows.findKey UploadVersion.catalogId catalogId db.uploadVersions with
  | none => pure ()
  | some base => do
    modify (updateUploads (clearLatest base))
    modify (updateUploads (markLatest base))

def updateUploadStatus (dto : UpdateUploadStatusDto) : UploadProg Unit := do
  let affected ← gets fun db : UploadDb =>
    db.uploadVersions.any fun u => u.catalogId == dto.catalogId
  if affected then do
    modify (updateUploads (setUploadStatus dto))
    updateLatestFlag dto.catalogId
  else throw (.notFound s!"Upload with ID {dto.catalogId} not found")

end ComponentUploads

end UploadService
