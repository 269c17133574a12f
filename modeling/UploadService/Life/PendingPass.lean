import UploadService.Life.Notifications
import UploadService.Lib.Pages
import UploadService.Lib.Ending

/-!
# The pass over pending files

`syncUploadedFiles` reads the pending files in pages of ten, the newest first, and looks every
file of a page up in the bucket. What it finds is marked as uploaded, by updates that it does
not wait for; what is not there and can no longer be uploaded is marked as failed, and this it
waits for. The next page is read at the next offset, whatever has become of the rows before it.

A state of the pass holds the rows, where the pass is, the updates under way and the rows it has
looked up. The order of rows with one creation date is the database's choice in each read. An
update that is not waited for comes at any time, or never; one that is waited for does not fail.
The listeners of the updates are other writers, and are left out.
-/

namespace UploadService

namespace PendingPass

/-! ### Rows and surroundings -/

/-- A row of `file_upload` with its creation date, in microseconds. -/
structure DatedUpload extends FileUpload where
  createdDate : ℕ
  deriving DecidableEq, Repr

structure PassEnv where
  /-- the time at which the pass starts, in milliseconds -/
  now : ℕ
  /-- `Number(UPLOAD_URL_EXPIRE)`, where it is a number -/
  uploadUrlExpire : Option ℕ
  /-- what `getObjectStat` answers for a key of the bucket: the size of the object -/
  stat : String → Option ℕ

def batchSize : ℕ := 10

def processingBatchSize : ℕ := 5

/-- `Number(UPLOAD_URL_EXPIRE) || 3600`. -/
def uploadUrlExpireSeconds (env : PassEnv) : ℕ :=
  match env.uploadUrlExpire with
  | none | some 0 => 3600
  | some seconds => seconds

def staleThreshold (env : PassEnv) : ℤ := env.now - uploadUrlExpireSeconds env * 1000

/-- The `where` of the query. -/
def isPending (env : PassEnv) (file : DatedUpload) : Bool :=
  file.status == .pending && file.createdDate ≤ env.now * 1000

def isFound (env : PassEnv) (file : DatedUpload) : Bool := (env.stat file.objectKey).isSome

/-- Not in the bucket, and the upload URL has expired. -/
def isStale (env : PassEnv) (file : DatedUpload) : Bool :=
  !isFound env file && ((file.createdDate / 1000 : ℕ) : ℤ) < staleThreshold env

/-- What the query may answer, before `skip` and `take`: `createdDate DESC`. -/
def IsListing (env : PassEnv) (rows order : List DatedUpload) : Prop :=
  order.Perm (rows.filter (isPending env)) ∧ Pages.Descending DatedUpload.createdDate order

/-- The listing in which the rows of one date keep their order. -/
def pendingFiles (env : PassEnv) (rows : List DatedUpload) : List DatedUpload :=
  (rows.filter (isPending env)).insertionSort fun a b => b.createdDate ≤ a.createdDate

/-- `files.slice(i, i + processingBatchSize)` for every start `i` of a batch. -/
def slices (files : List DatedUpload) : List (List DatedUpload) :=
  (List.range ((files.length + processingBatchSize - 1) / processingBatchSize)).map fun i =>
    (files.drop (i * processingBatchSize)).take processingBatchSize

/-! ### Updates -/

/-- `updateUploadFile` with the status `UPLOADED`; a file without a key is refused. -/
def updateUploadFile (env : PassEnv) (objectKey : String) (rows : List DatedUpload) :
    List DatedUpload :=
  if objectKey = "" then rows
  else Rows.updateWhere (fun f => f.objectKey == objectKey) (fun f => { f with
    toFileUpload :=
      FileUploadService.notified ⟨objectKey, .uploaded, env.stat objectKey⟩ f.toFileUpload }) rows

/-- The stale files are marked as failed. -/
def markAbandoned (staleFiles : List DatedUpload) (rows : List DatedUpload) : List DatedUpload :=
  Rows.updateWhere (fun f => staleFiles.any fun s => s.objectKey == f.objectKey) (fun f => { f with
    status := .error
    error := some ("Upload never completed — the browser upload was abandoned and the " ++
      "presigned URL has expired.") }) rows

/-! ### The pass -/

inductive PassPhase where
  /-- the page at this offset is read next -/
  | reading (skip : ℕ)
  /-- these batches of the page at this offset remain; the page is full -/
  | processing (skip : ℕ) (full : Bool) (batches : List (List DatedUpload))
  | finished
  deriving DecidableEq, Repr

structure PassState where
  rows : List DatedUpload
  phase : PassPhase
  /-- the keys of the updates that were started and are not made yet -/
  updates : List String
  /-- the ids of the files whose object was looked up -/
  lookedUp : List ℕ
  deriving DecidableEq, Repr

/-- The pass has read a page. -/
def afterRead (skip : ℕ) (files : List DatedUpload) : PassPhase :=
  if files.isEmpty then .finished
  else .processing skip (files.length == batchSize) (slices files)

/-- The pass has come to the end of a page. -/
def afterPage (skip : ℕ) (full : Bool) : PassPhase :=
  if full then .reading (skip + batchSize) else .finished

/-- A batch is looked up: the updates of what is found are started, and what is stale is marked. -/
def processBatch (env : PassEnv) (skip : ℕ) (full : Bool) (batch : List DatedUpload)
    (rest : List (List DatedUpload)) (s : PassState) : PassState where
  rows := markAbandoned (batch.filter (isStale env)) s.rows
  phase := .processing skip full rest
  updates := s.updates ++ (batch.filter (isFound env)).map (·.objectKey)
  lookedUp := s.lookedUp ++ batch.map (·.id)

/-- A step of the pass, or one of the updates it started. -/
inductive PassStep (env : PassEnv) : PassState → PassState → Prop where
  | read {s : PassState} (skip : ℕ) (order : List DatedUpload) (hphase : s.phase = .reading skip)
      (horder : IsListing env s.rows order) :
      PassStep env s { s with phase := afterRead skip ((order.drop skip).take batchSize) }
  | batch {s : PassState} (skip : ℕ) (full : Bool) (batch : List DatedUpload)
      (rest : List (List DatedUpload)) (hphase : s.phase = .processing skip full (batch :: rest)) :
      PassStep env s (processBatch env skip full batch rest s)
  | page {s : PassState} (skip : ℕ) (full : Bool) (hphase : s.phase = .processing skip full []) :
      PassStep env s { s with phase := afterPage skip full }
  | update {s : PassState} (before after : List String) (objectKey : String)
      (hstarted : s.updates = before ++ objectKey :: after) :
      PassStep env s { s with
        rows := updateUploadFile env objectKey s.rows
        updates := before ++ after }

/-- The state in which the pass starts. -/
def start (rows : List DatedUpload) : PassState where
  rows := rows
  phase := .reading 0
  updates := []
  lookedUp := []

/-! ### What the pass should do -/

/-- The states that the pass reaches. -/
def Reaches (env : PassEnv) : PassState → PassState → Prop := Relation.ReflTransGen (PassStep env)

/-- Every run of the pass comes to its end, and has then looked up every file that was pending
when it started. -/
structure ExaminesAll (env : PassEnv) (rows : List DatedUpload) : Prop where
  ends : Ending.Ends (PassStep env) (start rows)
  proceeds : ∀ s, Reaches env (start rows) s → s.phase ≠ .finished → ∃ s', PassStep env s s'
  examined : ∀ s, Reaches env (start rows) s → s.phase = .finished →
    ∀ f ∈ rows, f.status = .pending → f.id ∈ s.lookedUp

/-- The row may leave the pending ones while the pass runs. -/
def mayLeave (env : PassEnv) (file : DatedUpload) : Bool :=
  (isFound env file && file.objectKey != "") || isStale env file

/-- Where a page is followed by another, its rows and those before stay pending, and are newer
than those after it. -/
def PagesStay (env : PassEnv) (files : List DatedUpload) : Prop :=
  ∀ k < files.length, batchSize * (k + 1) < files.length →
    (∀ f ∈ files.take (batchSize * (k + 1)), mayLeave env f = false) ∧
      Pages.FallsAt DatedUpload.createdDate files (batchSize * (k + 1))

instance (env : PassEnv) (files : List DatedUpload) : Decidable (PagesStay env files) :=
  inferInstanceAs (Decidable (∀ k < files.length, _ → _ ∧ _))

end PendingPass

end UploadService
