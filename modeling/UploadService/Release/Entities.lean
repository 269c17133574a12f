import Mathlib.Data.Int.Notation
import Mathlib.Data.List.Basic
import UploadService.Config.Value

/-!
# Release rows

The `project` and `release` rows the upload service reads and writes, with the
enumerations of their columns. A time stamp is a natural number. Creation and
update stamps are written by the object mapper and read by no modelled function,
so they are left out.
-/

namespace UploadService

inductive ProjectType where
  | product | application | lib | bundle | infra | config | configMap
  deriving DecidableEq, Repr

namespace ProjectType

def toText : ProjectType → String
  | product => "product"
  | application => "application"
  | lib => "lib"
  | bundle => "bundle"
  | infra => "infra"
  | config => "config"
  | configMap => "config_map"

end ProjectType

structure Project where
  id : ℕ
  name : String
  projectType : ProjectType
  deriving DecidableEq, Repr

/-- `number | string`: how a request names a project. -/
inductive Identifier where
  | id (n : ℕ)
  | name (s : String)
  deriving DecidableEq, Repr

namespace Identifier

def toText : Identifier → String
  | id n => toString n
  | name s => s

end Identifier

inductive ReleaseStatus where
  | draft | inReview | approved | released | archived | error
  deriving DecidableEq, Repr

namespace ReleaseStatus

def toText : ReleaseStatus → String
  | draft => "draft"
  | inReview => "in_review"
  | approved => "approved"
  | released => "released"
  | archived => "archived"
  | error => "error"

end ReleaseStatus

/-- What `Number(value)` makes of a metadata size: a whole number, or nothing finite. -/
inductive SizeValue where
  | finite (n : ℤ)
  | notFinite
  deriving DecidableEq, Repr

/-- The `metadata` column: the keys the service reads or writes, and the others. -/
structure ReleaseMetadata where
  installationSize : Option SizeValue
  totalSize : Option ℤ
  others : Object
  deriving DecidableEq, Repr

structure Release where
  catalogId : String
  version : String
  name : Option String
  status : ReleaseStatus
  releaseNotes : Option String
  metadata : ReleaseMetadata
  projectId : ℕ
  requiredRegulationsCount : ℕ
  compliantRegulationsCount : ℕ
  createdBy : Option String
  updatedBy : Option String
  releasedAt : Option ℕ
  isImported : Bool
  sortOrder : ℕ
  latest : Bool
  deriving DecidableEq, Repr

/-- The row of a release that `repository.create()` starts: the column defaults. -/
def Release.create (projectId : ℕ) (version : String) : Release where
  catalogId := ""
  version := version
  name := none
  status := .draft
  releaseNotes := none
  metadata := ⟨none, none, []⟩
  projectId := projectId
  requiredRegulationsCount := 0
  compliantRegulationsCount := 0
  createdBy := none
  updatedBy := none
  releasedAt := none
  isImported := false
  sortOrder := 0
  latest := false

end UploadService
