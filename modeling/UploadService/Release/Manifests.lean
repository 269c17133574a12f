import UploadService.Access.Guard
import UploadService.Release.Uploads

/-!
# Uploads of manifests

`uploadManifest`: a version is uploaded under a manifest, whose fields any sender wrote. A version
that is in error is taken up again as it stands; the URL that is answered is that of the object
key of the new manifest.

Main result: `url_belongs_iff`, the URL that is answered is the one stored on the version that is
answered exactly where the lookup finds no version in error, or one under that object key.
-/

namespace UploadService

inductive AssetType where
  | artifact | dockerImage
  deriving DecidableEq, Repr

/-- A field of a manifest. A condition on a missing field is none. -/
inductive ManifestField where
  | undefined
  | null
  | text (s : String)
  deriving DecidableEq, Repr

namespace ManifestField

/-- The field in a template. -/
def format : ManifestField → String
  | undefined => "undefined"
  | null => "null"
  | text s => s

def text? : ManifestField → Option String
  | text s => some s
  | _ => none

/-- The condition of a `where` on a column. -/
def allows (field : ManifestField) (column : String) : Bool :=
  match field with
  | text s => column == s
  | _ => true

theorem allows_text {field : ManifestField} {s column : String} (h : field.text? = some s) :
    field.allows column = true ↔ field = .text column := by
  cases field with
  | undefined => cases h
  | null => cases h
  | text t =>
      show (column == t) = true ↔ _
      rw [beq_iff_eq, ManifestField.text.injEq, eq_comm]

end ManifestField

structure Manifest where
  product : ManifestField
  name : ManifestField
  formation : ManifestField
  version : ManifestField
  fileName : ManifestField
  registryUrl : ManifestField
  assetType : Option AssetType
  projectId : Option ℕ
  deriving DecidableEq, Repr

/-- A row of `upload_version`, with where the upload is stored. -/
structure UploadRow extends UploadVersion where
  url : Option String
  assetType : AssetType
  deriving DecidableEq, Repr

/-- The entity of `fromManifest`, which has no key yet. -/
structure NewUpload where
  platform : ManifestField
  component : ManifestField
  formation : ManifestField
  version : ManifestField
  url : String
  assetType : AssetType
  projectId : Option ℕ
  deriving DecidableEq, Repr

/-- The rows of `upload_version`; the catalog id is their primary key. -/
structure UploadTable where
  rows : List UploadRow
  keys : Rows.KeysDistinct (fun row => row.catalogId) rows

namespace UploadTable

def findKey (table : UploadTable) (catalogId : String) : Option UploadRow :=
  Rows.findKey (fun row => row.catalogId) catalogId table.rows

end UploadTable

namespace ManifestUploads

/-- What the service is given from outside, for one request. -/
structure ManifestEnv where
  /-- the id `nanoid` makes -/
  nanoid : String
  now : ℕ
  /-- the ids of the projects -/
  projects : List ℕ

/-- `fromManifest`. -/
def fromManifest (manifest : Manifest) (url : String) (assetType : AssetType) : NewUpload where
  platform := manifest.product
  component := manifest.name
  formation := manifest.formation
  version := manifest.version
  url := url
  assetType := assetType
  projectId := manifest.projectId

/-- The `where` of the lookup. -/
def isLookedFor (upload : NewUpload) (row : UploadRow) : Bool :=
  upload.platform.allows row.platform && upload.component.allows row.component &&
    upload.formation.allows row.formation && upload.version.allows row.version

def findUpload (table : UploadTable) (upload : NewUpload) : Option UploadRow :=
  table.rows.find? (isLookedFor upload)

/-- The row of the entity, where no column that must not be null is. -/
def toRow? (env : ManifestEnv) (upload : NewUpload) : Option UploadRow := do
  let platform ← upload.platform.text?
  let component ← upload.component.text?
  let formation ← upload.formation.text?
  let version ← upload.version.text?
  pure
    { catalogId := env.nanoid
      platform := platform
      component := component
      formation := formation
      version := version
      createdDate := env.now
      uploadStatus := .started
      latest := false
      projectId := upload.projectId
      url := some upload.url
      assetType := upload.assetType }

/-- The unique constraint of the table. -/
def sameVersion (row r : UploadRow) : Bool :=
  r.platform == row.platform && r.component == row.component && r.formation == row.formation &&
    r.version == row.version

inductive SaveResult where
  | saved (row : UploadRow) (table : UploadTable)
  /-- 23505 -/
  | uniqueViolation
  | otherError

/-- `uploadVersionRepo.save` of a new entity. -/
def save (env : ManifestEnv) (table : UploadTable) (upload : NewUpload) : SaveResult :=
  match toRow? env upload with
  | none => .otherError
  | some row =>
      if h : ∀ r ∈ table.rows, r.catalogId ≠ row.catalogId then
        if table.rows.any (sameVersion row) then .uniqueViolation
        else if row.projectId.all env.projects.contains then
          .saved row ⟨table.rows ++ [row], table.keys.append_new h⟩
        else .otherError
      else .uniqueViolation

/-- `updateUpload`; after an error that is only logged there is no version. -/
def updateUpload (env : ManifestEnv) (table : UploadTable) (upload : NewUpload) :
    Except Exception (Option UploadRow × UploadTable) :=
  let store :=
    match save env table upload with
    | .saved row table => .ok (some row, table)
    | .uniqueViolation => .error (.conflict "Version is already exist")
    | .otherError => .ok (none, table)
  match findUpload table upload with
  | some existsVersion =>
      if existsVersion.uploadStatus = .error then .ok (some existsVersion, table) else store
  | none => store

/-- The answer; `uploadKey` is the object key of the presigned URL. The change of the status that
was started is not waited for. -/
structure ManifestAnswer where
  catalogId : String
  uploadKey : Option String
  started : Option UpdateUploadStatusDto
  deriving DecidableEq, Repr

/-- `newVersion.catalogId`. -/
def catalogIdOf (newVersion : Option UploadRow) : Except Exception String :=
  match newVersion with
  | some row => .ok row.catalogId
  | none => .error (.plain "Cannot read properties of undefined (reading 'catalogId')")

def uploadDockerImage (env : ManifestEnv) (table : UploadTable) (manifest : Manifest) :
    Except Exception (ManifestAnswer × UploadTable) := do
  match truthy manifest.registryUrl.text? with
  | none => throw (.badRequest ("The manifest file for the Docker image upload must include " ++
      "\x60registryUrl\x60"))
  | some registryUrl =>
    let (newVersion, table) ← updateUpload env table
      (fromManifest manifest registryUrl (manifest.assetType.getD .dockerImage))
    let catalogId ← catalogIdOf newVersion
    pure (⟨catalogId, none, some ⟨catalogId, .ready⟩⟩, table)

def fileName (manifest : Manifest) : String :=
  (truthy manifest.fileName.text?).getD (manifest.version.format ++ ".zip")

/-- The object key under which the upload of a manifest is stored. -/
def objectKey (manifest : Manifest) : String :=
  manifest.product.format ++ "/" ++ manifest.name.format ++ "/" ++ manifest.formation.format ++ "/" ++
    manifest.version.format ++ "/" ++ fileName manifest

def uploadManifest (env : ManifestEnv) (table : UploadTable) (manifest : Manifest) :
    Except Exception (ManifestAnswer × UploadTable) :=
  let assetType := manifest.assetType.getD .artifact
  if assetType = .dockerImage then uploadDockerImage env table manifest
  else do
    let url := objectKey manifest
    let (newVersion, table) ← updateUpload env table (fromManifest manifest url assetType)
    let catalogId ← catalogIdOf newVersion
    pure (⟨catalogId, some url, none⟩, table)

/-! ### The version of a manifest -/

/-- The version has the four fields of the manifest. -/
structure IsVersionOf (manifest : Manifest) (row : UploadRow) : Prop where
  platform : manifest.product = .text row.platform
  component : manifest.name = .text row.component
  formation : manifest.formation = .text row.formation
  version : manifest.version = .text row.version

/-- The URL that is answered is the one of the version that is answered, which is the version of
the manifest. -/
def UrlBelongs (env : ManifestEnv) (table : UploadTable) (manifest : Manifest) : Prop :=
  ∀ answer after, uploadManifest env table manifest = .ok (answer, after) →
    ∃ row, after.findKey answer.catalogId = some row ∧ row.url = answer.uploadKey ∧
      IsVersionOf manifest row

variable {env : ManifestEnv} {table : UploadTable} {manifest : Manifest} {upload : NewUpload}

/-- A row that is saved has what the entity has. -/
theorem toRow?_eq_some {row : UploadRow} {url : String} {assetType : AssetType}
    (h : toRow? env (fromManifest manifest url assetType) = some row) :
    row.url = some url ∧ IsVersionOf manifest row := by
  have htext : ∀ {field : ManifestField} {s : String}, field.text? = some s → field = .text s := by
    intro field s hs
    cases field with
    | undefined => cases hs
    | null => cases hs
    | text t => exact congrArg ManifestField.text (Option.some.inj hs)
  unfold toRow? fromManifest at h
  obtain ⟨platform, hplatform, h⟩ := Option.bind_eq_some_iff.mp h
  obtain ⟨component, hcomponent, h⟩ := Option.bind_eq_some_iff.mp h
  obtain ⟨formation, hformation, h⟩ := Option.bind_eq_some_iff.mp h
  obtain ⟨version, hversion, h⟩ := Option.bind_eq_some_iff.mp h
  obtain rfl := Option.some.inj h
  exact ⟨rfl, htext hplatform, htext hcomponent, htext hformation, htext hversion⟩

theorem save_saved {row : UploadRow} {after : UploadTable}
    (h : save env table upload = .saved row after) :
    toRow? env upload = some row ∧ row ∈ after.rows := by
  unfold save at h
  cases hrow : toRow? env upload with
  | none =>
      rw [hrow] at h
      cases h
  | some saved =>
      rw [hrow] at h
      dsimp only at h
      split at h
      · split at h
        · cases h
        · split at h
          · obtain ⟨rfl, rfl⟩ := SaveResult.saved.inj h
            exact ⟨rfl, List.mem_append_right _ List.mem_cons_self⟩
          · cases h
      · cases h

/-- **Step.** The version that is updated is one in error that was found, or a new row. -/
theorem updateUpload_cases {newVersion : UploadRow} {after : UploadTable}
    (h : updateUpload env table upload = .ok (some newVersion, after)) :
    (findUpload table upload = some newVersion ∧ newVersion.uploadStatus = .error ∧
        after = table) ∨
      ((∀ row, findUpload table upload = some row → row.uploadStatus ≠ .error) ∧
        save env table upload = .saved newVersion after) := by
  have hstore : (match save env table upload with
      | .saved row table => .ok (some row, table)
      | .uniqueViolation => .error (.conflict "Version is already exist")
      | .otherError => .ok (none, table) : Except Exception (Option UploadRow × UploadTable)) =
        .ok (some newVersion, after) → save env table upload = .saved newVersion after := by
    intro hok
    cases hsave : save env table upload with
    | saved row saved =>
        rw [hsave] at hok
        obtain ⟨hrow, hafter⟩ := Prod.mk.inj (Except.ok.inj hok)
        rw [Option.some.inj hrow, hafter]
    | uniqueViolation =>
        rw [hsave] at hok
        cases hok
    | otherError =>
        rw [hsave] at hok
        cases (Prod.mk.inj (Except.ok.inj hok)).1
  unfold updateUpload at h
  dsimp only at h
  cases hfound : findUpload table upload with
  | none =>
      rw [hfound] at h
      exact .inr ⟨fun row hrow => (nomatch hrow), hstore h⟩
  | some existsVersion =>
      rw [hfound] at h
      dsimp only at h
      split at h
      · rename_i herror
        obtain ⟨hrow, hafter⟩ := Prod.mk.inj (Except.ok.inj h)
        obtain rfl := Option.some.inj hrow
        exact .inl ⟨rfl, herror, hafter.symm⟩
      · rename_i herror
        refine .inr ⟨fun row hrow => ?_, hstore h⟩
        obtain rfl := Option.some.inj hrow
        exact herror

theorem findKey_mem {table : UploadTable} {row : UploadRow} (h : row ∈ table.rows) :
    table.findKey row.catalogId = some row :=
  Rows.findKey_unique table.keys h

/-- **Spec.** An accepted manifest of no docker image. -/
theorem uploadManifest_ok {answer : ManifestAnswer} {after : UploadTable}
    (hasset : manifest.assetType ≠ some .dockerImage) :
    uploadManifest env table manifest = .ok (answer, after) ↔
      ∃ row, updateUpload env table (fromManifest manifest (objectKey manifest)
          (manifest.assetType.getD .artifact)) = .ok (some row, after) ∧
        answer = ⟨row.catalogId, some (objectKey manifest), none⟩ := by
  have hartifact : ¬ manifest.assetType.getD .artifact = .dockerImage := by
    cases htype : manifest.assetType with
    | none => exact fun h => nomatch h
    | some assetType =>
        rintro rfl
        exact hasset htype
  unfold uploadManifest
  dsimp only
  rw [if_neg hartifact]
  cases updateUpload env table (fromManifest manifest (objectKey manifest)
      (manifest.assetType.getD .artifact)) with
  | error e =>
      constructor
      · intro h
        cases h
      · rintro ⟨row, h, -⟩
        cases h
  | ok result =>
      obtain ⟨newVersion, stored⟩ := result
      cases newVersion with
      | none =>
          constructor
          · intro h
            cases h
          · rintro ⟨row, h, -⟩
            cases (Prod.mk.inj (Except.ok.inj h)).1
      | some row =>
          constructor
          · intro h
            obtain ⟨hanswer, hafter⟩ := Prod.mk.inj (Except.ok.inj h)
            exact ⟨row, by rw [show stored = after from hafter], hanswer.symm⟩
          · rintro ⟨row', h, rfl⟩
            obtain ⟨hrow, hafter⟩ := Prod.mk.inj (Except.ok.inj h)
            obtain rfl := Option.some.inj hrow
            rw [hafter]
            rfl

/-- The lookup of a manifest. -/
def lookup (table : UploadTable) (manifest : Manifest) : Option UploadRow :=
  findUpload table (fromManifest manifest (objectKey manifest)
    (manifest.assetType.getD .artifact))

/-- Where all four fields are given, the lookup finds the version of the manifest. -/
theorem isVersionOf_lookup {row : UploadRow} (h : lookup table manifest = some row)
    (hgiven : ∀ field ∈ [manifest.product, manifest.name, manifest.formation, manifest.version],
      field.text?.isSome = true) : IsVersionOf manifest row := by
  have hfound := List.find?_some h
  simp only [isLookedFor, fromManifest, Bool.and_eq_true] at hfound
  obtain ⟨⟨⟨hplatform, hcomponent⟩, hformation⟩, hversion⟩ := hfound
  have htext : ∀ {field : ManifestField} {column : String},
      field ∈ [manifest.product, manifest.name, manifest.formation, manifest.version] →
      field.allows column = true → field = .text column := by
    intro field column hmem hallows
    obtain ⟨s, hs⟩ := Option.isSome_iff_exists.mp (hgiven field hmem)
    exact (ManifestField.allows_text hs).mp hallows
  exact ⟨htext (by simp) hplatform, htext (by simp) hcomponent, htext (by simp) hformation,
    htext (by simp) hversion⟩

/-- **Main result.** The URL that is answered belongs to the version that is answered exactly where
a version in error that the lookup finds is stored under the object key of the manifest, and the
manifest gives all four fields of it. -/
theorem url_belongs_iff (env : ManifestEnv) (table : UploadTable) (manifest : Manifest)
    (hasset : manifest.assetType ≠ some .dockerImage) :
    UrlBelongs env table manifest ↔
      ∀ row, lookup table manifest = some row → row.uploadStatus = .error →
        row.url = some (objectKey manifest) ∧
        ∀ field ∈ [manifest.product, manifest.name, manifest.formation, manifest.version],
          field.text?.isSome = true := by
  constructor
  · intro hbelongs row hlookup herror
    have hupdate : updateUpload env table (fromManifest manifest (objectKey manifest)
        (manifest.assetType.getD .artifact)) = .ok (some row, table) := by
      unfold lookup at hlookup
      unfold updateUpload
      dsimp only
      rw [hlookup]
      exact if_pos herror
    obtain ⟨returned, hfind, hurl, hversion⟩ := hbelongs _ _
      ((uploadManifest_ok hasset).mpr ⟨row, hupdate, rfl⟩)
    rw [findKey_mem (List.mem_of_find?_eq_some hlookup)] at hfind
    obtain rfl := Option.some.inj hfind
    refine ⟨hurl, fun field hfield => ?_⟩
    simp only [List.mem_cons, List.not_mem_nil, or_false] at hfield
    rcases hfield with rfl | rfl | rfl | rfl
    · rw [hversion.platform]
      rfl
    · rw [hversion.component]
      rfl
    · rw [hversion.formation]
      rfl
    · rw [hversion.version]
      rfl
  · intro hcondition answer after hok
    obtain ⟨row, hupdate, rfl⟩ := (uploadManifest_ok hasset).mp hok
    rcases updateUpload_cases hupdate with ⟨hlookup, herror, rfl⟩ | ⟨-, hsave⟩
    · obtain ⟨hurl, hgiven⟩ := hcondition row hlookup herror
      exact ⟨row, findKey_mem (List.mem_of_find?_eq_some hlookup), hurl,
        isVersionOf_lookup hlookup hgiven⟩
    · obtain ⟨hrow, hmem⟩ := save_saved hsave
      obtain ⟨hurl, hversion⟩ := toRow?_eq_some hrow
      exact ⟨row, findKey_mem hmem, hurl, hversion⟩

/-! ### A retry under another file name -/

def manifestOf (fileName : ManifestField) : Manifest where
  product := .text "p"
  name := .text "c"
  formation := .text "f"
  version := .text "1"
  fileName := fileName
  registryUrl := .undefined
  assetType := none
  projectId := none

/-- The first upload of the version ended in error. -/
def failedOnce : UploadTable where
  rows := [⟨⟨"id", "p", "c", "f", "1", 0, .error, false, none⟩, some "p/c/f/1/1.zip", .artifact⟩]
  keys := by decide

def retryEnv : ManifestEnv := ⟨"new", 1, []⟩

/-- Under the same file name the version in error is taken up under its own URL. -/
theorem retry_belongs : UrlBelongs retryEnv failedOnce (manifestOf .undefined) :=
  (url_belongs_iff retryEnv failedOnce (manifestOf .undefined) (by decide)).mpr fun row hrow _ => by
    have hfound : lookup failedOnce (manifestOf .undefined) = failedOnce.rows.head? := by
      decide +kernel
    rw [hfound] at hrow
    obtain rfl := Option.some.inj hrow
    exact ⟨by decide +kernel, by decide⟩

/-- Under another file name the URL is not that of the version. -/
theorem retry_elsewhere : ¬ UrlBelongs retryEnv failedOnce (manifestOf (.text "b.zip")) := by
  intro h
  have hrun : ∃ answer, uploadManifest retryEnv failedOnce (manifestOf (.text "b.zip")) =
      .ok (answer, failedOnce) ∧ answer.catalogId = "id" ∧ answer.uploadKey = some "p/c/f/1/b.zip" :=
    ⟨⟨"id", some "p/c/f/1/b.zip", none⟩, rfl, rfl, rfl⟩
  obtain ⟨answer, hok, hid, hkey⟩ := hrun
  obtain ⟨row, hrow, hurl, -⟩ := h answer failedOnce hok
  rw [hid] at hrow
  obtain rfl := Option.some.inj hrow
  rw [hkey] at hurl
  exact absurd hurl (by decide)

end ManifestUploads

end UploadService
