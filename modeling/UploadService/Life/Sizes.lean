import UploadService.Life.Listener
import UploadService.Life.Schema
import UploadService.Life.StorageSync
import UploadService.Life.Untouched

/-!
# The total size of a release

`metadata.totalSize` holds the installation size of a release and the sizes of the file
uploads behind its artifacts. It is a cached value: `updateTotalSize` computes it anew, and
some of the calls that change what it depends on run `updateTotalSize` afterwards.

A `Sizing` is all that the total sizes depend on. A release is due when its total size is
the one that the sizing gives.

Main results:

- `updateTotalSize_due`: the release that is computed anew becomes due, the others stay as
  they are;
- `updateUploadFile_due`: a notification leaves the releases due, also the one of the file.
-/

namespace UploadService

open Prog ReleaseService FileUploadService RegulationStatusService

variable {env : UploadEnv} {db : UploadDb}

/-! ### Sizings -/

/-- What the total sizes depend on. -/
structure Sizing where
  /-- the releases with their metadata -/
  metadata : List (String × ReleaseMetadata)
  /-- the releases with the file uploads behind their artifacts -/
  links : List (String × ℕ)
  /-- the file uploads with their sizes -/
  sizes : List (ℕ × Option ℕ)

namespace Sizing

def fileSize (s : Sizing) (id : ℕ) : Option ℕ := (Rows.findKey Prod.fst id s.sizes).bind (·.2)

/-- What a link adds to the total size of a release. -/
def weight (s : Sizing) (c : String) (link : String × ℕ) : ℤ :=
  if link.1 = c then ((s.fileSize link.2).getD 0 : ℕ) else 0

/-- The sizes of the file uploads behind the artifacts of a release. -/
def linked (s : Sizing) (c : String) : ℤ := (s.links.map (s.weight c)).sum

/-- The total size of the release is the one it should have. -/
def Due (s : Sizing) (e : String × ReleaseMetadata) : Prop :=
  e.2.totalSize = some (finiteSize e.2.installationSize + s.linked e.1)

/-- The releases that are not stale are due. -/
def DueExcept (stale : String → Prop) (s : Sizing) : Prop := ∀ e ∈ s.metadata, ¬ stale e.1 → s.Due e

end Sizing

def ReleaseArtifact.link (a : ReleaseArtifact) : Option (String × ℕ) :=
  a.fileUploadId.map fun id => (a.releaseId, id)

def UploadDb.links (db : UploadDb) : List (String × ℕ) := db.artifacts.filterMap ReleaseArtifact.link

def UploadDb.sizes (db : UploadDb) : List (ℕ × Option ℕ) := db.fileUploads.map fun f => (f.id, f.size)

def UploadDb.sizing (db : UploadDb) : Sizing where
  metadata := db.releases.map fun r => (r.catalogId, r.metadata)
  links := db.links
  sizes := db.sizes

/-- The sizes of the file uploads that are linked to the artifacts of the release. -/
def linkedSizes (db : UploadDb) (catalogId : String) : ℤ :=
  (((db.artifactsOf catalogId).filterMap fun a => (db.fileUploadOf a).bind (·.size)).map
    Int.ofNat).sum

/-- Every total size is the installation size and the sizes of the linked file uploads. -/
def TotalsRight (db : UploadDb) : Prop :=
  ∀ r ∈ db.releases, r.metadata.totalSize =
    some (finiteSize r.metadata.installationSize + linkedSizes db r.catalogId)

instance (db : UploadDb) : Decidable (TotalsRight db) :=
  inferInstanceAs (Decidable (∀ r ∈ db.releases, r.metadata.totalSize =
    some (finiteSize r.metadata.installationSize + linkedSizes db r.catalogId)))

/-! ### The sizing of a state -/

theorem fileSize_sizing (db : UploadDb) (id : ℕ) :
    db.sizing.fileSize id = (Rows.findKey FileUpload.id id db.fileUploads).bind (·.size) := by
  show ((db.fileUploads.map fun f => (f.id, f.size)).find? _).bind _ = _
  rw [List.find?_map]
  show (Option.map _ (Rows.findKey FileUpload.id id db.fileUploads)).bind _ = _
  cases Rows.findKey FileUpload.id id db.fileUploads with
  | none => rfl
  | some f => rfl

theorem linkedSizes_eq (db : UploadDb) (c : String) : linkedSizes db c = db.sizing.linked c := by
  unfold linkedSizes Sizing.linked UploadDb.artifactsOf
  show _ = (List.map _ (db.artifacts.filterMap ReleaseArtifact.link)).sum
  induction db.artifacts with
  | nil => rfl
  | cons a rest ih =>
      cases hfile : a.fileUploadId with
      | none =>
          have hlink : a.link = none := by simp [ReleaseArtifact.link, hfile]
          have hsize : (db.fileUploadOf a).bind (·.size) = none := by
            simp [UploadDb.fileUploadOf, hfile]
          rw [List.filterMap_cons_none hlink, ← ih, List.filter_cons]
          split
          · simp only [List.filterMap_cons, hsize]
          · rfl
      | some id =>
          have hlink : a.link = some (a.releaseId, id) := by simp [ReleaseArtifact.link, hfile]
          have hsize : (db.fileUploadOf a).bind (·.size) = db.sizing.fileSize id := by
            rw [fileSize_sizing]
            simp [UploadDb.fileUploadOf, hfile]
          rw [List.filterMap_cons_some hlink, List.map_cons, List.sum_cons, ← ih, List.filter_cons]
          by_cases hc : a.releaseId = c
          · rw [if_pos (by simpa using hc)]
            cases hid : db.sizing.fileSize id with
            | none =>
                simp [hsize.trans hid, Sizing.weight, hid]
            | some n =>
                simp [hsize.trans hid, Sizing.weight, hid, hc]
          · rw [if_neg (by simpa using hc)]
            simp [Sizing.weight, hc]

/-- The property of the rows is one of the sizing. -/
theorem totalsRight_iff (db : UploadDb) :
    TotalsRight db ↔ db.sizing.DueExcept fun _ => False := by
  constructor
  · intro h e he _
    obtain ⟨r, hr, rfl⟩ := List.mem_map.mp he
    have hright := h r hr
    rw [linkedSizes_eq] at hright
    exact hright
  · intro h r hr
    rw [linkedSizes_eq]
    exact h (r.catalogId, r.metadata) (List.mem_map_of_mem hr) not_false

theorem totalSizeOf_load (db : UploadDb) (r : Release) :
    totalSizeOf (db.load r) =
      finiteSize r.metadata.installationSize + db.sizing.linked r.catalogId := by
  rw [← linkedSizes_eq]
  unfold totalSizeOf linkedSizes UploadDb.load
  rw [List.filterMap_map]
  rfl

/-! ### Changes of a sizing -/

namespace Sizing

variable {s s' : Sizing} {c : String}

theorem weight_congr {link : String × ℕ}
    (h : link.1 = c → s'.fileSize link.2 = s.fileSize link.2) : s'.weight c link = s.weight c link := by
  unfold weight
  by_cases hc : link.1 = c
  · rw [if_pos hc, if_pos hc, h hc]
  · rw [if_neg hc, if_neg hc]

/-- The files behind the artifacts of the release keep their sizes. -/
theorem linked_congr (hlinks : s'.links = s.links)
    (hsizes : ∀ link ∈ s.links, link.1 = c → s'.fileSize link.2 = s.fileSize link.2) :
    s'.linked c = s.linked c := by
  unfold linked
  rw [hlinks]
  apply congrArg List.sum
  apply List.map_congr_left
  intro link hlink
  exact weight_congr (hsizes link hlink)

/-- New links of other releases. -/
theorem linked_append {links : List (String × ℕ)} (hlinks : s'.links = s.links ++ links)
    (hothers : ∀ link ∈ links, link.1 ≠ c)
    (hsizes : ∀ link ∈ s.links, link.1 = c → s'.fileSize link.2 = s.fileSize link.2) :
    s'.linked c = s.linked c := by
  have hnew : links.map (s'.weight c) = links.map fun _ => (0 : ℤ) := by
    apply List.map_congr_left
    intro link hlink
    unfold weight
    rw [if_neg (hothers link hlink)]
  have hold : s.links.map (s'.weight c) = s.links.map (s.weight c) := by
    apply List.map_congr_left
    intro link hlink
    exact weight_congr (hsizes link hlink)
  unfold linked
  rw [hlinks, List.map_append, List.sum_append, hnew, hold]
  simp

/-- A release without a file of a known size. -/
theorem linked_eq_zero (h : ∀ link ∈ s.links, link.1 = c → s.fileSize link.2 = none) :
    s.linked c = 0 := by
  have hzero : s.links.map (s.weight c) = s.links.map fun _ => (0 : ℤ) := by
    apply List.map_congr_left
    intro link hlink
    unfold weight
    by_cases hc : link.1 = c
    · rw [if_pos hc, h link hlink hc]
      rfl
    · rw [if_neg hc]
  unfold linked
  rw [hzero]
  simp

/-- What was due before is due where neither its metadata nor its files have changed. -/
theorem DueExcept.widen {stale stale' : String → Prop} (h : s.DueExcept stale)
    (hsame : ∀ e ∈ s'.metadata, ¬ stale' e.1 →
      e ∈ s.metadata ∧ ¬ stale e.1 ∧ s'.linked e.1 = s.linked e.1) : s'.DueExcept stale' := by
  intro e he hfresh
  obtain ⟨hmem, hstale, hlinked⟩ := hsame e he hfresh
  show e.2.totalSize = some (_ + s'.linked e.1)
  rw [hlinked]
  exact h e hmem hstale

theorem DueExcept.mono {stale stale' : String → Prop} (h : s.DueExcept stale)
    (hle : ∀ c, stale c → stale' c) : s.DueExcept stale' :=
  fun e he hfresh => h e he fun hstale => hfresh (hle e.1 hstale)

end Sizing

/-! ### Writes that leave the sizing -/

theorem sizing_updateReleases {q : Release → Bool} {f : Release → Release} (db : UploadDb)
    (hf : ∀ r, (f r).details = r.details) : (updateReleases q f db).sizing = db.sizing := by
  unfold UploadDb.sizing
  congr 1
  apply Rows.map_updateWhere
  intro r _ _
  obtain ⟨hc, -, -, -, -, hmetadata⟩ := Release.details_inj (hf r)
  rw [hc, hmetadata]

theorem sizing_updateFiles {q : FileUpload → Bool} {g : FileUpload → FileUpload} (db : UploadDb)
    (hg : ∀ f, (g f).id = f.id ∧ (g f).size = f.size) :
    UploadDb.sizing { db with fileUploads := Rows.updateWhere q g db.fileUploads } = db.sizing := by
  unfold UploadDb.sizing UploadDb.sizes
  congr 1
  apply Rows.map_updateWhere
  intro f _ _
  rw [(hg f).1, (hg f).2]

theorem sizing_ignoresRefresh : IgnoresRefresh UploadDb.sizing where
  releases := fun db _ _ hf => sizing_updateReleases db hf
  missing := by
    intro db q
    apply sizing_updateFiles
    exact fun _ => ⟨rfl, rfl⟩
  pending := fun _ _ => rfl

theorem refreshReleaseState_sizing (p : ℕ) (v : String) :
    Frames UploadDb.sizing (refreshReleaseState env p v) :=
  sizing_ignoresRefresh.refresh p v

theorem maybeRestoreReleasedStatus_sizing (c : String) :
    Frames UploadDb.sizing (maybeRestoreReleasedStatus c) :=
  sizing_ignoresRefresh.maybeRestore c

theorem runPending_sizing (db : UploadDb) (i : ℕ) : (db.runPending env i).sizing = db.sizing :=
  sizing_ignoresRefresh.runPending db i

theorem syncArtifactsStorageStatus_sizing :
    Frames UploadDb.sizing (syncArtifactsStorageStatus env) := by
  intro observed
  have hfile : ∀ (id : ℕ) (g : FileUpload → FileUpload), (∀ f, (g f).id = f.id ∧ (g f).size = f.size) →
      Keeps (fun s => UploadDb.sizing s = observed)
        (modify (updateFileUpload id g) : UploadProg Unit) :=
    fun id g hg => Keeps.modify fun db h => (sizing_updateFiles db hg).trans h
  refine Keeps.bind (Keeps.gets _) fun relevant => Keeps.forEach fun batch _ => ?_
  refine Keeps.bind (Keeps.foldEach (fun recheck a _ => ?_) []) fun recheck => ?_
  · refine Keeps.bind (Keeps.gets _) fun stat => ?_
    cases stat with
    | none =>
        refine Keeps.ite (Keeps.bind (hfile _ _ fun _ => ⟨rfl, rfl⟩) fun _ => ?_) (Keeps.pure _)
        refine Keeps.bind (Keeps.when (Keeps.modify fun db h => ?_)) fun _ => Keeps.pure _
        refine Eq.trans (sizing_updateReleases db ?_) h
        exact fun _ => rfl
    | some stored =>
        refine Keeps.ite (Keeps.bind (hfile _ _ fun _ => ⟨rfl, rfl⟩) fun _ => ?_) (Keeps.pure _)
        exact Keeps.ite (Keeps.pure _) (Keeps.pure _)
  · exact Keeps.forEach fun c _ => maybeRestoreReleasedStatus_sizing c observed

/-! ### The total size computed anew -/

/-- **Spec.** The release that is computed anew becomes due, the others stay as they are. -/
theorem updateTotalSize_due {db : UploadDb} (hkeys : Rows.KeysDistinct Release.catalogId db.releases)
    (hversions : Rows.KeysDistinct (fun r : Release => (r.projectId, r.version)) db.releases) {p : ℕ}
    {v : String} {r : Release} (hfind : db.findRelease p v = some r) {stale : String → Prop}
    (h : db.sizing.DueExcept stale) :
    (updateTotalSize p v db).sizing.DueExcept fun c => stale c ∧ c ≠ r.catalogId := by
  obtain ⟨hr, hp, hv⟩ := UploadDb.findRelease_some hfind
  have hload : db.getReleaseEntity p v = some (db.load r) := by
    unfold UploadDb.getReleaseEntity
    rw [hfind]
    rfl
  unfold updateTotalSize
  rw [hload]
  intro e he hfresh
  obtain ⟨x', hx', rfl⟩ := List.mem_map.mp he
  rcases Rows.mem_updateWhere.mp hx' with ⟨x, hx, hkey, rfl⟩ | ⟨hx, hkey⟩
  · simp only [UploadDb.isRelease, Bool.and_eq_true, beq_iff_eq] at hkey
    obtain rfl : x = r := hversions.eq_of_mem hx hr (by rw [hkey.1, hkey.2, hp, hv])
    show some (totalSizeOf (db.load x)) = some (_ + db.sizing.linked x.catalogId)
    rw [totalSizeOf_load]
    rfl
  · have hne : x'.catalogId ≠ r.catalogId := by
      intro heq
      obtain rfl := hkeys.eq_of_mem hx hr heq
      simp [UploadDb.isRelease, hp, hv] at hkey
    exact h (x'.catalogId, x'.metadata) (List.mem_map_of_mem hx) fun hstale => hfresh ⟨hstale, hne⟩

/-- A computation anew makes no release stale. -/
theorem updateTotalSize_keeps {db : UploadDb} (hdb : db.Constraints) {stale : String → Prop}
    (h : db.sizing.DueExcept stale) (p : ℕ) (v : String) :
    (updateTotalSize p v db).sizing.DueExcept stale := by
  cases hfind : db.findRelease p v with
  | none =>
      have hload : db.getReleaseEntity p v = none := by
        unfold UploadDb.getReleaseEntity
        rw [hfind]
        rfl
      unfold updateTotalSize
      rw [hload]
      exact h
  | some r =>
      apply (updateTotalSize_due hdb.releaseKeys hdb.releaseVersions hfind h).mono
      exact fun c hc => hc.1

/-! ### Notifications -/

theorem onFileChange_due {key : Option String} {db : UploadDb} (hdb : db.Constraints)
    {stale : String → Prop} (h : db.sizing.DueExcept stale) :
    (onFileChange key db).2.sizing.DueExcept stale ∧
      ∀ r, releaseOfFile db key = some r →
        (onFileChange key db).2.sizing.DueExcept fun c => stale c ∧ c ≠ r.catalogId := by
  have hchanged := onFileChange_changed key db
  generalize (onFileChange key db).2 = db' at hchanged ⊢
  have hfound : ∀ r, releaseOfFile db key = some r →
      (updateTotalSize r.projectId r.version db).sizing.DueExcept
        fun c => stale c ∧ c ≠ r.catalogId := by
    intro r hr
    have hmem : r ∈ db.releases := by
      cases key with
      | none => exact List.mem_of_mem_head? hr
      | some key => exact List.mem_of_find?_eq_some hr
    exact updateTotalSize_due hdb.releaseKeys hdb.releaseVersions (hdb.findRelease_of_mem hmem) h
  cases hchanged with
  | ignored hnone =>
      refine ⟨h, fun r hr => ?_⟩
      rw [hnone] at hr
      cases hr
  | seen r hr =>
      refine ⟨updateTotalSize_keeps hdb h _ _, fun r' hr' => ?_⟩
      obtain rfl := Option.some.inj (hr.symm.trans hr')
      exact hfound r hr
  | seenError r hr herror =>
      refine ⟨updateTotalSize_keeps hdb h _ _, fun r' hr' => ?_⟩
      obtain rfl := Option.some.inj (hr.symm.trans hr')
      exact hfound r hr

/-- The release of the artifact that holds the file with the key is the one that is found. -/
theorem releaseOfFile_of_link {db : UploadDb} (hdb : db.Constraints) {a : ReleaseArtifact}
    (ha : a ∈ db.artifacts) {f : FileUpload} (hf : f ∈ db.fileUploads)
    (hlink : a.fileUploadId = some f.id) :
    ∃ r, releaseOfFile db (some f.objectKey) = some r ∧ r.catalogId = a.releaseId := by
  have hof : db.fileUploadOf a = some f := by
    unfold UploadDb.fileUploadOf
    rw [hlink]
    exact Rows.findKey_unique hdb.fileKeys hf
  obtain ⟨r, hr, hkey⟩ := hdb.artifactReleases a ha
  have hholds : ((db.artifactsOf r.catalogId).any fun a =>
      (db.fileUploadOf a).any fun g => g.objectKey == f.objectKey) = true := by
    apply List.any_eq_true.mpr
    refine ⟨a, List.mem_filter.mpr ⟨ha, by simp [hkey]⟩, ?_⟩
    rw [hof]
    simp
  cases hfind : releaseOfFile db (some f.objectKey) with
  | none =>
      have hno := List.find?_eq_none.mp hfind r hr
      exact absurd hholds hno
  | some r' =>
      refine ⟨r', rfl, ?_⟩
      have hfind' : (db.releases.find? fun r => (db.artifactsOf r.catalogId).any fun a =>
          (db.fileUploadOf a).any fun g => g.objectKey == f.objectKey) = some r' := hfind
      have hholds' := List.find?_some hfind'
      obtain ⟨b, hb, hbfile⟩ := List.any_eq_true.mp hholds'
      obtain ⟨hbmem, hbkey⟩ := List.mem_filter.mp hb
      cases hofb : db.fileUploadOf b with
      | none => rw [hofb] at hbfile; cases hbfile
      | some g =>
          rw [hofb] at hbfile
          obtain ⟨hg, hblink⟩ := mem_of_fileUploadOf hofb
          obtain rfl : g = f := hdb.fileObjectKeys.eq_of_mem hg hf (by simpa using hbfile)
          obtain rfl := hdb.artifactFiles b hbmem a ha g.id hblink hlink
          exact (beq_iff_eq.mp hbkey).symm

theorem mem_links {db : UploadDb} {c : String} {id : ℕ} :
    (c, id) ∈ db.links ↔ ∃ a ∈ db.artifacts, a.releaseId = c ∧ a.fileUploadId = some id := by
  unfold UploadDb.links
  rw [List.mem_filterMap]
  apply exists_congr
  intro a
  apply and_congr_right
  intro _
  cases hfile : a.fileUploadId <;> simp [ReleaseArtifact.link, hfile]

/-- The size of another file is another entry. -/
theorem fileSize_updateFiles {q : FileUpload → Bool} {g : FileUpload → FileUpload} (db : UploadDb)
    (hg : ∀ f, (g f).id = f.id) {id : ℕ} (hother : ∀ f ∈ db.fileUploads, q f = true → f.id ≠ id) :
    (UploadDb.sizing { db with fileUploads := Rows.updateWhere q g db.fileUploads }).fileSize id =
      db.sizing.fileSize id := by
  rw [fileSize_sizing, fileSize_sizing]
  show (Rows.findKey _ _ (Rows.updateWhere q g db.fileUploads)).bind _ = _
  rw [Rows.findKey_updateWhere db.fileUploads hg]
  cases hfind : Rows.findKey FileUpload.id id db.fileUploads with
  | none => rfl
  | some f =>
      obtain ⟨hf, hid⟩ := Rows.findKey_some hfind
      have hq : q f = false := eq_false_of_ne_true fun hq => hother f hf hq hid
      rw [Option.map_some, hq]
      rfl

/-- **Spec.** A notification leaves the releases due, and the one of the file becomes due. -/
theorem updateUploadFile_due {file : UpdateFileUploadDto}
    (hstatus : file.status = .uploaded ∨ file.status = .removed) {db : UploadDb}
    (hdb : db.Constraints) {stale : String → Prop} (h : db.sizing.DueExcept stale) :
    (updateUploadFile file db).2.sizing.DueExcept stale ∧
      ∀ a ∈ db.artifacts, ∀ f ∈ db.fileUploads, a.fileUploadId = some f.id →
        f.objectKey = file.objectKey →
          (updateUploadFile file db).2.sizing.DueExcept fun c => stale c ∧ c ≠ a.releaseId := by
  by_cases hrow : ∃ f ∈ db.fileUploads, f.objectKey = file.objectKey
  · obtain ⟨f, hf, hkey⟩ := hrow
    rw [updateUploadFile_eq hstatus ⟨f, hf, hkey⟩]
    generalize hwritten : ({ db with
      fileUploads := Rows.updateWhere (fun f => f.objectKey == file.objectKey) (notified file)
        db.fileUploads } : UploadDb) = db'
    have hdb' : db'.Constraints := by
      rw [← hwritten]
      exact hdb.updateFiles fun _ => ⟨rfl, rfl⟩
    have hartifacts : db'.artifacts = db.artifacts := by rw [← hwritten]
    have hf' : notified file f ∈ db'.fileUploads := by
      rw [← hwritten]
      exact Rows.mem_updateWhere.mpr (.inl ⟨f, hf, by simpa using hkey, rfl⟩)
    -- the releases that are linked to the file are stale after the write
    have hwide : db'.sizing.DueExcept fun c => stale c ∨ (c, f.id) ∈ db.links := by
      apply h.widen
      intro e he hfresh
      refine ⟨by rw [← hwritten] at he; exact he, fun hstale => hfresh (.inl hstale), ?_⟩
      apply Sizing.linked_congr
      · rw [← hwritten]
        rfl
      · rintro ⟨c, id⟩ hlink rfl
        rw [← hwritten]
        apply fileSize_updateFiles db (fun f => (rfl : (notified file f).id = f.id))
        intro g hg hgkey heq
        obtain rfl : g = f := hdb.fileObjectKeys.eq_of_mem hg hf (by
          rw [hkey]
          simpa using hgkey)
        exact hfresh (.inr (heq ▸ hlink))
    have hlinked : ∀ a ∈ db.artifacts, a.fileUploadId = some f.id →
        (onFileChange (some file.objectKey) db').2.sizing.DueExcept
          fun c => stale c ∧ c ≠ a.releaseId := by
      intro a ha hfile
      obtain ⟨r, hr, hcatalog⟩ := releaseOfFile_of_link hdb' (hartifacts ▸ ha) hf' hfile
      have hkey' : (notified file f).objectKey = file.objectKey := hkey
      rw [hkey'] at hr
      apply ((onFileChange_due hdb' hwide).2 r hr).mono
      rintro c ⟨hstale | hlink, hne⟩
      · exact ⟨hstale, hcatalog ▸ hne⟩
      · obtain ⟨b, hb, rfl, hbfile⟩ := mem_links.mp hlink
        obtain rfl := hdb.artifactFiles b hb a ha f.id hbfile hfile
        exact absurd hcatalog.symm hne
    refine ⟨?_, fun a ha g hg hfile hgkey => ?_⟩
    · by_cases hany : ∃ a ∈ db.artifacts, a.fileUploadId = some f.id
      · obtain ⟨a, ha, hfile⟩ := hany
        exact (hlinked a ha hfile).mono fun c hc => hc.1
      · apply (onFileChange_due hdb' hwide).1.mono
        rintro c (hstale | hlink)
        · exact hstale
        · obtain ⟨b, hb, -, hbfile⟩ := mem_links.mp hlink
          exact absurd ⟨b, hb, hbfile⟩ hany
    · obtain rfl : g = f := hdb.fileObjectKeys.eq_of_mem hg hf (by rw [hgkey, hkey])
      exact hlinked a ha hfile
  · rw [updateUploadFile_missing hrow]
    refine ⟨h, fun a _ f hf _ hkey => absurd ⟨f, hf, hkey⟩ hrow⟩

theorem processAndSaveFile_due {objectKey : String} {calculateSha256 : Bool} {db : UploadDb}
    (hdb : db.Constraints) {stale : String → Prop} (h : db.sizing.DueExcept stale) :
    (processAndSaveFile env objectKey calculateSha256 db).2.sizing.DueExcept stale := by
  have hkeeps : Keeps (fun s : UploadDb => s.Constraints ∧ s.sizing.DueExcept stale)
      (processAndSaveFile env objectKey calculateSha256) := by
    refine Keeps.bind (Keeps.gets _) fun found => ?_
    cases found with
    | none => exact Keeps.pure _
    | some file =>
        refine Keeps.bind (Keeps.gets _) fun stat => ?_
        cases stat with
        | none => exact Keeps.throw _
        | some stored =>
            refine Keeps.bind (Keeps.modify fun s hs => ⟨hs.1.updateFiles fun _ => ⟨rfl, rfl⟩, ?_⟩)
              fun _ => Keeps.when fun s hs => ?_
            · have hsizing : (updateFileUpload file.id (processed calculateSha256 stored) s).sizing =
                  s.sizing := sizing_updateFiles s fun _ => ⟨rfl, rfl⟩
              rw [hsizing]
              exact hs.2
            · exact ⟨onFileChange_constraints _ s hs.1, (onFileChange_due hs.1 hs.2).1⟩
  exact (hkeeps db ⟨hdb, h⟩).2

end UploadService
