import UploadService.Life.Untouched

/-!
# Keys and references

The unique keys and the references of the schema hold after every event, where they held
before: a write that would break them is refused by the database, and the model refuses it
at the same places.

Main results:

- one lemma for each kind of write (`Constraints.releaseKeys_eq` to
  `Constraints.deleteRelease`);
- `step_constraints` and `run_constraints`: every event, and every run, keeps the schema.
-/

namespace UploadService

open Prog ReleaseService FileUploadService RegulationStatusService ComponentUploads

variable {env : UploadEnv} {db : UploadDb}

namespace UploadDb.Constraints

/-! ### Releases -/

/-- A write that leaves the keys of the releases. -/
theorem releaseKeys_eq (h : db.Constraints) {rows : List Release}
    (hkeys : UploadService.releaseKeys { db with releases := rows } = UploadService.releaseKeys db) :
    ({ db with releases := rows } : UploadDb).Constraints := by
  have hids : rows.map Release.catalogId = db.releases.map Release.catalogId := by
    have hmap := congrArg (List.map fun key : ℕ × String × String => key.2.2) hkeys
    simp only [UploadService.releaseKeys, List.map_map] at hmap
    exact hmap
  have hversions : rows.map (fun r : Release => (r.projectId, r.version)) =
      db.releases.map fun r => (r.projectId, r.version) := by
    have hmap := congrArg (List.map fun key : ℕ × String × String => (key.1, key.2.1)) hkeys
    simp only [UploadService.releaseKeys, List.map_map] at hmap
    exact hmap
  have hmem : ∀ {c : String}, (∃ r ∈ db.releases, r.catalogId = c) →
      ∃ r ∈ rows, r.catalogId = c := by
    intro c hc
    have hin : c ∈ db.releases.map Release.catalogId := List.mem_map.mpr hc
    rw [← hids] at hin
    exact List.mem_map.mp hin
  refine { h with
    releaseKeys := ?_
    releaseVersions := ?_
    artifactReleases := fun a ha => hmem (h.artifactReleases a ha)
    statusReleases := fun s hs => hmem (h.statusReleases s hs)
    dependencyReleases := fun d hd =>
      ⟨hmem (h.dependencyReleases d hd).1, hmem (h.dependencyReleases d hd).2⟩
    ruleReleases := fun a ha => hmem (h.ruleReleases a ha) }
  · show (rows.map Release.catalogId).Nodup
    rw [hids]
    exact h.releaseKeys
  · show (rows.map fun r : Release => (r.projectId, r.version)).Nodup
    rw [hversions]
    exact h.releaseVersions

theorem updateReleases (h : db.Constraints) {q : Release → Bool} {f : Release → Release}
    (hf : ∀ r ∈ db.releases, q r = true →
      (f r).catalogId = r.catalogId ∧ (f r).projectId = r.projectId ∧ (f r).version = r.version) :
    (ReleaseService.updateReleases q f db).Constraints := by
  apply h.releaseKeys_eq
  apply Rows.map_updateWhere
  intro r hr hq
  obtain ⟨h₁, h₂, h₃⟩ := hf r hr hq
  rw [h₁, h₂, h₃]

theorem updateTotalSize (h : db.Constraints) (p : ℕ) (v : String) :
    (ReleaseService.updateTotalSize p v db).Constraints := by
  unfold ReleaseService.updateTotalSize
  split
  · exact h
  · exact h.updateReleases fun _ _ _ => ⟨rfl, rfl, rfl⟩

/-- A new release, with keys of its own, and the rows moved to make room for it. -/
theorem insertRelease (h : db.Constraints) {semver : SemverLib} {row inserted : Release}
    {rows : List Release}
    (hins : UploadService.insertRelease semver db.projects row db.releases = some (inserted, rows)) :
    ({ db with releases := rows } : UploadDb).Constraints ∧
      ∃ r ∈ rows, r.catalogId = inserted.catalogId := by
  obtain ⟨-, hfreshKey, -⟩ := insertRelease_some hins
  have hfresh := insertRelease_fresh hins
  have hkeys := insertRelease_keys hins
  have happend : ({ db with releases := db.releases ++ [inserted] } : UploadDb).Constraints := by
    have hold : ∀ {c : String}, (∃ r ∈ db.releases, r.catalogId = c) →
        ∃ r ∈ db.releases ++ [inserted], r.catalogId = c := by
      rintro c ⟨r, hr, hc⟩
      exact ⟨r, List.mem_append_left _ hr, hc⟩
    exact { h with
      releaseKeys := h.releaseKeys.append_new hfreshKey
      releaseVersions := h.releaseVersions.append_new hfresh
      artifactReleases := fun a ha => hold (h.artifactReleases a ha)
      statusReleases := fun s hs => hold (h.statusReleases s hs)
      dependencyReleases := fun d hd =>
        ⟨hold (h.dependencyReleases d hd).1, hold (h.dependencyReleases d hd).2⟩
      ruleReleases := fun a ha => hold (h.ruleReleases a ha) }
  refine ⟨happend.releaseKeys_eq hkeys, ?_⟩
  have hin : inserted.catalogId ∈ rows.map Release.catalogId := by
    have hids := congrArg (List.map fun key : ℕ × String × String => key.2.2) hkeys
    simp only [List.map_map, Function.comp_def] at hids
    rw [hids]
    simp
  exact List.mem_map.mp hin

/-- The delete of a release that nothing refers to. -/
theorem deleteRelease (h : db.Constraints) (catalogId : String) :
    (deleteReleaseRow catalogId db).2.Constraints := by
  unfold deleteReleaseRow
  split
  · exact h
  · rename_i hfree
    simp only [Bool.or_eq_true, List.any_eq_true, Bool.and_eq_true, beq_iff_eq, bne_iff_ne, not_or,
      not_exists, not_and, Decidable.not_not] at hfree
    obtain ⟨⟨hart, hstatus⟩, hdep⟩ := hfree
    have hmem : ∀ {c : String}, c ≠ catalogId → (∃ r ∈ db.releases, r.catalogId = c) →
        ∃ r ∈ Rows.deleteWhere (fun r : Release => r.catalogId == catalogId) db.releases,
          r.catalogId = c := by
      rintro c hne ⟨r, hr, rfl⟩
      exact ⟨r, Rows.mem_deleteWhere.mpr ⟨hr, by simpa using hne⟩, rfl⟩
    exact { h with
      releaseKeys := h.releaseKeys.sublist (Rows.deleteWhere_sublist _ _)
      releaseVersions := h.releaseVersions.sublist (Rows.deleteWhere_sublist _ _)
      artifactReleases := fun a ha => hmem (hart a ha) (h.artifactReleases a ha)
      statusReleases := fun s hs => hmem (hstatus s hs) (h.statusReleases s hs)
      dependencyReleases := by
        intro d hd
        obtain ⟨hd, hother⟩ := Rows.mem_deleteWhere.mp hd
        have hne : d.releaseId ≠ catalogId := by simpa using hother
        refine ⟨hmem hne (h.dependencyReleases d hd).1, hmem ?_ (h.dependencyReleases d hd).2⟩
        exact fun heq => hne (hdep d hd heq)
      ruleReleases := by
        intro a ha
        obtain ⟨ha, hother⟩ := Rows.mem_deleteWhere.mp ha
        exact hmem (by simpa using hother) (h.ruleReleases a ha) }

/-! ### Relations of a release -/

theorem dependencies (h : db.Constraints) {rows : List ReleaseDependency}
    (hrows : ∀ d ∈ rows, d ∈ db.dependencies ∨ ((∃ r ∈ db.releases, r.catalogId = d.releaseId) ∧
      ∃ r ∈ db.releases, r.catalogId = d.dependencyReleaseId)) :
    ({ db with dependencies := rows } : UploadDb).Constraints :=
  { h with dependencyReleases := fun d hd => (hrows d hd).elim (h.dependencyReleases d) id }

theorem saveDependencies (h : db.Constraints) {catalogId : String}
    (hkey : ∃ r ∈ db.releases, r.catalogId = catalogId) {entities : List Release}
    (hentities : ∀ e ∈ entities, ∃ r ∈ db.releases, r.catalogId = e.catalogId) :
    (ReleaseService.saveDependencies catalogId entities db).Constraints := by
  apply h.dependencies
  intro d hd
  rcases List.mem_append.mp hd with hd | hd
  · exact .inl (Rows.mem_deleteWhere.mp hd).1
  · right
    obtain ⟨hd, -⟩ := List.mem_filter.mp hd
    obtain ⟨c, hc, rfl⟩ := List.mem_map.mp hd
    obtain ⟨e, he, rfl⟩ := List.mem_map.mp hc
    exact ⟨hkey, hentities e he⟩

theorem linkDefaultRule (h : db.Constraints) {catalogId : String}
    (hkey : ∃ r ∈ db.releases, r.catalogId = catalogId) :
    (linkDefaultRuleToRelease catalogId db).Constraints := by
  unfold linkDefaultRuleToRelease
  split
  · refine { h with ruleReleases := fun a ha => ?_ }
    rcases List.mem_append.mp ha with ha | ha
    · exact h.ruleReleases a ha
    · rw [List.mem_singleton.mp ha]
      exact hkey
  · exact h

/-! ### File uploads -/

/-- A write to file uploads that leaves their keys. -/
theorem updateFiles (h : db.Constraints) {q : FileUpload → Bool} {f : FileUpload → FileUpload}
    (hf : ∀ x, (f x).id = x.id ∧ (f x).objectKey = x.objectKey) :
    ({ db with fileUploads := Rows.updateWhere q f db.fileUploads } : UploadDb).Constraints := by
  refine { h with
    fileKeys := h.fileKeys.updateWhere fun x _ _ => (hf x).1
    fileObjectKeys := h.fileObjectKeys.updateWhere fun x _ _ => (hf x).2
    artifactUploads := fun a ha id hid => ?_
    freshFiles := fun x hx => ?_ }
  · obtain ⟨x, hx, hxid⟩ := h.artifactUploads a ha id hid
    by_cases hq : q x = true
    · exact ⟨f x, Rows.mem_updateWhere.mpr (.inl ⟨x, hx, hq, rfl⟩), (hf x).1.trans hxid⟩
    · exact ⟨x, Rows.mem_updateWhere.mpr (.inr ⟨hx, by simpa using hq⟩), hxid⟩
  · rcases Rows.mem_updateWhere.mp hx with ⟨y, hy, -, rfl⟩ | ⟨hx, -⟩
    · rw [(hf y).1]
      exact h.freshFiles y hy
    · exact h.freshFiles x hx

/-- A new file upload, under the next key. -/
theorem appendFile (h : db.Constraints) {x : FileUpload} (hid : x.id = db.nextId)
    (hkey : ∀ y ∈ db.fileUploads, y.objectKey ≠ x.objectKey) :
    ({ db with fileUploads := db.fileUploads ++ [x], nextId := db.nextId + 1 } :
      UploadDb).Constraints := by
  refine { h with
    fileKeys := h.fileKeys.append_new fun y hy => by rw [hid]; exact (h.freshFiles y hy).ne
    fileObjectKeys := h.fileObjectKeys.append_new hkey
    artifactUploads := fun a ha id haid => ?_
    freshArtifacts := fun a ha => Nat.lt_succ_of_lt (h.freshArtifacts a ha)
    freshFiles := fun y hy => ?_
    freshStatuses := fun s hs => Nat.lt_succ_of_lt (h.freshStatuses s hs) }
  · obtain ⟨y, hy, hyid⟩ := h.artifactUploads a ha id haid
    exact ⟨y, List.mem_append_left _ hy, hyid⟩
  · rcases List.mem_append.mp hy with hy | hy
    · exact Nat.lt_succ_of_lt (h.freshFiles y hy)
    · rw [List.mem_singleton.mp hy, hid]
      exact Nat.lt_succ_self _

/-- The delete of a file upload that no artifact holds. -/
theorem deleteFile (h : db.Constraints) {id : ℕ} (hfree : ∀ a ∈ db.artifacts, a.fileUploadId ≠ some id) :
    ({ db with fileUploads := Rows.deleteWhere (fun x => x.id == id) db.fileUploads } :
      UploadDb).Constraints := by
  refine { h with
    fileKeys := h.fileKeys.sublist (Rows.deleteWhere_sublist _ _)
    fileObjectKeys := h.fileObjectKeys.sublist (Rows.deleteWhere_sublist _ _)
    artifactUploads := fun a ha i hi => ?_
    freshFiles := fun x hx => h.freshFiles x (Rows.mem_deleteWhere.mp hx).1 }
  obtain ⟨x, hx, hxid⟩ := h.artifactUploads a ha i hi
  refine ⟨x, Rows.mem_deleteWhere.mpr ⟨hx, ?_⟩, hxid⟩
  have hne : i ≠ id := fun heq => hfree a ha (heq ▸ hi)
  simpa [hxid] using hne

/-! ### Artifacts -/

/-- A write to artifacts that leaves their keys, their type and what they belong to. -/
theorem updateArtifacts (h : db.Constraints) {q : ReleaseArtifact → Bool}
    {f : ReleaseArtifact → ReleaseArtifact}
    (hf : ∀ a ∈ db.artifacts, q a = true → (f a).id = a.id ∧ (f a).releaseId = a.releaseId ∧
      (f a).type = a.type ∧ (f a).fileUploadId = a.fileUploadId) :
    ({ db with artifacts := Rows.updateWhere q f db.artifacts } : UploadDb).Constraints := by
  have hrow : ∀ a ∈ Rows.updateWhere q f db.artifacts, ∃ b ∈ db.artifacts, a.id = b.id ∧
      a.releaseId = b.releaseId ∧ a.type = b.type ∧ a.fileUploadId = b.fileUploadId := by
    intro a ha
    rcases Rows.mem_updateWhere.mp ha with ⟨b, hb, hq, rfl⟩ | ⟨ha, -⟩
    · exact ⟨b, hb, hf b hb hq⟩
    · exact ⟨a, ha, rfl, rfl, rfl, rfl⟩
  have hkeys : Rows.KeysDistinct ReleaseArtifact.id (Rows.updateWhere q f db.artifacts) :=
    h.artifactKeys.updateWhere fun a ha hq => (hf a ha hq).1
  refine { h with
    artifactKeys := hkeys
    artifactReleases := fun a ha => ?_
    artifactFiles := fun a ha b hb id hida hidb => ?_
    fileArtifacts := fun a ha => ?_
    artifactUploads := fun a ha id hid => ?_
    freshArtifacts := fun a ha => ?_ }
  · obtain ⟨b, hb, -, hrel, -⟩ := hrow a ha
    rw [hrel]
    exact h.artifactReleases b hb
  · obtain ⟨a', ha', hia, -, -, hfa⟩ := hrow a ha
    obtain ⟨b', hb', hib, -, -, hfb⟩ := hrow b hb
    have heq : a' = b' := h.artifactFiles a' ha' b' hb' id (hfa ▸ hida) (hfb ▸ hidb)
    exact hkeys.eq_of_mem ha hb (by rw [hia, hib, heq])
  · obtain ⟨b, hb, -, -, htype, hfile⟩ := hrow a ha
    rw [htype, hfile]
    exact h.fileArtifacts b hb
  · obtain ⟨b, hb, -, -, -, hfile⟩ := hrow a ha
    exact h.artifactUploads b hb id (hfile ▸ hid)
  · obtain ⟨b, hb, hid, -⟩ := hrow a ha
    rw [hid]
    exact h.freshArtifacts b hb

/-- A new artifact, under the next key, with a file upload that no other holds. -/
theorem appendArtifact (h : db.Constraints) {a : ReleaseArtifact} (hid : a.id = db.nextId)
    (hrel : ∃ r ∈ db.releases, r.catalogId = a.releaseId)
    (htype : a.type = .file → a.fileUploadId ≠ none)
    (hfile : ∀ id, a.fileUploadId = some id →
      (∀ b ∈ db.artifacts, b.fileUploadId ≠ some id) ∧ ∃ x ∈ db.fileUploads, x.id = id) :
    ({ db with artifacts := db.artifacts ++ [a], nextId := db.nextId + 1 } :
      UploadDb).Constraints := by
  have hcases : ∀ {P : ReleaseArtifact → Prop}, (∀ b ∈ db.artifacts, P b) → P a →
      ∀ b ∈ db.artifacts ++ [a], P b := by
    intro P hold hnew b hb
    rcases List.mem_append.mp hb with hb | hb
    · exact hold b hb
    · rw [List.mem_singleton.mp hb]
      exact hnew
  refine { h with
    artifactKeys := h.artifactKeys.append_new fun b hb => by
      rw [hid]
      exact (h.freshArtifacts b hb).ne
    artifactReleases := hcases h.artifactReleases hrel
    artifactFiles := fun b hb c hc id hidb hidc => ?_
    fileArtifacts := hcases h.fileArtifacts htype
    artifactUploads := hcases h.artifactUploads fun id hfid => (hfile id hfid).2
    freshArtifacts := hcases (fun b hb => Nat.lt_succ_of_lt (h.freshArtifacts b hb))
      (hid ▸ Nat.lt_succ_self _)
    freshFiles := fun x hx => Nat.lt_succ_of_lt (h.freshFiles x hx)
    freshStatuses := fun s hs => Nat.lt_succ_of_lt (h.freshStatuses s hs) }
  rcases List.mem_append.mp hb with hb | hb <;> rcases List.mem_append.mp hc with hc | hc
  · exact h.artifactFiles b hb c hc id hidb hidc
  · rw [List.mem_singleton.mp hc] at hidc
    exact absurd hidb ((hfile id hidc).1 b hb)
  · rw [List.mem_singleton.mp hb] at hidb
    exact absurd hidc ((hfile id hidb).1 c hc)
  · rw [List.mem_singleton.mp hb, List.mem_singleton.mp hc]

theorem deleteArtifacts (h : db.Constraints) (q : ReleaseArtifact → Bool) :
    ({ db with artifacts := Rows.deleteWhere q db.artifacts } : UploadDb).Constraints :=
  { h with
    artifactKeys := h.artifactKeys.sublist (Rows.deleteWhere_sublist _ _)
    artifactReleases := fun a ha => h.artifactReleases a (Rows.mem_deleteWhere.mp ha).1
    artifactFiles := fun a ha b hb => h.artifactFiles a (Rows.mem_deleteWhere.mp ha).1 b
      (Rows.mem_deleteWhere.mp hb).1
    fileArtifacts := fun a ha => h.fileArtifacts a (Rows.mem_deleteWhere.mp ha).1
    artifactUploads := fun a ha => h.artifactUploads a (Rows.mem_deleteWhere.mp ha).1
    freshArtifacts := fun a ha => h.freshArtifacts a (Rows.mem_deleteWhere.mp ha).1 }

/-! ### Regulation statuses, rules and component uploads -/

theorem deleteStatuses (h : db.Constraints) (q : RegulationStatus → Bool) :
    ({ db with regulationStatuses := Rows.deleteWhere q db.regulationStatuses } :
      UploadDb).Constraints :=
  { h with
    statusKeys := h.statusKeys.sublist (Rows.deleteWhere_sublist _ _)
    statusReleases := fun s hs => h.statusReleases s (Rows.mem_deleteWhere.mp hs).1
    freshStatuses := fun s hs => h.freshStatuses s (Rows.mem_deleteWhere.mp hs).1 }

theorem upsertStatus (h : db.Constraints) {row : RegulationStatus}
    {f : RegulationStatus → RegulationStatus}
    (hrel : ∃ r ∈ db.releases, r.catalogId = row.versionId)
    (hf : ∀ s, (f s).id = s.id ∧ (f s).versionId = s.versionId) :
    (RegulationStatusService.upsertStatus row f db).Constraints := by
  unfold RegulationStatusService.upsertStatus
  split
  · have hrow : ∀ s ∈ Rows.updateWhere (isSameStatus row) f db.regulationStatuses,
        ∃ t ∈ db.regulationStatuses, s.id = t.id ∧ s.versionId = t.versionId := by
      intro s hs
      rcases Rows.mem_updateWhere.mp hs with ⟨t, ht, -, rfl⟩ | ⟨hs, -⟩
      · exact ⟨t, ht, hf t⟩
      · exact ⟨s, hs, rfl, rfl⟩
    refine { h with
      statusKeys := h.statusKeys.updateWhere fun s _ _ => (hf s).1
      statusReleases := fun s hs => ?_
      freshStatuses := fun s hs => ?_ }
    · obtain ⟨t, ht, -, hv⟩ := hrow s hs
      rw [hv]
      exact h.statusReleases t ht
    · obtain ⟨t, ht, hid, -⟩ := hrow s hs
      rw [hid]
      exact h.freshStatuses t ht
  · refine { h with
      statusKeys := h.statusKeys.append_new fun s hs => (h.freshStatuses s hs).ne
      statusReleases := fun s hs => ?_
      freshArtifacts := fun a ha => Nat.lt_succ_of_lt (h.freshArtifacts a ha)
      freshFiles := fun x hx => Nat.lt_succ_of_lt (h.freshFiles x hx)
      freshStatuses := fun s hs => ?_ }
    · rcases List.mem_append.mp hs with hs | hs
      · exact h.statusReleases s hs
      · rw [List.mem_singleton.mp hs]
        exact hrel
    · rcases List.mem_append.mp hs with hs | hs
      · exact Nat.lt_succ_of_lt (h.freshStatuses s hs)
      · rw [List.mem_singleton.mp hs]
        exact Nat.lt_succ_self _

theorem updateUploads (h : db.Constraints) {q : UploadVersion → Bool}
    {f : UploadVersion → UploadVersion} (hf : ∀ u, (f u).catalogId = u.catalogId) :
    ({ db with uploadVersions := Rows.updateWhere q f db.uploadVersions } : UploadDb).Constraints :=
  { h with uploadKeys := h.uploadKeys.updateWhere fun u _ _ => hf u }

end UploadDb.Constraints

/-! ### The programs -/

theorem checkReadonly_constraints (status : ReleaseStatus) :
    Keeps UploadDb.Constraints (checkReadonlyReleasePermission env status) := by
  intro db h
  obtain ⟨result, hrun, -⟩ := checkReadonlyReleasePermission_run env status db
  rw [hrun]
  exact h

theorem constraints_keptByRefresh : KeptByRefresh UploadDb.Constraints where
  releases := by
    intro db q f hf h
    apply h.updateReleases
    intro r _ _
    obtain ⟨hc, hp, hv, -⟩ := Release.details_inj (hf r)
    exact ⟨hc, hp, hv⟩
  missing := fun _ _ h => h.updateFiles fun _ => ⟨rfl, rfl⟩
  pending := fun _ _ h => { h with }

theorem refreshReleaseState_constraints (p : ℕ) (v : String) :
    Keeps UploadDb.Constraints (refreshReleaseState env p v) := constraints_keptByRefresh.refresh p v

theorem setReleaseStatus_constraints {c : String} {status : ReleaseStatus} (h : db.Constraints) :
    (setReleaseStatus c status db).Constraints :=
  h.updateReleases fun _ _ _ => ⟨rfl, rfl, rfl⟩

theorem maybeRestoreReleasedStatus_constraints (c : String) :
    Keeps UploadDb.Constraints (maybeRestoreReleasedStatus c) := constraints_keptByRefresh.maybeRestore c

theorem syncArtifact_constraints (recheck : List String) (a : SyncedArtifact) :
    Keeps UploadDb.Constraints (syncArtifact env recheck a) := by
  refine Keeps.bind (Keeps.gets _) fun stat => ?_
  cases stat with
  | none =>
      refine Keeps.ite (Keeps.bind (Keeps.modify fun db h => ?_) fun _ => ?_) (Keeps.pure _)
      · exact h.updateFiles fun x => ⟨rfl, rfl⟩
      · exact Keeps.bind (Keeps.when (Keeps.modify fun db h => setReleaseStatus_constraints h))
          fun _ => Keeps.pure _
  | some stored =>
      refine Keeps.ite (Keeps.bind (Keeps.modify fun db h => ?_) fun _ => ?_) (Keeps.pure _)
      · exact h.updateFiles fun x => ⟨rfl, rfl⟩
      · exact Keeps.ite (Keeps.pure _) (Keeps.pure _)

theorem syncArtifactsStorageStatus_constraints :
    Keeps UploadDb.Constraints (syncArtifactsStorageStatus env) := by
  refine Keeps.bind (Keeps.gets _) fun relevant => Keeps.forEach fun batch _ => ?_
  refine Keeps.bind (Keeps.foldEach (fun recheck a _ => ?_) []) fun recheck => ?_
  · exact syncArtifact_constraints recheck a
  · exact Keeps.forEach fun c _ => maybeRestoreReleasedStatus_constraints c

theorem saveRelations_constraints {dto : SetReleaseDto} {isNew : Bool}
    {dependencies : Option (List Release)} {catalogId : String} (h : db.Constraints)
    (hkey : ∃ r ∈ db.releases, r.catalogId = catalogId)
    (hdeps : ∀ entities ∈ dependencies, ∀ e ∈ entities, ∃ r ∈ db.releases,
      r.catalogId = e.catalogId) :
    (saveRelations dto isNew dependencies catalogId db).2.Constraints := by
  have hsaved : ∃ s, s.Constraints ∧ s.releases = db.releases ∧
      saveRelations dto isNew dependencies catalogId db = (do
        when isNew (modify (linkDefaultRuleToRelease catalogId))
        modify (updateTotalSize dto.projectId dto.version) : UploadProg Unit) s := by
    cases dependencies with
    | none => exact ⟨db, h, rfl, rfl⟩
    | some entities => exact ⟨_, h.saveDependencies hkey (hdeps entities rfl), rfl, rfl⟩
  obtain ⟨s, hs, hreleases, hrun⟩ := hsaved
  rw [hrun]
  cases isNew with
  | false => exact hs.updateTotalSize _ _
  | true =>
      have hlink : (linkDefaultRuleToRelease catalogId s).Constraints :=
        hs.linkDefaultRule (hreleases ▸ hkey)
      exact hlink.updateTotalSize _ _

theorem storeRelease_constraints (dto : SetReleaseDto) :
    Keeps UploadDb.Constraints (storeRelease env dto) := by
  intro db h
  have hstored := storeRelease_stored env dto db
  generalize storeRelease env dto db = result at hstored ⊢
  cases hstored with
  | refused e => exact h
  | inserted row inserted rows dependencies hfind hrow hins hdeps =>
      obtain ⟨hrows, hkey⟩ := h.insertRelease hins
      refine saveRelations_constraints hrows hkey fun entities hsome e he => ?_
      have hmem := hdeps entities hsome e he
      obtain ⟨-, -, heq⟩ := insertRelease_some hins
      have hkeys : e.catalogId ∈ rows.map Release.catalogId := by
        have hin : e.catalogId ∈ (db.releases ++ [inserted]).map Release.catalogId :=
          List.mem_map_of_mem (List.mem_append_left _ hmem)
        rw [heq, ReleaseSubscriber.afterInsert_catalogIds]
        exact hin
      exact List.mem_map.mp hkeys
  | changed r row dependencies hfind hedit hrow hdeps =>
      obtain ⟨name, required, rfl⟩ := hrow
      obtain ⟨hr, hp, hv⟩ := UploadDb.findRelease_some hfind
      have hupdate : (updateReleases (fun x => x.catalogId == r.catalogId)
          (fun _ => changedRelease env dto name false required r) db).Constraints := by
        apply h.updateReleases
        intro x hx hkey
        have heq : x = r := h.releaseKeys.eq_of_mem hx hr (by simpa using hkey)
        rw [heq]
        exact ⟨rfl, rfl, rfl⟩
      have hmem : ∀ e ∈ db.releases, ∃ x ∈ (updateReleases (fun x => x.catalogId == r.catalogId)
          (fun _ => changedRelease env dto name false required r) db).releases,
          x.catalogId = e.catalogId := by
        intro e he
        by_cases hkey : e.catalogId = r.catalogId
        · exact ⟨_, Rows.mem_updateWhere.mpr (.inl ⟨e, he, by simpa using hkey, rfl⟩), hkey.symm⟩
        · exact ⟨e, Rows.mem_updateWhere.mpr (.inr ⟨he, by simpa using hkey⟩), rfl⟩
      exact saveRelations_constraints hupdate (hmem r hr) fun entities hsome e he =>
        hmem e (hdeps entities hsome e he)

/-! ### Artifacts -/

/-- The file upload of a request is there after it was written. -/
theorem upsertFileUpload_constraints (fileName userId objectKey bucketName : String)
    (h : db.Constraints) :
    (upsertFileUpload fileName userId objectKey bucketName db).2.Constraints ∧
      ∃ x ∈ (upsertFileUpload fileName userId objectKey bucketName db).2.fileUploads,
        x.id = (upsertFileUpload fileName userId objectKey bucketName db).1 := by
  unfold upsertFileUpload
  cases hfind : Rows.findKey FileUpload.objectKey objectKey db.fileUploads with
  | some file =>
      obtain ⟨hmem, hkey⟩ := Rows.findKey_some hfind
      refine ⟨h.updateFiles fun x => ⟨rfl, rfl⟩, _, Rows.mem_updateWhere.mpr
        (.inl ⟨file, hmem, by simpa using hkey, rfl⟩), rfl⟩
  | none =>
      refine ⟨h.appendFile rfl fun y hy heq => ?_, _, List.mem_append_right _
        (List.mem_singleton.mpr rfl), rfl⟩
      have hno := List.find?_eq_none.mp hfind y hy
      apply hno
      rw [show y.objectKey = objectKey from heq]
      simp

theorem fileStep_constraints (dto : SetReleaseArtifactDto) (h : db.Constraints) :
    (fileStep env dto db).2.Constraints ∧ (fileStep env dto db).2.releases = db.releases ∧
      (fileStep env dto db).2.artifacts = db.artifacts ∧
      (∀ id, (fileStep env dto db).1 = some id →
        ∃ x ∈ (fileStep env dto db).2.fileUploads, x.id = id) ∧
      (dto.type = .file → (fileStep env dto db).1 ≠ none) := by
  have hrows : ∀ fileName userId objectKey bucketName,
      (upsertFileUpload fileName userId objectKey bucketName db).2.releases = db.releases ∧
        (upsertFileUpload fileName userId objectKey bucketName db).2.artifacts = db.artifacts := by
    intro fileName userId objectKey bucketName
    unfold upsertFileUpload
    split <;> exact ⟨rfl, rfl⟩
  unfold fileStep
  cases htype : dto.type with
  | file =>
      obtain ⟨hkeeps, hthere⟩ := upsertFileUpload_constraints dto.artifactName "release"
        (createObjectKey "release" s!"{dto.projectId}/{dto.version}" dto.artifactName)
        env.bucketName h
      refine ⟨hkeeps, (hrows _ _ _ _).1, (hrows _ _ _ _).2, fun id hid => ?_, fun _ => by simp⟩
      rw [← Option.some.inj hid]
      exact hthere
  | dockerImage | rpm | deb =>
      exact ⟨h, rfl, rfl, by simp, by simp⟩

theorem artifactRow_spec (dto : SetReleaseArtifactDto) (fileUploadId : Option ℕ)
    (a : ReleaseArtifact) :
    (artifactRow dto fileUploadId a).id = a.id ∧
      (artifactRow dto fileUploadId a).releaseId = a.releaseId ∧
      (artifactRow dto fileUploadId a).type = dto.type ∧
      (artifactRow dto fileUploadId a).isInstallationFile = dto.isInstallationFile ∧
      (artifactRow dto fileUploadId a).fileUploadId =
        if dto.type = .file then fileUploadId else a.fileUploadId := by
  unfold artifactRow typeColumns changedArtifact
  cases htype : dto.type <;> simp

theorem Upserted.constraints {dto : SetReleaseArtifactDto} {catalogId : String}
    {fileUploadId : Option ℕ} {db' : UploadDb} (hups : Upserted dto catalogId fileUploadId db db')
    (h : db.Constraints) (hkey : ∃ r ∈ db.releases, r.catalogId = catalogId)
    (hthere : ∀ id, fileUploadId = some id → ∃ x ∈ db.fileUploads, x.id = id)
    (hfile : dto.type = .file → fileUploadId ≠ none) : db'.Constraints := by
  cases hups with
  | taken => exact h
  | existing a ha hsame =>
      apply h.updateArtifacts
      intro b _ hb
      obtain ⟨h₁, h₂, h₃, -, h₅⟩ := artifactRow_spec dto fileUploadId b
      obtain ⟨-, htype, hupload⟩ := isSameArtifact_spec hb
      refine ⟨h₁, h₂, h₃.trans htype.symm, ?_⟩
      rw [h₅]
      split
      · rename_i hdto
        exact (hupload hdto).symm
      · rfl
  | new hnone hfree =>
      obtain ⟨h₁, h₂, h₃, -, h₅⟩ := artifactRow_spec dto fileUploadId
        (newArtifact db.nextId catalogId)
      apply h.appendArtifact
      · exact h₁
      · rw [h₂]
        exact hkey
      · intro htype
        rw [h₃] at htype
        rw [h₅, if_pos htype]
        exact hfile htype
      · intro id hid
        rw [h₅] at hid
        split at hid
        · exact ⟨hfree id hid, hthere id hid⟩
        · cases hid

theorem setReleaseArtifact_constraints (dto : SetReleaseArtifactDto) :
    Keeps UploadDb.Constraints (setReleaseArtifact env dto) := by
  intro db h
  have hset := setReleaseArtifact_set env dto db
  generalize (setReleaseArtifact env dto db).2 = db' at hset
  obtain ⟨hfile, hreleases, -, hthere, hsome⟩ := @fileStep_constraints env db dto h
  cases hset with
  | refused => exact h
  | fileOnly r hfind hedit => exact hfile
  | set r db' hfind hedit hups =>
      have hkey : ∃ x ∈ (fileStep env dto db).2.releases, x.catalogId = r.catalogId :=
        ⟨r, hreleases ▸ (UploadDb.findRelease_some hfind).1, rfl⟩
      have hdb' := (hups.constraints hfile hkey hthere hsome).updateTotalSize dto.projectId
        dto.version
      split
      · exact hdb'
      · exact { hdb' with }

theorem onFileChange_constraints (key : Option String) :
    Keeps UploadDb.Constraints (onFileChange key) := by
  intro db h
  have hchanged := onFileChange_changed key db
  generalize (onFileChange key db).2 = db' at hchanged
  cases hchanged with
  | ignored hnone => exact h
  | seen r hfind => exact { h.updateTotalSize r.projectId r.version with }
  | seenError r hfind herror => exact { h.updateTotalSize r.projectId r.version with }

theorem removeFile_constraints (id : ℕ) : Keeps UploadDb.Constraints (removeFile env id) := by
  refine Keeps.bind (Keeps.gets _) fun found => ?_
  cases found with
  | none => exact Keeps.pure _
  | some file =>
      refine Keeps.bind (Keeps.when (Keeps.modify fun db h => { h with })) fun _ => ?_
      exact Keeps.modify fun db h => h.updateFiles fun x => ⟨rfl, rfl⟩

/-- Nothing that `removeFile` writes concerns the artifacts. -/
theorem removeFile_artifacts (id : ℕ) : Frames UploadDb.artifacts (removeFile env id) := by
  refine fun rows => Keeps.bind (Keeps.gets _) fun found => ?_
  cases found with
  | none => exact Keeps.pure _
  | some file =>
      exact Keeps.bind (Keeps.when (Keeps.modify fun db h => h)) fun _ => Keeps.modify fun db h => h

theorem removeArtifact_constraints {a : ReleaseArtifact} (h : db.Constraints)
    (ha : a ∈ db.artifacts) : (removeArtifact env a db).2.Constraints := by
  unfold removeArtifact
  cases htype : a.type with
  | file =>
      cases hfile : a.fileUploadId with
      | none => exact h
      | some fileId =>
          show ((removeFile env fileId >>= _) db).2.Constraints
          rw [bind_run_ok (Prod.ext (removeFile_ok env fileId db) rfl)]
          have hremoved := @removeFile_constraints env fileId db h
          have hrows := (@removeFile_artifacts env fileId).eq db
          have hdeleted := hremoved.deleteArtifacts fun b => b.id == a.id
          apply hdeleted.deleteFile
          intro b hb hbfile
          obtain ⟨hb, hother⟩ := Rows.mem_deleteWhere.mp hb
          rw [hrows] at hb
          have heq : b = a := h.artifactFiles b hb a ha fileId hbfile hfile
          simp [heq] at hother
  | dockerImage | rpm | deb =>
      cases hfile : a.fileUploadId with
      | none => exact h.deleteArtifacts _
      | some fileId =>
          show ((onFileChange none >>= _) db).2.Constraints
          rw [bind_run_ok (Prod.ext (onFileChange_ok none db) rfl)]
          exact (onFileChange_constraints none db h).deleteArtifacts _

theorem deleteReleaseArtifact_constraints (p : ℕ) (v : String) (id : ℕ) (skip : Bool) :
    Keeps UploadDb.Constraints (deleteReleaseArtifact env p v id skip) := by
  intro db h
  unfold deleteReleaseArtifact
  rw [gets_bind_run]
  cases hfind : findArtifact db p v id with
  | none => exact h
  | some found =>
      obtain ⟨a, status⟩ := found
      have hremove := @removeArtifact_constraints env db a h (findArtifact_some hfind).1
      have hdone : ((removeArtifact env a >>= fun _ => pure "Release Artifact deleted") db).2.Constraints :=
        Keeps.bind_after hremove fun _ => Keeps.pure _
      cases skip with
      | true => exact hdone
      | false =>
          show ((checkReadonlyReleasePermission env status >>= _) db).2.Constraints
          rw [checkReadonlyReleasePermission_bind]
          split
          · exact h
          · exact hdone

theorem updateFileMetadata_constraints (dto : UpdateFilePropertiesDto) :
    Keeps UploadDb.Constraints (updateFileMetadata env dto) := by
  refine Keeps.bind (Keeps.gets _) fun found => ?_
  cases found with
  | none => exact Keeps.throw _
  | some artifact =>
      refine Keeps.bind (Keeps.gets _) fun found => ?_
      cases found with
      | none => exact Keeps.throw _
      | some release =>
          refine Keeps.bind (checkReadonly_constraints _) fun _ => ?_
          refine Keeps.ite (Keeps.modify fun db h => ?_) (Keeps.throw _)
          exact h.updateArtifacts fun a _ _ => ⟨rfl, rfl, rfl, rfl⟩

/-! ### Regulation statuses -/

theorem getVersionRegulationStatus_constraints (params : RegulationStatusParams) :
    Keeps UploadDb.Constraints (getVersionRegulationStatus params) := by
  refine Keeps.bind (Keeps.gets _) fun found => ?_
  cases found with
  | none => exact Keeps.throw _
  | some dto => exact Keeps.pure _

/-- A status of the release that was found. -/
theorem keeps_statusWrite {params : RegulationStatusParams} {α : Type}
    {k : Regulation × Release → UploadProg α}
    (hk : ∀ g r, ∀ db : UploadDb, db.Constraints → r ∈ db.releases →
      (k (g, r) db).2.Constraints) :
    Keeps UploadDb.Constraints (getRegulationAndRelease params >>= k) := by
  intro db h
  obtain ⟨hsame, hfound⟩ := getRegulationAndRelease_run params db
  rcases hrun : getRegulationAndRelease params db with ⟨result, db'⟩
  rw [hrun] at hsame hfound
  obtain rfl : db' = db := hsame
  cases result with
  | error e =>
      rw [bind_run_error hrun]
      exact h
  | ok found =>
      rw [bind_run_ok hrun]
      exact hk found.1 found.2 db' h (UploadDb.findRelease_some (hfound found.1 found.2 rfl)).1

theorem setRegulationStatus_constraints (params : RegulationStatusParams) (value : String)
    (reportDetails : Option String) :
    Keeps UploadDb.Constraints (setRegulationStatus env params value reportDetails) := by
  refine keeps_statusWrite fun g r db h hr => ?_
  refine Keeps.bind_to (I := fun s => s = db) (fun s hs => hs) (fun s hs => hs ▸ h) ?_ rfl
  rintro isCompliant s rfl
  show (getVersionRegulationStatus params _).2.Constraints
  apply getVersionRegulationStatus_constraints
  exact h.upsertStatus ⟨r, hr, rfl⟩ fun _ => ⟨rfl, rfl⟩

theorem setComplianceStatus_constraints (params : RegulationStatusParams) (isCompliant : Bool) :
    Keeps UploadDb.Constraints (setComplianceStatus params isCompliant) := by
  refine keeps_statusWrite fun g r db h hr => ?_
  show (getVersionRegulationStatus params _).2.Constraints
  apply getVersionRegulationStatus_constraints
  exact h.upsertStatus ⟨r, hr, rfl⟩ fun _ => ⟨rfl, rfl⟩

theorem deleteVersionRegulationStatus_constraints (p : ℕ) (v : String)
    (regulation : Option String) :
    Keeps UploadDb.Constraints (deleteVersionRegulationStatus p v regulation) := by
  refine Keeps.bind (Keeps.gets _) fun found => ?_
  cases found with
  | none => exact Keeps.throw _
  | some status =>
      exact Keeps.bind (Keeps.modify fun db h => h.deleteStatuses _) fun _ => Keeps.pure _

/-! ### Component uploads -/

theorem updateUploadStatus_constraints (dto : UpdateUploadStatusDto) :
    Keeps UploadDb.Constraints (updateUploadStatus dto) := by
  refine Keeps.bind (Keeps.gets _) fun affected => Keeps.ite ?_ (Keeps.throw _)
  refine Keeps.bind (Keeps.modify fun db h => h.updateUploads fun _ => rfl) fun _ => ?_
  refine Keeps.bind (Keeps.gets _) fun found => ?_
  cases found with
  | none => exact Keeps.pure _
  | some base =>
      refine Keeps.bind (Keeps.modify fun db h => h.updateUploads fun _ => rfl) fun _ => ?_
      refine Keeps.modify fun db h => ?_
      show UploadDb.Constraints { db with uploadVersions := markLatest base db.uploadVersions }
      unfold markLatest
      split
      · exact h
      · exact h.updateUploads fun _ => rfl

/-! ### Deleting releases -/

theorem deleteContents_constraints (p : ℕ) (v : String) (loaded : LoadedRelease) :
    Keeps UploadDb.Constraints (deleteContents env p v loaded) := by
  refine Keeps.bind (Keeps.gets _) fun statuses => Keeps.bind ?_ fun _ => ?_
  · exact Keeps.forEach fun s _ => keeps_logged (deleteVersionRegulationStatus_constraints p v _)
  · exact Keeps.forEach fun a _ => keeps_logged (deleteReleaseArtifact_constraints p v _ true)

theorem deleteRelease_constraints (params : ReleaseParams) :
    Keeps UploadDb.Constraints (deleteRelease env params) := by
  refine Keeps.bind (keeps_of_reads fun db => getRelease_reads _ _ _) fun found => ?_
  obtain ⟨projectId, loaded⟩ := found
  refine Keeps.bind (Keeps.ite (Keeps.pure _) (Keeps.throw _)) fun _ => ?_
  refine Keeps.bind (deleteContents_constraints _ _ _) fun _ => Keeps.bind (Keeps.gets _) fun ids => ?_
  refine Keeps.bind (fun db h => h.deleteRelease _) fun _ => ?_
  exact Keeps.bind (Keeps.modify fun db h => { h with }) fun _ => Keeps.pure _

theorem setRelease_constraints (dto : SetReleaseDto) :
    Keeps UploadDb.Constraints (setRelease env dto) := by
  refine Keeps.bind (storeRelease_constraints dto) fun _ => Keeps.bind ?_ fun _ => ?_
  · refine Keeps.ite (Keeps.modify fun db h => ?_) (refreshReleaseState_constraints _ _)
    exact h.updateReleases fun _ _ _ => ⟨rfl, rfl, rfl⟩
  · exact Keeps.bind (keeps_of_reads fun db => getRelease_reads _ _ _) fun _ => Keeps.pure _

theorem handle_constraints (projectIdentifier : Option Identifier) (projectId : ℕ)
    (body : GuardedBody) :
    Keeps UploadDb.Constraints (body.handle env projectIdentifier projectId) := by
  have hstart : ∀ v, Keeps UploadDb.Constraints
      (modify (start (.refreshReleaseState projectId v)) : UploadProg Unit) :=
    fun v => Keeps.modify fun db h => { h with }
  cases body with
  | updateFileMetadata dto => exact updateFileMetadata_constraints _
  | updateUploadStatus dto => exact updateUploadStatus_constraints _
  | setRelease dto => exact Keeps.bind (setRelease_constraints _) fun _ => Keeps.pure _
  | setReleaseArtifact dto => exact Keeps.bind (setReleaseArtifact_constraints _) fun _ => Keeps.pure _
  | deleteReleaseArtifact v id =>
      exact Keeps.bind (deleteReleaseArtifact_constraints _ _ _ _) fun _ => Keeps.pure _
  | deleteRelease v =>
      refine Keeps.bind (deleteRelease_constraints _) fun id => Keeps.modify fun db h => ?_
      exact h.updateReleases fun _ _ _ => ⟨rfl, rfl, rfl⟩
  | setRegulationStatus v regulation value details =>
      exact Keeps.bind (setRegulationStatus_constraints _ _ _) fun _ => hstart v
  | setComplianceStatus v regulation isCompliant =>
      exact Keeps.bind (setComplianceStatus_constraints _ _) fun _ => hstart v
  | deleteVersionRegulationStatus v regulation =>
      exact Keeps.bind (deleteVersionRegulationStatus_constraints _ _ _) fun _ => hstart v

theorem deleteProjectReleases_constraints (p : ℕ) :
    Keeps UploadDb.Constraints (deleteProjectReleases env p) := by
  refine Keeps.bind (Keeps.gets _) fun releases => ?_
  refine Keeps.bind (Keeps.when (Keeps.modify fun db h => ?_)) fun _ => ?_
  · exact h.dependencies fun d hd => .inl (Rows.mem_deleteWhere.mp hd).1
  · exact Keeps.forEach fun r _ => keeps_logged (deleteRelease_constraints _)

/-! ### Imports -/

theorem importDockerImage_constraints {catalogId : String} (image : ImportDockerImageDto)
    (h : db.Constraints) (hkey : ∃ r ∈ db.releases, r.catalogId = catalogId) :
    (importDockerImage catalogId image db).2.Constraints ∧
      (importDockerImage catalogId image db).2.releases = db.releases := by
  unfold importDockerImage
  split
  · exact ⟨h, rfl⟩
  · refine ⟨h.appendArtifact rfl hkey (fun hno => ?_) (fun id hid => ?_), rfl⟩
    · cases hno
    · cases hid

/-- The images of an import, once its release is there. -/
theorem importDockerImages_run (catalogId : String) (images : List ImportDockerImageDto)
    (h : db.Constraints) (hkey : ∃ r ∈ db.releases, r.catalogId = catalogId) :
    ∃ s, forEach (fun image => tryCatch (importDockerImage catalogId image) fun _ => pure ()) images
        db = (.ok (), s) ∧ s.Constraints ∧ s.releases = db.releases := by
  have hstep : ∀ (done : List ImportDockerImageDto) (image : ImportDockerImageDto) (s : UploadDb),
      image ∈ images → (s.Constraints ∧ s.releases = db.releases) →
      ∃ s', (tryCatch (importDockerImage catalogId image) fun _ => pure ()) s = (.ok (), s') ∧
        s'.Constraints ∧ s'.releases = db.releases := by
    rintro done image s - ⟨hs, hrows⟩
    obtain ⟨hc, hr⟩ := importDockerImage_constraints image hs (hrows ▸ hkey)
    refine ⟨(importDockerImage catalogId image s).2, ?_, hc, hr.trans hrows⟩
    unfold Prog.tryCatch
    rcases importDockerImage catalogId image s with ⟨result, s'⟩
    cases result <;> rfl
  exact Prog.forEach_run (I := fun _ (s : UploadDb) => s.Constraints ∧ s.releases = db.releases)
    hstep [] ⟨h, rfl⟩

/-- An import is refused, or inserts a row, writes what belongs to it, and looks at it. -/
theorem importReleaseInto_ends (dto : ImportReleaseDto) (p : ℕ) (h : db.Constraints) :
    (∃ e, importReleaseInto env dto p db = (.error e, db)) ∨
    db.findRelease p dto.version = none ∧ ∃ (inserted : Release) (rows : List Release) (s : UploadDb),
      insertRelease env.semver db.projects (importedRelease dto p (regulationsOf db p).length)
        db.releases = some (inserted, rows) ∧
      s.Constraints ∧ s.releases = rows ∧
      importReleaseInto env dto p db = refreshReleaseState env p dto.version s := by
  unfold importReleaseInto
  rw [gets_bind_run]
  cases hfind : db.findRelease p dto.version with
  | some r => exact .inl ⟨_, rfl⟩
  | none =>
      obtain ⟨hsame, hdeps⟩ := importedDependencies_run dto p db
      rcases hrun : importedDependencies dto p db with ⟨result, db'⟩
      rw [hrun] at hsame hdeps
      obtain rfl : db' = db := hsame
      cases result with
      | error e => exact .inl ⟨e, bind_run_error hrun _⟩
      | ok deps =>
          have hsave := saveRelease_new env (importedRelease dto p (regulationsOf db' p).length) db'
          cases hins : insertRelease env.semver db'.projects
              (importedRelease dto p (regulationsOf db' p).length) db'.releases with
          | none =>
              rw [hins] at hsave
              exact .inl ⟨_, (bind_run_ok hrun _).trans (bind_run_error hsave _)⟩
          | some saved =>
              obtain ⟨inserted, rows⟩ := saved
              rw [hins] at hsave
              obtain ⟨hrows, hkey⟩ := h.insertRelease hins
              have hthere : ∀ e ∈ db'.releases, ∃ r ∈ rows, r.catalogId = e.catalogId := by
                intro e he
                obtain ⟨-, -, heq⟩ := insertRelease_some hins
                have hin : e.catalogId ∈ (db'.releases ++ [inserted]).map Release.catalogId :=
                  List.mem_map_of_mem (List.mem_append_left _ he)
                rw [← ReleaseSubscriber.afterInsert_catalogIds env.semver inserted, ← heq] at hin
                exact List.mem_map.mp hin
              -- from here on the release is there, whatever the images do
              have hrest : ∀ s : UploadDb, s.Constraints → s.releases = rows →
                  ∃ s', s'.Constraints ∧ s'.releases = rows ∧ (do
                    modify (linkDefaultRuleToRelease inserted.catalogId)
                    forEach (fun image => tryCatch (importDockerImage inserted.catalogId image)
                      fun _ => pure ()) dto.dockerImages
                    refreshReleaseState env p dto.version : UploadProg Unit) s =
                      refreshReleaseState env p dto.version s' := by
                intro s hs hr
                have hlink := @UploadDb.Constraints.linkDefaultRule s hs inserted.catalogId (hr ▸ hkey)
                have hlinked : (linkDefaultRuleToRelease inserted.catalogId s).releases = rows := by
                  rw [← hr]
                  unfold linkDefaultRuleToRelease
                  split <;> rfl
                obtain ⟨s', himages, hs', hr'⟩ :=
                  importDockerImages_run inserted.catalogId dto.dockerImages hlink (hlinked ▸ hkey)
                refine ⟨s', hs', hr'.trans hlinked, ?_⟩
                rw [modify_bind_run, bind_run_ok himages]
              cases deps with
              | none =>
                  obtain ⟨s', hs', hr', hrun'⟩ := hrest { db' with releases := rows } hrows rfl
                  refine .inr ⟨rfl, inserted, rows, s', rfl, hs', hr', ?_⟩
                  rw [← hrun']
                  exact (bind_run_ok hrun _).trans (bind_run_ok hsave _)
              | some entities =>
                  obtain ⟨s', hs', hr', hrun'⟩ := hrest
                    (saveDependencies inserted.catalogId entities { db' with releases := rows })
                    (hrows.saveDependencies hkey fun e he => hthere e (hdeps _ rfl entities rfl e he))
                    rfl
                  refine .inr ⟨rfl, inserted, rows, s', rfl, hs', hr', ?_⟩
                  rw [← hrun']
                  exact (bind_run_ok hrun _).trans (bind_run_ok hsave _)

theorem importReleaseInto_constraints (dto : ImportReleaseDto) (p : ℕ) :
    Keeps UploadDb.Constraints (importReleaseInto env dto p) := by
  intro db h
  rcases @importReleaseInto_ends env db dto p h with ⟨e, hrun⟩ | ⟨-, _, _, s, -, hs, -, hrun⟩
  · rw [hrun]
    exact h
  · rw [hrun]
    exact refreshReleaseState_constraints p dto.version s hs

theorem importRelease_constraints (dto : ImportReleaseDto) :
    Keeps UploadDb.Constraints (importRelease env dto) :=
  Keeps.bind (keeps_of_reads fun _ => resolveProject_reads _ _) fun p =>
    importReleaseInto_constraints dto p

theorem uploadFileFromUrl_constraints (id : ℕ) (fileName objectKey bucketName : String)
    (download : Option Download) (expected : Option String) :
    Keeps UploadDb.Constraints
      (uploadFileFromUrl id fileName objectKey bucketName download expected) := by
  have hfile : ∀ f : FileUpload → FileUpload, (∀ x, (f x).id = x.id ∧ (f x).objectKey = x.objectKey) →
      Keeps UploadDb.Constraints (modify (updateFileUpload id f) : UploadProg Unit) :=
    fun f hf => Keeps.modify fun _ h => h.updateFiles hf
  refine Keeps.bind (hfile _ fun _ => ⟨rfl, rfl⟩) fun _ => ?_
  have hfailed : ∀ message, Keeps UploadDb.Constraints (uploadFailed id fileName message) :=
    fun message => Keeps.bind (hfile _ fun _ => ⟨rfl, rfl⟩) fun _ => Keeps.throw _
  cases download with
  | none => exact hfailed _
  | some content =>
      refine Keeps.ite (Keeps.bind (Keeps.modify fun _ h => { h with }) fun _ =>
        Keeps.bind (hfile _ fun _ => ⟨rfl, rfl⟩) fun _ => hfailed _) ?_
      refine Keeps.bind (Keeps.modify fun _ h => { h with }) fun _ => ?_
      exact hfile _ fun _ => ⟨rfl, rfl⟩

theorem importArtifact_constraints (p : ℕ) (v : String) (downloads : String → Option Download)
    (artifact : ImportArtifactDto) :
    Keeps UploadDb.Constraints (importArtifact env p v downloads artifact) := by
  intro db h
  set objectKey := createObjectKey "release" s!"{p}/{v}" artifact.name with hkey
  show ((saveNewFile artifact.name objectKey env.bucketName >>= _) db).2.Constraints
  by_cases htaken : (db.fileUploads.any fun f => f.objectKey == objectKey) = true
  · have hrun : saveNewFile artifact.name objectKey env.bucketName db =
        (.error (.queryFailed "duplicate key value violates unique constraint"), db) :=
      if_pos htaken
    rw [bind_run_error hrun]
    exact h
  · have hrun : saveNewFile artifact.name objectKey env.bucketName db = (.ok db.nextId, { db with
        fileUploads := db.fileUploads ++
          [newFileUpload db.nextId artifact.name "release" objectKey env.bucketName]
        nextId := db.nextId + 1 }) := if_neg htaken
    rw [bind_run_ok hrun]
    have hfile := h.appendFile
      (x := newFileUpload db.nextId artifact.name "release" objectKey env.bucketName) rfl
      fun y hy heq => htaken (List.any_eq_true.mpr
        ⟨y, hy, beq_iff_eq.mpr (show y.objectKey = objectKey from heq)⟩)
    refine Keeps.bind_after ?_ fun _ => uploadFileFromUrl_constraints _ _ _ _ _ _
    unfold saveImportedArtifact
    cases hfind : UploadDb.findRelease { db with
        fileUploads := db.fileUploads ++
          [newFileUpload db.nextId artifact.name "release" objectKey env.bucketName]
        nextId := db.nextId + 1 } p v with
    | none => exact hfile
    | some release =>
        apply hfile.appendArtifact
        · rfl
        · exact ⟨release, (UploadDb.findRelease_some hfind).1, rfl⟩
        · exact fun _ => Option.some_ne_none _
        · intro id hid
          obtain rfl : db.nextId = id := Option.some.inj hid
          refine ⟨fun b hb hbid => ?_, _, List.mem_append_right _ (List.mem_singleton.mpr rfl), rfl⟩
          obtain ⟨x, hx, hxid⟩ := h.artifactUploads b hb _ hbid
          exact (h.freshFiles x hx).ne hxid

theorem tryImportArtifact_constraints (p : ℕ) (v : String) (downloads : String → Option Download)
    (allCame : Bool) (artifact : ImportArtifactDto) :
    Keeps UploadDb.Constraints (tryImportArtifact env p v downloads allCame artifact) := by
  refine Keeps.tryCatch (Keeps.bind (importArtifact_constraints p v downloads artifact)
    fun _ => Keeps.pure _) fun _ => Keeps.bind (Keeps.modify fun _ h => ?_) fun _ => Keeps.pure _
  exact h.updateFiles fun _ => ⟨rfl, rfl⟩

theorem releaseImported_constraints (h : db.Constraints) (p : ℕ) (v : String) :
    (releaseImported p v db).Constraints := by
  have hrelease : (promote p v db).Constraints := h.updateReleases fun _ _ _ => ⟨rfl, rfl, rfl⟩
  exact hrelease.updateReleases fun _ _ _ => ⟨rfl, rfl, rfl⟩

theorem importArtifactsInBackground_constraints (p : ℕ) (v : String)
    (artifacts : List ImportArtifactDto) (downloads : String → Option Download) :
    Keeps UploadDb.Constraints (importArtifactsInBackground env p v artifacts downloads) := by
  refine Keeps.ite (Keeps.pure _) ?_
  refine Keeps.bind (Keeps.foldEach (fun allCame artifact _ => ?_) true) fun allSucceeded => ?_
  · exact tryImportArtifact_constraints p v downloads allCame artifact
  · refine Keeps.ite (Keeps.bind (Keeps.modify fun db h => ?_) fun _ => ?_) (Keeps.pure _)
    · exact releaseImported_constraints h p v
    · exact refreshReleaseState_constraints p v

/-! ### Notifications -/

theorem updateUploadFile_constraints (file : UpdateFileUploadDto) :
    Keeps UploadDb.Constraints (updateUploadFile file) := by
  refine Keeps.bind (Keeps.gets _) fun found => ?_
  have hwrite : ∀ c, Keeps UploadDb.Constraints (do
      modify fun db => { db with
        fileUploads := Rows.updateWhere (fun f => f.objectKey == file.objectKey) (notified file)
          db.fileUploads }
      when c (onFileChange (some file.objectKey)) : UploadProg Unit) := by
    intro c
    refine Keeps.bind (Keeps.modify fun _ h => h.updateFiles fun _ => ⟨rfl, rfl⟩) fun _ => ?_
    exact Keeps.when (onFileChange_constraints _)
  cases found with
  | none =>
      cases file.status with
      | uploaded => exact Keeps.throw _
      | pending | uploading | removed | error => exact Keeps.pure _
  | some f =>
      cases file.status <;> exact hwrite _

theorem processAndSaveFile_constraints (objectKey : String) (calculateSha256 : Bool) :
    Keeps UploadDb.Constraints (processAndSaveFile env objectKey calculateSha256) := by
  refine Keeps.bind (Keeps.gets _) fun found => ?_
  cases found with
  | none => exact Keeps.pure _
  | some file =>
      refine Keeps.bind (Keeps.gets _) fun stat => ?_
      cases stat with
      | none => exact Keeps.throw _
      | some stored =>
          refine Keeps.bind (Keeps.modify fun _ h => h.updateFiles fun _ => ⟨rfl, rfl⟩) fun _ => ?_
          exact Keeps.when (onFileChange_constraints _)

theorem onProjectRegulationChanged_constraints (event : RegulationChangedEvent) :
    Keeps UploadDb.Constraints (onProjectRegulationChanged env event) := by
  unfold onProjectRegulationChanged
  cases event.type with
  | created =>
      refine Keeps.bind (Keeps.gets _) fun releases => Keeps.forEach fun r _ => ?_
      exact refreshReleaseState_constraints _ _
  | updated => exact Keeps.pure _
  | deleted =>
      refine Keeps.bind (Keeps.gets _) fun releases => Keeps.forEach fun r _ => ?_
      refine Keeps.bind (keeps_logged (deleteVersionRegulationStatus_constraints _ _ _)) fun _ => ?_
      refine Keeps.bind (Keeps.modify fun _ h => h.deleteStatuses _) fun _ => ?_
      exact refreshReleaseState_constraints _ _

/-! ### Events and runs -/

theorem call_constraints (call : ServiceCall) : Keeps UploadDb.Constraints (call.run env) := by
  cases call with
  | handle projectIdentifier projectId body => exact handle_constraints _ _ _
  | importRelease dto => exact importRelease_constraints dto
  | importArtifactsInBackground p v artifacts downloads =>
      exact importArtifactsInBackground_constraints _ _ _ _
  | archiveProjectReleases p =>
      exact Keeps.modify fun _ h => h.updateReleases fun _ _ _ => ⟨rfl, rfl, rfl⟩
  | restoreProjectReleases p =>
      refine Keeps.modify fun db h => ?_
      have hdraft := h.updateReleases (q := fun r => r.projectId == p && r.status == .archived)
        (f := fun r => { r with status := .draft }) fun _ _ _ => ⟨rfl, rfl, rfl⟩
      exact hdraft.updateReleases fun _ _ _ => ⟨rfl, rfl, rfl⟩
  | deleteProjectReleases p => exact deleteProjectReleases_constraints p
  | onProjectRegulationChanged event => exact onProjectRegulationChanged_constraints event
  | updateUploadFile file => exact updateUploadFile_constraints file
  | processAndSaveFile objectKey calculateSha256 => exact processAndSaveFile_constraints _ _
  | syncArtifactsStorageStatus => exact syncArtifactsStorageStatus_constraints
  | refreshReleaseState p v => exact refreshReleaseState_constraints p v
  | maybeRestoreReleasedStatus c => exact maybeRestoreReleasedStatus_constraints c

theorem runPending_constraints (h : db.Constraints) (i : ℕ) : (db.runPending env i).Constraints :=
  constraints_keptByRefresh.runPending h i

theorem step_constraints (h : db.Constraints) (e : ServiceEvent) : (db.step env e).Constraints := by
  cases e with
  | call caller call => exact call_constraints call db h
  | task i => exact runPending_constraints h i
  | storage objects => exact { h with }
  | clock now => exact { h with }

theorem run_constraints (h : db.Constraints) (es : List ServiceEvent) :
    (Runs.run (UploadDb.step env) db es).Constraints :=
  Runs.invariant_run (I := UploadDb.Constraints) (fun _ e hs => step_constraints hs e) h es

end UploadService
