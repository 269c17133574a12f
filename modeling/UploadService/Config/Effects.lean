import UploadService.Config.Frames

/-!
# What one config call can do to the revision table

`step_effect` is the inversion of the transition system: from a table with
distinct, used-up keys, one call leaves the revisions alone, opens a draft, drops
a draft, or publishes one. The facts about lifecycles and versions are read off
this list of cases and never unfold a handler again.
-/

namespace UploadService

open Prog

/-! ### Row operations -/

/-- A new DRAFT revision. -/
def draftRow (id projectId revisionNumber : ℕ) : ConfigRevision where
  id := id
  projectId := projectId
  revisionNumber := revisionNumber
  status := .draft
  appliedBy := none
  appliedAt := none
  semVer := none

def archiveRows (projectId : ℕ) (rows : List ConfigRevision) : List ConfigRevision :=
  Rows.updateWhere (fun r => r.projectId == projectId && r.status == .active)
    (fun r => { r with status := .archived }) rows

def setRow (row : ConfigRevision) (rows : List ConfigRevision) : List ConfigRevision :=
  Rows.updateWhere (fun r => r.id == row.id) (fun _ => row) rows

/-- The keys of the revisions are distinct and below the next key. -/
structure IdsOk (db : ConfigDb) : Prop where
  distinct : Rows.KeysDistinct ConfigRevision.id db.revisions
  used : ∀ r ∈ db.revisions, r.id < db.nextId

/-- The ACTIVE revision that a publication in the project would replace, with its groups. -/
def replaced (db : ConfigDb) (projectId : ℕ) : Option (ConfigRevision × List ConfigGroup) :=
  (db.findRevision projectId .active).map fun r => (r, db.groupsOf r.id)

/-! ### Effects -/

/-- `d` is the project's DRAFT in `rows`: the one that is there, or a new one. -/
inductive WithDraft (db : ConfigDb) (p : ℕ) : ConfigRevision → List ConfigRevision → Prop
  | found {d : ConfigRevision} (h : db.findRevision p .draft = some d) :
      WithDraft db p d db.revisions
  | opened (h : db.findRevision p .draft = none) :
      WithDraft db p (draftRow db.nextId p ((db.maxRevisionNumber p).getD 0 + 1))
        (db.revisions ++ [draftRow db.nextId p ((db.maxRevisionNumber p).getD 0 + 1)])

/-- After `db`, the project has the DRAFT `d` and nothing else happened to the revisions. -/
structure Ensured (db : ConfigDb) (p : ℕ) (d : ConfigRevision) (db' : ConfigDb) : Prop where
  draft : WithDraft db p d db'.revisions
  next : db.nextId ≤ db'.nextId
  used : d.id < db'.nextId
  bucket : db'.bucket = db.bucket

/-- The draft `d` became the ACTIVE revision `applied` with version `v`; with
`archived` the ACTIVE revisions of the project were archived first. At most the
cache object of `device` for `v` was written. -/
structure Published (db : ConfigDb) (p : ℕ) (archived : Bool) (device : Option String) (v : String)
    (d applied : ConfigRevision) (rows tail : List ConfigRevision) (db' : ConfigDb) : Prop where
  draft : WithDraft db p d rows
  row : ∃ who at', applied =
    { d with status := .active, semVer := some v, appliedBy := who, appliedAt := at' }
  revisions : db'.revisions = setRow applied (if archived then archiveRows p rows else rows) ++ tail
  tail : tail = [] ∨ ∃ id, tail = [draftRow id p (d.revisionNumber + 1)] ∧ db.nextId ≤ id ∧
    id ≠ d.id ∧ id < db'.nextId
  next : db.nextId ≤ db'.nextId
  used : d.id < db'.nextId
  version : if archived then ∃ groups, v = ConfigService.computeNextSemVer
      ((replaced db p).map (·.2)) groups ((replaced db p).bind (·.1.semVer))
    else v = ConfigService.initialSemVer
  bucket : ∀ k, device.map (ConfigService.versionedObjectKey · v) ≠ some k →
    ObjectMap.get? db'.bucket k = ObjectMap.get? db.bucket k

/-- What one call can do to the revisions. `target` is the project the call
publishes in, if it comes to that, `archived` says how it publishes, and `device`
whose cache object it may write. -/
inductive Effect (target : Option ℕ) (archived : Bool) (device : Option String)
    (db db' : ConfigDb) : Prop
  | still (h : db'.revisions = db.revisions) (hn : db.nextId ≤ db'.nextId)
      (hb : db'.bucket = db.bucket)
  | ensured (p : ℕ) (d : ConfigRevision) (h : Ensured db p d db')
  | dropped (d : ConfigRevision) (hd : d ∈ db.revisions) (hs : d.status = .draft)
      (h : db'.revisions = Rows.deleteWhere (fun r => r.id == d.id) db.revisions)
      (hn : db.nextId ≤ db'.nextId) (hb : db'.bucket = db.bucket)
  | published (p : ℕ) (hp : target = some p) (v : String) (d applied : ConfigRevision)
      (rows tail : List ConfigRevision)
      (h : Published db p archived device v d applied rows tail db')

namespace WithDraft

variable {db : ConfigDb} {p : ℕ} {d : ConfigRevision} {rows : List ConfigRevision}

theorem mem (h : WithDraft db p d rows) : d ∈ rows := by
  cases h with
  | found h => exact List.mem_of_find?_eq_some h
  | opened h => simp

theorem isDraft (h : WithDraft db p d rows) : d.projectId = p ∧ d.status = .draft := by
  cases h with
  | found h => simpa using List.find?_some h
  | opened h => exact ⟨rfl, rfl⟩

theorem distinct (hids : IdsOk db) (h : WithDraft db p d rows) :
    Rows.KeysDistinct ConfigRevision.id rows := by
  cases h with
  | found h => exact hids.distinct
  | opened h =>
      refine hids.distinct.append_new fun x hx => ?_
      have := hids.used x hx
      simp only [draftRow]
      omega

/-- Every other row was there before. -/
theorem mem_before (h : WithDraft db p d rows) {r : ConfigRevision} (hr : r ∈ rows) :
    r ∈ db.revisions ∨ r = d := by
  cases h with
  | found h => exact .inl hr
  | opened h => simpa using hr

theorem mem_after (h : WithDraft db p d rows) {r : ConfigRevision} (hr : r ∈ db.revisions) :
    r ∈ rows := by
  cases h with
  | found h => exact hr
  | opened h => exact List.mem_append_left _ hr

/-- The new draft is no ACTIVE revision, so the one to replace is the same. -/
theorem find_active (h : WithDraft db p d rows) (q : ℕ) :
    rows.find? (fun r => r.projectId == q && r.status == .active) = db.findRevision q .active := by
  cases h with
  | found h => rfl
  | opened h =>
      rw [List.find?_append]
      simp [ConfigDb.findRevision, draftRow]

/-- The draft is found by the query for the project's DRAFT. -/
theorem find_draft (h : WithDraft db p d rows) :
    rows.find? (fun r => r.projectId == p && r.status == .draft) = some d := by
  cases h with
  | found h => exact h
  | opened h =>
      rw [List.find?_append, show db.revisions.find? (fun r => r.projectId == p &&
        r.status == .draft) = none from h]
      simp [draftRow]

end WithDraft

/-- Distinct keys: an update of the row with the key of `d` is an update of `d`. -/
theorem updateWhere_eq_setRow {rows : List ConfigRevision} {d : ConfigRevision}
    (hids : Rows.KeysDistinct ConfigRevision.id rows) (hd : d ∈ rows)
    (f : ConfigRevision → ConfigRevision) (hf : (f d).id = d.id) :
    Rows.updateWhere (fun r => r.id == d.id) f rows = setRow (f d) rows := by
  unfold setRow Rows.updateWhere
  refine List.map_congr_left fun r hr => ?_
  rw [hf]
  by_cases h : r.id = d.id
  · rw [hids.eq_of_mem hr hd h]
  · simp [h]

theorem mem_archiveRows_of_ne_active {p : ℕ} {rows : List ConfigRevision} {d : ConfigRevision}
    (hd : d ∈ rows) (hs : d.status ≠ .active) : d ∈ archiveRows p rows := by
  refine Rows.mem_updateWhere.mpr (.inr ⟨hd, ?_⟩)
  simp [hs]

theorem archiveRows_distinct {p : ℕ} {rows : List ConfigRevision}
    (h : Rows.KeysDistinct ConfigRevision.id rows) :
    Rows.KeysDistinct ConfigRevision.id (archiveRows p rows) :=
  h.updateWhere fun _ _ _ => rfl

/-! ### Assertions that group and delivery writes keep -/

theorem ensured_groupWrites (db : ConfigDb) (p : ℕ) (d : ConfigRevision) :
    GroupWrites (Ensured db p d) where
  groups := fun _ _ h => ⟨h.draft, h.next, h.used, h.bucket⟩
  vault := fun _ _ h => ⟨h.draft, h.next, h.used, h.bucket⟩
  nextId := fun _ h => ⟨h.draft, Nat.le_succ_of_le h.next, Nat.lt_succ_of_lt h.used, h.bucket⟩

/-- The revisions and the bucket of `db`, with keys only drawn since. -/
structure Still (db db' : ConfigDb) : Prop where
  revisions : db'.revisions = db.revisions
  next : db.nextId ≤ db'.nextId
  bucket : db'.bucket = db.bucket

theorem Still.refl (db : ConfigDb) : Still db db := ⟨rfl, le_refl _, rfl⟩

theorem still_groupWrites (db : ConfigDb) : GroupWrites (Still db) where
  groups := fun _ _ h => ⟨h.revisions, h.next, h.bucket⟩
  vault := fun _ _ h => ⟨h.revisions, h.next, h.bucket⟩
  nextId := fun _ h => ⟨h.revisions, Nat.le_succ_of_le h.next, h.bucket⟩

theorem published_deliveryWrites (db : ConfigDb) (p : ℕ) (archived : Bool)
    (device : Option String) (v : String) (d applied : ConfigRevision)
    (rows tail : List ConfigRevision) :
    DeliveryWrites (device.map (ConfigService.versionedObjectKey · v))
      (Published db p archived device v d applied rows tail) where
  requests := fun _ _ h =>
    ⟨h.draft, h.row, h.revisions, h.tail, h.next, h.used, h.version, h.bucket⟩
  bucket := fun db' k payload hkey h => by
    refine ⟨h.draft, h.row, h.revisions, h.tail, h.next, h.used, h.version, fun j hj => ?_⟩
    have hne : j ≠ k := fun hjk => hj (hjk ▸ hkey)
    show ObjectMap.get? (ObjectMap.set db'.bucket k payload) j = _
    rw [ObjectMap.get?_set, if_neg hne]
    exact h.bucket j hj
  releases := fun _ _ h =>
    ⟨h.draft, h.row, h.revisions, h.tail, h.next, h.used, h.version, h.bucket⟩
  offerings := fun _ _ h =>
    ⟨h.draft, h.row, h.revisions, h.tail, h.next, h.used, h.version, h.bucket⟩

/-! ### The effect of each call -/

namespace ConfigService

variable {db : ConfigDb}

/-- The draft is found or opened; only the revisions and the key sequence move. -/
theorem getOrCreateDraftRevision_run (hids : IdsOk db) (p : ℕ) :
    ∃ d rows n, getOrCreateDraftRevision p db =
      (.ok d, { db with revisions := rows, nextId := n }) ∧
      Ensured db p d { db with revisions := rows, nextId := n } := by
  unfold getOrCreateDraftRevision
  rw [gets_bind_run]
  cases h : db.findRevision p .draft with
  | some d =>
      refine ⟨d, db.revisions, db.nextId, rfl, WithDraft.found h, le_refl _, ?_, rfl⟩
      exact hids.used d (List.mem_of_find?_eq_some h)
  | none =>
      refine ⟨_, _, _, rfl, WithDraft.opened h, ?_, ?_, rfl⟩
      · exact Nat.le_succ db.nextId
      · exact Nat.lt_succ_self db.nextId

/-- A program that starts with the project's draft and writes no revision after it. -/
theorem ensured_effect {α : Type} {target : Option ℕ} {archived : Bool} {device : Option String} (hids : IdsOk db) (p : ℕ)
    {rest : ConfigRevision → ConfigProg α}
    (hrest : ∀ d, Keeps (Ensured db p d) (rest d)) :
    Effect target archived device db ((getOrCreateDraftRevision p >>= rest) db).2 := by
  obtain ⟨d, rows, n, hrun, hens⟩ := getOrCreateDraftRevision_run hids p
  rw [bind_run_ok hrun]
  exact .ensured p d (hrest d _ hens)

theorem upsertGroup_effect {target : Option ℕ} {archived : Bool} {device : Option String} (hids : IdsOk db) (peers : Peers)
    (dto : UpsertConfigGroupDto) : Effect target archived device db (upsertGroup peers dto db).2 := by
  unfold upsertGroup
  rcases requireProject_run peers dto.projectIdentifier [.config, .configMap] db with
    ⟨e, he⟩ | ⟨project, -, hok⟩
  · rw [bind_run_error he]
    exact .still rfl (le_refl _) rfl
  · rw [bind_run_ok hok]
    exact ensured_effect hids project.id fun d =>
      editDraftGroup_keeps (ensured_groupWrites db project.id d) d.id dto

theorem deleteGroup_effect {target : Option ℕ} {archived : Bool} {device : Option String} (hids : IdsOk db) (peers : Peers)
    (dto : DeleteConfigGroupDto) : Effect target archived device db (deleteGroup peers dto db).2 := by
  unfold deleteGroup
  rcases requireProject_run peers dto.projectIdentifier [.config, .configMap] db with
    ⟨e, he⟩ | ⟨project, -, hok⟩
  · rw [bind_run_error he]
    exact .still rfl (le_refl _) rfl
  · rw [bind_run_ok hok]
    exact ensured_effect hids project.id fun d =>
      deleteDraftGroup_keeps (ensured_groupWrites db project.id d) d.id dto.groupName

theorem createDraftRevision_effect {target : Option ℕ} {archived : Bool} {device : Option String} (peers : Peers)
    (dto : ProjectIdentifierDto) :
    Effect target archived device db (createDraftRevision peers dto db).2 := by
  unfold createDraftRevision
  rcases requireProject_run peers dto.projectIdentifier [.config, .configMap] db with
    ⟨e, he⟩ | ⟨project, -, hok⟩
  · rw [bind_run_error he]
    exact .still rfl (le_refl _) rfl
  · rw [bind_run_ok hok, gets_bind_run, gets_bind_run]
    cases h : db.findRevision project.id .draft with
    | some existing => exact .still rfl (le_refl _) rfl
    | none =>
        let opened := draftRow db.nextId project.id ((db.maxRevisionNumber project.id).getD 0 + 1)
        have hens : Ensured db project.id opened
            { db with revisions := db.revisions ++ [opened], nextId := db.nextId + 1 } :=
          ⟨WithDraft.opened h, Nat.le_succ _, Nat.lt_succ_self _, rfl⟩
        refine .ensured project.id opened (Keeps.bind ?_ (fun _ => Keeps.pure _) _ hens)
        exact copySourceGroups_keeps (ensured_groupWrites db project.id opened) _ _

theorem deleteDraftRevision_effect {target : Option ℕ} {archived : Bool} {device : Option String} (peers : Peers)
    (dto : ProjectIdentifierDto) :
    Effect target archived device db (deleteDraftRevision peers dto db).2 := by
  unfold deleteDraftRevision
  rcases requireProject_run peers dto.projectIdentifier [.config, .configMap] db with
    ⟨e, he⟩ | ⟨project, -, hok⟩
  · rw [bind_run_error he]
    exact .still rfl (le_refl _) rfl
  · rw [bind_run_ok hok]
    unfold findWithGroups
    rw [gets_bind_run]
    cases h : db.findRevision project.id .draft with
    | none => exact .still rfl (le_refl _) rfl
    | some d =>
        have hdraft : d ∈ db.revisions ∧ d.projectId = project.id ∧ d.status = .draft :=
          ⟨List.mem_of_find?_eq_some h, by simpa using List.find?_some h⟩
        simp only [Option.map_some, gets_bind_run]
        let secrets := Prog.when db.vault.enabled
          (Prog.forEach deleteGroupVaultSecrets (db.groupsOf d.id))
        have hstill : Still db (secrets db).2 :=
          Keeps.when (Keeps.forEach fun g _ =>
            deleteGroupVaultSecrets_keeps (still_groupWrites db).vault g) db (Still.refl db)
        rcases hr : secrets db with ⟨r, db₁⟩
        rw [hr] at hstill
        cases r with
        | error e =>
            rw [bind_run_error hr]
            exact .still hstill.revisions hstill.next hstill.bucket
        | ok _ =>
            rw [bind_run_ok hr]
            refine .dropped d hdraft.1 hdraft.2.2 ?_ hstill.next hstill.bucket
            show Rows.deleteWhere (fun r => r.id == d.id) db₁.revisions = _
            rw [hstill.revisions]

/-! ### Publications -/

theorem replaced_of_ensured {p : ℕ} {d : ConfigRevision} {rows : List ConfigRevision} {n : ℕ}
    (h : WithDraft db p d rows) (q : ℕ) :
    replaced { db with revisions := rows, nextId := n } q = replaced db q := by
  have hfind := h.find_active q
  unfold replaced ConfigDb.findRevision
  rw [hfind]
  rfl

/-- The two publishing statements on a table that holds the draft. -/
theorem publishDraft_run {p : ℕ} {archived : Bool} {v : String} {d : ConfigRevision}
    {rows : List ConfigRevision} (hids : IdsOk db) (hd : WithDraft db p d rows) (peers : Peers)
    {db₁ : ConfigDb} (hrevs : db₁.revisions = if archived then archiveRows p rows else rows)
    (hn : db.nextId ≤ db₁.nextId) (hused : d.id < db₁.nextId) (hb : db₁.bucket = db.bucket)
    (device : Option String)
    (hv : if archived then ∃ groups, v = computeNextSemVer ((replaced db p).map (·.2)) groups
        ((replaced db p).bind (·.1.semVer))
      else v = initialSemVer) :
    ∃ applied tail db₂, publishDraft peers d v db₁ = (.ok (), db₂) ∧
      Published db p archived device v d applied rows tail db₂ := by
  let f : ConfigRevision → ConfigRevision := fun r =>
    { r with status := .active, appliedAt := some peers.now, semVer := some v }
  let tail := [draftRow db₁.nextId d.projectId (d.revisionNumber + 1)]
  have hmem : d ∈ db₁.revisions := by
    rw [hrevs]
    cases archived with
    | true => exact mem_archiveRows_of_ne_active hd.mem (by simp [hd.isDraft.2])
    | false => exact hd.mem
  have hdistinct : Rows.KeysDistinct ConfigRevision.id db₁.revisions := by
    rw [hrevs]
    cases archived with
    | true => exact archiveRows_distinct (hd.distinct hids)
    | false => exact hd.distinct hids
  refine ⟨f d, tail, _, rfl, hd, ⟨d.appliedBy, some peers.now, rfl⟩, ?_, ?_, ?_, ?_, hv, ?_⟩
  · show Rows.updateWhere (fun r => r.id == d.id) f db₁.revisions ++ tail = _
    rw [updateWhere_eq_setRow hdistinct hmem f rfl, hrevs]
  · refine .inr ⟨db₁.nextId, ?_, hn, by omega, Nat.lt_succ_self _⟩
    show [draftRow db₁.nextId d.projectId (d.revisionNumber + 1)] = _
    rw [hd.isDraft.1]
  · exact Nat.le_succ_of_le hn
  · exact Nat.lt_succ_of_lt hused
  · intro k _
    show ObjectMap.get? db₁.bucket k = _
    rw [hb]

/-- The device whose cache object `applyRevision` writes. -/
def applyDevice (peers : Peers) (dto : ApplyConfigRevisionDto) : Option String :=
  (peers.project dto.projectIdentifier).bind fun project => deviceOfName project.name

/-- The project whose draft `applyRevision` publishes. -/
def applyTarget (peers : Peers) (dto : ApplyConfigRevisionDto) (db : ConfigDb) : Option ℕ :=
  match (requireProject peers dto.projectIdentifier [.config, .configMap] db).1 with
  | .ok project => (db.findRevision project.id .draft).map (·.projectId)
  | .error _ => none

theorem applyRevision_effect (hids : IdsOk db) (peers : Peers) (dto : ApplyConfigRevisionDto) :
    Effect (applyTarget peers dto db) true (applyDevice peers dto) db
      (applyRevision peers dto db).2 := by
  unfold applyRevision applyTarget
  rcases requireProject_run peers dto.projectIdentifier [.config, .configMap] db with
    ⟨e, he⟩ | ⟨project, hproject, hok⟩
  · rw [bind_run_error he]
    exact .still rfl (le_refl _) rfl
  · rw [bind_run_ok hok, hok]
    unfold findWithGroups
    rw [gets_bind_run, gets_bind_run]
    cases h : db.findRevision project.id .draft with
    | none => exact .still rfl (le_refl _) rfl
    | some d =>
        have hd : WithDraft db project.id d db.revisions := WithDraft.found h
        let v := computeNextSemVer ((replaced db project.id).map (·.2)) (db.groupsOf d.id)
          ((replaced db project.id).bind (·.1.semVer))
        let applied : ConfigRevision := { d with
          semVer := some v, status := .active, appliedBy := dto.appliedBy,
          appliedAt := some peers.now }
        have htarget : (db.findRevision project.id .draft).map (·.projectId) = some project.id := by
          rw [h, Option.map_some, hd.isDraft.1]
        refine .published project.id htarget v d applied db.revisions [] ?_
        -- what follows the publication is made of delivery writes
        have hdelivery := publishToDevice_keeps
          (published_deliveryWrites db project.id true (applyDevice peers dto) v d applied
            db.revisions []) peers project v (by rw [applyDevice, hproject]; rfl)
        refine Keeps.bind hdelivery (fun _ => Keeps.ofExcept _) _ ?_
        refine ⟨hd, ⟨dto.appliedBy, some peers.now, rfl⟩, ?_, .inl rfl, le_refl _,
          hids.used d hd.mem, ⟨db.groupsOf d.id, rfl⟩, fun _ _ => rfl⟩
        exact (List.append_nil _).symm

theorem archiveActive_bind_run {α : Type} (p : ℕ) (rest : Unit → ConfigProg α) (db : ConfigDb) :
    (ConfigRepo.archiveActive p >>= rest) db =
      rest () { db with revisions := archiveRows p db.revisions } := rfl

/-- From the publication on, only delivery writes follow. -/
theorem published_rest_effect {α : Type} {p : ℕ} {v : String} {d : ConfigRevision}
    {rows : List ConfigRevision} (archived : Bool) (hids : IdsOk db) (hd : WithDraft db p d rows)
    (peers : Peers) (db₁ : ConfigDb)
    (hrevs : db₁.revisions = if archived then archiveRows p rows else rows)
    (hn : db.nextId ≤ db₁.nextId) (hused : d.id < db₁.nextId) (hb : db₁.bucket = db.bucket)
    (deviceId : String)
    (hv : if archived then ∃ groups, v = computeNextSemVer ((replaced db p).map (·.2)) groups
        ((replaced db p).bind (·.1.semVer))
      else v = initialSemVer)
    {rest : ConfigProg α} (hrest : ∀ {I : ConfigDb → Prop},
      DeliveryWrites (some (versionedObjectKey deviceId v)) I → Keeps I rest) :
    Effect (some p) archived (some deviceId) db
      ((publishDraft peers d v >>= fun _ => rest) db₁).2 := by
  obtain ⟨applied, tail, db₂, hrun, hpub⟩ :=
    publishDraft_run hids hd peers hrevs hn hused hb (some deviceId) hv
  rw [bind_run_ok hrun]
  exact .published p rfl v d applied rows tail
    (hrest (published_deliveryWrites db p archived (some deviceId) v d applied rows tail) _ hpub)

theorem findWithGroups_active (p : ℕ) :
    findWithGroups p .active = Prog.gets fun db => replaced db p := rfl

/-- The cascade's preparation leaves the draft and remembers what it will replace. -/
theorem prepareCascade_run (hids : IdsOk db) (peers : Peers) (p : ℕ) (deviceId : String) :
    ∃ d, Ensured db p d (prepareCascade peers p deviceId db).2 ∧
      ∀ prepared, (prepareCascade peers p deviceId db).1 = .ok prepared →
        prepared = (d, replaced db p) := by
  obtain ⟨d, rows, n, hrun, hens⟩ := getOrCreateDraftRevision_run hids p
  refine ⟨d, ?_⟩
  unfold prepareCascade
  rw [bind_run_ok hrun, findWithGroups_active, gets_bind_run, replaced_of_ensured hens.draft p]
  have hgroup := ensured_groupWrites db p d
  have hpop := populateDraftFromConfigMaps_keeps hgroup peers d.id deviceId none _ hens
  rcases hr : populateDraftFromConfigMaps peers d.id deviceId none
    { db with revisions := rows, nextId := n } with ⟨r, db₂⟩
  rw [hr] at hpop
  cases r with
  | error e =>
      rw [bind_run_error hr]
      exact ⟨hpop, fun _ h => by cases h⟩
  | ok _ =>
      rw [bind_run_ok hr]
      have hclone := cloneMissingGroups_keeps hgroup d.id (((replaced db p).map (·.2)).getD []) _ hpop
      rcases hc : cloneMissingGroups d.id (((replaced db p).map (·.2)).getD []) db₂ with ⟨r, db₃⟩
      rw [hc] at hclone
      cases r with
      | error e =>
          rw [bind_run_error hc]
          exact ⟨hclone, fun _ h => by cases h⟩
      | ok _ =>
          rw [bind_run_ok hc]
          exact ⟨hclone, fun _ h => by cases h; rfl⟩

/-- The project whose draft the cascade publishes. -/
def refreshTarget (peers : Peers) (p : ℕ) (deviceId : String) (db : ConfigDb) : Option ℕ :=
  match (prepareCascade peers p deviceId db).1 with
  | .ok _ => some p
  | .error _ => none

theorem refreshTarget_eq_some {peers : Peers} {p q : ℕ} {deviceId : String}
    (h : refreshTarget peers p deviceId db = some q) : p = q := by
  unfold refreshTarget at h
  split at h
  · exact Option.some.inj h
  · cases h

theorem refreshConfigProjectRevision_effect (hids : IdsOk db) (peers : Peers) (p : ℕ)
    (deviceId : String) :
    Effect (refreshTarget peers p deviceId db) true (some deviceId) db
      (refreshConfigProjectRevision peers p deviceId db).2 := by
  obtain ⟨d, hens, hprepared⟩ := prepareCascade_run hids peers p deviceId
  unfold refreshConfigProjectRevision refreshTarget
  rcases hr : prepareCascade peers p deviceId db with ⟨r, db₁⟩
  rw [hr] at hens hprepared
  cases r with
  | error e =>
      rw [bind_run_error hr]
      exact .ensured p d hens
  | ok prepared =>
      rw [bind_run_ok hr, hprepared prepared rfl, gets_bind_run, archiveActive_bind_run]
      refine published_rest_effect true hids hens.draft peers
        { db₁ with revisions := archiveRows p db₁.revisions } rfl hens.next hens.used hens.bucket
        deviceId ?_ ?_
      · exact ⟨db₁.groupsOf d.id, rfl⟩
      · intro I hI
        exact Keeps.bind (updateConfigProjectRelease_keeps hI peers p _) fun _ =>
          assembleAndCacheDeviceConfig_keeps hI peers deviceId _ rfl

/-! ### Provisioning -/

/-- What provisioning does before it publishes. -/
def prepareProvision (peers : Peers) (dto : ProvisionDto) : ConfigProg (Option ConfigRevision) := do
  provisionDefaultConfigProject dto.projectId
  populateInitialDraft peers dto.projectId dto.deviceId dto.deviceTypeIds

theorem provisionDefaultConfigProject_ensured {p n : ℕ} {d : ConfigRevision}
    {rows : List ConfigRevision}
    (hrun : getOrCreateDraftRevision p db = (.ok d, { db with revisions := rows, nextId := n }))
    (hens : Ensured db p d { db with revisions := rows, nextId := n }) :
    Ensured db p d (provisionDefaultConfigProject p db).2 := by
  unfold provisionDefaultConfigProject
  rw [bind_run_ok hrun, gets_bind_run]
  exact Keeps.when (insertDefaultGroups_keeps (ensured_groupWrites db p d) d.id _) _ hens

theorem prepareProvision_run (hids : IdsOk db) (peers : Peers) (dto : ProvisionDto) :
    ∃ d, Ensured db dto.projectId d (prepareProvision peers dto db).2 ∧
      ∀ prepared, (prepareProvision peers dto db).1 = .ok prepared → prepared = some d := by
  obtain ⟨d, rows, n, hrun, hens⟩ := getOrCreateDraftRevision_run hids dto.projectId
  refine ⟨d, ?_⟩
  have hgroup := ensured_groupWrites db dto.projectId d
  have hdefault := provisionDefaultConfigProject_ensured hrun hens
  unfold prepareProvision
  rcases hr : provisionDefaultConfigProject dto.projectId db with ⟨r, db₁⟩
  rw [hr] at hdefault
  cases r with
  | error e =>
      rw [bind_run_error hr]
      exact ⟨hdefault, fun _ h => by cases h⟩
  | ok _ =>
      rw [bind_run_ok hr]
      unfold populateInitialDraft
      rw [gets_bind_run]
      unfold ConfigDb.findRevision
      rw [hdefault.draft.find_draft]
      have hpop := populateDraftFromConfigMaps_keeps hgroup peers d.id dto.deviceId
        dto.deviceTypeIds _ hdefault
      rcases hp : populateDraftFromConfigMaps peers d.id dto.deviceId dto.deviceTypeIds db₁ with
        ⟨r, db₂⟩
      rw [hp] at hpop
      cases r with
      | error e => exact ⟨by simpa [bind_run_error hp] using hpop, by simp [bind_run_error hp]⟩
      | ok _ => exact ⟨by simpa [bind_run_ok hp] using hpop, by simp [bind_run_ok hp]⟩

/-- The project whose draft provisioning publishes. -/
def provisionTarget (peers : Peers) (dto : ProvisionDto) (db : ConfigDb) : Option ℕ :=
  match (prepareProvision peers dto db).1 with
  | .ok (some _) => some dto.projectId
  | _ => none

theorem provisionTarget_eq_some {peers : Peers} {dto : ProvisionDto} {q : ℕ}
    (h : provisionTarget peers dto db = some q) : dto.projectId = q := by
  unfold provisionTarget at h
  split at h
  · exact Option.some.inj h
  · cases h

theorem provisionProjectContent_eq (peers : Peers) (dto : ProvisionDto) (db : ConfigDb) :
    provisionProjectContent peers dto db = (prepareProvision peers dto >>= fun prepared =>
      match prepared with
      | none => pure ()
      | some draft => do
        publishDraft peers draft initialSemVer
        updateConfigProjectRelease peers dto.projectId initialSemVer
        Prog.tryCatch (assembleAndCacheDeviceConfig peers dto.deviceId initialSemVer)
          fun _ => pure ()) db := by
  unfold provisionProjectContent autoPublishInitialRevision prepareProvision
  rw [bind_run, bind_run, bind_run]
  rcases provisionDefaultConfigProject dto.projectId db with ⟨r, db₁⟩
  cases r with
  | error e => rfl
  | ok _ => rfl

theorem provisionProjectContent_effect (hids : IdsOk db) (peers : Peers) (dto : ProvisionDto) :
    Effect (provisionTarget peers dto db) false (some dto.deviceId) db
      (provisionProjectContent peers dto db).2 := by
  obtain ⟨d, hens, hprepared⟩ := prepareProvision_run hids peers dto
  rw [provisionProjectContent_eq]
  unfold provisionTarget
  rcases hr : prepareProvision peers dto db with ⟨r, db₁⟩
  rw [hr] at hens hprepared
  cases r with
  | error e =>
      rw [bind_run_error hr]
      exact .ensured dto.projectId d hens
  | ok prepared =>
      rw [bind_run_ok hr, hprepared prepared rfl]
      refine published_rest_effect false hids hens.draft peers db₁ rfl hens.next hens.used
        hens.bucket dto.deviceId rfl ?_
      intro I hI
      refine Keeps.bind (updateConfigProjectRelease_keeps hI peers _ _) fun _ => ?_
      exact Keeps.tryCatch (assembleAndCacheDeviceConfig_keeps hI peers dto.deviceId _ rfl)
        fun _ => Keeps.pure _

/-! ### Associations -/

theorem addConfigMapAssociation_still (peers : Peers) (dto : AddConfigMapAssociationDto) :
    Keeps (Still db) (addConfigMapAssociation peers dto) := by
  apply addConfigMapAssociation_keeps
  intro a _ db' h
  simp only [ConfigRepo.insertAssoc]
  split
  · exact ⟨h.revisions, Nat.le_succ_of_le h.next, h.bucket⟩
  · exact h

theorem removeConfigMapAssociation_still (id : ℕ) :
    Keeps (Still db) (removeConfigMapAssociation id) :=
  removeConfigMapAssociation_keeps (fun _ _ h => ⟨h.revisions, h.next, h.bucket⟩) id

end ConfigService

/-! ### The inversion of a step -/

namespace ConfigEvent

/-- The project in which the call publishes a revision, where it gets that far. -/
def target (db : ConfigDb) (e : ConfigEvent) : Option ℕ :=
  match e.call with
  | .provisionProjectContent dto => ConfigService.provisionTarget e.peers dto db
  | .applyRevision dto => ConfigService.applyTarget e.peers dto db
  | .refreshConfigProjectRevision projectId deviceId =>
      ConfigService.refreshTarget e.peers projectId deviceId db
  | _ => none

/-- Whether a publication of this call archives the ACTIVE revision first. -/
def archives (e : ConfigEvent) : Bool :=
  match e.call with
  | .provisionProjectContent _ => false
  | _ => true

/-- The device whose cache object the call may write. -/
def device (e : ConfigEvent) : Option String :=
  match e.call with
  | .provisionProjectContent dto => some dto.deviceId
  | .applyRevision dto => ConfigService.applyDevice e.peers dto
  | .refreshConfigProjectRevision _ deviceId => some deviceId
  | _ => none

/-- **What one call does to the revisions.** -/
theorem step_effect {db : ConfigDb} (hids : IdsOk db) (e : ConfigEvent) :
    Effect (e.target db) e.archives e.device db (step db e) := by
  obtain ⟨peers, call⟩ := e
  cases call with
  | provisionProjectContent dto => exact ConfigService.provisionProjectContent_effect hids peers dto
  | upsertGroup dto => exact ConfigService.upsertGroup_effect hids peers dto
  | deleteGroup dto => exact ConfigService.deleteGroup_effect hids peers dto
  | createDraftRevision dto => exact ConfigService.createDraftRevision_effect peers dto
  | deleteDraftRevision dto => exact ConfigService.deleteDraftRevision_effect peers dto
  | applyRevision dto => exact ConfigService.applyRevision_effect hids peers dto
  | refreshConfigProjectRevision p deviceId =>
      exact ConfigService.refreshConfigProjectRevision_effect hids peers p deviceId
  | addConfigMapAssociation dto =>
      have h := ConfigService.addConfigMapAssociation_still peers dto db (Still.refl db)
      exact .still h.revisions h.next h.bucket
  | removeConfigMapAssociation id =>
      have h := ConfigService.removeConfigMapAssociation_still id db (Still.refl db)
      exact .still h.revisions h.next h.bucket

end ConfigEvent

end UploadService
