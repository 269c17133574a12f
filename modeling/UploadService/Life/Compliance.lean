import UploadService.Life.OwnStatus

/-!
# Compliance with the current regulations

Project management creates and deletes regulations while releases have statuses of them. The
delete of a regulation sets the links of its statuses to null; their snapshots stay. A refresh
reads the statuses of the release in the order of their regulations, those without one last, and
takes for each regulation the first status shown under its name.

Main results:

- `run_schema`: every history of regulations and statuses keeps the schema;
- `find?_shown`: the status that a refresh takes for a regulation;
- `refreshReleaseState_counts`: the count that the refresh stores;
- `compliance_judged_iff`: a regulation is judged by the status linked to it, unless it has none
  and the first status that lost its link and keeps its name is compliant.
-/

namespace UploadService

open Prog RegulationStatusService ReleaseService

variable {env : UploadEnv} {db : UploadDb} {g : Regulation} {r : Release}

/-! ### Histories -/

/-- What happens to regulations, and to the statuses of releases. -/
inductive RegulationEvent where
  /-- project management creates a regulation -/
  | created (regulation : Regulation)
  /-- project management deletes a regulation -/
  | deleted (id : ℕ)
  | setRegulationStatus (params : RegulationStatusParams) (value : String)
      (reportDetails : Option String)
  | setComplianceStatus (params : RegulationStatusParams) (isCompliant : Bool)
  | deleteVersionRegulationStatus (projectId : ℕ) (version : String) (regulation : Option String)
  | deleteOrphanRegulationStatuses (projectId : ℕ) (version : String)
  deriving DecidableEq, Repr

/-- The unique keys admit the regulation. -/
def admitsRegulation (db : UploadDb) (regulation : Regulation) : Bool :=
  !db.regulations.any fun k => k.id == regulation.id ||
    (k.projectId == regulation.projectId && k.name == regulation.name)

/-- `ON DELETE SET NULL`. -/
def deleteRegulation (id : ℕ) (db : UploadDb) : UploadDb :=
  { db with
    regulations := Rows.deleteWhere (fun k => k.id == id) db.regulations
    regulationStatuses := Rows.updateWhere (fun s => s.regulationId == some id)
      (fun s => { s with regulationId := none }) db.regulationStatuses }

def UploadDb.regulationStep (env : UploadEnv) (db : UploadDb) : RegulationEvent → UploadDb
  | .created regulation =>
      if admitsRegulation db regulation then
        { db with regulations := db.regulations ++ [regulation] }
      else db
  | .deleted id => deleteRegulation id db
  | .setRegulationStatus params value reportDetails =>
      (RegulationStatusService.setRegulationStatus env params value reportDetails db).2
  | .setComplianceStatus params isCompliant =>
      (RegulationStatusService.setComplianceStatus params isCompliant db).2
  | .deleteVersionRegulationStatus projectId version regulation =>
      (RegulationStatusService.deleteVersionRegulationStatus projectId version regulation db).2
  | .deleteOrphanRegulationStatuses projectId version =>
      (RegulationStatusService.deleteOrphanRegulationStatuses projectId version db).2

/-! ### The schema along a history -/

theorem StatusSchema.created (h : StatusSchema db) {regulation : Regulation}
    (hnew : admitsRegulation db regulation = true) :
    StatusSchema { db with regulations := db.regulations ++ [regulation] } := by
  unfold admitsRegulation at hnew
  rw [Bool.not_eq_true', List.any_eq_false] at hnew
  have hfresh : ∀ k ∈ db.regulations, k.id ≠ regulation.id ∧
      (k.projectId, k.name) ≠ (regulation.projectId, regulation.name) := by
    intro k hk
    have hk := hnew k hk
    simp only [Bool.or_eq_true, Bool.and_eq_true, beq_iff_eq, not_or, not_and] at hk
    refine ⟨hk.1, fun heq => ?_⟩
    obtain ⟨hproject, hname⟩ := Prod.mk.inj heq
    exact hk.2 hproject hname
  exact {
    constraints := { h.constraints with }
    regulationKeys := h.regulationKeys.append_new fun k hk => (hfresh k hk).1
    regulationNames := h.regulationNames.append_new fun k hk => (hfresh k hk).2
    links := by
      intro s hs id hid
      obtain ⟨k, hk, hlink⟩ := h.links s hs id hid
      exact ⟨k, List.mem_append_left _ hk, hlink⟩
    linkedOnce := h.linkedOnce }

theorem StatusSchema.deleted (h : StatusSchema db) (id : ℕ) :
    StatusSchema (deleteRegulation id db) := by
  have hrow : ∀ s ∈ (deleteRegulation id db).regulationStatuses, ∀ i, s.regulationId = some i →
      s ∈ db.regulationStatuses ∧ i ≠ id := by
    intro s hs i hi
    rcases Rows.mem_updateWhere.mp hs with ⟨t, -, -, rfl⟩ | ⟨hs, hother⟩
    · cases hi
    · refine ⟨hs, fun heq => ?_⟩
      rw [hi, heq, beq_self_eq_true] at hother
      cases hother
  have hreleases : ∀ s ∈ (deleteRegulation id db).regulationStatuses,
      ∃ t ∈ db.regulationStatuses, s.id = t.id ∧ s.versionId = t.versionId := by
    intro s hs
    rcases Rows.mem_updateWhere.mp hs with ⟨t, ht, -, rfl⟩ | ⟨hs, -⟩
    · exact ⟨t, ht, rfl, rfl⟩
    · exact ⟨s, hs, rfl, rfl⟩
  refine { constraints := ?_, regulationKeys := ?_, regulationNames := ?_,
           links := fun s hs i hi => ?_, linkedOnce := fun s hs t ht hlinked hid hof => ?_ }
  · refine { h.constraints with
      statusKeys := h.constraints.statusKeys.updateWhere fun s _ _ => rfl
      statusReleases := fun s hs => ?_
      freshStatuses := fun s hs => ?_ }
    · obtain ⟨t, ht, -, hof⟩ := hreleases s hs
      rw [hof]
      exact h.constraints.statusReleases t ht
    · obtain ⟨t, ht, hid, -⟩ := hreleases s hs
      rw [hid]
      exact h.constraints.freshStatuses t ht
  · exact h.regulationKeys.sublist (Rows.deleteWhere_sublist _ _)
  · exact h.regulationNames.sublist (Rows.deleteWhere_sublist _ _)
  · obtain ⟨hold, hne⟩ := hrow s hs i hi
    obtain ⟨k, hk, hkid, hproject⟩ := h.links s hold i hi
    refine ⟨k, Rows.mem_deleteWhere.mpr ⟨hk, ?_⟩, hkid, hproject⟩
    rw [hkid]
    simpa using hne
  · obtain ⟨i, hi⟩ := Option.ne_none_iff_exists'.mp hlinked
    exact h.linkedOnce s (hrow s hs i hi).1 t (hrow t ht i (hid ▸ hi)).1 hlinked hid hof

theorem StatusSchema.deleteStatuses (h : StatusSchema db) (q : RegulationStatus → Bool) :
    StatusSchema { db with regulationStatuses := Rows.deleteWhere q db.regulationStatuses } where
  constraints := h.constraints.deleteStatuses q
  regulationKeys := h.regulationKeys
  regulationNames := h.regulationNames
  links := fun s hs => h.links s (Rows.mem_deleteWhere.mp hs).1
  linkedOnce := fun s hs t ht => h.linkedOnce s (Rows.mem_deleteWhere.mp hs).1 t
    (Rows.mem_deleteWhere.mp ht).1

/-- What a request names is in one project. -/
theorem getRegulationAndRelease_mem {params : RegulationStatusParams} {found : Regulation × Release}
    (hrun : (getRegulationAndRelease params db).1 = .ok found) :
    found.1 ∈ db.regulations ∧ found.2 ∈ db.releases ∧ found.2.projectId = found.1.projectId := by
  unfold getRegulationAndRelease at hrun
  rw [gets_bind_run, gets_bind_run] at hrun
  cases hrelease : db.findRelease params.projectId params.version with
  | none =>
      rw [hrelease] at hrun
      cases hrun
  | some release =>
      cases hregulation : db.regulations.find? fun k =>
          k.name == params.regulation && k.projectId == params.projectId with
      | none =>
          rw [hrelease, hregulation] at hrun
          cases hrun
      | some regulation =>
          rw [hrelease, hregulation] at hrun
          obtain rfl := Except.ok.inj hrun
          obtain ⟨hr, hproject, -⟩ := UploadDb.findRelease_some hrelease
          have hboth := List.find?_some hregulation
          simp only [Bool.and_eq_true, beq_iff_eq] at hboth
          exact ⟨List.mem_of_find?_eq_some hregulation, hr, hproject.trans hboth.2.symm⟩

/-- A request that names a regulation and a release keeps the schema where its write does. -/
theorem StatusSchema.named (h : StatusSchema db) {params : RegulationStatusParams} {α : Type}
    {k : Regulation × Release → UploadProg α}
    (hk : ∀ found, found.1 ∈ db.regulations → found.2 ∈ db.releases →
      found.2.projectId = found.1.projectId → StatusSchema (k found db).2) :
    StatusSchema ((getRegulationAndRelease params >>= k) db).2 := by
  have hsame := (getRegulationAndRelease_run params db).1
  rcases hrun : getRegulationAndRelease params db with ⟨result, s⟩
  rw [hrun] at hsame
  obtain rfl : s = db := hsame
  cases result with
  | error e =>
      rw [bind_run_error hrun]
      exact h
  | ok found =>
      rw [bind_run_ok hrun]
      obtain ⟨hg, hr, hproject⟩ := @getRegulationAndRelease_mem s params found (by rw [hrun])
      exact hk found hg hr hproject

/-- **Step.** Every event keeps the schema. -/
theorem regulationStep_schema (h : StatusSchema db) (e : RegulationEvent) :
    StatusSchema (db.regulationStep env e) := by
  cases e with
  | created regulation =>
      show StatusSchema (if admitsRegulation db regulation then _ else db)
      split
      · rename_i hnew
        exact h.created hnew
      · exact h
  | deleted id => exact h.deleted id
  | setRegulationStatus params value reportDetails =>
      apply h.named
      intro found hg hr hproject
      refine Keeps.bind_to (I := fun s => s = db) (fun s hs => hs) (fun s hs => hs ▸ h) ?_ rfl
      rintro isCompliant s rfl
      show StatusSchema (getVersionRegulationStatus params _).2
      rw [getVersionRegulationStatus_reads params _ _ rfl]
      exact (regulationStatusWrite found.1 found.2 isCompliant value
        reportDetails).write_schema h hg hr hproject
  | setComplianceStatus params isCompliant =>
      apply h.named
      intro found hg hr hproject
      show StatusSchema (getVersionRegulationStatus params _).2
      rw [getVersionRegulationStatus_reads params _ _ rfl]
      exact (complianceStatusWrite found.1 found.2 isCompliant).write_schema h hg hr hproject
  | deleteVersionRegulationStatus p v regulation =>
      show StatusSchema (RegulationStatusService.deleteVersionRegulationStatus p v regulation db).2
      unfold RegulationStatusService.deleteVersionRegulationStatus
      rw [gets_bind_run]
      cases db.regulationStatuses.find? fun s => isStatusOf db p v s && isNamed db regulation s with
      | none => exact h
      | some status => exact h.deleteStatuses _
  | deleteOrphanRegulationStatuses p v => exact h.deleteStatuses _

/-- Every history keeps the schema. -/
theorem run_schema (h : StatusSchema db) (es : List RegulationEvent) :
    StatusSchema (Runs.run (UploadDb.regulationStep env) db es) :=
  Runs.invariant_run (I := StatusSchema) (fun _ e hs => regulationStep_schema hs e) h es

/-! ### The status a refresh takes -/

instance regulationOrder_total (db : UploadDb) : Std.Total (regulationOrder db) where
  total s t := by
    unfold regulationOrder
    cases regulationOf db s with
    | none => cases regulationOf db t <;> simp
    | some k =>
        cases regulationOf db t with
        | none => simp
        | some l => exact Nat.le_total k.order l.order

instance regulationOrder_trans (db : UploadDb) : IsTrans RegulationStatus (regulationOrder db) where
  trans s t u hst htu := by
    unfold regulationOrder at hst htu ⊢
    cases hs : regulationOf db s with
    | none =>
        cases ht : regulationOf db t with
        | none =>
            cases hu : regulationOf db u with
            | none => trivial
            | some m =>
                rw [ht, hu] at htu
                exact htu
        | some l =>
            rw [hs, ht] at hst
            exact hst.elim
    | some k =>
        cases hu : regulationOf db u with
        | none => trivial
        | some m =>
            cases ht : regulationOf db t with
            | none =>
                rw [ht, hu] at htu
                exact htu.elim
            | some l =>
                rw [hs, ht] at hst
                rw [ht, hu] at htu
                exact Nat.le_trans hst htu

/-- The status lost its link, and keeps the name. -/
def keepsName (g : Regulation) (r : Release) (s : RegulationStatus) : Bool :=
  s.versionId == r.catalogId && s.regulationId.isNone &&
    s.regulationSnapshot.map (·.name) == some g.name

/-- The first status that lost its link and keeps the name. -/
def formerStatus (db : UploadDb) (g : Regulation) (r : Release) : Option RegulationStatus :=
  db.regulationStatuses.find? (keepsName g r)

theorem keepsName_iff {s : RegulationStatus} : keepsName g r s = true ↔
    s.versionId = r.catalogId ∧ s.regulationId = none ∧
      s.regulationSnapshot.map (·.name) = some g.name := by
  unfold keepsName
  simp only [Bool.and_eq_true, beq_iff_eq, Option.isNone_iff_eq_none, and_assoc]

/-- The statuses shown under the name of the regulation. -/
def shownAs (g : Regulation) (r : Release) (s : RegulationStatus) : Bool :=
  isFor g r s || keepsName g r s

/-- A status with a link comes before those without. -/
theorem head?_insertionSort {rows : List RegulationStatus} {s : RegulationStatus} (hs : s ∈ rows)
    {k : Regulation} (hlink : regulationOf db s = some k)
    (hrest : ∀ t ∈ rows, t = s ∨ regulationOf db t = none) :
    (rows.insertionSort (regulationOrder db)).head? = some s := by
  cases hsorted : rows.insertionSort (regulationOrder db) with
  | nil =>
      have hmem := (List.mem_insertionSort (regulationOrder db)).mpr hs
      rw [hsorted] at hmem
      cases hmem
  | cons t rest =>
      have hpairwise := List.pairwise_insertionSort (regulationOrder db) rows
      have hmem := (List.mem_insertionSort (regulationOrder db)).mpr hs
      have hfirst : t ∈ rows.insertionSort (regulationOrder db) := by
        rw [hsorted]
        exact List.mem_cons_self
      rw [hsorted] at hpairwise hmem
      rcases hrest t ((List.mem_insertionSort (regulationOrder db)).mp hfirst) with rfl | hnone
      · rfl
      · rcases List.mem_cons.mp hmem with rfl | htail
        · rfl
        · have horder := (List.pairwise_cons.mp hpairwise).1 s htail
          unfold regulationOrder at horder
          rw [hnone, hlink] at horder
          exact horder.elim

/-- Statuses without links stay in the order of the table. -/
theorem insertionSort_unlinked {rows : List RegulationStatus}
    (hrows : ∀ s ∈ rows, regulationOf db s = none) :
    rows.insertionSort (regulationOrder db) = rows := by
  apply List.Pairwise.insertionSort_eq
  apply List.pairwise_of_forall_mem_list
  intro s hs t ht
  unfold regulationOrder
  rw [hrows s hs, hrows t ht]
  trivial

/-- **Step.** A refresh takes the status of the regulation, and where there is none the first that
lost its link and keeps the name. -/
theorem find?_shown (h : StatusSchema db) (hg : g ∈ db.regulations) (hr : r ∈ db.releases)
    (hproject : r.projectId = g.projectId) :
    ((getVersionRegulationsStatuses db g.projectId r.version).find? fun dto =>
      dto.regulation == some g.name) =
        ((ownStatus db g r).or (formerStatus db g r)).map (toDto db) := by
  have hfind : db.findRelease g.projectId r.version = some r := by
    rw [← hproject]
    exact h.constraints.findRelease_of_mem hr
  -- the rows of the query that are shown under the name
  have hrows : (db.regulationStatuses.filter (isStatusOf db g.projectId r.version)).filter
      (fun s => (toDto db s).regulation == some g.name) = db.regulationStatuses.filter (shownAs g r) := by
    rw [List.filter_filter]
    apply List.filter_congr
    intro s hs
    rw [Bool.eq_iff_iff, Bool.and_eq_true, beq_iff_eq, isStatusOf_iff h.constraints hfind]
    unfold shownAs
    rw [Bool.or_eq_true, keepsName_iff]
    constructor
    · intro hboth
      rcases (toDto_regulation_iff h hg hr hproject hs hboth.2).mp hboth.1 with hfor | hkept
      · exact .inl hfor
      · exact .inr ⟨hboth.2, hkept⟩
    · intro hshown
      have hof : s.versionId = r.catalogId := by
        rcases hshown with hfor | hkept
        · exact (isFor_iff.mp hfor).2
        · exact hkept.1
      refine ⟨(toDto_regulation_iff h hg hr hproject hs hof).mpr ?_, hof⟩
      rcases hshown with hfor | hkept
      · exact .inl hfor
      · exact .inr hkept.2
  unfold getVersionRegulationsStatuses
  rw [List.find?_map, ← List.head?_filter]
  show Option.map _ (((db.regulationStatuses.filter _).insertionSort _).filter
    (fun s => (toDto db s).regulation == some g.name)).head? = _
  rw [Rows.filter_insertionSort, hrows]
  congr 1
  cases hown : ownStatus db g r with
  | some s =>
      obtain ⟨hs, hfor⟩ := ownStatus_some hown
      rw [Option.some_or]
      apply head?_insertionSort (k := g)
      · exact List.mem_filter.mpr ⟨hs, by unfold shownAs; rw [hfor, Bool.true_or]⟩
      · exact regulationOf_isFor h hg hfor
      · intro t ht
        obtain ⟨ht, hshown⟩ := List.mem_filter.mp ht
        unfold shownAs at hshown
        rcases Bool.or_eq_true_iff.mp hshown with htfor | hkept
        · exact .inl (isFor_unique h ht hs htfor hfor)
        · exact .inr (regulationOf_none (keepsName_iff.mp hkept).2.1)
  | none =>
      have hnone := List.find?_eq_none.mp hown
      have hshown : db.regulationStatuses.filter (shownAs g r) =
          db.regulationStatuses.filter (keepsName g r) := by
        apply List.filter_congr
        intro s hs
        unfold shownAs
        rw [Bool.not_eq_true _ |>.mp (hnone s hs), Bool.false_or]
      rw [Option.none_or, hshown, insertionSort_unlinked]
      · exact List.head?_filter
      · intro s hs
        exact regulationOf_none (keepsName_iff.mp (List.mem_filter.mp hs).2).2.1

/-! ### The count that is stored -/

/-- What a refresh writes of the regulations. -/
def regulationCounts (db : UploadDb) : List (ℕ × String × ℕ × ℕ) :=
  db.releases.map fun r =>
    (r.projectId, r.version, r.requiredRegulationsCount, r.compliantRegulationsCount)

theorem settle_counts (p : ℕ) (v : String) (loaded : LoadedRelease) (verdict : Verdict)
    (db : UploadDb) : regulationCounts (settle p v loaded verdict db) = regulationCounts db := by
  have hupdate : ∀ (db : UploadDb) (q : Release → Bool) (f : Release → Release),
      (∀ r, (f r).projectId = r.projectId ∧ (f r).version = r.version ∧
        (f r).requiredRegulationsCount = r.requiredRegulationsCount ∧
        (f r).compliantRegulationsCount = r.compliantRegulationsCount) →
      regulationCounts (updateReleases q f db) = regulationCounts db := by
    intro db q f hf
    apply Rows.map_updateWhere
    intro r _ _
    obtain ⟨h₁, h₂, h₃, h₄⟩ := hf r
    rw [h₁, h₂, h₃, h₄]
  have hlatest : ∀ db, regulationCounts (updateLatestForProject p db) = regulationCounts db :=
    fun db => hupdate db _ _ fun r => ⟨rfl, rfl, rfl, rfl⟩
  unfold settle
  split
  · rfl
  · rename_i status _
    split
    · have hwrite : regulationCounts (writeStatus p v status db) = regulationCounts db := by
        cases status <;> exact hupdate db _ _ fun r => ⟨rfl, rfl, rfl, rfl⟩
      exact (hlatest _).trans hwrite
    · rfl

theorem refreshLoaded_counts (p : ℕ) (v : String) (loaded : LoadedRelease) (db : UploadDb) :
    regulationCounts (refreshLoaded env p v loaded db).2 =
      regulationCounts (updateRegulationCounts p v (regulationsOf db p).length
        (numCompliant (regulationsOf db p) (getVersionRegulationsStatuses db p v)) db) := by
  unfold refreshLoaded
  rw [gets_bind_run, gets_bind_run, modify_bind_run]
  refine Frames.eq (g := regulationCounts) (fun observed => ?_) _
  refine Keeps.bind (syncAndCheckMissingFiles_keeps (fun _ _ h => h) _) fun missing => ?_
  refine Keeps.bind (Keeps.gets _) fun uploaded => Keeps.modify fun s hs => ?_
  exact (settle_counts p v loaded _ s).trans hs

/-- **Step.** A refresh stores how many regulations of the project it counts as compliant, unless
the release is released, or out of reach of a refresh. -/
theorem refreshReleaseState_counts (hdb : db.Constraints) {p : ℕ} {v : String} {r : Release}
    (hfind : db.findRelease p v = some r) (hopen : isTerminal r.status = false)
    (hnot : r.status ≠ .released) :
    ∀ x ∈ (refreshReleaseState env p v db).2.releases, UploadDb.isRelease p v x = true →
      x.requiredRegulationsCount = (regulationsOf db p).length ∧
      x.compliantRegulationsCount =
        numCompliant (regulationsOf db p) (getVersionRegulationsStatuses db p v) := by
  intro x hx hof
  have hrun : (refreshReleaseState env p v db).2 = (refreshLoaded env p v (db.load r) db).2 := by
    have hload : db.getReleaseEntity p v = some (db.load r) := by
      unfold UploadDb.getReleaseEntity
      rw [hfind, Option.map_some]
    unfold refreshReleaseState
    rw [gets_bind_run, hload]
    show ((if isTerminal r.status then _ else _ : UploadProg Unit) db).2 = _
    rw [hopen]
    rfl
  rw [hrun] at hx
  have hcount : (x.projectId, x.version, x.requiredRegulationsCount, x.compliantRegulationsCount) ∈
      regulationCounts (refreshLoaded env p v (db.load r) db).2 := List.mem_map.mpr ⟨x, hx, rfl⟩
  rw [refreshLoaded_counts] at hcount
  obtain ⟨y, hy, hsame⟩ := List.mem_map.mp hcount
  simp only [Prod.mk.injEq] at hsame
  obtain ⟨hproject, hversion, hrequired, hcompliant⟩ := hsame
  rw [← hrequired, ← hcompliant]
  rcases Rows.mem_updateWhere.mp hy with ⟨z, -, -, rfl⟩ | ⟨hy, hskipped⟩
  · exact ⟨rfl, rfl⟩
  · -- the row of the release is not skipped
    obtain ⟨hr, hrproject, hrversion⟩ := UploadDb.findRelease_some hfind
    simp only [UploadDb.isRelease, Bool.and_eq_true, beq_iff_eq] at hof
    have heq : y = r := hdb.releaseVersions.eq_of_mem hy hr (by
      rw [hproject, hversion, hof.1, hof.2, hrproject, hrversion])
    rw [heq] at hskipped
    simp [UploadDb.isRelease, hrproject, hrversion, hnot] at hskipped

/-! ### Judged by the current regulations -/

/-- The regulation has no status of its own, and the first status that lost its link and keeps
its name is compliant. -/
def InheritsCompliance (db : UploadDb) (g : Regulation) (r : Release) : Prop :=
  ownStatus db g r = none ∧ ∃ s, formerStatus db g r = some s ∧ s.isCompliant = true

/-- **Main result.** After every history of regulations and statuses: a refresh counts a regulation
as compliant exactly when a status linked to it is, unless it inherits the compliance of another. -/
theorem compliance_judged_iff (env : UploadEnv) (db : UploadDb) (h : StatusSchema db)
    (history : List RegulationEvent) :
    let s := Runs.run (UploadDb.regulationStep env) db history
    ∀ p v r, s.findRelease p v = some r → ∀ g ∈ regulationsOf s p,
      ((isCompliantWith (getVersionRegulationsStatuses s p v) g = true ↔
        ∃ t ∈ s.regulationStatuses, isFor g r t = true ∧ t.isCompliant = true) ↔
          ¬ InheritsCompliance s g r) := by
  intro s p v r hfind g hg
  have hschema : StatusSchema s := run_schema h history
  obtain ⟨hgmem, hgproject⟩ := List.mem_filter.mp hg
  obtain rfl : g.projectId = p := by simpa using hgproject
  obtain ⟨hr, hproject, rfl⟩ := UploadDb.findRelease_some hfind
  -- at most one status is linked to the regulation
  have hown : (∃ t ∈ s.regulationStatuses, isFor g r t = true ∧ t.isCompliant = true) ↔
      (ownStatus s g r).any (·.isCompliant) = true := by
    cases howns : ownStatus s g r with
    | none =>
        have hnone := List.find?_eq_none.mp howns
        simp only [Option.any_none, Bool.false_eq_true, iff_false, not_exists, not_and]
        intro t ht hfor
        exact absurd hfor (hnone t ht)
    | some t =>
        obtain ⟨ht, hfor⟩ := ownStatus_some howns
        simp only [Option.any_some]
        constructor
        · rintro ⟨u, hu, hufor, hcompliant⟩
          rwa [← isFor_unique hschema hu ht hufor hfor]
        · intro hcompliant
          exact ⟨t, ht, hfor, hcompliant⟩
  rw [hown]
  unfold isCompliantWith InheritsCompliance
  rw [find?_shown hschema hgmem hr hproject]
  cases ownStatus s g r with
  | some t => simp [toDto]
  | none =>
      cases formerStatus s g r with
      | none => simp
      | some t => simp [toDto]

/-! ### A regulation that is created again -/

/-- The regulation is met, deleted, and created again under its name. -/
def createdAgain : List RegulationEvent :=
  [.setComplianceStatus ⟨none, 1, "1.0", "review"⟩ true, .deleted 2,
    .created { reviewRegulation with id := 3 }]

/-- Before that, the status of the regulation is its own. -/
theorem compliance_own :
    (isCompliantWith (getVersionRegulationsStatuses (Runs.run (UploadDb.regulationStep plainUploadEnv)
      meetsDisplayed [.setComplianceStatus ⟨none, 1, "1.0", "review"⟩ true]) 1 "1.0")
        reviewRegulation = true ↔
      ∃ t ∈ (Runs.run (UploadDb.regulationStep plainUploadEnv) meetsDisplayed
        [.setComplianceStatus ⟨none, 1, "1.0", "review"⟩ true]).regulationStatuses,
        isFor reviewRegulation versionUnderReview t = true ∧ t.isCompliant = true) := by
  apply (compliance_judged_iff plainUploadEnv meetsDisplayed meetsDisplayed_schema
    [.setComplianceStatus ⟨none, 1, "1.0", "review"⟩ true] 1 "1.0" versionUnderReview (by decide)
      reviewRegulation (by decide)).mpr
  rintro ⟨hnone, -⟩
  revert hnone
  decide

/-- The new regulation counts as compliant, and no status is linked to it. -/
theorem former_status_satisfies :
    let s := Runs.run (UploadDb.regulationStep plainUploadEnv) meetsDisplayed createdAgain
    StatusSchema meetsDisplayed ∧ s.findRelease 1 "1.0" = some versionUnderReview ∧
    { reviewRegulation with id := 3 } ∈ regulationsOf s 1 ∧
    isCompliantWith (getVersionRegulationsStatuses s 1 "1.0") { reviewRegulation with id := 3 } = true ∧
    ¬ ∃ t ∈ s.regulationStatuses,
      isFor { reviewRegulation with id := 3 } versionUnderReview t = true ∧ t.isCompliant = true := by
  refine ⟨meetsDisplayed_schema, by decide, by decide, by decide, by decide⟩

end UploadService
