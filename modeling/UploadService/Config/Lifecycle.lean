import UploadService.Lib.Runs
import UploadService.Config.Effects

/-!
# The revision lifecycle

A project should have at most one ACTIVE and one DRAFT revision, with distinct
revision numbers. `LifecycleInv` is the invariant behind this: besides the three
facts it says that the DRAFT has the greatest number, which is what makes
`draft.revisionNumber + 1` a new number.

Main results:

- `lifecycleInv_step`: a call keeps the invariant, unless it provisions a project
  that has an ACTIVE revision already;
- `lifecycle_along_runs`: every run from an empty table whose provisionings all
  meet a project without an ACTIVE revision keeps the lifecycle;
- `redelivered_provisioning_two_active`: a provisioning event delivered twice
  leaves two ACTIVE revisions.
-/

namespace UploadService

open ConfigEvent Runs

/-- The documented lifecycle of one project's revisions. -/
structure ProjectLifecycle (db : ConfigDb) (p : ℕ) : Prop where
  active : (db.revisionsIn p .active).length ≤ 1
  draft : (db.revisionsIn p .draft).length ≤ 1
  numbers : ((db.revisions.filter fun r => r.projectId == p).map (·.revisionNumber)).Nodup

/-- The lifecycle of project `p` over a list of rows, row by row. -/
structure LifecycleInv (p : ℕ) (rows : List ConfigRevision) : Prop where
  oneActive : ∀ r ∈ rows, ∀ s ∈ rows, r.projectId = p → s.projectId = p →
    r.status = .active → s.status = .active → r.id = s.id
  oneDraft : ∀ r ∈ rows, ∀ s ∈ rows, r.projectId = p → s.projectId = p →
    r.status = .draft → s.status = .draft → r.id = s.id
  numbers : ∀ r ∈ rows, ∀ s ∈ rows, r.projectId = p → s.projectId = p →
    r.revisionNumber = s.revisionNumber → r.id = s.id
  draftLast : ∀ d ∈ rows, ∀ r ∈ rows, d.projectId = p → r.projectId = p → d.status = .draft →
    r.revisionNumber ≤ d.revisionNumber

/-! ### From rows to counts -/

/-- Rows that agree on a key that is distinct over the table are at most one. -/
theorem length_filter_le_one {rows : List ConfigRevision} {q : ConfigRevision → Bool}
    (hids : Rows.KeysDistinct ConfigRevision.id rows)
    (h : ∀ r ∈ rows, ∀ s ∈ rows, q r = true → q s = true → r.id = s.id) :
    (rows.filter q).length ≤ 1 := by
  have hnodup : ((rows.filter q).map ConfigRevision.id).Nodup :=
    hids.sublist List.filter_sublist
  match hf : rows.filter q with
  | [] => simp
  | [r] => simp
  | r :: s :: rest =>
      rw [hf] at hnodup
      have hr : r ∈ rows ∧ q r = true := List.mem_filter.mp (by rw [hf]; simp)
      have hs : s ∈ rows ∧ q s = true := List.mem_filter.mp (by rw [hf]; simp)
      have heq := h r hr.1 s hs.1 hr.2 hs.2
      simp [heq] at hnodup

theorem LifecycleInv.projectLifecycle {p : ℕ} {db : ConfigDb} (hids : IdsOk db)
    (h : LifecycleInv p db.revisions) : ProjectLifecycle db p where
  active := by
    refine length_filter_le_one hids.distinct fun r hr s hs hqr hqs => ?_
    simp only [Bool.and_eq_true, beq_iff_eq] at hqr hqs
    exact h.oneActive r hr s hs hqr.1 hqs.1 hqr.2 hqs.2
  draft := by
    refine length_filter_le_one hids.distinct fun r hr s hs hqr hqs => ?_
    simp only [Bool.and_eq_true, beq_iff_eq] at hqr hqs
    exact h.oneDraft r hr s hs hqr.1 hqs.1 hqr.2 hqs.2
  numbers := by
    have hnodup : ((db.revisions.filter fun r => r.projectId == p).map ConfigRevision.id).Nodup :=
      hids.distinct.sublist List.filter_sublist
    refine List.Nodup.map_on (fun r hr s hs heq => ?_) hnodup.of_map
    simp only [List.mem_filter, beq_iff_eq] at hr hs
    exact hids.distinct.eq_of_mem hr.1 hs.1 (h.numbers r hr.1 s hs.1 hr.2 hs.2 heq)

/-! ### Rows that come and go -/

theorem LifecycleInv.subset {p : ℕ} {rows rows' : List ConfigRevision} (h : LifecycleInv p rows)
    (hsub : ∀ r ∈ rows', r ∈ rows) : LifecycleInv p rows' where
  oneActive := fun r hr s hs => h.oneActive r (hsub r hr) s (hsub s hs)
  oneDraft := fun r hr s hs => h.oneDraft r (hsub r hr) s (hsub s hs)
  numbers := fun r hr s hs => h.numbers r (hsub r hr) s (hsub s hs)
  draftLast := fun d hd r hr => h.draftLast d (hsub d hd) r (hsub r hr)

theorem LifecycleInv.archiveRows {p q : ℕ} {rows : List ConfigRevision}
    (h : LifecycleInv p rows) : LifecycleInv p (archiveRows q rows) := by
  have hback : ∀ r ∈ UploadService.archiveRows q rows, ∃ r₀ ∈ rows, r.id = r₀.id ∧
      r.projectId = r₀.projectId ∧ r.revisionNumber = r₀.revisionNumber ∧
      (r.status ≠ .archived → r.status = r₀.status) := by
    intro r hr
    rcases Rows.mem_updateWhere.mp hr with ⟨r₀, hr₀, -, rfl⟩ | ⟨hr₀, -⟩
    · exact ⟨r₀, hr₀, rfl, rfl, rfl, fun hne => absurd rfl hne⟩
    · exact ⟨r, hr₀, rfl, rfl, rfl, fun _ => rfl⟩
  refine ⟨?_, ?_, ?_, ?_⟩
  · intro r hr s hs hrp hsp hra hsa
    obtain ⟨r₀, hr₀, hid, hp, -, hst⟩ := hback r hr
    obtain ⟨s₀, hs₀, hid', hp', -, hst'⟩ := hback s hs
    rw [hid, hid']
    exact h.oneActive r₀ hr₀ s₀ hs₀ (hp ▸ hrp) (hp' ▸ hsp)
      ((hst (by simp [hra])) ▸ hra) ((hst' (by simp [hsa])) ▸ hsa)
  · intro r hr s hs hrp hsp hrd hsd
    obtain ⟨r₀, hr₀, hid, hp, -, hst⟩ := hback r hr
    obtain ⟨s₀, hs₀, hid', hp', -, hst'⟩ := hback s hs
    rw [hid, hid']
    exact h.oneDraft r₀ hr₀ s₀ hs₀ (hp ▸ hrp) (hp' ▸ hsp)
      ((hst (by simp [hrd])) ▸ hrd) ((hst' (by simp [hsd])) ▸ hsd)
  · intro r hr s hs hrp hsp hnum
    obtain ⟨r₀, hr₀, hid, hp, hn, -⟩ := hback r hr
    obtain ⟨s₀, hs₀, hid', hp', hn', -⟩ := hback s hs
    rw [hid, hid']
    exact h.numbers r₀ hr₀ s₀ hs₀ (hp ▸ hrp) (hp' ▸ hsp) (by rw [← hn, ← hn', hnum])
  · intro d hd r hr hdp hrp hds
    obtain ⟨d₀, hd₀, -, hp, hn, hst⟩ := hback d hd
    obtain ⟨r₀, hr₀, -, hp', hn', -⟩ := hback r hr
    rw [hn, hn']
    exact h.draftLast d₀ hd₀ r₀ hr₀ (hp ▸ hdp) (hp' ▸ hrp) ((hst (by simp [hds])) ▸ hds)

/-- A new draft joins rows without a draft, with a number above all of the project's. -/
theorem LifecycleInv.append_draft {p q n id : ℕ} {rows : List ConfigRevision}
    (h : LifecycleInv p rows) (hnone : p = q → ∀ r ∈ rows, r.projectId = p → r.status ≠ .draft)
    (hlast : p = q → ∀ r ∈ rows, r.projectId = p → r.revisionNumber < n) :
    LifecycleInv p (rows ++ [draftRow id q n]) := by
  have hmem : ∀ r ∈ rows ++ [draftRow id q n], r ∈ rows ∨ r = draftRow id q n := by
    intro r hr
    simpa using hr
  refine ⟨?_, ?_, ?_, ?_⟩
  · intro r hr s hs hrp hsp hra hsa
    rcases hmem r hr with hr | rfl
    · rcases hmem s hs with hs | rfl
      · exact h.oneActive r hr s hs hrp hsp hra hsa
      · cases hsa
    · cases hra
  · intro r hr s hs hrp hsp hrd hsd
    rcases hmem r hr with hr | rfl
    · rcases hmem s hs with hs | rfl
      · exact h.oneDraft r hr s hs hrp hsp hrd hsd
      · exact absurd hrd (hnone hsp.symm r hr hrp)
    · rcases hmem s hs with hs | rfl
      · exact absurd hsd (hnone hrp.symm s hs hsp)
      · rfl
  · intro r hr s hs hrp hsp hnum
    rcases hmem r hr with hr | rfl
    · rcases hmem s hs with hs | rfl
      · exact h.numbers r hr s hs hrp hsp hnum
      · have := hlast hsp.symm r hr hrp
        simp only [draftRow] at hnum
        omega
    · rcases hmem s hs with hs | rfl
      · have := hlast hrp.symm s hs hsp
        simp only [draftRow] at hnum
        omega
      · rfl
  · intro d hd r hr hdp hrp hds
    rcases hmem d hd with hd | rfl
    · rcases hmem r hr with hr | rfl
      · exact h.draftLast d hd r hr hdp hrp hds
      · exact absurd hds (hnone hrp.symm d hd hdp)
    · rcases hmem r hr with hr | rfl
      · exact Nat.le_of_lt (hlast hdp.symm r hr hrp)
      · exact le_refl _

theorem mem_setRow {row r : ConfigRevision} {rows : List ConfigRevision} (hr : r ∈ setRow row rows) :
    r = row ∨ (r ∈ rows ∧ r.id ≠ row.id) := by
  rcases Rows.mem_updateWhere.mp hr with ⟨_, -, -, rfl⟩ | ⟨hr, hne⟩
  · exact .inl rfl
  · exact .inr ⟨hr, by simpa using hne⟩

/-- The draft becomes ACTIVE where the project has no ACTIVE row. -/
theorem LifecycleInv.setRow_active {p : ℕ} {rows : List ConfigRevision} {d applied : ConfigRevision}
    (h : LifecycleInv p rows) (hd : d ∈ rows) (hid : applied.id = d.id)
    (hp : applied.projectId = d.projectId) (hn : applied.revisionNumber = d.revisionNumber)
    (hs : applied.status = .active)
    (hnone : d.projectId = p → ∀ r ∈ rows, r.projectId = p → r.status ≠ .active) :
    LifecycleInv p (setRow applied rows) := by
  have hmem : ∀ r ∈ setRow applied rows, r = applied ∨ (r ∈ rows ∧ r.id ≠ applied.id) :=
    fun r hr => mem_setRow hr
  refine ⟨?_, ?_, ?_, ?_⟩
  · intro r hr s hs' hrp hsp hra hsa
    rcases hmem r hr with rfl | ⟨hr₀, -⟩
    · rcases hmem s hs' with rfl | ⟨hs₀, -⟩
      · rfl
      · exact absurd hsa (hnone (hp ▸ hrp) s hs₀ hsp)
    · rcases hmem s hs' with rfl | ⟨hs₀, -⟩
      · exact absurd hra (hnone (hp ▸ hsp) r hr₀ hrp)
      · exact h.oneActive r hr₀ s hs₀ hrp hsp hra hsa
  · intro r hr s hs' hrp hsp hrd hsd
    rcases hmem r hr with rfl | ⟨hr₀, -⟩
    · rw [hs] at hrd
      cases hrd
    · rcases hmem s hs' with rfl | ⟨hs₀, -⟩
      · rw [hs] at hsd
        cases hsd
      · exact h.oneDraft r hr₀ s hs₀ hrp hsp hrd hsd
  · intro r hr s hs' hrp hsp hnum
    rcases hmem r hr with rfl | ⟨hr₀, -⟩
    · rcases hmem s hs' with rfl | ⟨hs₀, -⟩
      · rfl
      · rw [hid]
        exact h.numbers d hd s hs₀ (hp ▸ hrp) hsp (by rw [← hn, hnum])
    · rcases hmem s hs' with rfl | ⟨hs₀, -⟩
      · rw [hid]
        exact h.numbers r hr₀ d hd hrp (hp ▸ hsp) (by rw [hnum, hn])
      · exact h.numbers r hr₀ s hs₀ hrp hsp hnum
  · intro c hc r hr hcp hrp hcs
    rcases hmem c hc with rfl | ⟨hc₀, -⟩
    · rw [hs] at hcs
      cases hcs
    · rcases hmem r hr with rfl | ⟨hr₀, -⟩
      · rw [hn]
        exact h.draftLast c hc₀ d hd hcp (hp ▸ hrp) hcs
      · exact h.draftLast c hc₀ r hr₀ hcp hrp hcs

/-! ### One call -/

/-- The rows a publication starts from. -/
def publicationRows (archived : Bool) (p : ℕ) (rows : List ConfigRevision) : List ConfigRevision :=
  if archived then archiveRows p rows else rows

theorem mem_publicationRows {archived : Bool} {p : ℕ} {rows : List ConfigRevision}
    {r : ConfigRevision} (hr : r ∈ publicationRows archived p rows) :
    ∃ r₀ ∈ rows, r.id = r₀.id ∧ r.projectId = r₀.projectId ∧ r.semVer = r₀.semVer := by
  cases archived with
  | false => exact ⟨r, hr, rfl, rfl, rfl⟩
  | true =>
      rcases Rows.mem_updateWhere.mp hr with ⟨r₀, hr₀, -, rfl⟩ | ⟨hr₀, -⟩
      · exact ⟨r₀, hr₀, rfl, rfl, rfl⟩
      · exact ⟨r, hr₀, rfl, rfl, rfl⟩

theorem publicationRows_distinct {archived : Bool} {p : ℕ} {rows : List ConfigRevision}
    (h : Rows.KeysDistinct ConfigRevision.id rows) :
    Rows.KeysDistinct ConfigRevision.id (publicationRows archived p rows) := by
  cases archived with
  | false => exact h
  | true => exact archiveRows_distinct h

namespace Published

variable {db db' : ConfigDb} {p : ℕ} {archived : Bool}
    {device : Option String} {v : String} {d applied : ConfigRevision}
  {rows tail : List ConfigRevision}

theorem applied_id (h : Published db p archived device v d applied rows tail db') : applied.id = d.id := by
  obtain ⟨_, _, happlied⟩ := h.row
  rw [happlied]

theorem applied_projectId (h : Published db p archived device v d applied rows tail db') :
    applied.projectId = p := by
  obtain ⟨_, _, happlied⟩ := h.row
  rw [happlied]
  exact h.draft.isDraft.1

theorem applied_revisionNumber (h : Published db p archived device v d applied rows tail db') :
    applied.revisionNumber = d.revisionNumber := by
  obtain ⟨_, _, happlied⟩ := h.row
  rw [happlied]

theorem applied_status (h : Published db p archived device v d applied rows tail db') :
    applied.status = .active := by
  obtain ⟨_, _, happlied⟩ := h.row
  rw [happlied]

theorem applied_semVer (h : Published db p archived device v d applied rows tail db') :
    applied.semVer = some v := by
  obtain ⟨_, _, happlied⟩ := h.row
  rw [happlied]

theorem revisions_eq (h : Published db p archived device v d applied rows tail db') :
    db'.revisions = setRow applied (publicationRows archived p rows) ++ tail := h.revisions

theorem mem_base (h : Published db p archived device v d applied rows tail db') :
    d ∈ publicationRows archived p rows := by
  cases archived with
  | false => exact h.draft.mem
  | true => exact mem_archiveRows_of_ne_active h.draft.mem (by simp [h.draft.isDraft.2])

end Published

theorem WithDraft.used {db : ConfigDb} {p : ℕ} {d : ConfigRevision} {rows : List ConfigRevision}
    (hids : IdsOk db) (hd : WithDraft db p d rows) {next : ℕ} (hn : db.nextId ≤ next)
    (hused : d.id < next) : ∀ r ∈ rows, r.id < next := by
  intro r hr
  rcases hd.mem_before hr with hr | rfl
  · exact lt_of_lt_of_le (hids.used r hr) hn
  · exact hused

theorem published_idsOk {db db' : ConfigDb} {p : ℕ} {archived : Bool}
    {device : Option String} {v : String}
    {d applied : ConfigRevision} {rows tail : List ConfigRevision} (hids : IdsOk db)
    (h : Published db p archived device v d applied rows tail db') : IdsOk db' := by
  have hset : Rows.KeysDistinct ConfigRevision.id (setRow applied (publicationRows archived p rows)) := by
    refine (publicationRows_distinct (h.draft.distinct hids)).updateWhere fun r _ hr => ?_
    exact (by simpa using hr : r.id = applied.id).symm
  -- a row of the base is an old row or the draft
  have hbase : ∀ r ∈ setRow applied (publicationRows archived p rows),
      (r.id < db.nextId ∨ r.id = d.id) ∧ r.id < db'.nextId := by
    intro r hr
    rcases mem_setRow hr with rfl | ⟨hr, -⟩
    · exact ⟨.inr h.applied_id, h.applied_id ▸ h.used⟩
    · obtain ⟨r₀, hr₀, hid₀, -⟩ := mem_publicationRows hr
      refine ⟨?_, hid₀ ▸ h.draft.used hids h.next h.used r₀ hr₀⟩
      rcases h.draft.mem_before hr₀ with hr₀ | rfl
      · exact .inl (hid₀ ▸ hids.used r₀ hr₀)
      · exact .inr hid₀
  have hrevs := h.revisions_eq
  rcases h.tail with htail | ⟨id, htail, hle, hne, hlt⟩
  · rw [htail, List.append_nil] at hrevs
    exact ⟨hrevs ▸ hset, fun r hr => (hbase r (hrevs ▸ hr)).2⟩
  · rw [htail] at hrevs
    refine ⟨?_, fun r hr => ?_⟩
    · rw [hrevs]
      refine hset.append_new fun r hr => ?_
      show r.id ≠ id
      rcases (hbase r hr).1 with h₁ | h₁
      · omega
      · rw [h₁]
        exact hne.symm
    · rw [hrevs] at hr
      rcases List.mem_append.mp hr with hr | hr
      · exact (hbase r hr).2
      · rw [List.mem_singleton.mp hr]
        exact hlt

/-- Keys stay distinct and used under every call. -/
theorem idsOk_step {db : ConfigDb} (hids : IdsOk db) (e : ConfigEvent) : IdsOk (step db e) := by
  cases step_effect hids e with
  | still h hn _ =>
      exact ⟨h ▸ hids.distinct, fun r hr => lt_of_lt_of_le (hids.used r (h ▸ hr)) hn⟩
  | ensured p d h => exact ⟨h.draft.distinct hids, h.draft.used hids h.next h.used⟩
  | dropped d hd hs h hn _ =>
      have hsub := Rows.deleteWhere_sublist (fun r => r.id == d.id) db.revisions
      refine ⟨h ▸ hids.distinct.sublist hsub, fun r hr => ?_⟩
      rw [h] at hr
      exact lt_of_lt_of_le (hids.used r (hsub.subset hr)) hn
  | published p hp v d applied rows tail h => exact published_idsOk hids h

/-- A provisioning of the project finds no ACTIVE revision of it. -/
def ProvisionsInactive (p : ℕ) (db : ConfigDb) (e : ConfigEvent) : Prop :=
  match e.call with
  | .provisionProjectContent dto => dto.projectId = p → db.findRevision p .active = none
  | _ => True

/-- A call that publishes without archiving is a provisioning of its target. -/
theorem no_active_of_provisionsInactive {p : ℕ} {db : ConfigDb} {e : ConfigEvent}
    (hC : ProvisionsInactive p db e) (ha : e.archives = false) (ht : e.target db = some p) :
    db.findRevision p .active = none := by
  obtain ⟨peers, call⟩ := e
  cases call with
  | provisionProjectContent dto => exact hC (ConfigService.provisionTarget_eq_some ht)
  | _ => cases ha

theorem maxNumber_lt {db : ConfigDb} {p : ℕ} {r : ConfigRevision} (hr : r ∈ db.revisions)
    (hp : r.projectId = p) : r.revisionNumber < (db.maxRevisionNumber p).getD 0 + 1 := by
  have hmem : r ∈ db.revisions.filter fun r => r.projectId == p :=
    List.mem_filter.mpr ⟨hr, by simp [hp]⟩
  obtain ⟨m, hm, hle⟩ := Rows.le_maxOf (f := ConfigRevision.revisionNumber) hmem
  unfold ConfigDb.maxRevisionNumber
  rw [hm]
  exact Nat.lt_succ_of_le hle

theorem LifecycleInv.withDraft {p q : ℕ} {db : ConfigDb} {d : ConfigRevision}
    {rows : List ConfigRevision} (h : LifecycleInv p db.revisions) (hd : WithDraft db q d rows) :
    LifecycleInv p rows := by
  cases hd with
  | found _ => exact h
  | opened hnone =>
      refine h.append_draft (fun hpq r hr hrp hrd => ?_) fun hpq r hr hrp => ?_
      · have := List.find?_eq_none.mp hnone r hr
        simp [← hpq, hrp, hrd] at this
      · exact maxNumber_lt hr (hrp.trans hpq)

/-- After the publication no ACTIVE row of the project is left to clash with: it was
archived, or there was none. -/
theorem no_active_left {p : ℕ} {db db' : ConfigDb} {archived : Bool}
    {device : Option String} {v : String}
    {d applied : ConfigRevision} {rows tail : List ConfigRevision}
    (h : Published db p archived device v d applied rows tail db')
    (hC : archived = false → db.findRevision p .active = none) :
    ∀ r ∈ publicationRows archived p rows, r.projectId = p → r.status ≠ .active := by
  intro r hr hrp hra
  cases archived with
  | true =>
      rcases Rows.mem_updateWhere.mp hr with ⟨r₀, -, -, rfl⟩ | ⟨-, hn⟩
      · cases hra
      · simp [hrp, hra] at hn
  | false =>
      have hfind := hC rfl
      rw [← h.draft.find_active p] at hfind
      have := List.find?_eq_none.mp hfind r hr
      simp [hrp, hra] at this

theorem LifecycleInv.published {p q : ℕ} {db db' : ConfigDb} {archived : Bool}
    {device : Option String} {v : String}
    {d applied : ConfigRevision} {rows tail : List ConfigRevision}
    (h : LifecycleInv p db.revisions) (hpub : Published db q archived device v d applied rows tail db')
    (hC : archived = false → p = q → db.findRevision p .active = none) :
    LifecycleInv p db'.revisions := by
  have hdraft := hpub.draft.isDraft
  have hbase : LifecycleInv p (publicationRows archived q rows) := by
    cases archived with
    | true => exact (h.withDraft hpub.draft).archiveRows
    | false => exact h.withDraft hpub.draft
  have hset : LifecycleInv p (setRow applied (publicationRows archived q rows)) := by
    refine hbase.setRow_active hpub.mem_base hpub.applied_id
      (hpub.applied_projectId.trans hdraft.1.symm) hpub.applied_revisionNumber hpub.applied_status
      fun hdp => ?_
    have hqp : q = p := hdraft.1.symm.trans hdp
    subst hqp
    exact no_active_left hpub fun ha => hC ha rfl
  rw [hpub.revisions_eq]
  rcases hpub.tail with htail | ⟨id, htail, -⟩
  · rw [htail, List.append_nil]
    exact hset
  · -- the follow-up draft: the published row was the only draft, and the last number
    rw [htail]
    refine hset.append_draft (fun hpq r hr hrp hrd => ?_) fun hpq r hr hrp => ?_
    · rcases mem_setRow hr with rfl | ⟨hr, hne⟩
      · rw [hpub.applied_status] at hrd
        cases hrd
      · exact hne (hbase.oneDraft r hr d hpub.mem_base hrp (hdraft.1.trans hpq.symm) hrd hdraft.2 ▸
          hpub.applied_id.symm)
    · rcases mem_setRow hr with rfl | ⟨hr, -⟩
      · rw [hpub.applied_revisionNumber]
        exact Nat.lt_succ_self _
      · exact Nat.lt_succ_of_le
          (hbase.draftLast d hpub.mem_base r hr (hdraft.1.trans hpq.symm) hrp hdraft.2)

/-- **Step.** A call keeps the lifecycle, unless it provisions a project that has an
ACTIVE revision. -/
theorem lifecycleInv_step {p : ℕ} {db : ConfigDb} (hids : IdsOk db)
    (h : LifecycleInv p db.revisions) (e : ConfigEvent) (hC : ProvisionsInactive p db e) :
    LifecycleInv p (step db e).revisions := by
  cases step_effect hids e with
  | still hr _ _ => exact hr ▸ h
  | ensured q d hens => exact h.withDraft hens.draft
  | dropped d _ _ hr _ _ =>
      rw [hr]
      exact h.subset fun r hr => (Rows.deleteWhere_sublist _ _).subset hr
  | published q hq v d applied rows tail hpub =>
      exact h.published hpub fun ha hpq => no_active_of_provisionsInactive hC ha (hpq ▸ hq)

/-! ### Runs -/

/-- **Main result.** In every run from an empty revision table in which provisioning
only meets projects without an ACTIVE revision, every state reached keeps the
lifecycle of the project. -/
theorem lifecycle_along_runs (p : ℕ) (db : ConfigDb) (hempty : db.revisions = [])
    (es : List ConfigEvent) (hC : Along step (ProvisionsInactive p) db es) :
    ProjectLifecycle (run step db es) p := by
  have hstart : IdsOk db ∧ LifecycleInv p db.revisions := by
    refine ⟨⟨?_, ?_⟩, ?_, ?_, ?_, ?_⟩ <;> simp [hempty, Rows.KeysDistinct]
  have hrun : IdsOk (run step db es) ∧ LifecycleInv p (run step db es).revisions := by
    refine invariant_along (I := fun s => IdsOk s ∧ LifecycleInv p s.revisions) ?_ hstart hC
    intro s e hs hCe
    exact ⟨idsOk_step hs.1 e, lifecycleInv_step hs.1 hs.2 e hCe⟩
  exact hrun.2.projectLifecycle hrun.1

/-- The event that provisions the device project of the small world. -/
def provisionEvent : ConfigEvent := ⟨smallPeers, .provisionProjectContent ⟨1, "dev-1", none⟩⟩

theorem lifecycle_after_provisioning_and_apply :
    ProjectLifecycle (run step smallDb
      [provisionEvent, ⟨smallPeers, .applyRevision ⟨.id 1, none⟩⟩]) 1 :=
  lifecycle_along_runs 1 smallDb rfl _
    ⟨fun _ => rfl, trivial, trivial⟩

/-- A provisioning event delivered twice publishes the draft that the first delivery
left, next to the revision it published. -/
theorem redelivered_provisioning_two_active :
    ¬ ProjectLifecycle (run step smallDb [provisionEvent, provisionEvent]) 1 := by
  intro h
  have hcount : ((run step smallDb [provisionEvent, provisionEvent]).revisionsIn 1 .active).length = 2 := by
    decide
  have hle := h.active
  omega

end UploadService
