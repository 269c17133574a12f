import UploadService.Life.PendingPass

/-!
# Runs of the pass over pending files

Every step makes the work that is left smaller, so the pass ends. A row that leaves the pending
ones while a later page is still to be read moves the rows after it in front of the next offset,
and a row there is never read again; so the pass examines every pending file exactly when
nothing leaves a page that another follows.

Main results:

- `pass_ends`: the pass ends, whatever the timing of its updates;
- `examinesAll_iff`: and it examines every pending file exactly where each row was created
  before it started and `PagesStay`;
- `eleven_files_missed`: eleven files of which ten are in the bucket.
-/

namespace UploadService

namespace PendingPass

open Relation

variable {env : PassEnv} {rows files : List DatedUpload} {s s' : PassState}

/-! ### Slices -/

theorem mem_of_mem_slices {batch : List DatedUpload} (hbatch : batch ∈ slices files) :
    batch ⊆ files := by
  obtain ⟨i, -, rfl⟩ := List.mem_map.mp hbatch
  exact fun f hf => List.mem_of_mem_drop (List.mem_of_mem_take hf)

theorem length_of_mem_slices {batch : List DatedUpload} (hbatch : batch ∈ slices files) :
    batch.length ≤ processingBatchSize := by
  obtain ⟨i, -, rfl⟩ := List.mem_map.mp hbatch
  exact List.length_take_le _ _

theorem length_slices (h : files.length ≤ batchSize) : (slices files).length ≤ 2 := by
  unfold slices batchSize processingBatchSize at *
  rw [List.length_map, List.length_range]
  omega

/-- Every file of a page is in one of its batches. -/
theorem exists_mem_slices {f : DatedUpload} (hf : f ∈ files) : ∃ batch ∈ slices files, f ∈ batch := by
  obtain ⟨i, hi, rfl⟩ := List.mem_iff_getElem.mp hf
  refine ⟨_, List.mem_map.mpr ⟨i / processingBatchSize, ?_, rfl⟩, ?_⟩
  · unfold processingBatchSize
    rw [List.mem_range]
    omega
  · unfold processingBatchSize
    rw [List.mem_take_iff_getElem]
    refine ⟨i % 5, ?_, ?_⟩
    · rw [List.length_drop]
      omega
    · rw [List.getElem_drop]
      congr 1
      omega

/-! ### What a step does to the pending rows -/

/-- Only rows that stay are still pending. -/
def Shrinks (env : PassEnv) (rows rows' : List DatedUpload) : Prop :=
  ∃ stays : DatedUpload → Bool, rows'.filter (isPending env) = (rows.filter (isPending env)).filter stays

theorem Shrinks.refl (rows : List DatedUpload) : Shrinks env rows rows :=
  ⟨fun _ => true, by simp⟩

theorem Shrinks.trans {rows₁ rows₂ rows₃ : List DatedUpload} (h : Shrinks env rows₁ rows₂)
    (h' : Shrinks env rows₂ rows₃) : Shrinks env rows₁ rows₃ := by
  obtain ⟨p, hp⟩ := h
  obtain ⟨q, hq⟩ := h'
  exact ⟨fun f => p f && q f, by rw [hq, hp, List.filter_filter]; simp [Bool.and_comm]⟩

/-- The row with this key is not pending any more. -/
def Gone (env : PassEnv) (objectKey : String) (rows : List DatedUpload) : Prop :=
  ∀ f ∈ rows, f.objectKey = objectKey → isPending env f = false

/-- An update after which a row is not pending. -/
theorem shrinks_updateWhere {q : DatedUpload → Bool} {g : DatedUpload → DatedUpload}
    (hg : ∀ f, isPending env (g f) = false) (rows : List DatedUpload) :
    Shrinks env rows (Rows.updateWhere q g rows) := by
  refine ⟨fun f => !q f, ?_⟩
  induction rows with
  | nil => rfl
  | cons f rows ih =>
      show (List.filter _ ((if q f then g f else f) :: Rows.updateWhere q g rows)) = _
      cases hq : q f with
      | true =>
          rw [if_pos rfl, List.filter_cons_of_neg (by simp [hg]), ih, List.filter_cons]
          split
          · rw [List.filter_cons_of_neg (by simp [hq])]
          · rfl
      | false =>
          rw [if_neg Bool.false_ne_true, List.filter_cons, List.filter_cons, ih]
          split
          · rw [List.filter_cons_of_pos (by simp [hq])]
          · rfl

theorem gone_updateWhere {q : DatedUpload → Bool} {g : DatedUpload → DatedUpload}
    (hg : ∀ f, isPending env (g f) = false) {objectKey : String}
    (h : Gone env objectKey rows ∨ ∀ f, f.objectKey = objectKey → q f = true) :
    Gone env objectKey (Rows.updateWhere q g rows) := by
  intro f hf hof
  rcases Rows.mem_updateWhere.mp hf with ⟨x, -, -, rfl⟩ | ⟨hmem, hq⟩
  · exact hg x
  · rcases h with hgone | hall
    · exact hgone f hmem hof
    · rw [hall f hof] at hq
      cases hq

theorem updateUploadFile_shrinks (objectKey : String) (rows : List DatedUpload) :
    Shrinks env rows (updateUploadFile env objectKey rows) := by
  unfold updateUploadFile
  split
  · exact .refl rows
  · exact shrinks_updateWhere (fun _ => rfl) rows

theorem updateUploadFile_gone {key objectKey : String}
    (h : Gone env objectKey rows ∨ (key = objectKey ∧ objectKey ≠ "")) :
    Gone env objectKey (updateUploadFile env key rows) := by
  unfold updateUploadFile
  split
  · rename_i hempty
    rcases h with hgone | ⟨rfl, hne⟩
    · exact hgone
    · exact absurd hempty hne
  · apply gone_updateWhere fun _ => rfl
    rcases h with hgone | ⟨rfl, -⟩
    · exact .inl hgone
    · exact .inr fun f hf => beq_iff_eq.mpr hf

theorem markAbandoned_shrinks (staleFiles rows : List DatedUpload) :
    Shrinks env rows (markAbandoned staleFiles rows) :=
  shrinks_updateWhere (fun _ => rfl) rows

theorem markAbandoned_gone {staleFiles : List DatedUpload} {objectKey : String}
    (h : Gone env objectKey rows ∨ ∃ f ∈ staleFiles, f.objectKey = objectKey) :
    Gone env objectKey (markAbandoned staleFiles rows) := by
  apply gone_updateWhere fun _ => rfl
  rcases h with hgone | ⟨f, hf, rfl⟩
  · exact .inl hgone
  · exact .inr fun g hg => List.any_eq_true.mpr ⟨f, hf, by simp [hg]⟩

@[simp] theorem length_updateUploadFile (objectKey : String) (rows : List DatedUpload) :
    (updateUploadFile env objectKey rows).length = rows.length := by
  unfold updateUploadFile
  split
  · rfl
  · exact Rows.length_updateWhere _ _ _

@[simp] theorem length_markAbandoned (staleFiles rows : List DatedUpload) :
    (markAbandoned staleFiles rows).length = rows.length :=
  Rows.length_updateWhere _ _ _

/-- **Step.** No row becomes pending. -/
theorem PassStep.shrinks (h : PassStep env s s') : Shrinks env s.rows s'.rows := by
  cases h with
  | read skip order hphase horder => exact .refl _
  | batch skip full batch rest hphase => exact markAbandoned_shrinks _ _
  | page skip full hphase => exact .refl _
  | update before after objectKey hstarted => exact updateUploadFile_shrinks _ _

/-! ### The end of the pass -/

/-- The work that is left of a phase, for a table of this length. -/
def PassPhase.work (length : ℕ) : PassPhase → ℕ
  | .reading skip => 4 * (length + batchSize - skip) + 4
  | .processing skip _ batches => 4 * (length + batchSize - skip) + batches.length
  | .finished => 0

/-- The work that is left: a batch starts fewer updates than its weight. -/
def work (s : PassState) : ℕ :=
  (processingBatchSize + 1) * s.phase.work s.rows.length + s.updates.length

/-- The page that is processed has an offset inside the table, and small batches. -/
def PassPhase.Within (length : ℕ) : PassPhase → Prop
  | .processing skip _ batches =>
      skip < length ∧ ∀ batch ∈ batches, batch.length ≤ processingBatchSize
  | _ => True

theorem afterRead_eq (skip : ℕ) (files : List DatedUpload) :
    (files = [] ∧ afterRead skip files = .finished) ∨
      (files ≠ [] ∧
        afterRead skip files = .processing skip (files.length == batchSize) (slices files)) := by
  cases files with
  | nil => exact .inl ⟨rfl, rfl⟩
  | cons f files => exact .inr ⟨List.cons_ne_nil f files, rfl⟩

/-- A page is read: an empty one ends the pass. -/
theorem afterRead_work {skip : ℕ} {order : List DatedUpload} (hlength : order.length ≤ rows.length) :
    (afterRead skip ((order.drop skip).take batchSize)).Within rows.length ∧
      (afterRead skip ((order.drop skip).take batchSize)).work rows.length + 2 ≤
        (PassPhase.reading skip).work rows.length := by
  have hshort : ((order.drop skip).take batchSize).length ≤ batchSize := List.length_take_le _ _
  rcases afterRead_eq skip ((order.drop skip).take batchSize) with ⟨-, h⟩ | ⟨hne, h⟩
  · rw [h]
    refine ⟨trivial, ?_⟩
    show 0 + 2 ≤ _ + 4
    omega
  · rw [h]
    have hinside : skip < order.length := by
      by_contra hout
      apply hne
      rw [List.drop_of_length_le (by omega), List.take_nil]
    refine ⟨⟨by omega, fun batch hbatch => length_of_mem_slices hbatch⟩, ?_⟩
    have hfew := length_slices hshort
    show _ + (slices _).length + 2 ≤ _ + 4
    omega

/-- **Step.** Every step makes the work smaller. -/
theorem passStep_decreasing :
    Ending.Decreasing (PassStep env) (fun s => s.phase.Within s.rows.length) work := by
  intro s s' hs hstep
  unfold work processingBatchSize
  cases hstep with
  | read skip order hphase horder =>
      have hlength : order.length ≤ s.rows.length := by
        rw [horder.1.length_eq]
        exact List.length_filter_le _ _
      obtain ⟨hwithin, hwork⟩ := @afterRead_work s.rows skip order hlength
      refine ⟨hwithin, ?_⟩
      rw [hphase]
      show (5 + 1) * (afterRead _ _).work s.rows.length + s.updates.length < _
      omega
  | batch skip full batch rest hphase =>
      rw [hphase] at hs ⊢
      obtain ⟨hskip, hbatches⟩ := hs
      have hfew : ((batch.filter (isFound env)).map (·.objectKey)).length ≤ 5 := by
        rw [List.length_map]
        have := List.length_filter_le (isFound env) batch
        have hsmall : batch.length ≤ 5 := hbatches batch List.mem_cons_self
        omega
      refine ⟨?_, ?_⟩
      · show skip < (markAbandoned _ s.rows).length ∧ _
        rw [length_markAbandoned]
        exact ⟨hskip, fun b hb => hbatches b (List.mem_cons_of_mem batch hb)⟩
      · show (5 + 1) * (4 * ((markAbandoned _ s.rows).length + batchSize - skip) + rest.length) +
          (s.updates ++ _).length < (5 + 1) * (4 * _ + (batch :: rest).length) + _
        rw [length_markAbandoned, List.length_append, List.length_cons]
        omega
  | page skip full hphase =>
      rw [hphase] at hs ⊢
      have hskip : skip < s.rows.length := hs.1
      cases full with
      | true =>
          refine ⟨trivial, ?_⟩
          show (5 + 1) * (4 * (s.rows.length + batchSize - (skip + batchSize)) + 4) + s.updates.length <
            (5 + 1) * (4 * (s.rows.length + batchSize - skip) + 0) + s.updates.length
          unfold batchSize
          omega
      | false =>
          refine ⟨trivial, ?_⟩
          show (5 + 1) * 0 + s.updates.length <
            (5 + 1) * (4 * (s.rows.length + batchSize - skip) + 0) + s.updates.length
          omega
  | update before after objectKey hstarted =>
      refine ⟨?_, ?_⟩
      · show s.phase.Within (updateUploadFile env objectKey s.rows).length
        rw [length_updateUploadFile]
        exact hs
      · show (5 + 1) * s.phase.work (updateUploadFile env objectKey s.rows).length +
          (before ++ after).length < _
        rw [length_updateUploadFile, hstarted, List.length_append, List.length_append, List.length_cons]
        omega

/-- **Main result.** The pass ends, whatever the timing of its updates. -/
theorem pass_ends (env : PassEnv) (rows : List DatedUpload) :
    Ending.Ends (PassStep env) (start rows) :=
  passStep_decreasing.ends trivial

/-- The rows in the order of their dates are what the query may answer. -/
theorem pendingFiles_listing (env : PassEnv) (rows : List DatedUpload) :
    IsListing env rows (pendingFiles env rows) := by
  let newer : DatedUpload → DatedUpload → Prop := fun a b => b.createdDate ≤ a.createdDate
  have : Std.Total newer := ⟨fun a b => Nat.le_total _ _⟩
  have : IsTrans DatedUpload newer := ⟨fun _ _ _ hab hbc => Nat.le_trans hbc hab⟩
  exact ⟨List.perm_insertionSort newer _, List.pairwise_insertionSort newer _⟩

/-- A pass that is not finished can go on. -/
theorem pass_proceeds (h : s.phase ≠ .finished) : ∃ s', PassStep env s s' := by
  cases hphase : s.phase with
  | reading skip => exact ⟨_, .read skip _ hphase (pendingFiles_listing env s.rows)⟩
  | processing skip full batches =>
      cases batches with
      | nil => exact ⟨_, .page skip full hphase⟩
      | cons batch rest => exact ⟨_, .batch skip full batch rest hphase⟩
  | finished => exact absurd hphase h

/-! ### Pages from which nothing leaves -/

section Stay

/-- Nothing has happened to the rows, and no update under way will change one. -/
def Untouched (rows : List DatedUpload) (s : PassState) : Prop :=
  s.rows = rows ∧ ∀ objectKey ∈ s.updates, objectKey = ""

/-- The files before the offset are looked up, and nothing has happened to the rows while files
remain. -/
def PassPhase.Covers (env : PassEnv) (files : List DatedUpload) (lookedUp : List ℕ)
    (untouched : Prop) : PassPhase → Prop
  | .reading skip => ∃ k, skip = batchSize * k ∧
      (∀ f ∈ files.take (batchSize * k), f.id ∈ lookedUp) ∧
      (batchSize * k < files.length → untouched)
  | .processing skip full batches => ∃ k, skip = batchSize * k ∧
      (∀ f ∈ files.take (batchSize * (k + 1)), f.id ∈ lookedUp ∨ ∃ batch ∈ batches, f ∈ batch) ∧
      (full = false → files.length ≤ batchSize * (k + 1)) ∧
      (batchSize * (k + 1) < files.length →
        untouched ∧ ∀ batch ∈ batches, ∀ f ∈ batch, mayLeave env f = false)
  | .finished => ∀ f ∈ files, f.id ∈ lookedUp

theorem PassPhase.Covers.mono {lookedUp : List ℕ} {untouched untouched' : Prop} {phase : PassPhase}
    (h : phase.Covers env files lookedUp untouched) (himp : untouched → untouched') :
    phase.Covers env files lookedUp untouched' := by
  cases phase with
  | reading skip =>
      obtain ⟨k, hk, hlooked, huntouched⟩ := h
      exact ⟨k, hk, hlooked, fun hlt => himp (huntouched hlt)⟩
  | processing skip full batches =>
      obtain ⟨k, hk, hlooked, hfull, huntouched⟩ := h
      exact ⟨k, hk, hlooked, hfull, fun hlt => ⟨himp (huntouched hlt).1, (huntouched hlt).2⟩⟩
  | finished => exact h

/-- A listing has the files of the first pages before the same offset. -/
theorem PagesStay.mem_take_iff (hstay : PagesStay env (pendingFiles env rows))
    {order : List DatedUpload} (horder : IsListing env rows order) (k : ℕ) {f : DatedUpload} :
    f ∈ order.take (batchSize * k) ↔ f ∈ (pendingFiles env rows).take (batchSize * k) := by
  obtain ⟨hperm, hsorted⟩ := pendingFiles_listing env rows
  apply Pages.mem_take_iff hsorted horder.2 (horder.1.trans hperm.symm)
  intro hlt
  cases k with
  | zero => exact fun a ha => absurd ha (by simp)
  | succ k => exact (hstay k (by unfold batchSize at hlt; omega) hlt).2

/-- A row that may not leave starts no update. -/
theorem mayLeave_false {f : DatedUpload} (h : mayLeave env f = false) :
    isStale env f = false ∧ (isFound env f = true → f.objectKey = "") := by
  unfold mayLeave at h
  obtain ⟨hfound, hstale⟩ := Bool.or_eq_false_iff.mp h
  refine ⟨hstale, fun hf => ?_⟩
  rw [hf, Bool.true_and] at hfound
  simpa using hfound

theorem markAbandoned_nil (rows : List DatedUpload) : markAbandoned [] rows = rows :=
  Rows.updateWhere_eq_self fun f _ hf => absurd hf (by simp)

/-- A batch of rows that stay changes nothing. -/
theorem processBatch_untouched (h : Untouched rows s) {batch : List DatedUpload}
    (hbatch : ∀ f ∈ batch, mayLeave env f = false) (skip : ℕ) (full : Bool)
    (rest : List (List DatedUpload)) : Untouched rows (processBatch env skip full batch rest s) := by
  obtain ⟨hrows, hupdates⟩ := h
  constructor
  · have hnone : batch.filter (isStale env) = [] := by
      rw [List.filter_eq_nil_iff]
      intro f hf
      rw [(mayLeave_false (hbatch f hf)).1]
      exact Bool.false_ne_true
    show markAbandoned (batch.filter (isStale env)) s.rows = rows
    rw [hnone, markAbandoned_nil, hrows]
  · intro objectKey hkey
    rcases List.mem_append.mp hkey with hold | hnew
    · exact hupdates objectKey hold
    · obtain ⟨f, hf, rfl⟩ := List.mem_map.mp hnew
      obtain ⟨hmem, hfound⟩ := List.mem_filter.mp hf
      exact (mayLeave_false (hbatch f hmem)).2 hfound

/-- **Step.** Every step covers what comes before its offset. -/
theorem covers_step (hstay : PagesStay env (pendingFiles env rows)) (h : PassStep env s s')
    (hshrinks : Shrinks env rows s.rows)
    (hcovers : s.phase.Covers env (pendingFiles env rows) s.lookedUp (Untouched rows s)) :
    s'.phase.Covers env (pendingFiles env rows) s'.lookedUp (Untouched rows s') := by
  have hall : (pendingFiles env rows).length = (rows.filter (isPending env)).length :=
    (pendingFiles_listing env rows).1.length_eq
  cases h with
  | read skip order hphase horder =>
      rw [hphase] at hcovers
      obtain ⟨k, rfl, hlooked, huntouched⟩ := hcovers
      set page := (order.drop (batchSize * k)).take batchSize with hpage
      have hlength : order.length ≤ (pendingFiles env rows).length := by
        obtain ⟨stays, hstays⟩ := hshrinks
        rw [hall, horder.1.length_eq, hstays]
        exact List.length_filter_le _ _
      by_cases hlt : batchSize * k < (pendingFiles env rows).length
      · have hsame := huntouched hlt
        rw [hsame.1] at horder
        have htake : order.take (batchSize * (k + 1)) = order.take (batchSize * k) ++ page := by
          rw [Nat.mul_succ, List.take_add]
        have hlong : order.length = (pendingFiles env rows).length := by
          rw [hall, horder.1.length_eq]
        have hpagelength : page.length =
            min batchSize ((pendingFiles env rows).length - batchSize * k) := by
          rw [hpage, List.length_take, List.length_drop, hlong]
        rcases afterRead_eq (batchSize * k) page with ⟨hnil, -⟩ | ⟨-, hprocessing⟩
        · rw [hnil] at hpagelength
          unfold batchSize at hpagelength hlt
          simp only [List.length_nil] at hpagelength
          omega
        · show (afterRead (batchSize * k) page).Covers env _ s.lookedUp _
          rw [hprocessing]
          refine ⟨k, rfl, fun f hf => ?_, fun hfull => ?_, fun hmore => ⟨hsame, ?_⟩⟩
          · rw [← hstay.mem_take_iff horder, htake, List.mem_append] at hf
            rcases hf with hbefore | hin
            · exact .inl (hlooked f ((hstay.mem_take_iff horder k).mp hbefore))
            · exact .inr (exists_mem_slices hin)
          · have hne : page.length ≠ batchSize := by simpa using hfull
            unfold batchSize at *
            omega
          · intro batch hbatch f hf
            have hin : f ∈ order.take (batchSize * (k + 1)) := by
              rw [htake]
              exact List.mem_append_right _ (mem_of_mem_slices hbatch hf)
            rw [hstay.mem_take_iff horder] at hin
            exact (hstay k (by unfold batchSize at hmore; omega) hmore).1 f hin
      · have hempty : page = [] := by
          rw [hpage, List.drop_of_length_le (by omega), List.take_nil]
        show (afterRead (batchSize * k) page).Covers env _ s.lookedUp _
        rw [hempty]
        intro f hf
        apply hlooked f
        rw [List.take_of_length_le (by omega)]
        exact hf
  | batch skip full batch rest hphase =>
      rw [hphase] at hcovers
      obtain ⟨k, hk, hlooked, hfull, huntouched⟩ := hcovers
      refine ⟨k, hk, fun f hf => ?_, hfull, fun hmore => ?_⟩
      · show f.id ∈ s.lookedUp ++ batch.map (·.id) ∨ _
        rcases hlooked f hf with hid | ⟨b, hb, hin⟩
        · exact .inl (List.mem_append_left _ hid)
        · rcases List.mem_cons.mp hb with rfl | hb
          · exact .inl (List.mem_append_right _ (List.mem_map_of_mem hin))
          · exact .inr ⟨b, hb, hin⟩
      · obtain ⟨hsame, hbatches⟩ := huntouched hmore
        exact ⟨processBatch_untouched hsame (hbatches batch List.mem_cons_self) skip full rest,
          fun b hb => hbatches b (List.mem_cons_of_mem batch hb)⟩
  | page skip full hphase =>
      rw [hphase] at hcovers
      obtain ⟨k, rfl, hlooked, hfull, huntouched⟩ := hcovers
      have hlooked' : ∀ f ∈ (pendingFiles env rows).take (batchSize * (k + 1)), f.id ∈ s.lookedUp := by
        intro f hf
        rcases hlooked f hf with hid | ⟨b, hb, -⟩
        · exact hid
        · cases hb
      cases full with
      | true => exact ⟨k + 1, rfl, hlooked', fun hmore => (huntouched hmore).1⟩
      | false =>
          intro f hf
          apply hlooked' f
          rw [List.take_of_length_le (hfull rfl)]
          exact hf
  | update before after objectKey hstarted =>
      apply hcovers.mono
      rintro ⟨hrows, hupdates⟩
      rw [hstarted] at hupdates
      have hempty : objectKey = "" :=
        hupdates objectKey (List.mem_append_right _ List.mem_cons_self)
      constructor
      · show updateUploadFile env objectKey s.rows = rows
        rw [hempty, ← hrows]
        rfl
      · intro key hkey
        apply hupdates key
        rcases List.mem_append.mp hkey with hmem | hmem
        · exact List.mem_append_left _ hmem
        · exact List.mem_append_right _ (List.mem_cons_of_mem _ hmem)

/-- **Run.** Where nothing leaves a page that another follows, the pass ends after every file. -/
theorem examinesAll_of_pagesStay (hdates : ∀ f ∈ rows, f.status = .pending →
    f.createdDate ≤ env.now * 1000) (hstay : PagesStay env (pendingFiles env rows)) :
    ExaminesAll env rows where
  ends := pass_ends env rows
  proceeds := fun s _ h => pass_proceeds h
  examined := by
    intro s hreach hfinished f hf hpending
    have hinv := @Ending.invariant_reaches _ (PassStep env)
      (fun s => Shrinks env rows s.rows ∧
        s.phase.Covers env (pendingFiles env rows) s.lookedUp (Untouched rows s))
      (fun s s' h hstep => ⟨h.1.trans hstep.shrinks, covers_step hstay hstep h.1 h.2⟩)
      (start rows) s ⟨.refl rows, 0, rfl, fun f hf => absurd hf (by simp), fun _ => ⟨rfl, nofun⟩⟩
      hreach
    have hcovers := hinv.2
    rw [hfinished] at hcovers
    apply hcovers f
    rw [(pendingFiles_listing env rows).1.mem_iff, List.mem_filter]
    exact ⟨hf, by simp [isPending, hpending, hdates f hf hpending]⟩

end Stay

/-! ### Files that are missed -/

section Missed

theorem IsListing.filter {order : List DatedUpload} {rows' : List DatedUpload}
    (h : IsListing env rows order) {stays : DatedUpload → Bool}
    (hrows : rows'.filter (isPending env) = (rows.filter (isPending env)).filter stays) :
    IsListing env rows' (order.filter stays) := by
  refine ⟨?_, h.2.filter stays⟩
  rw [hrows]
  exact h.1.filter stays

/-- In this order, no page that is still to be processed has the file. -/
def PassPhase.Misses (id : ℕ) (order : List DatedUpload) : PassPhase → Prop
  | .reading skip => ∀ f ∈ order.drop skip, f.id ≠ id
  | .processing skip _ batches => (∀ batch ∈ batches, ∀ f ∈ batch, f.id ≠ id) ∧
      ∀ f ∈ order.drop (skip + batchSize), f.id ≠ id
  | .finished => True

/-- The file is not looked up, and in some order it is not going to be. -/
def Missed (env : PassEnv) (id : ℕ) (s : PassState) : Prop :=
  id ∉ s.lookedUp ∧ ∃ order, IsListing env s.rows order ∧ s.phase.Misses id order

/-- **Step.** A pass that is not finished can go on without the file. -/
theorem missed_proceeds {id : ℕ} (h : Missed env id s) (hphase : s.phase ≠ .finished) :
    ∃ s', PassStep env s s' ∧ Missed env id s' := by
  obtain ⟨hnot, order, horder, hmisses⟩ := h
  cases hs : s.phase with
  | reading skip =>
      rw [hs] at hmisses
      refine ⟨_, .read skip order hs horder, hnot, order, horder, ?_⟩
      set page := (order.drop skip).take batchSize with hpage
      show (afterRead skip page).Misses id order
      rcases afterRead_eq skip page with ⟨-, hafter⟩ | ⟨-, hafter⟩
      · rw [hafter]
        trivial
      · rw [hafter]
        refine ⟨fun batch hbatch f hf => ?_, fun f hf => ?_⟩
        · exact hmisses f (List.mem_of_mem_take (mem_of_mem_slices hbatch hf))
        · rw [← List.drop_drop] at hf
          exact hmisses f (List.mem_of_mem_drop hf)
  | processing skip full batches =>
      rw [hs] at hmisses
      obtain ⟨hbatches, hrest⟩ := hmisses
      cases batches with
      | nil =>
          refine ⟨_, .page skip full hs, hnot, order, horder, ?_⟩
          cases full with
          | true => exact hrest
          | false => trivial
      | cons batch rest =>
          have hstep := @PassStep.batch env s skip full batch rest hs
          obtain ⟨stays, hstays⟩ := hstep.shrinks
          refine ⟨_, hstep, fun hid => ?_, order.filter stays, horder.filter hstays, ?_⟩
          · rcases List.mem_append.mp hid with hold | hnew
            · exact hnot hold
            · obtain ⟨f, hf, hfid⟩ := List.mem_map.mp hnew
              exact hbatches batch List.mem_cons_self f hf hfid
          · refine ⟨fun b hb => hbatches b (List.mem_cons_of_mem batch hb), fun f hf => ?_⟩
            exact hrest f (Pages.drop_filter_subset stays (Nat.le_refl _) hf)
  | finished => exact absurd hs hphase

theorem Reaches.within (h : Reaches env (start rows) s) : s.phase.Within s.rows.length :=
  @Ending.invariant_reaches _ (PassStep env) (fun s => s.phase.Within s.rows.length)
    (fun s s' hs hstep => (passStep_decreasing s s' hs hstep).1) (start rows) s trivial h

theorem Reaches.shrinks (h : Reaches env s s') : Shrinks env s.rows s'.rows := by
  induction h with
  | refl => exact .refl _
  | tail _ hlast ih => exact ih.trans hlast.shrinks

/-- **Run.** A file that is missed is not looked up to the end of the pass. -/
theorem not_examined_of_missed {id : ℕ} (hreach : Reaches env (start rows) s)
    (h : Missed env id s) :
    ∃ s', Reaches env (start rows) s' ∧ s'.phase = .finished ∧ id ∉ s'.lookedUp := by
  have hdecreasing := @passStep_decreasing env
  obtain ⟨s', hrest, hmissed, hfinished⟩ := @Ending.Decreasing.finishes _ _ _ _ hdecreasing
    (Missed env id) (fun s => s.phase = .finished)
    (fun s _ hmissed hphase => missed_proceeds hmissed hphase) s hreach.within h
  exact ⟨s', hreach.trans hrest, hfinished, hmissed.1⟩

/-- An update changes the row of a file, or it is under way. -/
def Leaving (env : PassEnv) (f : DatedUpload) (s : PassState) : Prop :=
  Gone env f.objectKey s.rows ∨ (f.objectKey ∈ s.updates ∧ f.objectKey ≠ "")

/-- The batches of a page are looked up, before any of the updates is made. -/
theorem batches_run {skip : ℕ} {full : Bool} {batches : List (List DatedUpload)}
    (hphase : s.phase = .processing skip full batches) :
    ∃ s', Reaches env s s' ∧ s'.phase = .processing skip full [] ∧
      (∀ id ∈ s'.lookedUp, id ∈ s.lookedUp ∨ ∃ batch ∈ batches, ∃ f ∈ batch, f.id = id) ∧
      (Untouched rows s → (∀ batch ∈ batches, ∀ f ∈ batch, mayLeave env f = false) →
        Untouched rows s') ∧
      (∀ f, Leaving env f s → Leaving env f s') ∧
      ∀ batch ∈ batches, ∀ f ∈ batch, mayLeave env f = true → Leaving env f s' := by
  induction batches generalizing s with
  | nil =>
      exact ⟨s, .refl, hphase, fun id hid => .inl hid, fun h _ => h, fun _ h => h,
        fun b hb => absurd hb List.not_mem_nil⟩
  | cons batch rest ih =>
      obtain ⟨s', hreach, hphase', hlooked, huntouched, hleaving, hrest⟩ :=
        @ih (processBatch env skip full batch rest s) rfl
      have hkept : ∀ f, Leaving env f s → Leaving env f (processBatch env skip full batch rest s) := by
        rintro f (hgone | ⟨hkey, hne⟩)
        · exact .inl (markAbandoned_gone (.inl hgone))
        · exact .inr ⟨List.mem_append_left _ hkey, hne⟩
      refine ⟨s', hreach.head (.batch skip full batch rest hphase), hphase', fun id hid => ?_,
        fun h hstay => ?_, fun f hf => hleaving f (hkept f hf), fun b hb f hf hmay => ?_⟩
      · rcases hlooked id hid with hold | ⟨b, hb, f, hf, hfid⟩
        · rcases List.mem_append.mp hold with hbefore | hin
          · exact .inl hbefore
          · obtain ⟨f, hf, hfid⟩ := List.mem_map.mp hin
            exact .inr ⟨batch, List.mem_cons_self, f, hf, hfid⟩
        · exact .inr ⟨b, List.mem_cons_of_mem batch hb, f, hf, hfid⟩
      · exact huntouched (processBatch_untouched h (hstay batch List.mem_cons_self) skip full rest)
          fun b hb => hstay b (List.mem_cons_of_mem batch hb)
      · rcases List.mem_cons.mp hb with rfl | hb
        · apply hleaving f
          rcases Bool.or_eq_true_iff.mp hmay with hfound | hstale
          · obtain ⟨hfound, hne⟩ := Bool.and_eq_true_iff.mp hfound
            refine .inr ⟨List.mem_append_right _ ?_, by simpa using hne⟩
            exact List.mem_map_of_mem (List.mem_filter.mpr ⟨hf, hfound⟩)
          · refine .inl (markAbandoned_gone (.inr ⟨f, ?_, rfl⟩))
            exact List.mem_filter.mpr ⟨hf, hstale⟩
        · exact hrest b hb f hf hmay

/-- All the updates under way are made. -/
theorem updates_run (s : PassState) :
    ∃ s', Reaches env s s' ∧ s'.phase = s.phase ∧ s'.lookedUp = s.lookedUp ∧
      ∀ f, Leaving env f s → Gone env f.objectKey s'.rows := by
  induction hupdates : s.updates generalizing s with
  | nil =>
      refine ⟨s, .refl, rfl, rfl, ?_⟩
      rintro f (hgone | ⟨hkey, -⟩)
      · exact hgone
      · rw [hupdates] at hkey
        cases hkey
  | cons key keys ih =>
      obtain ⟨s', hreach, hphase, hlooked, hgone⟩ := ih { s with
        rows := updateUploadFile env key s.rows
        updates := keys } rfl
      refine ⟨s', hreach.head (.update [] keys key hupdates), hphase, hlooked, fun f hf => ?_⟩
      apply hgone f
      rcases hf with hbefore | ⟨hmem, hne⟩
      · exact .inl (updateUploadFile_gone (.inl hbefore))
      · rw [hupdates] at hmem
        rcases List.mem_cons.mp hmem with rfl | hmem
        · exact .inl (updateUploadFile_gone (.inr ⟨rfl, hne⟩))
        · exact .inr ⟨hmem, hne⟩

/-- A full page of untouched rows is read and looked up. -/
theorem page_run {order : List DatedUpload} (horder : IsListing env rows order) {k : ℕ}
    (hpage : batchSize * (k + 1) ≤ order.length) (hphase : s.phase = .reading (batchSize * k))
    (hsame : Untouched rows s)
    (hlooked : ∀ id ∈ s.lookedUp, ∃ f ∈ order.take (batchSize * k), f.id = id) :
    ∃ s', Reaches env s s' ∧ s'.phase = .reading (batchSize * (k + 1)) ∧
      (∀ id ∈ s'.lookedUp, ∃ f ∈ order.take (batchSize * (k + 1)), f.id = id) ∧
      ((∀ f ∈ order.take (batchSize * (k + 1)), mayLeave env f = false) → Untouched rows s') ∧
      ∀ f ∈ (order.drop (batchSize * k)).take batchSize, mayLeave env f = true → Leaving env f s' := by
  set page := (order.drop (batchSize * k)).take batchSize with hset
  have htake : order.take (batchSize * (k + 1)) = order.take (batchSize * k) ++ page := by
    rw [Nat.mul_succ, List.take_add]
  have hlength : page.length = batchSize := by
    rw [hset, List.length_take, List.length_drop]
    unfold batchSize at *
    omega
  have hread : PassStep env s { s with
      phase := .processing (batchSize * k) true (slices page) } := by
    have hstep := PassStep.read (batchSize * k) order hphase (hsame.1.symm ▸ horder)
    rcases afterRead_eq (batchSize * k) page with ⟨hnil, -⟩ | ⟨-, hprocessing⟩
    · rw [hnil] at hlength
      cases hlength
    · rw [← hset, hprocessing, hlength, beq_self_eq_true] at hstep
      exact hstep
  obtain ⟨s', hreach, hphase', hlooked', huntouched, -, hleaving⟩ := @batches_run env rows { s with
    phase := .processing (batchSize * k) true (slices page) } (batchSize * k) true (slices page) rfl
  refine ⟨_, (hreach.head hread).tail (.page _ _ hphase'), rfl, fun id hid => ?_, fun hstay => ?_,
    fun f hf hmay => ?_⟩
  · rw [htake]
    rcases hlooked' id hid with hold | ⟨batch, hbatch, f, hf, hfid⟩
    · obtain ⟨f, hf, hfid⟩ := hlooked id hold
      exact ⟨f, List.mem_append_left _ hf, hfid⟩
    · exact ⟨f, List.mem_append_right _ (mem_of_mem_slices hbatch hf), hfid⟩
  · apply huntouched hsame
    intro batch hbatch f hf
    apply hstay f
    rw [htake]
    exact List.mem_append_right _ (mem_of_mem_slices hbatch hf)
  · obtain ⟨batch, hbatch, hin⟩ := exists_mem_slices hf
    exact hleaving batch hbatch f hin hmay

/-- The pass comes to a page before which nothing may leave. -/
theorem pages_run {order : List DatedUpload} (horder : IsListing env rows order) {k : ℕ}
    (hpage : batchSize * k ≤ order.length)
    (hstay : ∀ f ∈ order.take (batchSize * k), mayLeave env f = false) :
    ∃ s, Reaches env (start rows) s ∧ s.phase = .reading (batchSize * k) ∧ Untouched rows s ∧
      ∀ id ∈ s.lookedUp, ∃ f ∈ order.take (batchSize * k), f.id = id := by
  induction k with
  | zero => exact ⟨start rows, .refl, rfl, ⟨rfl, nofun⟩, nofun⟩
  | succ k ih =>
      have hless : batchSize * k ≤ batchSize * (k + 1) := by
        unfold batchSize
        omega
      obtain ⟨s, hreach, hphase, hsame, hlooked⟩ := ih (by omega) fun f hf =>
        hstay f (List.take_subset_take_left order hless hf)
      obtain ⟨s', hreach', hphase', hlooked', hsame', -⟩ := page_run horder hpage hphase hsame hlooked
      exact ⟨s', hreach.trans hreach', hphase', hsame' hstay, hlooked'⟩

/-- Files at and after an offset have other ids than those before it. -/
theorem IsListing.apart {order : List DatedUpload} (h : IsListing env rows order)
    (hids : Rows.KeysDistinct (fun f : DatedUpload => f.id) rows) {n : ℕ} {f g : DatedUpload}
    (hf : f ∈ order.take n) (hg : g ∈ order.drop n) : f.id ≠ g.id := by
  have hnodup : (order.map fun f => f.id).Nodup := by
    rw [(h.1.map fun f => f.id).nodup_iff]
    exact hids.sublist List.filter_sublist
  rw [← List.take_append_drop n order, List.map_append] at hnodup
  intro heq
  have hdisjoint := (List.nodup_append.mp hnodup).2.2
  exact hdisjoint _ (List.mem_map_of_mem hf) _ (List.mem_map_of_mem hg) heq

/-- A row that leaves a page moves the file at the next offset in front of it. -/
theorem missed_of_leaving (hids : Rows.KeysDistinct (fun f : DatedUpload => f.id) rows)
    {order : List DatedUpload} (horder : IsListing env rows order) {k : ℕ}
    (hmore : batchSize * (k + 1) < order.length)
    (hbefore : ∀ f ∈ order.take (batchSize * k), mayLeave env f = false) {gone : DatedUpload}
    (hgone : gone ∈ order.take (batchSize * (k + 1))) (hmay : mayLeave env gone = true) :
    ∃ x ∈ order, ∃ s, Reaches env (start rows) s ∧ Missed env x.id s := by
  have hless : batchSize * k ≤ batchSize * (k + 1) := by
    unfold batchSize
    omega
  obtain ⟨s, hreach, hphase, hsame, hlooked⟩ := pages_run horder (by omega) hbefore
  obtain ⟨s₁, hreach₁, hphase₁, hlooked₁, -, hleaving⟩ :=
    page_run horder (by omega) hphase hsame hlooked
  obtain ⟨s₂, hreach₂, hphase₂, hlooked₂, hgone₂⟩ := @updates_run env s₁
  have hall : Reaches env (start rows) s₂ := (hreach.trans hreach₁).trans hreach₂
  obtain ⟨stays, hstays⟩ := hall.shrinks
  have hleft : Gone env gone.objectKey s₂.rows := by
    apply hgone₂ gone
    apply hleaving gone _ hmay
    rw [Nat.mul_succ, List.take_add] at hgone
    rcases List.mem_append.mp hgone with hearly | hin
    · rw [hbefore gone hearly] at hmay
      cases hmay
    · exact hin
  have hp : stays gone = false := by
    by_contra hkept
    rw [Bool.not_eq_false] at hkept
    have hin : gone ∈ ((start rows).rows.filter (isPending env)).filter stays :=
      List.mem_filter.mpr ⟨horder.1.mem_iff.mp (List.mem_of_mem_take hgone), hkept⟩
    rw [← hstays] at hin
    obtain ⟨hrow, hpending⟩ := List.mem_filter.mp hin
    rw [hleft gone hrow rfl] at hpending
    cases hpending
  obtain ⟨x, rest, hnext⟩ : ∃ x rest, order.drop (batchSize * (k + 1)) = x :: rest :=
    ⟨_, _, List.drop_eq_getElem_cons hmore⟩
  have hx : x ∈ order.drop (batchSize * (k + 1)) := hnext ▸ List.mem_cons_self
  refine ⟨x, List.mem_of_mem_drop hx, s₂, hall, fun hid => ?_, order.filter stays,
    horder.filter hstays, ?_⟩
  · rw [hlooked₂] at hid
    obtain ⟨f, hf, hfid⟩ := hlooked₁ x.id hid
    exact horder.apart hids hf hx hfid
  · rw [hphase₂, hphase₁]
    intro f hf
    have hrest : f ∈ rest := Pages.drop_filter_of_gone hgone hp hnext hf
    have hafter : order.drop (batchSize * (k + 1) + 1) = rest := by
      rw [← List.drop_drop, hnext, List.drop_one, List.tail_cons]
    have hxtaken : x ∈ order.take (batchSize * (k + 1) + 1) := by
      rw [List.take_add, hnext]
      exact List.mem_append_right _ (by simp)
    exact (horder.apart hids hxtaken (hafter ▸ hrest)).symm

/-- Of two files with one date, on both sides of an offset, the second may be read before it. -/
theorem missed_of_tie (hids : Rows.KeysDistinct (fun f : DatedUpload => f.id) rows)
    {order : List DatedUpload} (horder : IsListing env rows order) {k : ℕ}
    (hmore : batchSize * k < order.length)
    (hbefore : ∀ f ∈ order.take (batchSize * k), mayLeave env f = false)
    (htie : ¬ Pages.FallsAt DatedUpload.createdDate order (batchSize * k)) :
    ∃ x ∈ order, ∃ s, Reaches env (start rows) s ∧ Missed env x.id s := by
  obtain ⟨s, hreach, hphase, hsame, hlooked⟩ := pages_run horder (by omega) hbefore
  unfold Pages.FallsAt at htie
  push Not at htie
  obtain ⟨a, ha, x, hx, hle⟩ := htie
  have heq : a.createdDate = x.createdDate := by
    have hge := horder.2.drop_le_take ha hx
    omega
  obtain ⟨before, after, htake⟩ := List.append_of_mem ha
  obtain ⟨before', after', hdrop⟩ := List.append_of_mem hx
  have hsplit : order = (before ++ a :: after) ++ (before' ++ x :: after') := by
    rw [← htake, ← hdrop, List.take_append_drop]
  -- the two files change places
  let swapped := (before ++ x :: after) ++ (before' ++ a :: after')
  have hlength : (before ++ x :: after).length = batchSize * k := by
    have hlong := congrArg List.length htake
    rw [List.length_take, List.length_append, List.length_cons] at hlong
    rw [List.length_append, List.length_cons]
    omega
  have hperm : swapped.Perm order := by
    rw [hsplit, List.perm_iff_count]
    intro f
    simp only [swapped, List.count_append, List.count_cons]
    omega
  have hswapped : IsListing env s.rows swapped := by
    rw [hsame.1]
    refine ⟨hperm.trans horder.1, ?_⟩
    have hkeys : swapped.map DatedUpload.createdDate = order.map DatedUpload.createdDate := by
      rw [hsplit]
      simp [swapped, heq]
    have hsorted := horder.2
    unfold Pages.Descending at hsorted ⊢
    have hmap : ∀ l : List DatedUpload, (l.map DatedUpload.createdDate).Pairwise (fun m n => n ≤ m) ↔
        l.Pairwise fun f g => g.createdDate ≤ f.createdDate := fun l => List.pairwise_map
    rw [← hmap, hkeys, hmap]
    exact hsorted
  refine ⟨x, List.mem_of_mem_drop hx, s, hreach, fun hid => ?_, swapped, hswapped, ?_⟩
  · obtain ⟨f, hf, hfid⟩ := hlooked x.id hid
    exact horder.apart hids hf hx hfid
  · rw [hphase]
    intro f hf
    rw [hsame.1] at hswapped
    have hxtaken : x ∈ swapped.take (batchSize * k) := by
      rw [show swapped.take (batchSize * k) = before ++ x :: after from List.take_left' hlength]
      exact List.mem_append_right before List.mem_cons_self
    exact (hswapped.apart hids hxtaken hf).symm

end Missed

/-! ### Exactness -/

/-- Where a row may leave a page that another follows, some run misses a pending file. -/
theorem missed_of_not_pagesStay (hids : Rows.KeysDistinct (fun f : DatedUpload => f.id) rows)
    (h : ¬ PagesStay env (pendingFiles env rows)) :
    ∃ x ∈ pendingFiles env rows, ∃ s, Reaches env (start rows) s ∧ Missed env x.id s := by
  have horder := pendingFiles_listing env rows
  unfold PagesStay at h
  push Not at h
  obtain ⟨k, -, hmore, hk⟩ := h
  by_cases hleaves : ∃ j, ∃ f ∈ (pendingFiles env rows).take (batchSize * (j + 1)), j ≤ k ∧
      mayLeave env f = true
  · -- the first page that a row may leave
    obtain ⟨f, hf, hjk, hmay⟩ := Nat.find_spec hleaves
    set j := Nat.find hleaves with hj
    have hless : batchSize * (j + 1) ≤ batchSize * (k + 1) := by
      unfold batchSize
      omega
    refine missed_of_leaving hids horder (by omega) (fun g hg => ?_) hf hmay
    by_contra hgmay
    rw [Bool.not_eq_false] at hgmay
    cases hzero : j with
    | zero =>
        rw [hzero] at hg
        simp at hg
    | succ i =>
        rw [hzero] at hg
        exact Nat.find_min hleaves (by omega : i < Nat.find hleaves) ⟨g, hg, by omega, hgmay⟩
  · push Not at hleaves
    have hnone : ∀ f ∈ (pendingFiles env rows).take (batchSize * (k + 1)), mayLeave env f = false := by
      intro f hf
      simpa using hleaves k f hf (Nat.le_refl k)
    exact missed_of_tie hids horder hmore hnone (hk hnone)

/-- **Main lemma.** The conditions without which some run misses a pending file. -/
theorem pagesStay_of_examinesAll (hids : Rows.KeysDistinct (fun f : DatedUpload => f.id) rows)
    (h : ExaminesAll env rows) :
    (∀ f ∈ rows, f.status = .pending → f.createdDate ≤ env.now * 1000) ∧
      PagesStay env (pendingFiles env rows) := by
  have hevery : ∀ f ∈ rows, f.status = .pending → ∀ s, Reaches env (start rows) s →
      ¬ Missed env f.id s := by
    intro f hf hpending s hreach hmissed
    obtain ⟨s', hreach', hfinished, hnot⟩ := not_examined_of_missed hreach hmissed
    exact hnot (h.examined s' hreach' hfinished f hf hpending)
  have horder := pendingFiles_listing env rows
  constructor
  · intro f hf hpending
    by_contra hlate
    refine hevery f hf hpending (start rows) .refl ⟨nofun, _, horder, fun g hg hid => ?_⟩
    have hmem := horder.1.mem_iff.mp (List.mem_of_mem_drop hg)
    obtain ⟨hgrow, hgpending⟩ := List.mem_filter.mp hmem
    rw [hids.eq_of_mem hgrow hf hid] at hgpending
    simp only [isPending, Bool.and_eq_true, decide_eq_true_eq] at hgpending
    exact hlate hgpending.2
  · by_contra hnot
    obtain ⟨x, hx, s, hreach, hmissed⟩ := missed_of_not_pagesStay hids hnot
    obtain ⟨hrow, hpending⟩ := List.mem_filter.mp (horder.1.mem_iff.mp hx)
    simp only [isPending, Bool.and_eq_true, beq_iff_eq] at hpending
    exact hevery x hrow hpending.1 s hreach hmissed

/-- **Main result.** The pass examines every pending file exactly where the files were created
before it started and nothing leaves a page that another follows. -/
theorem examinesAll_iff (env : PassEnv) (rows : List DatedUpload)
    (hids : Rows.KeysDistinct (fun f : DatedUpload => f.id) rows) :
    ExaminesAll env rows ↔
      (∀ f ∈ rows, f.status = .pending → f.createdDate ≤ env.now * 1000) ∧
        PagesStay env (pendingFiles env rows) :=
  ⟨pagesStay_of_examinesAll hids, fun h => examinesAll_of_pagesStay h.1 h.2⟩

/-! ### Eleven files -/

/-- The file that was created `n` seconds after the others, before the pass. -/
def numbered (n : ℕ) : DatedUpload where
  toFileUpload := FileUploadService.newFileUpload n "app.tgz" "ann" (toString n) "artifacts"
  createdDate := n * 1000000

def elevenFiles : List DatedUpload := (List.range 11).map numbered

/-- All files but the oldest are in the bucket. -/
def bucketWithout0 : PassEnv where
  now := 100000
  uploadUrlExpire := none
  stat := fun objectKey => if objectKey = "0" then none else some 1

/-- An empty bucket, in which no upload has expired. -/
def emptyBucket : PassEnv := { bucketWithout0 with stat := fun _ => none }

theorem eleven_files_examined : ExaminesAll emptyBucket elevenFiles :=
  (examinesAll_iff emptyBucket elevenFiles (by decide)).mpr (by decide)

/-- The ten newer files leave the first page. -/
theorem eleven_files_missed : ¬ ExaminesAll bucketWithout0 elevenFiles := by
  intro h
  have hstay := (pagesStay_of_examinesAll (by decide) h).2
  revert hstay
  decide

end PendingPass

end UploadService
