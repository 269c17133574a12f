import UploadService.Lib.Runs
import UploadService.Life.UploadFlags

/-!
# Runs of component uploads

Status updates, flag updates and image movers in any order of their statements. A step is orderly
where a save that it stores fits: what is written is not older than what was set since, and the
flag comes to rest on a newest version or is cleared by a later call.

Main results:

- `coherent_step`: what the calls hold is what the table has, but for statuses and flags;
- `tending_step`, `keeping_step`: flag and statuses after an orderly step;
- `uploads_settle_along_runs`: flag and statuses when all calls of a run have finished;
- `updateLatestFlag_alone`: the statements of one call in a row;
- `moved_image_not_latest`: an image that is moved and gets no flag.
-/

namespace UploadService

open ComponentUploads Runs

variable {base upload : UploadVersion} {uploads : List UploadVersion}

namespace UploadWorld

/-! ### Orderly steps -/

/-- A save that belongs to the slot fits. -/
def Orderly (base : UploadVersion) (w : UploadWorld) : UploadStep → Prop
  | .flag i => ∀ upload ∈ w.flagUpdates[i]?.bind FlagPhase.saving, sameSlot base upload = true →
      SaveFits base (slotOf base w.uploads) (w.flagUpdates.eraseIdx i) upload
  | .store i => ∀ upload ∈ w.saves[i]?, sameSlot base upload = true →
      StoreFits base w (w.saves.eraseIdx i) upload
  | _ => True

instance (base : UploadVersion) (w : UploadWorld) : ∀ e, Decidable (Orderly base w e)
  | .flag i => inferInstanceAs (Decidable (∀ upload ∈ w.flagUpdates[i]?.bind FlagPhase.saving,
      sameSlot base upload = true →
        SaveFits base (slotOf base w.uploads) (w.flagUpdates.eraseIdx i) upload))
  | .store i => inferInstanceAs (Decidable (∀ upload ∈ w.saves[i]?, sameSlot base upload = true →
      StoreFits base w (w.saves.eraseIdx i) upload))
  | .updateUploadStatus _ | .uploadArtifact _ _ _ | .move _ _ => .isTrue trivial

/-- Every version of the slot has the status that was last set for it. -/
def StatusesKept (base : UploadVersion) (w : UploadWorld) : Prop :=
  ∀ u ∈ slotOf base w.uploads, ∀ status ∈ w.lastChange u.catalogId, u.uploadStatus = status

end UploadWorld

/-! ### What is in flight -/

theorem mem_taken {α : Type} {xs : List α} {i : ℕ} {x y : α} (hx : xs[i]? = some x) (hy : y ∈ xs) :
    y = x ∨ y ∈ xs.eraseIdx i := by
  obtain ⟨j, hj⟩ := List.getElem?_of_mem hy
  by_cases hij : j = i
  · subst hij
    rw [hx] at hj
    exact .inl (Option.some.inj hj).symm
  · exact .inr (List.mem_eraseIdx_iff_getElem?.mpr ⟨j, hij, hj⟩)

namespace UploadWorld

/-- What the calls hold is what the table has, but for statuses and flags: a version that was found
is held ready and with the flag, the entity of a mover never has the flag. -/
structure Coherent (w : UploadWorld) : Prop where
  keys : Rows.KeysDistinct UploadVersion.catalogId w.uploads
  found : ∀ upload, .saveNewest upload ∈ w.flagUpdates →
    upload.uploadStatus = .ready ∧ upload.latest = true ∧ StoredRow w.uploads upload
  saves : ∀ upload ∈ w.saves, upload.latest = false ∧ StoredRow w.uploads upload
  movers : ∀ mover ∈ w.movers, mover.upload.latest = false ∧ StoredRow w.uploads mover.upload

variable {w : UploadWorld}

theorem coherent_start {uploads : List UploadVersion}
    (hkeys : Rows.KeysDistinct UploadVersion.catalogId uploads) : Coherent (start uploads) :=
  ⟨hkeys, nofun, nofun, nofun⟩

/-- A write that leaves the identities, next to calls that hold nothing new. -/
theorem Coherent.write (h : Coherent w) {uploads' : List UploadVersion} {calls : List FlagPhase}
    {saves : List UploadVersion} {changes : List (String × UploadStatus)}
    (hids : uploads'.map UploadVersion.identity = w.uploads.map UploadVersion.identity)
    (hcalls : ∀ upload, .saveNewest upload ∈ calls →
      upload.uploadStatus = .ready ∧ upload.latest = true ∧ StoredRow w.uploads upload)
    (hsaves : ∀ upload ∈ saves, upload ∈ w.saves) :
    Coherent ⟨uploads', calls, w.movers, saves, changes⟩ := by
  have hstored : ∀ upload, StoredRow w.uploads upload → StoredRow uploads' upload := by
    intro upload hup
    show upload.identity ∈ uploads'.map UploadVersion.identity
    rw [hids]
    exact hup
  refine ⟨keysDistinct_of_identities hids h.keys, fun upload hmem => ?_, fun upload hmem => ?_,
    fun mover hmem => ?_⟩
  · obtain ⟨hready, hlatest, hup⟩ := hcalls upload hmem
    exact ⟨hready, hlatest, hstored upload hup⟩
  · obtain ⟨hlatest, hup⟩ := h.saves upload (hsaves upload hmem)
    exact ⟨hlatest, hstored upload hup⟩
  · obtain ⟨hlatest, hup⟩ := h.movers mover hmem
    exact ⟨hlatest, hstored mover.upload hup⟩

theorem Coherent.updateStatus (h : Coherent w) (dto : UpdateUploadStatusDto) :
    Coherent (w.updateStatus dto) := by
  unfold UploadWorld.updateStatus
  split
  · apply h.write (setUploadStatus_identities dto w.uploads) _ fun _ hmem => hmem
    intro upload hmem
    rcases List.mem_cons.mp hmem with heq | hmem
    · cases heq
    · exact h.found upload hmem
  · exact h

theorem Coherent.stepFlag (h : Coherent w) (i : ℕ) : Coherent (w.stepFlag i) := by
  unfold UploadWorld.stepFlag
  cases hphase : w.flagUpdates[i]? with
  | none => exact h
  | some phase =>
      have hrest : ∀ upload, .saveNewest upload ∈ w.flagUpdates.eraseIdx i →
          upload.uploadStatus = .ready ∧ upload.latest = true ∧ StoredRow w.uploads upload :=
        fun upload hmem => h.found upload (List.mem_of_mem_eraseIdx hmem)
      cases phase with
      | findBase catalogId =>
          apply h.write rfl _ fun _ hmem => hmem
          intro upload hmem
          rcases List.mem_append.mp hmem with hnew | hmem
          · obtain ⟨b, -, heq⟩ := Option.map_eq_some_iff.mp (Option.mem_toList.mp hnew)
            cases heq
          · exact hrest upload hmem
      | clearFlags b =>
          apply h.write (clearLatest_identities b w.uploads) _ fun _ hmem => hmem
          intro upload hmem
          rcases List.mem_cons.mp hmem with heq | hmem
          · cases heq
          · exact hrest upload hmem
      | findNewest b =>
          apply h.write rfl _ fun _ hmem => hmem
          intro upload hmem
          rcases List.mem_append.mp hmem with hnew | hmem
          · obtain ⟨l, hl, heq⟩ := Option.map_eq_some_iff.mp (Option.mem_toList.mp hnew)
            obtain ⟨hin, -⟩ := Leader.head?_insertionSort_greatest hl
            obtain ⟨hl, htest⟩ := List.mem_filter.mp hin
            cases heq
            refine ⟨beq_iff_eq.mp (Bool.and_eq_true_iff.mp htest).2, rfl, ?_⟩
            exact List.mem_map.mpr ⟨l, hl, rfl⟩
          · exact hrest upload hmem
      | saveNewest e =>
          obtain ⟨-, -, hstored⟩ := h.found e (List.mem_of_getElem? hphase)
          apply h.write (saveUpload_identities h.keys hstored) hrest fun _ hmem => hmem

theorem Coherent.storeSave (h : Coherent w) (i : ℕ) : Coherent (w.storeSave i) := by
  unfold UploadWorld.storeSave
  cases hsave : w.saves[i]? with
  | none => exact h
  | some upload =>
      obtain ⟨-, hstored⟩ := h.saves upload (List.mem_of_getElem? hsave)
      exact h.write (saveUpload_identities h.keys hstored) h.found
        fun _ hmem => List.mem_of_mem_eraseIdx hmem

/-- A save that a mover starts, of an entity without the flag. -/
theorem Coherent.startSave (h : Coherent w) {upload : UploadVersion} (hlatest : upload.latest = false)
    (hstored : StoredRow w.uploads upload) : Coherent (w.startSave upload) := by
  refine ⟨h.keys, h.found, fun u hu => ?_, h.movers⟩
  rcases List.mem_cons.mp hu with rfl | hu
  · exact ⟨hlatest, hstored⟩
  · exact h.saves u hu

theorem Coherent.stepMove (h : Coherent w) (i : ℕ) (succeeds : Bool) :
    Coherent (w.stepMove i succeeds) := by
  unfold UploadWorld.stepMove
  cases hmover : w.movers[i]? with
  | none => exact h
  | some mover =>
      obtain ⟨hlatest, hstored⟩ := h.movers mover (List.mem_of_getElem? hmover)
      dsimp only
      apply Coherent.startSave
      · refine ⟨h.keys, h.found, h.saves, fun m hm => ?_⟩
        rcases List.mem_append.mp hm with hnew | hm
        · have hnext := Option.mem_toList.mp hnew
          unfold Mover.next at hnext
          split at hnext
          · cases hnext
            exact ⟨hlatest, hstored⟩
          · cases hnext
        · exact h.movers m (List.mem_of_mem_eraseIdx hm)
      · exact hlatest
      · exact hstored

theorem Coherent.insertArtifact (h : Coherent w) {upload : UploadVersion}
    (hlatest : upload.latest = false) : Coherent (w.insertArtifact upload) := by
  unfold UploadWorld.insertArtifact
  split
  · rename_i hfits
    have hnew : ∀ u ∈ w.uploads, u.catalogId ≠ upload.catalogId := by
      intro u hu
      have htest := (Bool.and_eq_true_iff.mp (List.all_eq_true.mp hfits u hu)).1
      exact bne_iff_ne.mp htest
    have hstored : ∀ u, StoredRow w.uploads u → StoredRow (w.uploads ++ [upload]) u := by
      intro u hu
      show u.identity ∈ (w.uploads ++ [upload]).map UploadVersion.identity
      rw [List.map_append]
      exact List.mem_append_left _ hu
    have hself : StoredRow (w.uploads ++ [upload]) { upload with uploadStatus := .downloadingFromUrl } := by
      show upload.identity ∈ (w.uploads ++ [upload]).map UploadVersion.identity
      rw [List.map_append]
      exact List.mem_append_right _ (List.mem_singleton.mpr rfl)
    refine Coherent.startSave ⟨h.keys.append_new hnew, fun u hu => ?_, fun u hu => ?_, fun m hm => ?_⟩
      hlatest hself
    · obtain ⟨hready, hflag, hup⟩ := h.found u hu
      exact ⟨hready, hflag, hstored u hup⟩
    · obtain ⟨hflag, hup⟩ := h.saves u hu
      exact ⟨hflag, hstored u hup⟩
    · rcases List.mem_cons.mp hm with rfl | hm
      · exact ⟨hlatest, hself⟩
      · obtain ⟨hflag, hup⟩ := h.movers m hm
        exact ⟨hflag, hstored m.upload hup⟩
  · exact h

/-- **Step.** What the calls hold stays what the table has. -/
theorem coherent_step (h : Coherent w) (e : UploadStep) : Coherent (w.step e) := by
  cases e with
  | updateUploadStatus dto => exact h.updateStatus dto
  | uploadArtifact artifact catalogId createdDate => exact h.insertArtifact rfl
  | flag i => exact h.stepFlag i
  | move i succeeds => exact h.stepMove i succeeds
  | store i => exact h.storeSave i

/-! ### The flag after a step -/

/-- The flag of the slot is tended in the world. -/
def Tending (base : UploadVersion) (w : UploadWorld) : Prop :=
  FlagTended base (slotOf base w.uploads) w.flagUpdates

theorem Tending.updateStatus (h : Tending base w) (dto : UpdateUploadStatusDto) :
    Tending base (w.updateStatus dto) := by
  unfold UploadWorld.updateStatus
  split
  · by_cases hin : ∃ r ∈ slotOf base w.uploads, r.catalogId = dto.catalogId
    · -- the call that starts will clear the flag
      obtain ⟨r, hr, hid⟩ := hin
      obtain ⟨r', hr', hid'⟩ := mem_slotOf_keys (setUploadStatus_identities dto w.uploads) hr
      refine .inl ⟨.findBase dto.catalogId, List.mem_cons_self, ?_⟩
      exact List.any_eq_true.mpr ⟨r', hr', beq_iff_eq.mpr (hid'.trans hid)⟩
    · have hslot : slotOf base (setUploadStatus dto w.uploads) = slotOf base w.uploads := by
        apply Rows.filter_updateWhere
        intro r hr htest
        have hout : sameSlot base r = false := by
          by_contra hslot
          exact hin ⟨r, mem_slotOf.mpr ⟨hr, by simpa using hslot⟩, beq_iff_eq.mp htest⟩
        exact ⟨hout, hout⟩
      unfold Tending
      rw [hslot]
      exact h.mono fun p hp => List.mem_cons_of_mem _ hp
  · exact h

theorem Tending.insertArtifact (h : Tending base w) {upload : UploadVersion}
    (hready : upload.uploadStatus ≠ .ready) (hlatest : upload.latest = false) :
    Tending base (w.insertArtifact upload) := by
  unfold UploadWorld.insertArtifact
  split
  · show FlagTended base (slotOf base (w.uploads ++ [upload])) w.flagUpdates
    unfold slotOf
    rw [List.filter_append]
    by_cases hslot : sameSlot base upload = true
    · rw [List.filter_cons_of_pos hslot]
      exact FlagTended.append h hready hlatest
    · rw [List.filter_cons_of_neg hslot, List.filter_nil, List.append_nil]
      exact h
  · exact h

theorem Tending.stepFlag (h : Tending base w) (hcoh : Coherent w) {i : ℕ}
    (hfits : Orderly base w (.flag i)) : Tending base (w.stepFlag i) := by
  unfold UploadWorld.stepFlag
  cases hphase : w.flagUpdates[i]? with
  | none => exact h
  | some phase =>
      have htaken : ∀ p ∈ w.flagUpdates, p = phase ∨ p ∈ w.flagUpdates.eraseIdx i :=
        fun p hp => mem_taken hphase hp
      cases phase with
      | findBase catalogId => exact FlagTended.findBase hcoh.keys h htaken
      | clearFlags b =>
          show FlagTended base (slotOf base (clearLatest b w.uploads))
            (.findNewest b :: w.flagUpdates.eraseIdx i)
          by_cases hslot : sameSlot base b = true
          · exact FlagTended.cleared hslot fun u hu => latest_of_clearLatest hslot hu
          · have hslot' : sameSlot base b = false := by simpa using hslot
            rw [slotOf_clear_other hslot']
            apply FlagTended.mono (FlagTended.other h htaken hslot' rfl nofun)
            exact fun p hp => List.mem_cons_of_mem _ hp
      | findNewest b => exact FlagTended.findNewest h htaken
      | saveNewest e =>
          obtain ⟨hready, hlatest, hstored⟩ := hcoh.found e (List.mem_of_getElem? hphase)
          show FlagTended base (slotOf base (saveUpload e w.uploads)) (w.flagUpdates.eraseIdx i)
          by_cases hslot : sameSlot base e = true
          · exact FlagTended.saveNewest hcoh.keys hready hlatest hstored hslot (hfits e (by rw [hphase]; rfl) hslot)
          · have hslot' : sameSlot base e = false := by simpa using hslot
            rw [slotOf_save_other hcoh.keys hstored hslot']
            apply FlagTended.other h htaken rfl rfl
            intro e' heq l hl hid
            cases heq
            obtain ⟨hl, hin⟩ := mem_slotOf.mp hl
            rw [sameSlot_of_identity (hstored.eq_row hcoh.keys hl hid), hslot'] at hin
            cases hin

theorem Tending.storeSave (h : Tending base w) (hcoh : Coherent w) {i : ℕ}
    (hfits : Orderly base w (.store i)) : Tending base (w.storeSave i) := by
  unfold UploadWorld.storeSave
  cases hsave : w.saves[i]? with
  | none => exact h
  | some upload =>
      obtain ⟨hlatest, hstored⟩ := hcoh.saves upload (List.mem_of_getElem? hsave)
      show FlagTended base (slotOf base (saveUpload upload w.uploads)) w.flagUpdates
      by_cases hslot : sameSlot base upload = true
      · exact FlagTended.storeSave hcoh.keys hlatest hstored hslot h (hfits upload hsave hslot)
      · rw [slotOf_save_other hcoh.keys hstored (by simpa using hslot)]
        exact h

/-- **Step.** An orderly step leaves the flag tended. -/
theorem tending_step (h : Tending base w) (hcoh : Coherent w) (e : UploadStep)
    (hfits : Orderly base w e) : Tending base (w.step e) := by
  cases e with
  | updateUploadStatus dto => exact h.updateStatus dto
  | uploadArtifact artifact catalogId createdDate => exact h.insertArtifact nofun rfl
  | flag i => exact h.stepFlag hcoh hfits
  | move i succeeds =>
      show Tending base (w.stepMove i succeeds)
      unfold UploadWorld.stepMove
      cases w.movers[i]? with
      | none => exact h
      | some mover => exact h
  | store i => exact h.storeSave hcoh hfits

/-! ### The statuses after a step -/

/-- Each version of the slot has the status that was last set for it, or a save that is not stored
yet has it. -/
def Keeping (base : UploadVersion) (w : UploadWorld) : Prop :=
  ∀ u ∈ slotOf base w.uploads, ∀ status ∈ w.lastChange u.catalogId,
    u.uploadStatus = status ∨ ∃ v ∈ w.saves, v.catalogId = u.catalogId ∧ v.uploadStatus = status

theorem lastChange_cons (uploads : List UploadVersion) (calls : List FlagPhase) (movers : List Mover)
    (saves : List UploadVersion) (changes : List (String × UploadStatus)) (catalogId : String)
    (status : UploadStatus) (c : String) :
    lastChange ⟨uploads, calls, movers, saves, (catalogId, status) :: changes⟩ c =
      if catalogId = c then some status
      else lastChange ⟨uploads, calls, movers, saves, changes⟩ c := by
  by_cases hc : catalogId = c
  · simp [lastChange, hc]
  · simp [lastChange, hc]

/-- Where statuses stay, so does what was last set. -/
theorem Keeping.sameStatuses (h : Keeping base w) {uploads' : List UploadVersion}
    {calls : List FlagPhase} (hrows : ∀ u ∈ slotOf base uploads', ∃ r ∈ slotOf base w.uploads,
      r.catalogId = u.catalogId ∧ r.uploadStatus = u.uploadStatus) :
    Keeping base ⟨uploads', calls, w.movers, w.saves, w.changes⟩ := by
  intro u hu status hlast
  obtain ⟨r, hr, hid, hstatus⟩ := hrows u hu
  rw [← hid] at hlast ⊢
  rw [← hstatus]
  exact h r hr status hlast

theorem Keeping.updateStatus (h : Keeping base w) (dto : UpdateUploadStatusDto) :
    Keeping base (w.updateStatus dto) := by
  unfold UploadWorld.updateStatus
  split
  · intro u hu status hlast
    obtain ⟨hmem, hslot⟩ := mem_slotOf.mp hu
    rw [lastChange_cons] at hlast
    rcases Rows.mem_updateWhere.mp hmem with ⟨r, -, htest, rfl⟩ | ⟨hmem, htest⟩
    · rw [if_pos (beq_iff_eq.mp htest).symm] at hlast
      exact .inl (Option.some.inj hlast)
    · rw [if_neg fun heq => by simp [heq] at htest] at hlast
      exact h u (mem_slotOf.mpr ⟨hmem, hslot⟩) status hlast
  · exact h

/-- A status is set and its save started. -/
theorem Keeping.startSave (h : Keeping base w) (upload : UploadVersion) :
    Keeping base (w.startSave upload) := by
  intro u hu status hlast
  unfold UploadWorld.startSave at hlast
  rw [lastChange_cons] at hlast
  by_cases hid : upload.catalogId = u.catalogId
  · rw [if_pos hid] at hlast
    exact .inr ⟨upload, List.mem_cons_self, hid, Option.some.inj hlast⟩
  · rw [if_neg hid] at hlast
    rcases h u hu status hlast with hstatus | ⟨v, hv, hvu⟩
    · exact .inl hstatus
    · exact .inr ⟨v, List.mem_cons_of_mem _ hv, hvu⟩

theorem Keeping.insertArtifact (h : Keeping base w) (upload : UploadVersion) :
    Keeping base (w.insertArtifact upload) := by
  unfold UploadWorld.insertArtifact
  split
  · intro u hu status hlast
    unfold startMove UploadWorld.startSave at hlast
    rw [lastChange_cons] at hlast
    by_cases hid : upload.catalogId = u.catalogId
    · rw [if_pos hid] at hlast
      exact .inr ⟨_, List.mem_cons_self, hid, Option.some.inj hlast⟩
    · rw [if_neg hid] at hlast
      obtain ⟨hmem, hslot⟩ := mem_slotOf.mp hu
      have hold : u ∈ w.uploads := by
        rcases List.mem_append.mp hmem with hmem | hmem
        · exact hmem
        · rw [List.mem_singleton.mp hmem] at hid
          exact absurd rfl hid
      rcases h u (mem_slotOf.mpr ⟨hold, hslot⟩) status hlast with hstatus | ⟨v, hv, hvu⟩
      · exact .inl hstatus
      · exact .inr ⟨v, List.mem_cons_of_mem _ hv, hvu⟩
  · exact h

theorem Keeping.stepFlag (h : Keeping base w) (hcoh : Coherent w) {i : ℕ}
    (hfits : Orderly base w (.flag i)) : Keeping base (w.stepFlag i) := by
  unfold UploadWorld.stepFlag
  cases hphase : w.flagUpdates[i]? with
  | none => exact h
  | some phase =>
      cases phase with
      | findBase catalogId => exact h.sameStatuses fun u hu => ⟨u, hu, rfl, rfl⟩
      | findNewest b => exact h.sameStatuses fun u hu => ⟨u, hu, rfl, rfl⟩
      | clearFlags b =>
          apply h.sameStatuses
          intro u hu
          obtain ⟨hmem, hslot⟩ := mem_slotOf.mp hu
          rcases Rows.mem_updateWhere.mp hmem with ⟨r, hr, -, rfl⟩ | ⟨hmem, -⟩
          · exact ⟨r, mem_slotOf.mpr ⟨hr, hslot⟩, rfl, rfl⟩
          · exact ⟨u, mem_slotOf.mpr ⟨hmem, hslot⟩, rfl, rfl⟩
      | saveNewest e =>
          obtain ⟨hready, -, hstored⟩ := hcoh.found e (List.mem_of_getElem? hphase)
          apply h.sameStatuses
          intro u hu
          by_cases hslot : sameSlot base e = true
          · rcases (mem_slotOf_save hslot).mp hu with rfl | ⟨hu, -⟩
            · -- the version is ready still, as it was when it was found
              obtain ⟨r, hr, hid⟩ := hstored.row
              have hrslot : r ∈ slotOf base w.uploads :=
                mem_slotOf.mpr ⟨hr, (sameSlot_of_identity hid).trans hslot⟩
              have hkey := catalogId_of_identity hid
              have hsave := hfits u (by rw [hphase]; rfl) hslot
              exact ⟨r, hrslot, hkey, (hsave.ready r hrslot hkey).trans hready.symm⟩
            · exact ⟨u, hu, rfl, rfl⟩
          · have hother := slotOf_save_other hcoh.keys hstored (by simpa using hslot)
            exact ⟨u, hother ▸ hu, rfl, rfl⟩

theorem Keeping.storeSave (h : Keeping base w) (hcoh : Coherent w) {i : ℕ}
    (hfits : Orderly base w (.store i)) : Keeping base (w.storeSave i) := by
  unfold UploadWorld.storeSave
  cases hsave : w.saves[i]? with
  | none => exact h
  | some upload =>
      obtain ⟨-, hstored⟩ := hcoh.saves upload (List.mem_of_getElem? hsave)
      -- what another version waits for is still to be stored
      have hrest : ∀ u ∈ slotOf base w.uploads, u.catalogId ≠ upload.catalogId →
          ∀ status ∈ w.lastChange u.catalogId, u.uploadStatus = status ∨
            ∃ v ∈ w.saves.eraseIdx i, v.catalogId = u.catalogId ∧ v.uploadStatus = status := by
        intro u hu hne status hlast
        rcases h u hu status hlast with hstatus | ⟨v, hv, hid, hstatus⟩
        · exact .inl hstatus
        · rcases mem_taken hsave hv with rfl | hv
          · exact absurd hid.symm hne
          · exact .inr ⟨v, hv, hid, hstatus⟩
      intro u hu status hlast
      by_cases hslot : sameSlot base upload = true
      · rcases (mem_slotOf_save hslot).mp hu with rfl | ⟨hu, hne⟩
        · exact (hfits u hsave hslot).last status hlast
        · exact hrest u hu hne status hlast
      · have hslot' : sameSlot base upload = false := by simpa using hslot
        have hold : u ∈ slotOf base w.uploads := slotOf_save_other hcoh.keys hstored hslot' ▸ hu
        apply hrest u hold _ status hlast
        intro hid
        obtain ⟨hmem, hin⟩ := mem_slotOf.mp hold
        rw [sameSlot_of_identity (hstored.eq_row hcoh.keys hmem hid), hslot'] at hin
        cases hin

/-- **Step.** An orderly step keeps the statuses that were set. -/
theorem keeping_step (h : Keeping base w) (hcoh : Coherent w) (e : UploadStep)
    (hfits : Orderly base w e) : Keeping base (w.step e) := by
  cases e with
  | updateUploadStatus dto => exact h.updateStatus dto
  | uploadArtifact artifact catalogId createdDate => exact h.insertArtifact _
  | flag i => exact h.stepFlag hcoh hfits
  | move i succeeds =>
      show Keeping base (w.stepMove i succeeds)
      unfold UploadWorld.stepMove
      cases w.movers[i]? with
      | none => exact h
      | some mover =>
          apply Keeping.startSave
          exact h
  | store i => exact h.storeSave hcoh hfits

/-! ### Runs -/

theorem tending_start (hright : FlagRight (slotOf base uploads)) : Tending base (start uploads) := by
  refine .inr ⟨fun u hu hflag => ?_, hright.one, fun r hr hready => ?_⟩
  · exact ⟨hright.marks.candidate u hu hflag, hright.marks.greatest u hu hflag⟩
  · exact .inl (hright.marks.exists_marked r hr hready)

/-- With no call in flight the flag is right. -/
theorem Tending.flagRight (h : Tending base w) (hdone : w.flagUpdates = []) :
    FlagRight (slotOf base w.uploads) := by
  unfold Tending at h
  rw [hdone] at h
  rcases h with ⟨p, hp, -⟩ | h
  · cases hp
  · refine ⟨⟨fun l hl hflag => (h.newest l hl hflag).1, fun l hl hflag => (h.newest l hl hflag).2,
      fun r hr hready => ?_⟩, h.one⟩
    rcases h.crowned r hr hready with hflag | ⟨p, hp, -⟩ | ⟨e, he, -⟩
    · exact hflag
    · cases hp
    · cases he

theorem Keeping.kept (h : Keeping base w) (hdone : w.saves = []) : StatusesKept base w := by
  intro u hu status hlast
  rcases h u hu status hlast with hstatus | ⟨v, hv, -⟩
  · exact hstatus
  · rw [hdone] at hv
    cases hv

/-- **Main result.** When all calls of a run of orderly steps have finished, the flag of the slot is
right and its versions have the statuses that were last set for them. -/
theorem uploads_settle_along_runs (base : UploadVersion) (uploads : List UploadVersion)
    (hkeys : Rows.KeysDistinct UploadVersion.catalogId uploads)
    (hright : FlagRight (slotOf base uploads)) (es : List UploadStep)
    (horderly : Along step (Orderly base) (start uploads) es)
    (hfinished : (run step (start uploads) es).Finished) :
    FlagRight (slotOf base (run step (start uploads) es).uploads) ∧
      StatusesKept base (run step (start uploads) es) := by
  obtain ⟨hcalls, -, hsaves⟩ := hfinished
  obtain ⟨-, htending, hkeeping⟩ : Coherent (run step (start uploads) es) ∧
      Tending base (run step (start uploads) es) ∧ Keeping base (run step (start uploads) es) := by
    apply @invariant_along _ _ step (Orderly base) (fun w => Coherent w ∧ Tending base w ∧ Keeping base w)
    · rintro w e ⟨hcoh, htending, hkeeping⟩ hfits
      exact ⟨coherent_step hcoh e, tending_step htending hcoh e hfits,
        keeping_step hkeeping hcoh e hfits⟩
    · exact ⟨coherent_start hkeys, tending_start hright, nofun⟩
    · exact horderly
  exact ⟨htending.flagRight hcalls, hkeeping.kept hsaves⟩

/-! ### A call that nothing interrupts -/

theorem saveUpload_marked {l : UploadVersion} (hkeys : Rows.KeysDistinct UploadVersion.catalogId uploads)
    (hl : l ∈ uploads) : saveUpload { l with latest := true } uploads =
      Rows.updateWhere (fun u => u.catalogId == l.catalogId) (fun u => { u with latest := true })
        uploads := by
  have hsaved := @Rows.save_existing _ _ _ UploadVersion.catalogId { l with latest := true } l uploads
    hl rfl
  refine hsaved.trans (List.map_congr_left fun u hu => ?_)
  by_cases hid : u.catalogId = l.catalogId
  · rw [hkeys.eq_of_mem hu hl hid]
  · simp [hid]

/-- **Main result.** The statements of a call of `updateLatestFlag` in a row have its effect. -/
theorem updateLatestFlag_alone (db : UploadDb)
    (hkeys : Rows.KeysDistinct UploadVersion.catalogId db.uploadVersions) (catalogId : String)
    (changes : List (String × UploadStatus)) :
    ∃ n, run step ⟨db.uploadVersions, [.findBase catalogId], [], [], changes⟩
        (List.replicate n (.flag 0)) =
      ⟨(updateLatestFlag catalogId db).2.uploadVersions, [], [], [], changes⟩ := by
  unfold updateLatestFlag
  rw [Prog.gets_bind_run]
  cases hfound : Rows.findKey UploadVersion.catalogId catalogId db.uploadVersions with
  | none =>
      refine ⟨1, ?_⟩
      simp [run, step, UploadWorld.stepFlag, FlagPhase.step, hfound, Prog.pure_run]
  | some b =>
      have hkeys' := keysDistinct_of_identities (clearLatest_identities b db.uploadVersions) hkeys
      dsimp only
      rw [Prog.modify_bind_run, Prog.modify_run]
      cases hnewest : latestUpload (clearLatest b db.uploadVersions) b with
      | none =>
          refine ⟨3, ?_⟩
          simp [run, step, UploadWorld.stepFlag, FlagPhase.step, hfound, hnewest, updateUploads, markLatest]
      | some l =>
          have hl := (latestUpload_newest (sameSlot_refl b) hnewest).1
          refine ⟨4, ?_⟩
          simp [run, step, UploadWorld.stepFlag, FlagPhase.step, hfound, hnewest, updateUploads,
            markLatest, saveUpload_marked hkeys' (mem_slotOf.mp hl).1]

/-! ### Two versions -/

/-- Two versions of one slot, the second one newer. -/
def firstVersion : UploadVersion := .fromArtifact ⟨"linux", "app", "core", "1.0", none⟩ "first" 1

def secondVersion : UploadVersion := .fromArtifact ⟨"linux", "app", "core", "2.0", none⟩ "second" 2

/-- Both become ready, and both calls clear the flag before one looks for the newest version. -/
def readyTogether : List UploadStep :=
  [.updateUploadStatus ⟨"first", .ready⟩, .updateUploadStatus ⟨"second", .ready⟩, .flag 0, .flag 1,
    .flag 0, .flag 1, .flag 0, .flag 1, .flag 0, .flag 0]

theorem ready_together_settles :
    FlagRight (slotOf firstVersion
      (run step (start [firstVersion, secondVersion]) readyTogether).uploads) ∧
      StatusesKept firstVersion (run step (start [firstVersion, secondVersion]) readyTogether) :=
  uploads_settle_along_runs firstVersion [firstVersion, secondVersion] (by decide)
    ⟨Leader.marks_of_no_candidate (by decide) (by decide), by decide⟩ readyTogether (by decide)
    (by decide)

/-- The second call runs between the search and the save of the first: the flag is on both. -/
example : ((run step (start [firstVersion, secondVersion])
    [.updateUploadStatus ⟨"first", .ready⟩, .flag 0, .flag 0, .flag 0,
      .updateUploadStatus ⟨"second", .ready⟩, .flag 0, .flag 0, .flag 0, .flag 0,
      .flag 0]).uploads.filter (·.latest)).length = 2 := by decide

/-- An image is inserted, downloaded and uploaded, and each save is stored at once. -/
def movedImage : List UploadStep :=
  [.uploadArtifact ⟨"linux", "app", "core", "1.0", none⟩ "first" 1, .store 0, .move 0 true, .store 0,
    .move 0 true, .store 0]

/-- The image is the only version and ready in the end, and does not have the flag. -/
theorem moved_image_not_latest : (run step (start []) movedImage).Finished ∧
    ¬ FlagRight (slotOf firstVersion (run step (start []) movedImage).uploads) := by
  refine ⟨by decide, fun h => ?_⟩
  have hrow : ({ firstVersion with uploadStatus := .ready } : UploadVersion) ∈
      slotOf firstVersion (run step (start []) movedImage).uploads := by decide
  have hflags : ∀ u ∈ slotOf firstVersion (run step (start []) movedImage).uploads,
      u.latest = false := by decide
  obtain ⟨l, hl, hflag⟩ := h.marks.exists_marked _ hrow rfl
  rw [hflags l hl] at hflag
  cases hflag

end UploadWorld

end UploadService
