import UploadService.Lib.Leader
import UploadService.Release.UploadSteps

/-!
# The flag of component uploads

In each platform, component and formation the flag `latest` should end on the newest ready
version. It is cleared, looked for and saved in separate statements, and the save writes the
version as it was read; an image mover makes a version ready and updates no flag.

A flag update that has not cleared the flag yet repairs whatever stands there. `Tended` is what
holds without one: flags are on newest versions only, and where none is, an update is on its way.

Main results:

- `mem_slotOf_save`, `latest_of_clearLatest`: what the statements write to a slot;
- `FlagTended.findBase`, `FlagTended.cleared`, `FlagTended.findNewest`, `FlagTended.saveNewest`:
  the flag is tended after each statement of a flag update;
- `FlagTended.storeSave`: and after a save of a mover that fits.
-/

namespace UploadService

open ComponentUploads

/-! ### One slot -/

/-- The versions of one platform, component and formation. -/
def slotOf (base : UploadVersion) (uploads : List UploadVersion) : List UploadVersion :=
  uploads.filter fun u => sameSlot base u

theorem mem_slotOf {base u : UploadVersion} {uploads : List UploadVersion} :
    u ∈ slotOf base uploads ↔ u ∈ uploads ∧ sameSlot base u = true := List.mem_filter

theorem sameSlot_comm (u v : UploadVersion) : sameSlot u v = sameSlot v u := by
  simp only [sameSlot, BEq.comm]

theorem sameSlot_refl (u : UploadVersion) : sameSlot u u = true := by simp [sameSlot]

/-- Two versions of one slot are in the same slot with the same versions. -/
theorem sameSlot_congr {base b : UploadVersion} (h : sameSlot base b = true) (u : UploadVersion) :
    sameSlot b u = sameSlot base u := by
  simp only [sameSlot, Bool.and_eq_true, beq_iff_eq] at h
  simp only [sameSlot, h.1.1, h.1.2, h.2]

/-- A ready version, and none of the slot is newer. -/
def IsNewest (slot : List UploadVersion) (u : UploadVersion) : Prop :=
  u.uploadStatus = .ready ∧ ∀ r ∈ slot, r.uploadStatus = .ready → r.createdDate ≤ u.createdDate

instance (slot : List UploadVersion) (u : UploadVersion) : Decidable (IsNewest slot u) :=
  inferInstanceAs (Decidable (_ ∧ _))

/-- The flag is on a newest ready version, as soon as there is a ready one, and nowhere else. -/
structure FlagRight (slot : List UploadVersion) : Prop where
  marks : Leader.Marks (fun u : UploadVersion => u.uploadStatus = .ready)
    (fun u => u.latest = true) UploadVersion.createdDate slot
  one : ∀ u ∈ slot, ∀ v ∈ slot, u.latest = true → v.latest = true → u = v

/-- The call will still clear the flag of the slot. -/
def FlagPhase.mends (base : UploadVersion) (slot : List UploadVersion) : FlagPhase → Bool
  | .findBase catalogId => slot.any fun r => r.catalogId == catalogId
  | .clearFlags b => sameSlot base b
  | _ => false

/-- The call has cleared the flag of the slot, and looks for the newest version next. -/
def FlagPhase.finds (base : UploadVersion) : FlagPhase → Bool
  | .findNewest b => sameSlot base b
  | _ => false

/-- The version that the call saves next. -/
def FlagPhase.saving : FlagPhase → Option UploadVersion
  | .saveNewest upload => some upload
  | _ => none

/-- Without a call that will still clear the flag: it is on newest versions only, and where it is
on none, a call looks for one or has found one. -/
structure Tended (base : UploadVersion) (slot : List UploadVersion) (calls : List FlagPhase) :
    Prop where
  newest : ∀ u ∈ slot, u.latest = true → IsNewest slot u
  one : ∀ u ∈ slot, ∀ v ∈ slot, u.latest = true → v.latest = true → u = v
  crowned : ∀ r ∈ slot, r.uploadStatus = .ready → (∃ l ∈ slot, l.latest = true) ∨
    (∃ p ∈ calls, p.finds base = true) ∨
    ∃ e, .saveNewest e ∈ calls ∧ ∃ l ∈ slot, l.catalogId = e.catalogId ∧ IsNewest slot l

/-- The flag is tended, or a call will clear it. -/
def FlagTended (base : UploadVersion) (slot : List UploadVersion) (calls : List FlagPhase) : Prop :=
  (∃ p ∈ calls, p.mends base slot = true) ∨ Tended base slot calls

/-! ### Orderly steps -/

namespace UploadWorld

/-- The save of the flag finds the version ready still; and the version is a newest one and no
other has the flag, or another call will clear it. -/
structure SaveFits (base : UploadVersion) (slot : List UploadVersion) (others : List FlagPhase)
    (upload : UploadVersion) : Prop where
  ready : ∀ r ∈ slot, r.catalogId = upload.catalogId → r.uploadStatus = .ready
  flag : (∃ p ∈ others, p.mends base slot = true) ∨
    (∀ r ∈ slot, r.catalogId = upload.catalogId → IsNewest slot r) ∧
      ∀ r ∈ slot, r.latest = true → r.catalogId = upload.catalogId

/-- The save of a mover stores the last status that was set, or that one is stored later. And a
call will clear the flag; or one looks for the newest version, and no other version has the flag;
or the version is no newest one before and after. -/
structure StoreFits (base : UploadVersion) (w : UploadWorld) (others : List UploadVersion)
    (upload : UploadVersion) : Prop where
  last : ∀ status ∈ w.lastChange upload.catalogId, upload.uploadStatus = status ∨
    ∃ v ∈ others, v.catalogId = upload.catalogId ∧ v.uploadStatus = status
  flag : (∃ p ∈ w.flagUpdates, p.mends base (slotOf base w.uploads) = true) ∨
    ((∃ p ∈ w.flagUpdates, p.finds base = true) ∧
      ∀ r ∈ slotOf base w.uploads, r.latest = true → r.catalogId = upload.catalogId) ∨
    (∀ r ∈ slotOf base w.uploads, r.catalogId = upload.catalogId →
      ¬ IsNewest (slotOf base w.uploads) r) ∧
      (upload.uploadStatus = .ready → ∃ l ∈ slotOf base w.uploads, l.catalogId ≠ upload.catalogId ∧
        l.uploadStatus = .ready ∧ upload.createdDate ≤ l.createdDate)

instance (base : UploadVersion) (slot : List UploadVersion) (others : List FlagPhase)
    (upload : UploadVersion) : Decidable (SaveFits base slot others upload) :=
  decidable_of_iff (_ ∧ _) ⟨fun h => ⟨h.1, h.2⟩, fun h => ⟨h.ready, h.flag⟩⟩

instance (base : UploadVersion) (w : UploadWorld) (others : List UploadVersion)
    (upload : UploadVersion) : Decidable (StoreFits base w others upload) :=
  decidable_of_iff (_ ∧ _) ⟨fun h => ⟨h.1, h.2⟩, fun h => ⟨h.last, h.flag⟩⟩

end UploadWorld

/-! ### Writes to the slot -/

/-- A row of the table is the version, but for status and flag. -/
def StoredRow (uploads : List UploadVersion) (upload : UploadVersion) : Prop :=
  upload.identity ∈ uploads.map UploadVersion.identity

variable {base upload : UploadVersion} {uploads : List UploadVersion}

theorem StoredRow.row (h : StoredRow uploads upload) :
    ∃ r ∈ uploads, r.identity = upload.identity := List.mem_map.mp h

theorem sameSlot_of_identity {r : UploadVersion} (h : r.identity = upload.identity) :
    sameSlot base r = sameSlot base upload := by
  have hslot : sameSlot base r.identity = sameSlot base upload.identity := by rw [h]
  exact hslot

theorem catalogId_of_identity {r : UploadVersion} (h : r.identity = upload.identity) :
    r.catalogId = upload.catalogId := by
  have hid : r.identity.catalogId = upload.identity.catalogId := by rw [h]
  exact hid

/-- The one row with the key of a stored version. -/
theorem StoredRow.eq_row (hkeys : Rows.KeysDistinct UploadVersion.catalogId uploads)
    (h : StoredRow uploads upload) {r : UploadVersion} (hr : r ∈ uploads)
    (hid : r.catalogId = upload.catalogId) : r.identity = upload.identity := by
  obtain ⟨x, hx, hxid⟩ := h.row
  rw [hkeys.eq_of_mem hr hx (hid.trans (catalogId_of_identity hxid).symm)]
  exact hxid

/-- A save writes status and flag of a row that is there. -/
theorem saveUpload_identities (hkeys : Rows.KeysDistinct UploadVersion.catalogId uploads)
    (h : StoredRow uploads upload) :
    (saveUpload upload uploads).map UploadVersion.identity = uploads.map UploadVersion.identity := by
  obtain ⟨r, hr, hid⟩ := h.row
  rw [saveUpload, Rows.save_existing hr (catalogId_of_identity hid)]
  apply Rows.map_updateWhere
  intro x hx htest
  exact (h.eq_row hkeys hx (beq_iff_eq.mp htest)).symm

theorem setUploadStatus_identities (dto : UpdateUploadStatusDto) (uploads : List UploadVersion) :
    (setUploadStatus dto uploads).map UploadVersion.identity =
      uploads.map UploadVersion.identity := by
  apply Rows.map_updateWhere
  intro _ _ _
  rfl

theorem clearLatest_identities (b : UploadVersion) (uploads : List UploadVersion) :
    (clearLatest b uploads).map UploadVersion.identity = uploads.map UploadVersion.identity := by
  apply Rows.map_updateWhere
  intro _ _ _
  rfl

theorem keysDistinct_of_identities {uploads' : List UploadVersion}
    (h : uploads'.map UploadVersion.identity = uploads.map UploadVersion.identity)
    (hkeys : Rows.KeysDistinct UploadVersion.catalogId uploads) :
    Rows.KeysDistinct UploadVersion.catalogId uploads' := by
  have hids : uploads'.map (·.catalogId) = uploads.map (·.catalogId) := by
    have hcomp := congrArg (List.map UploadVersion.catalogId) h
    rw [List.map_map, List.map_map] at hcomp
    exact hcomp
  show (uploads'.map (·.catalogId)).Nodup
  rw [hids]
  exact hkeys

/-- The keys of the slot are those of the identities in it. -/
theorem mem_slotOf_keys {uploads' : List UploadVersion}
    (h : uploads'.map UploadVersion.identity = uploads.map UploadVersion.identity) {r : UploadVersion}
    (hr : r ∈ slotOf base uploads) : ∃ r' ∈ slotOf base uploads', r'.catalogId = r.catalogId := by
  obtain ⟨hmem, hslot⟩ := mem_slotOf.mp hr
  have hid : r.identity ∈ uploads'.map UploadVersion.identity := by
    rw [h]
    exact List.mem_map_of_mem hmem
  obtain ⟨r', hr', heq⟩ := List.mem_map.mp hid
  exact ⟨r', mem_slotOf.mpr ⟨hr', (sameSlot_of_identity heq).trans hslot⟩, catalogId_of_identity heq⟩

/-- **Spec.** The slot after a save of one of its versions. -/
theorem mem_slotOf_save (hslot : sameSlot base upload = true) {u : UploadVersion} :
    u ∈ slotOf base (saveUpload upload uploads) ↔
      u = upload ∨ (u ∈ slotOf base uploads ∧ u.catalogId ≠ upload.catalogId) := by
  rw [mem_slotOf, mem_slotOf, saveUpload, Rows.mem_save]
  constructor
  · rintro ⟨rfl | ⟨hu, hne⟩, hu'⟩
    · exact .inl rfl
    · exact .inr ⟨⟨hu, hu'⟩, hne⟩
  · rintro (rfl | ⟨⟨hu, hu'⟩, hne⟩)
    · exact ⟨.inl rfl, hslot⟩
    · exact ⟨.inr ⟨hu, hne⟩, hu'⟩

/-- A save of a version of another slot. -/
theorem slotOf_save_other (hkeys : Rows.KeysDistinct UploadVersion.catalogId uploads)
    (h : StoredRow uploads upload) (hslot : sameSlot base upload = false) :
    slotOf base (saveUpload upload uploads) = slotOf base uploads := by
  apply Rows.filter_save hslot
  intro x hx hid
  rw [sameSlot_of_identity (h.eq_row hkeys hx hid)]
  exact hslot

/-- **Spec.** The slot after its flag is cleared. -/
theorem latest_of_clearLatest {b u : UploadVersion} (hslot : sameSlot base b = true)
    (hu : u ∈ slotOf base (clearLatest b uploads)) : u.latest = false := by
  obtain ⟨hmem, hin⟩ := mem_slotOf.mp hu
  rcases Rows.mem_updateWhere.mp hmem with ⟨x, -, -, rfl⟩ | ⟨-, htest⟩
  · rfl
  · rw [sameSlot_congr hslot, hin, Bool.true_and] at htest
    exact htest

theorem slotOf_clear_other {b : UploadVersion} (hslot : sameSlot base b = false) :
    slotOf base (clearLatest b uploads) = slotOf base uploads := by
  apply Rows.filter_updateWhere
  intro x _ htest
  have hx : sameSlot base x = false := by
    by_contra hin
    have hin' : sameSlot base x = true := by simpa using hin
    have hout := (Bool.and_eq_true_iff.mp htest).1
    rw [← sameSlot_congr hin', sameSlot_comm, hout] at hslot
    cases hslot
  exact ⟨hx, hx⟩

/-! ### The flag after a step -/

variable {slot slot' : List UploadVersion} {calls calls' rest : List FlagPhase} {phase : FlagPhase}

theorem FlagPhase.mends_keys {p : FlagPhase} (h : p.mends base slot = true)
    (hkeys : ∀ r ∈ slot, ∃ r' ∈ slot', r'.catalogId = r.catalogId) : p.mends base slot' = true := by
  cases p with
  | findBase catalogId =>
      obtain ⟨r, hr, hid⟩ := List.any_eq_true.mp h
      obtain ⟨r', hr', hid'⟩ := hkeys r hr
      exact List.any_eq_true.mpr ⟨r', hr', by rw [hid']; exact hid⟩
  | clearFlags b => exact h
  | findNewest b | saveNewest e => cases h

/-- More calls are in flight. -/
theorem FlagTended.mono (h : FlagTended base slot calls) (hsub : ∀ p ∈ calls, p ∈ calls') :
    FlagTended base slot calls' := by
  rcases h with ⟨p, hp, hmends⟩ | h
  · exact .inl ⟨p, hsub p hp, hmends⟩
  · refine .inr ⟨h.newest, h.one, fun r hr hready => ?_⟩
    rcases h.crowned r hr hready with hflag | ⟨p, hp, hfinds⟩ | ⟨e, he, hl⟩
    · exact .inl hflag
    · exact .inr (.inl ⟨p, hsub p hp, hfinds⟩)
    · exact .inr (.inr ⟨e, hsub _ he, hl⟩)

/-- A call ends that neither clears, looks for nor saves the flag of the slot. -/
theorem FlagTended.other (h : FlagTended base slot calls) (htaken : ∀ p ∈ calls, p = phase ∨ p ∈ rest)
    (hmends : phase.mends base slot = false) (hfinds : phase.finds base = false)
    (hsave : ∀ e, phase = .saveNewest e → ∀ l ∈ slot, l.catalogId ≠ e.catalogId) :
    FlagTended base slot rest := by
  rcases h with ⟨p, hp, hm⟩ | h
  · rcases htaken p hp with rfl | hp
    · rw [hmends] at hm
      cases hm
    · exact .inl ⟨p, hp, hm⟩
  · refine .inr ⟨h.newest, h.one, fun r hr hready => ?_⟩
    rcases h.crowned r hr hready with hflag | ⟨p, hp, hf⟩ | ⟨e, he, l, hl, hid, hnewest⟩
    · exact .inl hflag
    · rcases htaken p hp with rfl | hp
      · rw [hfinds] at hf
        cases hf
      · exact .inr (.inl ⟨p, hp, hf⟩)
    · rcases htaken _ he with heq | he
      · exact absurd hid (hsave e heq.symm l hl)
      · exact .inr (.inr ⟨e, he, l, hl, hid, hnewest⟩)

/-- The call reads the version it was made for. -/
theorem FlagTended.findBase {catalogId : String}
    (hkeys : Rows.KeysDistinct UploadVersion.catalogId uploads)
    (h : FlagTended base (slotOf base uploads) calls)
    (htaken : ∀ p ∈ calls, p = .findBase catalogId ∨ p ∈ rest) :
    FlagTended base (slotOf base uploads)
      (((Rows.findKey UploadVersion.catalogId catalogId uploads).map .clearFlags).toList ++ rest) := by
  by_cases hmends : (FlagPhase.findBase catalogId).mends base (slotOf base uploads) = true
  · -- the version is in the slot, and the call goes on to clear its flag
    obtain ⟨r, hr, hid⟩ := List.any_eq_true.mp hmends
    obtain ⟨hmem, hslot⟩ := mem_slotOf.mp hr
    have hfound := Rows.findKey_unique hkeys hmem
    rw [beq_iff_eq.mp hid] at hfound
    rw [hfound]
    exact .inl ⟨.clearFlags r, List.mem_cons_self, hslot⟩
  · apply FlagTended.mono (h.other htaken (by simpa using hmends) rfl nofun)
    exact fun p hp => List.mem_append_right _ hp

/-- The flag of the slot is cleared. -/
theorem FlagTended.cleared {b : UploadVersion} (hslot : sameSlot base b = true)
    (hclear : ∀ u ∈ slot, u.latest = false) :
    FlagTended base slot (.findNewest b :: rest) := by
  have hnone : ∀ u ∈ slot, u.latest ≠ true := by
    intro u hu hlatest
    rw [hclear u hu] at hlatest
    cases hlatest
  refine .inr ⟨fun u hu hlatest => absurd hlatest (hnone u hu),
    fun u hu _ _ hlatest => absurd hlatest (hnone u hu), fun r _ _ => ?_⟩
  exact .inr (.inl ⟨.findNewest b, List.mem_cons_self, hslot⟩)

/-- The newest version that a call finds. -/
theorem latestUpload_newest {b l : UploadVersion} (hslot : sameSlot base b = true)
    (h : latestUpload uploads b = some l) :
    l ∈ slotOf base uploads ∧ IsNewest (slotOf base uploads) l := by
  obtain ⟨hmem, hgreatest⟩ := Leader.head?_insertionSort_greatest h
  obtain ⟨hl, htest⟩ := List.mem_filter.mp hmem
  obtain ⟨hin, hready⟩ := Bool.and_eq_true_iff.mp htest
  rw [sameSlot_congr hslot] at hin
  refine ⟨mem_slotOf.mpr ⟨hl, hin⟩, beq_iff_eq.mp hready, fun r hr hrready => ?_⟩
  obtain ⟨hr, hrslot⟩ := mem_slotOf.mp hr
  apply hgreatest r (List.mem_filter.mpr ⟨hr, ?_⟩)
  rw [sameSlot_congr hslot, hrslot, hrready]
  rfl

theorem latestUpload_none {b : UploadVersion} (hslot : sameSlot base b = true)
    (h : latestUpload uploads b = none) {r : UploadVersion} (hr : r ∈ slotOf base uploads) :
    r.uploadStatus ≠ .ready := by
  intro hready
  obtain ⟨hmem, hrslot⟩ := mem_slotOf.mp hr
  have hin : r ∈ (uploads.filter fun u => sameSlot b u && u.uploadStatus == .ready).insertionSort
      fun u v => v.createdDate ≤ u.createdDate := by
    rw [List.mem_insertionSort, List.mem_filter, sameSlot_congr hslot, hrslot, hready]
    exact ⟨hmem, rfl⟩
  rw [List.head?_eq_none_iff.mp h] at hin
  cases hin

/-- The call finds the newest version, or finds that none is ready. -/
theorem FlagTended.findNewest {b : UploadVersion} (h : FlagTended base (slotOf base uploads) calls)
    (htaken : ∀ p ∈ calls, p = .findNewest b ∨ p ∈ rest) :
    FlagTended base (slotOf base uploads) (((latestUpload uploads b).map fun upload =>
      FlagPhase.saveNewest { upload with latest := true }).toList ++ rest) := by
  have hrest : ∀ p ∈ rest, p ∈ ((latestUpload uploads b).map fun upload =>
      FlagPhase.saveNewest { upload with latest := true }).toList ++ rest :=
    fun p hp => List.mem_append_right _ hp
  by_cases hslot : sameSlot base b = true
  · rcases h with ⟨p, hp, hmends⟩ | h
    · rcases htaken p hp with rfl | hp
      · cases hmends
      · exact .inl ⟨p, hrest p hp, hmends⟩
    · refine .inr ⟨h.newest, h.one, fun r hr hready => ?_⟩
      cases hfound : latestUpload uploads b with
      | none => exact absurd hready (latestUpload_none hslot hfound hr)
      | some l =>
          obtain ⟨hl, hnewest⟩ := latestUpload_newest hslot hfound
          exact .inr (.inr ⟨{ l with latest := true }, List.mem_cons_self, l, hl, rfl, hnewest⟩)
  · exact FlagTended.mono (h.other htaken rfl (by simpa [FlagPhase.finds] using hslot) nofun) hrest

/-- The flag is saved on a version that fits. -/
theorem FlagTended.saveNewest {e : UploadVersion}
    (hkeys : Rows.KeysDistinct UploadVersion.catalogId uploads) (hready : e.uploadStatus = .ready)
    (hlatest : e.latest = true) (hstored : StoredRow uploads e) (hslot : sameSlot base e = true)
    (hfits : UploadWorld.SaveFits base (slotOf base uploads) rest e) :
    FlagTended base (slotOf base (saveUpload e uploads)) rest := by
  have hids := saveUpload_identities hkeys hstored
  rcases hfits.flag with ⟨p, hp, hmends⟩ | ⟨hnewest, hflags⟩
  · exact .inl ⟨p, hp, FlagPhase.mends_keys hmends fun r hr => mem_slotOf_keys hids hr⟩
  · obtain ⟨r, hr, hrid⟩ := hstored.row
    have hrslot : r ∈ slotOf base uploads :=
      mem_slotOf.mpr ⟨hr, (sameSlot_of_identity hrid).trans hslot⟩
    have hdate : r.createdDate = e.createdDate := by
      have hcreated : r.identity.createdDate = e.identity.createdDate := by rw [hrid]
      exact hcreated
    -- the version that is saved is the only one with the flag, and a newest one
    have honly : ∀ u ∈ slotOf base (saveUpload e uploads), u.latest = true → u = e := by
      intro u hu hflag
      rcases (mem_slotOf_save hslot).mp hu with rfl | ⟨hu, hne⟩
      · rfl
      · exact absurd (hflags u hu hflag) hne
    have hgreatest : IsNewest (slotOf base (saveUpload e uploads)) e := by
      refine ⟨hready, fun u hu huready => ?_⟩
      rcases (mem_slotOf_save hslot).mp hu with rfl | ⟨hu, -⟩
      · exact Nat.le_refl _
      · rw [← hdate]
        exact (hnewest r hrslot (catalogId_of_identity hrid)).2 u hu huready
    refine .inr ⟨fun u hu hflag => ?_, fun u hu v hv hflag hflag' => ?_, fun _ _ _ => ?_⟩
    · rw [honly u hu hflag]
      exact hgreatest
    · rw [honly u hu hflag, honly v hv hflag']
    · exact .inl ⟨e, (mem_slotOf_save hslot).mpr (.inl rfl), hlatest⟩

/-- A version that is not ready and has no flag comes into the slot. -/
theorem FlagTended.append (h : FlagTended base slot calls) {new : UploadVersion}
    (hready : new.uploadStatus ≠ .ready) (hlatest : new.latest = false) :
    FlagTended base (slot ++ [new]) calls := by
  have hold : ∀ u ∈ slot ++ [new], u.latest = true → u ∈ slot := by
    intro u hu hflag
    rcases List.mem_append.mp hu with hu | hu
    · exact hu
    · rw [List.mem_singleton.mp hu, hlatest] at hflag
      cases hflag
  have holdReady : ∀ u ∈ slot ++ [new], u.uploadStatus = .ready → u ∈ slot := by
    intro u hu huready
    rcases List.mem_append.mp hu with hu | hu
    · exact hu
    · rw [List.mem_singleton.mp hu] at huready
      exact absurd huready hready
  have hnewest : ∀ u, IsNewest slot u → IsNewest (slot ++ [new]) u :=
    fun u hu => ⟨hu.1, fun r hr hrready => hu.2 r (holdReady r hr hrready) hrready⟩
  rcases h with ⟨p, hp, hmends⟩ | h
  · exact .inl ⟨p, hp, FlagPhase.mends_keys hmends fun r hr => ⟨r, List.mem_append_left _ hr, rfl⟩⟩
  · refine .inr ⟨fun u hu hflag => hnewest u (h.newest u (hold u hu hflag) hflag),
      fun u hu v hv hflag hflag' => h.one u (hold u hu hflag) v (hold v hv hflag') hflag hflag',
      fun r hr hrready => ?_⟩
    rcases h.crowned r (holdReady r hr hrready) hrready with ⟨l, hl, hflag⟩ | hfinds | ⟨e, he, l, hl, hid, hl'⟩
    · exact .inl ⟨l, List.mem_append_left _ hl, hflag⟩
    · exact .inr (.inl hfinds)
    · exact .inr (.inr ⟨e, he, l, List.mem_append_left _ hl, hid, hnewest l hl'⟩)

/-- A save of a mover is stored, and it fits. -/
theorem FlagTended.storeSave {w : UploadWorld} {others : List UploadVersion}
    (hkeys : Rows.KeysDistinct UploadVersion.catalogId w.uploads)
    (hlatest : upload.latest = false) (hstored : StoredRow w.uploads upload)
    (hslot : sameSlot base upload = true) (h : FlagTended base (slotOf base w.uploads) w.flagUpdates)
    (hfits : UploadWorld.StoreFits base w others upload) :
    FlagTended base (slotOf base (saveUpload upload w.uploads)) w.flagUpdates := by
  have hids := saveUpload_identities hkeys hstored
  -- a version with the flag is another one, and had it before
  have hold : ∀ u ∈ slotOf base (saveUpload upload w.uploads), u.latest = true →
      u ∈ slotOf base w.uploads ∧ u.catalogId ≠ upload.catalogId := by
    intro u hu hflag
    rcases (mem_slotOf_save hslot).mp hu with rfl | hu
    · rw [hlatest] at hflag
      cases hflag
    · exact hu
  have hkept : ∀ u ∈ slotOf base w.uploads, u.catalogId ≠ upload.catalogId →
      u ∈ slotOf base (saveUpload upload w.uploads) :=
    fun u hu hne => (mem_slotOf_save hslot).mpr (.inr ⟨hu, hne⟩)
  rcases hfits.flag with ⟨p, hp, hmends⟩ | ⟨hfinds, hflags⟩ | ⟨hnot, hnewer⟩
  · exact .inl ⟨p, hp, FlagPhase.mends_keys hmends fun r hr => mem_slotOf_keys hids hr⟩
  · refine .inr ⟨fun u hu hflag => ?_, fun u hu _ _ hflag _ => ?_, fun _ _ _ => .inr (.inl hfinds)⟩
    · obtain ⟨hu, hne⟩ := hold u hu hflag
      exact absurd (hflags u hu hflag) hne
    · obtain ⟨hu, hne⟩ := hold u hu hflag
      exact absurd (hflags u hu hflag) hne
  rcases h with ⟨p, hp, hmends⟩ | h
  · exact .inl ⟨p, hp, FlagPhase.mends_keys hmends fun r hr => mem_slotOf_keys hids hr⟩
  -- the newest versions of before are newest ones still
  have hready : ∀ r ∈ slotOf base (saveUpload upload w.uploads), r.uploadStatus = .ready →
      ∃ l ∈ slotOf base w.uploads, l.uploadStatus = .ready ∧ r.createdDate ≤ l.createdDate := by
    intro r hr hrready
    rcases (mem_slotOf_save hslot).mp hr with rfl | ⟨hr, -⟩
    · obtain ⟨l, hl, -, hlready, hle⟩ := hnewer hrready
      exact ⟨l, hl, hlready, hle⟩
    · exact ⟨r, hr, hrready, Nat.le_refl _⟩
  have hnewest : ∀ u, IsNewest (slotOf base w.uploads) u →
      IsNewest (slotOf base (saveUpload upload w.uploads)) u := by
    refine fun u hu => ⟨hu.1, fun r hr hrready => ?_⟩
    obtain ⟨l, hl, hlready, hle⟩ := hready r hr hrready
    exact hle.trans (hu.2 l hl hlready)
  refine .inr ⟨fun u hu hflag => ?_, fun u hu v hv hflag hflag' => ?_, fun r hr hrready => ?_⟩
  · obtain ⟨hu, -⟩ := hold u hu hflag
    exact hnewest u (h.newest u hu hflag)
  · exact h.one u (hold u hu hflag).1 v (hold v hv hflag').1 hflag hflag'
  · obtain ⟨l, hl, hlready, -⟩ := hready r hr hrready
    have hother : ∀ x ∈ slotOf base w.uploads, IsNewest (slotOf base w.uploads) x →
        x.catalogId ≠ upload.catalogId := fun x hx hxnewest hid => hnot x hx hid hxnewest
    rcases h.crowned l hl hlready with ⟨x, hx, hflag⟩ | hfinds | ⟨e, he, x, hx, hid, hxnewest⟩
    · exact .inl ⟨x, hkept x hx (hother x hx (h.newest x hx hflag)), hflag⟩
    · exact .inr (.inl hfinds)
    · exact .inr (.inr ⟨e, he, x, hkept x hx (hother x hx hxnewest), hid, hnewest x hxnewest⟩)

end UploadService
