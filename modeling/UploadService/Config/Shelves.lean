import UploadService.Config.Lifecycle
import UploadService.Config.Drafts
import UploadService.Lib.Places

/-!
# Where the groups of a revision stand

Of a group only its key, its revision, its name and its position say where it stands. Saving a
loaded group changes none of them; the ways to insert a group either place it after the groups
of the draft, or copy the position it has in another revision.

`Shelved` is the assertion on a draft that the proofs carry through a call: the groups of the
draft stand in these places, and those of other revisions where they stood before.

Main results, one for each way to write groups:

- `cloneGroupToRevision_shelved`, `cloneGroups_shelved`, `cloneMissingGroups_shelved`: copies;
- `writeMergedGroup_shelved`, `populateDraftFromConfigMaps_shelved`: the groups of the config maps;
- `editDraftGroup_ordered`, `deleteDraftGroup_ordered`: the edits of a draft.
-/

namespace UploadService

open Prog

/-- What says where a group stands. -/
structure Slot where
  id : ℕ
  revisionId : ℕ
  name : String
  position : ℕ
  deriving DecidableEq, Repr

def ConfigGroup.slot (g : ConfigGroup) : Slot := ⟨g.id, g.revisionId, g.name, g.position⟩

namespace ConfigDb

def slots (db : ConfigDb) : List Slot := db.groups.map ConfigGroup.slot

/-- The names and positions of the groups of a revision. -/
def places (db : ConfigDb) (revisionId : ℕ) : List (String × ℕ) :=
  (db.groupsOf revisionId).map fun g => (g.name, g.position)

end ConfigDb

def placesIn (slots : List Slot) (revisionId : ℕ) : List (String × ℕ) :=
  (slots.filter fun s => s.revisionId == revisionId).map fun s => (s.name, s.position)

theorem places_eq (db : ConfigDb) (revisionId : ℕ) :
    db.places revisionId = placesIn db.slots revisionId := by
  unfold ConfigDb.places ConfigDb.groupsOf placesIn ConfigDb.slots
  rw [List.filter_map, List.map_map]
  rfl

theorem placesIn_append (slots more : List Slot) (revisionId : ℕ) :
    placesIn (slots ++ more) revisionId = placesIn slots revisionId ++ placesIn more revisionId := by
  simp [placesIn]

/-- The keys are distinct and drawn. -/
structure SlotsOk (slots : List Slot) (nextId : ℕ) : Prop where
  distinct : Rows.KeysDistinct Slot.id slots
  used : ∀ s ∈ slots, s.id < nextId ∧ s.revisionId < nextId

theorem SlotsOk.places_fresh {db : ConfigDb} {n id : ℕ} (h : SlotsOk db.slots n) (hid : n ≤ id) :
    db.places id = [] := by
  rw [places_eq, placesIn, List.map_eq_nil_iff, List.filter_eq_nil_iff]
  intro s hs hrevision
  have hused := (h.used s hs).2
  have := beq_iff_eq.mp hrevision
  omega

/-- The groups of the draft `d` stand in `places`, those of other revisions where they stood
in `db₀`. -/
structure Shelved (db₀ : ConfigDb) (d : ℕ) (places : List (String × ℕ)) (db : ConfigDb) : Prop where
  slots : SlotsOk db.slots db.nextId
  used : d < db.nextId
  others : ∀ id, id ≠ d → db.places id = db₀.places id
  here : db.places d = places

/-- The same, for places with the property `O`: that they are in order, or that no name is there
twice. -/
def OrderlyShelved (O : List (String × ℕ) → Prop) (db₀ : ConfigDb) (d : ℕ) (db : ConfigDb) : Prop :=
  ∃ places, O places ∧ Shelved db₀ d places db

/-- The assertion depends on the slots, and on keys that are only drawn. -/
theorem Shelved.of_slots {db₀ db db' : ConfigDb} {d : ℕ} {places : List (String × ℕ)}
    (h : Shelved db₀ d places db) (hslots : db'.slots = db.slots) (hnext : db.nextId ≤ db'.nextId) :
    Shelved db₀ d places db' where
  slots := ⟨hslots ▸ h.slots.distinct, fun s hs => by
    have := h.slots.used s (hslots ▸ hs)
    omega⟩
  used := Nat.lt_of_lt_of_le h.used hnext
  others := fun id hid => by rw [places_eq, hslots, ← places_eq, h.others id hid]
  here := by rw [places_eq, hslots, ← places_eq, h.here]

namespace ConfigService

variable {db₀ db : ConfigDb} {d : ℕ} {places : List (String × ℕ)}

/-! ### Writes of one row -/

theorem insertGroup_shelved (h : Shelved db₀ d places db) {group : ConfigGroup}
    (hrevision : group.revisionId = d) :
    Shelved db₀ d (places ++ [(group.name, group.position)]) { db with
      groups := db.groups ++ [{ group with id := db.nextId }]
      nextId := db.nextId + 1 } := by
  have hslots : ConfigDb.slots { db with
      groups := db.groups ++ [{ group with id := db.nextId }]
      nextId := db.nextId + 1 } = db.slots ++ [⟨db.nextId, d, group.name, group.position⟩] := by
    unfold ConfigDb.slots
    rw [List.map_append, ← hrevision]
    rfl
  refine ⟨⟨?_, fun s hs => ?_⟩, Nat.lt_succ_of_lt h.used, fun id hid => ?_, ?_⟩
  · rw [hslots]
    exact h.slots.distinct.append_new fun s hs => Nat.ne_of_lt (h.slots.used s hs).1
  · rw [hslots] at hs
    rcases List.mem_append.mp hs with hs | hs
    · have := h.slots.used s hs
      show s.id < db.nextId + 1 ∧ s.revisionId < db.nextId + 1
      omega
    · rw [List.mem_singleton.mp hs]
      exact ⟨Nat.lt_succ_self _, Nat.lt_succ_of_lt h.used⟩
  · rw [places_eq, hslots, placesIn_append, ← places_eq, h.others id hid]
    have hnone : placesIn [⟨db.nextId, d, group.name, group.position⟩] id = [] := by
      unfold placesIn
      rw [List.filter_cons_of_neg (by simpa using fun h => hid h.symm)]
      rfl
    rw [hnone, List.append_nil]
  · rw [places_eq, hslots, placesIn_append, ← places_eq, h.here]
    have hone : placesIn [⟨db.nextId, d, group.name, group.position⟩] d =
        [(group.name, group.position)] := by
      unfold placesIn
      rw [List.filter_cons_of_pos (by simp)]
      rfl
    rw [hone]

/-- The group stands in the table. -/
def Stands (row : ConfigGroup) (db : ConfigDb) : Prop := row.slot ∈ db.slots

/-- Saving a group that stands moves none. -/
theorem save_slots (hdistinct : Rows.KeysDistinct Slot.id db.slots) {row : ConfigGroup}
    (hrow : Stands row db) :
    (Rows.save ConfigGroup.id row db.groups).map ConfigGroup.slot = db.slots := by
  obtain ⟨g, hg, hslot⟩ := List.mem_map.mp hrow
  have hid : g.id = row.id := congrArg Slot.id hslot
  rw [Rows.save_existing hg hid]
  unfold Rows.updateWhere
  rw [List.map_map]
  apply List.map_congr_left
  intro x hx
  show ConfigGroup.slot (if x.id == row.id then row else x) = x.slot
  split
  · rename_i hkey
    have hsame : x.slot = row.slot := hdistinct.eq_of_mem (List.mem_map_of_mem hx) hrow
      (beq_iff_eq.mp hkey)
    exact hsame.symm
  · rfl

/-- A save of the row under another content. -/
theorem saveGroup_shelved {row : ConfigGroup} :
    Meets (fun s => Shelved db₀ d places s ∧ Stands row s) (ConfigRepo.saveGroup row)
      (fun _ s => Shelved db₀ d places s ∧ Stands row s) (fun _ _ => False) := by
  apply Meets.modify
  intro s h
  have hslots := save_slots h.1.slots.distinct h.2
  refine ⟨h.1.of_slots hslots (Nat.le_refl _), ?_⟩
  show row.slot ∈ (Rows.save ConfigGroup.id row s.groups).map ConfigGroup.slot
  rw [hslots]
  exact h.2

theorem insertGroup_stands {group : ConfigGroup} (hrevision : group.revisionId = d) :
    Meets (Shelved db₀ d places) (ConfigRepo.insertGroup group)
      (fun row s => Shelved db₀ d (places ++ [(group.name, group.position)]) s ∧ Stands row s)
      (fun _ _ => False) := by
  intro s h
  refine ⟨insertGroup_shelved h hrevision, ?_⟩
  exact List.mem_map_of_mem (List.mem_append_right _ List.mem_cons_self)

/-- Writes to Vault move no group. -/
theorem shelved_vault (row : ConfigGroup) (s : ConfigDb) (v : Vault)
    (h : Shelved db₀ d places s ∧ Stands row s) :
    Shelved db₀ d places { s with vault := v } ∧ Stands row { s with vault := v } :=
  ⟨h.1.of_slots rfl (Nat.le_refl _), h.2⟩

/-! ### Copies -/

/-- A copy of a secret does not throw. -/
theorem cloneKey_meets {I : ConfigDb → Prop} (hv : ∀ s v, I s → I { s with vault := v }) (id : ℕ)
    (parsed : Object) (keyPath : String) :
    Meets I (cloneKey id parsed keyPath) (fun _ => I) (fun _ _ => False) := by
  unfold cloneKey
  cases vaultRefAt parsed keyPath with
  | none => exact Meets.pure fun _ h => h
  | some ref =>
      refine Meets.tryCatch (Meets.of_keeps (Keeps.bind (vaultCall_keeps hv _) fun resolved => ?_))
        fun _ => Meets.pure fun _ h => h
      cases resolved with
      | none => exact Keeps.pure _
      | some plaintext => exact Keeps.bind (vaultCall_keeps hv _) fun _ => Keeps.pure _

/-- A copy stands at its position in the draft. -/
theorem cloneGroupToRevision_shelved (source : ConfigGroup) (position : ℕ) :
    Meets (Shelved db₀ d places) (cloneGroupToRevision source d position)
      (fun _ => Shelved db₀ d (places ++ [(source.name, position)])) (fun _ _ => False) := by
  apply Meets.bind (@insertGroup_stands db₀ d places { source with
    revisionId := d, yamlContent := none, position := position } rfl)
  intro row
  apply Meets.ite
  · apply Meets.gets_bind
    intro enabled
    apply Meets.bind (R := fun _ s =>
      Shelved db₀ d (places ++ [(source.name, position)]) s ∧ Stands row s)
    · apply Meets.ite
      · exact (Meets.foldEach (fun parsed keyPath _ => cloneKey_meets (shelved_vault row) row.id parsed
          keyPath) _).consequence (fun _ h => h.1) (fun _ _ h => h) fun _ _ h => h
      · exact Meets.pure fun _ h => h.1
    · intro parsed
      apply Meets.bind (@saveGroup_shelved _ _ _ { row with yamlContent := dumpNonEmpty parsed })
      exact fun _ => Meets.pure fun _ h => h.1
  · exact Meets.pure fun _ h => h.1

/-- Copies of some groups stand at their positions. -/
theorem cloneGroups_shelved (groups : List ConfigGroup) :
    Meets (Shelved db₀ d places)
      (Prog.forEach (fun g => do
        let _ ← cloneGroupToRevision g d g.position
        pure ()) groups)
      (fun _ => Shelved db₀ d (places ++ groups.map fun g => (g.name, g.position)))
      (fun _ _ => False) := by
  induction groups generalizing places with
  | nil =>
      intro s h
      show Shelved db₀ d (places ++ []) s
      rw [List.append_nil]
      exact h
  | cons g groups ih =>
      have hfirst : Meets (Shelved db₀ d places) (do
          let _ ← cloneGroupToRevision g d g.position
          pure () : ConfigProg Unit)
          (fun _ => Shelved db₀ d (places ++ [(g.name, g.position)])) (fun _ _ => False) :=
        Meets.bind (cloneGroupToRevision_shelved g g.position) fun _ => Meets.pure fun _ h => h
      have hrest := @ih (places ++ [(g.name, g.position)])
      rw [List.append_assoc] at hrest
      exact Meets.bind hfirst fun _ => hrest

/-- The names of a draft. -/
theorem names_places (db : ConfigDb) (id : ℕ) :
    (db.groupsOf id).map (·.name) = Places.names (db.places id) := by
  unfold Places.names ConfigDb.places
  rw [List.map_map]
  rfl

/-- The groups that the draft misses are copied with their positions. -/
theorem cloneMissingGroups_shelved (groups : List ConfigGroup) :
    Meets (Shelved db₀ d places) (cloneMissingGroups d groups)
      (fun _ => Shelved db₀ d (places ++
        Places.missing places (groups.map fun g => (g.name, g.position))))
      (fun _ _ => False) := by
  apply Meets.gets_bind
  intro names s hs
  obtain ⟨h, hnames⟩ := hs
  have hread : names = Places.names places := by
    rw [← hnames, names_places, h.here]
  have hcopy := @cloneGroups_shelved db₀ d places
    (groups.filter fun g => g.name ∉ Places.names places) s h
  have hfilter : (groups.filter fun g => g.name ∉ Places.names places).map
      (fun g => (g.name, g.position)) =
        Places.missing places (groups.map fun g => (g.name, g.position)) := by
    unfold Places.missing
    rw [List.filter_map]
    rfl
  rw [hfilter] at hcopy
  -- the loop skips the names that are there
  have hloop : ∀ (todo : List ConfigGroup), Prog.forEach (fun group =>
      if names.contains group.name then (pure () : ConfigProg Unit)
      else do
        let _ ← cloneGroupToRevision group d group.position
        pure ()) todo =
      Prog.forEach (fun g => do
        let _ ← cloneGroupToRevision g d g.position
        pure ()) (todo.filter fun g => g.name ∉ Places.names places) := by
    intro todo
    induction todo with
    | nil => rfl
    | cons g todo ih =>
        by_cases hin : g.name ∈ Places.names places
        · rw [List.filter_cons_of_neg (by simpa using hin), ← ih]
          show ((if names.contains g.name then (pure () : ConfigProg Unit) else _) >>= fun _ => _) = _
          rw [if_pos (by rw [hread]; exact List.contains_iff_mem.mpr hin)]
          rfl
        · rw [List.filter_cons_of_pos (by simpa using hin)]
          show ((if names.contains g.name then (pure () : ConfigProg Unit) else _) >>= fun _ => _) = _
          rw [if_neg (by rw [hread]; exact fun hmem => hin (List.contains_iff_mem.mp hmem)), ih]
          rfl
  rw [hloop groups]
  exact hcopy

/-! ### The groups of the config maps -/

theorem nextGroupPosition_eq (db : ConfigDb) (id : ℕ) :
    nextGroupPosition db id = Places.next (db.places id) := by
  have hmax : ∀ groups : List ConfigGroup, Rows.maxOf Prod.snd (groups.map fun g => (g.name, g.position)) =
      Rows.maxOf ConfigGroup.position groups := by
    intro groups
    induction groups with
    | nil => rfl
    | cons g groups ih =>
        show some _ = some _
        rw [ih]
  unfold nextGroupPosition Places.next ConfigDb.places
  cases hlast : Rows.maxOf ConfigGroup.position (db.groupsOf id) with
  | none => simp only [hmax, hlast]
  | some max => simp only [hmax, hlast]

/-- A group of the draft is found by its name exactly where the name has a place. -/
theorem findGroup_places {s : ConfigDb} (h : Shelved db₀ d places s) (name : String) :
    (∃ g, s.findGroup d name = some g ∧ name ∈ Places.names places ∧ Stands g s) ∨
      (s.findGroup d name = none ∧ name ∉ Places.names places) := by
  have hmem : name ∈ Places.names places ↔ ∃ g ∈ s.groups, g.revisionId = d ∧ g.name = name := by
    rw [← h.here, ← names_places, List.mem_map]
    constructor
    · rintro ⟨g, hg, hname⟩
      obtain ⟨hg, hrevision⟩ := List.mem_filter.mp hg
      exact ⟨g, hg, beq_iff_eq.mp hrevision, hname⟩
    · rintro ⟨g, hg, hrevision, hname⟩
      exact ⟨g, List.mem_filter.mpr ⟨hg, beq_iff_eq.mpr hrevision⟩, hname⟩
  cases hfind : s.findGroup d name with
  | some g =>
      have hg := List.mem_of_find?_eq_some hfind
      have htest := List.find?_some hfind
      simp only [Bool.and_eq_true, beq_iff_eq] at htest
      exact .inl ⟨g, rfl, hmem.mpr ⟨g, hg, htest⟩, List.mem_map_of_mem hg⟩
  | none =>
      refine .inr ⟨rfl, fun hname => ?_⟩
      obtain ⟨g, hg, hrevision, hgname⟩ := hmem.mp hname
      have hnot := List.find?_eq_none.mp hfind g hg
      simp [hrevision, hgname] at hnot

theorem place_found {name : String} (h : name ∈ Places.names places) :
    Places.place places name = places := if_pos h

theorem place_new {name : String} (h : name ∉ Places.names places) :
    Places.place places name = places ++ [(name, Places.next places)] := if_neg h

/-- The row of a merged group has its place. -/
theorem draftGroupFor_shelved (name : String) (m : MergedGroup) :
    Meets (Shelved db₀ d places) (draftGroupFor d name m)
      (fun row s => Shelved db₀ d (Places.place places name) s ∧ Stands row s)
      (fun _ _ => False) := by
  apply Meets.gets_bind
  intro found s hs
  obtain ⟨h, hfound⟩ := hs
  rcases findGroup_places h name with ⟨g, hfind, hname, hstands⟩ | ⟨hfind, hname⟩
  · rw [hfind] at hfound
    subst hfound
    rw [place_found hname]
    have hdeletes : Meets (fun s => Shelved db₀ d places s ∧ Stands g s) (deleteGroupVaultSecrets g)
        (fun _ s => Shelved db₀ d places s ∧ Stands g s) (fun _ _ => False) := by
      apply Meets.gets_bind
      intro enabled
      show Meets _ (if _ then _ else _ : ConfigProg Unit) _ _
      refine Meets.consequence (P := fun s => Shelved db₀ d places s ∧ Stands g s)
        (Meets.ite (Meets.forEach fun keyPath _ => ?_) (Meets.pure fun _ h => h)) (fun _ h => h.1)
        (fun _ _ h => h) fun _ _ h => h
      cases vaultRefAt (parseYaml g.yamlContent) keyPath with
      | none => exact Meets.pure fun _ h => h
      | some _ =>
          exact Meets.tryCatch (Meets.of_keeps (vaultCall_keeps (shelved_vault g) _))
            fun _ => Meets.pure fun _ h => h
    have hsave := @saveGroup_shelved db₀ d places { g with sensitiveKeys := m.sensitiveKeys }
    exact (Meets.bind hdeletes fun _ => Meets.bind hsave fun _ => Meets.pure fun _ h => h) s ⟨h, hstands⟩
  · rw [hfind] at hfound
    subst hfound
    rw [place_new hname]
    have hposition : nextGroupPosition s d = Places.next places := by
      rw [nextGroupPosition_eq, h.here]
    have hinsert := @insertGroup_stands db₀ d places { newGroup d name (nextGroupPosition s d) with
      isGlobal := m.isGlobal, gitFilePath := m.gitFilePath, sensitiveKeys := m.sensitiveKeys } rfl s h
    rw [← hposition]
    exact hinsert

/-- **Spec.** A merged group is placed, whether its document is written or not. -/
theorem writeMergedGroup_shelved (entry : String × MergedGroup) :
    Meets (Shelved db₀ d places) (writeMergedGroup d entry)
      (fun _ => Shelved db₀ d (Places.place places entry.1))
      (fun _ => Shelved db₀ d (Places.place places entry.1)) := by
  apply Meets.bind (draftGroupFor_shelved entry.1 entry.2).never_throws
  intro row
  let I : ConfigDb → Prop := fun s => Shelved db₀ d (Places.place places entry.1) s ∧ Stands row s
  have hstore : ∀ enabled : Bool, Keeps I (
      if !entry.2.sensitiveKeys.isEmpty && enabled then
        Prog.foldEach (storeMergedKey row.id) entry.2.data entry.2.sensitiveKeys
      else pure entry.2.data : ConfigProg Object) := by
    intro enabled
    refine Keeps.ite (Keeps.foldEach (fun mergedObj keyPath _ => ?_) _) (Keeps.pure _)
    unfold storeMergedKey
    split
    · exact Keeps.pure _
    · exact Keeps.pure _
    · exact Keeps.bind (vaultCall_keeps (shelved_vault row) _) fun _ => Keeps.ofExcept _
  have hsave : ∀ data : Object, Meets I (ConfigRepo.saveGroup { row with
      yamlContent := dumpNonEmpty data }) (fun _ => I) (fun _ => I) := fun data =>
    Meets.never_throws (@saveGroup_shelved db₀ d (Places.place places entry.1)
      { row with yamlContent := dumpNonEmpty data })
  have hall := Meets.bind (Meets.of_keeps (Keeps.gets fun db : ConfigDb => db.vault.enabled))
    fun enabled => Meets.bind (Meets.of_keeps (hstore enabled)) hsave
  exact hall.consequence (fun _ h => h) (fun _ _ h => h.1) fun _ _ h => h.1

/-- The merged groups are placed one after the other. -/
theorem writeMergedGroups_shelved (merged : List (String × MergedGroup)) :
    Meets (Shelved db₀ d places) (Prog.forEach (writeMergedGroup d) merged)
      (fun _ => Shelved db₀ d (Places.placeAll places (ObjectMap.keys merged)))
      (fun _ s => ∃ added, Shelved db₀ d (Places.placeAll places added) s) := by
  induction merged generalizing places with
  | nil => exact fun s h => h
  | cons entry merged ih =>
      have hfirst : Meets (Shelved db₀ d places) (writeMergedGroup d entry)
          (fun _ => Shelved db₀ d (Places.place places entry.1))
          (fun _ s => ∃ added, Shelved db₀ d (Places.placeAll places added) s) :=
        (writeMergedGroup_shelved entry).consequence (fun _ h => h) (fun _ _ h => h)
          fun _ _ h => ⟨[entry.1], h⟩
      refine hfirst.bind fun _ => ih.consequence (fun _ h => h) (fun _ _ h => h) ?_
      rintro _ s ⟨added, h⟩
      exact ⟨entry.1 :: added, h⟩

/-- A resolution does not throw. -/
theorem resolveGroupYaml_meets {I : ConfigDb → Prop} (hv : VaultRequests I) (group : ConfigGroup)
    (globals : Object) :
    Meets I (resolveGroupYaml group globals) (fun _ => I) (fun _ _ => False) := by
  apply Meets.bind (R := fun _ => I) (Meets.gets fun _ h => h)
  intro enabled
  apply Meets.bind (R := fun _ => I)
  · apply Meets.ite
    · refine Meets.foldEach (J := fun _ => I) (fun parsed keyPath _ => ?_) _
      unfold resolveKey
      cases vaultRefAt parsed keyPath with
      | none => exact Meets.pure fun _ h => h
      | some ref =>
          refine Meets.tryCatch (Meets.of_keeps (Keeps.bind (resolveSecret_keeps hv _) fun resolved =>
            Keeps.pure _)) fun _ => Meets.pure fun _ h => h
    · exact Meets.pure fun _ h => h
  · exact fun _ => Meets.pure fun _ h => h

/-- The names of the groups of some revisions, each once. -/
def groupNames (db : ConfigDb) (revisions : List ConfigRevision) : List String :=
  ObjectMap.addKeys [] ((revisions.flatMap fun r => db.groupsOf r.id).map (·.name))

/-- The merged groups have the names of the groups that are merged. -/
theorem mergeConfigMaps_names {I : ConfigDb → Prop} (hv : VaultRequests I)
    (revisions : List ConfigRevision) {s : ConfigDb} (hs : I s) :
    ∃ merged s', mergeConfigMaps revisions s = (.ok merged, s') ∧ I s' ∧
      ObjectMap.keys merged = groupNames s revisions := by
  have hloop : ∀ (groups : List ConfigGroup) (merged : List (String × MergedGroup)) (s : ConfigDb),
      I s → ∃ out s', Prog.foldEach (fun merged cmGroup => do
          let resolved ← resolveGroupYaml cmGroup []
          pure (ObjectMap.set merged cmGroup.name
            (mergeGroup (ObjectMap.get? merged cmGroup.name) cmGroup resolved))) merged groups s =
        (.ok out, s') ∧ I s' ∧
        ObjectMap.keys out = ObjectMap.addKeys (ObjectMap.keys merged) (groups.map (·.name)) := by
    intro groups
    induction groups with
    | nil => exact fun merged s hs => ⟨merged, s, rfl, hs, rfl⟩
    | cons g groups ih =>
        intro merged s hs
        have hresolved := resolveGroupYaml_meets hv g [] s hs
        rcases hrun : resolveGroupYaml g [] s with ⟨result, s₁⟩
        rw [hrun] at hresolved
        cases result with
        | error e => exact hresolved.elim
        | ok resolved =>
            obtain ⟨out, s', hrest, hs', hkeys⟩ := ih (ObjectMap.set merged g.name
              (mergeGroup (ObjectMap.get? merged g.name) g resolved)) s₁ hresolved
            refine ⟨out, s', ?_, hs', ?_⟩
            · show ((resolveGroupYaml g [] >>= fun resolved => _) >>= _) s = _
              rw [bind_bind_run, bind_run_ok hrun]
              exact hrest
            · rw [hkeys, ObjectMap.keys_set_eq_addKeys]
              rfl
  obtain ⟨out, s', hrun, hs', hkeys⟩ := hloop (revisions.flatMap fun r => s.groupsOf r.id) [] s hs
  exact ⟨out, s', hrun, hs', hkeys⟩

/-- What `populateDraftFromConfigMaps` leaves: all groups placed, or those before it threw. -/
theorem populateDraftFromConfigMaps_shelved {s : ConfigDb} (h : Shelved db₀ d places s)
    (peers : Peers) (deviceId : String) (known : Option (List ℕ)) :
    ((populateDraftFromConfigMaps peers d deviceId known s).1 = .ok () ∧
      Shelved db₀ d (Places.placeAll places (groupNames s
        (reachingRevisions s (known.getD (peers.deviceTypeIds deviceId)) deviceId)))
        (populateDraftFromConfigMaps peers d deviceId known s).2) ∨
    ((∃ e, (populateDraftFromConfigMaps peers d deviceId known s).1 = .error e) ∧
      ∃ added, Shelved db₀ d (Places.placeAll places added)
        (populateDraftFromConfigMaps peers d deviceId known s).2) := by
  have hv : VaultRequests (Shelved db₀ d places) := fun s _ h => h.of_slots rfl (Nat.le_refl _)
  unfold populateDraftFromConfigMaps
  rw [gets_bind_run]
  obtain ⟨merged, s₁, hrun, h₁, hkeys⟩ := mergeConfigMaps_names hv
    (reachingRevisions s (known.getD (peers.deviceTypeIds deviceId)) deviceId) h
  rw [bind_run_ok hrun, ← hkeys]
  have hwrites := writeMergedGroups_shelved merged s₁ h₁
  rcases hforEach : Prog.forEach (writeMergedGroup d) merged s₁ with ⟨result, s₂⟩
  rw [hforEach] at hwrites
  cases result with
  | ok _ => exact .inl ⟨rfl, hwrites⟩
  | error e => exact .inr ⟨⟨e, rfl⟩, hwrites⟩

/-! ### Edits of a draft -/

variable {O : List (String × ℕ) → Prop}

/-- The row has a place in the draft, or can get one. -/
def Placed (O : List (String × ℕ) → Prop) (db₀ : ConfigDb) (d : ℕ) (row : ConfigGroup) (stored : Bool) (s : ConfigDb) : Prop :=
  (stored = true ∧ OrderlyShelved O db₀ d s ∧ Stands row s) ∨
    (stored = false ∧ row.revisionId = d ∧ ∃ places, Shelved db₀ d places s ∧
      O (places ++ [(row.name, row.position)]))

/-- The row that an edit loads. -/
theorem loadGroup_placed (hO : Places.Placing O) {s : ConfigDb} (h : OrderlyShelved O db₀ d s) (name : String) :
    ∃ row stored, loadGroup d name s = (.ok (row, stored), s) ∧ Placed O db₀ d row stored s := by
  obtain ⟨places, hordered, hshelved⟩ := h
  unfold loadGroup
  rw [gets_bind_run]
  rcases findGroup_places hshelved name with ⟨g, hfind, -, hstands⟩ | ⟨hfind, hname⟩
  · rw [hfind]
    exact ⟨g, true, rfl, .inl ⟨rfl, ⟨places, hordered, hshelved⟩, hstands⟩⟩
  · rw [hfind]
    refine ⟨_, false, rfl, .inr ⟨rfl, rfl, places, hshelved, ?_⟩⟩
    have hplace := hO.place hordered name
    rw [place_new hname] at hplace
    show O (places ++ [(name, nextGroupPosition s d)])
    rw [nextGroupPosition_eq, hshelved.here]
    exact hplace

/-- A save of the row that stands, with places in order. -/
theorem saveGroup_orderly {row : ConfigGroup} :
    Meets (fun s => OrderlyShelved O db₀ d s ∧ Stands row s) (ConfigRepo.saveGroup row)
      (fun _ s => OrderlyShelved O db₀ d s ∧ Stands row s) (fun _ _ => False) := by
  rintro s ⟨⟨places, hordered, hshelved⟩, hstands⟩
  have hsaved := saveGroup_shelved s ⟨hshelved, hstands⟩
  exact ⟨⟨places, hordered, hsaved.1⟩, hsaved.2⟩

theorem insertGroup_orderly {row : ConfigGroup} :
    Meets (Placed O db₀ d row false) (ConfigRepo.insertGroup row)
      (fun row s => OrderlyShelved O db₀ d s ∧ Stands row s) (fun _ _ => False) := by
  intro s h
  rcases h with ⟨hfalse, -⟩ | ⟨-, hrevision, places, hshelved, hordered⟩
  · cases hfalse
  · have hinserted := insertGroup_stands hrevision s hshelved
    exact ⟨⟨_, hordered, hinserted.1⟩, hinserted.2⟩

theorem saveLoaded_orderly {row : ConfigGroup} {stored : Bool} :
    Meets (Placed O db₀ d row stored) (saveLoaded row stored)
      (fun _ => OrderlyShelved O db₀ d) (fun _ _ => False) := by
  unfold saveLoaded
  cases stored with
  | true =>
      apply Meets.bind (R := fun _ => OrderlyShelved O db₀ d)
      · apply saveGroup_orderly.consequence _ (fun _ _ h => h.1) fun _ _ h => h
        rintro s (⟨-, horderly, hstands⟩ | ⟨hfalse, -⟩)
        · exact ⟨horderly, hstands⟩
        · cases hfalse
      · exact fun _ => Meets.pure fun _ h => h
  | false => exact insertGroup_orderly.consequence (fun _ h => h) (fun _ _ h => h.1) fun _ _ h => h

/-- The secrets of a document are stored, and its row is saved. -/
theorem storeDoc_orderly {row : ConfigGroup} (doc : Object) :
    Meets (fun s => OrderlyShelved O db₀ d s ∧ Stands row s) (storeDoc row doc)
      (fun _ => OrderlyShelved O db₀ d) (fun _ => OrderlyShelved O db₀ d) := by
  let I : ConfigDb → Prop := fun s => OrderlyShelved O db₀ d s ∧ Stands row s
  have hv : ∀ s v, I s → I { s with vault := v } := by
    rintro s v ⟨⟨places, hordered, hshelved⟩, hstands⟩
    exact ⟨⟨places, hordered, hshelved.of_slots rfl (Nat.le_refl _)⟩, hstands⟩
  have hstore : Keeps I (Prog.foldEach (storeKey row.id) doc row.sensitiveKeys) := by
    refine Keeps.foldEach (fun parsed keyPath _ => ?_) _
    unfold storeKey
    split
    · exact Keeps.pure _
    · exact Keeps.pure _
    · exact Keeps.ite (Keeps.pure _) (Keeps.bind (vaultCall_keeps hv _) fun _ => Keeps.ofExcept _)
  have hsave : ∀ parsed : Object, Meets I (do
      ConfigRepo.saveGroup { row with yamlContent := dumpNonEmpty parsed }
      Prog.ofExcept (mapGroupToDto { row with yamlContent := dumpNonEmpty parsed }) :
        ConfigProg ConfigGroupDto) (fun _ => I) (fun _ => I) := fun parsed =>
    Meets.bind (Meets.never_throws (@saveGroup_orderly db₀ d O { row with
      yamlContent := dumpNonEmpty parsed })) fun _ => Meets.of_keeps (Keeps.ofExcept _)
  have hall := Meets.bind (Meets.of_keeps hstore) hsave
  exact hall.consequence (fun _ h => h) (fun _ _ h => h.1) fun _ _ h => h.1

/-- **Main result.** An edit of the draft keeps its places in order. -/
theorem editDraftGroup_ordered (hO : Places.Placing O) (dto : UpsertConfigGroupDto) :
    Keeps (OrderlyShelved O db₀ d) (editDraftGroup d dto) := by
  intro s h
  obtain ⟨row, stored, hload, hplaced⟩ := loadGroup_placed hO h dto.name
  rw [editDraftGroup_run hload]
  have hedited : Placed O db₀ d (editedGroup dto row) stored s := hplaced
  have hwrites : Meets (Placed O db₀ d (editedGroup dto row) stored)
      (writeEdit dto (editedGroup dto row) stored)
      (fun _ => OrderlyShelved O db₀ d) (fun _ => OrderlyShelved O db₀ d) := by
    have hsaves : ∀ group : ConfigGroup, group.slot = (editedGroup dto row).slot →
        Meets (Placed O db₀ d (editedGroup dto row) stored) (do
          let saved ← saveLoaded group stored
          Prog.ofExcept (mapGroupToDto saved) : ConfigProg ConfigGroupDto)
          (fun _ => OrderlyShelved O db₀ d) (fun _ => OrderlyShelved O db₀ d) := by
      intro group hslot
      have hsame : Placed O db₀ d (editedGroup dto row) stored = Placed O db₀ d group stored := by
        obtain ⟨-, hrevision, hname, hposition⟩ := Slot.mk.inj hslot
        unfold Placed Stands
        rw [hslot, hrevision, hname, hposition]
      rw [hsame]
      exact Meets.bind saveLoaded_orderly.never_throws fun _ => Meets.of_keeps (Keeps.ofExcept _)
    unfold writeEdit
    cases dto.yamlContent with
    | none => exact hsaves _ rfl
    | some text =>
        refine Meets.bind (R := fun _ => Placed O db₀ d (editedGroup dto row) stored)
          (Meets.gets fun _ h => h) fun enabled => Meets.ite ?_ (hsaves _ rfl)
        apply Meets.bind (R := fun row s => OrderlyShelved O db₀ d s ∧ Stands row s)
        · cases stored with
          | true =>
              apply Meets.pure
              rintro s (⟨-, horderly, hstands⟩ | ⟨hfalse, -⟩)
              · exact ⟨horderly, hstands⟩
              · cases hfalse
          | false => exact insertGroup_orderly.never_throws
        · exact fun row => storeDoc_orderly _
  exact hwrites.exit hedited

/-! ### Removals and defaults -/

theorem groupsOf_deleteWhere (db : ConfigDb) (q : ConfigGroup → Bool) (id : ℕ) :
    ConfigDb.places { db with groups := Rows.deleteWhere q db.groups } id =
      (((db.groupsOf id).filter fun g => !q g)).map fun g => (g.name, g.position) := by
  unfold ConfigDb.places ConfigDb.groupsOf Rows.deleteWhere
  rw [List.filter_filter, List.filter_filter]
  simp only [Bool.and_comm]

/-- Groups of the draft that go leave the others in order. -/
theorem deleteWhere_orderly (hO : Places.Placing O) {s : ConfigDb} (h : OrderlyShelved O db₀ d s) {q : ConfigGroup → Bool}
    (hdraft : ∀ g ∈ s.groups, q g = true → g.revisionId = d) :
    OrderlyShelved O db₀ d { s with groups := Rows.deleteWhere q s.groups } := by
  obtain ⟨places, hordered, hshelved⟩ := h
  have hsub : (Rows.deleteWhere q s.groups).Sublist s.groups := Rows.deleteWhere_sublist q s.groups
  have hslots : (ConfigDb.slots { s with groups := Rows.deleteWhere q s.groups }).Sublist s.slots :=
    hsub.map ConfigGroup.slot
  refine ⟨_, ?_, ⟨hshelved.slots.distinct.sublist hslots, fun x hx =>
    hshelved.slots.used x (hslots.subset hx)⟩, hshelved.used, fun id hid => ?_, rfl⟩
  · apply hO.sublist hordered
    rw [← hshelved.here, groupsOf_deleteWhere]
    exact List.filter_sublist.map _
  · rw [← hshelved.others id hid, groupsOf_deleteWhere]
    have hkept : ((s.groupsOf id).filter fun g => !q g) = s.groupsOf id := by
      rw [List.filter_eq_self]
      intro g hg
      obtain ⟨hmem, hrevision⟩ := List.mem_filter.mp hg
      cases hq : q g with
      | true => exact absurd ((beq_iff_eq.mp hrevision).symm.trans (hdraft g hmem hq)) hid
      | false => rfl
    rw [hkept]
    rfl

theorem orderly_vault (s : ConfigDb) (v : Vault) (h : OrderlyShelved O db₀ d s) :
    OrderlyShelved O db₀ d { s with vault := v } := by
  obtain ⟨places, hordered, hshelved⟩ := h
  exact ⟨places, hordered, hshelved.of_slots rfl (Nat.le_refl _)⟩

/-- **Main result.** A delete of a group of the draft keeps the others in order. -/
theorem deleteDraftGroup_ordered (hO : Places.Placing O) (name : String) :
    Keeps (OrderlyShelved O db₀ d) (deleteDraftGroup d name) := by
  intro s h
  unfold deleteDraftGroup
  rw [gets_bind_run]
  cases hfind : s.findGroup d name with
  | none => exact h
  | some group =>
      have hgroup := List.mem_of_find?_eq_some hfind
      have htest := List.find?_some hfind
      simp only [Bool.and_eq_true, beq_iff_eq] at htest
      let I : ConfigDb → Prop := fun t => OrderlyShelved O db₀ d t ∧ t.groups = s.groups
      have hsecrets : Keeps I (deleteGroupVaultSecrets group) :=
        deleteGroupVaultSecrets_keeps (fun t v ht => ⟨orderly_vault t v ht.1, ht.2⟩) group
      have hremove : Meets I (ConfigRepo.removeGroup group.id) (fun _ => OrderlyShelved O db₀ d)
          (fun _ => OrderlyShelved O db₀ d) := by
        apply Meets.modify
        rintro t ⟨ht, hsame⟩
        apply deleteWhere_orderly hO ht
        intro g hg hkey
        obtain ⟨places, -, hshelved⟩ := h
        rw [hsame] at hg
        have heq : g.slot = group.slot := hshelved.slots.distinct.eq_of_mem
          (List.mem_map_of_mem hg) (List.mem_map_of_mem hgroup) (beq_iff_eq.mp hkey)
        exact (congrArg Slot.revisionId heq).trans htest.1
      have hall := Meets.bind ((Meets.of_keeps hsecrets).consequence (fun _ h => h) (fun _ _ h => h)
        fun _ _ h => h.1) fun _ => Meets.bind hremove fun _ => Meets.of_keeps (Keeps.pure true)
      exact hall.exit ⟨h, rfl⟩

/-- The default groups of an empty draft. -/
theorem insertDefaultGroups_shelved (entries : List (String × ℕ)) :
    Meets (Shelved db₀ d places) (Prog.forEach (fun entry => do
      let _ ← ConfigRepo.insertGroup (newGroup d entry.1 entry.2)
      pure ()) entries)
      (fun _ => Shelved db₀ d (places ++ entries)) (fun _ _ => False) := by
  induction entries generalizing places with
  | nil =>
      intro s h
      show Shelved db₀ d (places ++ []) s
      rw [List.append_nil]
      exact h
  | cons entry entries ih =>
      have hrest := @ih (places ++ [entry])
      rw [List.append_assoc] at hrest
      have hfirst : Meets (Shelved db₀ d places) (do
          let _ ← ConfigRepo.insertGroup (newGroup d entry.1 entry.2)
          pure () : ConfigProg Unit) (fun _ => Shelved db₀ d (places ++ [entry])) (fun _ _ => False) :=
        Meets.bind (@insertGroup_stands db₀ d places (newGroup d entry.1 entry.2) rfl)
          fun _ => Meets.pure fun _ h => h.1
      exact Meets.bind hfirst fun _ => hrest

end ConfigService

end UploadService
