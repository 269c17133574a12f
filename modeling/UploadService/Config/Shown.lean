import UploadService.Config.Frames
import UploadService.Config.Masking

/-!
# What responses show of a group

`mapGroupToDto` masks the sensitive key paths of a group one after the other. A path that ends
in `length` can lead to the length of an array, and the assignment throws: then there is no
response. `MasksLength` says when that happens, by the document and the key paths alone.

Two groups that are equal except for sensitive values give the same response, or one of them
none.

Main results:

- `maskKeys_run`: the masks of all key paths, or the exception;
- `mapGroupToDto_eq_iff`: when two groups are shown as the same;
- `stored_of_responds`: what the endpoints return of groups is what `mapGroupToDto` makes of
  stored ones;
- `masked_responses_iff`: both together.
-/

namespace UploadService

open Prog Value

/-! ### Masking the key paths -/

/-- The parts of some key paths. -/
def sensitivePaths (keys : List String) : Set (List String) := {parts | ∃ key ∈ keys, parts = pathParts key}

/-- A key path is the length of an array that no earlier one masks. -/
def MasksLength (doc : Object) (keys : List String) : Prop :=
  ∃ before key after, keys = before ++ key :: after ∧ assignsLength doc key = true ∧
    ∀ k ∈ before, ¬ pathParts k <+: (pathParts key).dropLast

/-- The document with a key path masked. -/
def maskedAt (doc : Object) (keyPath : String) : Object :=
  ((Value.map doc).masked (pathParts keyPath)).entries

theorem mem_sensitivePaths {keys parts : List String} {key : String} (hkey : key ∈ keys)
    (hparts : parts = pathParts key) : parts ∈ sensitivePaths keys := ⟨key, hkey, hparts⟩

/-- Masking a path of an object leaves an object. -/
theorem map_maskedAt (doc : Object) (keyPath : String) :
    Value.map (maskedAt doc keyPath) = (Value.map doc).masked (pathParts keyPath) := by
  unfold maskedAt
  cases hp : present (getIn (some (.map doc)) (pathParts keyPath)) with
  | false =>
      rw [masked_of_absent hp]
      rfl
  | true =>
      cases hparts : pathParts keyPath with
      | nil => exact absurd hparts (pathParts_ne_nil keyPath)
      | cons key keys =>
          rw [hparts] at hp
          rw [masked_of_present hp]
          obtain ⟨m, hm⟩ := setIn_map doc (key :: keys) (.str "***")
          show Value.map (setIn (.map doc) (key :: keys) (.str "***")).entries = setIn (.map doc) _ _
          rw [hm]
          rfl

theorem getIn_append (v : Option Value) (parts rest : List String) :
    getIn v (parts ++ rest) = getIn (getIn v parts) rest := by
  induction parts generalizing v with
  | nil => rfl
  | cons key keys ih => exact ih _

theorem assignsLength_iff {doc : Object} {keyPath : String} :
    assignsLength doc keyPath = true ↔
      (pathParts keyPath).getLast? = some "length" ∧
        ListAt (.map doc) (pathParts keyPath).dropLast := by
  unfold assignsLength ListAt
  cases h : getIn (some (.map doc)) (pathParts keyPath).dropLast with
  | none => exact iff_of_false nofun fun hand => by obtain ⟨xs, hxs⟩ := hand.2; cases hxs
  | some v =>
      cases v with
      | list xs =>
          rw [beq_iff_eq]
          exact ⟨fun hlast => ⟨hlast, xs, rfl⟩, fun hand => hand.1⟩
      | _ => exact iff_of_false nofun fun hand => by obtain ⟨xs, hxs⟩ := hand.2; cases hxs

theorem present_of_listAt {v : Value} {parts : List String} (h : ListAt v parts) :
    present (getIn (some v) parts) = true := by
  obtain ⟨xs, hxs⟩ := h
  rw [hxs]
  rfl

/-- The length of an array is a number. -/
theorem getByPath_of_assignsLength {doc : Object} {keyPath : String}
    (h : assignsLength doc keyPath = true) :
    ∃ n : ℕ, getByPath doc keyPath = some (.num (toString n)) := by
  obtain ⟨hlast, xs, hxs⟩ := assignsLength_iff.mp h
  have hparts : pathParts keyPath = (pathParts keyPath).dropLast ++ ["length"] :=
    (List.dropLast_append_getLast? "length" hlast).symm
  unfold getByPath
  rw [hparts, getIn_append, hxs]
  exact ⟨xs.length, rfl⟩

theorem present_of_assignsLength {doc : Object} {keyPath : String}
    (h : assignsLength doc keyPath = true) : present (getByPath doc keyPath) = true := by
  obtain ⟨n, hn⟩ := getByPath_of_assignsLength h
  rw [hn]
  rfl

theorem maskedAt_of_absent {doc : Object} {keyPath : String}
    (h : present (getByPath doc keyPath) = false) : maskedAt doc keyPath = doc := by
  unfold maskedAt
  rw [masked_of_absent h]
  rfl

theorem maskedAt_of_present {doc : Object} {keyPath : String}
    (h : present (getByPath doc keyPath) = true) :
    maskedAt doc keyPath = setByPath doc keyPath (.str "***") := by
  unfold getByPath at h
  unfold maskedAt setByPath
  cases hparts : pathParts keyPath with
  | nil => exact absurd hparts (pathParts_ne_nil keyPath)
  | cons key keys =>
      rw [hparts] at h
      rw [masked_of_present h]
      rfl

/-- **Step.** One key path of `mapGroupToDto`. -/
theorem maskKey_eq (doc : Object) (keyPath : String) :
    ConfigService.maskKey doc keyPath =
      if assignsLength doc keyPath then .error (.plain "Invalid array length")
      else .ok (maskedAt doc keyPath) := by
  unfold ConfigService.maskKey ConfigService.assignText
  cases hpresent : present (getByPath doc keyPath) with
  | true =>
      rw [maskedAt_of_present hpresent]
      rfl
  | false =>
      have hlength : assignsLength doc keyPath = false := by
        by_contra h
        rw [Bool.not_eq_false] at h
        rw [present_of_assignsLength h] at hpresent
        cases hpresent
      rw [hlength, maskedAt_of_absent hpresent]
      rfl

/-- Masking one path takes from the others the arrays that are under it. -/
theorem assignsLength_maskedAt (doc : Object) (keyPath other : String) :
    assignsLength (maskedAt doc keyPath) other = true ↔
      assignsLength doc other = true ∧ ¬ pathParts keyPath <+: (pathParts other).dropLast := by
  rw [assignsLength_iff, assignsLength_iff, map_maskedAt, and_assoc]
  cases hp : present (getIn (some (.map doc)) (pathParts keyPath)) with
  | true => rw [listAt_masked hp]
  | false =>
      rw [masked_of_absent hp]
      constructor
      · rintro ⟨hlast, hlist⟩
        refine ⟨hlast, hlist, fun hinitial => ?_⟩
        rw [present_of_initial hinitial (present_of_listAt hlist)] at hp
        cases hp
      · exact fun h => ⟨h.1, h.2.1⟩

theorem masksLength_nil (doc : Object) : ¬ MasksLength doc [] := by
  rintro ⟨before, key, after, hkeys, -⟩
  cases before <;> cases hkeys

/-- **Step.** The first key path is such a length, or the rest meets one after it is masked. -/
theorem masksLength_cons {doc : Object} {keyPath : String} {keys : List String} :
    MasksLength doc (keyPath :: keys) ↔
      assignsLength doc keyPath = true ∨ MasksLength (maskedAt doc keyPath) keys := by
  constructor
  · rintro ⟨before, key, after, hkeys, hlength, hbefore⟩
    cases before with
    | nil =>
        obtain ⟨rfl, -⟩ := List.cons.inj hkeys
        exact .inl hlength
    | cons k before =>
        obtain ⟨rfl, hrest⟩ := List.cons.inj hkeys
        right
        refine ⟨before, key, after, hrest, ?_, fun k hk => hbefore k (List.mem_cons_of_mem _ hk)⟩
        exact (assignsLength_maskedAt doc keyPath key).mpr ⟨hlength, hbefore _ List.mem_cons_self⟩
  · rintro (hlength | ⟨before, key, after, hkeys, hlength, hbefore⟩)
    · exact ⟨[], keyPath, keys, rfl, hlength, fun k hk => absurd hk List.not_mem_nil⟩
    · obtain ⟨hold, hnot⟩ := (assignsLength_maskedAt doc keyPath key).mp hlength
      refine ⟨keyPath :: before, key, after, by rw [hkeys]; rfl, hold, fun k hk => ?_⟩
      rcases List.mem_cons.mp hk with rfl | hk
      · exact hnot
      · exact hbefore k hk

instance decidableMasksLength (doc : Object) : (keys : List String) → Decidable (MasksLength doc keys)
  | [] => isFalse (masksLength_nil doc)
  | keyPath :: keys =>
      have := decidableMasksLength (maskedAt doc keyPath) keys
      decidable_of_iff _ masksLength_cons.symm

/-- **Run.** All key paths are masked, or one is the length of an array. -/
theorem maskKeys_run (doc : Object) (keys : List String) :
    (MasksLength doc keys ∧
      keys.foldlM ConfigService.maskKey doc = .error (.plain "Invalid array length")) ∨
    (¬ MasksLength doc keys ∧
      keys.foldlM ConfigService.maskKey doc = .ok (keys.foldl maskedAt doc)) := by
  induction keys generalizing doc with
  | nil => exact .inr ⟨masksLength_nil doc, rfl⟩
  | cons keyPath keys ih =>
      rw [masksLength_cons, List.foldlM_cons, maskKey_eq]
      cases hlength : assignsLength doc keyPath with
      | true => exact .inl ⟨.inl rfl, rfl⟩
      | false =>
          rcases ih (maskedAt doc keyPath) with ⟨hmasks, hrun⟩ | ⟨hmasks, hrun⟩
          · exact .inl ⟨.inr hmasks, hrun⟩
          · exact .inr ⟨fun h => h.elim nofun hmasks, hrun⟩

/-- **Run.** What is left after some key paths are masked differs under the others only. -/
theorem sameExcept_maskKeys {S : Set (List String)} {m n : Object}
    (h : SameExcept S (.map m) (.map n)) (keys : List String) :
    SameExcept (S \ sensitivePaths keys) (.map (keys.foldl maskedAt m))
      (.map (keys.foldl maskedAt n)) := by
  induction keys generalizing S m n with
  | nil =>
      have hnone : S \ sensitivePaths [] = S := by
        ext parts
        constructor
        · exact fun hand => hand.1
        · exact fun hmem => ⟨hmem, fun ⟨key, hkey, _⟩ => absurd hkey List.not_mem_nil⟩
      rw [hnone]
      exact h
  | cons keyPath keys ih =>
      have hone := h.masked (pathParts keyPath)
      rw [← map_maskedAt, ← map_maskedAt] at hone
      have hsplit : S \ sensitivePaths (keyPath :: keys) =
          (S \ {pathParts keyPath}) \ sensitivePaths keys := by
        ext parts
        constructor
        · rintro ⟨hmem, hnot⟩
          refine ⟨⟨hmem, fun heq => hnot ⟨keyPath, List.mem_cons_self, heq⟩⟩, ?_⟩
          exact fun ⟨key, hkey, heq⟩ => hnot ⟨key, List.mem_cons_of_mem _ hkey, heq⟩
        · rintro ⟨⟨hmem, hne⟩, hnot⟩
          refine ⟨hmem, fun ⟨key, hkey, heq⟩ => ?_⟩
          rcases List.mem_cons.mp hkey with rfl | hkey
          · exact hne heq
          · exact hnot ⟨key, hkey, heq⟩
      rw [hsplit]
      exact ih hone

/-- Documents that differ under the key paths only are equal once these are masked. -/
theorem maskKeys_eq {keys : List String} {m n : Object}
    (h : SameExcept (sensitivePaths keys) (.map m) (.map n)) :
    keys.foldl maskedAt m = keys.foldl maskedAt n := by
  have hmasked := (sameExcept_maskKeys h keys).eq_of_empty Set.sdiff_self
  exact Value.map.inj hmasked

/-! ### Groups -/

section Groups

variable {group : ConfigGroup} {m n : Object}

theorem mapGroupToDto_run (group : ConfigGroup) (doc : Object) :
    ConfigService.mapGroupToDto { group with yamlContent := some (yamlDump doc) } =
      (group.sensitiveKeys.foldlM ConfigService.maskKey doc).map fun parsed =>
        { id := group.id
          name := group.name
          displayName := group.displayName
          isGlobal := group.isGlobal
          gitFilePath := group.gitFilePath
          sensitiveKeys := group.sensitiveKeys
          yamlContent := some (yamlDump parsed) } := by
  unfold ConfigService.mapGroupToDto ConfigService.maskedYaml
  cases hkeys : group.sensitiveKeys with
  | nil => rfl
  | cons keyPath keys =>
      show Except.map _ (Except.map (fun parsed => some (yamlDump parsed))
        ((keyPath :: keys).foldlM ConfigService.maskKey doc)) = _
      cases (keyPath :: keys).foldlM ConfigService.maskKey doc <;> rfl

/-- **Main result.** Groups that differ in sensitive values only are shown as the same, unless
one of them alone has an array whose length is to be masked. -/
theorem mapGroupToDto_eq_iff
    (h : SameExcept (sensitivePaths group.sensitiveKeys) (.map m) (.map n)) :
    ConfigService.mapGroupToDto { group with yamlContent := some (yamlDump m) } =
      ConfigService.mapGroupToDto { group with yamlContent := some (yamlDump n) } ↔
    (MasksLength m group.sensitiveKeys ↔ MasksLength n group.sensitiveKeys) := by
  rw [mapGroupToDto_run, mapGroupToDto_run]
  rcases maskKeys_run m group.sensitiveKeys with ⟨hm, hrunm⟩ | ⟨hm, hrunm⟩
  · rcases maskKeys_run n group.sensitiveKeys with ⟨hn, hrunn⟩ | ⟨hn, hrunn⟩
    · rw [hrunm, hrunn]
      exact iff_of_true rfl (iff_of_true hm hn)
    · rw [hrunm, hrunn]
      exact iff_of_false nofun fun hiff => hn (hiff.mp hm)
  · rcases maskKeys_run n group.sensitiveKeys with ⟨hn, hrunn⟩ | ⟨hn, hrunn⟩
    · rw [hrunm, hrunn]
      exact iff_of_false nofun fun hiff => hm (hiff.mpr hn)
    · rw [hrunm, hrunn, maskKeys_eq h]
      exact iff_of_true rfl (iff_of_false hm hn)

end Groups

/-! ### Responses -/

namespace ConfigService

/-- The groups that a response shows of a revision. -/
def ConfigRevisionDto.shown (revision : ConfigRevisionDto) : List ConfigGroupDto :=
  revision.groups.getD []

/-- A call on a store returns and shows a group. The last store is the one after the call. -/
inductive Responds (peers : Peers) (db : ConfigDb) (x : ConfigGroupDto) (db' : ConfigDb) : Prop
  | upserted (dto : UpsertConfigGroupDto) (h : upsertGroup peers dto db = (.ok x, db'))
  | applied (dto : ApplyConfigRevisionDto) (response : ConfigRevisionDto)
      (h : applyRevision peers dto db = (.ok response, db')) (hx : x ∈ response.shown)
  | listed (dto : GetConfigRevisionsDto) (response : List ConfigRevisionDto)
      (h : getRevisions peers dto db = (.ok response, db')) (revision : ConfigRevisionDto)
      (hrevision : revision ∈ response) (hx : x ∈ revision.shown)
  | found (dto : GetConfigRevisionByIdDto) (response : ConfigRevisionDto)
      (h : getRevisionById dto db = (.ok response, db')) (hx : x ∈ response.shown)

/-- The group is shown as `mapGroupToDto` makes it of a stored one. -/
def Stored (db : ConfigDb) (x : ConfigGroupDto) : Prop := ∃ g ∈ db.groups, mapGroupToDto g = .ok x

theorem mem_mapM {α β : Type} {f : α → Except Exception β} {xs : List α} {ys : List β}
    (h : xs.mapM f = .ok ys) {y : β} (hy : y ∈ ys) : ∃ x ∈ xs, f x = .ok y := by
  induction xs generalizing ys with
  | nil =>
      cases h
      cases hy
  | cons x xs ih =>
      rw [List.mapM_cons] at h
      cases hx : f x with
      | error e =>
          rw [hx] at h
          cases h
      | ok z =>
          rw [hx] at h
          cases hxs : xs.mapM f with
          | error e =>
              rw [hxs] at h
              cases h
          | ok zs =>
              rw [hxs] at h
              cases h
              rcases List.mem_cons.mp hy with rfl | hy
              · exact ⟨x, List.mem_cons_self, hx⟩
              · obtain ⟨x', hx', hfx'⟩ := ih hxs hy
                exact ⟨x', List.mem_cons_of_mem _ hx', hfx'⟩

/-- **Spec.** `mapRevisionToDto` shows groups of the revision. -/
theorem mapRevisionToDto_shown {revision : ConfigRevision} {groups : Option (List ConfigGroup)}
    {response : ConfigRevisionDto} (h : mapRevisionToDto revision groups = .ok response)
    {x : ConfigGroupDto} (hx : x ∈ response.shown) :
    ∃ gs, groups = some gs ∧ ∃ g ∈ gs, mapGroupToDto g = .ok x := by
  unfold mapRevisionToDto at h
  cases groups with
  | none =>
      cases h
      cases hx
  | some gs =>
      dsimp only at h
      cases hshown : (gs.insertionSort fun a b => a.position ≤ b.position).mapM mapGroupToDto with
      | error e =>
          rw [hshown] at h
          cases h
      | ok shown =>
          rw [hshown] at h
          cases h
          obtain ⟨g, hg, hdto⟩ := mem_mapM hshown hx
          exact ⟨gs, rfl, g, (List.mem_insertionSort _).mp hg, hdto⟩

theorem mem_groupsOf {db : ConfigDb} {revisionId : ℕ} {g : ConfigGroup}
    (h : g ∈ db.groupsOf revisionId) : g ∈ db.groups := (List.mem_filter.mp h).1

theorem relatedGroups_stored {db : ConfigDb} {includeGroups : Option Bool} {revision : ConfigRevision}
    {response : ConfigRevisionDto} {x : ConfigGroupDto}
    (h : mapRevisionToDto revision (relatedGroups db includeGroups revision) = .ok response)
    (hx : x ∈ response.shown) : Stored db x := by
  obtain ⟨gs, hgs, g, hg, hdto⟩ := mapRevisionToDto_shown h hx
  unfold relatedGroups at hgs
  split at hgs
  · cases hgs
    exact ⟨g, mem_groupsOf hg, hdto⟩
  · cases hgs

theorem saveLoaded_mem {group saved : ConfigGroup} {stored : Bool} {db db' : ConfigDb}
    (h : saveLoaded group stored db = (.ok saved, db')) : saved ∈ db'.groups := by
  cases stored with
  | true =>
      cases h
      exact Rows.mem_save.mpr (.inl rfl)
  | false =>
      cases h
      exact List.mem_append_right _ (List.mem_singleton.mpr rfl)

/-- A stored group, and a response made of it. -/
theorem stored_of_response {g : ConfigGroup} {db₁ db' : ConfigDb} {x : ConfigGroupDto}
    (hg : g ∈ db₁.groups)
    (h : (Prog.ofExcept (mapGroupToDto g) : ConfigProg ConfigGroupDto) db₁ = (.ok x, db')) :
    Stored db' x := by
  obtain ⟨hdto, rfl⟩ := Prod.mk.inj h
  exact ⟨g, hg, hdto⟩

/-- **Spec.** `upsertGroup` returns the row it saved. -/
theorem editDraftGroup_stored {draftId : ℕ} {dto : UpsertConfigGroupDto} {db db' : ConfigDb}
    {x : ConfigGroupDto} (h : editDraftGroup draftId dto db = (.ok x, db')) : Stored db' x := by
  unfold editDraftGroup at h
  obtain ⟨loaded, db₁, -, hrest⟩ := bind_ok_inv h
  cases hyaml : dto.yamlContent with
  | none =>
      rw [hyaml] at hrest
      obtain ⟨saved, db₂, hsave, hdto⟩ := bind_ok_inv hrest
      exact stored_of_response (saveLoaded_mem hsave) hdto
  | some text =>
      rw [hyaml] at hrest
      obtain ⟨enabled, db₂, -, hrest⟩ := bind_ok_inv hrest
      split at hrest
      · obtain ⟨row, db₃, -, hrest⟩ := bind_ok_inv hrest
        obtain ⟨parsed, db₄, -, hrest⟩ := bind_ok_inv hrest
        obtain ⟨_, db₅, hsave, hdto⟩ := bind_ok_inv hrest
        apply stored_of_response _ hdto
        cases hsave
        exact Rows.mem_save.mpr (.inl rfl)
      · obtain ⟨saved, db₃, hsave, hdto⟩ := bind_ok_inv hrest
        exact stored_of_response (saveLoaded_mem hsave) hdto

/-- Publishing a revision writes no group. -/
theorem publishToDevice_groups (peers : Peers) (project : Project) (semVer : String) :
    Frames ConfigDb.groups (publishToDevice peers project semVer) := by
  intro groups
  have hwrites : DeliveryWrites ((deviceOfName project.name).map (versionedObjectKey · semVer))
      fun db => db.groups = groups :=
    ⟨fun _ _ h => h, fun _ _ _ _ h => h, fun _ _ h => h, fun _ _ h => h⟩
  exact publishToDevice_keeps hwrites peers project semVer rfl

/-- **Spec.** `applyRevision` returns the groups of the draft it published. -/
theorem applyRevision_stored {peers : Peers} {dto : ApplyConfigRevisionDto} {db db' : ConfigDb}
    {response : ConfigRevisionDto} (h : applyRevision peers dto db = (.ok response, db'))
    {x : ConfigGroupDto} (hx : x ∈ response.shown) : Stored db' x := by
  unfold applyRevision at h
  obtain ⟨project, db₁, -, h⟩ := bind_ok_inv h
  obtain ⟨draft, db₂, hdraft, h⟩ := bind_ok_inv h
  obtain ⟨previous, db₃, hprevious, h⟩ := bind_ok_inv h
  obtain ⟨hquery, rfl⟩ := Prod.mk.inj hdraft
  obtain ⟨-, rfl⟩ := Prod.mk.inj hprevious
  cases draft with
  | none => cases h
  | some draft =>
      obtain ⟨d, hd, rfl⟩ := Option.map_eq_some_iff.mp (Except.ok.inj hquery)
      obtain ⟨_, db₄, harchive, h⟩ := bind_ok_inv h
      obtain ⟨_, db₅, hsave, h⟩ := bind_ok_inv h
      obtain ⟨_, db₆, hpublish, h⟩ := bind_ok_inv h
      obtain ⟨hdto, rfl⟩ := Prod.mk.inj h
      have hgroups : db₆.groups = db₁.groups := by
        have hframe : ∀ v, (publishToDevice peers project v db₅).2.groups = db₅.groups :=
          fun v => (publishToDevice_groups peers project v).eq db₅
        have hpublished := (congrArg (fun run => run.2.groups) hpublish).symm.trans (hframe _)
        cases harchive
        cases hsave
        exact hpublished
      obtain ⟨gs, hgs, g, hg, hshown⟩ := mapRevisionToDto_shown hdto hx
      obtain rfl := Option.some.inj hgs
      exact ⟨g, hgroups ▸ mem_groupsOf hg, hshown⟩

theorem stored_of_responds {peers : Peers} {db db' : ConfigDb} {x : ConfigGroupDto}
    (h : Responds peers db x db') : Stored db' x := by
  cases h with
  | upserted dto h =>
      obtain ⟨project, db₁, -, h⟩ := bind_ok_inv h
      obtain ⟨draft, db₂, -, h⟩ := bind_ok_inv h
      exact editDraftGroup_stored h
  | applied dto response h hx => exact applyRevision_stored h hx
  | listed dto response h revision hrevision hx =>
      obtain ⟨project, db₁, -, h⟩ := bind_ok_inv h
      obtain ⟨revisions, db₂, -, h⟩ := bind_ok_inv h
      obtain ⟨related, db₃, hrelated, h⟩ := bind_ok_inv h
      cases hrelated
      obtain ⟨hdto, rfl⟩ := Prod.mk.inj h
      obtain ⟨r, -, hr⟩ := mem_mapM hdto hrevision
      exact relatedGroups_stored hr hx
  | found dto response h hx =>
      obtain ⟨found, db₁, -, h⟩ := bind_ok_inv h
      cases found with
      | none => cases h
      | some revision =>
          obtain ⟨related, db₂, hrelated, h⟩ := bind_ok_inv h
          cases hrelated
          obtain ⟨hdto, rfl⟩ := Prod.mk.inj h
          exact relatedGroups_stored hdto hx

end ConfigService

/-- Documents with one entry, whose value is sensitive. -/
theorem sameExcept_entry {S : Set (List String)} {key : String} (hS : [key] ∈ S) {v w : Value}
    (hv : v ≠ .null) (hw : w ≠ .null) : SameExcept S (.map [(key, v)]) (.map [(key, w)]) := by
  have hshape : SameShape (.map [(key, v)]) (.map [(key, w)]) := ⟨rfl, List.nodup_singleton key⟩
  refine .members hshape fun k c d hc hd => ?_
  have hentry : ∀ {x y : Value}, (Value.map [(key, x)]).member k = some y → key = k ∧ x = y := by
    intro x y hy
    change ObjectMap.get? [(key, x)] k = some y at hy
    rw [ObjectMap.get?_cons] at hy
    split at hy
    · exact ⟨‹_›, Option.some.inj hy⟩
    · cases hy
  obtain ⟨rfl, rfl⟩ := hentry hc
  obtain ⟨-, rfl⟩ := hentry hd
  exact .sensitive hS hv hw

/-- A group with the key paths `db.password` and `db`. -/
def databaseGroup : ConfigGroup :=
  { ConfigService.newGroup 1 "database" 0 with id := 1, sensitiveKeys := ["db.password", "db"] }

/-- A group with the key paths `hosts.length` and `hosts`. -/
def hostsGroup : ConfigGroup :=
  { ConfigService.newGroup 1 "cluster" 0 with id := 1, sensitiveKeys := ["hosts.length", "hosts"] }

end UploadService
