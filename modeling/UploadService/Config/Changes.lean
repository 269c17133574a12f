import UploadService.Config.ReadPaths

/-!
# What changed between two revisions

A draft is compared with the revision it replaces group by group: by name, by top-level key, by
the values that reading gives, and by the flag that makes a group global. The version is computed
from less than that: from the stored documents, in which a secret is the reference to it.

Main results:

- `hasMajorChange_iff`, `hasMinorChange_iff`: what `computeNextSemVer` looks for;
- `sameGroups_iff_sameGlobals`: where nothing changed, reading both revisions gives the same groups
  exactly where the order of the global groups makes no difference.
-/

namespace UploadService

namespace ConfigService

open Prog

/-- The stored document of a group. -/
def document (g : ConfigGroup) : Object := parseYaml g.yamlContent

variable {prev draft groups : List ConfigGroup} {v : Vault}

/-! ### Kinds of changes -/

/-- A group was added or removed, or a top-level key of a group removed. -/
def MajorChange (prev draft : List ConfigGroup) : Prop :=
  (∃ g ∈ draft, ∀ h ∈ prev, h.name ≠ g.name) ∨ (∃ h ∈ prev, ∀ g ∈ draft, h.name ≠ g.name) ∨
    ∃ h ∈ prev, ∃ g ∈ draft, h.name = g.name ∧
      ∃ k ∈ ObjectMap.keys (document h), k ∉ ObjectMap.keys (document g)

/-- A top-level key was added to a group. -/
def KeyAdded (prev draft : List ConfigGroup) : Prop :=
  ∃ h ∈ prev, ∃ g ∈ draft, h.name = g.name ∧
    ∃ k ∈ ObjectMap.keys (document g), k ∉ ObjectMap.keys (document h)

/-- The JSON text of a stored entry changed. -/
def TextChanged (prev draft : List ConfigGroup) : Prop :=
  ∃ h ∈ prev, ∃ g ∈ draft, h.name = g.name ∧
    ∃ k ∈ ObjectMap.keys (document h), k ∈ ObjectMap.keys (document g) ∧
      (ObjectMap.get? (document h) k).map Value.json ≠ (ObjectMap.get? (document g) k).map Value.json

/-- The value that reading an entry gives changed. -/
def ValueChanged (v : Vault) (prev draft : List ConfigGroup) : Prop :=
  ∃ h ∈ prev, ∃ g ∈ draft, h.name = g.name ∧
    ∃ k ∈ ObjectMap.keys (document h), k ∈ ObjectMap.keys (document g) ∧
      ObjectMap.get? (resolvedYaml v h) k ≠ ObjectMap.get? (resolvedYaml v g) k

/-- A group became global, or stopped to be. -/
def FlagChanged (prev draft : List ConfigGroup) : Prop :=
  ∃ h ∈ prev, ∃ g ∈ draft, h.name = g.name ∧ h.isGlobal ≠ g.isGlobal

instance : Decidable (MajorChange prev draft) := by
  unfold MajorChange
  infer_instance

instance : Decidable (KeyAdded prev draft) := by
  unfold KeyAdded
  infer_instance

instance : Decidable (TextChanged prev draft) := by
  unfold TextChanged
  infer_instance

instance : Decidable (ValueChanged v prev draft) := by
  unfold ValueChanged
  infer_instance

instance : Decidable (FlagChanged prev draft) := by
  unfold FlagChanged
  infer_instance

/-! ### What the version is computed from -/

theorem contentByName_eq (h : (groups.map (·.name)).Nodup) :
    contentByName groups = groups.map fun g => (g.name, document g) :=
  (ObjectMap.foldl_set_new h fun _ _ hmem => List.not_mem_nil hmem).trans (List.nil_append _)

/-- The content under a name is the document of the group of that name. -/
theorem get?_contentByName (h : (groups.map (·.name)).Nodup) (name : String) :
    (ObjectMap.get? (contentByName groups) name = none ∧ ∀ g ∈ groups, g.name ≠ name) ∨
      ∃ g ∈ groups, g.name = name ∧ ObjectMap.get? (contentByName groups) name = some (document g) := by
  have hiff : ∀ o, ObjectMap.get? (contentByName groups) name = some o ↔
      ∃ g ∈ groups, g.name = name ∧ document g = o := by
    intro o
    rw [contentByName_eq h]
    exact ObjectMap.get?_map_iff h
  cases hget : ObjectMap.get? (contentByName groups) name with
  | some o =>
      obtain ⟨g, hg, hname, rfl⟩ := (hiff o).mp hget
      exact .inr ⟨g, hg, hname, rfl⟩
  | none =>
      refine .inl ⟨rfl, fun g hg hname => ?_⟩
      rw [(hiff (document g)).mpr ⟨g, hg, hname, rfl⟩] at hget
      cases hget

theorem any_contentByName (h : (groups.map (·.name)).Nodup) (q : String × Object → Bool) :
    (contentByName groups).any q = true ↔ ∃ g ∈ groups, q (g.name, document g) = true := by
  rw [contentByName_eq h, List.any_map, List.any_eq_true]
  rfl

/-- Of the groups of one name there is one. -/
theorem eq_of_name (h : (groups.map (·.name)).Nodup) {g g' : ConfigGroup} (hg : g ∈ groups)
    (hg' : g' ∈ groups) (hname : g.name = g'.name) : g = g' :=
  List.inj_on_of_nodup_map h hg hg' hname

/-- One group of the draft in the test for a major change. -/
theorem group_major_iff (hprev : (prev.map (·.name)).Nodup) (g : ConfigGroup) :
    (match ObjectMap.get? (contentByName prev) g.name with
      | none => true
      | some prevParsed => prevParsed.any fun kv => !ObjectMap.has (document g) kv.1) = true ↔
      (∀ h ∈ prev, h.name ≠ g.name) ∨ ∃ h ∈ prev, h.name = g.name ∧
        ∃ k ∈ ObjectMap.keys (document h), k ∉ ObjectMap.keys (document g) := by
  rcases get?_contentByName hprev g.name with ⟨hnone, hnew⟩ | ⟨h, hh, hname, hsome⟩
  · rw [hnone]
    exact iff_of_true rfl (.inl hnew)
  · rw [hsome]
    dsimp only
    rw [List.any_eq_true]
    constructor
    · rintro ⟨kv, hkv, hnot⟩
      exact .inr ⟨h, hh, hname, kv.1, List.mem_map_of_mem hkv, (ObjectMap.not_has_iff _ _).mp hnot⟩
    · rintro (hnew | ⟨h', hh', hname', k, hk, hnot⟩)
      · exact absurd hname (hnew h hh)
      · obtain rfl := eq_of_name hprev hh' hh (hname'.trans hname.symm)
        obtain ⟨kv, hkv, rfl⟩ := List.mem_map.mp hk
        exact ⟨kv, hkv, (ObjectMap.not_has_iff _ _).mpr hnot⟩

/-- **Spec.** The code finds a major change where there is one. -/
theorem hasMajorChange_iff (hprev : (prev.map (·.name)).Nodup) (hdraft : (draft.map (·.name)).Nodup) :
    hasMajorChange (contentByName prev) (contentByName draft) = true ↔ MajorChange prev draft := by
  unfold hasMajorChange MajorChange
  rw [Bool.or_eq_true, any_contentByName hdraft, any_contentByName hprev]
  have hremoved : (∃ h ∈ prev, (!ObjectMap.has (contentByName draft) h.name) = true) ↔
      ∃ h ∈ prev, ∀ g ∈ draft, h.name ≠ g.name := by
    apply exists_congr
    intro h
    apply and_congr_right
    intro _
    rw [ObjectMap.not_has_iff, ← ObjectMap.get?_eq_none_iff]
    rcases get?_contentByName hdraft h.name with ⟨hnone, hgone⟩ | ⟨g, hg, hname, hsome⟩
    · exact iff_of_true hnone fun g hg heq => hgone g hg heq.symm
    · rw [hsome]
      exact iff_of_false nofun fun hall => hall g hg hname.symm
  rw [hremoved]
  constructor
  · rintro (⟨g, hg, htest⟩ | hremoved)
    · rcases (group_major_iff hprev g).mp htest with hnew | ⟨h, hh, hkey⟩
      · exact .inl ⟨g, hg, hnew⟩
      · exact .inr (.inr ⟨h, hh, g, hg, hkey⟩)
    · exact .inr (.inl hremoved)
  · rintro (⟨g, hg, hnew⟩ | hremoved | ⟨h, hh, g, hg, hkey⟩)
    · exact .inl ⟨g, hg, (group_major_iff hprev g).mpr (.inl hnew)⟩
    · exact .inr hremoved
    · exact .inl ⟨g, hg, (group_major_iff hprev g).mpr (.inr ⟨h, hh, hkey⟩)⟩

/-- One entry of a group in the test for a minor change. -/
theorem entry_differs_iff (old new : Object) {k : String} (hk : k ∈ ObjectMap.keys new) :
    (match ObjectMap.get? old k, ObjectMap.get? new k with
      | some x, some y => x.json != y.json
      | _, _ => true) = true ↔
      k ∉ ObjectMap.keys old ∨ (k ∈ ObjectMap.keys old ∧
        (ObjectMap.get? old k).map Value.json ≠ (ObjectMap.get? new k).map Value.json) := by
  rw [← ObjectMap.get?_eq_none_iff]
  have hnew : ObjectMap.get? new k ≠ none := fun hnone => ObjectMap.get?_eq_none_iff.mp hnone hk
  have hold : k ∈ ObjectMap.keys old ↔ ObjectMap.get? old k ≠ none := by
    rw [ne_eq, ObjectMap.get?_eq_none_iff, not_not]
  rw [hold]
  cases hy : ObjectMap.get? new k with
  | none => exact absurd hy hnew
  | some y =>
      cases hx : ObjectMap.get? old k with
      | none => simp
      | some x => simp

/-- One group of the draft in the test for a minor change. -/
theorem group_minor_iff (hprev : (prev.map (·.name)).Nodup) (g : ConfigGroup) :
    (match ObjectMap.get? (contentByName prev) g.name with
      | none => false
      | some prevParsed => (document g).any fun kv =>
          match ObjectMap.get? prevParsed kv.1, ObjectMap.get? (document g) kv.1 with
          | some old, some new => old.json != new.json
          | _, _ => true) = true ↔
      ∃ h ∈ prev, h.name = g.name ∧ ∃ k ∈ ObjectMap.keys (document g),
        k ∉ ObjectMap.keys (document h) ∨ (k ∈ ObjectMap.keys (document h) ∧
          (ObjectMap.get? (document h) k).map Value.json ≠
            (ObjectMap.get? (document g) k).map Value.json) := by
  rcases get?_contentByName hprev g.name with ⟨hnone, hnew⟩ | ⟨h, hh, hname, hsome⟩
  · rw [hnone]
    exact iff_of_false nofun fun ⟨h, hh, hname, _⟩ => hnew h hh hname
  · rw [hsome]
    dsimp only
    rw [List.any_eq_true]
    constructor
    · rintro ⟨kv, hkv, htest⟩
      have hk : kv.1 ∈ ObjectMap.keys (document g) := List.mem_map_of_mem hkv
      exact ⟨h, hh, hname, kv.1, hk, (entry_differs_iff _ _ hk).mp htest⟩
    · rintro ⟨h', hh', hname', k, hk, hdiffers⟩
      obtain rfl := eq_of_name hprev hh' hh (hname'.trans hname.symm)
      have htest := (entry_differs_iff _ _ hk).mpr hdiffers
      obtain ⟨kv, hkv, rfl⟩ := List.mem_map.mp hk
      exact ⟨kv, hkv, htest⟩

/-- **Spec.** The code finds a minor change where a key was added, or a stored text changed. -/
theorem hasMinorChange_iff (hprev : (prev.map (·.name)).Nodup) (hdraft : (draft.map (·.name)).Nodup) :
    hasMinorChange (contentByName prev) (contentByName draft) = true ↔
      KeyAdded prev draft ∨ TextChanged prev draft := by
  unfold hasMinorChange KeyAdded TextChanged
  rw [any_contentByName hdraft]
  constructor
  · rintro ⟨g, hg, htest⟩
    obtain ⟨h, hh, hname, k, hk, hadded | ⟨hkept, hdiffers⟩⟩ := (group_minor_iff hprev g).mp htest
    · exact .inl ⟨h, hh, g, hg, hname, k, hk, hadded⟩
    · exact .inr ⟨h, hh, g, hg, hname, k, hkept, hk, hdiffers⟩
  · rintro (⟨h, hh, g, hg, hname, k, hk, hadded⟩ | ⟨h, hh, g, hg, hname, k, hkept, hk, hdiffers⟩)
    · exact ⟨g, hg, (group_minor_iff hprev g).mpr ⟨h, hh, hname, k, hk, .inl hadded⟩⟩
    · exact ⟨g, hg, (group_minor_iff hprev g).mpr ⟨h, hh, hname, k, hk, .inr ⟨hkept, hdiffers⟩⟩⟩

/-! ### What reading gives -/

/-- A write under a path that has a value adds no top-level key. -/
theorem mem_keys_setByPath {o : Object} {path : String} (hsome : getByPath o path ≠ none) (x : Value)
    (k : String) : k ∈ ObjectMap.keys (setByPath o path x) ↔ k ∈ ObjectMap.keys o := by
  unfold getByPath at hsome
  unfold setByPath
  have hnone : ∀ parts, getIn none parts = none := by
    intro parts
    induction parts with
    | nil => rfl
    | cons key parts ih => exact ih
  have hfirst : ∀ key parts, getIn (some (.map o)) (key :: parts) ≠ none → key ∈ ObjectMap.keys o := by
    intro key parts hwalk
    by_contra hnot
    apply hwalk
    show getIn (ObjectMap.get? o key) parts = none
    rw [ObjectMap.get?_eq_none_iff.mpr hnot]
    exact hnone parts
  match hparts : pathParts path with
  | [] => exact Iff.rfl
  | key :: parts =>
      rw [hparts] at hsome
      have hkey := hfirst key parts hsome
      have hset : ∀ y : Value, k ∈ ObjectMap.keys (ObjectMap.set o key y) ↔ k ∈ ObjectMap.keys o := by
        intro y
        rw [ObjectMap.mem_keys_set]
        exact or_iff_left_of_imp fun heq => heq ▸ hkey
      cases parts with
      | nil => exact hset x
      | cons key' rest => exact hset _

theorem mem_keys_resolvedYaml (v : Vault) (g : ConfigGroup) (k : String) :
    k ∈ ObjectMap.keys (resolvedYaml v g) ↔ k ∈ ObjectMap.keys (document g) := by
  have hkey : ∀ (o : Object) (keyPath : String),
      k ∈ ObjectMap.keys (resolvedKey v o keyPath) ↔ k ∈ ObjectMap.keys o := by
    intro o keyPath
    unfold resolvedKey
    cases hat : vaultRefAt o keyPath with
    | none => exact Iff.rfl
    | some ref =>
        apply mem_keys_setByPath
        intro hnone
        unfold vaultRefAt at hat
        rw [hnone] at hat
        cases hat
  have hloop : ∀ (keys : List String) (o : Object),
      k ∈ ObjectMap.keys (keys.foldl (resolvedKey v) o) ↔ k ∈ ObjectMap.keys o := by
    intro keys
    induction keys with
    | nil => exact fun _ => Iff.rfl
    | cons keyPath keys ih => exact fun o => (ih _).trans (hkey o keyPath)
  unfold resolvedYaml
  split
  · exact hloop g.sensitiveKeys _
  · exact Iff.rfl

/-- The device's own group under a name. -/
theorem get?_deviceGroupsOf (h : (groups.map (·.name)).Nodup) (v : Vault) (name : String)
    (own : Object) : ObjectMap.get? (deviceGroupsOf v groups) name = some own ↔
      ∃ g ∈ groups, g.isGlobal = false ∧ g.name = name ∧ resolvedYaml v g = own := by
  have hfilter : ∀ (gs : List ConfigGroup) (acc : List (String × Object)),
      gs.foldl (setGroup v) acc = (gs.filter fun g => !g.isGlobal).foldl
        (fun acc g => ObjectMap.set acc g.name (resolvedYaml v g)) acc := by
    intro gs
    induction gs with
    | nil => exact fun _ => rfl
    | cons g gs ih =>
        intro acc
        rw [List.foldl_cons, ih]
        unfold setGroup
        cases hglobal : g.isGlobal with
        | true =>
            rw [List.filter_cons_of_neg (by rw [hglobal]; exact Bool.false_ne_true)]
            rfl
        | false =>
            rw [List.filter_cons_of_pos (by rw [hglobal]; rfl), List.foldl_cons]
            rfl
  have hnames : ((groups.filter fun g => !g.isGlobal).map (·.name)).Nodup :=
    h.sublist (List.filter_sublist.map _)
  have hset := @ObjectMap.foldl_set_new _ _ _ (resolvedYaml v) _ hnames []
    fun _ _ hmem => List.not_mem_nil hmem
  unfold deviceGroupsOf
  rw [hfilter, hset, List.nil_append, ObjectMap.get?_map_iff hnames]
  apply exists_congr
  intro g
  rw [List.mem_filter, Bool.not_eq_true', and_assoc]

/-- The entry that the read of a version delivers. -/
theorem versionEntry_eq (hkeys : KeyedOnce groups) (name key : String) :
    (ObjectMap.get? (versionGroupsOf v groups) name).bind (ObjectMap.get? · key) =
      (ObjectMap.get? (deviceGroupsOf v groups) name).bind fun own =>
        delivered ((ObjectMap.get? own key).or (ObjectMap.get? (globalsOf v groups) key)) := by
  rw [get?_versionGroupsOf]
  cases hown : ObjectMap.get? (deviceGroupsOf v groups) name with
  | none => rfl
  | some own =>
      have hnodup := ObjectMap.keys_assign_nodup (@globalsOf_nodup v groups hkeys)
        (deviceGroupsOf_keyed hkeys name own hown)
      show ObjectMap.get? (dropNulls (ObjectMap.assign (globalsOf v groups) own)) key = _
      rw [get?_dropNulls hnodup, ObjectMap.get?_assign]
      rfl

/-- What a group takes from the global groups is the same in both revisions. -/
def SameGlobals (v : Vault) (prev draft : List ConfigGroup) : Prop :=
  ∀ h ∈ prev, h.isGlobal = false → ∀ k, k ∉ ObjectMap.keys (document h) →
    delivered (ObjectMap.get? (globalsOf v prev) k) = delivered (ObjectMap.get? (globalsOf v draft) k)

/-- The draft has the groups of the previous revision, with the same values and flags. -/
structure Unchanged (v : Vault) (prev draft : List ConfigGroup) : Prop where
  forth : ∀ h ∈ prev, ∃ g ∈ draft, h.name = g.name
  back : ∀ g ∈ draft, ∃ h ∈ prev, h.name = g.name
  values : ∀ h ∈ prev, ∀ g ∈ draft, h.name = g.name →
    ∀ k, ObjectMap.get? (resolvedYaml v h) k = ObjectMap.get? (resolvedYaml v g) k
  flags : ∀ h ∈ prev, ∀ g ∈ draft, h.name = g.name → h.isGlobal = g.isGlobal

theorem unchanged_of_not (hmajor : ¬ MajorChange prev draft) (hadded : ¬ KeyAdded prev draft)
    (hvalue : ¬ ValueChanged v prev draft) (hflag : ¬ FlagChanged prev draft) :
    Unchanged v prev draft := by
  refine ⟨fun h hh => ?_, fun g hg => ?_, fun h hh g hg hname k => ?_, fun h hh g hg hname => ?_⟩
  · by_contra hnone
    exact hmajor (.inr (.inl ⟨h, hh, fun g hg hname => hnone ⟨g, hg, hname⟩⟩))
  · by_contra hnone
    exact hmajor (.inl ⟨g, hg, fun h hh hname => hnone ⟨h, hh, hname⟩⟩)
  · by_cases hk : k ∈ ObjectMap.keys (document h)
    · have hk' : k ∈ ObjectMap.keys (document g) := by
        by_contra hnot
        exact hmajor (.inr (.inr ⟨h, hh, g, hg, hname, k, hk, hnot⟩))
      by_contra hne
      exact hvalue ⟨h, hh, g, hg, hname, k, hk, hk', hne⟩
    · have hk' : k ∉ ObjectMap.keys (document g) := fun hmem =>
        hadded ⟨h, hh, g, hg, hname, k, hmem, hk⟩
      rw [← mem_keys_resolvedYaml v, ← ObjectMap.get?_eq_none_iff] at hk hk'
      rw [hk, hk']
  · by_contra hne
    exact hflag ⟨h, hh, g, hg, hname, hne⟩

/-- The two revisions have the same own groups, with the same entries. -/
theorem Unchanged.own (h : Unchanged v prev draft) (hprev : (prev.map (·.name)).Nodup)
    (hdraft : (draft.map (·.name)).Nodup) (name : String) :
    (ObjectMap.get? (deviceGroupsOf v prev) name = none ∧
      ObjectMap.get? (deviceGroupsOf v draft) name = none) ∨
    ∃ g ∈ prev, ∃ own own', g.isGlobal = false ∧ g.name = name ∧ resolvedYaml v g = own ∧
      ObjectMap.get? (deviceGroupsOf v prev) name = some own ∧
      ObjectMap.get? (deviceGroupsOf v draft) name = some own' ∧
      ∀ k, ObjectMap.get? own k = ObjectMap.get? own' k := by
  cases hown : ObjectMap.get? (deviceGroupsOf v prev) name with
  | some own =>
      obtain ⟨g, hg, hglobal, hname, hresolved⟩ := (get?_deviceGroupsOf hprev v name own).mp hown
      obtain ⟨g', hg', hname'⟩ := h.forth g hg
      have hown' := (get?_deviceGroupsOf hdraft v name (resolvedYaml v g')).mpr
        ⟨g', hg', (h.flags g hg g' hg' hname').symm.trans hglobal, hname'.symm.trans hname, rfl⟩
      refine .inr ⟨g, hg, own, _, hglobal, hname, hresolved, rfl, hown', fun k => ?_⟩
      rw [← hresolved]
      exact h.values g hg g' hg' hname' k
  | none =>
      refine .inl ⟨rfl, ?_⟩
      cases hown' : ObjectMap.get? (deviceGroupsOf v draft) name with
      | none => rfl
      | some own' =>
          obtain ⟨g', hg', hglobal, hname, -⟩ := (get?_deviceGroupsOf hdraft v name own').mp hown'
          obtain ⟨g, hg, hname'⟩ := h.back g' hg'
          have hsome := (get?_deviceGroupsOf hprev v name (resolvedYaml v g)).mpr
            ⟨g, hg, (h.flags g hg g' hg' hname').trans hglobal, hname'.trans hname, rfl⟩
          rw [hown] at hsome
          cases hsome

/-- **Main result.** Where nothing changed, both revisions are read as the same groups exactly
where the groups take the same from the global ones. -/
theorem sameGroups_iff_sameGlobals (h : Unchanged v prev draft) (hprev : (prev.map (·.name)).Nodup)
    (hdraft : (draft.map (·.name)).Nodup) (hkeys : KeyedOnce prev) (hkeys' : KeyedOnce draft) :
    SameGroups (versionGroupsOf v prev) (versionGroupsOf v draft) ↔ SameGlobals v prev draft := by
  constructor
  · intro hsame g hg hglobal k hk
    have hown := (get?_deviceGroupsOf hprev v g.name (resolvedYaml v g)).mpr ⟨g, hg, hglobal, rfl, rfl⟩
    have hentries := hsame.entries g.name k
    rw [versionEntry_eq hkeys, versionEntry_eq hkeys'] at hentries
    rcases h.own hprev hdraft g.name with ⟨hnone, -⟩ | ⟨-, -, own, own', -, -, -, hsome, hsome', hvalues⟩
    · rw [hown] at hnone
      cases hnone
    · obtain rfl := Option.some.inj (hown.symm.trans hsome)
      rw [← mem_keys_resolvedYaml v, ← ObjectMap.get?_eq_none_iff] at hk
      rw [hown, hsome', Option.bind_some, Option.bind_some, ← hvalues k, hk] at hentries
      exact hentries
  · intro hglobals
    refine ⟨fun name => ?_, fun name k => ?_⟩
    · rw [mem_keys_versionGroupsOf, mem_keys_versionGroupsOf, ← not_iff_not,
        ← ObjectMap.get?_eq_none_iff, ← ObjectMap.get?_eq_none_iff]
      rcases h.own hprev hdraft name with ⟨hnone, hnone'⟩ | ⟨-, -, own, own', -, -, -, hsome, hsome', -⟩
      · rw [hnone, hnone']
      · rw [hsome, hsome']
        exact iff_of_false nofun nofun
    · rw [versionEntry_eq hkeys, versionEntry_eq hkeys']
      rcases h.own hprev hdraft name with
        ⟨hnone, hnone'⟩ | ⟨g, hg, own, own', hglobal, -, hresolved, hsome, hsome', hvalues⟩
      · rw [hnone, hnone']
        rfl
      · rw [hsome, hsome', Option.bind_some, Option.bind_some, ← hvalues k]
        cases hk : ObjectMap.get? own k with
        | some x => rfl
        | none =>
            rw [← hresolved, ObjectMap.get?_eq_none_iff, mem_keys_resolvedYaml] at hk
            exact hglobals g hg hglobal k hk

end ConfigService

end UploadService
