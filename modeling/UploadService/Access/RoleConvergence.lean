import UploadService.Access.OidcRoles
import Mathlib.Data.List.Nodup

/-!
# Convergence of the roles

What the provider promises of a realm (`Sound`), what a synchronization is for (`Reconciled`), and
when the service brings it about (`Reconcilable`). Both loops are taken apart at one definition:
the turn of a definition writes one role or one group, and the turns of the others do not touch it.

Main results:

- `setupAllRoles_sound`: the service keeps the promises of the provider;
- `reconciled_iff`: from a sound realm, roles and groups come to exactly what is defined, and stay,
  exactly where no definition names a role that is defined after it and not there yet, no foreign
  role stands under a desired name, and each group that is found under a defined name is at the
  top or is as defined beside a top-level one that is.
-/

namespace UploadService

namespace Realm

/-- What the provider promises: roles that are composites or mapped are there, and the ids of
groups are their own. -/
structure Sound (realm : Realm) : Prop where
  composites : ∀ parent name, ⟨.client, name⟩ ∈ realm.getCompositeRoles parent →
    realm.hasRole name = true
  mappings : ∀ id name, ⟨.client, name⟩ ∈ realm.roleMappings id → realm.hasRole name = true
  ids : (realm.groups.preorder.map (·.id)).Nodup
  fresh : ∀ group ∈ realm.groups.preorder, group.id < realm.nextId

/-- Of definitions with distinct names, the earlier and the later ones have other names. -/
theorem other_names {α : Type} {name : α → String} {earlier later : List α} {x : α}
    (hnames : ((earlier ++ x :: later).map name).Nodup) :
    (∀ e ∈ earlier, name e ≠ name x) ∧ ∀ e ∈ later, name e ≠ name x := by
  rw [List.map_append, List.map_cons] at hnames
  obtain ⟨_, hlater, hdisjoint⟩ := List.nodup_append.mp hnames
  refine ⟨fun e he => ?_, fun e he heq => ?_⟩
  · exact hdisjoint (name e) (List.mem_map_of_mem he) (name x) List.mem_cons_self
  · exact (List.nodup_cons.mp hlater).1 (heq ▸ List.mem_map_of_mem he)

/-! ### The promises are kept -/

section Step

variable {realm : Realm}

theorem createCompositeRole_sound (h : realm.Sound) (d : RoleDefinition) :
    (realm.createCompositeRole d).Sound := by
  obtain ⟨roles, hframe⟩ := createCompositeRole_groups realm d
  have hgroups : (realm.createCompositeRole d).groups = realm.groups := by rw [hframe]
  have hnext : (realm.createCompositeRole d).nextId = realm.nextId := by rw [hframe]
  have hmappings : (realm.createCompositeRole d).roleMappings = realm.roleMappings := by
    rw [hframe]
  refine ⟨fun parent name hin => ?_, fun id name hin => ?_, ?_, ?_⟩
  · rw [hasRole_createCompositeRole]
    by_cases hparent : parent = d.name
    · rw [hparent] at hin
      obtain ⟨_, hcurrent | ⟨_, hhas, _⟩⟩ := mem_composites_createCompositeRole.mp hin
      · exact .inl (h.composites d.name name hcurrent)
      · exact hhas
    · rw [getCompositeRoles_createCompositeRole, if_neg hparent] at hin
      exact .inl (h.composites parent name hin)
  · rw [hmappings] at hin
    exact (hasRole_createCompositeRole name).mpr (.inl (h.mappings id name hin))
  · rw [hgroups]
    exact h.ids
  · rw [hgroups, hnext]
    exact h.fresh

/-- The group that is created has an id of its own. -/
theorem Sound.ids_addRoot (h : realm.Sound) (name : String) :
    (((realm.groups.addRoot ⟨realm.nextId, name⟩).preorder).map (·.id)).Nodup := by
  rw [Forest.preorder_addRoot, List.map_append]
  refine List.nodup_append.mpr ⟨h.ids, List.nodup_singleton _, ?_⟩
  intro id hid other hother heq
  obtain ⟨group, hgroup, rfl⟩ := List.mem_map.mp hid
  have hother : other = realm.nextId := List.mem_singleton.mp hother
  exact absurd (heq.trans hother) (Nat.ne_of_lt (h.fresh group hgroup))

theorem syncGroup_sound (h : realm.Sound) (g : GroupDefinition) : (realm.syncGroup g).Sound := by
  refine ⟨fun parent name hin => ?_, fun id name hin => ?_, ?_, ?_⟩
  · unfold getCompositeRoles at hin
    rw [syncGroup_roles] at hin
    rw [syncGroup_hasRole]
    exact h.composites parent name hin
  · rw [syncGroup_hasRole]
    by_cases hid : id = (realm.writtenGroup g.name).id
    · rw [hid] at hin
      obtain ⟨_, ⟨_, hcurrent⟩ | hhas⟩ := mem_roleMappings_syncGroup.mp hin
      · exact h.mappings _ name hcurrent
      · exact hhas
    · rw [(syncGroup_frame hid).2] at hin
      exact h.mappings id name hin
  · rw [syncGroup_groups]
    cases realm.getGroupByName g.name with
    | none => exact h.ids_addRoot g.name
    | some group => exact h.ids
  · rw [syncGroup_groups, syncGroup_nextId]
    cases realm.getGroupByName g.name with
    | none =>
        intro group hgroup
        rw [Option.elim_none, Forest.preorder_addRoot] at hgroup
        rcases List.mem_append.mp hgroup with hold | hnew
        · exact Nat.lt_succ_of_lt (h.fresh group hold)
        · rw [List.mem_singleton.mp hnew]
          exact Nat.lt_succ_self realm.nextId
    | some group => exact h.fresh

end Step

/-- **Run.** The service keeps the promises of the provider. -/
theorem createCompositeRoles_sound {realm : Realm} (h : realm.Sound)
    (roleDefinitions : List RoleDefinition) :
    (Runs.run createCompositeRole realm roleDefinitions).Sound :=
  Runs.invariant_run (I := Sound) (fun _ d h => createCompositeRole_sound h d) h roleDefinitions

theorem syncGroups_sound {realm : Realm} (h : realm.Sound)
    (groupDefinitions : List GroupDefinition) :
    (Runs.run syncGroup realm groupDefinitions).Sound :=
  Runs.invariant_run (I := Sound) (fun _ g h => syncGroup_sound h g) h groupDefinitions

theorem setupAllRoles_sound {realm : Realm} (h : realm.Sound)
    (roleDefinitions : List RoleDefinition) (groupDefinitions : List GroupDefinition) :
    (realm.setupAllRoles roleDefinitions groupDefinitions).Sound :=
  syncGroups_sound (createCompositeRoles_sound h roleDefinitions) groupDefinitions

/-! ### The loop over the role definitions -/

section RoleRun

variable {realm : Realm} {roleDefinitions : List RoleDefinition}

/-- Once all definitions had their turn, the roles are those that were there and those defined. -/
theorem hasRole_createCompositeRoles (name : String) :
    (Runs.run createCompositeRole realm roleDefinitions).hasRole name = true ↔
      realm.hasRole name = true ∨ ∃ d ∈ roleDefinitions, d.name = name := by
  induction roleDefinitions generalizing realm with
  | nil => simp [Runs.run]
  | cons d rest ih =>
      rw [Runs.run, ih, hasRole_createCompositeRole, or_assoc]
      apply or_congr_right
      constructor
      · rintro (rfl | ⟨e, he, hname⟩)
        · exact ⟨d, List.mem_cons_self, rfl⟩
        · exact ⟨e, List.mem_cons_of_mem d he, hname⟩
      · rintro ⟨e, he, hname⟩
        rcases List.mem_cons.mp he with rfl | he
        · exact .inl hname.symm
        · exact .inr ⟨e, he, hname⟩

/-- The composites of a role that no definition is about. -/
theorem getCompositeRoles_createCompositeRoles {name : String}
    (h : ∀ d ∈ roleDefinitions, d.name ≠ name) :
    (Runs.run createCompositeRole realm roleDefinitions).getCompositeRoles name =
      realm.getCompositeRoles name := by
  induction roleDefinitions generalizing realm with
  | nil => rfl
  | cons d rest ih =>
      rw [Runs.run, ih fun e he => h e (List.mem_cons_of_mem d he),
        getCompositeRoles_createCompositeRole, if_neg (h d List.mem_cons_self).symm]

/-- **Frame.** The loop writes roles only. -/
theorem createCompositeRoles_groups :
    ∃ roles, Runs.run createCompositeRole realm roleDefinitions = { realm with roles := roles } := by
  refine Runs.invariant_run (I := fun s : Realm => ∃ roles, s = { realm with roles := roles })
    ?_ ?_ roleDefinitions
  · rintro s d ⟨roles, rfl⟩
    obtain ⟨roles', hroles⟩ := createCompositeRole_groups { realm with roles := roles } d
    exact ⟨roles', hroles⟩
  · exact ⟨realm.roles, rfl⟩

/-- **Run.** What a defined role is composed of in the end: its composites of before and the
roles that were there at its turn, as far as they are desired. -/
theorem mem_composites_createCompositeRoles {earlier later : List RoleDefinition}
    {d : RoleDefinition} (hnames : ((earlier ++ d :: later).map (·.name)).Nodup)
    {role : OidcRole} :
    role ∈ (Runs.run createCompositeRole realm (earlier ++ d :: later)).getCompositeRoles d.name ↔
      role.name ∈ d.desiredRoleNames ∧
        (role ∈ realm.getCompositeRoles d.name ∨
          role.container = .client ∧
            ((realm.hasRole role.name = true ∨ ∃ e ∈ earlier, e.name = role.name) ∨
              role.name = d.name) ∧
            ∀ r ∈ realm.getCompositeRoles d.name, r.name ≠ role.name) := by
  obtain ⟨hearlier, hlater⟩ := other_names hnames
  rw [Runs.run_append, Runs.run, getCompositeRoles_createCompositeRoles hlater,
    mem_composites_createCompositeRole, getCompositeRoles_createCompositeRoles hearlier,
    hasRole_createCompositeRoles]

end RoleRun

/-! ### The loop over the group definitions -/

section GroupRun

variable {realm : Realm} {groupDefinitions : List GroupDefinition} {group : OidcGroup}
  {name : String}

theorem Sound.id_injective (h : realm.Sound) {other : OidcGroup}
    (hgroup : group ∈ realm.groups.preorder) (hother : other ∈ realm.groups.preorder)
    (heq : group.id = other.id) : group = other :=
  List.inj_on_of_nodup_map h.ids hgroup hother heq

/-- A group of the forest is written only by a definition that finds it. -/
theorem Sound.writtenGroup_ne (h : realm.Sound) (hgroup : group ∈ realm.groups.preorder)
    (hfound : realm.getGroupByName name ≠ some group) :
    group.id ≠ (realm.writtenGroup name).id := by
  unfold writtenGroup
  intro heq
  cases hother : realm.getGroupByName name with
  | none =>
      rw [hother] at heq
      exact Nat.ne_of_lt (h.fresh group hgroup) heq
  | some other =>
      rw [hother] at heq
      apply hfound
      rw [hother, h.id_injective hgroup (found hother).1 heq]

@[simp] theorem syncGroups_roles :
    (Runs.run syncGroup realm groupDefinitions).roles = realm.roles :=
  Runs.invariant_run (I := fun s => s.roles = realm.roles)
    (fun s g h => (syncGroup_roles s g).trans h) rfl groupDefinitions

theorem syncGroups_hasRole (name : String) :
    (Runs.run syncGroup realm groupDefinitions).hasRole name = realm.hasRole name := by
  unfold hasRole
  rw [syncGroups_roles]

theorem getGroupByName_syncGroups_of_found (h : realm.getGroupByName name = some group) :
    (Runs.run syncGroup realm groupDefinitions).getGroupByName name = some group := by
  refine Runs.invariant_run (I := fun s : Realm => s.getGroupByName name = some group)
    ?_ ?_ groupDefinitions
  · intro s g hs
    rw [getGroupByName_syncGroup]
    split
    · rename_i heq
      unfold writtenGroup
      rw [← heq, hs]
      rfl
    · exact hs
  · exact h

theorem getGroupByName_syncGroups_of_other (h : ∀ g ∈ groupDefinitions, g.name ≠ name) :
    (Runs.run syncGroup realm groupDefinitions).getGroupByName name = realm.getGroupByName name := by
  induction groupDefinitions generalizing realm with
  | nil => rfl
  | cons g rest ih =>
      rw [Runs.run, ih fun e he => h e (List.mem_cons_of_mem g he),
        getGroupByName_syncGroup, if_neg (h g List.mem_cons_self).symm]

/-- Nothing is created under a name that is found. -/
theorem topLevelGroup_syncGroups_of_found (h : realm.getGroupByName name = some group) :
    (Runs.run syncGroup realm groupDefinitions).topLevelGroup name = realm.topLevelGroup name := by
  induction groupDefinitions generalizing realm with
  | nil => rfl
  | cons g rest ih =>
      have hstep : (realm.syncGroup g).getGroupByName name = some group :=
        @getGroupByName_syncGroups_of_found realm [g] group name h
      have hnot : ¬ (name = g.name ∧ realm.getGroupByName g.name = none) := by
        rintro ⟨rfl, hnone⟩
        rw [h] at hnone
        cases hnone
      rw [Runs.run, ih hstep, topLevelGroup_syncGroup, if_neg hnot]

/-- The forest grows at the top, by groups of definitions that found none. -/
theorem syncGroups_groups :
    ∃ created, (Runs.run syncGroup realm groupDefinitions).groups = realm.groups.addRoots created ∧
      ∀ group ∈ created, realm.getGroupByName group.name = none ∧
        ∃ g ∈ groupDefinitions, g.name = group.name ∧
          (Runs.run syncGroup realm groupDefinitions).topLevelGroup g.name = some group := by
  induction groupDefinitions generalizing realm with
  | nil => exact ⟨[], rfl, fun group h => nomatch h⟩
  | cons g rest ih =>
      obtain ⟨created, hgroups, hcreated⟩ := @ih (realm.syncGroup g)
      have hrest : ∀ group ∈ created, realm.getGroupByName group.name = none ∧
          ∃ e ∈ g :: rest, e.name = group.name ∧
            (Runs.run syncGroup realm (g :: rest)).topLevelGroup e.name = some group := by
        intro group hgroup
        obtain ⟨hnone, e, he, hname, htop⟩ := hcreated group hgroup
        rw [getGroupByName_syncGroup] at hnone
        split at hnone
        · cases hnone
        · exact ⟨hnone, e, List.mem_cons_of_mem g he, hname, htop⟩
      rw [Runs.run, hgroups, syncGroup_groups]
      cases h : realm.getGroupByName g.name with
      | some group => exact ⟨created, rfl, hrest⟩
      | none =>
          refine ⟨⟨realm.nextId, g.name⟩ :: created, rfl, fun group hgroup => ?_⟩
          rcases List.mem_cons.mp hgroup with rfl | hgroup
          · have hwritten : realm.writtenGroup g.name = ⟨realm.nextId, g.name⟩ := by
              unfold writtenGroup
              rw [h]
              rfl
            have hfound : (realm.syncGroup g).getGroupByName g.name =
                some ⟨realm.nextId, g.name⟩ := by
              rw [getGroupByName_syncGroup, if_pos rfl, hwritten]
            refine ⟨h, g, List.mem_cons_self, rfl, ?_⟩
            rw [topLevelGroup_syncGroups_of_found hfound, topLevelGroup_syncGroup,
              if_pos ⟨rfl, h⟩, hwritten]
          · exact hrest group hgroup

/-- **Frame.** A group that no definition finds keeps its attributes and its role mappings. -/
theorem syncGroups_frame (h : realm.Sound) (hgroup : group ∈ realm.groups.preorder)
    (hfound : ∀ g ∈ groupDefinitions, realm.getGroupByName g.name ≠ some group) :
    (Runs.run syncGroup realm groupDefinitions).attributes group.id = realm.attributes group.id ∧
      (Runs.run syncGroup realm groupDefinitions).roleMappings group.id =
        realm.roleMappings group.id := by
  induction groupDefinitions generalizing realm with
  | nil => exact ⟨rfl, rfl⟩
  | cons g rest ih =>
      have hid := h.writtenGroup_ne hgroup (hfound g List.mem_cons_self)
      have hgrown : group ∈ (realm.syncGroup g).groups.preorder := by
        rw [syncGroup_groups]
        cases realm.getGroupByName g.name with
        | none =>
            rw [Option.elim_none, Forest.preorder_addRoot]
            exact List.mem_append_left _ hgroup
        | some other => exact hgroup
      have hother : ∀ e ∈ rest, (realm.syncGroup g).getGroupByName e.name ≠ some group := by
        intro e he heq
        rw [getGroupByName_syncGroup] at heq
        split at heq
        · exact hid (congrArg OidcGroup.id (Option.some.inj heq).symm)
        · exact hfound e (List.mem_cons_of_mem g he) heq
      obtain ⟨hattributes, hmappings⟩ := ih (syncGroup_sound h g) hgrown hother
      obtain ⟨hattributes', hmappings'⟩ := syncGroup_frame hid
      exact ⟨hattributes.trans hattributes', hmappings.trans hmappings'⟩

/-- A group found by a definition is found by no other definition. -/
theorem not_found_by_other {s : Realm} {g : GroupDefinition} (hname : group.name = g.name)
    {others : List GroupDefinition} (h : ∀ e ∈ others, e.name ≠ g.name) :
    ∀ e ∈ others, s.getGroupByName e.name ≠ some group := by
  intro e he heq
  exact h e he ((found heq).2.symm.trans hname)

/-- **Run.** The group that a definition wrote has, in the end, the client roles and the attributes
of the definition; it is at the top where it was created. -/
theorem syncGroups_turn (h : realm.Sound) (hnames : (groupDefinitions.map (·.name)).Nodup)
    {g : GroupDefinition} (hg : g ∈ groupDefinitions) :
    ∃ group, (Runs.run syncGroup realm groupDefinitions).getGroupByName g.name = some group ∧
      (realm.getGroupByName g.name = none →
        (Runs.run syncGroup realm groupDefinitions).topLevelGroup g.name = some group) ∧
      (∀ role, ⟨.client, role⟩ ∈
          (Runs.run syncGroup realm groupDefinitions).roleMappings group.id ↔
        role ∈ g.desiredRoleNames ∧ realm.hasRole role = true) ∧
      ∀ attributes, g.attributes = some attributes →
        (Runs.run syncGroup realm groupDefinitions).attributes group.id = attributes := by
  obtain ⟨earlier, later, rfl⟩ := List.append_of_mem hg
  obtain ⟨hearlier, hlater⟩ := other_names hnames
  rw [Runs.run_append]
  have hsound := syncGroups_sound h earlier
  have hsame : (Runs.run syncGroup realm earlier).getGroupByName g.name =
      realm.getGroupByName g.name := getGroupByName_syncGroups_of_other hearlier
  have hroles (role : String) := @syncGroups_hasRole realm earlier role
  generalize Runs.run syncGroup realm earlier = before at hsound hsame hroles
  rw [Runs.run]
  have hfound : (before.syncGroup g).getGroupByName g.name = some (before.writtenGroup g.name) := by
    rw [getGroupByName_syncGroup, if_pos rfl]
  -- the later definitions find other groups
  obtain ⟨hattributes, hmappings⟩ := syncGroups_frame (syncGroup_sound hsound g) (found hfound).1
    (not_found_by_other (before.writtenGroup_name g.name) hlater)
  refine ⟨before.writtenGroup g.name, getGroupByName_syncGroups_of_found hfound, ?_, ?_, ?_⟩
  · intro hnone
    rw [topLevelGroup_syncGroups_of_found hfound, topLevelGroup_syncGroup,
      if_pos ⟨rfl, hsame.trans hnone⟩]
  · intro role
    rw [hmappings, mem_roleMappings_syncGroup, hroles]
    constructor
    · rintro ⟨hdesired, ⟨_, hcurrent⟩ | hhas⟩
      · have hhas := hsound.mappings _ role hcurrent
        rw [hroles] at hhas
        exact ⟨hdesired, hhas⟩
      · exact ⟨hdesired, hhas⟩
    · rintro ⟨hdesired, hhas⟩
      exact ⟨hdesired, .inr hhas⟩
  · intro attributes hdefined
    rw [hattributes]
    exact attributes_syncGroup hdefined

/-- A found group that is as defined keeps its attributes and its role mappings. -/
theorem syncGroups_kept (h : realm.Sound) (hnames : (groupDefinitions.map (·.name)).Nodup)
    {g : GroupDefinition} (hg : g ∈ groupDefinitions)
    (hfound : realm.getGroupByName g.name = some group)
    (hattributes : ∀ attributes, g.attributes = some attributes →
      realm.attributes group.id = attributes)
    (hroles : ∀ role, ⟨.client, role⟩ ∈ realm.roleMappings group.id ↔
      role ∈ g.desiredRoleNames ∧ realm.hasRole role = true) :
    (Runs.run syncGroup realm groupDefinitions).attributes group.id = realm.attributes group.id ∧
      (Runs.run syncGroup realm groupDefinitions).roleMappings group.id =
        realm.roleMappings group.id := by
  obtain ⟨earlier, later, rfl⟩ := List.append_of_mem hg
  obtain ⟨hearlier, hlater⟩ := other_names hnames
  rw [Runs.run_append]
  obtain ⟨hgroup, hname⟩ := found hfound
  obtain ⟨hattributesBefore, hmappingsBefore⟩ := syncGroups_frame h hgroup
    (not_found_by_other hname hearlier)
  have hsound := syncGroups_sound h earlier
  have hfoundBefore : (Runs.run syncGroup realm earlier).getGroupByName g.name = some group :=
    getGroupByName_syncGroups_of_found hfound
  have hrolesBefore (role : String) := @syncGroups_hasRole realm earlier role
  generalize Runs.run syncGroup realm earlier = before at *
  have hself : before.syncGroup g = before := by
    apply syncGroup_eq_self hfoundBefore
    · rw [hattributesBefore]
      exact hattributes
    · intro role
      rw [hmappingsBefore, hrolesBefore]
      exact hroles role
  rw [Runs.run, hself]
  obtain ⟨hattributesAfter, hmappingsAfter⟩ := syncGroups_frame hsound (found hfoundBefore).1
    (not_found_by_other hname hlater)
  exact ⟨hattributesAfter.trans hattributesBefore, hmappingsAfter.trans hmappingsBefore⟩

end GroupRun

/-! ### What a synchronization is for -/

/-- A group has exactly the client roles of its definition, of those that are present. -/
def AsDefined (realm : Realm) (present : String → Prop) (g : GroupDefinition)
    (group : OidcGroup) : Prop :=
  ∀ role, ⟨.client, role⟩ ∈ realm.roleMappings group.id ↔ role ∈ g.desiredRoleNames ∧ present role

/-- From `before` the definitions were brought about in `after`, and are settled there. -/
structure Reconciled (roleDefinitions : List RoleDefinition)
    (groupDefinitions : List GroupDefinition) (before after : Realm) : Prop where
  roles : ∀ d ∈ roleDefinitions, after.hasRole d.name = true
  composites : ∀ d ∈ roleDefinitions, ∀ role, role ∈ after.getCompositeRoles d.name ↔
    role.container = .client ∧ after.hasRole role.name = true ∧ role.name ∈ d.desiredRoleNames
  groups : ∀ g ∈ groupDefinitions, ∃ group, after.topLevelGroup g.name = some group ∧
    after.AsDefined (fun role => after.hasRole role = true) g group
  others : ∀ group ∈ before.groups.preorder,
    (∀ g ∈ groupDefinitions, after.topLevelGroup g.name ≠ some group) →
      after.attributes group.id = before.attributes group.id ∧
        after.roleMappings group.id = before.roleMappings group.id
  created : ∃ created, after.groups = before.groups.addRoots created ∧
    ∀ group ∈ created, ∃ g ∈ groupDefinitions, after.topLevelGroup g.name = some group
  settled : after.setupAllRoles roleDefinitions groupDefinitions = after

/-- The client roles that are there once every role definition had its turn. -/
def Present (realm : Realm) (roleDefinitions : List RoleDefinition) (role : String) : Prop :=
  realm.hasRole role = true ∨ ∃ d ∈ roleDefinitions, d.name = role

/-- What the definitions and the realm must be like. -/
structure Reconcilable (roleDefinitions : List RoleDefinition)
    (groupDefinitions : List GroupDefinition) (realm : Realm) : Prop where
  /-- A role that is defined later is named only where it is there already. -/
  ordered : roleDefinitions.Pairwise fun d later =>
    later.name ∈ d.desiredRoleNames → realm.hasRole later.name = true
  /-- Under a desired name there is no role of the realm or of another client. -/
  unhidden : ∀ d ∈ roleDefinitions, ∀ role ∈ realm.getCompositeRoles d.name,
    role.name ∈ d.desiredRoleNames → role.container = .client
  /-- The group found under a defined name is the top-level one, or both are as defined. -/
  atTop : ∀ g ∈ groupDefinitions, ∀ group, realm.getGroupByName g.name = some group →
    realm.topLevelGroup g.name = some group ∨
      (realm.AsDefined (realm.Present roleDefinitions) g group ∧
        (∀ attributes, g.attributes = some attributes →
          realm.attributes group.id = attributes) ∧
        ∃ top, realm.topLevelGroup g.name = some top ∧
          realm.AsDefined (realm.Present roleDefinitions) g top)

/-! ### The two parts -/

/-- The composites come out as defined exactly where the definitions are in order and no foreign
role has a desired name. -/
theorem composites_iff {realm : Realm} (h : realm.Sound) {roleDefinitions : List RoleDefinition}
    (hnames : (roleDefinitions.map (·.name)).Nodup) :
    (∀ d ∈ roleDefinitions, ∀ role,
      role ∈ (Runs.run createCompositeRole realm roleDefinitions).getCompositeRoles d.name ↔
        role.container = .client ∧ realm.Present roleDefinitions role.name ∧
          role.name ∈ d.desiredRoleNames) ↔
      (roleDefinitions.Pairwise fun d later =>
        later.name ∈ d.desiredRoleNames → realm.hasRole later.name = true) ∧
      ∀ d ∈ roleDefinitions, ∀ role ∈ realm.getCompositeRoles d.name,
        role.name ∈ d.desiredRoleNames → role.container = .client := by
  constructor
  · intro hall
    refine ⟨List.pairwise_iff_forall_sublist.mpr ?_, ?_⟩
    · intro d e hsublist hdesired
      obtain ⟨front, back, rfl, hd, he⟩ := List.cons_sublist_iff.mp hsublist
      obtain ⟨earlier, between, rfl⟩ := List.append_of_mem hd
      have he : e ∈ between ++ back :=
        List.mem_append_right _ (List.singleton_sublist.mp he)
      rw [List.append_assoc, List.cons_append] at hnames hall
      have hmem : e ∈ earlier ++ d :: (between ++ back) :=
        List.mem_append_right _ (List.mem_cons_of_mem d he)
      have hd : d ∈ earlier ++ d :: (between ++ back) :=
        List.mem_append_right _ List.mem_cons_self
      have hin := (hall d hd ⟨.client, e.name⟩).mpr ⟨rfl, .inr ⟨e, hmem, rfl⟩, hdesired⟩
      rw [mem_composites_createCompositeRoles hnames] at hin
      -- the later definition is none of those that had their turn
      obtain ⟨hearlier, hlater⟩ := other_names hnames
      obtain ⟨_, hcurrent | ⟨_, (hhas | ⟨x, hx, hname⟩) | hself, _⟩⟩ := hin
      · exact h.composites d.name e.name hcurrent
      · exact hhas
      · obtain ⟨front', back', hsplit⟩ := List.append_of_mem he
        have hdistinct : (((earlier ++ d :: front') ++ e :: back').map
            RoleDefinition.name).Nodup := by
          rw [List.append_assoc, List.cons_append, ← hsplit]
          exact hnames
        have hx' : x ∈ earlier ++ d :: front' := List.mem_append_left _ hx
        exact absurd hname ((other_names hdistinct).1 x hx')
      · exact absurd hself (hlater e he)
    · intro d hd role hrole hdesired
      obtain ⟨earlier, later, rfl⟩ := List.append_of_mem hd
      have hin := (mem_composites_createCompositeRoles hnames).mpr ⟨hdesired, .inl hrole⟩
      exact ((hall d hd role).mp hin).1
  · rintro ⟨hordered, hunhidden⟩ d hd role
    have hclient := hunhidden d hd
    obtain ⟨earlier, later, rfl⟩ := List.append_of_mem hd
    rw [mem_composites_createCompositeRoles hnames]
    have hlater := (List.pairwise_cons.mp (List.pairwise_append.mp hordered).2.1).1
    constructor
    · rintro ⟨hdesired, hcurrent | ⟨hrole, hpresent, _⟩⟩
      · obtain ⟨container, name⟩ := role
        obtain rfl : container = .client := hclient _ hcurrent hdesired
        exact ⟨rfl, .inl (h.composites d.name name hcurrent), hdesired⟩
      · refine ⟨hrole, ?_, hdesired⟩
        rcases hpresent with (hhas | ⟨e, he, hname⟩) | hself
        · exact .inl hhas
        · exact .inr ⟨e, List.mem_append_left _ he, hname⟩
        · exact .inr ⟨d, hd, hself.symm⟩
    · rintro ⟨hrole, hpresent, hdesired⟩
      refine ⟨hdesired, ?_⟩
      by_cases hcurrent : role ∈ realm.getCompositeRoles d.name
      · exact .inl hcurrent
      · refine .inr ⟨hrole, ?_, fun r hr hname => ?_⟩
        · rcases hpresent with hhas | ⟨e, he, hname⟩
          · exact .inl (.inl hhas)
          · rcases List.mem_append.mp he with he | he
            · exact .inl (.inr ⟨e, he, hname⟩)
            · rcases List.mem_cons.mp he with rfl | he
              · exact .inr hname.symm
              · rw [← hname] at hdesired ⊢
                exact .inl (.inl (hlater e he hdesired))
        · have hr' : r = role := by
            cases r
            cases role
            exact congrArg₂ OidcRole.mk ((hclient _ hr (hname ▸ hdesired)).trans hrole.symm) hname
          exact hcurrent (hr' ▸ hr)

/-- Beside the group that is found, no definition finds another one of its name. -/
theorem not_found_beside {realm : Realm} {name : String} {group top : OidcGroup}
    (hfound : realm.getGroupByName name = some group) (hname : top.name = name)
    (hne : top ≠ group) (other : String) : realm.getGroupByName other ≠ some top := by
  intro hother
  rw [← (found hother).2, hname, hfound] at hother
  exact hne (Option.some.inj hother).symm

/-- The top-level group of a name under which another group is found keeps its role mappings. -/
theorem topLevelGroup_kept {realm : Realm} (h : realm.Sound) {name : String}
    {group top : OidcGroup} (hfound : realm.getGroupByName name = some group)
    (htop : realm.topLevelGroup name = some top) (hne : top ≠ group)
    (groupDefinitions : List GroupDefinition) :
    (Runs.run syncGroup realm groupDefinitions).roleMappings top.id =
      realm.roleMappings top.id := by
  obtain ⟨hroot, hname⟩ := found_topLevel htop
  exact (syncGroups_frame h (Forest.mem_preorder_of_root hroot)
    fun g _ => not_found_beside hfound hname hne g.name).2

/-- The groups come out as defined, and the others as they were, exactly where the groups that
are found are at the top, or as defined. -/
theorem groups_iff {realm : Realm} (h : realm.Sound) {groupDefinitions : List GroupDefinition}
    (hnames : (groupDefinitions.map (·.name)).Nodup) {present : String → Prop}
    (hpresent : ∀ role, realm.hasRole role = true ↔ present role) :
    ((∀ g ∈ groupDefinitions, ∃ group,
        (Runs.run syncGroup realm groupDefinitions).topLevelGroup g.name = some group ∧
          (Runs.run syncGroup realm groupDefinitions).AsDefined present g group) ∧
      ∀ group ∈ realm.groups.preorder,
        (∀ g ∈ groupDefinitions,
          (Runs.run syncGroup realm groupDefinitions).topLevelGroup g.name ≠ some group) →
        (Runs.run syncGroup realm groupDefinitions).attributes group.id =
            realm.attributes group.id ∧
          (Runs.run syncGroup realm groupDefinitions).roleMappings group.id =
            realm.roleMappings group.id) ↔
      ∀ g ∈ groupDefinitions, ∀ group, realm.getGroupByName g.name = some group →
        realm.topLevelGroup g.name = some group ∨
          (realm.AsDefined present g group ∧
            (∀ attributes, g.attributes = some attributes →
              realm.attributes group.id = attributes) ∧
            ∃ top, realm.topLevelGroup g.name = some top ∧ realm.AsDefined present g top) := by
  -- a found group is the one that was written
  have hwritten : ∀ g ∈ groupDefinitions, ∀ group, realm.getGroupByName g.name = some group →
      (Runs.run syncGroup realm groupDefinitions).AsDefined present g group ∧
        ∀ attributes, g.attributes = some attributes →
          (Runs.run syncGroup realm groupDefinitions).attributes group.id = attributes := by
    intro g hg group hfound
    obtain ⟨written, hfoundAfter, _, hroles, hattributes⟩ := syncGroups_turn h hnames hg
    rw [getGroupByName_syncGroups_of_found hfound] at hfoundAfter
    obtain rfl := Option.some.inj hfoundAfter
    exact ⟨fun role => (hroles role).trans (and_congr_right fun _ => hpresent role), hattributes⟩
  constructor
  · rintro ⟨hgroups, hothers⟩ g hg group hfound
    obtain ⟨top, htop, hdefined⟩ := hgroups g hg
    obtain ⟨hgroup, hname⟩ := found hfound
    by_cases heq : top = group
    · rw [topLevelGroup_syncGroups_of_found hfound, heq] at htop
      exact .inl htop
    · -- the found group is none of the defined ones, and the top-level one is not written
      have hnot : ∀ e ∈ groupDefinitions,
          (Runs.run syncGroup realm groupDefinitions).topLevelGroup e.name ≠ some group := by
        intro e _ he
        rw [← (found_topLevel he).2, hname, htop] at he
        exact heq (Option.some.inj he)
      obtain ⟨hattributes, hmappings⟩ := hothers group hgroup hnot
      obtain ⟨hroles, hattributesAfter⟩ := hwritten g hg group hfound
      rw [topLevelGroup_syncGroups_of_found hfound] at htop
      refine .inr ⟨fun role => ?_, fun attributes hattributesOf => ?_, top, htop, fun role => ?_⟩
      · rw [← hmappings]
        exact hroles role
      · rw [← hattributes]
        exact hattributesAfter attributes hattributesOf
      · rw [← topLevelGroup_kept h hfound htop heq groupDefinitions]
        exact hdefined role
  · intro hcondition
    refine ⟨fun g hg => ?_, fun group hgroup hnot => ?_⟩
    · cases hfound : realm.getGroupByName g.name with
      | none =>
          obtain ⟨group, _, htop, hroles, _⟩ := syncGroups_turn h hnames hg
          exact ⟨group, htop hfound,
            fun role => (hroles role).trans (and_congr_right fun _ => hpresent role)⟩
      | some group =>
          rw [topLevelGroup_syncGroups_of_found hfound]
          rcases hcondition g hg group hfound with htop | ⟨_, _, top, htop, hdefined⟩
          · exact ⟨group, htop, (hwritten g hg group hfound).1⟩
          · refine ⟨top, htop, ?_⟩
            by_cases heq : top = group
            · rw [heq]
              exact (hwritten g hg group hfound).1
            · intro role
              rw [topLevelGroup_kept h hfound htop heq groupDefinitions]
              exact hdefined role
    · by_cases hwrites : ∃ g ∈ groupDefinitions, realm.getGroupByName g.name = some group
      · obtain ⟨g, hg, hfound⟩ := hwrites
        rcases hcondition g hg group hfound with htop | ⟨hdefined, hattributes, _⟩
        · exact absurd ((topLevelGroup_syncGroups_of_found hfound).trans htop) (hnot g hg)
        · exact syncGroups_kept h hnames hg hfound hattributes fun role =>
            (hdefined role).trans (and_congr_right fun _ => (hpresent role).symm)
      · exact syncGroups_frame h hgroup fun g hg hfound => hwrites ⟨g, hg, hfound⟩

/-! ### The whole service -/

section Setup

variable {realm : Realm} {roleDefinitions : List RoleDefinition}
  {groupDefinitions : List GroupDefinition}

theorem hasRole_setupAllRoles (role : String) :
    (realm.setupAllRoles roleDefinitions groupDefinitions).hasRole role = true ↔
      realm.Present roleDefinitions role := by
  unfold setupAllRoles
  rw [syncGroups_hasRole]
  exact hasRole_createCompositeRoles role

theorem getCompositeRoles_setupAllRoles (parent : String) :
    (realm.setupAllRoles roleDefinitions groupDefinitions).getCompositeRoles parent =
      (Runs.run createCompositeRole realm roleDefinitions).getCompositeRoles parent := by
  unfold setupAllRoles getCompositeRoles
  rw [syncGroups_roles]

/-- **Main result.** A second synchronization changes nothing once the composites are as defined. -/
theorem setupAllRoles_settled (h : realm.Sound)
    (hgroupNames : (groupDefinitions.map (·.name)).Nodup)
    (hcomposites : ∀ d ∈ roleDefinitions, ∀ role,
      role ∈ (realm.setupAllRoles roleDefinitions groupDefinitions).getCompositeRoles d.name ↔
        role.container = .client ∧
          (realm.setupAllRoles roleDefinitions groupDefinitions).hasRole role.name = true ∧
          role.name ∈ d.desiredRoleNames) :
    (realm.setupAllRoles roleDefinitions groupDefinitions).setupAllRoles roleDefinitions
      groupDefinitions = realm.setupAllRoles roleDefinitions groupDefinitions := by
  have hroles : Runs.run createCompositeRole
      (realm.setupAllRoles roleDefinitions groupDefinitions) roleDefinitions =
        realm.setupAllRoles roleDefinitions groupDefinitions := by
    apply Runs.run_eq_self
    intro d hd
    apply createCompositeRole_eq_self
    · exact (hasRole_setupAllRoles d.name).mpr (.inr ⟨d, hd, rfl⟩)
    · exact fun role hrole => ((hcomposites d hd role).mp hrole).2.2
    · exact fun name hdesired hhas => (hcomposites d hd ⟨.client, name⟩).mpr ⟨rfl, hhas, hdesired⟩
  have hgroups : Runs.run syncGroup (realm.setupAllRoles roleDefinitions groupDefinitions)
      groupDefinitions = realm.setupAllRoles roleDefinitions groupDefinitions := by
    apply Runs.run_eq_self
    intro g hg
    obtain ⟨group, hfound, _, hmappings, hattributes⟩ :=
      syncGroups_turn (createCompositeRoles_sound h roleDefinitions) hgroupNames hg
    apply syncGroup_eq_self hfound hattributes
    intro role
    rw [syncGroups_hasRole]
    exact hmappings role
  have hunfold : (realm.setupAllRoles roleDefinitions groupDefinitions).setupAllRoles
      roleDefinitions groupDefinitions = Runs.run syncGroup (Runs.run createCompositeRole
        (realm.setupAllRoles roleDefinitions groupDefinitions) roleDefinitions)
        groupDefinitions := rfl
  rw [hunfold, hroles, hgroups]

/-- The first loop leaves the groups to the second one. -/
theorem setupAllRoles_groups_iff (h : realm.Sound)
    (hgroupNames : (groupDefinitions.map (·.name)).Nodup) :
    ((∀ g ∈ groupDefinitions, ∃ group,
        (realm.setupAllRoles roleDefinitions groupDefinitions).topLevelGroup g.name = some group ∧
          (realm.setupAllRoles roleDefinitions groupDefinitions).AsDefined
            (realm.Present roleDefinitions) g group) ∧
      ∀ group ∈ realm.groups.preorder,
        (∀ g ∈ groupDefinitions,
          (realm.setupAllRoles roleDefinitions groupDefinitions).topLevelGroup g.name ≠
            some group) →
        (realm.setupAllRoles roleDefinitions groupDefinitions).attributes group.id =
            realm.attributes group.id ∧
          (realm.setupAllRoles roleDefinitions groupDefinitions).roleMappings group.id =
            realm.roleMappings group.id) ↔
      ∀ g ∈ groupDefinitions, ∀ group, realm.getGroupByName g.name = some group →
        realm.topLevelGroup g.name = some group ∨
          (realm.AsDefined (realm.Present roleDefinitions) g group ∧
            (∀ attributes, g.attributes = some attributes →
              realm.attributes group.id = attributes) ∧
            ∃ top, realm.topLevelGroup g.name = some top ∧
              realm.AsDefined (realm.Present roleDefinitions) g top) := by
  have hiff := groups_iff (createCompositeRoles_sound h roleDefinitions) hgroupNames
    fun role => hasRole_createCompositeRoles role
  obtain ⟨roles, hframe⟩ := @createCompositeRoles_groups realm roleDefinitions
  unfold setupAllRoles
  rw [hframe] at hiff ⊢
  exact hiff

/-- The forest grows at the top, by groups of definitions. -/
theorem setupAllRoles_created :
    ∃ created, (realm.setupAllRoles roleDefinitions groupDefinitions).groups =
        realm.groups.addRoots created ∧
      ∀ group ∈ created, ∃ g ∈ groupDefinitions,
        (realm.setupAllRoles roleDefinitions groupDefinitions).topLevelGroup g.name =
          some group := by
  obtain ⟨created, hforest, hcreated⟩ := @syncGroups_groups
    (Runs.run createCompositeRole realm roleDefinitions) groupDefinitions
  obtain ⟨roles, hframe⟩ := @createCompositeRoles_groups realm roleDefinitions
  refine ⟨created, ?_, fun group hgroup => ?_⟩
  · unfold setupAllRoles
    rw [hforest, hframe]
  · obtain ⟨_, g, hg, _, htop⟩ := hcreated group hgroup
    exact ⟨g, hg, htop⟩

/-- **Main result.** The synchronization reconciles a sound realm with definitions of distinct
names exactly where the definitions and the realm are reconcilable. -/
theorem reconciled_iff (h : realm.Sound) (hroleNames : (roleDefinitions.map (·.name)).Nodup)
    (hgroupNames : (groupDefinitions.map (·.name)).Nodup) :
    Reconciled roleDefinitions groupDefinitions realm
        (realm.setupAllRoles roleDefinitions groupDefinitions) ↔
      Reconcilable roleDefinitions groupDefinitions realm := by
  have hcompositesIff := composites_iff h hroleNames
  have hgroupsIff := @setupAllRoles_groups_iff realm roleDefinitions groupDefinitions h hgroupNames
  have hpresent (role : String) :
      (realm.setupAllRoles roleDefinitions groupDefinitions).hasRole role = true ↔
        realm.Present roleDefinitions role := hasRole_setupAllRoles role
  constructor
  · intro hreconciled
    have hcomposites : ∀ d ∈ roleDefinitions, ∀ role,
        role ∈ (Runs.run createCompositeRole realm roleDefinitions).getCompositeRoles d.name ↔
          role.container = .client ∧ realm.Present roleDefinitions role.name ∧
            role.name ∈ d.desiredRoleNames := by
      intro d hd role
      rw [← hpresent, ← getCompositeRoles_setupAllRoles]
      exact hreconciled.composites d hd role
    obtain ⟨hordered, hunhidden⟩ := hcompositesIff.mp hcomposites
    refine ⟨hordered, hunhidden, hgroupsIff.mp ⟨fun g hg => ?_, hreconciled.others⟩⟩
    obtain ⟨group, htop, hdefined⟩ := hreconciled.groups g hg
    exact ⟨group, htop, fun role =>
      (hdefined role).trans (and_congr_right fun _ => hpresent role)⟩
  · intro hcondition
    have hcomposites : ∀ d ∈ roleDefinitions, ∀ role,
        role ∈ (realm.setupAllRoles roleDefinitions groupDefinitions).getCompositeRoles d.name ↔
          role.container = .client ∧
            (realm.setupAllRoles roleDefinitions groupDefinitions).hasRole role.name = true ∧
            role.name ∈ d.desiredRoleNames := by
      intro d hd role
      rw [hpresent, getCompositeRoles_setupAllRoles]
      exact hcompositesIff.mpr ⟨hcondition.ordered, hcondition.unhidden⟩ d hd role
    obtain ⟨hgroups, hothers⟩ := hgroupsIff.mpr hcondition.atTop
    refine ⟨fun d hd => ?_, hcomposites, fun g hg => ?_, hothers, setupAllRoles_created,
      setupAllRoles_settled h hgroupNames hcomposites⟩
    · exact (hpresent d.name).mpr (.inr ⟨d, hd, rfl⟩)
    · obtain ⟨group, htop, hdefined⟩ := hgroups g hg
      exact ⟨group, htop, fun role =>
        (hdefined role).trans (and_congr_right fun _ => (hpresent role).symm)⟩

end Setup

/-- A realm with one role, and a group with that role below another group. -/
def staffed : Realm where
  roles := [("view-project", ⟨"Permission to view project details", []⟩)]
  groups := .cons ⟨1, "Staff"⟩ (.cons ⟨2, "Interns"⟩ .nil .nil) .nil
  attributes := fun _ => []
  roleMappings := fun id => if id = 2 then [⟨.client, "view-project"⟩] else []
  nextId := 3

theorem staffed_sound : staffed.Sound := by
  refine ⟨fun parent name hin => ?_, fun id name hin => ?_, by decide, ?_⟩
  · have hnone : staffed.getCompositeRoles parent = [] := by
      unfold getCompositeRoles staffed
      rw [ObjectMap.get?_cons]
      split <;> rfl
    rw [hnone] at hin
    cases hin
  · unfold staffed at hin
    dsimp only at hin
    split at hin
    · have hrole : (⟨.client, name⟩ : OidcRole) = ⟨.client, "view-project"⟩ :=
        List.mem_singleton.mp hin
      obtain rfl : name = "view-project" := congrArg OidcRole.name hrole
      rfl
    · cases hin
  · intro group hgroup
    rcases List.mem_pair.mp hgroup with rfl | rfl
    · decide
    · decide

def contributor : RoleDefinition := ⟨"contributor", "", some ["view-project"]⟩

def reviewer : RoleDefinition := ⟨"reviewer", "", some ["contributor"]⟩

def contributors : GroupDefinition := ⟨"Contributors", ["contributor"], none⟩

/-- A role is defined before the one that names it. -/
theorem contributor_first :
    Reconciled [contributor, reviewer] [contributors] staffed
      (staffed.setupAllRoles [contributor, reviewer] [contributors]) :=
  (reconciled_iff staffed_sound (by decide) (by decide)).mpr
    { ordered := by decide
      unhidden := by decide
      atTop := by
        intro g hg group hfound
        rw [List.mem_singleton.mp hg] at hfound
        have hnone : staffed.getGroupByName contributors.name = none := by decide
        rw [hnone] at hfound
        cases hfound }

/-- A role that is defined after the one that names it is skipped, and a second run finds it. -/
theorem reviewer_first :
    staffed.Sound ∧
      ¬ Reconciled [reviewer, contributor] [contributors] staffed
        (staffed.setupAllRoles [reviewer, contributor] [contributors]) := by
  refine ⟨staffed_sound, fun h => ?_⟩
  have hin := (h.composites reviewer List.mem_cons_self ⟨.client, "contributor"⟩).mpr
    ⟨rfl, by decide, by decide⟩
  exact absurd hin (by decide)

end Realm

end UploadService
