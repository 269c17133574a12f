import UploadService.Config.Changes
import UploadService.Config.Positions

/-!
# What a version says

The version of a revision should say how it differs from the one it replaces: the first number
for a group or key that is gone or a new group, the second for a new key, another value or another
flag, the third for nothing of this. The code compares stored texts: a copy of a secret has a new
reference and so another text, and a flag is no text.

Main results:

- `versionTells_iff`: the version that is computed, against what changed;
- `bump_reflects_iff`: the same of every draft that a run applies, and of what reading the two
  revisions gives;
- `global_flag_bumps_patch`: a group that became global.
-/

namespace UploadService

open Prog ConfigEvent Runs

namespace ConfigService

/-! ### The three bumps -/

/-- A key was added, a value or a flag changed. -/
def MinorChange (v : Vault) (prev draft : List ConfigGroup) : Prop :=
  KeyAdded prev draft ∨ ValueChanged v prev draft ∨ FlagChanged prev draft

instance (v : Vault) (prev draft : List ConfigGroup) : Decidable (MinorChange v prev draft) := by
  unfold MinorChange
  infer_instance

/-- The text is that of the version which says what changed, and a third number says that reading
gives the same. -/
structure Tells (v : Vault) (version : Version) (prev draft : List ConfigGroup) (same : Prop)
    (text : String) : Prop where
  major : text = version.nextMajor.toText ↔ MajorChange prev draft
  minor : text = version.nextMinor.toText ↔ ¬ MajorChange prev draft ∧ MinorChange v prev draft
  patch : text = version.nextPatch.toText ↔ ¬ MajorChange prev draft ∧ ¬ MinorChange v prev draft
  payload : text = version.nextPatch.toText → same

/-- Where the stored texts tell what changed: there is a revision to compare with that has groups,
or the first version is the next one; with no group or key gone or new, a text changed exactly
where a value or a flag did; and where none did, no group takes another value from the global
groups. -/
structure TextsTell (v : Vault) (version : Version) (prev draft : List ConfigGroup) : Prop where
  empty : prev = [] → version.major = 0 ∧ draft ≠ []
  texts : prev ≠ [] → ¬ MajorChange prev draft → ¬ KeyAdded prev draft →
    (TextChanged prev draft ↔ ValueChanged v prev draft ∨ FlagChanged prev draft)
  globals : prev ≠ [] → ¬ MajorChange prev draft → ¬ KeyAdded prev draft → ¬ TextChanged prev draft →
    SameGlobals v prev draft

variable {v : Vault} {version : Version} {prev draft : List ConfigGroup}

theorem nextMajor_ne_nextMinor (version : Version) :
    version.nextMajor.toText ≠ version.nextMinor.toText := by
  intro h
  have := congrArg Version.major (Version.toText_injective h)
  simp only [Version.nextMajor, Version.nextMinor] at this
  omega

theorem nextMajor_ne_nextPatch (version : Version) :
    version.nextMajor.toText ≠ version.nextPatch.toText := by
  intro h
  have := congrArg Version.major (Version.toText_injective h)
  simp only [Version.nextMajor, Version.nextPatch] at this
  omega

theorem nextMinor_ne_nextPatch (version : Version) :
    version.nextMinor.toText ≠ version.nextPatch.toText := by
  intro h
  have := congrArg Version.minor (Version.toText_injective h)
  simp only [Version.nextMinor, Version.nextPatch] at this
  omega

/-- **Spec.** The version after a revision that has groups. -/
theorem computeNextSemVer_eq (hgroups : prev ≠ []) (hprev : (prev.map (·.name)).Nodup)
    (hdraft : (draft.map (·.name)).Nodup) :
    computeNextSemVer (some prev) draft (some version.toText) =
      if MajorChange prev draft then version.nextMajor.toText
      else if KeyAdded prev draft ∨ TextChanged prev draft then version.nextMinor.toText
      else version.nextPatch.toText := by
  have hmajor := hasMajorChange_iff hprev hdraft
  have hminor := hasMinorChange_iff hprev hdraft
  unfold computeNextSemVer
  rw [versionTriple_toText]
  cases prev with
  | nil => exact absurd rfl hgroups
  | cons h hs =>
      dsimp only
      by_cases hM : MajorChange (h :: hs) draft
      · rw [if_pos hM, if_pos (hmajor.mpr hM)]
        rfl
      · rw [if_neg hM, if_neg fun htest => hM (hmajor.mp htest)]
        by_cases hm : KeyAdded (h :: hs) draft ∨ TextChanged (h :: hs) draft
        · rw [if_pos hm, if_pos (hminor.mpr hm)]
          rfl
        · rw [if_neg hm, if_neg fun htest => hm (hminor.mp htest)]
          rfl

/-- With nothing to compare with, the version is the first one. -/
theorem tells_empty_iff (same : Prop) :
    Tells v version [] draft same (computeNextSemVer (some []) draft (some version.toText)) ↔
      version.major = 0 ∧ draft ≠ [] := by
  have hfirst : computeNextSemVer (some []) draft (some version.toText) =
      (⟨1, 0, 0⟩ : Version).toText := rfl
  have hpatch : (⟨1, 0, 0⟩ : Version).toText ≠ version.nextPatch.toText := by
    intro h
    have := congrArg Version.patch (Version.toText_injective h)
    simp only [Version.nextPatch] at this
    omega
  have hminor : (⟨1, 0, 0⟩ : Version).toText ≠ version.nextMinor.toText := by
    intro h
    have := congrArg Version.minor (Version.toText_injective h)
    simp only [Version.nextMinor] at this
    omega
  have hmajor : (⟨1, 0, 0⟩ : Version).toText = version.nextMajor.toText ↔ version.major = 0 := by
    constructor
    · intro h
      have := congrArg Version.major (Version.toText_injective h)
      simp only [Version.nextMajor] at this
      omega
    · intro h
      unfold Version.nextMajor
      rw [h]
  have hchange : MajorChange [] draft ↔ draft ≠ [] := by
    constructor
    · rintro (⟨g, hg, -⟩ | ⟨h, hh, -⟩ | ⟨h, hh, -⟩)
      · exact List.ne_nil_of_mem hg
      · cases hh
      · cases hh
    · intro hne
      obtain ⟨g, hg⟩ := List.exists_mem_of_ne_nil draft hne
      exact .inl ⟨g, hg, fun _ hh => absurd hh List.not_mem_nil⟩
  rw [hfirst]
  constructor
  · intro h
    have hne : draft ≠ [] := by
      by_contra hempty
      have hnot : ¬ MinorChange v [] draft := by
        rintro (⟨h, hh, -⟩ | ⟨h, hh, -⟩ | ⟨h, hh, -⟩) <;> cases hh
      exact hpatch (h.patch.mpr ⟨fun hM => hchange.mp hM hempty, hnot⟩)
    exact ⟨hmajor.mp (h.major.mpr (hchange.mpr hne)), hne⟩
  · rintro ⟨hzero, hne⟩
    have hM := hchange.mpr hne
    exact ⟨iff_of_true (hmajor.mpr hzero) hM, iff_of_false hminor fun h => h.1 hM,
      iff_of_false hpatch fun h => h.1 hM, fun h => absurd h hpatch⟩

/-- **Main result.** The version that is computed tells what changed exactly where the stored
texts do. -/
theorem versionTells_iff (hprev : (prev.map (·.name)).Nodup) (hdraft : (draft.map (·.name)).Nodup)
    (hkeys : KeyedOnce prev) (hkeys' : KeyedOnce draft) :
    Tells v version prev draft (SameGroups (versionGroupsOf v prev) (versionGroupsOf v draft))
      (computeNextSemVer (some prev) draft (some version.toText)) ↔ TextsTell v version prev draft := by
  by_cases hgroups : prev = []
  · subst hgroups
    rw [tells_empty_iff]
    exact ⟨fun h => ⟨fun _ => h, fun hne => absurd rfl hne, fun hne => absurd rfl hne⟩,
      fun h => h.empty rfl⟩
  rw [computeNextSemVer_eq hgroups hprev hdraft]
  have hMm := nextMajor_ne_nextMinor version
  have hMp := nextMajor_ne_nextPatch version
  have hmp := nextMinor_ne_nextPatch version
  by_cases hM : MajorChange prev draft
  · rw [if_pos hM]
    refine iff_of_true ⟨iff_of_true rfl hM, iff_of_false hMm fun h => h.1 hM,
      iff_of_false hMp fun h => h.1 hM, fun h => absurd h hMp⟩ ⟨fun h => absurd h hgroups, ?_, ?_⟩
    · exact fun _ hnot => absurd hM hnot
    · exact fun _ hnot => absurd hM hnot
  rw [if_neg hM]
  by_cases hadded : KeyAdded prev draft
  · rw [if_pos (.inl hadded)]
    refine iff_of_true ⟨iff_of_false hMm.symm hM, iff_of_true rfl ⟨hM, .inl hadded⟩,
      iff_of_false hmp fun h => h.2 (.inl hadded), fun h => absurd h hmp⟩
      ⟨fun h => absurd h hgroups, ?_, ?_⟩
    · exact fun _ _ hnot => absurd hadded hnot
    · exact fun _ _ hnot => absurd hadded hnot
  by_cases htext : TextChanged prev draft
  · rw [if_pos (.inr htext)]
    constructor
    · intro h
      obtain ⟨-, hminor⟩ := h.minor.mp rfl
      refine ⟨fun he => absurd he hgroups, fun _ _ _ => ?_, fun _ _ _ hnot => absurd htext hnot⟩
      exact iff_of_true htext (hminor.resolve_left hadded)
    · intro h
      have hminor : MinorChange v prev draft := .inr ((h.texts hgroups hM hadded).mp htext)
      exact ⟨iff_of_false hMm.symm hM, iff_of_true rfl ⟨hM, hminor⟩,
        iff_of_false hmp fun hp => hp.2 hminor, fun hp => absurd hp hmp⟩
  · rw [if_neg fun hor => hor.elim hadded htext]
    have hsame : ¬ MinorChange v prev draft →
        (SameGroups (versionGroupsOf v prev) (versionGroupsOf v draft) ↔ SameGlobals v prev draft) := by
      intro hnot
      apply sameGroups_iff_sameGlobals _ hprev hdraft hkeys hkeys'
      exact unchanged_of_not hM hadded (fun hv => hnot (.inr (.inl hv))) fun hf => hnot (.inr (.inr hf))
    constructor
    · intro h
      obtain ⟨-, hnot⟩ := h.patch.mp rfl
      refine ⟨fun he => absurd he hgroups, fun _ _ _ => ?_, fun _ _ _ _ => ?_⟩
      · exact iff_of_false htext fun hor => hnot (.inr hor)
      · exact (hsame hnot).mp (h.payload rfl)
    · intro h
      have hnot : ¬ MinorChange v prev draft := by
        rintro (hk | hor)
        · exact hadded hk
        · exact htext ((h.texts hgroups hM hadded).mpr hor)
      exact ⟨iff_of_false hMp.symm hM, iff_of_false hmp.symm fun hm => hnot hm.2,
        iff_of_true rfl ⟨hM, hnot⟩, fun _ => (hsame hnot).mpr (h.globals hgroups hM hadded htext)⟩

/-! ### A publication -/

/-- The version of a revision. -/
def versionOf (db : ConfigDb) (id : ℕ) : Option String :=
  (Rows.findKey ConfigRevision.id id db.revisions).bind (·.semVer)

/-- The groups that `getDeviceConfigByVersion` builds from a revision that is not cached, with
every secret answered. -/
def builtGroups (peers : Peers) (deviceId : String) (id : ℕ) (db : ConfigDb) :
    Option (List (String × Object)) :=
  (Rows.findKey ConfigRevision.id id db.revisions).bind fun r =>
    (assembleRevision peers deviceId (r.semVer.getD "") r (answering db)).1.toOption.map (·.groups)

/-- The groups of both revisions are built, the same ones. -/
def ReadsSame (db : ConfigDb) (id id' : ℕ) : Prop :=
  ∀ (peers : Peers) (deviceId : String), ∃ old new, builtGroups peers deviceId id db = some old ∧
    builtGroups peers deviceId id' db = some new ∧ SameGroups old new

/-- The draft gets a version, and the version tells how the draft differs from what was ACTIVE. -/
def BumpReflects (peers : Peers) (dto : ApplyConfigRevisionDto) (db : ConfigDb) (version : Version)
    (prev draft : ConfigRevision) : Prop :=
  ∃ text, versionOf (step db ⟨peers, .applyRevision dto⟩) draft.id = some text ∧
    Tells db.vault version (db.groupsOf prev.id) (db.groupsOf draft.id)
      (ReadsSame (step db ⟨peers, .applyRevision dto⟩) prev.id draft.id) text

variable {db : ConfigDb}

theorem hasRevision_found {id : ℕ} (h : HasRevision id db) :
    ∃ r, Rows.findKey ConfigRevision.id id db.revisions = some r ∧ r.id = id := by
  obtain ⟨r, hr, hid⟩ := h
  have hsome : (Rows.findKey ConfigRevision.id id db.revisions).isSome := by
    unfold Rows.findKey
    rw [List.find?_isSome]
    exact ⟨r, hr, by simp [hid]⟩
  obtain ⟨x, hx⟩ := Option.isSome_iff_exists.mp hsome
  exact ⟨x, hx, (Rows.findKey_some hx).2⟩

/-- **Spec.** What is built from a revision of the table. -/
theorem builtGroups_eq (peers : Peers) (deviceId : String) {id : ℕ} (h : HasRevision id db) :
    builtGroups peers deviceId id db = some (versionGroupsOf db.vault (db.groupsOf id)) := by
  obtain ⟨r, hfind, rfl⟩ := hasRevision_found h
  have hanswers := Vault.harmless_of_answers
    (fun _ hfault => absurd hfault List.not_mem_nil : ∀ fault ∈ (answering db).vault.faults, fault = none)
    (revisionRefs (answering db).vault ((answering db).groupsOf r.id))
  obtain ⟨config, hrun, hgroups⟩ :=
    assembleRevision_run peers deviceId (r.semVer.getD "") r hanswers
  unfold builtGroups
  rw [hfind, Option.bind_some, hrun]
  show some config.groups = _
  rw [hgroups]
  rfl

theorem readsSame_iff {id id' : ℕ} (h : HasRevision id db) (h' : HasRevision id' db) :
    ReadsSame db id id' ↔ SameGroups (versionGroupsOf db.vault (db.groupsOf id))
      (versionGroupsOf db.vault (db.groupsOf id')) := by
  constructor
  · intro hsame
    obtain ⟨old, new, hold, hnew, hgroups⟩ := hsame smallPeers ""
    rw [builtGroups_eq _ _ h] at hold
    rw [builtGroups_eq _ _ h'] at hnew
    rw [Option.some.inj hold, Option.some.inj hnew]
    exact hgroups
  · intro hgroups peers deviceId
    exact ⟨_, _, builtGroups_eq peers deviceId h, builtGroups_eq peers deviceId h', hgroups⟩

/-- What the delivery after a publication leaves: the tables, and Vault but for its schedule. -/
structure Delivering (rows : List ConfigRevision) (db s : ConfigDb) : Prop where
  revisions : s.revisions = rows
  groups : s.groups = db.groups
  vault : ∃ faults, s.vault = { db.vault with faults := faults }

theorem delivering_deliveryWrites (rows : List ConfigRevision) (db : ConfigDb) (key : Option String) :
    DeliveryWrites key (Delivering rows db) where
  requests := fun _ faults h => ⟨h.revisions, h.groups, faults, by
    obtain ⟨_, hvault⟩ := h.vault
    rw [hvault]⟩
  bucket := fun _ _ _ _ h => ⟨h.revisions, h.groups, h.vault⟩
  releases := fun _ _ h => ⟨h.revisions, h.groups, h.vault⟩
  offerings := fun _ _ h => ⟨h.revisions, h.groups, h.vault⟩

/-- The version that the draft of a project gets. -/
def nextVersion (db : ConfigDb) (projectId draftId : ℕ) : String :=
  computeNextSemVer ((replaced db projectId).map (·.2)) (db.groupsOf draftId)
    ((replaced db projectId).bind (·.1.semVer))

/-- **Spec.** What `applyRevision` leaves of the tables and of Vault. -/
theorem applyRevision_delivering {peers : Peers} {dto : ApplyConfigRevisionDto} {project : Project}
    (hproject : peers.project dto.projectIdentifier = some project)
    (htype : project.projectType ∈ [ProjectType.config, .configMap]) {draft : ConfigRevision}
    (hdraft : db.findRevision project.id .draft = some draft) :
    ∃ applied : ConfigRevision, applied.id = draft.id ∧
      applied.semVer = some (nextVersion db project.id draft.id) ∧
      Delivering (setRow applied (archiveRows project.id db.revisions)) db
        (applyRevision peers dto db).2 := by
  refine ⟨{ draft with
    semVer := some (nextVersion db project.id draft.id), status := .active,
    appliedBy := dto.appliedBy, appliedAt := some peers.now }, rfl, rfl, ?_⟩
  unfold applyRevision
  rw [bind_run_ok (requireProject_ok hproject htype)]
  unfold findWithGroups
  rw [gets_bind_run, gets_bind_run, hdraft]
  apply Keeps.bind (publishToDevice_keeps (delivering_deliveryWrites _ db _) peers project
    (nextVersion db project.id draft.id) rfl) fun _ => Keeps.ofExcept _
  exact ⟨rfl, rfl, db.vault.faults, rfl⟩

theorem Delivering.hasRevision {s : ConfigDb} {applied : ConfigRevision} {p : ℕ}
    (h : Delivering (setRow applied (archiveRows p db.revisions)) db s) {r : ConfigRevision}
    (hr : r ∈ db.revisions) : HasRevision r.id s := by
  have hkeys : s.revisions.map (·.id) = db.revisions.map (·.id) := by
    rw [h.revisions]
    unfold setRow archiveRows
    rw [Rows.map_updateWhere, Rows.map_updateWhere]
    · intro r _ _
      rfl
    · intro r _ htest
      exact (beq_iff_eq.mp htest).symm
  have hmem : r.id ∈ s.revisions.map (·.id) := by
    rw [hkeys]
    exact List.mem_map_of_mem hr
  obtain ⟨x, hx, hid⟩ := List.mem_map.mp hmem
  exact ⟨x, hx, hid⟩

/-- **Step.** The version of an applied draft reflects what changed exactly where the stored texts
tell it. -/
theorem bumpReflects_iff (hok : TablesOk db) (hnames : NamesOnce db) (hkeys : KeyedOnce db.groups)
    {peers : Peers} {dto : ApplyConfigRevisionDto} {project : Project}
    (hproject : peers.project dto.projectIdentifier = some project)
    (htype : project.projectType ∈ [ProjectType.config, .configMap]) {prev draft : ConfigRevision}
    (hprev : db.findRevision project.id .active = some prev)
    (hdraft : db.findRevision project.id .draft = some draft)
    {version : Version} (hversion : prev.semVer = some version.toText) :
    BumpReflects peers dto db version prev draft ↔
      TextsTell db.vault version (db.groupsOf prev.id) (db.groupsOf draft.id) := by
  have hmem : prev ∈ db.revisions := List.mem_of_find?_eq_some hprev
  have hmem' : draft ∈ db.revisions := List.mem_of_find?_eq_some hdraft
  obtain ⟨applied, hid, hsemVer, hleft⟩ :=
    @applyRevision_delivering db peers dto project hproject htype draft hdraft
  -- the version of the draft's row
  have hrow : applied ∈ (step db ⟨peers, .applyRevision dto⟩).revisions := by
    show applied ∈ (applyRevision peers dto db).2.revisions
    rw [hleft.revisions]
    have hbase : draft ∈ archiveRows project.id db.revisions :=
      mem_archiveRows_of_ne_active hmem' (by simp [(WithDraft.found hdraft).isDraft.2])
    exact Rows.mem_updateWhere.mpr (.inl ⟨draft, hbase, by simp [hid], rfl⟩)
  have hids := idsOk_step hok.revisions ⟨peers, .applyRevision dto⟩
  have htext : versionOf (step db ⟨peers, .applyRevision dto⟩) draft.id =
      some (nextVersion db project.id draft.id) := by
    unfold versionOf
    rw [← hid, Rows.findKey_unique hids.distinct hrow, Option.bind_some, hsemVer, hid]
  have hnext : nextVersion db project.id draft.id =
      computeNextSemVer (some (db.groupsOf prev.id)) (db.groupsOf draft.id) (some version.toText) := by
    unfold nextVersion replaced
    rw [hprev, Option.map_some, Option.map_some, Option.bind_some, hversion]
  -- what is read after it
  have hsame : ReadsSame (step db ⟨peers, .applyRevision dto⟩) prev.id draft.id ↔
      SameGroups (versionGroupsOf db.vault (db.groupsOf prev.id))
        (versionGroupsOf db.vault (db.groupsOf draft.id)) := by
    have hgroups : ∀ id, (step db ⟨peers, .applyRevision dto⟩).groupsOf id = db.groupsOf id := by
      intro id
      show (applyRevision peers dto db).2.groups.filter _ = _
      rw [hleft.groups]
      rfl
    obtain ⟨faults, hvault⟩ := hleft.vault
    have hvault' : (step db ⟨peers, .applyRevision dto⟩).vault =
        { db.vault with faults := faults } := hvault
    have hfound : HasRevision prev.id (step db ⟨peers, .applyRevision dto⟩) :=
      hleft.hasRevision hmem
    have hfound' : HasRevision draft.id (step db ⟨peers, .applyRevision dto⟩) :=
      hleft.hasRevision hmem'
    rw [readsSame_iff hfound hfound', hgroups, hgroups, hvault']
    exact Iff.rfl
  have hdistinct : ∀ r ∈ db.revisions, ((db.groupsOf r.id).map (·.name)).Nodup := by
    intro r hr
    have hplaces : (Places.names (db.places r.id)).Nodup := hnames r hr
    rw [← names_places] at hplaces
    exact hplaces
  have hkeyed : ∀ id, KeyedOnce (db.groupsOf id) := fun id g hg =>
    hkeys g (List.mem_filter.mp hg).1
  rw [← @versionTells_iff db.vault version _ _ (hdistinct prev hmem) (hdistinct draft hmem')
    (hkeyed prev.id) (hkeyed draft.id), ← hnext, ← hsame]
  constructor
  · rintro ⟨text, hfound, htells⟩
    rw [htext] at hfound
    rw [Option.some.inj hfound]
    exact htells
  · intro htells
    exact ⟨_, htext, htells⟩

/-! ### Runs -/

/-- Every version that is assigned has three numbers. -/
def Numbered (db : ConfigDb) : Prop :=
  ∀ r ∈ db.revisions, ∀ text, r.semVer = some text → ∃ version : Version, text = version.toText

theorem computeNextSemVer_numbered (prev : Option (List ConfigGroup)) (draftGroups : List ConfigGroup)
    {prevSemVer : Option String}
    (h : ∀ text, prevSemVer = some text → ∃ version : Version, text = version.toText) :
    ∃ version : Version, computeNextSemVer prev draftGroups prevSemVer = version.toText := by
  match prev with
  | none | some [] => exact ⟨⟨1, 0, 0⟩, rfl⟩
  | some (g :: gs) =>
      cases hprev : prevSemVer with
      | some text =>
          obtain ⟨version, rfl⟩ := h text hprev
          obtain ⟨next, hnext, -⟩ :=
            computeNextSemVer_bump (List.cons_ne_nil g gs) draftGroups version
          exact ⟨next, hnext⟩
      | none =>
          -- a revision without a version counts as 0.0.0
          unfold computeNextSemVer
          dsimp only [versionTriple]
          split
          · exact ⟨⟨1, 0, 0⟩, rfl⟩
          · split
            · exact ⟨⟨0, 1, 0⟩, rfl⟩
            · exact ⟨⟨0, 0, 1⟩, rfl⟩

/-- **Step.** A call assigns versions of three numbers. -/
theorem numbered_step (hids : IdsOk db) (h : Numbered db) (e : ConfigEvent) : Numbered (step db e) := by
  cases step_effect hids e with
  | still hrows _ _ =>
      intro r hr
      rw [hrows] at hr
      exact h r hr
  | ensured p d hens =>
      intro r hr text htext
      rcases hens.draft.old_or_new hr with hr | ⟨n, rfl⟩
      · exact h r hr text htext
      · cases htext
  | dropped d _ _ hrows _ _ =>
      intro r hr
      rw [hrows] at hr
      exact h r (Rows.mem_deleteWhere.mp hr).1
  | published p hp v d applied rows tail hpub =>
      intro r hr text htext
      rcases hpub.mem_after hr with rfl | ⟨-, -, hnone⟩ | ⟨r₀, hr₀, -, -, -, hsame, -⟩
      · rw [hpub.applied_semVer] at htext
        obtain rfl := Option.some.inj htext
        have hv := hpub.version
        cases harchives : e.archives with
        | false =>
            rw [harchives] at hv
            exact ⟨⟨1, 0, 0⟩, hv⟩
        | true =>
            rw [harchives] at hv
            obtain ⟨groups, rfl⟩ := hv
            apply computeNextSemVer_numbered
            intro text htext
            unfold replaced at htext
            cases hfind : db.findRevision p .active with
            | none =>
                rw [hfind] at htext
                cases htext
            | some a =>
                rw [hfind] at htext
                exact h a (List.mem_of_find?_eq_some hfind) text htext
      · rw [hnone] at htext
        cases htext
      · exact h r₀ hr₀ text (hsame.symm.trans htext)

/-- **Run.** Every version that a run assigns has three numbers. -/
theorem numbered_along_runs (db : ConfigDb) (hrevisions : db.revisions = []) (es : List ConfigEvent) :
    Numbered (run step db es) := by
  have hstart : IdsOk db := by
    refine ⟨?_, ?_⟩ <;> simp [hrevisions, Rows.KeysDistinct]
  have hboth : IdsOk (run step db es) ∧ Numbered (run step db es) := by
    apply invariant_run (I := fun s => IdsOk s ∧ Numbered s)
    · exact fun s e hs => ⟨idsOk_step hs.1 e, numbered_step hs.1 hs.2 e⟩
    · refine ⟨hstart, fun r hr => ?_⟩
      rw [hrevisions] at hr
      cases hr
  exact hboth.2

/-- **Main result.** In every state that a run reaches from empty tables, the version that an
ACTIVE revision's draft is applied with reflects what changed exactly where the stored texts
tell it. -/
theorem bump_reflects_iff (db : ConfigDb) (hrevisions : db.revisions = []) (hgroups : db.groups = [])
    (es : List ConfigEvent) (peers : Peers) (dto : ApplyConfigRevisionDto) (project : Project)
    (hproject : peers.project dto.projectIdentifier = some project)
    (htype : project.projectType ∈ [ProjectType.config, .configMap]) (prev draft : ConfigRevision)
    (hprev : (run step db es).findRevision project.id .active = some prev)
    (hdraft : (run step db es).findRevision project.id .draft = some draft) (text : String)
    (hversion : prev.semVer = some text) (hkeys : KeyedOnce (run step db es).groups) :
    ∃ version : Version, text = version.toText ∧
      (BumpReflects peers dto (run step db es) version prev draft ↔
        TextsTell (run step db es).vault version ((run step db es).groupsOf prev.id)
          ((run step db es).groupsOf draft.id)) := by
  obtain ⟨hok, hnames⟩ := namesOnce_along_runs db hrevisions hgroups es
  obtain ⟨version, rfl⟩ := numbered_along_runs db hrevisions es prev
    (List.mem_of_find?_eq_some hprev) text hversion
  exact ⟨version, rfl, bumpReflects_iff hok hnames hkeys hproject htype hprev hdraft hversion⟩

/-! ### Two drafts of a config map -/

/-- The first revision of the config map and its draft. -/
def netRevision : ConfigRevision := ⟨1, 2, 1, .active, none, some 0, some "1.0.0"⟩

def netDraft : ConfigRevision := ⟨3, 2, 2, .draft, none, none, none⟩

/-- A config map with one group is applied and copied to a draft, which is then edited. -/
def editedDraft (dto : UpsertConfigGroupDto) : List ConfigEvent :=
  [⟨smallPeers, .upsertGroup ⟨.id 2, "net", none, none, none, none, some (yamlDump [("a", .str "1")])⟩⟩,
    ⟨smallPeers, .applyRevision ⟨.id 2, none⟩⟩, ⟨smallPeers, .createDraftRevision ⟨.id 2⟩⟩,
    ⟨smallPeers, .upsertGroup dto⟩]

/-- The draft gets a second group. -/
def addsGroup : List ConfigEvent := editedDraft ⟨.id 2, "dns", none, none, none, none, none⟩

/-- The group of the draft becomes global. -/
def makesGlobal : List ConfigEvent := editedDraft ⟨.id 2, "net", some true, none, none, none, none⟩

/-- A second group is told by the texts. -/
theorem added_group_bumps_major :
    BumpReflects smallPeers ⟨.id 2, none⟩ (run step smallDb addsGroup) ⟨1, 0, 0⟩ netRevision
      netDraft := by
  have hkeys : ((run step smallDb addsGroup).groups.all fun g =>
      decide (ObjectMap.keys (parseYaml g.yamlContent)).Nodup) = true := by decide +kernel
  have hgroups : (run step smallDb addsGroup).groupsOf netRevision.id ≠ [] := by decide +kernel
  have hmajor : MajorChange ((run step smallDb addsGroup).groupsOf netRevision.id)
      ((run step smallDb addsGroup).groupsOf netDraft.id) := by decide +kernel
  obtain ⟨version, htext, hiff⟩ := bump_reflects_iff smallDb rfl rfl addsGroup smallPeers
    ⟨.id 2, none⟩ ⟨2, "maps", .configMap⟩ (by decide) (by decide) netRevision netDraft
    (by decide +kernel) (by decide +kernel) "1.0.0" rfl
    fun g hg => by simpa using List.all_eq_true.mp hkeys g hg
  obtain rfl : ⟨1, 0, 0⟩ = version := Version.toText_injective htext
  apply hiff.mpr
  exact ⟨fun hnil => absurd hnil hgroups, fun _ hnot => absurd hmajor hnot,
    fun _ hnot => absurd hmajor hnot⟩

/-- A group that became global is no key of any group: the third number is raised, and the
revision delivers nothing any more. -/
theorem global_flag_bumps_patch :
    ¬ BumpReflects smallPeers ⟨.id 2, none⟩ (run step smallDb makesGlobal) ⟨1, 0, 0⟩ netRevision
        netDraft ∧
      ¬ ReadsSame (step (run step smallDb makesGlobal) ⟨smallPeers, .applyRevision ⟨.id 2, none⟩⟩)
        netRevision.id netDraft.id := by
  have htext : versionOf (step (run step smallDb makesGlobal)
      ⟨smallPeers, .applyRevision ⟨.id 2, none⟩⟩) netDraft.id =
      some (⟨1, 0, 0⟩ : Version).nextPatch.toText := by decide +kernel
  have hflag : FlagChanged ((run step smallDb makesGlobal).groupsOf netRevision.id)
      ((run step smallDb makesGlobal).groupsOf netDraft.id) := by decide +kernel
  constructor
  · rintro ⟨text, hfound, htells⟩
    rw [htext] at hfound
    obtain rfl := Option.some.inj hfound
    exact (htells.patch.mp rfl).2 (.inr (.inr hflag))
  · intro hsame
    obtain ⟨old, new, hold, hnew, hgroups⟩ := hsame smallPeers "dev-1"
    have hold' : (builtGroups smallPeers "dev-1" netRevision.id (step (run step smallDb makesGlobal)
        ⟨smallPeers, .applyRevision ⟨.id 2, none⟩⟩)).map ObjectMap.keys = some ["net"] := by
      decide +kernel
    have hnew' : (builtGroups smallPeers "dev-1" netDraft.id (step (run step smallDb makesGlobal)
        ⟨smallPeers, .applyRevision ⟨.id 2, none⟩⟩)).map ObjectMap.keys = some [] := by
      decide +kernel
    rw [hold] at hold'
    rw [hnew] at hnew'
    have hmem : "net" ∈ ObjectMap.keys old := by
      rw [Option.some.inj hold']
      exact List.mem_cons_self
    rw [hgroups.names, Option.some.inj hnew'] at hmem
    cases hmem

end ConfigService

end UploadService
