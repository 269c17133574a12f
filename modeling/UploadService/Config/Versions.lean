import UploadService.Lib.Version
import UploadService.Config.Lifecycle

/-!
# Versions only grow

The version a revision gets when it becomes ACTIVE should be greater than every
version assigned before in its project. `VersionsInv` relates the versions
assigned so far to the table: they are the versions of the rows, and the ACTIVE
row carries the greatest.

Main results:

- `computeNextSemVer_lt`: the next version after a revision with groups is greater;
- `versionsInv_step`: a call keeps the invariant, unless it replaces an ACTIVE
  revision without groups;
- `versions_along_runs`: in every run without such a replacement the assigned
  versions strictly increase, no version names two revisions, and no cache object
  is written twice;
- `emptied_revision_reuses_version`: applying over an emptied revision assigns
  `1.0.0` a second time.
-/

namespace UploadService

open ConfigEvent Runs

namespace ConfigService

/-! ### The next version -/

theorem versionNumber_digits (n : ℕ) :
    versionNumber (String.ofList (Nat.toDigits 10 n)) = some n := by
  have hne : String.ofList (Nat.toDigits 10 n) ≠ "" := by
    intro h
    have := congrArg String.toList h
    simp [Nat.toDigits_ne_nil] at this
  have hdigits : (Nat.toDigits 10 n).all Char.isDigit = true := by
    simp only [List.all_eq_true]
    exact fun c hc => Nat.isDigit_of_mem_toDigits (by omega) (by omega) hc
  simp [versionNumber, hne, decimal?, hdigits, Nat.toDigits_ne_nil]

/-- The version column reads back as the triple it was written from. -/
theorem versionTriple_toText (v : Version) :
    versionTriple (some v.toText) = (some v.major, some v.minor, some v.patch) := by
  have hne : v.toText ≠ "" := by
    intro h
    have := congrArg String.toList h
    rw [Version.toList_toText] at this
    simp at this
  unfold versionTriple pathParts
  simp only [hne, if_false, Version.splitOn_toText, List.map_cons, List.map_nil,
    versionNumber_digits]
  rfl

/-- After a revision that has groups the next version is one of the three bumps. -/
theorem computeNextSemVer_bump {prev : List ConfigGroup} (hprev : prev ≠ [])
    (draftGroups : List ConfigGroup) (v : Version) :
    ∃ w, computeNextSemVer (some prev) draftGroups (some v.toText) = w.toText ∧
      (w = v.nextMajor ∨ w = v.nextMinor ∨ w = v.nextPatch) := by
  cases prev with
  | nil => exact absurd rfl hprev
  | cons g gs =>
      unfold computeNextSemVer
      rw [versionTriple_toText]
      simp only
      split
      · exact ⟨v.nextMajor, rfl, .inl rfl⟩
      · split
        · exact ⟨v.nextMinor, rfl, .inr (.inl rfl)⟩
        · exact ⟨v.nextPatch, rfl, .inr (.inr rfl)⟩

/-- **The next version is greater**, where the replaced revision has a group. -/
theorem computeNextSemVer_lt {prev : List ConfigGroup} (hprev : prev ≠ [])
    (draftGroups : List ConfigGroup) (v : Version) :
    ∃ w, computeNextSemVer (some prev) draftGroups (some v.toText) = w.toText ∧ v < w := by
  obtain ⟨w, hw, rfl | rfl | rfl⟩ := computeNextSemVer_bump hprev draftGroups v
  · exact ⟨_, hw, v.lt_nextMajor⟩
  · exact ⟨_, hw, v.lt_nextMinor⟩
  · exact ⟨_, hw, v.lt_nextPatch⟩

/-- Without a revision to replace the version is `1.0.0`. -/
theorem computeNextSemVer_none (draftGroups : List ConfigGroup) (prevSemVer : Option String) :
    computeNextSemVer none draftGroups prevSemVer = (⟨1, 0, 0⟩ : Version).toText := rfl

/-! ### Cache keys -/

theorem append_cons_inj {c : Char} {xs ys xs' ys' : List Char} (h : c ∉ ys) (h' : c ∉ ys')
    (heq : xs ++ c :: ys = xs' ++ c :: ys') : xs = xs' ∧ ys = ys' := by
  rcases List.append_eq_append_iff.mp heq with ⟨a, rfl, ha⟩ | ⟨a, rfl, ha⟩
  · cases a with
    | nil => exact ⟨by simp, by simpa using ha⟩
    | cons b bs =>
        rw [List.cons_append, List.cons.injEq] at ha
        exact absurd (by simp [ha.2]) h
  · cases a with
    | nil => exact ⟨by simp, by simpa using ha.symm⟩
    | cons b bs =>
        rw [List.cons_append, List.cons.injEq] at ha
        exact absurd (by simp [ha.2]) h'

/-- The key of a cache object names the device and the version, as a version has no slash. -/
theorem versionedObjectKey_injective {device device' t u : String} (ht : '/' ∉ t.toList)
    (hu : '/' ∉ u.toList) (h : versionedObjectKey device t = versionedObjectKey device' u) :
    device = device' ∧ t = u := by
  have hkey : ∀ d x : String, (versionedObjectKey d x).toList =
      ("config-cache/".toList ++ d.toList) ++ '/' :: (x.toList ++ ".json".toList) := by
    intro d x
    have htext : versionedObjectKey d x = "config-cache/" ++ d ++ "/" ++ x ++ ".json" := rfl
    have hsep : "/".toList = ['/'] := rfl
    rw [htext]
    simp only [String.toList_append, hsep, List.append_assoc, List.cons_append, List.nil_append]
  have hslash : ∀ x : String, '/' ∉ x.toList → '/' ∉ x.toList ++ ".json".toList := by
    intro x hx hmem
    rcases List.mem_append.mp hmem with hmem | hmem
    · exact hx hmem
    · revert hmem
      decide
  have hlists := congrArg String.toList h
  rw [hkey, hkey] at hlists
  obtain ⟨hd, hv⟩ := append_cons_inj (hslash t ht) (hslash u hu) hlists
  exact ⟨String.toList_inj.mp (List.append_cancel_left hd),
    String.toList_inj.mp (List.append_cancel_right hv)⟩

theorem slash_not_mem_showNumber (n : Option ℕ) : '/' ∉ (showNumber n).toList := by
  cases n with
  | none => decide
  | some n =>
      intro hmem
      have hdigits : (showNumber (some n)).toList = Nat.toDigits 10 n := String.toList_ofList
      rw [hdigits] at hmem
      have := Nat.isDigit_of_mem_toDigits (by omega) (by omega) hmem
      revert this
      decide

theorem slash_not_mem_showVersion (a b c : Option ℕ) : '/' ∉ (showVersion a b c).toList := by
  have htext : showVersion a b c =
      showNumber a ++ "." ++ showNumber b ++ "." ++ showNumber c := rfl
  have hdot : ".".toList = ['.'] := rfl
  rw [htext]
  simp [String.toList_append, hdot, slash_not_mem_showNumber]

theorem slash_not_mem_computeNextSemVer (prev : Option (List ConfigGroup))
    (draftGroups : List ConfigGroup) (prevSemVer : Option String) :
    '/' ∉ (computeNextSemVer prev draftGroups prevSemVer).toList := by
  unfold computeNextSemVer
  split
  · decide
  · decide
  · simp only
    split
    · exact slash_not_mem_showVersion _ _ _
    · split
      · exact slash_not_mem_showVersion _ _ _
      · exact slash_not_mem_showVersion _ _ _

end ConfigService

/-! ### Assigned versions -/

/-- The versions that revisions of the project have in `db'` and did not have in `db`. -/
def newVersions (p : ℕ) (db db' : ConfigDb) : List (ℕ × String) :=
  (db'.revisions.filter fun r => r.projectId == p && r.semVer.isSome &&
    !db.revisions.any fun r₀ => r₀.id == r.id && r₀.semVer == r.semVer).filterMap
    fun r => r.semVer.map fun t => (r.id, t)

/-- The versions one call assigns in the project: revision and version text. -/
def assigned (p : ℕ) (db : ConfigDb) (e : ConfigEvent) : List (ℕ × String) :=
  newVersions p db (step db e)

theorem newVersions_eq_nil {p : ℕ} {db db' : ConfigDb}
    (h : ∀ r ∈ db'.revisions, r.projectId = p → r.semVer ≠ none →
      ∃ r₀ ∈ db.revisions, r₀.id = r.id ∧ r₀.semVer = r.semVer) : newVersions p db db' = [] := by
  unfold newVersions
  rw [List.filter_eq_nil_iff.mpr ?_]
  · rfl
  · intro r hr hq
    simp only [Bool.and_eq_true, beq_iff_eq, Option.isSome_iff_ne_none, Bool.not_eq_true',
      List.any_eq_false, not_and] at hq
    obtain ⟨r₀, hr₀, hid, hv⟩ := h r hr hq.1.1 hq.1.2
    exact hq.2 r₀ hr₀ hid hv

theorem filter_eq_singleton {rows : List ConfigRevision} {q : ConfigRevision → Bool}
    {x : ConfigRevision} (hids : Rows.KeysDistinct ConfigRevision.id rows) (hx : x ∈ rows)
    (hq : q x = true) (honly : ∀ r ∈ rows, q r = true → r = x) : rows.filter q = [x] := by
  have hmem : ∀ r ∈ rows.filter q, r = x := fun r hr =>
    honly r (List.mem_filter.mp hr).1 (List.mem_filter.mp hr).2
  have hle := length_filter_le_one hids fun r hr s hs hqr hqs => by
    rw [honly r hr hqr, honly s hs hqs]
  have hin : x ∈ rows.filter q := List.mem_filter.mpr ⟨hx, hq⟩
  match hf : rows.filter q with
  | [] => rw [hf] at hin; cases hin
  | [r] => rw [hmem r (by rw [hf]; simp)]
  | r :: s :: rest => rw [hf] at hle; simp at hle

namespace Published

variable {db db' : ConfigDb} {p : ℕ} {archived : Bool} {device : Option String} {v : String}
  {d applied : ConfigRevision} {rows tail : List ConfigRevision}

/-- Every row after the publication: the published one, the next draft, or an old row
that may have been archived. -/
theorem mem_after (h : Published db p archived device v d applied rows tail db')
    {r : ConfigRevision} (hr : r ∈ db'.revisions) :
    r = applied ∨ (r.projectId = p ∧ r.status = .draft ∧ r.semVer = none) ∨
    ∃ r₀ ∈ db.revisions, r₀.id ≠ d.id ∧ r.id = r₀.id ∧ r.projectId = r₀.projectId ∧
      r.semVer = r₀.semVer ∧ (r.status = r₀.status ∨ (r.status = .archived ∧ r₀.projectId = p)) := by
  rw [h.revisions_eq] at hr
  rcases List.mem_append.mp hr with hr | hr
  · rcases mem_setRow hr with rfl | ⟨hr, hne⟩
    · exact .inl rfl
    · rw [h.applied_id] at hne
      have hold : ∀ r₀ ∈ rows, r₀.id ≠ d.id → r₀ ∈ db.revisions := by
        intro r₀ hr₀ hne₀
        rcases h.draft.mem_before hr₀ with hr₀ | rfl
        · exact hr₀
        · exact absurd rfl hne₀
      refine .inr (.inr ?_)
      cases archived with
      | false => exact ⟨r, hold r hr hne, hne, rfl, rfl, rfl, .inl rfl⟩
      | true =>
          rcases Rows.mem_updateWhere.mp hr with ⟨r₀, hr₀, hp, rfl⟩ | ⟨hr, -⟩
          · simp only [Bool.and_eq_true, beq_iff_eq] at hp
            exact ⟨r₀, hold r₀ hr₀ hne, hne, rfl, rfl, rfl, .inr ⟨rfl, hp.1⟩⟩
          · exact ⟨r, hold r hr hne, hne, rfl, rfl, rfl, .inl rfl⟩
  · rcases h.tail with htail | ⟨id, htail, -⟩
    · rw [htail] at hr
      cases hr
    · rw [htail, List.mem_singleton] at hr
      rw [hr]
      exact .inr (.inl ⟨rfl, rfl, rfl⟩)

/-- Every old row but the published one is still there, up to being archived. -/
theorem mem_kept (h : Published db p archived device v d applied rows tail db')
    {r₀ : ConfigRevision} (hr₀ : r₀ ∈ db.revisions) (hne : r₀.id ≠ d.id) :
    ∃ r ∈ db'.revisions, r.id = r₀.id ∧ r.projectId = r₀.projectId ∧ r.semVer = r₀.semVer ∧
      (r₀.projectId ≠ p → r.status = r₀.status) := by
  have hrow := h.draft.mem_after hr₀
  have hset : ∀ r ∈ publicationRows archived p rows, r.id = r₀.id → r ∈ db'.revisions := by
    intro r hr hid
    rw [h.revisions_eq]
    refine List.mem_append_left _ (Rows.mem_updateWhere.mpr (.inr ⟨hr, ?_⟩))
    rw [h.applied_id, hid]
    simpa using hne
  cases archived with
  | false => exact ⟨r₀, hset r₀ hrow rfl, rfl, rfl, rfl, fun _ => rfl⟩
  | true =>
      by_cases hq : r₀.projectId = p ∧ r₀.status = .active
      · refine ⟨{ r₀ with status := .archived }, hset _ ?_ rfl, rfl, rfl, rfl,
          fun hnp => absurd hq.1 hnp⟩
        exact Rows.mem_updateWhere.mpr (.inl ⟨r₀, hrow, by simp [hq.1, hq.2], rfl⟩)
      · refine ⟨r₀, hset r₀ ?_ rfl, rfl, rfl, rfl, fun _ => rfl⟩
        refine Rows.mem_updateWhere.mpr (.inr ⟨hrow, ?_⟩)
        simpa [not_and] using hq

/-- The draft carries no version where no draft of its project does. -/
theorem no_version_of_draft (h : Published db p archived device v d applied rows tail db')
    (hids : IdsOk db)
    (hdrafts : ∀ r ∈ db.revisions, r.projectId = p → r.status = .draft → r.semVer = none) :
    ∀ r ∈ db.revisions, r.id = d.id → r.semVer = none := by
  intro r hr hid
  have heq := (h.draft.distinct hids).eq_of_mem (h.draft.mem_after hr) h.draft.mem hid
  exact hdrafts r hr (heq ▸ h.draft.isDraft.1) (heq ▸ h.draft.isDraft.2)

/-- The version has no slash, so its cache key splits. -/
theorem slash_not_mem (h : Published db p archived device v d applied rows tail db') :
    '/' ∉ v.toList := by
  have hversion := h.version
  cases archived with
  | false =>
      rw [show v = "1.0.0" from hversion]
      decide
  | true =>
      obtain ⟨groups, rfl⟩ := hversion
      exact ConfigService.slash_not_mem_computeNextSemVer _ _ _

theorem mem_applied (h : Published db p archived device v d applied rows tail db') :
    applied ∈ db'.revisions := by
  rw [h.revisions_eq]
  refine List.mem_append_left _ (Rows.mem_updateWhere.mpr (.inl ⟨d, h.mem_base, ?_, rfl⟩))
  simp [h.applied_id]

end Published

/-! ### The invariant -/

/-- The version text `t` stands for a smaller version than `u` does. -/
def VersionLt (t u : String) : Prop := ∃ v w : Version, t = v.toText ∧ u = w.toText ∧ v < w

/-- The versions `done` assigned so far in the project, and the rows that carry them. -/
structure VersionsInv (p : ℕ) (done : List (ℕ × String)) (db : ConfigDb) : Prop where
  ids : IdsOk db
  lifecycle : LifecycleInv p db.revisions
  drafts : ∀ r ∈ db.revisions, r.projectId = p → r.status = .draft → r.semVer = none
  recorded : ∀ r ∈ db.revisions, r.projectId = p → ∀ t, r.semVer = some t → (r.id, t) ∈ done
  carried : ∀ x ∈ done, ∃ r ∈ db.revisions, r.id = x.1 ∧ r.projectId = p ∧ r.semVer = some x.2
  someActive : done ≠ [] → ∃ a ∈ db.revisions, a.projectId = p ∧ a.status = .active
  top : ∀ a ∈ db.revisions, a.projectId = p → a.status = .active →
    ∃ v : Version, a.semVer = some v.toText ∧ ∀ x ∈ done, ∃ w : Version, x.2 = w.toText ∧ w ≤ v
  sorted : done.Pairwise fun x y => VersionLt x.2 y.2

/-- The ACTIVE revision of the project, where there is one, has a group. -/
def ActiveHasGroups (p : ℕ) (db : ConfigDb) : Prop :=
  ∀ r, db.findRevision p .active = some r → db.groupsOf r.id ≠ []

/-- No revision without groups is replaced in the project, and a provisioning of it is
the initial one. -/
def ReplacesGroups (p : ℕ) (db : ConfigDb) (e : ConfigEvent) : Prop :=
  match e.call with
  | .provisionProjectContent dto => dto.projectId = p → db.findRevision p .active = none
  | .applyRevision dto => ConfigService.applyTarget e.peers dto db = some p → ActiveHasGroups p db
  | .refreshConfigProjectRevision q _ => q = p → ActiveHasGroups p db
  | _ => True

theorem ReplacesGroups.provisionsInactive {p : ℕ} {db : ConfigDb} {e : ConfigEvent}
    (h : ReplacesGroups p db e) : ProvisionsInactive p db e := by
  obtain ⟨peers, call⟩ := e
  cases call with
  | provisionProjectContent dto => exact h
  | _ => trivial

theorem ReplacesGroups.activeHasGroups {p : ℕ} {db : ConfigDb} {e : ConfigEvent}
    (h : ReplacesGroups p db e) (ha : e.archives = true) (ht : e.target db = some p) :
    ActiveHasGroups p db := by
  obtain ⟨peers, call⟩ := e
  cases call with
  | provisionProjectContent dto => cases ha
  | applyRevision dto => exact h ht
  | refreshConfigProjectRevision q deviceId => exact h (ConfigService.refreshTarget_eq_some ht)
  | _ => cases ht

/-- Without an ACTIVE revision nothing was assigned yet. -/
theorem VersionsInv.done_eq_nil {p : ℕ} {done : List (ℕ × String)} {db : ConfigDb}
    (h : VersionsInv p done db) (hnone : db.findRevision p .active = none) : done = [] := by
  by_contra hne
  obtain ⟨a, ha, hp, hs⟩ := h.someActive hne
  have := List.find?_eq_none.mp hnone a ha
  simp [hp, hs] at this

/-- The version of a publication is new and greater than all before it. -/
theorem VersionsInv.next {p : ℕ} {done : List (ℕ × String)} {db db' : ConfigDb} {archived : Bool}
    {device : Option String} {v : String} {d applied : ConfigRevision}
    {rows tail : List ConfigRevision} (h : VersionsInv p done db)
    (hpub : Published db p archived device v d applied rows tail db')
    (hinit : archived = false → db.findRevision p .active = none)
    (hgroups : archived = true → ActiveHasGroups p db) :
    ∃ w : Version, v = w.toText ∧ ∀ x ∈ done, ∃ u : Version, x.2 = u.toText ∧ u < w := by
  cases hfind : db.findRevision p .active with
  | none =>
      have hv : v = (⟨1, 0, 0⟩ : Version).toText := by
        have hversion := hpub.version
        cases archived with
        | false => exact hversion
        | true =>
            obtain ⟨groups, hgs⟩ := hversion
            simpa [replaced, hfind, ConfigService.computeNextSemVer_none] using hgs
      refine ⟨_, hv, fun x hx => ?_⟩
      rw [h.done_eq_nil hfind] at hx
      cases hx
  | some a =>
      cases archived with
      | false => simp [hinit rfl] at hfind
      | true =>
          have ha : a ∈ db.revisions ∧ a.projectId = p ∧ a.status = .active :=
            ⟨List.mem_of_find?_eq_some hfind, by simpa using List.find?_some hfind⟩
          obtain ⟨u, hu, htop⟩ := h.top a ha.1 ha.2.1 ha.2.2
          obtain ⟨groups, hgs⟩ := hpub.version
          simp only [replaced, hfind, Option.map_some, Option.bind_some, hu] at hgs
          obtain ⟨w, hw, hlt⟩ :=
            ConfigService.computeNextSemVer_lt (hgroups rfl a hfind) groups u
          refine ⟨w, hgs.trans hw, fun x hx => ?_⟩
          obtain ⟨u', hu', hle⟩ := htop x hx
          exact ⟨u', hu', lt_of_le_of_lt hle hlt⟩

/-- What a publication in the project itself assigns. -/
theorem newVersions_published {p : ℕ} {done : List (ℕ × String)} {db db' : ConfigDb}
    {archived : Bool} {device : Option String} {v : String} {d applied : ConfigRevision}
    {rows tail : List ConfigRevision} (h : VersionsInv p done db)
    (hpub : Published db p archived device v d applied rows tail db') :
    newVersions p db db' = [(d.id, v)] := by
  have hids' := published_idsOk h.ids hpub
  have hnew := hpub.no_version_of_draft h.ids h.drafts
  unfold newVersions
  rw [filter_eq_singleton hids'.distinct hpub.mem_applied]
  · simp [hpub.applied_id, hpub.applied_semVer]
  · simp only [hpub.applied_projectId, hpub.applied_semVer, beq_self_eq_true, Option.isSome_some,
      Bool.and_self, Bool.true_and, Bool.not_eq_true', List.any_eq_false, Bool.and_eq_true,
      beq_iff_eq, not_and]
    intro r₀ hr₀ hid
    rw [hnew r₀ hr₀ (hid.trans hpub.applied_id)]
    simp
  · intro r hr hq
    simp only [Bool.and_eq_true, beq_iff_eq, Option.isSome_iff_ne_none, Bool.not_eq_true',
      List.any_eq_false, not_and] at hq
    rcases hpub.mem_after hr with rfl | ⟨-, -, hnone⟩ | ⟨r₀, hr₀, -, hid, -, hv, -⟩
    · rfl
    · exact absurd hnone hq.1.2
    · exact absurd hv.symm (hq.2 r₀ hr₀ hid.symm)

/-! ### One call -/

/-- The same revision, but for the numbers and names no version depends on. -/
structure SameRow (r₀ r : ConfigRevision) : Prop where
  id : r.id = r₀.id
  projectId : r.projectId = r₀.projectId
  semVer : r.semVer = r₀.semVer
  status : r.status = r₀.status

theorem SameRow.refl (r : ConfigRevision) : SameRow r r := ⟨rfl, rfl, rfl, rfl⟩

/-- A row after the draft was found or opened is an old one or a draft without a version. -/
theorem WithDraft.mem_before_or_new {db : ConfigDb} {q : ℕ} {d : ConfigRevision}
    {rows : List ConfigRevision} (h : WithDraft db q d rows) {r : ConfigRevision} (hr : r ∈ rows) :
    (r.status = .draft ∧ r.semVer = none) ∨ ∃ r₀ ∈ db.revisions, SameRow r₀ r := by
  cases h with
  | found h => exact .inr ⟨r, hr, SameRow.refl r⟩
  | opened h =>
      rcases List.mem_append.mp hr with hr | hr
      · exact .inr ⟨r, hr, SameRow.refl r⟩
      · rw [List.mem_singleton.mp hr]
        exact .inl ⟨rfl, rfl⟩

/-- A step that adds or drops only drafts of the project assigns nothing. -/
theorem VersionsInv.quiet {p : ℕ} {done : List (ℕ × String)} {db db' : ConfigDb}
    (h : VersionsInv p done db) (hids : IdsOk db') (hlife : LifecycleInv p db'.revisions)
    (hback : ∀ r ∈ db'.revisions, r.projectId = p →
      (r.status = .draft ∧ r.semVer = none) ∨ ∃ r₀ ∈ db.revisions, SameRow r₀ r)
    (hfwd : ∀ r₀ ∈ db.revisions, r₀.projectId = p → r₀.semVer ≠ none →
      ∃ r ∈ db'.revisions, SameRow r₀ r) :
    VersionsInv p (done ++ newVersions p db db') db' := by
  have hnew : newVersions p db db' = [] := by
    refine newVersions_eq_nil fun r hr hp hv => ?_
    rcases hback r hr hp with ⟨-, hnone⟩ | ⟨r₀, hr₀, hsame⟩
    · exact absurd hnone hv
    · exact ⟨r₀, hr₀, hsame.id.symm, hsame.semVer.symm⟩
  rw [hnew, List.append_nil]
  refine ⟨hids, hlife, ?_, ?_, ?_, ?_, ?_, h.sorted⟩
  · intro r hr hp hd
    rcases hback r hr hp with ⟨-, hnone⟩ | ⟨r₀, hr₀, hsame⟩
    · exact hnone
    · rw [hsame.semVer]
      exact h.drafts r₀ hr₀ (hsame.projectId ▸ hp) (hsame.status ▸ hd)
  · intro r hr hp t ht
    rcases hback r hr hp with ⟨-, hnone⟩ | ⟨r₀, hr₀, hsame⟩
    · rw [hnone] at ht
      cases ht
    · rw [hsame.id]
      exact h.recorded r₀ hr₀ (hsame.projectId ▸ hp) t (hsame.semVer ▸ ht)
  · intro x hx
    obtain ⟨r₀, hr₀, hid, hp, hv⟩ := h.carried x hx
    obtain ⟨r, hr, hsame⟩ := hfwd r₀ hr₀ hp (by simp [hv])
    exact ⟨r, hr, hsame.id.trans hid, hsame.projectId.trans hp, hsame.semVer.trans hv⟩
  · intro hne
    obtain ⟨a, ha, hp, hs⟩ := h.someActive hne
    obtain ⟨v, hv, -⟩ := h.top a ha hp hs
    obtain ⟨r, hr, hsame⟩ := hfwd a ha hp (by simp [hv])
    exact ⟨r, hr, hsame.projectId.trans hp, hsame.status.trans hs⟩
  · intro a ha hp hs
    rcases hback a ha hp with ⟨hd, -⟩ | ⟨r₀, hr₀, hsame⟩
    · rw [hd] at hs
      cases hs
    · rw [hsame.semVer]
      exact h.top r₀ hr₀ (hsame.projectId ▸ hp) (hsame.status ▸ hs)

/-- A publication in the project records its version on top. -/
theorem VersionsInv.published {p : ℕ} {done : List (ℕ × String)} {db db' : ConfigDb}
    {archived : Bool} {device : Option String} {v : String} {d applied : ConfigRevision}
    {rows tail : List ConfigRevision} (h : VersionsInv p done db)
    (hpub : Published db p archived device v d applied rows tail db')
    (hlife : LifecycleInv p db'.revisions)
    (hinit : archived = false → db.findRevision p .active = none)
    (hgroups : archived = true → ActiveHasGroups p db) :
    VersionsInv p (done ++ newVersions p db db') db' := by
  have hids' := published_idsOk h.ids hpub
  obtain ⟨w, hw, hbelow⟩ := h.next hpub hinit hgroups
  rw [newVersions_published h hpub]
  refine ⟨hids', hlife, ?_, ?_, ?_, ?_, ?_, ?_⟩
  · intro r hr hp hd
    rcases hpub.mem_after hr with rfl | ⟨-, -, hnone⟩ | ⟨r₀, hr₀, -, -, hproj, hsv, hst | hst⟩
    · rw [hpub.applied_status] at hd
      cases hd
    · exact hnone
    · rw [hsv]
      exact h.drafts r₀ hr₀ (hproj ▸ hp) (hst ▸ hd)
    · rw [hst.1] at hd
      cases hd
  · intro r hr hp t ht
    rcases hpub.mem_after hr with rfl | ⟨-, -, hnone⟩ | ⟨r₀, hr₀, -, hid, hproj, hsv, -⟩
    · rw [hpub.applied_semVer, Option.some.injEq] at ht
      simp [hpub.applied_id, ht]
    · rw [hnone] at ht
      cases ht
    · rw [hid]
      exact List.mem_append_left _ (h.recorded r₀ hr₀ (hproj ▸ hp) t (hsv ▸ ht))
  · intro x hx
    rcases List.mem_append.mp hx with hx | hx
    · obtain ⟨r₀, hr₀, hid, hproj, hsv⟩ := h.carried x hx
      have hne : r₀.id ≠ d.id := by
        intro heq
        have := hpub.no_version_of_draft h.ids h.drafts r₀ hr₀ heq
        simp [this] at hsv
      obtain ⟨r, hr, hid', hproj', hsv', -⟩ := hpub.mem_kept hr₀ hne
      exact ⟨r, hr, hid'.trans hid, hproj'.trans hproj, hsv'.trans hsv⟩
    · rw [List.mem_singleton.mp hx]
      exact ⟨applied, hpub.mem_applied, hpub.applied_id, hpub.applied_projectId, hpub.applied_semVer⟩
  · intro _
    exact ⟨applied, hpub.mem_applied, hpub.applied_projectId, hpub.applied_status⟩
  · intro a ha hp hs
    -- there is one ACTIVE row, the published one
    have hid := hlife.oneActive a ha applied hpub.mem_applied hp hpub.applied_projectId hs
      hpub.applied_status
    have heq := hids'.distinct.eq_of_mem ha hpub.mem_applied hid
    refine ⟨w, by rw [heq, hpub.applied_semVer, hw], fun x hx => ?_⟩
    rcases List.mem_append.mp hx with hx | hx
    · obtain ⟨u, hu, hlt⟩ := hbelow x hx
      exact ⟨u, hu, le_of_lt hlt⟩
    · rw [List.mem_singleton.mp hx]
      exact ⟨w, hw, le_refl _⟩
  · refine List.pairwise_append.mpr ⟨h.sorted, List.pairwise_singleton _ _, fun x hx y hy => ?_⟩
    obtain ⟨u, hu, hlt⟩ := hbelow x hx
    rw [List.mem_singleton.mp hy]
    exact ⟨u, w, hu, hw, hlt⟩

/-- **Step.** A call keeps the invariant, unless it replaces an ACTIVE revision
without groups. -/
theorem versionsInv_step {p : ℕ} {done : List (ℕ × String)} {db : ConfigDb} (e : ConfigEvent)
    (h : VersionsInv p done db) (hC : ReplacesGroups p db e) :
    VersionsInv p (done ++ assigned p db e) (step db e) := by
  have hids' := idsOk_step h.ids e
  have hlife := lifecycleInv_step h.ids h.lifecycle e hC.provisionsInactive
  unfold assigned
  cases step_effect h.ids e with
  | still hr _ _ =>
      refine h.quiet hids' hlife (fun r hm _ => .inr ⟨r, hr ▸ hm, SameRow.refl r⟩)
        fun r hm _ _ => ⟨r, hr.symm ▸ hm, SameRow.refl r⟩
  | ensured q d hens =>
      refine h.quiet hids' hlife (fun r hm hp => ?_)
        fun r hm _ _ => ⟨r, hens.draft.mem_after hm, SameRow.refl r⟩
      exact hens.draft.mem_before_or_new hm
  | dropped d hd hs hr _ _ =>
      refine h.quiet hids' hlife (fun r hm _ => .inr ⟨r, ?_, SameRow.refl r⟩) fun r hm hp hv => ?_
      · rw [hr] at hm
        exact (Rows.deleteWhere_sublist _ _).subset hm
      · refine ⟨r, ?_, SameRow.refl r⟩
        rw [hr]
        refine List.mem_filter.mpr ⟨hm, ?_⟩
        have hne : r.id ≠ d.id := by
          intro heq
          rw [h.ids.distinct.eq_of_mem hm hd heq] at hp hv
          exact hv (h.drafts d hd hp hs)
        simpa using hne
  | published q hq v d applied rows tail hpub =>
      by_cases hpq : p = q
      · subst hpq
        exact h.published hpub hlife
          (fun ha => no_active_of_provisionsInactive hC.provisionsInactive ha hq)
          fun ha => hC.activeHasGroups ha hq
      · refine h.quiet hids' hlife (fun r hm hp => ?_) fun r hm hp _ => ?_
        · rcases hpub.mem_after hm with rfl | ⟨hproj, -⟩ | ⟨r₀, hr₀, -, hid, hproj, hsv, hst⟩
          · exact absurd (hp.symm.trans hpub.applied_projectId) hpq
          · exact absurd (hp.symm.trans hproj) hpq
          · refine .inr ⟨r₀, hr₀, hid, hproj, hsv, hst.resolve_right fun harch => ?_⟩
            exact hpq (hp.symm.trans (hproj.trans harch.2))
        · have hne : r.id ≠ d.id := by
            intro heq
            have := (hpub.draft.distinct h.ids).eq_of_mem (hpub.draft.mem_after hm) hpub.draft.mem heq
            exact hpq (hp.symm.trans (this ▸ hpub.draft.isDraft.1))
          obtain ⟨r', hr', hid, hproj, hsv, hst⟩ := hpub.mem_kept hm hne
          exact ⟨r', hr', hid, hproj, hsv, hst (hp ▸ hpq)⟩

/-! ### Cache objects -/

/-- The call publishes the device's configuration only where it publishes in project `p`. -/
def OwnDevice (p : ℕ) (device : String) (db : ConfigDb) (e : ConfigEvent) : Prop :=
  e.device = some device → ∀ q, e.target db = some q → q = p

/-- The call writes over no versioned cache object of the device. -/
def KeepsObjects (device : String) (db : ConfigDb) (e : ConfigEvent) : Prop :=
  ∀ (v : Version) (x : DeviceConfigDto),
    ObjectMap.get? db.bucket (ConfigService.versionedObjectKey device v.toText) = some x →
    ObjectMap.get? (step db e).bucket (ConfigService.versionedObjectKey device v.toText) = some x

/-- Every versioned object of the device is one of an assigned version. -/
def ObjectsAssigned (device : String) (done : List (ℕ × String)) (db : ConfigDb) : Prop :=
  ∀ v : Version,
    ObjectMap.get? db.bucket (ConfigService.versionedObjectKey device v.toText) ≠ none →
    ∃ x ∈ done, x.2 = v.toText

/-- The one object of the device a call can write: that of the version it assigns in `p`. -/
theorem objects_step {p : ℕ} {device : String} {done : List (ℕ × String)} {db : ConfigDb}
    (e : ConfigEvent) (h : VersionsInv p done db) (hC : ReplacesGroups p db e)
    (hown : OwnDevice p device db e) (v : Version) :
    ObjectMap.get? (step db e).bucket (ConfigService.versionedObjectKey device v.toText) =
      ObjectMap.get? db.bucket (ConfigService.versionedObjectKey device v.toText) ∨
    ((∃ x ∈ assigned p db e, x.2 = v.toText) ∧
      ∀ x ∈ done, ∃ u : Version, x.2 = u.toText ∧ u < v) := by
  cases step_effect h.ids e with
  | still _ _ hb => exact .inl (by rw [hb])
  | ensured q d hens => exact .inl (by rw [hens.bucket])
  | dropped d _ _ _ _ hb => exact .inl (by rw [hb])
  | published q hq t d applied rows tail hpub =>
      by_cases hkey : e.device.map (ConfigService.versionedObjectKey · t) =
          some (ConfigService.versionedObjectKey device v.toText)
      · obtain ⟨device', hdevice, hkey⟩ := Option.map_eq_some_iff.mp hkey
        obtain ⟨rfl, rfl⟩ := ConfigService.versionedObjectKey_injective hpub.slash_not_mem
          (Version.not_mem_toText (by decide) (by decide) v) hkey
        have hqp := hown hdevice q hq
        subst hqp
        obtain ⟨w, hw, hbelow⟩ := h.next hpub
          (fun ha => no_active_of_provisionsInactive hC.provisionsInactive ha hq)
          (fun ha => hC.activeHasGroups ha hq)
        rw [← Version.toText_injective hw] at hbelow
        refine .inr ⟨⟨(d.id, v.toText), ?_, rfl⟩, hbelow⟩
        unfold assigned
        rw [newVersions_published h hpub]
        exact List.mem_singleton.mpr rfl
      · exact .inl (hpub.bucket _ hkey)

theorem objectsAssigned_step {p : ℕ} {device : String} {done : List (ℕ × String)} {db : ConfigDb}
    (e : ConfigEvent) (h : VersionsInv p done db) (hobjs : ObjectsAssigned device done db)
    (hC : ReplacesGroups p db e) (hown : OwnDevice p device db e) :
    ObjectsAssigned device (done ++ assigned p db e) (step db e) := by
  intro v hne
  rcases objects_step e h hC hown v with hsame | ⟨⟨x, hx, hv⟩, -⟩
  · rw [hsame] at hne
    obtain ⟨x, hx, hv⟩ := hobjs v hne
    exact ⟨x, List.mem_append_left _ hx, hv⟩
  · exact ⟨x, List.mem_append_right _ hx, hv⟩

theorem keepsObjects_step {p : ℕ} {device : String} {done : List (ℕ × String)} {db : ConfigDb}
    (e : ConfigEvent) (h : VersionsInv p done db) (hobjs : ObjectsAssigned device done db)
    (hC : ReplacesGroups p db e) (hown : OwnDevice p device db e) : KeepsObjects device db e := by
  intro v x hx
  rcases objects_step e h hC hown v with hsame | ⟨-, hbelow⟩
  · rw [hsame]
    exact hx
  · -- an object of `v` is there already, so `v` was assigned before
    obtain ⟨y, hy, hv⟩ := hobjs v (by simp [hx])
    obtain ⟨u, hu, hlt⟩ := hbelow y hy
    rw [Version.toText_injective (hu.symm.trans hv)] at hlt
    exact absurd hlt (lt_irrefl v)

/-! ### Runs -/

/-- The versions a run assigns in the project only grow, and name one revision and one
cache object of the device each. -/
structure VersionsGrow (p : ℕ) (device : String) (db : ConfigDb) (es : List ConfigEvent) : Prop where
  increasing : (outputs step (assigned p) db es).Pairwise fun x y => VersionLt x.2 y.2
  oneRevision : ∀ x ∈ outputs step (assigned p) db es, ∀ y ∈ outputs step (assigned p) db es,
    x.2 = y.2 → x.1 = y.1
  oneObject : Along step (KeepsObjects device) db es

theorem VersionLt.ne {t u : String} (h : VersionLt t u) : t ≠ u := by
  obtain ⟨v, w, rfl, rfl, hlt⟩ := h
  intro heq
  rw [Version.toText_injective heq] at hlt
  exact lt_irrefl w hlt

theorem oneRevision_of_increasing {xs : List (ℕ × String)}
    (h : xs.Pairwise fun x y => VersionLt x.2 y.2) :
    ∀ x ∈ xs, ∀ y ∈ xs, x.2 = y.2 → x.1 = y.1 := by
  have hkeys : (xs.map (·.2)).Nodup := List.pairwise_map.mpr (h.imp fun hlt => hlt.ne)
  intro x hx y hy heq
  rw [List.inj_on_of_nodup_map hkeys hx hy heq]

theorem versionsInv_empty (p : ℕ) {db : ConfigDb} (hrevisions : db.revisions = []) :
    VersionsInv p [] db := by
  refine ⟨⟨?_, ?_⟩, ⟨?_, ?_, ?_, ?_⟩, ?_, ?_, ?_, ?_, ?_, ?_⟩ <;> simp [hrevisions, Rows.KeysDistinct]

/-- **Run.** The versions assigned in a run and the rows that carry them. -/
theorem versionsInv_run {p : ℕ} {db : ConfigDb} (hrevisions : db.revisions = [])
    {es : List ConfigEvent} (hC : Along step (ReplacesGroups p) db es) :
    VersionsInv p (outputs step (assigned p) db es) (run step db es) :=
  outputs_along (J := VersionsInv p) (fun _ _ e hs hCe => versionsInv_step e hs hCe)
    (versionsInv_empty p hrevisions) hC

/-- A version names one revision of the project. -/
theorem VersionsInv.unique {p : ℕ} {done : List (ℕ × String)} {db : ConfigDb}
    (h : VersionsInv p done db) {r s : ConfigRevision} (hr : r ∈ db.revisions)
    (hs : s ∈ db.revisions) (hrp : r.projectId = p) (hsp : s.projectId = p) {t : String}
    (hrt : r.semVer = some t) (hst : s.semVer = some t) : r = s := by
  have hid := oneRevision_of_increasing h.sorted _ (h.recorded r hr hrp t hrt) _
    (h.recorded s hs hsp t hst) rfl
  exact Rows.KeysDistinct.eq_of_mem h.ids.distinct hr hs hid

/-- **Main result.** In every run from an empty store in which no publication in the
project replaces an ACTIVE revision without groups, and the device is published with
the project only, the versions only grow. -/
theorem versions_along_runs (p : ℕ) (device : String) (db : ConfigDb)
    (hrevisions : db.revisions = []) (hbucket : db.bucket = []) (es : List ConfigEvent)
    (hC : Along step (fun s e => ReplacesGroups p s e ∧ OwnDevice p device s e) db es) :
    VersionsGrow p device db es := by
  let J := fun done s => VersionsInv p done s ∧ ObjectsAssigned device done s
  have hstart : J [] db := by
    refine ⟨versionsInv_empty p hrevisions, ?_⟩
    simp [hbucket, ObjectsAssigned, ObjectMap.get?]
  have hstep : ∀ done s e, J done s → ReplacesGroups p s e ∧ OwnDevice p device s e →
      J (done ++ assigned p s e) (step s e) := fun done s e hJ hCe =>
    ⟨versionsInv_step e hJ.1 hCe.1, objectsAssigned_step e hJ.1 hJ.2 hCe.1 hCe.2⟩
  have hend := (outputs_along hstep hstart hC).1.sorted
  rw [List.nil_append] at hend
  refine ⟨hend, oneRevision_of_increasing hend, along_of_outputs hstep ?_ hstart hC⟩
  exact fun done s e hJ hCe => keepsObjects_step e hJ.1 hJ.2 hCe.1 hCe.2

/-- The call that applies the draft of the device project of the small world. -/
def applyEvent : ConfigEvent := ⟨smallPeers, .applyRevision ⟨.id 1, none⟩⟩

theorem versions_after_provisioning_and_apply :
    VersionsGrow 1 "dev-1" smallDb [provisionEvent, applyEvent] := by
  refine versions_along_runs 1 "dev-1" smallDb rfl rfl _ ⟨⟨fun _ => rfl, ?_⟩, ⟨fun _ => ?_, ?_⟩, trivial⟩
  · intro _ q hq
    have htarget : provisionEvent.target smallDb = some 1 := by decide
    exact (Option.some.inj (htarget.symm.trans hq)).symm
  · intro r hr
    have hgroups : ((step smallDb provisionEvent).findRevision 1 .active).all fun r =>
        ((step smallDb provisionEvent).groupsOf r.id).length == 2 := by decide
    rw [hr] at hgroups
    intro hnil
    simp [hnil] at hgroups
  · intro _ q hq
    have htarget : applyEvent.target (step smallDb provisionEvent) = some 1 := by decide
    exact (Option.some.inj (htarget.symm.trans hq)).symm

/-- Applying the empty draft that provisioning leaves empties the device's configuration;
the next draft is then applied as `1.0.0`, the version of the first revision. -/
theorem emptied_revision_reuses_version :
    ¬ VersionsGrow 1 "dev-1" smallDb [provisionEvent, applyEvent,
      ⟨smallPeers, .createDraftRevision ⟨.id 1⟩⟩, applyEvent] := by
  intro h
  have houtputs : outputs step (assigned 1) smallDb [provisionEvent, applyEvent,
      ⟨smallPeers, .createDraftRevision ⟨.id 1⟩⟩, applyEvent] =
      [(1, "1.0.0"), (4, "2.0.0"), (5, "1.0.0")] := by decide +kernel
  have hsame := h.oneRevision (1, "1.0.0") (by simp [houtputs]) (5, "1.0.0") (by simp [houtputs]) rfl
  simp at hsame

end UploadService
