import UploadService.Lib.Runs
import UploadService.Config.CacheFiling

/-!
# The cache along every run of its writers

Every call of a device project keeps to the protocol `filing`: its invariant is `Filing`, a step
that publishes `Grows`, every other step is `Quiet`, and a publication may come only while the
other calls are free.

Main results:

- `build_sound`: what is assembled while the ACTIVE revision has a version is filed under it;
- `getDeviceConfig_sound` to `refreshConfigProjectRevision_sound`: the four calls;
- `cache_filed_along_runs`: the cache is filed right along every run without a publication while
  another call is bound.
-/

namespace UploadService

namespace ConfigService

namespace InSteps

open Prog Script

/-- Every request to Vault is answered. -/
def VaultAnswers (db : ConfigDb) : Prop := ∀ fault ∈ db.vault.faults, fault = none

instance (db : ConfigDb) : Decidable (VaultAnswers db) :=
  inferInstanceAs (Decidable (∀ fault ∈ db.vault.faults, fault = none))

/-- A publication waits until no other call is bound. -/
def Waits (other waiting : Turn) : Prop := other = .publishing → waiting = .free

instance : DecidableRel Waits :=
  fun other waiting => inferInstanceAs (Decidable (other = .publishing → waiting = .free))

def filing (p : ℕ) (d : String) : Protocol ConfigDb Turn where
  inv := Filing p d
  ready := VaultAnswers
  rel
    | .publishing => Grows p
    | _ => Quiet p
  allows := Waits

section Calls

variable {p : ℕ} {d : String} {s : ConfigDb} {α : Type}

/-! ### Knowledge that lasts -/

/-- What no step undoes that does not publish, a bound call may rely on. -/
theorem stable_bound {turn : Turn} (hturn : turn ≠ .free) {P : ConfigDb → Prop}
    (hP : ∀ db db', Quiet p db db' → P db → P db') : (filing p d).Stable turn P := by
  intro other db db' hallows _ hrel
  cases other with
  | free => exact hP db db' hrel
  | bound => exact hP db db' hrel
  | publishing => exact absurd (hallows rfl) hturn

/-- What no publication undoes either, every call may rely on. -/
theorem stable_free {turn : Turn} {P : ConfigDb → Prop}
    (hP : ∀ db db', Grows p db db' → P db → P db') : (filing p d).Stable turn P := by
  intro other db db' _ _ hrel
  cases other with
  | free => exact hP db db' hrel.grows
  | bound => exact hP db db' hrel.grows
  | publishing => exact hP db db' hrel

theorem Stable.quiet {turn : Turn} {P : ConfigDb → Prop} (h : (filing p d).Stable turn P)
    {db db' : ConfigDb} (hs : Filing p d db) (hquiet : Quiet p db db') (hP : P db) : P db' :=
  h .bound db db' nofun hs hquiet hP

theorem rel_of_quiet {db db' : ConfigDb} (h : Quiet p db db') (turn : Turn) :
    (filing p d).rel turn db db' := by
  cases turn with
  | free => exact h
  | bound => exact h
  | publishing => exact h.grows

/-! ### Steps that read -/

/-- The step leaves the tables of the config service and the cache alone. -/
def Reads (q : ConfigProg α) : Prop := ∀ db₀, Keeps (Untouched db₀) q

theorem untouched_vault (db₀ : ConfigDb) : ∀ db v, Untouched db₀ db →
    Untouched db₀ { db with vault := v } :=
  fun _ _ h => ⟨h.revisions, h.groups, h.bucket, h.nextId⟩

theorem untouched_requests (db₀ : ConfigDb) : VaultRequests (Untouched db₀) :=
  fun db _ h => untouched_vault db₀ db _ h

/-- A step that reads keeps what the call knows, and returns what a store gave. -/
theorem sound_read {turn : Turn} {q : ConfigProg α} (hq : Reads q) {P : ConfigDb → Prop}
    (hstable : (filing p d).Stable turn P) (hs : P s) :
    (filing p d).Sound (fun a db' => P db' ∧ ∃ db, VaultAnswers db ∧ Filing p d db ∧ P db ∧
      Untouched db db' ∧ (q db).1 = .ok a) (atomic turn q) s := by
  refine Protocol.Sound.atomic P hs hstable fun db hinv hready hP => ?_
  have hsame : Untouched db (q db).2 := hq db db (Untouched.refl db)
  refine ⟨rel_of_quiet hsame.quiet turn, hsame.filing hinv, fun a ha => ?_⟩
  exact ⟨Stable.quiet hstable hinv hsame.quiet hP, db, hready, hinv, hP, hsame, ha⟩

/-- What such a step keeps, whatever it returns. -/
theorem sound_read_keeps {turn : Turn} {q : ConfigProg α} (hq : Reads q) {P : ConfigDb → Prop}
    (hstable : (filing p d).Stable turn P) (hs : P s) :
    (filing p d).Sound (fun _ => P) (atomic turn q) s :=
  (sound_read hq hstable hs).mono fun _ _ h => h.1

theorem reads_gets (f : ConfigDb → α) : Reads (Prog.gets f) := fun _ => Keeps.gets f

theorem reads_readConfigMaps (assocs : List ConfigMapAssociation) : Reads (readConfigMaps assocs) :=
  fun db₀ => Keeps.bind (Keeps.gets _) fun _ => collectConfigMaps_keeps (untouched_requests db₀) _

theorem reads_readOwnConfig (configProject : Option Project) : Reads (readOwnConfig configProject) := by
  intro db₀
  refine Keeps.bind (Keeps.gets _) fun activeRevision => ?_
  refine Keeps.bind (Keeps.gets _) fun deviceRows => ?_
  refine Keeps.bind (collectGlobals_keeps (untouched_requests db₀) deviceRows) fun globals => ?_
  exact Keeps.bind (collectDeviceGroups_keeps (untouched_requests db₀) deviceRows)
    fun _ => Keeps.pure _

theorem reads_readVersionConfig (deviceId semver : String) (projectId : ℕ) :
    Reads (readVersionConfig deviceId semver projectId) := by
  intro db₀
  refine Keeps.bind (Keeps.gets _) fun found => ?_
  cases found with
  | none => exact Keeps.pure _
  | some revision =>
      refine Keeps.bind (Keeps.gets _) fun rows => ?_
      refine Keeps.bind (collectGlobals_keeps (untouched_requests db₀) rows) fun globals => ?_
      refine Keeps.bind (Keeps.foldEach (fun acc group _ => ?_) _) fun _ => Keeps.pure _
      refine Keeps.ite (Keeps.pure _) ?_
      exact Keeps.bind (resolveGroupYaml_keeps (untouched_requests db₀) group globals)
        fun _ => Keeps.pure _

/-! ### The payloads -/

/-- The config maps that are read are those of some rows. -/
theorem readConfigMaps_value {assocs : List ConfigMapAssociation} {db : ConfigDb}
    (hready : VaultAnswers db) {maps : List (String × Object) × Object}
    (h : (readConfigMaps assocs db).1 = .ok maps) : ∃ v rows, maps = configMapsOf v rows := by
  have hrun := (@collectConfigMaps_answered db (activeMapRevisions db assocs)).run
    (Vault.harmless_of_answers hready _)
  unfold readConfigMaps at h
  rw [gets_bind_run, hrun] at h
  exact ⟨_, _, (Except.ok.inj h).symm⟩

/-- The ACTIVE revision is read with its own entries. -/
theorem readOwnConfig_value {project : Project} {db : ConfigDb} (hready : VaultAnswers db)
    {r : ConfigRevision} (hr : db.findRevision project.id .active = some r) {own : OwnConfig}
    (h : (readOwnConfig (some project) db).1 = .ok own) :
    own = ⟨some r, globalsOf db.vault (db.groupsOf r.id), deviceGroupsOf db.vault (db.groupsOf r.id)⟩ := by
  have hread : Answered db (collectGlobals (db.groupsOf r.id) >>= fun globals =>
      collectDeviceGroups (db.groupsOf r.id) >>= fun groups => pure (OwnConfig.mk (some r) globals groups))
      (revisionRefs db.vault (db.groupsOf r.id))
      ⟨some r, globalsOf db.vault (db.groupsOf r.id), deviceGroupsOf db.vault (db.groupsOf r.id)⟩ :=
    (collectGlobals_answered (db.groupsOf r.id)).bind
      ((collectDeviceGroups_answered (db.groupsOf r.id)).bind_pure fun groups =>
        OwnConfig.mk (some r) (globalsOf db.vault (db.groupsOf r.id)) groups)
  have hrun := hread.run (Vault.harmless_of_answers hready _)
  unfold readOwnConfig at h
  rw [gets_bind_run, Option.bind_some, hr, gets_bind_run] at h
  dsimp only at h
  rw [hrun] at h
  exact (Except.ok.inj h).symm

/-- A payload of the ACTIVE revision is filed under its version. -/
theorem filed_payloadOf {version : String} {db : ConfigDb} {r : ConfigRevision}
    (hr : db.findRevision p .active = some r) (hversion : r.semVer = some version) (peers : Peers)
    {maps : List (String × Object) × Object} (hmaps : ∃ v rows, maps = configMapsOf v rows) (v : Vault) :
    Filed p db version (payloadOf peers d maps
      ⟨some r, globalsOf v (db.groupsOf r.id), deviceGroupsOf v (db.groupsOf r.id)⟩) := by
  obtain ⟨v', rows, rfl⟩ := hmaps
  have hquery : r.projectId = p ∧ r.status = .active := by simpa using List.find?_some hr
  exact ⟨r, List.mem_of_find?_eq_some hr, hquery.1, hversion, rfl, hversion, v, .inr ⟨v', rows, rfl⟩⟩

/-- **Spec.** What is assembled while the ACTIVE revision has the version is filed under it. -/
theorem build_sound {turn : Turn} {P : ConfigDb → Prop} (hstable : (filing p d).Stable turn P)
    {peers : Peers} {version : String}
    (hserves : ∀ db, Filing p d db → P db → Serves p version db)
    {project : Project} (hproject : peers.projectNamed s!"config:{d}" .config = some project)
    (hp : project.id = p) (hinv : Filing p d s) (hs : P s) :
    (filing p d).Sound (fun payload db => Filed p db version payload)
      (buildDeviceConfigPayload turn peers d) s := by
  subst hp
  refine Protocol.Sound.bind hinv (sound_read (reads_gets _) hstable hs) ?_
  rintro assocs s₁ hinv₁ ⟨hs₁, -⟩
  have hmaps : (filing project.id d).Sound (fun maps db => P db ∧ ∃ v rows, maps = configMapsOf v rows)
      (if assocs.isEmpty then pure ([], []) else atomic turn (readConfigMaps assocs) :
        Steps (List (String × Object) × Object)) s₁ := by
    split
    · exact Protocol.Sound.pure ⟨hs₁, ⟨true, "", [], []⟩, [], rfl⟩
    · refine (sound_read (reads_readConfigMaps assocs) hstable hs₁).mono ?_
      rintro maps s₂ ⟨hs₂, db, hready, -, -, -, hrun⟩
      exact ⟨hs₂, readConfigMaps_value hready hrun⟩
  refine Protocol.Sound.bind hinv₁ hmaps ?_
  rintro maps s₂ hinv₂ ⟨hs₂, hmaps⟩
  refine Protocol.Sound.bind hinv₂ (sound_read (reads_readOwnConfig _) hstable hs₂) ?_
  rintro own s₃ - ⟨-, db, hready, hinv, hP, hsame, hrun⟩
  obtain ⟨r, hr, hversion⟩ := hserves db hinv hP
  rw [hproject] at hrun
  rw [readOwnConfig_value hready hr hrun]
  exact Protocol.Sound.pure (hsame.quiet.grows.filed (filed_payloadOf hr hversion peers hmaps _))

/-- A payload that is not stored. -/
theorem build_unstored (peers : Peers) (hinv : Filing p d s) :
    (filing p d).Sound (fun _ _ => True) (buildDeviceConfigPayload .free peers d) s := by
  have hstable : (filing p d).Stable .free fun _ => True := fun _ _ _ _ _ _ _ => trivial
  refine Protocol.Sound.bind hinv (sound_read_keeps (reads_gets _) hstable trivial) ?_
  intro assocs s₁ hinv₁ _
  have hmaps : (filing p d).Sound (fun _ _ => True)
      (if assocs.isEmpty then pure ([], []) else atomic .free (readConfigMaps assocs) :
        Steps (List (String × Object) × Object)) s₁ := by
    split
    · exact Protocol.Sound.pure trivial
    · exact sound_read_keeps (reads_readConfigMaps assocs) hstable trivial
  refine Protocol.Sound.bind hinv₁ hmaps fun maps s₂ hinv₂ _ => ?_
  refine Protocol.Sound.bind hinv₂ (sound_read_keeps (reads_readOwnConfig _) hstable trivial) ?_
  exact fun own s₃ _ _ => Protocol.Sound.pure trivial

/-- A payload that is filed under the version is stored. -/
theorem setByVersion_sound (peers : Peers) {version : String} {payload : DeviceConfigDto}
    (hs : Filed p s version payload) :
    (filing p d).Sound (fun _ _ => True) (atomic .free (setByVersion peers d version payload)) s := by
  refine Protocol.Sound.atomic (Filed p · version payload) hs
    (stable_free fun db db' hgrows hfiled => hgrows.filed hfiled) fun db hinv _ hfiled => ?_
  obtain ⟨hquiet, hnext⟩ := setByVersion_quiet hinv peers hfiled
  exact ⟨hquiet, hnext, fun _ _ => trivial⟩

/-! ### The two reads -/

/-- The lookup by name finds the device's project, or nothing. -/
def NamesProject (p : ℕ) (d : String) (peers : Peers) : Prop :=
  ∀ project ∈ peers.projectNamed s!"config:{d}" .config, project.id = p

theorem serves_of_activeSemVer {peers : Peers} {project : Project}
    (hproject : peers.projectNamed s!"config:{d}" .config = some project) {db : ConfigDb}
    {version : String} (h : activeSemVer peers d db = some version) :
    Serves project.id version db := by
  unfold activeSemVer activeOf at h
  rw [hproject, Option.bind_some] at h
  obtain ⟨hsome, -⟩ := Option.filter_eq_some_iff.mp h
  obtain ⟨r, hr, hversion⟩ := Option.bind_eq_some_iff.mp hsome
  exact ⟨r, hr, hversion⟩

theorem getDeviceConfig_sound {peers : Peers} (hnames : NamesProject p d peers)
    (hinv : Filing p d s) :
    (filing p d).Sound (fun _ _ => True) (getDeviceConfig peers d) s := by
  unfold getDeviceConfig readVersion
  cases hproject : peers.projectNamed s!"config:{d}" .config with
  | none => exact build_unstored peers hinv
  | some project =>
      obtain rfl : project.id = p := hnames project hproject
      have hfree : (filing project.id d).Stable .free fun _ => True := fun _ _ _ _ _ _ _ => trivial
      refine Protocol.Sound.bind hinv (sound_read (reads_gets _) hfree trivial) ?_
      rintro version s₁ hinv₁ ⟨-, db, -, -, -, hsame, hrun⟩
      cases version with
      | none => exact build_unstored peers hinv₁
      | some version =>
          have hserves : Serves project.id version s₁ :=
            (serves_of_activeSemVer hproject (Except.ok.inj hrun)).quiet hsame.quiet
          have hstable : (filing project.id d).Stable .bound (Serves project.id version) :=
            stable_bound (by decide) fun db db' hquiet h => h.quiet hquiet
          refine Protocol.Sound.bind hinv₁ (sound_read (reads_gets _) hstable hserves) ?_
          rintro cached s₂ hinv₂ ⟨hserves₂, -⟩
          cases cached with
          | some config => exact Protocol.Sound.pure trivial
          | none =>
              refine Protocol.Sound.bind hinv₂
                (build_sound hstable (fun _ _ h => h) hproject rfl hinv₂ hserves₂) ?_
              intro payload s₃ hinv₃ hfiled
              exact Protocol.Sound.bind hinv₃ (setByVersion_sound peers hfiled) fun _ _ _ _ =>
                Protocol.Sound.pure trivial

/-- A payload that is read by its version is filed under it. -/
theorem readVersionConfig_value {version : String} {db : ConfigDb} (hready : VaultAnswers db)
    {payload : DeviceConfigDto} (h : (readVersionConfig d version p db).1 = .ok (some payload)) :
    Filed p db version payload := by
  unfold readVersionConfig at h
  rw [gets_bind_run] at h
  cases hfound : findVersion db p version with
  | none =>
      rw [hfound] at h
      cases h
  | some r =>
      have hquery : r.projectId = p ∧ r.semVer = some version := by
        simpa using List.find?_some hfound
      have hread : Answered db (collectGlobals (db.groupsOf r.id) >>= fun globals =>
          collectVersionGroups globals (db.groupsOf r.id) >>= fun groups => pure (some
            { deviceId := d
              configRevisionId := some r.id
              semVer := r.semVer
              groups := groups
              computedAt := r.appliedAt.getD 0 : DeviceConfigDto }))
          (revisionRefs db.vault (db.groupsOf r.id)) _ :=
        (collectGlobals_answered (db.groupsOf r.id)).bind
          ((collectVersionGroups_answered _ _).bind_pure fun groups => some _)
      have hrun := hread.run (Vault.harmless_of_answers hready _)
      rw [hfound] at h
      dsimp only at h
      rw [gets_bind_run, hrun] at h
      obtain rfl := Option.some.inj (Except.ok.inj h)
      exact ⟨r, List.mem_of_find?_eq_some hfound, hquery.1, hquery.2, rfl, hquery.2, db.vault, .inl rfl⟩

theorem getDeviceConfigByVersion_sound {peers : Peers} (hnames : NamesProject p d peers)
    (version : String) (hinv : Filing p d s) :
    (filing p d).Sound (fun _ _ => True) (getDeviceConfigByVersion peers d version) s := by
  have hfree : (filing p d).Stable .free fun _ => True := fun _ _ _ _ _ _ _ => trivial
  refine Protocol.Sound.bind hinv (sound_read_keeps (reads_gets _) hfree trivial) ?_
  intro cached s₁ hinv₁ _
  cases cached with
  | some config => exact Protocol.Sound.pure trivial
  | none =>
      dsimp only
      cases hproject : peers.projectNamed s!"config:{d}" .config with
      | none => exact Protocol.Sound.throw _
      | some project =>
          obtain rfl : project.id = p := hnames project hproject
          refine Protocol.Sound.bind hinv₁ (sound_read (reads_readVersionConfig _ _ _) hfree trivial) ?_
          rintro found s₂ hinv₂ ⟨-, db, hready, -, -, hsame, hrun⟩
          cases found with
          | none => exact Protocol.Sound.throw _
          | some payload =>
              have hfiled := hsame.quiet.grows.filed (readVersionConfig_value hready hrun)
              exact Protocol.Sound.bind hinv₂ (setByVersion_sound peers hfiled) fun _ _ _ _ =>
                Protocol.Sound.pure trivial

/-! ### Publications -/

/-- The project of the call is the device's, by its key and by its name. -/
def OfDevice (p : ℕ) (d : String) (project : Project) : Prop :=
  project.id = p ∧ ∀ device ∈ deviceOfName project.name, device = d

instance (p : ℕ) (d : String) (project : Project) : Decidable (OfDevice p d project) :=
  inferInstanceAs (Decidable (_ ∧ ∀ device ∈ deviceOfName project.name, device = d))

/-- The lookup by name finds the device's project. -/
def FindsProject (p : ℕ) (d : String) (peers : Peers) : Prop :=
  (peers.projectNamed s!"config:{d}" .config).map (·.id) = some p

instance (p : ℕ) (d : String) (peers : Peers) : Decidable (FindsProject p d peers) :=
  inferInstanceAs (Decidable (_ = _))

theorem FindsProject.found {peers : Peers} (h : FindsProject p d peers) :
    ∃ project, peers.projectNamed s!"config:{d}" .config = some project ∧ project.id = p :=
  Option.map_eq_some_iff.mp h

theorem assembleAndCache_sound {peers : Peers} {version : String} (hfinds : FindsProject p d peers)
    (hinv : Filing p d s) (hserves : Serves p version s) :
    (filing p d).Sound (fun _ _ => True) (assembleAndCacheDeviceConfig peers d version) s := by
  obtain ⟨project, hproject, hp⟩ := hfinds.found
  have hstable : (filing p d).Stable .bound (Serves p version) :=
    stable_bound (by decide) fun db db' hquiet h => h.quiet hquiet
  refine Protocol.Sound.bind hinv
    (build_sound hstable (fun _ _ h => h) hproject hp hinv hserves) fun payload s₁ hinv₁ hfiled => ?_
  exact setByVersion_sound peers hfiled

/-- The release of the project changes, and what the call knows stays. -/
theorem updateConfigProjectRelease_sound (peers : Peers) (projectId : ℕ) (version : String)
    {P : ConfigDb → Prop} (hstable : (filing p d).Stable .bound P) (hinv : Filing p d s) (hs : P s) :
    (filing p d).Sound (fun _ => P) (updateConfigProjectRelease peers projectId version) s := by
  refine Protocol.Sound.bind hinv (sound_read_keeps (reads_gets _) hstable hs) ?_
  intro oldRelease s₁ hinv₁ hs₁
  have hremove : (filing p d).Sound (fun _ => P) (removeOldRelease oldRelease) s₁ := by
    cases oldRelease with
    | none => exact Protocol.Sound.pure hs₁
    | some old =>
        refine Protocol.Sound.bind hinv₁ (sound_read_keeps (reads_gets _) hstable hs₁) ?_
        intro pushed s₂ hinv₂ hs₂
        have hdelete : Reads (deleteConfigRelease (some old)) := fun db₀ db h =>
          ⟨h.revisions, h.groups, h.bucket, h.nextId⟩
        refine Protocol.Sound.bind hinv₂ (sound_read_keeps hdelete hstable hs₂) ?_
        exact fun _ s₃ _ hs₃ => Protocol.Sound.pure hs₃
  refine Protocol.Sound.bind hinv₁ hremove fun pushed s₂ hinv₂ hs₂ => ?_
  have hinsert : Reads (insertConfigRelease peers projectId version) := by
    intro db₀ db h
    simp only [insertConfigRelease]
    split
    · exact ⟨h.revisions, h.groups, h.bucket, h.nextId⟩
    · exact h
  refine Protocol.Sound.bind hinv₂ (sound_read_keeps hinsert hstable hs₂) ?_
  intro row s₃ hinv₃ hs₃
  split
  · exact Protocol.Sound.pure hs₃
  · exact sound_read_keeps (fun db₀ db h => ⟨h.revisions, h.groups, h.bucket, h.nextId⟩) hstable hs₃

/-- The ACTIVE revision is archived; the draft is still there. -/
theorem archiveActive_sound {draft : ConfigRevision} {groups : List ConfigGroup}
    (hs : LoadedDraft p draft groups s) :
    (filing p d).Sound (fun _ db => LoadedDraft p draft groups db ∧ NoneActive p db)
      (atomic .publishing (ConfigRepo.archiveActive p)) s := by
  refine Protocol.Sound.atomic (LoadedDraft p draft groups) hs
    (stable_bound (by decide) fun _ _ hquiet h => h.quiet hquiet) fun db hinv _ hdraft => ?_
  obtain ⟨hgrows, hnext, hnone⟩ := archiveActive_grows hinv
  exact ⟨hgrows, hnext, fun _ _ => ⟨hdraft.archive, hnone⟩⟩

theorem stable_archived {draft : ConfigRevision} {groups : List ConfigGroup} :
    (filing p d).Stable .publishing fun db => LoadedDraft p draft groups db ∧ NoneActive p db :=
  stable_bound (by decide) fun _ _ hquiet h => ⟨h.1.quiet hquiet, h.2.quiet hquiet⟩

theorem publishToDevice_sound {peers : Peers} {project : Project} (hproject : OfDevice p d project)
    (hfinds : FindsProject p d peers) {version : String} (hinv : Filing p d s) (hserves : Serves p version s) :
    (filing p d).Sound (fun _ _ => True) (publishToDevice peers project version) s := by
  unfold publishToDevice
  cases hname : deviceOfName project.name with
  | none => exact Protocol.Sound.pure trivial
  | some device =>
      obtain rfl : device = d := hproject.2 device hname
      dsimp only
      split
      · have hstable : (filing p device).Stable .bound (Serves p version) :=
          stable_bound (by decide) fun db db' hquiet h => h.quiet hquiet
        refine Protocol.Sound.bind hinv (updateConfigProjectRelease_sound peers project.id version
          hstable hinv hserves) fun _ s₁ hinv₁ hserves₁ => ?_
        exact assembleAndCache_sound hfinds hinv₁ hserves₁
      · exact Protocol.Sound.pure trivial

/-- The draft that is found, with its groups. -/
theorem loaded_of_find {db : ConfigDb} {found : Option (ConfigRevision × List ConfigGroup)}
    (h : (findWithGroups p .draft db).1 = .ok found) {draft : ConfigRevision}
    {groups : List ConfigGroup} (hfound : found = some (draft, groups)) :
    LoadedDraft p draft groups db := by
  have hread : (db.findRevision p .draft).map (fun r => (r, db.groupsOf r.id)) =
      some (draft, groups) := (Except.ok.inj h).trans hfound
  obtain ⟨r, hr, hpair⟩ := Option.map_eq_some_iff.mp hread
  obtain ⟨rfl, rfl⟩ := Prod.mk.inj hpair
  refine ⟨.of_find hr, fun g hg => ?_⟩
  obtain ⟨hmem, hrev⟩ := List.mem_filter.mp hg
  exact ⟨by simpa using hrev, placed_of_mem hmem⟩

theorem findDraftAndActive_sound (draftFirst : Bool) (hinv : Filing p d s) :
    (filing p d).Sound (fun found db => ∀ draft groups, found.1 = some (draft, groups) →
      LoadedDraft p draft groups db) (findDraftAndActive draftFirst p) s := by
  have hfree : (filing p d).Stable .free fun _ => True := fun _ _ _ _ _ _ _ => trivial
  have hbound : (filing p d).Stable .bound fun _ => True := fun _ _ _ _ _ _ _ => trivial
  unfold findDraftAndActive
  cases draftFirst with
  | true =>
      refine Protocol.Sound.bind hinv (sound_read (reads_gets _) hfree trivial) ?_
      rintro draft s₁ hinv₁ ⟨-, db, -, -, -, hsame, hrun⟩
      have hloaded : ∀ r groups, draft = some (r, groups) → LoadedDraft p r groups s₁ :=
        fun _ _ hdraft => (loaded_of_find hrun hdraft).quiet hsame.quiet
      have hstable : (filing p d).Stable .bound fun db =>
          ∀ r groups, draft = some (r, groups) → LoadedDraft p r groups db :=
        stable_bound (by decide) fun _ _ hquiet h r groups hdraft => (h r groups hdraft).quiet hquiet
      refine Protocol.Sound.bind hinv₁ (sound_read_keeps (reads_gets _) hstable hloaded) ?_
      exact fun _ s₂ _ hloaded₂ => Protocol.Sound.pure hloaded₂
  | false =>
      refine Protocol.Sound.bind hinv (sound_read_keeps (reads_gets _) hfree trivial) ?_
      intro previousActive s₁ hinv₁ _
      refine Protocol.Sound.bind hinv₁ (sound_read (reads_gets _) hbound trivial) ?_
      rintro draft s₂ - ⟨-, db, -, -, -, hsame, hrun⟩
      exact Protocol.Sound.pure fun _ _ hdraft => (loaded_of_find hrun hdraft).quiet hsame.quiet

theorem applyRevision_sound (draftFirst : Bool) {peers : Peers} {dto : ApplyConfigRevisionDto}
    (hproject : ∀ project ∈ peers.project dto.projectIdentifier, OfDevice p d project)
    (hfinds : FindsProject p d peers) (hinv : Filing p d s) :
    (filing p d).Sound (fun _ _ => True) (applyRevision draftFirst peers dto) s := by
  have hfree : (filing p d).Stable .free fun _ => True := fun _ _ _ _ _ _ _ => trivial
  have hrequire : Reads (requireProject peers dto.projectIdentifier [.config, .configMap]) :=
    fun _ => requireProject_keeps _ _ _
  refine Protocol.Sound.bind hinv (sound_read hrequire hfree trivial) ?_
  rintro project s₁ hinv₁ ⟨-, db, -, -, -, -, hrun⟩
  have hdevice : OfDevice p d project := by
    rcases requireProject_run peers dto.projectIdentifier [.config, .configMap] db with
      ⟨e, herror⟩ | ⟨q, hq, hok⟩
    · rw [herror] at hrun
      cases hrun
    · rw [hok] at hrun
      obtain rfl := Except.ok.inj hrun
      exact hproject q hq
  obtain rfl := hdevice.1
  refine Protocol.Sound.bind hinv₁ (findDraftAndActive_sound draftFirst hinv₁) ?_
  rintro ⟨draft, previousActive⟩ s₂ hinv₂ hloaded
  cases draft with
  | none => exact Protocol.Sound.throw _
  | some loaded =>
      obtain ⟨draft, groups⟩ := loaded
      refine Protocol.Sound.bind hinv₂ (archiveActive_sound (hloaded draft groups rfl)) ?_
      intro _ s₃ hinv₃ harchived
      refine Protocol.Sound.bind hinv₃ (Protocol.Sound.atomic
        (fun db => LoadedDraft project.id draft groups db ∧ NoneActive project.id db) harchived
        stable_archived fun db hinv _ h =>
          saveWithGroups_grows hinv h.1 h.2 rfl h.1.held.project rfl rfl) ?_
      intro _ s₄ hinv₄ hserves
      refine Protocol.Sound.bind hinv₄ (publishToDevice_sound hdevice hfinds hinv₄ hserves) ?_
      exact fun _ s₅ _ _ _ _ => trivial

/-! ### The cascade -/

theorem stable_held {draft : ConfigRevision} : (filing p d).Stable .bound (HoldsDraft p draft) :=
  stable_bound (by decide) fun _ _ hquiet h => h.quiet hquiet

/-- What a call knows of a group of its draft that it is about to write. -/
def HoldsGroup (p : ℕ) (draft : ConfigRevision) (group : ConfigGroup) (db : ConfigDb) : Prop :=
  HoldsDraft p draft db ∧ group.revisionId = draft.id ∧ Placed group db

theorem stable_group {draft : ConfigRevision} {group : ConfigGroup} :
    (filing p d).Stable .bound (HoldsGroup p draft group) :=
  stable_bound (by decide) fun _ _ hquiet h => ⟨h.1.quiet hquiet, h.2.1, h.2.2.quiet hquiet⟩

/-- A group of the draft is written, whatever else the row says now. -/
theorem saveGroup_sound {draft : ConfigRevision} {group : ConfigGroup}
    (hs : HoldsGroup p draft group s) :
    (filing p d).Sound (fun _ => HoldsGroup p draft group)
      (atomic .bound (ConfigRepo.saveGroup group)) s := by
  refine Protocol.Sound.atomic _ hs stable_group fun db hinv _ h => ?_
  obtain ⟨hdraft, hrev, hplaced⟩ := h
  obtain ⟨hquiet, hnext⟩ := saveGroup_quiet hinv hdraft hplaced hrev
  exact ⟨hquiet, hnext, fun _ _ => ⟨hdraft.quiet hquiet, hrev, hplaced.quiet hquiet⟩⟩

theorem insertGroup_sound {draft : ConfigRevision} {group : ConfigGroup}
    (hrev : group.revisionId = draft.id) (hs : HoldsDraft p draft s) :
    (filing p d).Sound (fun row => HoldsGroup p draft row)
      (atomic .bound (ConfigRepo.insertGroup group)) s := by
  refine Protocol.Sound.atomic _ hs stable_held fun db hinv _ hdraft => ?_
  obtain ⟨hquiet, hnext⟩ := insertGroup_quiet hinv hdraft hrev
  refine ⟨hquiet, hnext, fun row hrow => ?_⟩
  obtain rfl := Except.ok.inj hrow
  exact ⟨hdraft.quiet hquiet, hrev, placed_of_mem (List.mem_append_right _ List.mem_cons_self)⟩

theorem getOrCreateDraftRevision_sound (hinv : Filing p d s) :
    (filing p d).Sound (fun draft => HoldsDraft p draft) (getOrCreateDraftRevision p) s := by
  have hfree : (filing p d).Stable .free fun _ => True := fun _ _ _ _ _ _ _ => trivial
  refine Protocol.Sound.bind hinv (sound_read (reads_gets _) hfree trivial) ?_
  rintro found s₁ hinv₁ ⟨-, db, -, -, -, hsame, hrun⟩
  cases found with
  | some existing =>
      have hdraft : HoldsDraft p existing db := .of_find (Except.ok.inj hrun)
      exact Protocol.Sound.pure (hdraft.quiet hsame.quiet)
  | none =>
      refine Protocol.Sound.bind hinv₁ (sound_read_keeps (reads_gets _) hfree trivial) ?_
      intro max s₂ _ _
      refine Protocol.Sound.atomic _ trivial hfree fun db hinv _ _ => ?_
      obtain ⟨hquiet, hnext⟩ := insertDraft_quiet hinv p (max.getD 0 + 1)
      refine ⟨hquiet, hnext, fun row hrow => ?_⟩
      obtain rfl := Except.ok.inj hrow
      exact ⟨List.mem_append_right _ List.mem_cons_self, rfl, rfl⟩

theorem draftGroupFor_sound {draft : ConfigRevision} (groupName : String) (m : MergedGroup)
    (hinv : Filing p d s) (hs : HoldsDraft p draft s) :
    (filing p d).Sound (fun group => HoldsGroup p draft group) (draftGroupFor draft.id groupName m)
      s := by
  refine Protocol.Sound.bind hinv (sound_read (reads_gets _) stable_held hs) ?_
  rintro found s₁ hinv₁ ⟨hs₁, db, -, -, -, hsame, hrun⟩
  cases found with
  | none =>
      refine Protocol.Sound.bind hinv₁ (sound_read_keeps (reads_gets _) stable_held hs₁) ?_
      exact fun position s₂ _ hs₂ => insertGroup_sound rfl hs₂
  | some group =>
      have hfound : db.findGroup draft.id groupName = some group := Except.ok.inj hrun
      have hquery : group.revisionId = draft.id ∧ group.name = groupName := by
        simpa using List.find?_some hfound
      have hplaced : Placed group s₁ :=
        (placed_of_mem (List.mem_of_find?_eq_some hfound)).quiet (hsame.quiet (p := p))
      have hdelete : Reads (deleteGroupVaultSecrets group) := fun db₀ =>
        deleteGroupVaultSecrets_keeps (untouched_vault db₀) group
      refine Protocol.Sound.bind hinv₁ (sound_read_keeps hdelete stable_group
        ⟨hs₁, hquery.1, hplaced⟩) fun _ s₂ hinv₂ hs₂ => ?_
      have hrow : HoldsGroup p draft { group with sensitiveKeys := m.sensitiveKeys } s₂ := hs₂
      exact Protocol.Sound.bind hinv₂ (saveGroup_sound hrow) fun _ s₃ _ hs₃ =>
        Protocol.Sound.pure hs₃

theorem writeMergedGroup_sound {draft : ConfigRevision} (entry : String × MergedGroup)
    (hinv : Filing p d s) (hs : HoldsDraft p draft s) :
    (filing p d).Sound (fun _ => HoldsDraft p draft) (writeMergedGroup draft.id entry) s := by
  refine Protocol.Sound.bind hinv (draftGroupFor_sound entry.1 entry.2 hinv hs) ?_
  intro group s₁ hinv₁ hs₁
  have hstore : Reads (storeMergedKeys group.id entry.2) := fun db₀ =>
    Keeps.bind (Keeps.gets _) fun enabled => Keeps.ite
      (Keeps.foldEach (fun data keyPath _ =>
        storeMergedKey_keeps (untouched_vault db₀) group.id data keyPath) _) (Keeps.pure _)
  refine Protocol.Sound.bind hinv₁ (sound_read_keeps hstore stable_group hs₁) ?_
  intro data s₂ _ hs₂
  have hrow : HoldsGroup p draft { group with yamlContent := dumpNonEmpty data } s₂ := hs₂
  exact (saveGroup_sound hrow).mono fun _ _ h => h.1

theorem populateDraft_sound {draft : ConfigRevision} (peers : Peers) (hinv : Filing p d s)
    (hs : HoldsDraft p draft s) :
    (filing p d).Sound (fun _ => HoldsDraft p draft) (populateDraftFromConfigMaps peers draft.id d)
      s := by
  refine Protocol.Sound.bind hinv (sound_read_keeps (reads_gets _) stable_held hs) ?_
  intro assocs s₁ hinv₁ hs₁
  split
  · exact Protocol.Sound.pure hs₁
  · have hmerge : Reads (readMergedMaps assocs) := fun db₀ =>
      Keeps.bind (Keeps.gets _) fun _ => mergeConfigMaps_keeps (untouched_requests db₀) _
    refine Protocol.Sound.bind hinv₁ (sound_read_keeps hmerge stable_held hs₁) ?_
    intro merged s₂ hinv₂ hs₂
    exact Protocol.Sound.forEach (fun entry _ _ hinv hs => writeMergedGroup_sound entry hinv hs)
      hinv₂ hs₂

theorem cloneGroupToRevision_sound {draft : ConfigRevision} (source : ConfigGroup) (position : ℕ)
    (hinv : Filing p d s) (hs : HoldsDraft p draft s) :
    (filing p d).Sound (fun _ => HoldsDraft p draft)
      (cloneGroupToRevision source draft.id position) s := by
  refine Protocol.Sound.bind hinv (insertGroup_sound rfl hs) fun row s₁ hinv₁ hs₁ => ?_
  split
  · have hcopy : Reads (copiedYaml row.id source) := fun db₀ =>
      Keeps.bind (Keeps.gets _) fun enabled => Keeps.ite
        (Keeps.foldEach (fun parsed keyPath _ =>
          cloneKey_keeps (untouched_vault db₀) row.id parsed keyPath) _) (Keeps.pure _)
    refine Protocol.Sound.bind hinv₁ (sound_read_keeps hcopy stable_group hs₁) ?_
    intro parsed s₂ hinv₂ hs₂
    have hrow : HoldsGroup p draft { row with yamlContent := dumpNonEmpty parsed } s₂ := hs₂
    exact Protocol.Sound.bind hinv₂ (saveGroup_sound hrow) fun _ s₃ _ hs₃ =>
      Protocol.Sound.pure hs₃.1
  · exact Protocol.Sound.pure hs₁.1

theorem cloneMissingGroups_sound {draft : ConfigRevision} (previousGroups : List ConfigGroup)
    (hinv : Filing p d s) (hs : HoldsDraft p draft s) :
    (filing p d).Sound (fun _ => HoldsDraft p draft) (cloneMissingGroups draft.id previousGroups)
      s := by
  unfold cloneMissingGroups
  split
  · exact Protocol.Sound.pure hs
  · refine Protocol.Sound.bind hinv (sound_read_keeps (reads_gets _) stable_held hs) ?_
    intro names s₁ hinv₁ hs₁
    refine Protocol.Sound.forEach (fun group _ db hinv hs => ?_) hinv₁ hs₁
    split
    · exact Protocol.Sound.pure hs
    · exact Protocol.Sound.bind hinv (cloneGroupToRevision_sound group group.position hinv hs)
        fun _ _ _ h => Protocol.Sound.pure h

theorem publishDraft_sound {draft : ConfigRevision} (peers : Peers) (version : String)
    (hinv : Filing p d s) (hs : LoadedDraft p draft [] s ∧ NoneActive p s) :
    (filing p d).Sound (fun _ => Serves p version) (publishDraft peers draft version) s := by
  refine Protocol.Sound.bind hinv (Protocol.Sound.atomic
    (fun db => LoadedDraft p draft [] db ∧ NoneActive p db) hs stable_archived
    fun db hinv _ h => ?_) fun _ s₁ hinv₁ (hserves : Serves p version s₁) => ?_
  · obtain ⟨hgrows, hnext, hserves⟩ := activate_grows hinv h.1.held h.2
      (f := fun r => { r with
        status := .active, appliedAt := some peers.now, semVer := some version })
      rfl h.1.held.project rfl rfl
    exact ⟨hgrows, hnext, fun _ _ => hserves⟩
  · refine Protocol.Sound.bind hinv₁ (Protocol.Sound.atomic (Serves p version) hserves
      (stable_bound (by decide) fun _ _ hquiet h => h.quiet hquiet) fun db hinv _ h => ?_)
      fun _ s₂ _ (hserves₂ : Serves p version s₂) => Protocol.Sound.pure hserves₂
    obtain ⟨hquiet, hnext⟩ := insertDraft_quiet hinv draft.projectId (draft.revisionNumber + 1)
    exact ⟨hquiet, hnext, fun _ _ => h.quiet hquiet⟩

theorem refreshConfigProjectRevision_sound {peers : Peers} (hfinds : FindsProject p d peers)
    (hinv : Filing p d s) :
    (filing p d).Sound (fun _ _ => True) (refreshConfigProjectRevision peers p d) s := by
  refine Protocol.Sound.bind hinv (getOrCreateDraftRevision_sound hinv) ?_
  intro draft s₁ hinv₁ hs₁
  refine Protocol.Sound.bind hinv₁ (sound_read_keeps (reads_gets _) stable_held hs₁) ?_
  intro previousActive s₂ hinv₂ hs₂
  refine Protocol.Sound.bind hinv₂ (populateDraft_sound peers hinv₂ hs₂) ?_
  intro _ s₃ hinv₃ hs₃
  refine Protocol.Sound.bind hinv₃ (cloneMissingGroups_sound _ hinv₃ hs₃) ?_
  intro _ s₄ hinv₄ hs₄
  refine Protocol.Sound.bind hinv₄ (sound_read_keeps (reads_gets _) stable_held hs₄) ?_
  intro newGroups s₅ hinv₅ hs₅
  refine Protocol.Sound.bind hinv₅ (archiveActive_sound hs₅.loaded) ?_
  intro _ s₆ hinv₆ hs₆
  refine Protocol.Sound.bind hinv₆ (publishDraft_sound peers _ hinv₆ hs₆) ?_
  intro _ s₇ hinv₇ hserves
  refine Protocol.Sound.bind hinv₇ (updateConfigProjectRelease_sound peers p _
    (stable_bound (by decide) fun _ _ hquiet h => h.quiet hquiet) hinv₇ hserves) ?_
  exact fun _ s₈ hinv₈ hserves₈ => assembleAndCache_sound hfinds hinv₈ hserves₈

end Calls

/-! ### Runs -/

/-- A call of a device project, with the answers of the other services to it. -/
inductive Call where
  | getDeviceConfig (peers : Peers)
  | getDeviceConfigByVersion (peers : Peers) (semver : String)
  | applyRevision (draftFirst : Bool) (peers : Peers) (dto : ApplyConfigRevisionDto)
  | refreshConfigProjectRevision (peers : Peers)

def Call.script (p : ℕ) (d : String) : Call → Steps Unit
  | .getDeviceConfig peers => InSteps.getDeviceConfig peers d >>= fun _ => pure ()
  | .getDeviceConfigByVersion peers semver =>
      InSteps.getDeviceConfigByVersion peers d semver >>= fun _ => pure ()
  | .applyRevision draftFirst peers dto =>
      InSteps.applyRevision draftFirst peers dto >>= fun _ => pure ()
  | .refreshConfigProjectRevision peers => InSteps.refreshConfigProjectRevision peers p d

/-- The call is one of this device: the other services know its project by its name. -/
def Call.OnDevice (p : ℕ) (d : String) : Call → Prop
  | .getDeviceConfig peers | .getDeviceConfigByVersion peers _ => NamesProject p d peers
  | .applyRevision _ peers dto =>
      (∀ project ∈ peers.project dto.projectIdentifier, OfDevice p d project) ∧ FindsProject p d peers
  | .refreshConfigProjectRevision peers => FindsProject p d peers

instance (p : ℕ) (d : String) : (call : Call) → Decidable (call.OnDevice p d)
  | .getDeviceConfig peers | .getDeviceConfigByVersion peers _ =>
      inferInstanceAs (Decidable (∀ project ∈ peers.projectNamed s!"config:{d}" .config, _))
  | .applyRevision _ peers dto =>
      inferInstanceAs (Decidable ((∀ project ∈ peers.project dto.projectIdentifier, _) ∧ _))
  | .refreshConfigProjectRevision peers => inferInstanceAs (Decidable (FindsProject p d peers))

theorem script_sound {p : ℕ} {d : String} {call : Call} (hcall : call.OnDevice p d) {s : ConfigDb}
    (hinv : Filing p d s) : (filing p d).Sound (fun _ _ => True) (call.script p d) s := by
  cases call with
  | getDeviceConfig peers =>
      exact Protocol.Sound.bind hinv (getDeviceConfig_sound hcall hinv)
        fun _ _ _ _ => Protocol.Sound.pure trivial
  | getDeviceConfigByVersion peers semver =>
      exact Protocol.Sound.bind hinv (getDeviceConfigByVersion_sound hcall semver hinv)
        fun _ _ _ _ => Protocol.Sound.pure trivial
  | applyRevision draftFirst peers dto =>
      exact Protocol.Sound.bind hinv (applyRevision_sound draftFirst hcall.1 hcall.2 hinv)
        fun _ _ _ _ => Protocol.Sound.pure trivial
  | refreshConfigProjectRevision peers => exact refreshConfigProjectRevision_sound hcall hinv

/-- The store, and the calls on it. -/
abbrev Calls : Type := Pool ConfigDb Exception Turn Unit

/-- A call comes, or the call at an index makes its next access. -/
inductive CallEvent where
  | start (call : Call)
  | turn (index : ℕ)

def step (p : ℕ) (d : String) (s : Calls) : CallEvent → Calls
  | .start call => s.move (.start (call.script p d))
  | .turn index => s.move (.turn index)

/-- The calls are those of the device; each access is made while Vault answers, and one that
publishes, while no other call is bound. -/
def Undisturbed (p : ℕ) (d : String) (s : Calls) : CallEvent → Prop
  | .start call => call.OnDevice p d
  | .turn index => VaultAnswers s.store ∧ s.InTurn Waits index

instance (p : ℕ) (d : String) (s : Calls) : (e : CallEvent) → Decidable (Undisturbed p d s e)
  | .start call => inferInstanceAs (Decidable (call.OnDevice p d))
  | .turn index => inferInstanceAs (Decidable (VaultAnswers s.store ∧ s.InTurn Waits index))

/-- **Step.** -/
theorem sound_step {p : ℕ} {d : String} {s : Calls} (e : CallEvent) (h : s.Sound (filing p d))
    (he : Undisturbed p d s e) : (step p d s e).Sound (filing p d) := by
  cases e with
  | start call => exact Pool.sound_move h fun db hinv => script_sound he hinv
  | turn index => exact Pool.sound_move h he

end InSteps

end ConfigService

open ConfigService InSteps Runs

/-- **Main result.** However the accesses of the calls of a device interleave, every payload in its
cache has the version under which it is filed, and the groups of the revision with that version, as
long as no revision is published while another call is bound and Vault answers. -/
theorem cache_filed_along_runs (p : ℕ) (d : String) (db : ConfigDb) (hdb : Filing p d db)
    (es : List CallEvent) (hC : Along (InSteps.step p d) (Undisturbed p d) ⟨db, []⟩ es) :
    FiledRight p d (run (InSteps.step p d) ⟨db, []⟩ es).store := by
  have hstart : Pool.Sound (filing p d) (⟨db, []⟩ : Calls) := ⟨hdb, nofun⟩
  have hsound : (run (InSteps.step p d) ⟨db, []⟩ es).Sound (filing p d) :=
    invariant_along (I := Pool.Sound (filing p d)) (fun s e hs he => sound_step e hs he) hstart hC
  exact hsound.1.filed

/-- A call that takes its steps, up to `n` of them. -/
def turns (index n : ℕ) : List CallEvent := List.replicate n (.turn index)

/-- The device project of the small world after its provisioning; its cache is empty. -/
def uncachedDb : ConfigDb :=
  run ConfigEvent.step smallDb [⟨bucketDown, .provisionProjectContent ⟨1, "dev-1", none⟩⟩]

theorem uncachedDb_filing : Filing 1 "dev-1" uncachedDb where
  ids := by decide +kernel
  fresh := by decide +kernel
  groupIds := by decide +kernel
  groupsFresh := by decide +kernel
  drafts := by decide +kernel
  filed := by
    intro version payload hget
    have hempty : uncachedDb.bucket = [] := by decide +kernel
    rw [hempty] at hget
    cases hget

/-- The agent reads its config, then the draft is applied, and the agent reads again. -/
def readsAroundApply : List CallEvent :=
  .start (.getDeviceConfig smallPeers) :: turns 0 5 ++
    .start (.applyRevision true smallPeers ⟨.id 1, none⟩) :: turns 1 14 ++
    .start (.getDeviceConfig smallPeers) :: turns 2 5

/-- The agent reads the version, and the draft is applied before it reads the revision. -/
def applyWithinRead : List CallEvent :=
  .start (.getDeviceConfig smallPeers) :: turns 0 2 ++
    .start (.applyRevision true smallPeers ⟨.id 1, none⟩) :: turns 1 14 ++ turns 0 3

/-- Both versions are cached, each under its own. -/
theorem reads_around_apply_filed :
    FiledRight 1 "dev-1" (run (InSteps.step 1 "dev-1") ⟨uncachedDb, []⟩ readsAroundApply).store ∧
      (run (InSteps.step 1 "dev-1") ⟨uncachedDb, []⟩ readsAroundApply).store.bucket.map
        (fun entry => (entry.1, entry.2.semVer)) =
        [(versionedObjectKey "dev-1" "1.0.0", some "1.0.0"),
          (versionedObjectKey "dev-1" "2.0.0", some "2.0.0")] :=
  ⟨cache_filed_along_runs 1 "dev-1" uncachedDb uncachedDb_filing readsAroundApply
    (by decide +kernel), by decide +kernel⟩

/-- The payload of the new version is filed under the old one. -/
theorem late_payload_misfiled :
    ¬ FiledRight 1 "dev-1"
      (run (InSteps.step 1 "dev-1") ⟨uncachedDb, []⟩ applyWithinRead).store := by
  intro h
  have hstored : (ObjectMap.get? (run (InSteps.step 1 "dev-1") ⟨uncachedDb, []⟩
      applyWithinRead).store.bucket (versionedObjectKey "dev-1" "1.0.0")).map (·.semVer) =
        some (some "2.0.0") := by
    decide +kernel
  obtain ⟨payload, hget, hversion⟩ := Option.map_eq_some_iff.mp hstored
  obtain ⟨_, _, _, _, _, hsemVer, _⟩ := h "1.0.0" payload hget
  rw [hsemVer] at hversion
  exact absurd (Option.some.inj hversion) (by decide)

end UploadService
