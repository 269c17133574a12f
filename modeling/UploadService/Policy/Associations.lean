import UploadService.Policy.Service

/-!
# What a rule write leaves

The spec lemmas of the rule service: when a creation, an update and their association
parts succeed, and which releases the rule is associated with afterwards. The facts
about policies are read off these and never unfold a handler again.

Main results:

- `createAssociations_run`: the associations are made exactly when everything is found;
- `createRule_ok`: a successful creation associates a new rule with the requested releases;
- `updateRule_run`: an update succeeds exactly when it is accepted, and replaces the
  associations where the request has any.
-/

namespace UploadService

open Prog RuleService

/-- The constraints of the tables: primary keys, unique names and foreign keys. -/
structure RuleDb.Constraints (db : RuleDb) : Prop where
  releaseKeys : Rows.KeysDistinct Release.catalogId db.releases
  projectNames : Rows.KeysDistinct Project.name db.projects
  ruleKeys : Rows.KeysDistinct Rule.id db.rules
  ruleReleases : ∀ a ∈ db.ruleReleases, ∃ rule ∈ db.rules, rule.id = a.ruleId

/-! ### Reads leave the store alone -/

theorem validateRule_state (env : RuleEnv) (rule : Value) (db : RuleDb) :
    (RuleValidationService.validateRule env rule db).2 = db := by
  have hkeeps : Keeps (· = db) (RuleValidationService.validateRule env rule) := by
    refine Keeps.bind ?_ fun parsed => ?_
    · unfold RuleValidationService.parsedRule
      split
      · split
        · exact Keeps.pure _
        · exact Keeps.throw _
      · exact Keeps.pure _
    · cases env.engineError parsed with
      | some message => exact Keeps.throw _
      | none => exact Keeps.bind (Keeps.gets _) fun _ => Keeps.ite (Keeps.pure _) (Keeps.throw _)
  exact hkeeps db rfl

theorem findOneById_run (id : String) (db : RuleDb) :
    findOneById id db = (match Rows.findKey Rule.id id db.rules with
      | none => .error (.notFound s!"Rule with ID \"{id}\" not found")
      | some rule => .ok (load db rule), db) := by
  unfold findOneById
  rw [gets_bind_run]
  cases Rows.findKey Rule.id id db.rules with
  | none => rfl
  | some rule => rfl

theorem findOneById_ok {id : String} {db db' : RuleDb} {loaded : LoadedRule}
    (h : findOneById id db = (.ok loaded, db')) :
    db' = db ∧ ∃ rule, Rows.findKey Rule.id id db.rules = some rule ∧ loaded = load db rule := by
  rw [findOneById_run] at h
  cases hfind : Rows.findKey Rule.id id db.rules with
  | none => simp [hfind] at h
  | some rule =>
      simp only [hfind, Prod.mk.injEq, Except.ok.injEq] at h
      exact ⟨h.2.symm, rule, rfl, h.1.symm⟩

/-! ### What the associations become -/

/-- After an association write only the four association tables differ, and the rule's
releases are the old ones and those in `added`. -/
structure Associated (ruleId : String) (added : List Release) (db db' : RuleDb) : Prop where
  releases : db'.releases = db.releases
  projects : db'.projects = db.projects
  rules : db'.rules = db.rules
  deviceTypes : db'.deviceTypes = db.deviceTypes
  deviceIds : db'.deviceIds = db.deviceIds
  ruleReleases : db'.ruleReleases =
    db.ruleReleases ++ added.map fun r => ⟨ruleId, r.catalogId⟩

theorem Associated.refl (ruleId : String) (db : RuleDb) : Associated ruleId [] db db :=
  ⟨rfl, rfl, rfl, rfl, rfl, by simp⟩

theorem Associated.trans {ruleId : String} {xs ys : List Release} {db db₁ db₂ : RuleDb}
    (h₁ : Associated ruleId xs db db₁) (h₂ : Associated ruleId ys db₁ db₂) :
    Associated ruleId (xs ++ ys) db db₂ where
  releases := h₂.releases.trans h₁.releases
  projects := h₂.projects.trans h₁.projects
  rules := h₂.rules.trans h₁.rules
  deviceTypes := h₂.deviceTypes.trans h₁.deviceTypes
  deviceIds := h₂.deviceIds.trans h₁.deviceIds
  ruleReleases := by
    rw [h₂.ruleReleases, h₁.ruleReleases, List.map_append, List.append_assoc]

@[simp] theorem requestedReleases_nil (db : RuleDb) : requestedReleases db [] = [] := by
  simp [requestedReleases, uniqueReleases]

/-- The releases of a request are found: every entry names a project, in a form the
database can compare, and there are as many releases as entries. -/
def ReleasesFound (db : RuleDb) (entries : List ReleaseIdentifierDto) : Prop :=
  (∀ e ∈ uniqueReleases entries, releaseCondition e ≠ none) ∧
  (∀ c ∈ (uniqueReleases entries).filterMap releaseCondition, c.wellTyped = true) ∧
  (requestedReleases db entries).length = (uniqueReleases entries).length

def DeviceTypesFound (db : RuleDb) (names : List String) : Prop :=
  (db.deviceTypes.filter fun t => (ObjectMap.addKeys [] names).contains t.name).length =
    (ObjectMap.addKeys [] names).length

def DevicesFound (db : RuleDb) (ids : List String) : Prop :=
  (db.deviceIds.filter (ObjectMap.addKeys [] ids).contains).length = (ObjectMap.addKeys [] ids).length

theorem associateReleases_run (ruleId : String) (entries : List ReleaseIdentifierDto) (db : RuleDb) :
    (ReleasesFound db entries ∧ ∃ db', associateReleases ruleId entries db = (.ok (), db') ∧
      Associated ruleId (requestedReleases db entries) db db') ∨
    (¬ ReleasesFound db entries ∧ ∃ e db', associateReleases ruleId entries db = (.error e, db')) := by
  unfold associateReleases
  by_cases hnone : (uniqueReleases entries).any fun r => (releaseCondition r).isNone
  · refine .inr ⟨fun hfound => ?_, _, _, by rw [if_pos hnone]; rfl⟩
    obtain ⟨e, he, hisNone⟩ := List.any_eq_true.mp hnone
    exact hfound.1 e he (Option.isNone_iff_eq_none.mp hisNone)
  · rw [if_neg hnone]
    have hnamed : ∀ e ∈ uniqueReleases entries, releaseCondition e ≠ none := by
      intro e he hc
      exact hnone (List.any_eq_true.mpr ⟨e, he, by simp [hc]⟩)
    unfold findReleases
    by_cases htyped : ((uniqueReleases entries).filterMap releaseCondition).all
        ReleaseCondition.wellTyped = true
    · rw [if_pos htyped, gets_bind_run]
      by_cases hlen : (requestedReleases db entries).length = (uniqueReleases entries).length
      · refine .inl ⟨⟨hnamed, List.all_eq_true.mp htyped, hlen⟩, _, by rw [if_pos hlen]; rfl, ?_⟩
        exact ⟨rfl, rfl, rfl, rfl, rfl, rfl⟩
      · exact .inr ⟨fun hfound => hlen hfound.2.2, _, _, by rw [if_neg hlen]; rfl⟩
    · rw [if_neg htyped]
      exact .inr ⟨fun hfound => htyped (List.all_eq_true.mpr hfound.2.1), _, _, rfl⟩

theorem associateDeviceTypes_run (ruleId : String) (names : List String) (db : RuleDb) :
    (DeviceTypesFound db names ∧ ∃ db', associateDeviceTypes ruleId names db = (.ok (), db') ∧
      Associated ruleId [] db db') ∨
    (¬ DeviceTypesFound db names ∧ ∃ e db', associateDeviceTypes ruleId names db = (.error e, db')) := by
  unfold associateDeviceTypes DeviceTypesFound
  rw [gets_bind_run]
  split
  · rename_i hlen
    exact .inl ⟨hlen, _, rfl, rfl, rfl, rfl, rfl, rfl, by simp⟩
  · rename_i hlen
    exact .inr ⟨hlen, _, _, rfl⟩

theorem associateDevices_run (ruleId : String) (ids : List String) (db : RuleDb) :
    (DevicesFound db ids ∧ ∃ db', associateDevices ruleId ids db = (.ok (), db') ∧
      Associated ruleId [] db db') ∨
    (¬ DevicesFound db ids ∧ ∃ e db', associateDevices ruleId ids db = (.error e, db')) := by
  unfold associateDevices DevicesFound
  rw [gets_bind_run]
  split
  · rename_i hlen
    exact .inl ⟨hlen, _, rfl, rfl, rfl, rfl, rfl, rfl, by simp⟩
  · rename_i hlen
    exact .inr ⟨hlen, _, _, rfl⟩

/-- One part of a request: skipped where the request has no entries for it, and
otherwise the part's own run. -/
theorem associateSome_run {α : Type} (ruleId : String) {associate : List α → RuleProg Unit}
    (found : List α → Prop) (added : List α → List Release) (db : RuleDb)
    (hnil : found []) (hadded : added [] = [])
    (h : ∀ xs, (found xs ∧ ∃ db', associate xs db = (.ok (), db') ∧ Associated ruleId (added xs) db db') ∨
      (¬ found xs ∧ ∃ e db', associate xs db = (.error e, db'))) (entries : Option (List α)) :
    (found (entries.getD []) ∧ ∃ db', associateSome associate entries db = (.ok (), db') ∧
      Associated ruleId (added (entries.getD [])) db db') ∨
    (¬ found (entries.getD []) ∧ ∃ e db', associateSome associate entries db = (.error e, db')) := by
  match entries with
  | none => exact .inl ⟨hnil, db, rfl, hadded ▸ Associated.refl ruleId db⟩
  | some [] => exact .inl ⟨hnil, db, rfl, hadded ▸ Associated.refl ruleId db⟩
  | some (x :: xs) => exact h (x :: xs)

/-- Everything a request associates is found. -/
structure AssociationsFound (db : RuleDb) (association : RuleAssociationDto) : Prop where
  releases : ReleasesFound db (association.releases.getD [])
  deviceTypes : DeviceTypesFound db (association.deviceTypeNames.getD [])
  devices : DevicesFound db (association.deviceIds.getD [])

/-- **Spec.** `createAssociations` succeeds exactly when everything is found, and then the
releases it adds are the requested ones. -/
theorem createAssociations_run (ruleId : String) (association : RuleAssociationDto) (db : RuleDb) :
    (AssociationsFound db association ∧ ∃ db', createAssociations ruleId association db = (.ok (), db') ∧
      Associated ruleId (requestedReleases db (association.releases.getD [])) db db') ∨
    (¬ AssociationsFound db association ∧
      ∃ e db', createAssociations ruleId association db = (.error e, db')) := by
  unfold createAssociations
  rcases associateSome_run ruleId (ReleasesFound db) (requestedReleases db) db
      (by simp [ReleasesFound, uniqueReleases]) (by simp)
      (fun xs => associateReleases_run ruleId xs db) association.releases with
    ⟨hreleases, db₁, hrun₁, h₁⟩ | ⟨hnot, e, db₁, hrun₁⟩
  · rw [bind_run_ok hrun₁]
    rcases associateSome_run ruleId (DeviceTypesFound db₁) (fun _ => []) db₁
        (by simp [DeviceTypesFound, ObjectMap.addKeys]) rfl
        (fun xs => associateDeviceTypes_run ruleId xs db₁) association.deviceTypeNames with
      ⟨htypes, db₂, hrun₂, h₂⟩ | ⟨hnot, e, db₂, hrun₂⟩
    · rw [bind_run_ok hrun₂]
      have htypes' : DeviceTypesFound db (association.deviceTypeNames.getD []) := by
        unfold DeviceTypesFound at htypes ⊢
        rw [← h₁.deviceTypes]
        exact htypes
      rcases associateSome_run ruleId (DevicesFound db₂) (fun _ => []) db₂
          (by simp [DevicesFound, ObjectMap.addKeys]) rfl
          (fun xs => associateDevices_run ruleId xs db₂) association.deviceIds with
        ⟨hdevices, db₃, hrun₃, h₃⟩ | ⟨hnot, e, db₃, hrun₃⟩
      · rw [bind_run_ok hrun₃]
        have hdevices' : DevicesFound db (association.deviceIds.getD []) := by
          unfold DevicesFound at hdevices ⊢
          rw [← h₁.deviceIds, ← h₂.deviceIds]
          exact hdevices
        have hos : ∀ xs, (True ∧ ∃ db', associateOsTypes ruleId xs db₃ = (.ok (), db') ∧
            Associated ruleId [] db₃ db') ∨
            (¬ True ∧ ∃ e db', associateOsTypes ruleId xs db₃ = (.error e, db')) :=
          fun xs => .inl ⟨trivial, _, rfl, rfl, rfl, rfl, rfl, rfl, by simp⟩
        rcases associateSome_run ruleId (fun _ => True) (fun _ => []) db₃ trivial rfl hos
            association.osTypes with
          ⟨-, db₄, hrun₄, h₄⟩ | ⟨hnot, -⟩
        · refine .inl ⟨⟨hreleases, htypes', hdevices'⟩, db₄, hrun₄, ?_⟩
          have htrans := ((h₁.trans h₂).trans h₃).trans h₄
          simpa using htrans
        · exact absurd trivial hnot
      · rw [bind_run_error hrun₃]
        refine .inr ⟨fun hfound => hnot ?_, e, db₃, rfl⟩
        have := hfound.devices
        unfold DevicesFound at this ⊢
        rw [h₂.deviceIds, h₁.deviceIds]
        exact this
    · rw [bind_run_error hrun₂]
      refine .inr ⟨fun hfound => hnot ?_, e, db₂, rfl⟩
      have := hfound.deviceTypes
      unfold DeviceTypesFound at this ⊢
      rw [h₁.deviceTypes]
      exact this
  · rw [bind_run_error hrun₁]
    exact .inr ⟨fun hfound => hnot hfound.releases, e, db₁, rfl⟩

/-! ### What a creation and an update leave -/

/-- The releases a rule is associated with after a write: the old rows `kept` of it, and
the releases `added`. -/
structure Retargeted (ruleId : String) (kept : List RuleRelease) (added : List Release)
    (db db' : RuleDb) : Prop where
  releases : db'.releases = db.releases
  ruleReleases : db'.ruleReleases = kept ++ added.map fun r => ⟨ruleId, r.catalogId⟩

theorem findKey_of_mem {rules : List Rule} {rule : Rule} (h : rule ∈ rules) :
    ∃ found, Rows.findKey Rule.id rule.id rules = some found ∧ found.id = rule.id := by
  cases hfind : Rows.findKey Rule.id rule.id rules with
  | none =>
      have := List.find?_eq_none.mp hfind rule h
      simp at this
  | some found => exact ⟨found, rfl, (Rows.findKey_some hfind).2⟩

/-- **Spec.** A successful creation adds a rule under a new key, with the requested releases. -/
theorem createRule_ok {env : RuleEnv} {dto : CreateRuleDto} {db db' : RuleDb} {loaded : LoadedRule}
    (h : createRule env dto db = (.ok loaded, db')) :
    ∃ association, dto.association = some association ∧ loaded.rule.id = env.uuid ∧
      (∀ rule ∈ db.rules, rule.id ≠ env.uuid) ∧
      Retargeted env.uuid db.ruleReleases (requestedReleases db (association.releases.getD []))
        db db' ∧
      ∀ e ∈ uniqueReleases (association.releases.getD []), releaseCondition e ≠ none := by
  unfold createRule at h
  obtain ⟨_, db₁, hvalid, h₁⟩ := bind_ok_inv h
  clear h
  have hdb₁ : db₁ = db := by
    have := validateRule_state env dto.rule db
    rw [hvalid] at this
    exact this
  subst hdb₁
  cases hassoc : dto.association with
  | none => simp [hassoc] at h₁
  | some association =>
      simp only [hassoc] at h₁
      obtain ⟨_, db₂, htarget, h₂⟩ := bind_ok_inv h₁
      clear h₁
      have hdb₂ : db₂ = db₁ := by
        have hkeeps : Keeps (· = db₁) (requireTarget dto.type association) := by
          unfold requireTarget
          split
          · exact Keeps.ite (Keeps.throw _) (Keeps.pure _)
          · exact Keeps.ite (Keeps.throw _) (Keeps.pure _)
        have := hkeeps db₁ rfl
        rw [htarget] at this
        exact this
      subst hdb₂
      obtain ⟨_, db₃, hinsert, h₃⟩ := bind_ok_inv h₂
      clear h₂
      obtain ⟨_, db₄, hcreate, hfind⟩ := bind_ok_inv h₃
      clear h₃
      simp only [insertRule] at hinsert
      split at hinsert
      · simp at hinsert
      · rename_i hfresh
        simp only [Prod.mk.injEq, true_and] at hinsert
        subst hinsert
        rcases createAssociations_run env.uuid association _ with
          ⟨hfound, db₅, hrun, hassociated⟩ | ⟨-, e, db₅, hrun⟩
        · rw [hrun] at hcreate
          simp only [Prod.mk.injEq, true_and] at hcreate
          subst hcreate
          obtain ⟨rfl, rule, hrule, rfl⟩ := findOneById_ok hfind
          refine ⟨association, rfl, (Rows.findKey_some hrule).2, ?_, ?_, hfound.releases.1⟩
          · intro rule hr hid
            exact hfresh (List.any_eq_true.mpr ⟨rule, hr, by simp [hid]⟩)
          · exact ⟨hassociated.releases, hassociated.ruleReleases⟩
        · rw [hrun] at hcreate
          simp at hcreate

/-- What `updateRule` asks for: the rule, a valid rule content, and every association it names. -/
structure UpdateAccepted (env : RuleEnv) (db : RuleDb) (id : String) (dto : UpdateRuleDto) :
    Prop where
  stored : ∃ rule, Rows.findKey Rule.id id db.rules = some rule ∧
    (updatedRule env rule dto).rule ≠ .null
  valid : (validateUpdatedRule env dto.rule db).1 = .ok ()
  found : ∀ association, dto.association = some association → AssociationsFound db association

/-- The rule-release rows an update keeps. -/
def keptReleases (db : RuleDb) (id : String) (dto : UpdateRuleDto) : List RuleRelease :=
  match dto.association with
  | some _ => Rows.deleteWhere (fun a => a.ruleId == id) db.ruleReleases
  | none => db.ruleReleases

/-- The releases an update adds. -/
def addedReleases (db : RuleDb) (dto : UpdateRuleDto) : List Release :=
  match dto.association with
  | some association => requestedReleases db (association.releases.getD [])
  | none => []

theorem validateUpdatedRule_state (env : RuleEnv) (rule : Option Value) (db : RuleDb) :
    (validateUpdatedRule env rule db).2 = db := by
  unfold validateUpdatedRule
  split
  · exact validateRule_state env _ db
  · rfl

theorem saveRule_run {rule : Rule} (h : rule.rule ≠ .null) (db : RuleDb) :
    saveRule rule db = (.ok (), { db with rules := Rows.save Rule.id rule db.rules }) := by
  unfold saveRule
  rw [if_neg h]
  rfl

/-- After the update's rows are saved, the associations are replaced or left alone. -/
theorem updateGivenAssociations_run (id : String) (dto : UpdateRuleDto) (db : RuleDb) :
    ((∀ a, dto.association = some a → AssociationsFound db a) ∧
      ∃ db', updateGivenAssociations id dto.association db = (.ok (), db') ∧
        db'.rules = db.rules ∧
        Retargeted id (keptReleases db id dto) (addedReleases db dto) db db') ∨
    ((∃ a, dto.association = some a ∧ ¬ AssociationsFound db a) ∧
      ∃ e db', updateGivenAssociations id dto.association db = (.error e, db')) := by
  cases hassoc : dto.association with
  | none =>
      refine .inl ⟨by simp, db, rfl, rfl, rfl, ?_⟩
      simp [keptReleases, addedReleases, hassoc]
  | some association =>
      let cleared : RuleDb := (removeAssociations id db).2
      -- what is found does not depend on the association tables
      have hfoundIff : AssociationsFound cleared association ↔ AssociationsFound db association :=
        ⟨fun h => ⟨h.releases, h.deviceTypes, h.devices⟩,
          fun h => ⟨h.releases, h.deviceTypes, h.devices⟩⟩
      have hupdate : updateGivenAssociations id (some association) db =
          createAssociations id association cleared := rfl
      rw [hupdate]
      rcases createAssociations_run id association cleared with
        ⟨hfound, db', hcreate, hassociated⟩ | ⟨hnot, e, db', hcreate⟩
      · refine .inl ⟨?_, db', hcreate, hassociated.rules, hassociated.releases, ?_⟩
        · intro a ha
          rw [← Option.some.inj ha]
          exact hfoundIff.mp hfound
        · rw [hassociated.ruleReleases]
          simp only [keptReleases, addedReleases, hassoc]
          rfl
      · exact .inr ⟨⟨association, rfl, fun h => hnot (hfoundIff.mpr h)⟩, e, db', hcreate⟩

/-- **Spec.** `updateRule` succeeds exactly when its request is accepted; it replaces the
associations where the request has any, and leaves them alone where it has none. -/
theorem updateRule_run (env : RuleEnv) (id : String) (dto : UpdateRuleDto) (db : RuleDb) :
    (UpdateAccepted env db id dto ∧ ∃ loaded db', updateRule env id dto db = (.ok loaded, db') ∧
      loaded.rule.id = id ∧ Retargeted id (keptReleases db id dto) (addedReleases db dto) db db') ∨
    (¬ UpdateAccepted env db id dto ∧ ∃ e db', updateRule env id dto db = (.error e, db')) := by
  unfold updateRule
  cases hfind : Rows.findKey Rule.id id db.rules with
  | none =>
      have hrun := findOneById_run id db
      rw [hfind] at hrun
      rw [bind_run_error hrun]
      refine .inr ⟨fun haccepted => ?_, _, db, rfl⟩
      obtain ⟨rule, hrule, -⟩ := haccepted.stored
      rw [hfind] at hrule
      cases hrule
  | some rule =>
      have hid : rule.id = id := (Rows.findKey_some hfind).2
      have hrun := findOneById_run id db
      rw [hfind] at hrun
      rw [bind_run_ok hrun]
      have hstate := validateUpdatedRule_state env dto.rule db
      rcases hv : validateUpdatedRule env dto.rule db with ⟨r, db₁⟩
      rw [hv] at hstate
      simp only at hstate
      subst hstate
      cases r with
      | error e =>
          rw [bind_run_error hv]
          refine .inr ⟨fun haccepted => ?_, e, db₁, rfl⟩
          have hvalid := haccepted.valid
          rw [hv] at hvalid
          cases hvalid
      | ok _ =>
          rw [bind_run_ok hv]
          by_cases hnull : (updatedRule env rule dto).rule = .null
          · have hsave : ∃ e, saveRule (updatedRule env rule dto) db₁ = (.error e, db₁) := by
              unfold saveRule
              rw [if_pos hnull]
              exact ⟨_, rfl⟩
            obtain ⟨e, hsave⟩ := hsave
            refine .inr ⟨fun haccepted => ?_, e, db₁, bind_run_error hsave _⟩
            obtain ⟨rule', hrule', hne⟩ := haccepted.stored
            rw [hfind, Option.some.injEq] at hrule'
            subst hrule'
            exact hne hnull
          · let saved : RuleDb := { db₁ with
              rules := Rows.save Rule.id (updatedRule env rule dto) db₁.rules }
            have hstored : ∃ rule', Rows.findKey Rule.id id saved.rules = some rule' ∧
                rule'.id = id := by
              have hmem : updatedRule env rule dto ∈ saved.rules := Rows.mem_save.mpr (.inl rfl)
              have hfound := findKey_of_mem hmem
              rwa [updatedRule_id, hid] at hfound
            obtain ⟨rule', hrule', hid'⟩ := hstored
            have hsave : saveRule (updatedRule env (load db₁ rule).rule dto) db₁ = (.ok (), saved) :=
              saveRule_run hnull db₁
            rw [bind_run_ok hsave, show (load db₁ rule).rule.id = id from hid]
            rcases updateGivenAssociations_run id dto saved with
              ⟨hfound, db₂, hupdate, hrules, hretargeted⟩ | ⟨⟨a, ha, hnot⟩, e, db₂, hupdate⟩
            · have hlast : findOneById id db₂ = (.ok (load db₂ rule'), db₂) := by
                rw [findOneById_run, hrules, hrule']
              rw [bind_run_ok hupdate]
              refine .inl ⟨⟨⟨rule, hfind, hnull⟩, by rw [hv], fun a ha => ?_⟩, _, db₂, hlast, hid',
                hretargeted.releases, hretargeted.ruleReleases⟩
              exact ⟨(hfound a ha).releases, (hfound a ha).deviceTypes, (hfound a ha).devices⟩
            · rw [bind_run_error hupdate]
              refine .inr ⟨fun haccepted => hnot ?_, e, db₂, rfl⟩
              have hfound := haccepted.found a ha
              exact ⟨hfound.releases, hfound.deviceTypes, hfound.devices⟩

end UploadService
