import UploadService.Lib.Runs
import UploadService.Lib.TtlCache
import UploadService.Release.ObjectKeys

/-!
# The project cache of the config service

The config service keeps what project management answers for thirty seconds, under the identifier
that was asked for, under the id of the project and, where the whole project was asked for, under
its name and type. Calls overlap: a call that finds no entry sends a request and writes the cache
when the reply comes, so an old reply can replace a newer entry, and the registry of the projects
changes meanwhile.

`CacheWorld` is one process with the requests on their way. What an entry holds is told from the
run: it was registered in a state that the run went through (`Known`).

Main results:

- `answers_recent`: what a call is answered is a project it names, registered at most thirty
  seconds and the delay of a reply before;
- `answers_agree`: where the registry was the same all that time, it is the project that project
  management itself would give now.
-/

namespace UploadService

/-- `PROJECT_CACHE_TTL_MS`. -/
def projectCacheTtlMs : ℕ := 30000

abbrev CachedProject : Type := TtlCache.Entry Project

/-- A call of `getProjectByIdentifier` or `getProjectByNameAndType`. -/
inductive ProjectCall where
  | byIdentifier (identifier : Identifier)
  | byNameAndType (name : String) (projectType : ProjectType)
  deriving DecidableEq, Repr

/-- How project management answers from its registry; `GET_PROJECTS` gives a page. -/
structure ProjectManagement where
  projectByIdentifier : List Project → Identifier → Option Project
  projects : List Project → String → ProjectType → List Project

namespace ProjectCall

def idKey (text : String) : String := "id:" ++ text

def nameKey (name : String) (projectType : ProjectType) : String :=
  "name:" ++ name ++ ":" ++ projectType.toText

def cacheKey : ProjectCall → String
  | byIdentifier identifier => idKey identifier.toText
  | byNameAndType name projectType => nameKey name projectType

/-- The project of a reply: the one of the identifier, or the first one of the page. -/
def reply (pm : ProjectManagement) (registry : List Project) : ProjectCall → Option Project
  | byIdentifier identifier => pm.projectByIdentifier registry identifier
  | byNameAndType name projectType => (pm.projects registry name projectType).head?

/-- What the call makes of a reply: a project of another type is none. -/
def accept : ProjectCall → Option Project → Option Project
  | byIdentifier _, reply => reply
  | byNameAndType _ projectType, reply => reply.filter fun p => p.projectType = projectType

/-- The keys under which the call files a project. -/
def keysOf (call : ProjectCall) (project : Project) : List String :=
  match call with
  | byIdentifier _ =>
      [call.cacheKey, idKey (toString project.id)] ++
        if project.name = "" then [] else [nameKey project.name project.projectType]
  | byNameAndType _ _ => [call.cacheKey, idKey (toString project.id)]

/-- The cache after the reply; no project is not kept. -/
def store (call : ProjectCall) (project : Option Project) (now : ℕ)
    (cache : List (String × CachedProject)) : List (String × CachedProject) :=
  match project with
  | some project => TtlCache.file ⟨project, now + projectCacheTtlMs⟩ (call.keysOf project) cache
  | none => cache

/-- The project is one that the call asks for. -/
def Names : ProjectCall → Project → Prop
  | byIdentifier identifier, p => toString p.id = identifier.toText ∨ p.name = identifier.toText
  | byNameAndType name projectType, p => p.name = name ∧ p.projectType = projectType

end ProjectCall

/-- What the requests of the cache rely on: an identifier is answered by a registered project with
that id or name, and a page lists registered projects of the name that was asked for. -/
structure ProjectManagement.Sound (pm : ProjectManagement) : Prop where
  identified : ∀ registry identifier p, pm.projectByIdentifier registry identifier = some p →
    p ∈ registry ∧ (toString p.id = identifier.toText ∨ p.name = identifier.toText)
  listed : ∀ registry name projectType, ∀ p ∈ pm.projects registry name projectType,
    p ∈ registry ∧ p.name = name

/-- A registered project is found under its id and its name, and a page has the type that was
asked for. -/
structure ProjectManagement.Complete (pm : ProjectManagement) : Prop where
  identified : ∀ registry identifier, ∀ p ∈ registry,
    toString p.id = identifier.toText ∨ p.name = identifier.toText →
      pm.projectByIdentifier registry identifier ≠ none
  listed : ∀ registry name projectType, ∀ p ∈ registry, p.name = name → p.projectType = projectType →
    pm.projects registry name projectType ≠ []
  typed : ∀ registry name projectType, ∀ p ∈ pm.projects registry name projectType,
    p.projectType = projectType

/-- No call names two projects of the registry. -/
def Unambiguous (registry : List Project) : Prop :=
  ∀ call : ProjectCall, ∀ p ∈ registry, ∀ q ∈ registry, call.Names p → call.Names q → p = q

/-- A request on its way. The reply is none where the RPC failed; its moment is ghost. -/
structure ProjectRequest where
  call : ProjectCall
  reply : Option (Option Project × ℕ)

structure CacheWorld where
  registry : List Project
  clock : ℕ
  projectCache : List (String × CachedProject)
  requests : List ProjectRequest

structure ProjectAnswer where
  call : ProjectCall
  project : Option Project
  time : ℕ
  deriving DecidableEq

inductive CacheEvent where
  | wait (ms : ℕ)
  /-- project management changes its registry -/
  | register (registry : List Project)
  | call (call : ProjectCall)
  /-- project management reads its registry for a request, or the RPC fails -/
  | serve (i : ℕ) (fails : Bool)
  | deliver (i : ℕ)

namespace CacheWorld

open ProjectCall

def start (registry : List Project) : CacheWorld := ⟨registry, 0, [], []⟩

def step (pm : ProjectManagement) (w : CacheWorld) : CacheEvent → CacheWorld
  | .wait ms => { w with clock := w.clock + ms }
  | .register registry => { w with registry }
  | .call call =>
      match TtlCache.find w.projectCache call.cacheKey w.clock with
      | some _ => w
      | none => { w with requests := w.requests ++ [⟨call, none⟩] }
  | .serve i fails =>
      match w.requests[i]? with
      | some ⟨call, none⟩ =>
          let reply := if fails then none else call.reply pm w.registry
          { w with requests := w.requests.set i ⟨call, some (reply, w.clock)⟩ }
      | _ => w
  | .deliver i =>
      match w.requests[i]? with
      | some ⟨call, some (reply, _)⟩ =>
          { w with
            projectCache := call.store (call.accept reply) w.clock w.projectCache
            requests := w.requests.eraseIdx i }
      | _ => w

/-- What the event answers to a call. -/
def answers (w : CacheWorld) : CacheEvent → List ProjectAnswer
  | .call call =>
      match TtlCache.find w.projectCache call.cacheKey w.clock with
      | some project => [⟨call, some project, w.clock⟩]
      | none => []
  | .deliver i =>
      match w.requests[i]? with
      | some ⟨call, some (reply, _)⟩ => [⟨call, call.accept reply, w.clock⟩]
      | _ => []
  | _ => []

/-- When the registry was read for a request. -/
def readAt (w : CacheWorld) (i : ℕ) : Option ℕ :=
  (w.requests[i]?.bind ProjectRequest.reply).map Prod.snd

/-- A reply arrives at most `delay` after the registry was read for it. -/
def Prompt (delay : ℕ) (w : CacheWorld) : CacheEvent → Prop
  | .deliver i => ∀ read ∈ w.readAt i, w.clock ≤ read + delay
  | _ => True

instance (delay : ℕ) (w : CacheWorld) : DecidablePred (Prompt delay w)
  | .deliver i => inferInstanceAs (Decidable (∀ read ∈ w.readAt i, w.clock ≤ read + delay))
  | .wait _ => .isTrue trivial
  | .register _ => .isTrue trivial
  | .call _ => .isTrue trivial
  | .serve _ _ => .isTrue trivial

end CacheWorld

/-! ### Keys -/

namespace ProjectCall

theorem colon_not_mem_toText (projectType : ProjectType) : ':' ∉ projectType.toText.toList := by
  cases projectType <;> decide

theorem toText_injective {t u : ProjectType} (h : t.toText = u.toText) : t = u := by
  cases t <;> cases u <;> first | rfl | exact absurd h (by decide)

theorem idKey_injective {s t : String} (h : idKey s = idKey t) : s = t := by
  have hlist := congrArg String.toList h
  unfold idKey at hlist
  rw [String.toList_append, String.toList_append] at hlist
  exact String.toList_inj.mp (List.append_cancel_left hlist)

theorem idKey_ne_nameKey (s name : String) (projectType : ProjectType) :
    idKey s ≠ nameKey name projectType := by
  intro h
  have hlist := congrArg (fun t : String => t.toList.head?) h
  simp [idKey, nameKey] at hlist

/-- No type has a colon, so the last colon of a key ends the name. -/
theorem nameKey_injective {m n : String} {t u : ProjectType} (h : nameKey m t = nameKey n u) :
    m = n ∧ t = u := by
  have hlist := congrArg (fun s : String => s.toList.reverse) h
  simp only [nameKey, String.toList_append, List.reverse_append] at hlist
  have hcolon : ":".toList.reverse = [':'] := rfl
  rw [hcolon, List.singleton_append, List.singleton_append] at hlist
  have hnone : ∀ t : ProjectType, ':' ∉ t.toText.toList.reverse := by
    intro t hmem
    exact colon_not_mem_toText t (List.mem_reverse.mp hmem)
  obtain ⟨htype, hname⟩ := (FileRequest.append_cons_inj_iff (hnone t) (hnone u)).mp hlist
  have hname' := List.reverse_injective (List.append_cancel_right hname)
  exact ⟨String.toList_inj.mp hname',
    toText_injective (String.toList_inj.mp (List.reverse_injective htype))⟩

/-- **Spec.** Calls with one key ask for the same projects. -/
theorem names_of_cacheKey {c d : ProjectCall} (h : c.cacheKey = d.cacheKey) {p : Project}
    (hp : c.Names p) : d.Names p := by
  cases c with
  | byIdentifier x =>
      cases d with
      | byIdentifier y =>
          have htext : x.toText = y.toText := idKey_injective h
          show toString p.id = y.toText ∨ p.name = y.toText
          rw [← htext]
          exact hp
      | byNameAndType n u => exact absurd h (idKey_ne_nameKey _ _ _)
  | byNameAndType m t =>
      cases d with
      | byIdentifier y => exact absurd h.symm (idKey_ne_nameKey _ _ _)
      | byNameAndType n u =>
          obtain ⟨rfl, rfl⟩ := nameKey_injective h
          exact hp

/-- **Spec.** A project that the call asks for is asked for by every call whose key it is filed
under. -/
theorem names_of_mem_keysOf {c d : ProjectCall} {p : Project} (hp : c.Names p)
    (hkey : d.cacheKey ∈ c.keysOf p) : d.Names p := by
  have hown : ∀ e : ProjectCall, e.Names p → d.cacheKey = e.cacheKey → d.Names p :=
    fun e he h => names_of_cacheKey h.symm he
  have hid : (byIdentifier (.id p.id)).Names p := .inl rfl
  cases c with
  | byIdentifier x =>
      rcases List.mem_append.mp hkey with hfirst | hname
      · rcases List.mem_cons.mp hfirst with heq | hrest
        · exact hown _ hp heq
        · exact hown _ hid (List.mem_singleton.mp hrest)
      · split at hname
        · cases hname
        · exact hown (byNameAndType p.name p.projectType) ⟨rfl, rfl⟩ (List.mem_singleton.mp hname)
  | byNameAndType n t =>
      rcases List.mem_cons.mp hkey with heq | hrest
      · exact hown _ hp heq
      · exact hown _ hid (List.mem_singleton.mp hrest)

/-- **Spec.** What a call accepts is registered and what it asks for. -/
theorem names_of_accept {pm : ProjectManagement} (hpm : pm.Sound) {registry : List Project}
    {call : ProjectCall} {p : Project} (h : call.accept (call.reply pm registry) = some p) :
    p ∈ registry ∧ call.Names p := by
  cases call with
  | byIdentifier x => exact hpm.identified registry x p h
  | byNameAndType name projectType =>
      obtain ⟨hreply, htype⟩ := Option.filter_eq_some_iff.mp h
      obtain ⟨hmem, hname⟩ := hpm.listed registry name projectType p (List.mem_of_head? hreply)
      exact ⟨hmem, hname, of_decide_eq_true htype⟩

/-- **Spec.** The one registered project that a call names is what project management answers. -/
theorem accept_of_names {pm : ProjectManagement} (hpm : pm.Sound) (hall : pm.Complete)
    {registry : List Project} (hone : Unambiguous registry) {call : ProjectCall} {p : Project}
    (hp : p ∈ registry) (hnames : call.Names p) : call.accept (call.reply pm registry) = some p := by
  have hsome : call.accept (call.reply pm registry) ≠ none := by
    cases call with
    | byIdentifier x => exact hall.identified registry x p hp hnames
    | byNameAndType name projectType =>
        have hpage := hall.listed registry name projectType p hp hnames.1 hnames.2
        obtain ⟨q, rest, hq⟩ := List.exists_cons_of_ne_nil hpage
        have htype := hall.typed registry name projectType q (by rw [hq]; exact List.mem_cons_self)
        show ((pm.projects registry name projectType).head?.filter _) ≠ none
        rw [hq, List.head?_cons, Option.filter_some, if_pos (decide_eq_true htype)]
        exact Option.some_ne_none q
  obtain ⟨q, hq⟩ := Option.ne_none_iff_exists'.mp hsome
  obtain ⟨hmem, hqnames⟩ := names_of_accept hpm hq
  rw [hq, hone call q hmem p hp hqnames hnames]

end ProjectCall

/-! ### Runs -/

namespace CacheWorld

open ProjectCall Runs

section Runs

variable (pm : ProjectManagement) (registry : List Project)

/-- The state of the process after the events. -/
def after (events : List CacheEvent) : CacheWorld := run (step pm) (start registry) events

/-- The project was registered at the moment, in a state before the end of the events. -/
def Registered (events : List CacheEvent) (t : ℕ) (p : Project) : Prop :=
  ∃ done, done <+: events ∧ (after pm registry done).clock = t ∧
    p ∈ (after pm registry done).registry

/-- What the run tells of a key: a project that was registered, and that every call with the key
asks for. -/
def Known (events : List CacheEvent) (t : ℕ) (key : String) (p : Project) : Prop :=
  Registered pm registry events t p ∧ ∀ call : ProjectCall, call.cacheKey = key → call.Names p

/-- The cache and the replies on their way hold what the run tells. -/
structure Traced (delay : ℕ) (events : List CacheEvent) (w : CacheWorld) : Prop where
  reached : w = after pm registry events
  cached : TtlCache.Backed (Known pm registry events) (projectCacheTtlMs + delay) w.projectCache
  replied : ∀ r ∈ w.requests, ∀ reply read, r.reply = some (reply, read) →
    ∀ p, r.call.accept reply = some p → Registered pm registry events read p ∧ r.call.Names p

end Runs

variable {pm : ProjectManagement} {registry : List Project} {delay : ℕ}

theorem Registered.mono {done events : List CacheEvent} {t : ℕ} {p : Project}
    (h : Registered pm registry done t p) (hearlier : done <+: events) :
    Registered pm registry events t p := by
  obtain ⟨before, hbefore, hclock, hp⟩ := h
  exact ⟨before, hbefore.trans hearlier, hclock, hp⟩

theorem Known.mono {done events : List CacheEvent} {t : ℕ} {key : String} {p : Project}
    (h : Known pm registry done t key p) (hearlier : done <+: events) :
    Known pm registry events t key p := ⟨h.1.mono hearlier, h.2⟩

theorem readAt_eq {w : CacheWorld} {i : ℕ} {call : ProjectCall} {reply : Option Project} {read : ℕ}
    (hi : w.requests[i]? = some ⟨call, some (reply, read)⟩) : w.readAt i = some read := by
  unfold readAt
  rw [hi]
  rfl

theorem clock_le_step (w : CacheWorld) (e : CacheEvent) : w.clock ≤ (step pm w e).clock := by
  cases e with
  | wait ms => exact Nat.le_add_right _ _
  | register registry => exact Nat.le_refl _
  | call call =>
      unfold step
      dsimp only
      split <;> exact Nat.le_refl _
  | serve i fails =>
      unfold step
      dsimp only
      split <;> exact Nat.le_refl _
  | deliver i =>
      unfold step
      dsimp only
      split <;> exact Nat.le_refl _

theorem clock_le_run (w : CacheWorld) (events : List CacheEvent) :
    w.clock ≤ (run (step pm) w events).clock := by
  induction events generalizing w with
  | nil => exact Nat.le_refl _
  | cons e events ih => exact (clock_le_step w e).trans (ih _)

theorem clock_le_after {done events : List CacheEvent} (h : done <+: events) :
    (after pm registry done).clock ≤ (after pm registry events).clock := by
  obtain ⟨rest, rfl⟩ := h
  unfold after
  rw [run_append]
  exact clock_le_run _ rest

theorem after_snoc (events : List CacheEvent) (e : CacheEvent) :
    after pm registry (events ++ [e]) = step pm (after pm registry events) e := by
  unfold after
  rw [run_append]
  rfl

/-- What is known after the events is known after one more. -/
theorem Traced.grow {events : List CacheEvent} {w : CacheWorld}
    (h : Traced pm registry delay events w) {e : CacheEvent}
    (hcache : TtlCache.Backed (Known pm registry events) (projectCacheTtlMs + delay)
      (step pm w e).projectCache)
    (hrequests : ∀ r ∈ (step pm w e).requests, r ∈ w.requests ∨
      ∀ reply read, r.reply = some (reply, read) → ∀ p, r.call.accept reply = some p →
        Registered pm registry events read p ∧ r.call.Names p) :
    Traced pm registry delay (events ++ [e]) (step pm w e) where
  reached := by rw [after_snoc, ← h.reached]
  cached := hcache.mono fun _ _ _ hknown => hknown.mono (List.prefix_append _ _)
  replied := by
    intro r hr reply read hreply p hp
    have hold : Registered pm registry events read p ∧ r.call.Names p := by
      rcases hrequests r hr with hmem | hnew
      · exact h.replied r hmem reply read hreply p hp
      · exact hnew reply read hreply p hp
    exact ⟨hold.1.mono (List.prefix_append _ _), hold.2⟩

/-- **Spec.** A reply that is delivered in time is filed as what was known when it was read. -/
theorem Traced.deliver {events : List CacheEvent} {w : CacheWorld}
    (h : Traced pm registry delay events w) {i : ℕ} {call : ProjectCall}
    {reply : Option Project} {read : ℕ} (hi : w.requests[i]? = some ⟨call, some (reply, read)⟩)
    (hprompt : w.clock ≤ read + delay) :
    TtlCache.Backed (Known pm registry events) (projectCacheTtlMs + delay)
      (call.store (call.accept reply) w.clock w.projectCache) := by
  cases haccept : call.accept reply with
  | none => exact h.cached
  | some p =>
      obtain ⟨hregistered, hnames⟩ :=
        h.replied _ (List.mem_of_getElem? hi) reply read rfl p haccept
      refine h.cached.file (t := read) (fun key hkey => ⟨hregistered, ?_⟩) ?_
      · intro d hd
        rw [← hd] at hkey
        exact names_of_mem_keysOf hnames hkey
      · show w.clock + projectCacheTtlMs ≤ read + (projectCacheTtlMs + delay)
        omega

/-- **Step.** Every event keeps the trace. -/
theorem Traced.step (hpm : pm.Sound) {events : List CacheEvent} {w : CacheWorld}
    (h : Traced pm registry delay events w) {e : CacheEvent} (hprompt : Prompt delay w e) :
    Traced pm registry delay (events ++ [e]) (w.step pm e) := by
  cases e with
  | wait ms => exact h.grow h.cached fun r hr => .inl hr
  | register registry => exact h.grow h.cached fun r hr => .inl hr
  | call call =>
      refine h.grow ?_ fun r hr => ?_
      · unfold CacheWorld.step
        dsimp only
        split <;> exact h.cached
      · unfold CacheWorld.step at hr
        dsimp only at hr
        split at hr
        · exact .inl hr
        · rcases List.mem_append.mp hr with hold | hnew
          · exact .inl hold
          · rw [List.mem_singleton.mp hnew]
            refine .inr fun reply read hreply => ?_
            cases hreply
  | serve i fails =>
      refine h.grow ?_ fun r hr => ?_
      · unfold CacheWorld.step
        dsimp only
        split <;> exact h.cached
      · unfold CacheWorld.step at hr
        dsimp only at hr
        split at hr
        · next call hi =>
            rcases List.mem_or_eq_of_mem_set hr with hold | rfl
            · exact .inl hold
            · refine .inr fun reply read hreply p hp => ?_
              obtain ⟨rfl, rfl⟩ := Prod.mk.inj (Option.some.inj hreply)
              cases fails with
              | true =>
                  cases call <;> cases hp
              | false =>
                  obtain ⟨hp, hnames⟩ := names_of_accept hpm hp
                  refine ⟨⟨events, List.prefix_refl _, ?_, ?_⟩, hnames⟩
                  · rw [← h.reached]
                  · rw [← h.reached]
                    exact hp
        · exact .inl hr
  | deliver i =>
      refine h.grow ?_ fun r hr => .inl ?_
      · unfold CacheWorld.step
        dsimp only
        split
        · next call reply read hi => exact h.deliver hi (hprompt read (readAt_eq hi))
        · exact h.cached
      · unfold CacheWorld.step at hr
        dsimp only at hr
        split at hr
        · exact List.mem_of_mem_eraseIdx hr
        · exact hr

theorem traced_after (hpm : pm.Sound) {events : List CacheEvent}
    (hprompt : Along (CacheWorld.step pm) (Prompt delay) (start registry) events) :
    Traced pm registry delay events (after pm registry events) := by
  have hstart : Traced pm registry delay [] (start registry) := by
    refine ⟨rfl, TtlCache.backed_nil, fun r hr => ?_⟩
    cases hr
  exact history_along (J := Traced pm registry delay) (fun _ _ _ h hC => h.step hpm hC) hstart hprompt

/-- **Spec.** What one event answers was registered no longer before than an entry lives. -/
theorem Traced.answered {events : List CacheEvent} {w : CacheWorld}
    (h : Traced pm registry delay events w) {e : CacheEvent} (hprompt : Prompt delay w e)
    {a : ProjectAnswer} (ha : a ∈ w.answers e) {p : Project} (hp : a.project = some p) :
    a.time = w.clock ∧ a.call.Names p ∧
      ∃ t, Registered pm registry events t p ∧ w.clock ≤ t + (projectCacheTtlMs + delay) := by
  cases e with
  | wait ms => cases ha
  | register registry => cases ha
  | serve i fails => cases ha
  | call call =>
      unfold answers at ha
      dsimp only at ha
      split at ha
      · next q hfind =>
          obtain rfl := List.mem_singleton.mp ha
          obtain rfl := Option.some.inj hp
          obtain ⟨t, ⟨hregistered, hnames⟩, hlt⟩ := h.cached.known_of_find hfind
          exact ⟨rfl, hnames call rfl, t, hregistered, hlt.le⟩
      · cases ha
  | deliver i =>
      unfold answers at ha
      dsimp only at ha
      split at ha
      · next call reply read hi =>
          obtain rfl := List.mem_singleton.mp ha
          obtain ⟨hregistered, hnames⟩ := h.replied _ (List.mem_of_getElem? hi) reply read rfl p hp
          have hdelay : w.clock ≤ read + delay := hprompt read (readAt_eq hi)
          exact ⟨rfl, hnames, read, hregistered, by omega⟩
      · cases ha

/-- What a call is answered it names, and it was registered at most an entry's life and the delay of
a reply before. -/
theorem registered_of_answer (hpm : pm.Sound) {events : List CacheEvent}
    (hprompt : Along (CacheWorld.step pm) (Prompt delay) (start registry) events)
    {a : ProjectAnswer} (ha : a ∈ outputs (CacheWorld.step pm) answers (start registry) events)
    {p : Project} (hp : a.project = some p) :
    a.call.Names p ∧ ∃ t, Registered pm registry events t p ∧ t ≤ a.time ∧
      a.time ≤ t + (projectCacheTtlMs + delay) := by
  obtain ⟨done, e, rest, rfl, hout⟩ := exists_of_mem_outputs ha
  obtain ⟨hdone, hrest⟩ := hprompt.of_append
  obtain ⟨htime, hnames, t, hregistered, hage⟩ :=
    (traced_after hpm hdone).answered hrest.1 hout hp
  refine ⟨hnames, t, hregistered.mono (List.prefix_append _ _), ?_, ?_⟩
  · obtain ⟨before, hbefore, rfl, -⟩ := hregistered
    rw [htime]
    exact clock_le_after hbefore
  · rw [htime]
    exact hage

/-- **Main result.** In every run, a project that answers a call is one that the call names, and it
was registered at most thirty seconds and the delay of a reply before. -/
theorem answers_recent (hpm : pm.Sound) {events : List CacheEvent}
    (hprompt : Along (CacheWorld.step pm) (Prompt delay) (start registry) events) :
    ∀ a ∈ outputs (CacheWorld.step pm) answers (start registry) events, ∀ p, a.project = some p →
      a.call.Names p ∧ ∃ t, Registered pm registry events t p ∧ t ≤ a.time ∧
        a.time ≤ t + (projectCacheTtlMs + delay) :=
  fun _ ha _ hp => registered_of_answer hpm hprompt ha hp

section Example

/-- Project management with plain searches. -/
def plainManagement : ProjectManagement where
  projectByIdentifier registry identifier :=
    registry.find? fun p => toString p.id == identifier.toText || p.name == identifier.toText
  projects registry name projectType :=
    registry.filter fun p => p.name == name && p.projectType == projectType

theorem plainManagement_sound : plainManagement.Sound where
  identified := by
    intro registry identifier p h
    have hmatches := List.find?_some h
    simp only [Bool.or_eq_true, beq_iff_eq] at hmatches
    exact ⟨List.mem_of_find?_eq_some h, hmatches⟩
  listed := by
    intro registry name projectType p h
    obtain ⟨hmem, hmatches⟩ := List.mem_filter.mp h
    simp only [Bool.and_eq_true, beq_iff_eq] at hmatches
    exact ⟨hmem, hmatches.1⟩

theorem plainManagement_complete : plainManagement.Complete where
  identified := by
    intro registry identifier p hp hnames hnone
    have hmiss := List.find?_eq_none.mp hnone p hp
    simp only [Bool.or_eq_true, beq_iff_eq] at hmiss
    exact hmiss hnames
  listed := by
    intro registry name projectType p hp hname htype
    exact List.ne_nil_of_mem (List.mem_filter.mpr ⟨hp, by simp [hname, htype]⟩)
  typed := by
    intro registry name projectType p h
    obtain ⟨-, hmatches⟩ := List.mem_filter.mp h
    simp only [Bool.and_eq_true, beq_iff_eq] at hmatches
    exact hmatches.2

def mapsProject : Project := ⟨7, "maps", .configMap⟩

/-- A call by id fills the entry that a call by name finds just before it expires. -/
def filledThenFound : List CacheEvent :=
  [.call (.byIdentifier (.id 7)), .serve 0 false, .wait 40, .deliver 0, .wait 29999,
    .call (.byNameAndType "maps" .configMap)]

end Example

theorem answers_recent_found :
    outputs (CacheWorld.step plainManagement) answers (start [mapsProject]) filledThenFound =
      [⟨.byIdentifier (.id 7), some mapsProject, 40⟩,
        ⟨.byNameAndType "maps" .configMap, some mapsProject, 30039⟩] ∧
    ∀ a ∈ outputs (CacheWorld.step plainManagement) answers (start [mapsProject]) filledThenFound,
      ∀ p, a.project = some p → a.call.Names p ∧
        ∃ t, Registered plainManagement [mapsProject] filledThenFound t p ∧ t ≤ a.time ∧
          a.time ≤ t + (projectCacheTtlMs + 40) :=
  ⟨by decide +kernel, answers_recent plainManagement_sound (by decide +kernel)⟩

/-- The registry is the same in every state of the run that an answer of the moment may come from. -/
def Unchanged (pm : ProjectManagement) (registry : List Project) (delay : ℕ)
    (events : List CacheEvent) (now : List Project) (time : ℕ) : Prop :=
  ∀ done, done <+: events → time ≤ (after pm registry done).clock + (projectCacheTtlMs + delay) →
    (after pm registry done).registry = now

/-- **Main result.** Where the registry has not changed for as long as an entry lives, the cache
answers what project management would answer now. -/
theorem answers_agree (hpm : pm.Sound) (hall : pm.Complete) {events : List CacheEvent}
    (hprompt : Along (CacheWorld.step pm) (Prompt delay) (start registry) events)
    {now : List Project} (hone : Unambiguous now) :
    ∀ a ∈ outputs (CacheWorld.step pm) answers (start registry) events,
      Unchanged pm registry delay events now a.time → ∀ p, a.project = some p →
        a.call.accept (a.call.reply pm now) = some p := by
  intro a ha hsame p hp
  obtain ⟨hnames, t, ⟨done, hdone, rfl, hmem⟩, -, hage⟩ := registered_of_answer hpm hprompt ha hp
  rw [hsame done hdone hage] at hmem
  exact accept_of_names hpm hall hone hmem hnames

theorem answers_agree_found :
    (outputs (CacheWorld.step plainManagement) answers (start [mapsProject]) filledThenFound).length = 2 ∧
    ∀ a ∈ outputs (CacheWorld.step plainManagement) answers (start [mapsProject]) filledThenFound,
      ∀ p, a.project = some p →
        a.call.accept (a.call.reply plainManagement [mapsProject]) = some p := by
  have hone : Unambiguous [mapsProject] := by
    intro call p hp q hq _ _
    rw [List.mem_singleton.mp hp, List.mem_singleton.mp hq]
  have hsame : ∀ time, Unchanged plainManagement [mapsProject] 40 filledThenFound [mapsProject] time := by
    intro time done hdone _
    have hall : ∀ done ∈ filledThenFound.inits,
        (after plainManagement [mapsProject] done).registry = [mapsProject] := by
      decide +kernel
    exact hall done ((List.mem_inits done filledThenFound).mpr hdone)
  refine ⟨by decide +kernel, fun a ha => ?_⟩
  exact answers_agree plainManagement_sound plainManagement_complete (by decide +kernel) hone a ha
    (hsame a.time)

end CacheWorld

end UploadService
