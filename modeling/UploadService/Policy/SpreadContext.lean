import UploadService.Policy.Spread

/-!
# What a spread context holds

The three passes over a context write into one flat object: the dotted key of every leaf, then
the keys of the elements of the arrays.

Main results:

- `get?_arrayFieldsOf`: the array fields are the arrays of the normalized context;
- `spreadContext_eq`: the spread context, or the failure on a member that every object inherits;
- `get?_spread`: what the spread context holds where no two keys collide.
-/

namespace UploadService

namespace RuleEvaluationService

/-! ### Writes of distinct keys -/

section Writes

variable {β : Type}

/-- **Spec.** Writes of distinct keys are all read back. -/
theorem get?_setProperties {es : List (String × β)} (hnodup : (ObjectMap.keys es).Nodup)
    (o : List (String × β)) (k : String) :
    ObjectMap.get? (setProperties o es) k =
      (if k = "__proto__" then none else ObjectMap.get? es k).or (ObjectMap.get? o k) := by
  induction es generalizing o with
  | nil => simp [setProperties]
  | cons e es ih =>
      obtain ⟨hnot, hrest⟩ := List.nodup_cons.mp hnodup
      show ObjectMap.get? (setProperties (setProperty o e.1 e.2) es) k = _
      rw [ih hrest, get?_setProperty, ObjectMap.get?_cons]
      by_cases hk : k = e.1
      · have hnone : ObjectMap.get? es k = none := ObjectMap.get?_eq_none_iff.mpr (hk ▸ hnot)
        by_cases hproto : k = "__proto__"
        · simp [hproto, ← hk]
        · simp [hnone, ← hk, hproto]
      · have hk' : ¬ e.1 = k := fun h => hk h.symm
        simp [hk, hk']

theorem keys_setProperty_nodup {o : List (String × β)} (h : (ObjectMap.keys o).Nodup)
    (k : String) (v : β) : (ObjectMap.keys (setProperty o k v)).Nodup := by
  by_cases hproto : k = "__proto__"
  · unfold setProperty
    rw [if_pos hproto]
    exact h
  · by_cases hmem : k ∈ ObjectMap.keys o
    · have hhas : ObjectMap.has o k = true := by
        by_contra hnot
        exact ObjectMap.get?_eq_none_iff.mp (by simpa [ObjectMap.has] using hnot) hmem
      unfold setProperty
      rw [if_neg hproto, if_pos hhas, ObjectMap.keys_set hhas]
      exact h
    · rw [(keys_setProperty_of_new hproto hmem v).nodup_iff]
      exact List.nodup_cons.mpr ⟨hmem, h⟩

theorem keys_setProperties_nodup {o : List (String × β)} (h : (ObjectMap.keys o).Nodup)
    (es : List (String × β)) : (ObjectMap.keys (setProperties o es)).Nodup := by
  induction es generalizing o with
  | nil => exact h
  | cons e es ih => exact ih (keys_setProperty_nodup h e.1 e.2)

/-- What is written into an empty object. -/
theorem keys_written_nodup (es : List (String × β)) :
    (ObjectMap.keys (setProperties [] es)).Nodup :=
  keys_setProperties_nodup (o := []) List.nodup_nil es

/-- What is read was there or was written. -/
theorem get?_setProperties_cases {o es : List (String × β)} {k : String} {v : β}
    (h : ObjectMap.get? (setProperties o es) k = some v) :
    ObjectMap.get? o k = some v ∨ ((k, v) ∈ es ∧ k ≠ "__proto__") := by
  induction es generalizing o with
  | nil => exact .inl h
  | cons e es ih =>
      rcases ih h with hset | ⟨hmem, hproto⟩
      · rw [get?_setProperty] at hset
        split at hset
        · rename_i hk
          obtain ⟨rfl, hproto⟩ := hk
          obtain rfl := Option.some.inj hset
          exact .inr ⟨List.mem_cons_self, hproto⟩
        · exact .inl hset
      · exact .inr ⟨List.mem_cons_of_mem e hmem, hproto⟩

theorem get?_setProperty_ne_none {o : List (String × β)} {k : String}
    (h : ObjectMap.get? o k ≠ none) (e : String × β) :
    ObjectMap.get? (setProperty o e.1 e.2) k ≠ none := by
  rw [get?_setProperty]
  split
  · nofun
  · exact h

/-- What was there stays there. -/
theorem get?_setProperties_ne_none {o : List (String × β)} {k : String}
    (h : ObjectMap.get? o k ≠ none) (es : List (String × β)) :
    ObjectMap.get? (setProperties o es) k ≠ none := by
  induction es generalizing o with
  | nil => exact h
  | cons e es ih => exact ih (get?_setProperty_ne_none h e)

/-- **Spec.** A key is missing where no write was of it. -/
theorem get?_setProperties_eq_none_iff {es : List (String × β)} {k : String}
    (hk : k ≠ "__proto__") :
    ObjectMap.get? (setProperties [] es) k = none ↔ k ∉ ObjectMap.keys es := by
  have hwritten : ∀ o : List (String × β), k ∈ ObjectMap.keys es →
      ObjectMap.get? (setProperties o es) k ≠ none := by
    induction es with
    | nil => nofun
    | cons e es ih =>
        intro o hmem
        show ObjectMap.get? (setProperties (setProperty o e.1 e.2) es) k ≠ none
        rcases List.mem_cons.mp hmem with rfl | hmem
        · apply get?_setProperties_ne_none
          rw [get?_setProperty, if_pos ⟨rfl, hk⟩]
          nofun
        · exact ih _ hmem
  constructor
  · exact fun h hmem => hwritten [] hmem h
  · intro hmem
    cases h : ObjectMap.get? (setProperties [] es) k with
    | none => rfl
    | some v =>
        rcases get?_setProperties_cases h with hnil | ⟨hin, -⟩
        · cases hnil
        · exact absurd (List.mem_map_of_mem hin) hmem

theorem get?_proto (es : List (String × β)) :
    ObjectMap.get? (setProperties [] es) "__proto__" = none := by
  cases h : ObjectMap.get? (setProperties [] es) "__proto__" with
  | none => rfl
  | some v =>
      rcases get?_setProperties_cases h with hnil | ⟨-, hproto⟩
      · cases hnil
      · exact absurd rfl hproto

/-- Reading what a function makes of the values, where it makes something. -/
theorem get?_filterMap {γ : Type} {o : List (String × β)} (hnodup : (ObjectMap.keys o).Nodup)
    (f : β → Option γ) (k : String) :
    ObjectMap.get? (o.filterMap fun e => (f e.2).map fun c => (e.1, c)) k =
      (ObjectMap.get? o k).bind f := by
  induction o with
  | nil => rfl
  | cons e o ih =>
      obtain ⟨hnot, hrest⟩ := List.nodup_cons.mp hnodup
      rw [List.filterMap_cons, ObjectMap.get?_cons]
      cases hf : f e.2 with
      | none =>
          show ObjectMap.get? (o.filterMap _) k = _
          rw [ih hrest]
          by_cases hk : e.1 = k
          · have hnone : ObjectMap.get? o k = none := ObjectMap.get?_eq_none_iff.mpr (hk ▸ hnot)
            rw [if_pos hk, hnone]
            exact hf.symm
          · rw [if_neg hk]
      | some c =>
          show ObjectMap.get? ((e.1, c) :: o.filterMap _) k = _
          rw [ObjectMap.get?_cons, ih hrest]
          by_cases hk : e.1 = k
          · rw [if_pos hk, if_pos hk]
            exact hf.symm
          · rw [if_neg hk, if_neg hk]

theorem keys_filterMap_nodup {γ : Type} {o : List (String × β)} (hnodup : (ObjectMap.keys o).Nodup)
    (f : β → Option γ) :
    (ObjectMap.keys (o.filterMap fun e => (f e.2).map fun c => (e.1, c))).Nodup := by
  have hsub : (ObjectMap.keys (o.filterMap fun e => (f e.2).map fun c => (e.1, c))).Sublist
      (ObjectMap.keys o) := by
    clear hnodup
    induction o with
    | nil => exact List.Sublist.refl _
    | cons e o ih =>
        rw [List.filterMap_cons]
        cases f e.2 with
        | none => exact List.Sublist.cons _ ih
        | some c => exact List.Sublist.cons_cons _ ih
  exact List.Nodup.sublist hsub hnodup

end Writes

/-! ### The normalized context -/

/-- A context as `spreadArrayFields` sees it: flat, comma-separated texts as arrays. -/
def normalized (context : Object) : Object := normalizeArrayFields (flattenContext context)

theorem keys_normalized_nodup (context : Object) : (ObjectMap.keys (normalized context)).Nodup :=
  keys_written_nodup _

theorem get?_normalized_proto (context : Object) :
    ObjectMap.get? (normalized context) "__proto__" = none := get?_proto _

theorem ne_proto_of_mem_normalized {context : Object} {e : String × Value}
    (he : e ∈ normalized context) : e.1 ≠ "__proto__" := by
  intro hproto
  have hread := ObjectMap.get?_of_mem (keys_normalized_nodup context) he
  rw [hproto, get?_normalized_proto] at hread
  cases hread

/-- **Spec.** The array fields are the arrays of the context that are not empty. -/
theorem get?_arrayFieldsOf {context : Object} (k : String) :
    ObjectMap.get? (arrayFieldsOf (normalized context)) k =
      (ObjectMap.get? (normalized context) k).bind elements? := by
  have hnodup := keys_normalized_nodup context
  unfold arrayFieldsOf
  rw [get?_setProperties (keys_filterMap_nodup hnodup elements?), get?_filterMap hnodup]
  split
  · rename_i hproto
    rw [hproto, get?_normalized_proto]
    rfl
  · simp

theorem arrayFieldsOf_isEmpty {context : Object} :
    (arrayFieldsOf (normalized context)).isEmpty = true ↔
      ∀ e ∈ normalized context, elements? e.2 = none := by
  have hnodup := keys_normalized_nodup context
  constructor
  · intro hempty e he
    have hread := @get?_arrayFieldsOf context e.1
    rw [List.isEmpty_iff.mp hempty, ObjectMap.get?_of_mem hnodup he] at hread
    exact hread.symm
  · intro hnone
    rw [List.isEmpty_iff, List.eq_nil_iff_forall_not_mem]
    intro e he
    have hread := ObjectMap.get?_of_mem (keys_written_nodup _) he
    rw [show setProperties [] _ = arrayFieldsOf (normalized context) from rfl,
      get?_arrayFieldsOf] at hread
    obtain ⟨v, hv, helements⟩ := Option.bind_eq_some_iff.mp hread
    rw [hnone _ (ObjectMap.mem_of_get? hv)] at helements
    cases helements

/-! ### Spreading -/

/-- The keys that an entry of the context is given. -/
def entrySpread (e : String × Value) : Object :=
  match elements? e.2 with
  | some xs => elementEntries e.1 xs
  | none => [e]

/-- A context with each array written out as its elements. -/
def spreadEntries (o : Object) : Object := o.flatMap entrySpread

/-- No entry beside the arrays has the name of a member that every object inherits. -/
def NamesOwn (o : Object) : Prop :=
  ∀ e ∈ o, elements? e.2 = none → ObjectMap.get? inheritedMembers e.1 = none

instance (o : Object) : Decidable (NamesOwn o) :=
  inferInstanceAs (Decidable (∀ e ∈ o, elements? e.2 = none → _))

theorem setProperties_append (o es fs : Object) :
    setProperties o (es ++ fs) = setProperties (setProperties o es) fs := List.foldl_append

/-- An entry of the context, looked up among its arrays. -/
theorem lookupField_entry {context : Object} {e : String × Value} (he : e ∈ normalized context) :
    lookupField (arrayFieldsOf (normalized context)) e.1 =
      match elements? e.2 with
      | some xs => some (.elements xs)
      | none => (ObjectMap.get? inheritedMembers e.1).map .inherited := by
  have hread : ObjectMap.get? (arrayFieldsOf (normalized context)) e.1 = elements? e.2 := by
    rw [get?_arrayFieldsOf, ObjectMap.get?_of_mem (keys_normalized_nodup context) he, Option.bind_some]
  unfold lookupField
  cases helements : elements? e.2 with
  | some xs => simp only [hread, helements]
  | none => simp only [hread, helements]

/-- **Run.** The loop of `spreadContext`, from any context written so far. -/
theorem spreadLoop_eq {fields : ArrayFields} {o : Object}
    (hfound : ∀ e ∈ o, lookupField fields e.1 =
      match elements? e.2 with
      | some xs => some (.elements xs)
      | none => (ObjectMap.get? inheritedMembers e.1).map .inherited) :
    ∀ start : Object, o.foldlM (fun transformed e =>
      match lookupField fields e.1 with
      | some (.elements items) =>
          (.ok (setProperties transformed (elementEntries e.1 items)) : Except TypeError Object)
      | some (.inherited _) => .error ⟨"arr.map is not a function"⟩
      | none => .ok (setProperty transformed e.1 e.2)) start =
      if NamesOwn o then .ok (setProperties start (spreadEntries o))
      else .error ⟨"arr.map is not a function"⟩ := by
  induction o with
  | nil => intro start; rfl
  | cons e o ih =>
      intro start
      have ih := ih fun e he => hfound e (List.mem_cons_of_mem _ he)
      have hcons : spreadEntries (e :: o) = entrySpread e ++ spreadEntries o := rfl
      have hown : NamesOwn (e :: o) ↔
          (elements? e.2 = none → ObjectMap.get? inheritedMembers e.1 = none) ∧ NamesOwn o :=
        List.forall_mem_cons
      rw [List.foldlM_cons, hfound e List.mem_cons_self, hcons, setProperties_append]
      unfold entrySpread
      cases hv : elements? e.2 with
      | some xs =>
          have hiff : NamesOwn (e :: o) ↔ NamesOwn o := by simp [hown, hv]
          simp only [hiff]
          exact ih _
      | none =>
          cases hname : ObjectMap.get? inheritedMembers e.1 with
          | some length =>
              have hnot : ¬ NamesOwn (e :: o) := by simp [hown, hv, hname]
              rw [if_neg hnot]
              rfl
          | none =>
              have hiff : NamesOwn (e :: o) ↔ NamesOwn o := by simp [hown, hname]
              simp only [hiff]
              exact ih _

/-- **Spec.** The spread context, or the failure on an inherited member. -/
theorem spreadContext_eq (context : Object) :
    spreadContext (arrayFieldsOf (normalized context)) (normalized context) =
      if NamesOwn (normalized context) then
        .ok (setProperties [] (spreadEntries (normalized context)))
      else .error ⟨"arr.map is not a function"⟩ :=
  spreadLoop_eq (fun _ he => lookupField_entry he) []

theorem elementKey_ne_proto (k : String) (i : ℕ) : elementKey k i ≠ "__proto__" := by
  intro heq
  have hlist := congrArg String.toList heq
  unfold elementKey at hlist
  rw [String.toList_append, Nat.toString_eq_ofList_toDigits, String.toList_ofList] at hlist
  have hlast := congrArg List.getLast? hlist
  rw [List.getLast?_append_of_ne_nil _ Nat.toDigits_ne_nil] at hlast
  have hmem : '_' ∈ Nat.toDigits 10 (i + 1) := List.mem_of_getLast? hlast
  exact Nat.underscore_not_in_toDigits hmem

/-- The keys of the spread entries are those that the loop writes. -/
theorem spreadEntries_ne_proto {o : Object} (h : ∀ e ∈ o, e.1 ≠ "__proto__") :
    ∀ e ∈ spreadEntries o, e.1 ≠ "__proto__" := by
  intro e he
  obtain ⟨x, hx, hmem⟩ := List.mem_flatMap.mp he
  unfold entrySpread at hmem
  split at hmem
  · obtain ⟨y, -, rfl⟩ := List.mem_map.mp hmem
    exact elementKey_ne_proto _ _
  · obtain rfl := List.mem_singleton.mp hmem
    exact h e hx

/-- **Spec.** Spread without a collision, the context holds exactly the spread entries. -/
theorem get?_spread {context : Object}
    (hfree : (ObjectMap.keys (spreadEntries (normalized context))).Nodup) (k : String) :
    ObjectMap.get? (setProperties [] (spreadEntries (normalized context))) k =
      ObjectMap.get? (spreadEntries (normalized context)) k := by
  rw [get?_setProperties hfree]
  split
  · rename_i hproto
    cases hread : ObjectMap.get? (spreadEntries (normalized context)) k with
    | none => rfl
    | some v =>
        have hne := spreadEntries_ne_proto (fun e he => ne_proto_of_mem_normalized he) (k, v)
          (ObjectMap.mem_of_get? hread)
        exact absurd hproto hne
  · simp

/-- The array fields of a nested context. -/
def arraysOf (context : Object) : ArrayFields := arrayFieldsOf (normalized context)

/-- The context that the spreading leaves. -/
def spreadOf (context : Object) : Object := setProperties [] (spreadEntries (normalized context))

theorem spreadEntries_of_no_elements {o : Object} (h : ∀ e ∈ o, elements? e.2 = none) :
    spreadEntries o = o := by
  induction o with
  | nil => rfl
  | cons e o ih =>
      have hcons : spreadEntries (e :: o) = entrySpread e ++ spreadEntries o := rfl
      have hhead : entrySpread e = [e] := by
        unfold entrySpread
        rw [h e List.mem_cons_self]
      rw [hcons, hhead, ih fun e he => h e (List.mem_cons_of_mem _ he)]
      rfl

/-- **Spec.** Without an array nothing is transformed; beside one, the context and the rule are. -/
theorem spreadArrayFields_eq (context : Object) (rule : Value) :
    spreadArrayFields (flattenContext context) rule =
      if (arraysOf context).isEmpty then .ok ⟨normalized context, rule⟩
      else if NamesOwn (normalized context) then
        (transformRule (arraysOf context) rule).map fun r => ⟨spreadOf context, r⟩
      else .error ⟨"arr.map is not a function"⟩ := by
  unfold spreadArrayFields
  show (if (arraysOf context).isEmpty then _ else _) = _
  by_cases hempty : (arraysOf context).isEmpty = true
  · rw [if_pos hempty, if_pos hempty]
    rfl
  · rw [if_neg hempty, if_neg hempty]
    show (spreadContext (arrayFieldsOf (normalized context)) (normalized context) >>= fun t =>
      transformRule (arraysOf context) rule >>= fun r => pure (Spread.mk t r)) = _
    rw [spreadContext_eq]
    by_cases hown : NamesOwn (normalized context)
    · rw [if_pos hown, if_pos hown]
      show (transformRule (arraysOf context) rule >>= fun r => pure (Spread.mk _ r)) = _
      cases transformRule (arraysOf context) rule <;> rfl
    · rw [if_neg hown, if_neg hown]
      rfl

theorem get?_spreadOf_of_isEmpty {context : Object} (hempty : (arraysOf context).isEmpty = true)
    (k : String) :
    ObjectMap.get? (spreadOf context) k = ObjectMap.get? (normalized context) k := by
  unfold spreadOf
  rw [spreadEntries_of_no_elements (arrayFieldsOf_isEmpty.mp hempty),
    get?_setProperties (keys_normalized_nodup context)]
  split
  · rename_i hproto
    rw [hproto, get?_normalized_proto]
    rfl
  · simp

/-- **Spec.** A spreading that returns: the context it returns reads as `spreadOf`. -/
theorem spreadArrayFields_ok {context : Object} {rule : Value} {s : Spread}
    (h : spreadArrayFields (flattenContext context) rule = .ok s) :
    ((arraysOf context).isEmpty = false → NamesOwn (normalized context)) ∧
      ∀ k, ObjectMap.get? s.transformedContext k = ObjectMap.get? (spreadOf context) k := by
  rw [spreadArrayFields_eq] at h
  split at h
  · rename_i hempty
    obtain rfl := Except.ok.inj h
    refine ⟨fun hfull => ?_, fun k => (get?_spreadOf_of_isEmpty hempty k).symm⟩
    rw [hempty] at hfull
    cases hfull
  · split at h
    · rename_i hown
      refine ⟨fun _ => hown, fun k => ?_⟩
      cases hrule : transformRule (arraysOf context) rule with
      | error e =>
          rw [hrule] at h
          cases h
      | ok r =>
          rw [hrule] at h
          obtain rfl := Except.ok.inj h
          rfl
    · cases h

/-- **Spec.** The spreading returns where the names and the rule let it. -/
theorem spreadArrayFields_returns {context : Object} {rule : Value}
    (hown : (arraysOf context).isEmpty = false → NamesOwn (normalized context))
    (hrule : ∃ r, transformRule (arraysOf context) rule = .ok r) :
    ∃ s, spreadArrayFields (flattenContext context) rule = .ok s := by
  obtain ⟨r, hr⟩ := hrule
  rw [spreadArrayFields_eq, hr]
  cases hempty : (arraysOf context).isEmpty with
  | true => exact ⟨_, rfl⟩
  | false =>
      rw [if_neg Bool.false_ne_true, if_pos (hown hempty)]
      exact ⟨_, rfl⟩

end RuleEvaluationService

end UploadService
