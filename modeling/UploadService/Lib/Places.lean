import UploadService.Lib.Rows

/-!
# Named entries with positions

A shelf is a list of entries, each with a name and a position. An entry is placed under its name
at the position after the last one, or it is copied with the position it has elsewhere.

Main results:

- `ordered_placing`, `Placing.placeAll`: placing keeps names and positions distinct;
- `append_ordered_iff`: a copy of entries with new names keeps them distinct exactly where none of
  their positions is taken.
-/

namespace Places

variable {α : Type}

def names (places : List (α × ℕ)) : List α := places.map Prod.fst

def positions (places : List (α × ℕ)) : List ℕ := places.map Prod.snd

/-- No name and no position is there twice. -/
structure Ordered (places : List (α × ℕ)) : Prop where
  names : (names places).Nodup
  positions : (positions places).Nodup

instance [DecidableEq α] (places : List (α × ℕ)) : Decidable (Ordered places) :=
  decidable_of_iff ((names places).Nodup ∧ (positions places).Nodup)
    ⟨fun h => ⟨h.1, h.2⟩, fun h => ⟨h.names, h.positions⟩⟩

/-- The position after the last one. -/
def next (places : List (α × ℕ)) : ℕ :=
  match Rows.maxOf Prod.snd places with
  | none => 0
  | some max => max + 1

variable {places source : List (α × ℕ)}

theorem ordered_nil : Ordered ([] : List (α × ℕ)) := ⟨List.nodup_nil, List.nodup_nil⟩

theorem Ordered.sublist {places' : List (α × ℕ)} (h : Ordered places) (hsub : places'.Sublist places) :
    Ordered places' :=
  ⟨h.names.sublist (hsub.map Prod.fst), h.positions.sublist (hsub.map Prod.snd)⟩

theorem lt_next {e : α × ℕ} (he : e ∈ places) : e.2 < next places := by
  obtain ⟨m, hmax, hle⟩ := Rows.le_maxOf (f := Prod.snd) he
  unfold next
  rw [hmax]
  exact Nat.lt_succ_of_le hle

/-- **Main result.** A copy of entries with other names keeps the shelf ordered exactly where no
position is taken. -/
theorem append_ordered_iff (hplaces : Ordered places) (hsource : Ordered source)
    (hnames : ∀ e ∈ source, e.1 ∉ names places) :
    Ordered (places ++ source) ↔ ∀ e ∈ source, e.2 ∉ positions places := by
  have hsplit : ∀ {β : Type} (f : α × ℕ → β), ((places ++ source).map f).Nodup ↔
      (places.map f).Nodup ∧ (source.map f).Nodup ∧ ∀ e ∈ source, f e ∉ places.map f := by
    intro β f
    rw [List.map_append, List.nodup_append]
    constructor
    · rintro ⟨hleft, hright, happart⟩
      exact ⟨hleft, hright, fun e he hmem => happart _ hmem _ (List.mem_map_of_mem he) rfl⟩
    · rintro ⟨hleft, hright, happart⟩
      refine ⟨hleft, hright, fun a ha b hb hab => ?_⟩
      obtain ⟨e, he, rfl⟩ := List.mem_map.mp hb
      exact happart e he (hab ▸ ha)
  constructor
  · exact fun h => ((hsplit Prod.snd).mp h.positions).2.2
  · exact fun h => ⟨(hsplit Prod.fst).mpr ⟨hplaces.names, hsource.names, hnames⟩,
      (hsplit Prod.snd).mpr ⟨hplaces.positions, hsource.positions, h⟩⟩

/-! ### Placing and copying -/

variable [DecidableEq α]

/-- An entry under the name, where there is none, at the next position. -/
def place (places : List (α × ℕ)) (name : α) : List (α × ℕ) :=
  if name ∈ names places then places else places ++ [(name, next places)]

def placeAll (places : List (α × ℕ)) (added : List α) : List (α × ℕ) := added.foldl place places

/-- The entries of another shelf whose names are missing. -/
def missing (places source : List (α × ℕ)) : List (α × ℕ) :=
  source.filter fun e => e.1 ∉ names places

/-- The entries that were missing are copied. -/
theorem missing_ordered_iff (hplaces : Ordered places) (hsource : Ordered source) :
    Ordered (places ++ missing places source) ↔
      ∀ e ∈ missing places source, e.2 ∉ positions places :=
  append_ordered_iff hplaces (hsource.sublist List.filter_sublist) fun _ he => by
    simpa using (List.mem_filter.mp he).2

theorem place_ordered (h : Ordered places) (name : α) : Ordered (place places name) := by
  unfold place
  split
  · exact h
  · rename_i hnew
    have hone : Ordered [(name, next places)] := ⟨List.nodup_singleton _, List.nodup_singleton _⟩
    refine (append_ordered_iff h hone fun e he => ?_).mpr fun e he htaken => ?_
    · rw [List.mem_singleton.mp he]
      exact hnew
    · rw [List.mem_singleton.mp he] at htaken
      obtain ⟨x, hx, hpos⟩ := List.mem_map.mp htaken
      have := lt_next hx
      omega

/-- A property of shelves that the empty one has, a part of a shelf, and a shelf with one entry
placed. -/
structure Placing (O : List (α × ℕ) → Prop) : Prop where
  nil : O []
  sublist : ∀ {places places' : List (α × ℕ)}, O places → places'.Sublist places → O places'
  place : ∀ {places : List (α × ℕ)}, O places → ∀ name, O (place places name)

theorem ordered_placing : Placing (Ordered : List (α × ℕ) → Prop) :=
  ⟨ordered_nil, Ordered.sublist, place_ordered⟩

theorem names_placing : Placing fun places : List (α × ℕ) => (names places).Nodup where
  nil := List.nodup_nil
  sublist := fun h hsub => h.sublist (hsub.map Prod.fst)
  place := by
    intro places h name
    unfold place
    split
    · exact h
    · rename_i hnew
      show (List.map Prod.fst (places ++ [(name, next places)])).Nodup
      rw [List.map_append]
      refine List.nodup_append.mpr ⟨h, List.nodup_singleton _, fun a ha b hb hab => hnew ?_⟩
      obtain rfl : b = name := List.mem_singleton.mp hb
      exact hab ▸ ha

/-- **Main result.** Placing entries keeps the property. -/
theorem Placing.placeAll {O : List (α × ℕ) → Prop} (hO : Placing O) (h : O places)
    (added : List α) : O (placeAll places added) := by
  induction added generalizing places with
  | nil => exact h
  | cons name added ih => exact ih (hO.place h name)

/-- A copy of what is missing repeats no name. -/
theorem missing_names (hplaces : (names places).Nodup) (hsource : (names source).Nodup) :
    (names (places ++ missing places source)).Nodup := by
  unfold names
  rw [List.map_append]
  refine List.nodup_append.mpr ⟨hplaces, hsource.sublist (List.filter_sublist.map _), ?_⟩
  intro a ha b hb hab
  obtain ⟨e, he, rfl⟩ := List.mem_map.mp hb
  have hmissing : e.1 ∉ names places := by simpa using (List.mem_filter.mp he).2
  exact hmissing (hab ▸ ha)

end Places
