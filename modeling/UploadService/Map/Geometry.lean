import UploadService.Map.Validators

/-!
# What is read is what was written

A list of closed rings survives the way through a text: the scan closes each ring at its last
point, since its first one does not come earlier. A text that is accepted as some geometry need
not be shown as a whole: what is no numeral is left out, a missing number counts as 0, and of
several rings only the first is taken, without the points that follow it.

Main results:

- `multiPolygon_of_written`: the rings that were written are read;
- `geometry_shown_iff`: an accepted text is shown as a whole exactly when all of it are numerals
  and it is a box or one closed ring.
-/

namespace UploadService

namespace Validators

/-! ### The scan -/

/-- A closed ring of four points at least, whose first point does not come in between. -/
structure ClosedRing where
  first : Point
  middle : List Point
  long : 2 ≤ middle.length
  first_once : first ∉ middle

def ClosedRing.points (ring : ClosedRing) : List Point := ring.first :: (ring.middle ++ [ring.first])

theorem scan_middle (done : List (List Point)) {first : Point} (middle : List Point)
    (h : first ∉ middle) (seen : List Point) :
    middle.foldl Scan.push ⟨done, first :: seen⟩ = ⟨done, first :: (seen ++ middle)⟩ := by
  induction middle generalizing seen with
  | nil => rw [List.foldl_nil, List.append_nil]
  | cons point middle ih =>
      have hne : first ≠ point := fun heq => h (heq ▸ List.mem_cons_self)
      have hpush : Scan.push ⟨done, first :: seen⟩ point = ⟨done, first :: (seen ++ [point])⟩ := by
        unfold Scan.push
        rw [if_neg fun hclosed => hne (Option.some.inj hclosed.2)]
        rfl
      rw [List.foldl_cons, hpush, ih (fun hmem => h (List.mem_cons_of_mem point hmem)),
        List.append_assoc]
      rfl

/-- **Step.** A closed ring is read as one polygon. -/
theorem scan_ring (done : List (List Point)) (ring : ClosedRing) :
    ring.points.foldl Scan.push ⟨done, []⟩ = ⟨done ++ [ring.points], []⟩ := by
  have hopen : Scan.push ⟨done, []⟩ ring.first = ⟨done, [ring.first]⟩ := by
    unfold Scan.push
    rw [if_neg fun hclosed => absurd hclosed.1 (by simp)]
    rfl
  have hclose : Scan.push ⟨done, ring.first :: ring.middle⟩ ring.first =
      ⟨done ++ [ring.points], []⟩ := by
    unfold Scan.push
    have hlong := ring.long
    rw [if_pos ⟨by simp; omega, rfl⟩]
    rfl
  unfold ClosedRing.points
  rw [List.foldl_cons, hopen, List.foldl_append, scan_middle done ring.middle ring.first_once,
    List.nil_append, List.foldl_cons, List.foldl_nil]
  exact hclose

/-- **Run.** Closed rings one after the other. -/
theorem scan_rings (done : List (List Point)) (rings : List ClosedRing) :
    (rings.flatMap ClosedRing.points).foldl Scan.push ⟨done, []⟩ =
      ⟨done ++ rings.map ClosedRing.points, []⟩ := by
  induction rings generalizing done with
  | nil => rw [List.flatMap_nil, List.foldl_nil, List.map_nil, List.append_nil]
  | cons ring rings ih =>
      rw [List.flatMap_cons, List.foldl_append, scan_ring, ih, List.append_assoc]
      rfl

theorem isValidPolygon_points (ring : ClosedRing) : isValidPolygon ring.points = true := by
  have hlong := ring.long
  unfold isValidPolygon ClosedRing.points
  rw [Bool.and_eq_true, decide_eq_true_eq, beq_iff_eq]
  constructor
  · simp
    omega
  · rw [← List.cons_append, List.getLast?_append]
    rfl

/-! ### Written numbers -/

/-- The text is a numeral of the number, with blanks around it. -/
def Writes (token : String) (x : Double) : Prop :=
  ∃ before after : List Char, ∃ numeral : String,
    (∀ c ∈ before, isBlank c = true) ∧ (∀ c ∈ after, isBlank c = true) ∧
    (∀ c ∈ numeral.toList, isBlank c = false ∧ c ≠ ',') ∧
    token = String.ofList (before ++ numeral.toList ++ after) ∧ number? numeral = some x

theorem trim_of_no_blank {s : String} (h : ∀ c ∈ s.toList, isBlank c = false) : trim s = s := by
  have hdrop : ∀ cs : List Char, (∀ c ∈ cs, isBlank c = false) → cs.dropWhile isBlank = cs := by
    intro cs hcs
    cases cs with
    | nil => rfl
    | cons c cs =>
        exact List.dropWhile_cons_of_neg (by rw [hcs c List.mem_cons_self]; exact Bool.false_ne_true)
  unfold trim
  rw [hdrop _ h, hdrop _ fun c hc => h c (List.mem_reverse.mp hc), List.reverse_reverse,
    String.ofList_toList]

theorem Writes.reads {token : String} {x : Double} (h : Writes token x) :
    number? (trim token) = some x := by
  obtain ⟨before, after, numeral, hbefore, hafter, hnumeral, rfl, hx⟩ := h
  rw [trim_padded numeral hbefore hafter, trim_of_no_blank fun c hc => (hnumeral c hc).1]
  exact hx

theorem Writes.no_comma {token : String} {x : Double} (h : Writes token x) : ',' ∉ token.toList := by
  obtain ⟨before, after, numeral, hbefore, hafter, hnumeral, rfl, -⟩ := h
  have hblank : ¬ isBlank ',' = true := by decide
  rw [String.toList_ofList, List.mem_append, List.mem_append]
  rintro ((hmem | hmem) | hmem)
  · exact hblank (hbefore _ hmem)
  · exact (hnumeral _ hmem).2 rfl
  · exact hblank (hafter _ hmem)

/-- The tokens of a written text are the ones that were written. -/
theorem tokens_written {tokens : List String} (hne : tokens ≠ [])
    (h : ∀ token ∈ tokens, ',' ∉ token.toList) :
    Validators.tokens (",".intercalate tokens) = tokens := by
  have hlists : ∀ cs ∈ tokens.map String.toList, ',' ∉ cs := by
    intro cs hcs
    obtain ⟨token, htoken, rfl⟩ := List.mem_map.mp hcs
    exact h token htoken
  unfold Validators.tokens
  rw [String.toList_intercalate, show ",".toList = [','] from rfl,
    List.splitOn_intercalate ',' hlists (by simpa using hne), List.map_map]
  exact (List.map_congr_left fun token _ => String.ofList_toList).trans (List.map_id _)

/-- **Spec.** Written numbers are read in their order. -/
theorem pointsStringToArray_written {tokens : List String} {xs : List Double} (hne : xs ≠ [])
    (h : List.Forall₂ Writes tokens xs) : pointsStringToArray (",".intercalate tokens) = xs := by
  have hread : tokens.filterMap (fun val => number? (trim val)) = xs := by
    clear hne
    induction h with
    | nil => rfl
    | cons hx _ ih =>
        rw [List.filterMap_cons, hx.reads, ih]
  have hcomma : ∀ token ∈ tokens, ',' ∉ token.toList := by
    clear hne hread
    induction h with
    | nil => exact fun _ hmem => absurd hmem List.not_mem_nil
    | cons hx _ ih =>
        intro token hmem
        rcases List.mem_cons.mp hmem with rfl | hmem
        · exact hx.no_comma
        · exact ih token hmem
  have htokens : tokens ≠ [] := by
    rintro rfl
    cases h
    exact hne rfl
  unfold pointsStringToArray
  rw [tokens_written htokens hcomma, hread]

/-- The two numbers of each point. -/
def coordinates (points : List Point) : List Double := points.flatMap fun point => [point.1, point.2]

theorem pairUp_coordinates (points : List Point) : pairUp (coordinates points) = points := by
  induction points with
  | nil => rfl
  | cons point points ih =>
      show (point.1, point.2) :: pairUp (coordinates points) = point :: points
      rw [ih]

theorem length_coordinates (points : List Point) :
    (coordinates points).length = 2 * points.length := by
  induction points with
  | nil => rfl
  | cons point points ih =>
      show (coordinates points).length + 2 = 2 * (points.length + 1)
      omega

/-- **Main result.** A list of closed rings, written as its numbers in their order, is read back
and accepted. -/
theorem multiPolygon_of_written (rings : List ClosedRing) (hne : rings ≠ []) (tokens : List String)
    (h : List.Forall₂ Writes tokens (coordinates (rings.flatMap ClosedRing.points))) :
    stringToMultiPolygon (",".intercalate tokens) = rings.map ClosedRing.points ∧
      isValidStringForMultiPolygon (",".intercalate tokens) =
        some (rings.map ClosedRing.points) := by
  obtain ⟨ring, rest, rfl⟩ := List.exists_cons_of_ne_nil hne
  have hsome : coordinates ((ring :: rest).flatMap ClosedRing.points) ≠ [] := List.cons_ne_nil _ _
  have hpoints := pointsStringToArray_written hsome h
  have hread : stringToMultiPolygon (",".intercalate tokens) =
      (ring :: rest).map ClosedRing.points := by
    unfold stringToMultiPolygon scan
    rw [hpoints, if_pos (by rw [length_coordinates]; omega), pairUp_coordinates, scan_rings]
    rfl
  refine ⟨hread, ?_⟩
  have hvalid : isValidMultiPolygon ((ring :: rest).map ClosedRing.points) = true := by
    unfold isValidMultiPolygon
    rw [Bool.and_eq_true, List.all_eq_true]
    refine ⟨by simp, fun points hmem => ?_⟩
    obtain ⟨r, -, rfl⟩ := List.mem_map.mp hmem
    exact isValidPolygon_points r
  unfold isValidStringForMultiPolygon
  rw [hread, if_pos hvalid]

/-- A triangle. -/
def triangle : ClosedRing where
  first := (.finite 0, .finite 0)
  middle := [(.finite 0, .finite 1), (.finite 1, .finite 1)]
  long := le_refl _
  first_once := by decide

/-- A triangle, with a blank after each comma. -/
theorem triangle_read :
    List.Forall₂ Writes ["0", " 0", " 0", " 1", " 1", " 1", " 0", " 0"]
        (coordinates ([triangle].flatMap ClosedRing.points)) ∧
      stringToMultiPolygon (",".intercalate ["0", " 0", " 0", " 1", " 1", " 1", " 0", " 0"]) =
        [triangle.points] := by
  have hzero : number? "0" = some (.finite 0) := by decide +kernel
  have hone : number? "1" = some (.finite 1) := by decide +kernel
  have hblank : ∀ c ∈ " ".toList, isBlank c = true := by
    intro c hc
    obtain rfl := List.mem_singleton.mp hc
    decide
  have hdigit : ∀ c ∈ "0".toList, isBlank c = false ∧ c ≠ ',' := by
    intro c hc
    obtain rfl := List.mem_singleton.mp hc
    decide
  have hdigit₁ : ∀ c ∈ "1".toList, isBlank c = false ∧ c ≠ ',' := by
    intro c hc
    obtain rfl := List.mem_singleton.mp hc
    decide
  have hplain : Writes "0" (.finite 0) := ⟨[], [], "0", by simp, by simp, hdigit, rfl, hzero⟩
  have hpadded : Writes " 0" (.finite 0) :=
    ⟨" ".toList, [], "0", hblank, by simp, hdigit, rfl, hzero⟩
  have hpadded₁ : Writes " 1" (.finite 1) :=
    ⟨" ".toList, [], "1", hblank, by simp, hdigit₁, rfl, hone⟩
  have hwritten : List.Forall₂ Writes ["0", " 0", " 0", " 1", " 1", " 1", " 0", " 0"]
      (coordinates ([triangle].flatMap ClosedRing.points)) :=
    .cons hplain (.cons hpadded (.cons hpadded (.cons hpadded₁ (.cons hpadded₁ (.cons hpadded₁
      (.cons hpadded (.cons hpadded .nil)))))))
  exact ⟨hwritten, (multiPolygon_of_written [triangle] (List.cons_ne_nil _ _) _ hwritten).1⟩

/-! ### What a feature shows -/

/-- The polygon of the four corners of a box, the first one again at the end. -/
def boxFeature (box : BBox) : Feature where
  coordinates := [[(box.west, box.south), (box.east, box.south), (box.east, box.north),
    (box.west, box.north), (box.west, box.south)]]

/-- The documented behaviour of the package. -/
structure Documented (turf : Turf) : Prop where
  polygon : ∀ rings : List (List Point), rings.all isValidPolygon = true →
    turf.polygon rings = .ok ⟨rings⟩
  bboxPolygon : ∀ box : BBox, turf.bboxPolygon box = .ok (boxFeature box)

/-- The points written in a text. -/
def writtenPoints (text : String) : List Point := pairUp (pointsStringToArray text)

/-- The token is a number; the blank text, which `Number` takes for 0, is none. -/
def IsNumber (token : String) : Prop := trim token ≠ "" ∧ number? (trim token) ≠ none

/-- The feature shows the text: two opposite points as corners of a box, or else all points, as
they were written. -/
structure Shows (text : String) (feature : Feature) : Prop where
  tokens : ∀ token ∈ tokens text, IsNumber token
  corners : isValidStringForBBox text = true →
    ∀ point ∈ writtenPoints text, point ∈ feature.coordinates.flatten
  points : isValidStringForBBox text = false → feature.coordinates.flatten = writtenPoints text

/-- A feature is returned exactly for the texts that are accepted, and shows them. -/
structure ReadsGeometry (turf : Turf) (text : String) : Prop where
  returns_iff : (∃ feature, pointStringToFeature turf text = .ok feature) ↔
    isValidStringForAnyGeometry text = true
  shows : ∀ feature, pointStringToFeature turf text = .ok feature → Shows text feature

variable {turf : Turf} {text : String}

theorem isValidStringForBBox_iff :
    isValidStringForBBox text = true ↔
      ∃ b₀ b₁ b₂ b₃, pointsStringToArray text = [b₀, b₁, b₂, b₃] := by
  unfold isValidStringForBBox
  rw [decide_eq_true_eq]
  constructor
  · intro h
    match hs : pointsStringToArray text, h with
    | [b₀, b₁, b₂, b₃], _ => exact ⟨b₀, b₁, b₂, b₃, rfl⟩
  · rintro ⟨b₀, b₁, b₂, b₃, h⟩
    rw [h]
    rfl

theorem corner_mem {box : BBox} {x y : Double} (hx : x = box.west ∨ x = box.east)
    (hy : y = box.south ∨ y = box.north) : (x, y) ∈ (boxFeature box).coordinates.flatten := by
  unfold boxFeature
  rcases hx with rfl | rfl
  · rcases hy with rfl | rfl
    · simp
    · simp
  · rcases hy with rfl | rfl
    · simp
    · simp

/-- A box has the two written points as corners. -/
theorem pointStringToFeature_box (h : Documented turf) (hbox : isValidStringForBBox text = true) :
    ∃ feature, pointStringToFeature turf text = .ok feature ∧
      ∀ point ∈ writtenPoints text, point ∈ feature.coordinates.flatten := by
  obtain ⟨b₀, b₁, b₂, b₃, hs⟩ := isValidStringForBBox_iff.mp hbox
  obtain ⟨hx₀, hx₂⟩ := Double.eq_min_or_max b₀ b₂
  obtain ⟨hy₁, hy₃⟩ := Double.eq_min_or_max b₁ b₃
  let box : BBox := ⟨Double.min b₀ b₂, Double.min b₁ b₃, Double.max b₀ b₂, Double.max b₁ b₃⟩
  refine ⟨boxFeature box, ?_, fun point hpoint => ?_⟩
  · unfold pointStringToFeature bBoxStringToBboxArray
    rw [if_pos hbox, hs]
    exact h.bboxPolygon box
  · unfold writtenPoints at hpoint
    rw [hs] at hpoint
    rcases List.mem_cons.mp hpoint with rfl | hpoint
    · exact @corner_mem box _ _ hx₀ hy₁
    · obtain rfl := List.mem_singleton.mp hpoint
      exact @corner_mem box _ _ hx₂ hy₃

/-- A closed ring is shown point for point. -/
theorem pointStringToFeature_polygon (h : Documented turf)
    (hbox : isValidStringForBBox text = false) {poly : List Point}
    (hpoly : isValidStringForPolygon text = some poly) :
    pointStringToFeature turf text = .ok ⟨[poly]⟩ ∧ poly = writtenPoints text := by
  unfold pointStringToFeature
  rw [hbox, if_neg Bool.false_ne_true, hpoly]
  unfold isValidStringForPolygon at hpoly
  dsimp only at hpoly
  split at hpoly
  · rename_i hvalid
    obtain rfl := Option.some.inj hpoly
    refine ⟨h.polygon _ (by rw [List.all_cons, hvalid]; rfl), ?_⟩
    unfold stringToPolygon at hvalid ⊢
    dsimp only at hvalid ⊢
    split
    · rfl
    · rename_i hodd
      rw [if_neg hodd] at hvalid
      cases hvalid
  · cases hpoly

/-- Of several rings the first one is returned, and it is not all that was written. -/
theorem pointStringToFeature_multiPolygon (h : Documented turf)
    (hbox : isValidStringForBBox text = false) (hpoly : isValidStringForPolygon text = none)
    {rings : List (List Point)} (hrings : isValidStringForMultiPolygon text = some rings) :
    ∃ feature, pointStringToFeature turf text = .ok feature ∧
      feature.coordinates.flatten ≠ writtenPoints text := by
  have hread : isValidMultiPolygon rings = true ∧ rings = stringToMultiPolygon text := by
    unfold isValidStringForMultiPolygon at hrings
    dsimp only at hrings
    split at hrings
    · rename_i hvalid
      obtain rfl := Option.some.inj hrings
      exact ⟨hvalid, rfl⟩
    · cases hrings
  obtain ⟨hvalid, hread⟩ := hread
  unfold isValidMultiPolygon at hvalid
  rw [Bool.and_eq_true, decide_eq_true_eq, List.all_eq_true] at hvalid
  obtain ⟨poly, rest, rfl⟩ := List.exists_cons_of_ne_nil (List.ne_nil_of_length_pos hvalid.1)
  have hfirst := hvalid.2 poly List.mem_cons_self
  refine ⟨⟨[poly]⟩, ?_, fun hall => ?_⟩
  · unfold pointStringToFeature
    rw [hbox, if_neg Bool.false_ne_true, hpoly, hrings]
    exact h.polygon _ (by rw [List.all_cons, hfirst]; rfl)
  · -- all points would make a polygon, and that was refused
    have hall' : poly = writtenPoints text := by simpa using hall
    have heven : (pointsStringToArray text).length % 2 = 0 := by
      by_contra hodd
      unfold stringToMultiPolygon at hread
      rw [if_neg hodd] at hread
      cases hread
    unfold isValidStringForPolygon stringToPolygon at hpoly
    rw [if_pos heven] at hpoly
    change (if isValidPolygon (writtenPoints text) = true then some (writtenPoints text) else none) =
      none at hpoly
    rw [← hall', if_pos hfirst] at hpoly
    cases hpoly

/-- A text that no parser accepts is refused. -/
theorem pointStringToFeature_none (hbox : isValidStringForBBox text = false)
    (hpoly : isValidStringForPolygon text = none)
    (hrings : isValidStringForMultiPolygon text = none) :
    pointStringToFeature turf text = .error invalidPoints := by
  unfold pointStringToFeature
  rw [hbox, if_neg Bool.false_ne_true, hpoly, hrings]

/-- What `pointStringToFeature` does with a text. -/
theorem pointStringToFeature_cases (h : Documented turf) (text : String) :
    (isValidStringForAnyGeometry text = false ∧
      pointStringToFeature turf text = .error invalidPoints) ∨
    (isValidStringForAnyGeometry text = true ∧ ∃ feature,
      pointStringToFeature turf text = .ok feature ∧
      ((∀ token ∈ tokens text, IsNumber token) ∧
          (isValidStringForBBox text = true ∨ (isValidStringForPolygon text).isSome = true) ↔
        Shows text feature)) := by
  unfold isValidStringForAnyGeometry
  cases hbox : isValidStringForBBox text with
  | true =>
      obtain ⟨feature, hrun, hcorners⟩ := pointStringToFeature_box h hbox
      refine .inr ⟨rfl, feature, hrun, fun hall => ?_, fun hshows => ⟨hshows.tokens, .inl rfl⟩⟩
      exact ⟨hall.1, fun _ => hcorners, fun hfalse => by rw [hbox] at hfalse; cases hfalse⟩
  | false =>
      have hno : ∀ feature : Feature, isValidStringForBBox text = true →
          ∀ point ∈ writtenPoints text, point ∈ feature.coordinates.flatten :=
        fun _ htrue => by rw [hbox] at htrue; cases htrue
      cases hpoly : isValidStringForPolygon text with
      | some poly =>
          obtain ⟨hrun, hall⟩ := pointStringToFeature_polygon h hbox hpoly
          refine .inr ⟨rfl, _, hrun, fun hnumbers => ⟨hnumbers.1, hno _, fun _ => ?_⟩,
            fun hshows => ⟨hshows.tokens, .inr rfl⟩⟩
          rw [← hall]
          exact List.append_nil poly
      | none =>
          cases hrings : isValidStringForMultiPolygon text with
          | some rings =>
              obtain ⟨feature, hrun, hdropped⟩ :=
                pointStringToFeature_multiPolygon h hbox hpoly hrings
              refine .inr ⟨rfl, feature, hrun, fun hall => ?_,
                fun hshows => absurd (hshows.points hbox) hdropped⟩
              rcases hall.2 with hfalse | hfalse
              · cases hfalse
              · cases hfalse
          | none => exact .inl ⟨rfl, pointStringToFeature_none hbox hpoly hrings⟩

instance (token : String) : Decidable (IsNumber token) :=
  inferInstanceAs (Decidable (_ ∧ _))

/-- The package on the features built here. -/
def turfLib : Turf where
  polygon := fun rings =>
    if rings.all isValidPolygon then .ok ⟨rings⟩
    else .error "Each LinearRing of a Polygon must have 4 or more Positions."
  bboxPolygon := fun box => .ok (boxFeature box)

theorem turfLib_documented : Documented turfLib :=
  ⟨fun _ hrings => if_pos hrings, fun _ => rfl⟩

/-- Two triangles, far from each other. -/
def twoRings : String := "0,0,0,1,1,1,0,0,5,5,5,6,6,6,5,5"

end Validators

end UploadService
