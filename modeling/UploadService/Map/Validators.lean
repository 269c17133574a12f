import UploadService.Texts

/-!
# Geometries in texts

`Validators` reads a text of numbers, separated by commas, as a bounding box, as a polygon or as
a list of polygons. What is no number is left out before the numbers are paired.

A list of polygons is written without marks between them: a polygon ends where its first point
comes again.
-/

namespace UploadService

/-- A position; the order of its two numbers is kept. -/
abbrev Point : Type := Double × Double

/-- West, south, east and north. -/
structure BBox where
  west : Double
  south : Double
  east : Double
  north : Double
  deriving DecidableEq, Repr

/-- A polygon feature: its rings. -/
structure Feature where
  coordinates : List (List Point)
  deriving DecidableEq, Repr

/-- The two functions of the turf package that build features. -/
structure Turf where
  polygon : List (List Point) → Except String Feature
  bboxPolygon : BBox → Except String Feature

namespace Validators

/-- `points.split(",")`. -/
def tokens (points : String) : List String := (points.toList.splitOn ',').map String.ofList

def pointsStringToArray (points : String) : List Double :=
  (tokens points).filterMap fun val => number? (trim val)

/-! ### Boxes -/

def isValidStringForBBox (bBox : String) : Bool := (pointsStringToArray bBox).length = 4

/-- `none` where a corner is missing. -/
def bBoxStringToBboxArray (bBox : String) : Option BBox :=
  match pointsStringToArray bBox with
  | b₀ :: b₁ :: b₂ :: b₃ :: _ => some
      { west := Double.min b₀ b₂
        south := Double.min b₁ b₃
        east := Double.max b₀ b₂
        north := Double.max b₁ b₃ }
  | _ => none

/-! ### Polygons -/

/-- The numbers in pairs. -/
def pairUp : List Double → List Point
  | x :: y :: rest => (x, y) :: pairUp rest
  | _ => []

def stringToPolygon (pointsString : String) : List Point :=
  let points := pointsStringToArray pointsString
  if points.length % 2 = 0 then pairUp points else []

/-- At least four points, the last one the first again. -/
def isValidPolygon (polygon : List Point) : Bool :=
  4 ≤ polygon.length && polygon.head? == polygon.getLast?

def isValidStringForPolygon (polyStr : String) : Option (List Point) :=
  let polygon := stringToPolygon polyStr
  if isValidPolygon polygon then some polygon else none

/-! ### Lists of polygons -/

/-- The variables of the loop of `stringToMultiPolygon`. -/
structure Scan where
  multiPolygon : List (List Point)
  currentPolygon : List Point
  deriving DecidableEq, Repr

/-- One point: the current polygon is closed where its first point comes again. -/
def Scan.push (s : Scan) (point : Point) : Scan :=
  let currentPolygon := s.currentPolygon ++ [point]
  if 4 ≤ currentPolygon.length ∧ currentPolygon.head? = some point then
    ⟨s.multiPolygon ++ [currentPolygon], []⟩
  else ⟨s.multiPolygon, currentPolygon⟩

def scan (points : List Point) : Scan := points.foldl Scan.push ⟨[], []⟩

def stringToMultiPolygon (pointsString : String) : List (List Point) :=
  let points := pointsStringToArray pointsString
  if points.length % 2 = 0 then (scan (pairUp points)).multiPolygon else []

def isValidMultiPolygon (multiPolygon : List (List Point)) : Bool :=
  0 < multiPolygon.length && multiPolygon.all isValidPolygon

def isValidStringForMultiPolygon (multiPolyStr : String) : Option (List (List Point)) :=
  let multiPolygon := stringToMultiPolygon multiPolyStr
  if isValidMultiPolygon multiPolygon then some multiPolygon else none

/-! ### Any geometry -/

def invalidPoints : String := "Points string values are invalid."

/-- Of a list of polygons the first one is taken. -/
def pointStringToFeature (turf : Turf) (pointsString : String) : Except String Feature :=
  if isValidStringForBBox pointsString then
    match bBoxStringToBboxArray pointsString with
    | some bboxArray => turf.bboxPolygon bboxArray
    | none => .error invalidPoints -- not reached: four numbers have four corners
  else match isValidStringForPolygon pointsString with
  | some poly => turf.polygon [poly]
  | none => match isValidStringForMultiPolygon pointsString with
    | some (poly :: _) => turf.polygon [poly]
    | some [] | none => .error invalidPoints

def isValidStringForAnyGeometry (geomStr : String) : Bool :=
  isValidStringForBBox geomStr ||
  (isValidStringForPolygon geomStr).isSome ||
  (isValidStringForMultiPolygon geomStr).isSome

end Validators

end UploadService
