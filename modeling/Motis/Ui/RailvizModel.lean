import Motis.Lib.ForwardSearch
import Mathlib.Algebra.Order.BigOperators.Group.List
import Mathlib.Algebra.Order.Field.Basic
import Mathlib.Algebra.Order.Field.Rat
import Mathlib.Tactic.Linarith

/-! The trains of the live map: their polylines, and where they are.

    A polyline is decoded once. A train refers to polylines by signed indices, a negative one for a
    polyline that is travelled backward, and a position on it is a polyline, a line of it and the
    progress on that line, always counted in the direction of travel:

        polyline     0          1 (backward)
        line         0    1     0   1    2
                  ├─────┼────┼───┼────┼──────┤
                  0          ▲ offset        totalLength

    Lengths and times are numbers of an ordered field; the numbers that divisions by zero leave
    behind are values of their own. -/

namespace Motis.Ui.RailViz
open ForwardSearch

/-! ### Polylines -/

/-- Latitude and longitude, in units of the last decimal that is encoded. -/
abbrev Coordinate := ℤ × ℤ

/-- One number of an encoded polyline. Past the end `charCodeAt` is `NaN`, a last chunk of zeros. -/
def decodeNumber : List Char → Int32 → Int32 → Int32 × List Char
  | [], _, result => (result, [])
  | c :: cs, shift, result =>
    let byte := Int32.ofNat c.toNat - 63
    let result := result ||| ((byte &&& 0x1f) <<< shift)
    if byte ≥ 0x20 then decodeNumber cs (shift + 5) result else (result, cs)

def changeOf (result : Int32) : ℤ :=
  (if result &&& 1 ≠ 0 then ~~~(result >>> 1) else result >>> 1).toInt

/-- The loop of `polyline.decode`. A round reads at least one character. -/
def decodeRounds : ℕ → List Char → ℤ → ℤ → List Coordinate
  | 0, _, _, _ => []
  | _ + 1, [], _, _ => []
  | rounds + 1, c :: cs, lat, lng =>
    let (latitude, cs) := decodeNumber (c :: cs) 0 0
    let (longitude, cs) := decodeNumber cs 0 0
    let lat := lat + changeOf latitude
    let lng := lng + changeOf longitude
    (lat, lng) :: decodeRounds rounds cs lat lng

def decode (str : String) : List Coordinate := decodeRounds str.toList.length str.toList 0 0

@[ext]
structure MercatorCoordinate (K : Type) where
  x : K
  y : K
  deriving DecidableEq, Repr

section Model
variable {K : Type} [Field K] [LinearOrder K] [IsStrictOrderedRing K]

/-- The projection of the map library, and `Math.sqrt`. -/
structure Projection (K : Type) [Field K] [LinearOrder K] where
  fromLngLat : Coordinate → MercatorCoordinate K
  sqrt : K → K
  sqrt_nonneg : ∀ x, 0 ≤ sqrt x
  eq_zero_of_sqrt : ∀ x, 0 ≤ x → sqrt x = 0 → x = 0

def Projection.lineLength (proj : Projection K) (a b : MercatorCoordinate K) : K :=
  proj.sqrt ((a.x - b.x) * (a.x - b.x) + (a.y - b.y) * (a.y - b.y))

theorem Projection.eq_of_lineLength_eq_zero (proj : Projection K) {a b : MercatorCoordinate K}
    (h : proj.lineLength a b = 0) : a = b := by
  have hsum := proj.eq_zero_of_sqrt _
    (add_nonneg (mul_self_nonneg (a.x - b.x)) (mul_self_nonneg (a.y - b.y))) h
  obtain ⟨hx, hy⟩ := mul_self_add_mul_self_eq_zero.mp hsum
  exact MercatorCoordinate.ext (sub_eq_zero.mp hx) (sub_eq_zero.mp hy)

/-- A polyline with the lengths of its lines. -/
structure Polyline (K : Type) [Field K] [LinearOrder K] where
  coordinates : List Coordinate
  mercatorCoordinates : List (MercatorCoordinate K)
  lineLengths : List K
  length_mercator : mercatorCoordinates.length = coordinates.length
  length_lines : lineLengths.length = mercatorCoordinates.length - 1
  nonneg : ∀ l ∈ lineLengths, 0 ≤ l
  /-- A line without length ends where it starts. -/
  closed : ∀ i : ℕ, lineLengths[i]? = some 0 → mercatorCoordinates[i]? = mercatorCoordinates[i + 1]?

namespace Polyline
variable (p : Polyline K)

def lineCount : ℕ := p.lineLengths.length

/-- The length of the lines before line `i`. -/
def lineOffset (i : ℕ) : K := boundary p.lineLengths i

def totalLength : K := p.lineLengths.sum

end Polyline

/-- `preprocessPolyline`; without coordinates there is only an empty object. -/
def preprocessPolyline (proj : Projection K) (str : String) : Option (Polyline K) :=
  let coordinates := decode str
  if coordinates.length = 0 then none
  else
    let mercatorCoordinates := coordinates.map proj.fromLngLat
    some {
      coordinates
      mercatorCoordinates
      lineLengths := List.zipWith proj.lineLength mercatorCoordinates mercatorCoordinates.tail
      length_mercator := List.length_map ..
      length_lines := by simp
      nonneg := by
        intro l hl
        obtain ⟨i, hi, rfl⟩ := List.getElem_of_mem hl
        rw [List.getElem_zipWith]
        exact proj.sqrt_nonneg _
      closed := by
        intro i hi
        obtain ⟨a, b, ha, hb, hab⟩ := List.getElem?_zipWith_eq_some.mp hi
        rw [List.getElem?_tail] at hb
        rw [ha, hb, proj.eq_of_lineLength_eq_zero hab] }

/-- A flat map; its lengths are right where they are zero or one. -/
def alongX : Projection ℚ where
  fromLngLat c := ⟨c.2, c.1⟩
  sqrt x := |x|
  sqrt_nonneg := abs_nonneg
  eq_zero_of_sqrt _ _ := abs_eq_zero.mp

structure PolylineRef (K : Type) [Field K] [LinearOrder K] where
  fwd : Bool
  offset : K
  polyline : Polyline K

/-! ### Trains -/

/-- The references to the polylines of a train from an offset on, and the offset behind them.
    `none`: one of them has no geometry. -/
def polylineRefs (polylines : List (Option (Polyline K))) :
    K → List ℤ → Option (List (PolylineRef K) × K)
  | offset, [] => some ([], offset)
  | offset, i :: is => do
    let polyline ← (polylines[i.natAbs]?).join
    let (refs, totalLength) ← polylineRefs polylines (offset + polyline.totalLength) is
    return (⟨i > 0, offset, polyline⟩ :: refs, totalLength)

structure Train (K : Type) [Field K] [LinearOrder K] where
  dTime : K
  aTime : K
  polylines : List (PolylineRef K)
  totalLength : K

/-- The constructor. -/
def Train.new (polylines : List (Option (Polyline K))) (dTime aTime : K) (indices : List ℤ) :
    Option (Train K) := do
  let (refs, totalLength) ← polylineRefs polylines 0 indices
  return { dTime, aTime, polylines := refs, totalLength }

/-- The progress on a line. Division by a length of zero leaves an infinite one. -/
inductive Progress (K : Type) where
  | number (x : K)
  | infinity (negative : Bool)
  deriving DecidableEq, Repr

/-- `currPolyline`, `currLine` and `currProgress` of a train that is visible; of any other train
    they are `null`. -/
structure Cursor (K : Type) where
  polyline : ℕ
  line : ℕ
  progress : Progress K
  deriving DecidableEq, Repr

namespace PolylineRef
variable (p : PolylineRef K)

def coordinate (first : Bool) : Option Coordinate :=
  p.polyline.coordinates[if first = p.fwd then 0 else p.polyline.coordinates.length - 1]?

/-- `getCurrLinePos`: the offset and the length of a line. -/
def getLinePos (currLine : ℕ) : K × K :=
  if p.fwd then
    (p.offset + p.polyline.lineOffset currLine, p.polyline.lineLengths.getD currLine 0)
  else
    let idx := p.polyline.lineCount - 1 - currLine
    let offset := p.polyline.lineOffset idx
    let length := p.polyline.lineLengths.getD idx 0
    (p.offset + p.polyline.totalLength - (offset + length), length)

end PolylineRef

/-- Whether a position lies on a stretch; `NaN` does not. -/
def within (pos : Option K) (offset length : K) : Bool :=
  match pos with
  | none => false
  | some x => x ≥ offset && x ≤ offset + length

/-- `(pos - lOffset) / lLength || 0` -/
def lineProgress (pos : Option K) (lOffset lLength : K) : Progress K :=
  match pos with
  | none => .number 0
  | some x =>
    if lLength = 0 then
      if x = lOffset then .number 0 else .infinity (x < lOffset)
    else .number ((x - lOffset) / lLength)

namespace Train
variable (t : Train K)

def firstCoordinate : Option Coordinate := t.polylines.head?.bind (·.coordinate true)

def lastCoordinate : Option Coordinate := t.polylines.getLast?.bind (·.coordinate false)

/-- The coordinates of the polylines, in the direction of travel. -/
def path : List Coordinate := t.polylines.flatMap fun p =>
  if p.fwd then p.polyline.coordinates else p.polyline.coordinates.reverse

/-- The offset and the length of line `line` of polyline `polyline`. -/
def linePos (polyline line : ℕ) : K × K :=
  match t.polylines[polyline]? with
  | some p => p.getLinePos line
  | none => (0, 0)

/-- Whether the position lies on polyline `i`. -/
def onPolyline (pos : Option K) (i : ℕ) : Bool :=
  match t.polylines[i]? with
  | some p => within pos p.offset p.polyline.totalLength
  | none => false

def onLine (pos : Option K) (polyline line : ℕ) : Bool :=
  within pos (t.linePos polyline line).1 (t.linePos polyline line).2

def lineCount (polyline : ℕ) : ℕ :=
  match t.polylines[polyline]? with
  | some p => p.polyline.lineCount
  | none => 0

/-- `updateCurrPolyline`: the polyline, and the line to search from. -/
def updateCurrPolyline (pos : Option K) (currPolyline currLine : ℕ) : ℕ × ℕ :=
  let found := findFrom (t.onPolyline pos) currPolyline t.polylines.length
  let line := if found < t.polylines.length ∧ found ≠ currPolyline then 0 else currLine
  (min found (t.polylines.length - 1), line)

/-- `updateCurrLine` -/
def updateCurrLine (pos : Option K) (currPolyline currLine : ℕ) : ℕ :=
  let found := findFrom (t.onLine pos currPolyline) currLine (t.lineCount currPolyline)
  min found (t.lineCount currPolyline - 1)

/-- The position at a time when the train is visible. A train that arrives when it departs has the
    progress 0 / 0. -/
def posAt (time : K) : Option K :=
  if t.aTime - t.dTime = 0 then none
  else some ((time - t.dTime) / (t.aTime - t.dTime) * t.totalLength)

/-- The cursor at a line. -/
def cursorAt (pos : Option K) (polyline line : ℕ) : Cursor K where
  polyline := polyline
  line := line
  progress := lineProgress pos (t.linePos polyline line).1 (t.linePos polyline line).2

/-- The two searches, from a polyline and a line on. -/
def locate (pos : Option K) (currPolyline currLine : ℕ) : Cursor K :=
  let (polyline, line) := t.updateCurrPolyline pos currPolyline currLine
  t.cursorAt pos polyline (t.updateCurrLine pos polyline line)

/-- `updatePosition`: the new cursor, and whether its line has to be updated. -/
def updatePosition (c : Option (Cursor K)) (time : K) : Option (Cursor K) × Bool :=
  if time < t.dTime ∨ time > t.aTime then (none, c.isSome)
  else
    let pos := t.posAt time
    match c with
    | none => (some (t.locate pos 0 0), true)
    | some c =>
      if t.onLine pos c.polyline c.line then (some (t.cursorAt pos c.polyline c.line), false)
      else (some (t.locate pos c.polyline c.line), true)

/-- `getMercatorLine` -/
def getMercatorLine (c : Cursor K) : Option (MercatorCoordinate K × MercatorCoordinate K) := do
  let p ← t.polylines[c.polyline]?
  let mc := p.polyline.mercatorCoordinates
  if p.fwd then return (← mc[c.line]?, ← mc[c.line + 1]?)
  else
    let offset := p.polyline.lineCount - c.line
    return (← mc[offset]?, ← mc[offset - 1]?)

/-- `mix` of the shader -/
def mix (a b : MercatorCoordinate K) (progress : K) : MercatorCoordinate K :=
  ⟨a.x * (1 - progress) + b.x * progress, a.y * (1 - progress) + b.y * progress⟩

/-- Where the train is drawn. -/
def drawnAt (c : Cursor K) : Option (MercatorCoordinate K) := do
  let (a, b) ← t.getMercatorLine c
  match c.progress with
  | .number progress => return mix a b progress
  | .infinity _ => none

end Train

end Model

end Motis.Ui.RailViz
