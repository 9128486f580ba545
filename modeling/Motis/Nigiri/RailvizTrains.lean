import Mathlib.Data.List.Perm.Basic
import Mathlib.Algebra.Order.Ring.Unbundled.Rat
import Mathlib.Algebra.Order.Monoid.Unbundled.WithTop
import Mathlib.Algebra.Ring.Rat
import Motis.Lib.Fallible
import Motis.Nigiri.Railviz

/-! The trains in an area of the map.

    Routes and real-time transports are kept by class, in r-trees of their bounding boxes:

        classes at the zoom ──▶ boxes in the area ──▶ distance ──▶ sections in area and window

    A class that is displayed at no distance is skipped, and what has its box elsewhere is not
    looked at. -/

namespace Motis.Nigiri

/-! ### Classes and zoom levels -/

inductive Clasz where
  | air | highSpeed | longDistance | coach | night | regionalFast | regional | metro | subway
  | tram | bus | ship | other
  deriving DecidableEq, Repr

namespace Clasz

def all : List Clasz :=
  [air, highSpeed, longDistance, coach, night, regionalFast, regional, metro, subway, tram, bus,
    ship, other]

/-- The value in the timetable. -/
def toUInt8 : Clasz → UInt8
  | air => 0
  | highSpeed => 1
  | longDistance => 2
  | coach => 3
  | night => 4
  | regionalFast => 5
  | regional => 6
  | metro => 7
  | subway => 8
  | tram => 9
  | bus => 10
  | ship => 11
  | other => 12

theorem mem_all (c : Clasz) : c ∈ all := by cases c <;> decide

theorem nodup_all : all.Nodup := by decide

theorem toUInt8_inj {c c' : Clasz} (h : c.toUInt8 = c'.toUInt8) : c = c' := by
  cases c <;> cases c' <;> first | rfl | simp [toUInt8] at h

end Clasz

/-- A float that is a number or infinite. -/
abbrev Meters := WithTop ℚ

def minZoomLevel (clasz : Clasz) (distance : Meters) : ℤ :=
  match clasz with
  | .air | .coach => if distance < (50000 : ℚ) then 8 else 5
  | .highSpeed | .longDistance | .night | .regionalFast | .regional => 5
  | .metro => 8
  | .subway => 9
  | .tram | .bus => if (10000 : ℚ) < distance then 9 else 10
  | .ship => if (100000 : ℚ) < distance then 5 else if (10000 : ℚ) < distance then 8 else 10
  | .other => 11

def shouldDisplay (clasz : Clasz) (zoomLevel : ℤ) (distance : Meters) : Bool :=
  minZoomLevel clasz distance ≤ zoomLevel

/-- No class needs a greater zoom level for a greater distance. -/
theorem minZoomLevel_top_le (clasz : Clasz) (distance : Meters) :
    minZoomLevel clasz ⊤ ≤ minZoomLevel clasz distance := by
  cases clasz with
  | air | coach | tram | bus | ship =>
    simp only [minZoomLevel, not_top_lt, WithTop.coe_lt_top, if_true, if_false]
    split_ifs <;> decide
  | _ => exact le_rfl

theorem shouldDisplay_top {clasz : Clasz} {zoomLevel : ℤ} {distance : Meters}
    (h : shouldDisplay clasz zoomLevel distance) : shouldDisplay clasz zoomLevel ⊤ := by
  simp only [shouldDisplay, decide_eq_true_eq] at h ⊢
  exact (minZoomLevel_top_le clasz distance).trans h

/-! ### Boxes -/

/-- What is used of boxes and r-trees. A query gives the values in any order. -/
structure GeoLibrary (Box : Type) where
  empty : Box
  extend : Box → Double × Double → Box
  min : Box → Double × Double
  max : Box → Double × Double
  distance : Double × Double → Double × Double → Meters
  overlaps : Box → Box → Bool
  intersects : Box → Box → Bool
  query : List (Box × ℕ) → Box → List (Box × ℕ)
  query_perm : ∀ values area,
    (query values area).Perm (values.filter fun v => intersects v.1 area)
  /-- The box of a section lies in the one of its route. -/
  intersects_of_overlaps : ∀ {positions : List (Double × Double)} {a b : Double × Double}
    {area : Box}, a ∈ positions → b ∈ positions →
      overlaps ([a, b].foldl extend empty) area = true →
        intersects (positions.foldl extend empty) area = true

namespace GeoLibrary
variable {Box : Type} (geo : GeoLibrary Box)

/-- `make_box`, and the loops over `extend`. -/
def makeBox (positions : List (Double × Double)) : Box := positions.foldl geo.extend geo.empty

/-! ### Indices -/

/-- The r-trees of all classes, and the distances that their construction has set. -/
structure Indices (Box : Type) where
  values : Clasz → List (Box × ℕ) := fun _ => []
  distances : ℕ → Meters := fun _ => 0

/-- The static and the real-time index: `n` transports with their sections' classes and their
    locations. -/
structure Indexed where
  n : ℕ
  sectionClasz : ℕ → List UInt8
  positions : ℕ → List (Double × Double)

/-- The loop of `route_geo_index` and `rt_transport_geo_index`. The classes of a transport without
    sections are read past their end. -/
def addToIndex (tr : Indexed) (boxDistance : Box → Meters) (clasz : Clasz)
    (indices : Indices Box) (i : ℕ) : Except Error (Indices Box) := do
  let first ← at? (tr.sectionClasz i) 0
  if first ≠ clasz.toUInt8 then return indices
  let boundingBox := geo.makeBox (tr.positions i)
  return {
    values := Function.update indices.values clasz (indices.values clasz ++ [(boundingBox, i)])
    distances := Function.update indices.distances i (boxDistance boundingBox) }

def buildIndices (tr : Indexed) (boxDistance : Box → Meters) : Except Error (Indices Box) :=
  Clasz.all.foldlM (fun indices clasz =>
    (List.range tr.n).foldlM (geo.addToIndex tr boxDistance clasz) indices) {}

/-- `get_routes`, and `get_rt_transports` before it leaves out what is cancelled. -/
def inArea (indices : Indices Box) (clasz : Clasz) (area : Box) : List ℕ :=
  (geo.query (indices.values clasz) area).map (·.2)

/-! ### What the indices hold -/

/-- The class of the first section. -/
def Indexed.HasClasz (tr : Indexed) (clasz : Clasz) (i : ℕ) : Prop :=
  (tr.sectionClasz i)[0]? = some clasz.toUInt8

instance (tr : Indexed) (clasz : Clasz) (i : ℕ) : Decidable (tr.HasClasz clasz i) :=
  inferInstanceAs (Decidable (_ = _))

theorem Indexed.HasClasz.inj {tr : Indexed} {clasz clasz' : Clasz} {i : ℕ}
    (h : tr.HasClasz clasz i) (h' : tr.HasClasz clasz' i) : clasz = clasz' :=
  Clasz.toUInt8_inj (Option.some.inj (h.symm.trans h'))

variable {geo} {tr : Indexed} {boxDistance : Box → Meters} {clasz : Clasz}
  {indices indices' : Indices Box}

/-- One class. -/
theorem addToIndex_foldlM {l : List ℕ}
    (h : l.foldlM (geo.addToIndex tr boxDistance clasz) indices = .ok indices') :
    indices'.values = Function.update indices.values clasz (indices.values clasz ++
      (l.filter fun i => tr.HasClasz clasz i).map fun i => (geo.makeBox (tr.positions i), i)) ∧
    ∀ i, indices'.distances i = if i ∈ l ∧ tr.HasClasz clasz i then
      boxDistance (geo.makeBox (tr.positions i)) else indices.distances i := by
  induction l generalizing indices with
  | nil =>
    obtain rfl := Except.ok.inj h
    simp
  | cons j l ih =>
    obtain ⟨next, hstep, hrest⟩ := Fallible.foldlM_cons_ok h
    obtain ⟨hvalues, hdistances⟩ := ih hrest
    obtain ⟨first, hfirst, hadd⟩ := Fallible.bind_ok hstep
    have hclasz : tr.HasClasz clasz j ↔ first = clasz.toUInt8 := by
      rw [at?] at hfirst
      split at hfirst
      · next a ha =>
        obtain rfl := Except.ok.inj hfirst
        simp [Indexed.HasClasz, ha]
      · cases hfirst
    rcases eq_or_ne first clasz.toUInt8 with heq | hne
    · rw [if_neg (by simpa using heq)] at hadd
      obtain rfl := Except.ok.inj hadd
      have hj := hclasz.mpr heq
      refine ⟨?_, fun i => ?_⟩
      · simp [hvalues, hj]
      · rw [hdistances]
        rcases eq_or_ne i j with rfl | hij
        · simp [hj]
        · simp [hij]
    · rw [if_pos hne] at hadd
      obtain rfl := Except.ok.inj hadd
      have hj := hclasz.not.mpr hne
      refine ⟨?_, fun i => ?_⟩
      · simp [hvalues, hj]
      · rw [hdistances]
        rcases eq_or_ne i j with rfl | hij
        · simp [hj]
        · simp [hij]

/-- The r-trees of the classes hold what is of these classes, and the distances are those of its
    boxes. -/
structure Holds (geo : GeoLibrary Box) (tr : Indexed) (boxDistance : Box → Meters)
    (classes : List Clasz) (indices : Indices Box) : Prop where
  values : ∀ clasz ∈ classes, indices.values clasz =
    ((List.range tr.n).filter fun i => tr.HasClasz clasz i).map fun i =>
      (geo.makeBox (tr.positions i), i)
  others : ∀ clasz ∉ classes, indices.values clasz = []
  distances : ∀ clasz ∈ classes, ∀ i < tr.n, tr.HasClasz clasz i →
    indices.distances i = boxDistance (geo.makeBox (tr.positions i))

theorem holds_foldlM (done : List Clasz) {classes : List Clasz} (hnodup : (done ++ classes).Nodup)
    (hdone : Holds geo tr boxDistance done indices)
    (h : classes.foldlM (fun indices clasz =>
      (List.range tr.n).foldlM (geo.addToIndex tr boxDistance clasz) indices) indices =
        .ok indices') :
    Holds geo tr boxDistance (done ++ classes) indices' := by
  induction classes generalizing done indices with
  | nil =>
    obtain rfl := Except.ok.inj h
    rwa [List.append_nil]
  | cons clasz classes ih =>
    obtain ⟨next, hstep, hrest⟩ := Fallible.foldlM_cons_ok h
    obtain ⟨hvalues, hdistances⟩ := addToIndex_foldlM hstep
    have hnew : clasz ∉ done := fun hmem =>
      List.disjoint_of_nodup_append hnodup hmem List.mem_cons_self
    rw [List.append_cons] at hnodup ⊢
    refine ih (done ++ [clasz]) hnodup ⟨fun c hc => ?_, fun c hc => ?_, fun c hc i hi hi' => ?_⟩
      hrest
    · rw [hvalues]
      rcases eq_or_ne c clasz with rfl | hne
      · rw [Function.update_self, hdone.others _ hnew, List.nil_append]
      · rw [Function.update_of_ne hne]
        exact hdone.values c (by simpa [hne] using hc)
    · have hne : c ≠ clasz := by
        rintro rfl
        simp at hc
      rw [hvalues, Function.update_of_ne hne]
      exact hdone.others c fun hmem => hc (List.mem_append_left _ hmem)
    · rw [hdistances]
      split_ifs with hset
      · rfl
      · have hne : c ≠ clasz := by
          rintro rfl
          exact hset ⟨List.mem_range.mpr hi, hi'⟩
        exact hdone.distances c (by simpa [hne] using hc) i hi hi'

theorem buildIndices_spec (h : geo.buildIndices tr boxDistance = .ok indices) :
    Holds geo tr boxDistance Clasz.all indices :=
  holds_foldlM [] Clasz.nodup_all ⟨by simp, by simp, by simp⟩ h

/-- A query gives what is of the class and has its box in the area, each once. -/
theorem inArea_spec (h : Holds geo tr boxDistance Clasz.all indices) (clasz : Clasz)
    (area : Box) :
    (geo.inArea indices clasz area).Nodup ∧ ∀ i, i ∈ geo.inArea indices clasz area ↔
      i < tr.n ∧ tr.HasClasz clasz i ∧ geo.intersects (geo.makeBox (tr.positions i)) area := by
  have hperm := (geo.query_perm (indices.values clasz) area).map (·.2)
  have hvalues : ((indices.values clasz).filter fun v => geo.intersects v.1 area).map (·.2) =
      (List.range tr.n).filter fun i => tr.HasClasz clasz i ∧
        geo.intersects (geo.makeBox (tr.positions i)) area := by
    rw [h.values clasz (Clasz.mem_all clasz), List.filter_map, List.map_map, List.filter_filter]
    simp [Function.comp_def, Bool.and_comm]
  rw [hvalues] at hperm
  refine ⟨hperm.nodup_iff.mpr (List.nodup_range.filter _), fun i => hperm.mem_iff.trans ?_⟩
  simp

end GeoLibrary

/-! ### Trains -/

/-- A section of a static or of a real-time transport. -/
inductive ShownRun where
  | static (p : StopPair)
  | rt (t : RtTransportIdx) (from_ to_ : StopIdx)
  deriving DecidableEq, Repr

/-- What is read of the real-time transports besides their stops. -/
structure RtTransports where
  rtt : RtTimetable
  n : ℕ
  sectionClasz : RtTransportIdx → List UInt8
  isCancelled : RtTransportIdx → Bool

section Railviz
variable {Box : Type} (geo : GeoLibrary Box)

def staticIndexed (tt : Timetable) (n : ℕ) : GeoLibrary.Indexed where
  n := n
  sectionClasz := tt.routeSectionClasz
  positions r := (tt.routeLocationSeq r).map tt.coordinates

def rtIndexed (tt : Timetable) (rt : RtTransports) : GeoLibrary.Indexed where
  n := rt.n
  sectionClasz := rt.sectionClasz
  positions t := (rt.rtt.rtTransportLocationSeq t).map fun l => tt.coordinates l.locationIdx

def staticDistance (box : Box) : Meters := geo.distance (geo.max box) (geo.min box)

def rtDistance (box : Box) : Meters := geo.distance (geo.min box) (geo.max box)

/-- After an `update`. -/
structure RailvizRt (tt : Timetable) extends RtTransports where
  indices : GeoLibrary.Indices Box
  built : geo.buildIndices (rtIndexed tt toRtTransports) (rtDistance geo) = .ok indices

/-- `railviz::impl`, for `n` routes. -/
structure RailvizImpl (tt : Timetable) where
  td : TrafficDays tt
  n : ℕ
  indices : GeoLibrary.Indices Box
  built : geo.buildIndices (staticIndexed tt n) (staticDistance geo) = .ok indices
  rt : Option (RailvizRt geo tt) := none

variable {tt : Timetable}

/-- `geo::make_box({from, to}).overlaps(area)` -/
def sectionOverlaps (area : Box) (from_ to_ : Double × Double) : Bool :=
  geo.overlaps (geo.makeBox [from_, to_]) area

def addRtTransports (tt : Timetable) (rtt : RtTimetable) (timeInterval : TimeInterval)
    (area : Box) (t : RtTransportIdx) : List ShownRun :=
  let seq := rtt.rtTransportLocationSeq t
  ((List.range (seq.length - 1)).filter fun from_ =>
    (match seq[from_]?, seq[from_ + 1]? with
      | some l, some l' => sectionOverlaps geo area (tt.coordinates l.locationIdx)
          (tt.coordinates l'.locationIdx)
      | _, _ => false) &&
    timeInterval.overlaps (rtt.unixEventTime t from_ .dep).toInt
      (rtt.unixEventTime t (from_ + 1) .arr).toInt).map fun from_ => .rt t from_ (from_ + 1)

namespace RailvizImpl
variable {geo} (rv : RailvizImpl geo tt) (timeInterval : TimeInterval) (area : Box) (zoomLevel : ℤ)

def rtt : Option RtTimetable := rv.rt.map (·.rtt)

/-- The real-time transports of a class. -/
def rtTrains (clasz : Clasz) : List ShownRun :=
  match rv.rt with
  | none => []
  | some rt =>
    ((geo.inArea rt.indices clasz area).filter fun t =>
      !rt.isCancelled t && shouldDisplay clasz zoomLevel (rt.indices.distances t)).flatMap
        (addRtTransports geo tt rt.rtt timeInterval area)

/-- The routes of a class. -/
def staticTrains (clasz : Clasz) : Option (List ShownRun) := do
  let runs ← ((geo.inArea rv.indices clasz area).filter fun r =>
    shouldDisplay clasz zoomLevel (rv.indices.distances r)).mapM fun r =>
      addStaticTransports rv.td rv.rtt (sectionOverlaps geo area) r timeInterval
  return runs.flatten.map .static

def trainsOfClasz (clasz : Clasz) : Option (List ShownRun) :=
  if !shouldDisplay clasz zoomLevel ⊤ then some []
  else do
    return rv.rtTrains timeInterval area zoomLevel clasz ++
      (← rv.staticTrains timeInterval area zoomLevel clasz)

/-- `none`: the loop over the days of a route does not end. -/
def getTrains : Option (List ShownRun) := do
  let runs ← Clasz.all.mapM (rv.trainsOfClasz timeInterval area zoomLevel)
  return runs.flatten

end RailvizImpl

/-! ### What is shown -/

/-- The transport is of the class, and its box is large enough for the zoom level. -/
structure Displayed (tr : GeoLibrary.Indexed) (boxDistance : Box → Meters) (zoomLevel : ℤ)
    (clasz : Clasz) (i : ℕ) : Prop where
  lt : i < tr.n
  hasClasz : tr.HasClasz clasz i
  display : shouldDisplay clasz zoomLevel (boxDistance (geo.makeBox (tr.positions i)))

/-- The section of a real-time transport is to be reported. -/
structure RtMatching (tt : Timetable) (rtt : RtTimetable) (timeInterval : TimeInterval)
    (area : Box) (t : RtTransportIdx) (from_ : StopIdx) : Prop where
  section_ : ∃ l l', (rtt.rtTransportLocationSeq t)[from_]? = some l ∧
    (rtt.rtTransportLocationSeq t)[from_ + 1]? = some l' ∧
    sectionOverlaps geo area (tt.coordinates l.locationIdx) (tt.coordinates l'.locationIdx)
  overlaps : timeInterval.overlaps (rtt.unixEventTime t from_ .dep).toInt
    (rtt.unixEventTime t (from_ + 1) .arr).toInt

variable {geo}

/-- What is to be reported of a class, with no index: sections in the area and the window, of
    transports that are displayed, static ones by the days of the window. -/
inductive ShownTrain (rv : RailvizImpl geo tt) (timeInterval : TimeInterval) (area : Box)
    (zoomLevel : ℤ) (clasz : Clasz) : ShownRun → Prop where
  | static {r : RouteIdx} {from_ : StopIdx} {t : TransportIdx} {trafficDay : DayIdx}
      (displayed : Displayed geo (staticIndexed tt rv.n) (staticDistance geo) zoomLevel clasz r)
      (matching :
        Matching rv.td rv.rtt (sectionOverlaps geo area) r timeInterval from_ t trafficDay)
      (from_le : rv.td.dayIdx timeInterval.from_ ≤ departureDay rv.td r from_ t trafficDay)
      (le_to : departureDay rv.td r from_ t trafficDay ≤ rv.td.dayIdx timeInterval.to_) :
      ShownTrain rv timeInterval area zoomLevel clasz (.static (stopPair t trafficDay from_))
  | rt {rt : RailvizRt geo tt} {t : RtTransportIdx} {from_ : StopIdx}
      (isRt : rv.rt = some rt)
      (displayed :
        Displayed geo (rtIndexed tt rt.toRtTransports) (rtDistance geo) zoomLevel clasz t)
      (running : rt.isCancelled t = false)
      (matching : RtMatching geo tt rt.rtt timeInterval area t from_) :
      ShownTrain rv timeInterval area zoomLevel clasz (.rt t from_ (from_ + 1))

variable {rv : RailvizImpl geo tt} {timeInterval : TimeInterval} {area : Box}
  {zoomLevel : ℤ} {clasz : Clasz}

/-- A query finds what has a section in the area, and then the distance is that of its box. -/
theorem displayed_iff {tr : GeoLibrary.Indexed} {boxDistance : Box → Meters}
    {indices : GeoLibrary.Indices Box}
    (h : geo.buildIndices tr boxDistance = .ok indices) {i : ℕ} {a b : Double × Double}
    (ha : a ∈ tr.positions i) (hb : b ∈ tr.positions i) (hsection : sectionOverlaps geo area a b) :
    (i ∈ geo.inArea indices clasz area ∧ shouldDisplay clasz zoomLevel (indices.distances i)) ↔
      Displayed geo tr boxDistance zoomLevel clasz i := by
  have hholds := GeoLibrary.buildIndices_spec h
  have hbox : geo.intersects (geo.makeBox (tr.positions i)) area :=
    geo.intersects_of_overlaps ha hb hsection
  rw [(GeoLibrary.inArea_spec hholds clasz area).2]
  constructor
  · rintro ⟨⟨hlt, hclasz, -⟩, hdisplay⟩
    rw [hholds.distances clasz (Clasz.mem_all clasz) i hlt hclasz] at hdisplay
    exact ⟨hlt, hclasz, hdisplay⟩
  · rintro ⟨hlt, hclasz, hdisplay⟩
    refine ⟨⟨hlt, hclasz, hbox⟩, ?_⟩
    rwa [hholds.distances clasz (Clasz.mem_all clasz) i hlt hclasz]

theorem mem_addRtTransports {rtt : RtTimetable} {t : RtTransportIdx} {p : ShownRun} :
    p ∈ addRtTransports geo tt rtt timeInterval area t ↔
      ∃ from_, RtMatching geo tt rtt timeInterval area t from_ ∧ p = .rt t from_ (from_ + 1) := by
  simp only [addRtTransports, List.mem_map, List.mem_filter, List.mem_range, Bool.and_eq_true]
  constructor
  · rintro ⟨from_, ⟨-, hsection, hoverlaps⟩, rfl⟩
    split at hsection
    · next l l' hl hl' => exact ⟨from_, ⟨⟨l, l', hl, hl', hsection⟩, hoverlaps⟩, rfl⟩
    · cases hsection
  · rintro ⟨from_, ⟨⟨l, l', hl, hl', hsection⟩, hoverlaps⟩, rfl⟩
    have hlt := (List.getElem?_eq_some_iff.mp hl').1
    refine ⟨from_, ⟨by omega, ?_, hoverlaps⟩, rfl⟩
    rwa [hl, hl']

theorem nodup_addRtTransports (rtt : RtTimetable) (t : RtTransportIdx) :
    (addRtTransports geo tt rtt timeInterval area t).Nodup := by
  refine List.Nodup.map (fun _ _ h => ?_) (List.nodup_range.filter _)
  exact (ShownRun.rt.inj h).2.1

namespace RailvizImpl

theorem mem_rtTrains {p : ShownRun} : p ∈ rv.rtTrains timeInterval area zoomLevel clasz ↔
    ∃ rt t from_, rv.rt = some rt ∧
      Displayed geo (rtIndexed tt rt.toRtTransports) (rtDistance geo) zoomLevel clasz t ∧
      rt.isCancelled t = false ∧ RtMatching geo tt rt.rtt timeInterval area t from_ ∧
      p = .rt t from_ (from_ + 1) := by
  rw [rtTrains]
  cases hrt : rv.rt with
  | none => simp
  | some rt =>
    simp only [List.mem_flatMap, List.mem_filter, Bool.and_eq_true, Bool.not_eq_true',
      mem_addRtTransports]
    have hsound : ∀ {t from_}, RtMatching geo tt rt.rtt timeInterval area t from_ →
        ((t ∈ geo.inArea rt.indices clasz area ∧
          shouldDisplay clasz zoomLevel (rt.indices.distances t)) ↔
            Displayed geo (rtIndexed tt rt.toRtTransports) (rtDistance geo) zoomLevel clasz t) := by
      rintro t from_ ⟨⟨l, l', hl, hl', hsection⟩, -⟩
      exact displayed_iff rt.built (List.mem_map_of_mem (List.mem_of_getElem? hl))
        (List.mem_map_of_mem (List.mem_of_getElem? hl')) hsection
    constructor
    · rintro ⟨t, ⟨harea, hrunning, hdisplay⟩, from_, hmatch, rfl⟩
      exact ⟨rt, t, from_, rfl, (hsound hmatch).mp ⟨harea, hdisplay⟩, hrunning, hmatch, rfl⟩
    · rintro ⟨rt', t, from_, hrt', hdisplayed, hrunning, hmatch, rfl⟩
      obtain rfl := Option.some.inj hrt'
      obtain ⟨harea, hdisplay⟩ := (hsound hmatch).mpr hdisplayed
      exact ⟨t, ⟨harea, hrunning, hdisplay⟩, from_, hmatch, rfl⟩

theorem nodup_rtTrains : (rv.rtTrains timeInterval area zoomLevel clasz).Nodup := by
  rw [rtTrains]
  cases rv.rt with
  | none => exact List.nodup_nil
  | some rt =>
    rw [List.nodup_flatMap]
    refine ⟨fun t _ => nodup_addRtTransports rt.rtt t, ?_⟩
    have harea := (GeoLibrary.inArea_spec (GeoLibrary.buildIndices_spec rt.built) clasz area).1
    refine (harea.filter _).imp fun hne p hp hp' => hne ?_
    obtain ⟨_, -, rfl⟩ := mem_addRtTransports.mp hp
    obtain ⟨_, -, heq⟩ := mem_addRtTransports.mp hp'
    exact (ShownRun.rt.inj heq).1

/-- What a static section shows tells its route. -/
theorem route_of_static {r r' : RouteIdx} {from_ from_' : StopIdx} {t t' : TransportIdx}
    {day day' : DayIdx}
    (h : Matching rv.td rv.rtt (sectionOverlaps geo area) r timeInterval from_ t day)
    (h' : Matching rv.td rv.rtt (sectionOverlaps geo area) r' timeInterval from_' t' day')
    (heq : stopPair t day from_ = stopPair t' day' from_') : r = r' := by
  obtain ⟨-, rfl, -⟩ := stopPair_inj heq
  exact (rv.td.route_of_mem_transports h.transport).symm.trans
    (rv.td.route_of_mem_transports h'.transport)

theorem staticTrains_spec (rv : RailvizImpl geo tt) (area : Box) (zoomLevel : ℤ) (clasz : Clasz)
    (hto : rv.td.dayIdx timeInterval.to_ ≠ 65535) :
    ∃ runs, rv.staticTrains timeInterval area zoomLevel clasz = some runs ∧ runs.Nodup ∧
      ∀ p, p ∈ runs ↔ ∃ r from_ t trafficDay,
        Displayed geo (staticIndexed tt rv.n) (staticDistance geo) zoomLevel clasz r ∧
        Matching rv.td rv.rtt (sectionOverlaps geo area) r timeInterval from_ t trafficDay ∧
        rv.td.dayIdx timeInterval.from_ ≤ departureDay rv.td r from_ t trafficDay ∧
        departureDay rv.td r from_ t trafficDay ≤ rv.td.dayIdx timeInterval.to_ ∧
        p = .static (stopPair t trafficDay from_) := by
  have hends : ∀ r, ∃ runs, addStaticTransports rv.td rv.rtt (sectionOverlaps geo area) r
      timeInterval = some runs := fun r =>
    addStaticTransports_isSome_iff.mpr (.inr (.inr hto))
  choose runsOf hrunsOf using hends
  have hspec := fun r => addStaticTransports_spec (hrunsOf r)
  have harea := GeoLibrary.inArea_spec (GeoLibrary.buildIndices_spec rv.built) clasz area
  have hstatic : rv.staticTrains timeInterval area zoomLevel clasz =
      some ((((geo.inArea rv.indices clasz area).filter fun r =>
        shouldDisplay clasz zoomLevel (rv.indices.distances r)).flatMap runsOf).map .static) := by
    rw [staticTrains, Fallible.mapM_eq_some fun r _ => hrunsOf r]
    rfl
  refine ⟨_, hstatic, ?_, fun p => ?_⟩
  · refine List.Nodup.map (fun _ _ h => ShownRun.static.inj h) ?_
    rw [List.nodup_flatMap]
    refine ⟨fun r _ => (hspec r).1, (harea.1.filter _).imp fun hne p hp hp' => hne ?_⟩
    obtain ⟨_, _, _, hmatch, -, -, rfl⟩ := ((hspec _).2 p).mp hp
    obtain ⟨_, _, _, hmatch', -, -, heq⟩ := ((hspec _).2 _).mp hp'
    exact route_of_static hmatch hmatch' heq
  · have hsound : ∀ {r from_ t trafficDay},
        Matching rv.td rv.rtt (sectionOverlaps geo area) r timeInterval from_ t trafficDay →
        ((r ∈ geo.inArea rv.indices clasz area ∧
          shouldDisplay clasz zoomLevel (rv.indices.distances r)) ↔
            Displayed geo (staticIndexed tt rv.n) (staticDistance geo) zoomLevel clasz r) := by
      intro r from_ t trafficDay hmatch
      have hsection := (List.mem_filter.mp hmatch.section_).2
      split at hsection
      · next l l' hl hl' =>
        exact displayed_iff rv.built (List.mem_map_of_mem (List.mem_of_getElem? hl))
          (List.mem_map_of_mem (List.mem_of_getElem? hl')) hsection
      · cases hsection
    simp only [List.mem_map, List.mem_flatMap, List.mem_filter, (hspec _).2]
    constructor
    · rintro ⟨q, ⟨r, harea, from_, t, trafficDay, hmatch, hfrom, hle, rfl⟩, rfl⟩
      exact ⟨r, from_, t, trafficDay, (hsound hmatch).mp harea, hmatch, hfrom, hle, rfl⟩
    · rintro ⟨r, from_, t, trafficDay, hdisplayed, hmatch, hfrom, hle, rfl⟩
      exact ⟨_, ⟨r, (hsound hmatch).mpr hdisplayed, from_, t, trafficDay, hmatch, hfrom, hle, rfl⟩,
        rfl⟩

/-- What is shown of one class; the test before the queries leaves out nothing. -/
theorem trainsOfClasz_spec (rv : RailvizImpl geo tt) (area : Box) (zoomLevel : ℤ) (clasz : Clasz)
    (hto : rv.td.dayIdx timeInterval.to_ ≠ 65535) :
    ∃ runs, rv.trainsOfClasz timeInterval area zoomLevel clasz = some runs ∧ runs.Nodup ∧
      ∀ p, p ∈ runs ↔ ShownTrain rv timeInterval area zoomLevel clasz p := by
  rw [trainsOfClasz]
  cases htop : shouldDisplay clasz zoomLevel ⊤ with
  | false =>
    refine ⟨[], rfl, List.nodup_nil, fun p => iff_of_false List.not_mem_nil ?_⟩
    rintro (⟨hdisplayed, -, -, -⟩ | ⟨-, hdisplayed, -, -⟩) <;>
      simp [shouldDisplay_top hdisplayed.display] at htop
  | true =>
    obtain ⟨runs, hruns, hnodup, hmem⟩ := staticTrains_spec rv area zoomLevel clasz hto
    refine ⟨rv.rtTrains timeInterval area zoomLevel clasz ++ runs, by simp [hruns], ?_, fun p => ?_⟩
    · refine List.nodup_append.mpr ⟨nodup_rtTrains, hnodup, fun p hp q hq heq => ?_⟩
      subst heq
      obtain ⟨_, _, _, -, -, -, -, rfl⟩ := mem_rtTrains.mp hp
      obtain ⟨_, _, _, _, -, -, -, -, hq⟩ := (hmem _).mp hq
      cases hq
    · rw [List.mem_append, mem_rtTrains, hmem]
      constructor
      · rintro (⟨rt, t, from_, hrt, hdisplayed, hrunning, hmatch, rfl⟩ |
          ⟨r, from_, t, trafficDay, hdisplayed, hmatch, hfrom, hle, rfl⟩)
        · exact .rt hrt hdisplayed hrunning hmatch
        · exact .static hdisplayed hmatch hfrom hle
      · rintro (⟨hdisplayed, hmatch, hfrom, hle⟩ | ⟨hrt, hdisplayed, hrunning, hmatch⟩)
        · exact .inr ⟨_, _, _, _, hdisplayed, hmatch, hfrom, hle, rfl⟩
        · exact .inl ⟨_, _, _, hrt, hdisplayed, hrunning, hmatch, rfl⟩

/-- A section is shown by the class of its transport alone. -/
theorem clasz_of_shown {clasz clasz' : Clasz} {p : ShownRun}
    (h : ShownTrain rv timeInterval area zoomLevel clasz p)
    (h' : ShownTrain rv timeInterval area zoomLevel clasz' p) : clasz = clasz' := by
  cases h with
  | static hdisplayed hmatch _ _ =>
    generalize heq : ShownRun.static _ = p at h'
    cases h' with
    | static hdisplayed' hmatch' _ _ =>
      obtain rfl := route_of_static hmatch hmatch' (ShownRun.static.inj heq)
      exact hdisplayed.hasClasz.inj hdisplayed'.hasClasz
    | rt _ _ _ _ => cases heq
  | rt hrt hdisplayed _ _ =>
    cases h' with
    | rt hrt' hdisplayed' _ _ =>
      obtain rfl := Option.some.inj (hrt.symm.trans hrt')
      exact hdisplayed.hasClasz.inj hdisplayed'.hasClasz

/-- CORRECT: the trains of an area are all sections in the area and the window, of all static
    transports, by the days of the window, and all real-time ones that are displayed at the zoom
    level; each is reported once. The classes, the boxes and the distances lose nothing. -/
theorem getTrains_exact (rv : RailvizImpl geo tt) (timeInterval : TimeInterval) (area : Box)
    (zoomLevel : ℤ) (hto : rv.td.dayIdx timeInterval.to_ ≠ 65535) :
    ∃ runs, rv.getTrains timeInterval area zoomLevel = some runs ∧ runs.Nodup ∧
      ∀ p, p ∈ runs ↔ ∃ clasz, ShownTrain rv timeInterval area zoomLevel clasz p := by
  have hclasz := fun clasz => trainsOfClasz_spec rv area zoomLevel clasz hto
  choose runsOf hruns hnodup hmem using hclasz
  have htrains : rv.getTrains timeInterval area zoomLevel =
      some (Clasz.all.flatMap runsOf) := by
    rw [getTrains, Fallible.mapM_eq_some fun clasz _ => hruns clasz]
    rfl
  refine ⟨_, htrains, ?_, fun p => ?_⟩
  · rw [List.nodup_flatMap]
    refine ⟨fun clasz _ => hnodup clasz, Clasz.nodup_all.imp fun hne p hp hp' => hne ?_⟩
    exact clasz_of_shown ((hmem _ p).mp hp) ((hmem _ p).mp hp')
  · simp only [List.mem_flatMap, hmem, Clasz.mem_all, true_and]

end RailvizImpl

end Railviz

/-! A regional train over midnight, with all stops at one point. -/

/-- Boxes of one point, as the positions they were extended by. -/
def pointBoxes : GeoLibrary (List (Double × Double)) where
  empty := []
  extend box p := box ++ [p]
  min box := box.headD (0, 0)
  max box := box.headD (0, 0)
  distance _ _ := 0
  overlaps box area := box.any (· ∈ area)
  intersects box area := box.any (· ∈ area)
  query values area := values.filter fun v => v.1.any (· ∈ area)
  query_perm _ _ := .refl _
  intersects_of_overlaps {positions a b area} ha hb h := by
    have hfold : ∀ l acc : List (Double × Double),
        l.foldl (fun box p => box ++ [p]) acc = acc ++ l := by
      intro l
      induction l with
      | nil => simp
      | cons p l ih => simp [ih]
    simp only [hfold, List.nil_append, List.any_eq_true, List.mem_cons, List.not_mem_nil,
      or_false] at h ⊢
    rcases h with ⟨p, rfl | rfl, hp⟩
    · exact ⟨_, ha, hp⟩
    · exact ⟨_, hb, hp⟩

def regionalOverMidnight : Timetable :=
  { overMidnight with routeSectionClasz := fun r => if r = 0 then [6] else [] }

def regionalRailviz : RailvizImpl pointBoxes regionalOverMidnight where
  td := {
    locationRoutes := overMidnightDays.locationRoutes
    routeTransportRanges := overMidnightDays.routeTransportRanges
    bitfield := overMidnightDays.bitfield
    eventDays := overMidnightDays.eventDays
    dayIdx := overMidnightDays.dayIdx
    dateRangeTo := overMidnightDays.dateRangeTo
    mem_locationRoutes := overMidnightDays.mem_locationRoutes
    transportRoute := overMidnightDays.transportRoute }
  n := 1
  indices := {
    values := Function.update (fun _ => []) .regional [([(0, 0), (0, 0)], 0)]
    distances := Function.update (fun _ => 0) 0 0 }
  built := rfl

/-- On day 3 from 23:40 to midnight it is shown. -/
theorem getTrains_exact_regional :
    ∃ runs, regionalRailviz.getTrains ⟨3 * 1440 + 1420, 3 * 1440 + 1440⟩ [(0, 0)] 7 = some runs ∧
      runs.Nodup ∧ ∀ p, p ∈ runs ↔ ∃ clasz,
        ShownTrain regionalRailviz ⟨3 * 1440 + 1420, 3 * 1440 + 1440⟩ [(0, 0)] 7 clasz p :=
  RailvizImpl.getTrains_exact regionalRailviz _ _ _ (by decide)

example : regionalRailviz.getTrains ⟨3 * 1440 + 1420, 3 * 1440 + 1440⟩ [(0, 0)] 7 =
    some [.static (stopPair 0 3 0)] := by decide

end Motis.Nigiri
