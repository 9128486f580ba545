import Motis.Intermodal.MumoEdges
import Motis.Lib.Fallible

/-! Direct connections of an intermodal request between two coordinates.

    A direct connection is a way of a street router from the start to the destination, or an edge
    that a generator found between the two pseudo stations. The response gives the positions by the
    order of the stops:

        forward     first: start          last: destination
        backward    first: destination    last: start -/

namespace Motis.Intermodal
open Journey Fallible
open Gbfs (SearchDir)

/-! ### Requests -/

inductive IntermodalStart where
  | intermodalOntripStart (position : LatLng) (departureTime : Unixtime)
  | intermodalPretripStart (position : LatLng) (begin_ end_ : Unixtime)

structure IntermodalRoutingRequest where
  start : IntermodalStart
  startModes : List Mode
  destination : LatLng
  destinationModes : List Mode
  searchDir : SearchDir

structure QueryStart where
  isIntermodal : Bool
  pos : LatLng
  time : Unixtime

structure QueryDest where
  isIntermodal : Bool
  pos : LatLng

def getDirectStartTime (begin_ end_ : Unixtime) : Unixtime := begin_ + (end_ - begin_) / 2

def parseQueryStart (req : IntermodalRoutingRequest) : QueryStart :=
  match req.start with
  | .intermodalOntripStart position departureTime => ⟨true, position, departureTime⟩
  | .intermodalPretripStart position begin_ end_ => ⟨true, position, getDirectStartTime begin_ end_⟩

def parseQueryDest (req : IntermodalRoutingRequest) : QueryDest := ⟨true, req.destination⟩

def IntermodalStart.position : IntermodalStart → LatLng
  | .intermodalOntripStart position _ => position
  | .intermodalPretripStart position _ _ => position

/-! ### Direct ways -/

structure DirectConnection where
  type : MumoType
  /-- In minutes. -/
  duration : UInt32
  accessibility : UInt32
  mumoId : ℤ := -1
  deriving DecidableEq, Repr

structure PprSettings where
  profile : String := ""
  maxDuration : ℚ := 0
  maxDistance : ℚ := 0

structure OsrmSettings where
  maxDuration : ℤ := 0
  maxDistance : ℚ := 0

def OsrmSettings.add (lhs rhs : OsrmSettings) : OsrmSettings :=
  ⟨lhs.maxDuration + rhs.maxDuration, lhs.maxDistance + rhs.maxDistance⟩

/-- `std::max`, of the durations first. -/
def OsrmSettings.max (lhs rhs : OsrmSettings) : OsrmSettings :=
  if lhs.maxDuration < rhs.maxDuration ∨
      lhs.maxDuration = rhs.maxDuration ∧ lhs.maxDistance < rhs.maxDistance then rhs else lhs

/-- The settings of the last mode of a kind. -/
def getOsrmSettings (maxDuration : Mode → Option ℤ) (speed : ℚ) (modes : List Mode) :
    OsrmSettings :=
  modes.foldl (fun settings m =>
    match maxDuration m with
    | some maxDuration => ⟨maxDuration, maxDuration * speed⟩
    | none => settings) {}

def bikeDuration : Mode → Option ℤ
  | .bike maxDuration => some maxDuration
  | _ => none

def carDuration : Mode → Option ℤ
  | .car maxDuration => some maxDuration
  | _ => none

def carParkingDuration : Mode → Option ℤ
  | .carParking maxCarDuration _ => some maxCarDuration
  | _ => none

def getDirectOsrmBikeSettings (req : IntermodalRoutingRequest) : OsrmSettings :=
  (getOsrmSettings bikeDuration bikeSpeed req.startModes).add
    (getOsrmSettings bikeDuration bikeSpeed req.destinationModes)

def getDirectOsrmCarSettings (req : IntermodalRoutingRequest) : OsrmSettings :=
  let startSettings := (getOsrmSettings carDuration carSpeed req.startModes).max
    (getOsrmSettings carParkingDuration carSpeed req.startModes)
  let destSettings := (getOsrmSettings carDuration carSpeed req.destinationModes).max
    (getOsrmSettings carParkingDuration carSpeed req.destinationModes)
  startSettings.add destSettings

section Services

variable (services : Services) (req : IntermodalRoutingRequest)

def getPprSettings (modes : List Mode) : PprSettings :=
  modes.foldl (fun settings m =>
    match m with
    | .footPPR options =>
      ⟨options.profile, options.durationLimit,
        services.getWalkingSpeed options.profile * options.durationLimit⟩
    | _ => settings) {}

def getDirectPprSettings : PprSettings :=
  let startSettings := getPprSettings services req.startModes
  let destSettings := getPprSettings services req.destinationModes
  let profile := match req.searchDir with
    | .forward => startSettings.profile
    | .backward => destSettings.profile
  let maxDuration := startSettings.maxDuration + destSettings.maxDuration
  ⟨profile, maxDuration,
    if 0 < maxDuration then services.getWalkingSpeed profile * maxDuration else 0⟩

def beeline : ℚ := services.distance (parseQueryStart req).pos (parseQueryDest req).pos

/-- `/osrm/one_to_many`, with one destination. -/
def directDuration (profile : MumoType) : ℕ :=
  oneToManyDuration (services.oneToMany profile.toString req.searchDir (parseQueryStart req).pos
    [(parseQueryDest req).pos] 0)

def pprConnections : List DirectConnection :=
  let settings := getDirectPprSettings services req
  if 0 < settings.maxDuration ∧ beeline services req ≤ settings.maxDistance then
    match services.pprRoute req.searchDir (parseQueryStart req).pos [(parseQueryDest req).pos]
        ⟨settings.profile, settings.maxDuration⟩ with
    | [routes] => routes.map fun route =>
      ⟨.foot, route.duration.toUInt32, route.accessibility.toUInt32, -1⟩
    | _ => []
  else []

def osrmConnections (settings : OsrmSettings) (type : MumoType) : List DirectConnection :=
  if 0 < settings.maxDuration ∧ beeline services req ≤ settings.maxDistance then
    let duration := directDuration services req type
    if duration ≤ settings.maxDuration then [⟨type, UInt32.ofNat (duration / 60), 0, -1⟩] else []
  else []

/-- The three searches run in parallel. -/
def streetConnections : List DirectConnection :=
  pprConnections services req ++
    osrmConnections services req (getDirectOsrmBikeSettings req) .bike ++
    osrmConnections services req (getDirectOsrmCarSettings req) .car

def mumoConnections (edgeMapping : List PlacedEdge) : List DirectConnection :=
  edgeMapping.zipIdx.filterMap fun (e, i) =>
    if e.from_ = stationStart ∧ e.to_ = stationEnd then
      some ⟨e.kind.type, e.duration.toUInt32, e.accessibility.toUInt32, i⟩
    else none

def getDirectConnections (edgeMapping : List PlacedEdge) : List DirectConnection :=
  streetConnections services req ++ mumoConnections edgeMapping

end Services

/-- `1.2 * j.duration_` is rounded down. -/
def removeDominatedJourneys (journeys : List Journey) (direct : List DirectConnection) :
    List Journey :=
  journeys.filter fun j =>
    let jd := 12 * j.duration.toNat / 10
    !direct.any fun d =>
      (d.duration.toNat < jd && d.accessibility ≤ j.accessibility) ||
        (d.duration.toNat ≤ jd && d.accessibility < j.accessibility)

/-- The journey that `add_direct_connections` adds; a mumo id is an `int`. -/
def directJourney (qStart : QueryStart) (qDest : QueryDest) (req : IntermodalRoutingRequest)
    (d : DirectConnection) : Journey :=
  let seconds := Int64.ofNat (d.duration * 60).toNat
  let depTime := match req.searchDir with
    | .forward => qStart.time
    | .backward => qStart.time - seconds
  let arrTime := match req.searchDir with
    | .forward => qStart.time + seconds
    | .backward => qStart.time
  { stops :=
      [{ name := stationStart, evaNo := stationStart, lat := qStart.pos.lat, lng := qStart.pos.lng
         departure := { valid := true, timestamp := depTime, scheduleTimestamp := depTime } },
       { name := stationEnd, evaNo := stationEnd, lat := qDest.pos.lat, lng := qDest.pos.lng
         arrival := { valid := true, timestamp := arrTime, scheduleTimestamp := arrTime } }]
    transports :=
      [{ from_ := 0, to_ := 1, isWalk := true, duration := d.duration
         mumoAccessibility := d.accessibility, mumoType := d.type.toString
         mumoId := Int32.ofInt d.mumoId }] }

/-! ### The response -/

/-- A connection, and the direct one that it was added for. -/
structure Connection where
  journey : Journey
  direct : Option DirectConnection := none

def setPosition (pos : LatLng) (s : Stop) : Stop := { s with lat := pos.lat, lng := pos.lng }

/-- `stops.front()` -/
def setFront (pos : LatLng) (stops : List Stop) : List Stop := stops.modifyHead (setPosition pos)

/-- `stops.back()` -/
def setBack (pos : LatLng) (stops : List Stop) : List Stop :=
  stops.modify (stops.length - 1) (setPosition pos)

def setPositions (qStart : QueryStart) (qDest : QueryDest) (dir : SearchDir) (stops : List Stop) :
    List Stop :=
  let stops :=
    if qStart.isIntermodal then
      match dir with
      | .forward => setFront qStart.pos stops
      | .backward => setBack qStart.pos stops
    else stops
  if qDest.isIntermodal then
    match dir with
    | .forward => setBack qDest.pos stops
    | .backward => setFront qDest.pos stops
  else stops

/-- The loop body of `postprocess_response`. -/
def postprocess (qStart : QueryStart) (qDest : QueryDest) (dir : SearchDir)
    (edgeMapping : List PlacedEdge) (j : Journey) : Except Error Journey :=
  if j.stops.length < 2 then pure j
  else do
    let j := { j with stops := setPositions qStart qDest dir j.stops }
    let (j, _) ← postprocessJourney (edgeMapping.map (·.toMumoEdge)) j
    pure j

/-- The departure at the front and the arrival at the back. -/
def sortKey (c : Connection) : ℤ × ℤ :=
  let stops := c.journey.stops
  (((stops.head?.map fun s : Stop => s.departure.scheduleTimestamp).getD 0).toInt,
    ((stops.getLast?.map fun s : Stop => s.arrival.scheduleTimestamp).getD 0).toInt)

def sortConnections (connections : List Connection) : List Connection :=
  connections.mergeSort fun a b =>
    (sortKey a).1 < (sortKey b).1 || (sortKey a).1 = (sortKey b).1 && (sortKey a).2 ≤ (sortKey b).2

structure RoutingResponse where
  connections : List Connection
  directConnections : List DirectConnection

section Route

variable (services : Services) (req : IntermodalRoutingRequest)

def deps : List PlacedEdge :=
  let start := parseQueryStart req
  let found := makeStarts services req.startModes start.pos (parseQueryDest req).pos
  match req.searchDir with
  | .forward => found.map (·.leaving stationStart start.pos)
  | .backward => found.map (·.entering stationStart start.pos)

def arrs : List PlacedEdge :=
  let dest := parseQueryDest req
  let found := makeDests services req.destinationModes dest.pos (parseQueryStart req).pos
  match req.searchDir with
  | .forward => found.map (·.entering stationEnd dest.pos)
  | .backward => found.map (·.leaving stationEnd dest.pos)

/-- `write_edges` -/
def edgeMapping : List PlacedEdge := deps services req ++ arrs services req

/-- The journeys of the router, which is asked when there are edges on both sides. -/
def routed (routing : List PlacedEdge → List Journey) : List Journey :=
  if deps services req ≠ [] ∧ arrs services req ≠ [] then routing (edgeMapping services req) else []

def postprocessResponse (journeys : List Journey) : Except Error RoutingResponse := do
  let qStart := parseQueryStart req
  let qDest := parseQueryDest req
  let direct := getDirectConnections services req (edgeMapping services req)
  let journeys : List Connection :=
    (removeDominatedJourneys journeys direct).map ({ journey := · }) ++
      direct.map fun d => { journey := directJourney qStart qDest req d, direct := some d }
  let journeys ← journeys.mapM fun c => do
    let journey ← postprocess qStart qDest req.searchDir (edgeMapping services req) c.journey
    return { c with journey }
  let journeys := journeys.filter fun c => !c.journey.stops.isEmpty
  return { connections := sortConnections journeys, directConnections := direct }

def route (routing : List PlacedEdge → List Journey) : Except Error RoutingResponse :=
  postprocessResponse services req (routed services req routing)

end Route

end Motis.Intermodal
