import Mathlib.Data.Rat.Floor
import Motis.Parking.Database

/-! Foot edges between parking lots and the stations around them.

    Foot edges are stored for each lot and profile, with the ids of the stations they were computed
    for. As long as the stations in reach have the same ids, the stored edges are kept:

        stations in radius ──▶ "1|7|12|" ── as stored ──▶ keep
                                        └── different ──▶ task ──▶ compute_edges ──▶ put_footedges

    The street router is another project's; lengths and times are rationals here. -/

namespace Motis.Parking

inductive SearchDirection where | fwd | bwd
  deriving DecidableEq, Repr

structure LookupStation (Pos : Type) where
  id : String
  pos : Pos
  deriving DecidableEq, Repr

/-- The stations within a radius, with their distances. -/
abbrev StationLookup (Pos : Type) := Pos → ℤ → List (LookupStation Pos × ℚ)

/-- `duration_limit_` in seconds, `walking_speed_`, and the rest of a profile. -/
structure SearchProfile (Opts : Type) where
  durationLimit : ℚ
  walkingSpeed : ℚ
  options : Opts
  deriving DecidableEq, Repr

/-- A route of the street router, its duration in seconds. -/
structure Route where
  duration : ℚ
  accessibility : ℚ
  distance : ℚ
  deriving DecidableEq, Repr

/-- `find_routes` from a location to several, on a graph. -/
abbrev FindRoutes (Graph Pos Opts : Type) :=
  Graph → Pos → List Pos → SearchProfile Opts → SearchDirection → List (List Route)

/-! ### Routing -/

structure FootEdgeInfo where
  /-- In minutes. -/
  duration : ℕ
  accessibility : ℕ
  distance : ℚ
  deriving DecidableEq, Repr

/-- `std::round` of what is not negative. -/
def roundHalfUp (x : ℚ) : ℕ := ⌊x + 1 / 2⌋.toNat

/-- The limit of `duration`. -/
def maxDuration : ℕ := 65535

def getDuration (r : Route) : ℕ := min (roundHalfUp (r.duration / 60)) maxDuration

/-- What exceeds `uint16_t` is undefined. -/
def getAccessibility (r : Route) : ℕ := ⌈r.accessibility⌉.toNat

def footEdgeInfo (r : Route) : FootEdgeInfo := ⟨getDuration r, getAccessibility r, r.distance⟩

variable {Graph Pos Opts : Type}

def routePprDirect (findRoutes : FindRoutes Graph Pos Opts) (rg : Graph) (parkingLoc : Pos)
    (stationLocs : List Pos) (profile : SearchProfile Opts) (dir : SearchDirection) :
    List (List FootEdgeInfo) :=
  (findRoutes rg parkingLoc stationLocs profile dir).map (·.map footEdgeInfo)

/-! ### Edges -/

structure FootEdge where
  stationId : String
  stationDistance : ℚ
  duration : ℕ
  accessibility : ℕ
  distance : ℚ
  deriving DecidableEq, Repr

structure FootEdges where
  parkingId : ℤ
  searchProfile : String
  outwardEdges : List FootEdge
  returnEdges : List FootEdge
  deriving DecidableEq, Repr

structure FootEdgeTask (Pos : Type) where
  parkingLot : ParkingLot Pos
  stationsInRadius : List (LookupStation Pos × ℚ)
  pprProfile : String
  deriving DecidableEq, Repr

def createFootEdge (station : LookupStation Pos × ℚ) (r : FootEdgeInfo) : FootEdge :=
  ⟨station.1.id, station.2, r.duration, r.accessibility, r.distance⟩

/-- The edges of one direction, station after station. -/
def createFootEdges (stations : List (LookupStation Pos × ℚ)) (routes : List (List FootEdgeInfo)) :
    List FootEdge :=
  (stations.zip routes).flatMap fun (station, rs) => rs.map (createFootEdge station)

/-- What the edges of a lot depend on. -/
structure EdgeInputs (Graph Pos Opts : Type) where
  rg : Graph
  location : Pos
  stations : List (LookupStation Pos × ℚ)
  profile : SearchProfile Opts
  exact : Bool

/-- The edges of one direction; a station without a route gets none. -/
def EdgeInputs.edges (findRoutes : FindRoutes Graph Pos Opts) (i : EdgeInputs Graph Pos Opts)
    (dir : SearchDirection) : List FootEdge :=
  if i.stations.isEmpty then []
  else createFootEdges i.stations
    (routePprDirect findRoutes i.rg i.location (i.stations.map (·.1.pos)) i.profile dir)

/-- Without `exact` the edges of the way there are those of the way back, too. -/
def EdgeInputs.footEdges (findRoutes : FindRoutes Graph Pos Opts) (i : EdgeInputs Graph Pos Opts)
    (key : ℤ × String) : FootEdges where
  parkingId := key.1
  searchProfile := key.2
  outwardEdges := i.edges findRoutes .fwd
  returnEdges := if i.exact then i.edges findRoutes .bwd else i.edges findRoutes .fwd

def computeEdges (findRoutes : FindRoutes Graph Pos Opts) (rg : Graph) (task : FootEdgeTask Pos)
    (profile : SearchProfile Opts) (exact : Bool) : FootEdges :=
  EdgeInputs.footEdges findRoutes
    ⟨rg, task.parkingLot.location, task.stationsInRadius, profile, exact⟩
    (task.parkingLot.id, task.pprProfile)

/-! ### The tables of the foot edges -/

/-- `<parking id>:<profile>`. -/
abbrev FootEdgesKey := ℤ × String

structure FootEdgeTables where
  reachableStations : FootEdgesKey → Option String := fun _ => none
  footedges : FootEdgesKey → Option FootEdges := fun _ => none

def serializeReachableStations (stations : List (LookupStation Pos × ℚ)) : String :=
  stations.foldl (fun ss s => ss ++ s.1.id ++ "|") ""

def FootEdgeTables.putFootedges (t : FootEdgeTables) (fe : FootEdges)
    (reachable : List (LookupStation Pos × ℚ)) : FootEdgeTables :=
  let key := (fe.parkingId, fe.searchProfile)
  { reachableStations :=
      Function.update t.reachableStations key (some (serializeReachableStations reachable))
    footedges := Function.update t.footedges key (some fe) }

def walkRadius (profile : SearchProfile Opts) : ℤ := ⌈profile.durationLimit * profile.walkingSpeed⌉

/-- The stored edges of a task are kept. -/
def FootEdgeTables.keeps (t : FootEdgeTables) (task : FootEdgeTask Pos) : Bool :=
  let key := (task.parkingLot.id, task.pprProfile)
  t.reachableStations key == some (serializeReachableStations task.stationsInRadius) &&
    (t.footedges key).isSome

def footEdgeTask (st : StationLookup Pos) (pl : ParkingLot Pos)
    (profile : String × SearchProfile Opts) : FootEdgeTask Pos :=
  ⟨pl, st pl.location (walkRadius profile.2), profile.1⟩

def FootEdgeTables.getFootEdgeTasks (t : FootEdgeTables) (st : StationLookup Pos)
    (parkingLots : List (ParkingLot Pos)) (profiles : List (String × SearchProfile Opts)) :
    List (FootEdgeTask Pos × SearchProfile Opts) :=
  profiles.flatMap fun profile => parkingLots.filterMap fun pl =>
    let task := footEdgeTask st pl profile
    if t.keeps task then none else some (task, profile.2)

end Motis.Parking
