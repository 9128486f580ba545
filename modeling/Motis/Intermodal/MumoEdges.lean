import Mathlib.Algebra.GroupWithZero.Nat
import Mathlib.Data.Rat.Defs
import Motis.Gbfs.Response
import Motis.Intermodal.Patches

/-! The edges between a position and the stops around it.

    Every mode of a request finds its edges: a street router has the durations of the ways to the
    stops, the parking places and the bikes have routes of their own. The generators know one end of
    an edge, the appender adds the pseudo station:

        start, forward       START ──▶ found          destination, forward     found ──▶ END
        start, backward      found ──▶ START          destination, backward    END ──▶ found -/

namespace Motis.Intermodal
open Gbfs (SearchDir)

structure Station where
  id : String
  pos : LatLng
  deriving DecidableEq, Repr

structure SearchOptions where
  profile : String
  /-- In seconds. -/
  durationLimit : ℚ

inductive Mode where
  | foot (maxDuration : ℤ)
  | bike (maxDuration : ℤ)
  | car (maxDuration : ℤ)
  | footPPR (searchOptions : SearchOptions)
  | carParking (maxCarDuration : ℤ) (pprSearchOptions : SearchOptions)
  | gbfs (provider : String) (maxWalkDuration maxVehicleDuration : ℤ)

/-! ### Responses of other modules -/

/-- A `ppr::Route`. -/
structure FootRoute where
  duration : UInt16
  accessibility : UInt16
  deriving DecidableEq, Repr

structure ParkingEdgeCosts where
  station : Station
  edge : CarParkingEdge
  footAccessibility : UInt16
  totalDuration : UInt16

structure ParkingEdge where
  parkingId : Int32
  outwardCosts : List ParkingEdgeCosts
  returnCosts : List ParkingEdgeCosts

inductive GbfsTarget where
  | station (station : Station)
  | direct (pos : LatLng)

structure GbfsRoute where
  p : GbfsTarget
  totalDuration : UInt16
  /-- The type of the vehicle and the route. -/
  edge : GbfsEdge

/-- An edge without the pseudo station. -/
structure Found where
  id : String
  pos : LatLng
  duration : UInt16
  accessibility : UInt16
  kind : MumoKind
  parkingId : Int32 := 0

structure Services where
  distance : LatLng → LatLng → ℚ
  /-- The walking speeds of the profiles. -/
  getWalkingSpeed : String → ℚ
  /-- `/lookup/geo_station`, with a radius. -/
  geoStation : LatLng → ℚ → List Station
  /-- What the router behind `/osrm/one_to_many` knows about the ways, in seconds. -/
  oneToMany : String → SearchDir → LatLng → List LatLng → ℕ → Option ℕ
  /-- `/ppr/route`, without paths. -/
  pprRoute : SearchDir → LatLng → List LatLng → SearchOptions → List (List FootRoute)
  /-- `/parking/edges` -/
  parkingEdges : SearchDir → LatLng → ℤ → SearchOptions → List ParkingEdge
  /-- `/gbfs/route` -/
  gbfsRoute : SearchDir → LatLng → LatLng → String → ℕ → ℕ → List GbfsRoute
  /-- The conversion of a number that is too great for a `duration` is undefined. -/
  undefined : ℕ → UInt16

/-! ### Generators -/

def walkSpeed : ℚ := 3 / 2

def bikeSpeed : ℚ := 15 * (1000 / 3600)

def carSpeed : ℚ := 100 * (1000 / 3600)

/-- `osr::one_to_many` writes the greatest `uint16_t` where there is no way. -/
def oneToManyDuration (way : Option ℕ) : ℕ := way.getD 65535

/-- A `double` of minutes becomes a `duration`. -/
def truncMinutes (undefined : ℕ → UInt16) (seconds : ℕ) : UInt16 :=
  if seconds / 60 < 2 ^ 16 then UInt16.ofNat (seconds / 60) else undefined seconds

section Generators

variable (services : Services)

/-- The radius is an `int`. -/
def osrmEdges (pos : LatLng) (maxDur : ℤ) (speed : ℚ) (kind : MumoKind) (direction : SearchDir) :
    List Found :=
  let maxDist : ℚ := maxDur * speed
  let stations := services.geoStation pos (maxDist.num.tdiv maxDist.den : ℤ)
  let costs := services.oneToMany kind.type.toString direction pos (stations.map (·.pos))
  stations.zipIdx.filterMap fun (station, i) =>
    let dur := oneToManyDuration (costs i)
    if maxDur < dur then none
    else some
      { id := station.id, pos := station.pos
        duration := truncMinutes services.undefined dur, accessibility := 0, kind }

def pprEdges (pos : LatLng) (searchOptions : SearchOptions) (direction : SearchDir) : List Found :=
  let maxDur := searchOptions.durationLimit
  if maxDur = 0 then []
  else
    let maxDist := maxDur * services.getWalkingSpeed searchOptions.profile
    let stations := services.geoStation pos maxDist
    let routes := services.pprRoute direction pos (stations.map (·.pos)) searchOptions
    (stations.zip routes).flatMap fun (dest, destRoutes) => destRoutes.map fun route =>
      { id := dest.id, pos := dest.pos, duration := route.duration
        accessibility := route.accessibility, kind := .foot }

def carParkingEdges (pos : LatLng) (maxCarDuration : ℤ) (pprSearchOptions : SearchOptions)
    (direction : SearchDir) : List Found :=
  (services.parkingEdges direction pos maxCarDuration pprSearchOptions).flatMap fun pe =>
    let costs := match direction with
      | .forward => pe.outwardCosts
      | .backward => pe.returnCosts
    costs.map fun c =>
      { id := c.station.id, pos := c.station.pos, duration := c.totalDuration
        accessibility := c.footAccessibility, kind := .carParking (some c.edge)
        parkingId := pe.parkingId }

def gbfsEdges (dir : SearchDir) (pos directTarget : LatLng) (provider : String)
    (maxWalkDuration maxRideDuration : ℕ) : List Found :=
  (services.gbfsRoute dir pos directTarget provider maxWalkDuration maxRideDuration).map fun r =>
    match r.p with
    | .direct target =>
      { id := match dir with
          | .forward => stationEnd
          | .backward => stationStart
        pos := target, duration := r.totalDuration, accessibility := 0, kind := .gbfs r.edge }
    | .station station =>
      { id := station.id, pos := station.pos, duration := r.totalDuration, accessibility := 0
        kind := .gbfs r.edge }

def makeEdges (modes : List Mode) (pos directTarget : LatLng) (searchDir : SearchDir) :
    List Found :=
  modes.flatMap fun
    | .foot maxDuration => osrmEdges services pos maxDuration walkSpeed .foot searchDir
    | .bike maxDuration => osrmEdges services pos maxDuration bikeSpeed .bike searchDir
    | .car maxDuration => osrmEdges services pos maxDuration carSpeed .car searchDir
    | .footPPR searchOptions => pprEdges services pos searchOptions searchDir
    | .carParking maxCarDuration pprSearchOptions =>
      carParkingEdges services pos maxCarDuration pprSearchOptions searchDir
    | .gbfs provider maxWalkDuration maxVehicleDuration =>
      gbfsEdges services searchDir pos directTarget provider
        (maxWalkDuration.tdiv 60).toNat (maxVehicleDuration.tdiv 60).toNat

def makeStarts (startModes : List Mode) (pos directTarget : LatLng) : List Found :=
  makeEdges services startModes pos directTarget .forward

def makeDests (destinationModes : List Mode) (pos directTarget : LatLng) : List Found :=
  makeEdges services destinationModes pos directTarget .backward

end Generators

/-! ### Edges -/

/-- A `mumo_edge`, with its ends. -/
structure PlacedEdge extends MumoEdge where
  from_ : String
  to_ : String
  fromPos : LatLng
  toPos : LatLng
  duration : UInt16
  accessibility : UInt16

/-- The edge between a pseudo station and what was found. -/
def Found.leaving (station : String) (pos : LatLng) (e : Found) : PlacedEdge :=
  { kind := e.kind, id := e.parkingId, from_ := station, to_ := e.id, fromPos := pos
    toPos := e.pos, duration := e.duration, accessibility := e.accessibility }

def Found.entering (station : String) (pos : LatLng) (e : Found) : PlacedEdge :=
  { kind := e.kind, id := e.parkingId, from_ := e.id, to_ := station, fromPos := e.pos
    toPos := pos, duration := e.duration, accessibility := e.accessibility }

end Motis.Intermodal
