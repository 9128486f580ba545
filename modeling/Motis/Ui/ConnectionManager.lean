import Motis.Ui.Connections

/-! The geometry of the connections on the map.

    A call of `setConnections` asks for the trips of its connections and for each of their walks, and
    shows them when everything has come:

        setConnections ──▶ trips ──────────┐
                       ──▶ walk, walk, … ──┴──▶ Path.Connections.setData

    Trip data, completion and walks are variables that every answer writes. -/

namespace Motis.Ui.ConnectionManager

/-! ### Connections -/

structure TripId where
  stationId : String
  trainNr : ℤ
  time : ℤ
  targetStationId : String
  targetTime : ℤ
  lineId : String
  deriving DecidableEq, Repr

/-- The ids of the stations. -/
structure Section where
  departureStation : String
  arrivalStation : String
  deriving DecidableEq, Repr

structure Train where
  sections : List Section
  trip : TripId
  deriving DecidableEq, Repr

abbrev Coordinates := List ℚ

structure Walk where
  departureStation : Station
  arrivalStation : Station
  mumoType : String
  duration : ℤ
  accessibility : ℤ
  polyline : Option Coordinates
  deriving DecidableEq, Repr

structure Connection where
  id : ℤ
  trains : List Train
  walks : List Walk
  deriving DecidableEq, Repr

/-- A number that no connection has is undefined. -/
def cIdCombine : Option ℤ → Option ℤ → Option ℤ
  | some a, some b =>
    if a < 0 ∧ b < 0 then some (max a b)
    else if a < 0 then some b
    else if b < 0 then some a
    else some (min a b)
  | none, b => b
  | some a, none => if a < 0 then none else some a

/-- `ids.reduce(cIdCombine)` -/
def minCIdOf (ids : List ℤ) : Option ℤ := ids.foldl (fun a b => cIdCombine a (some b)) none

/-! ### Trips -/

/-- A train of a response; the `indices` are those of its polylines, negative ones backward. -/
structure TripTrain where
  trip : List TripId
  dStationId : String
  aStationId : String
  indices : List ℤ
  connectionIds : List ℤ := []
  deriving DecidableEq, Repr

structure TripPolyline where
  coordinates : Coordinates
  /-- The trains that use it. -/
  trains : List TripTrain := []
  minCId : Option ℤ := none
  deriving DecidableEq, Repr

structure TripsContent where
  trains : List TripTrain
  polylines : List TripPolyline
  deriving DecidableEq, Repr

/-- The trips that are asked for, each once. -/
def tripsOf (connections : List Connection) : List TripId :=
  (connections.flatMap fun c => c.trains.map Train.trip).eraseDups

def trainToConnectionIds (connections : List Connection) (t : TripTrain) : List ℤ :=
  (connections.filter fun c => c.trains.any fun ct =>
    t.trip.any (fun tt => tt = ct.trip) && ct.sections.any fun cs =>
      cs.departureStation = t.dStationId && cs.arrivalStation = t.aStationId).map (·.id)

def TripPolyline.addTrain (t : TripTrain) (polyline : TripPolyline) : TripPolyline :=
  { polyline with
    trains := polyline.trains ++ [t]
    minCId := cIdCombine polyline.minCId (minCIdOf t.connectionIds) }

/-- The trains learn their connections, and those with one mark their polylines. -/
def TripsContent.resolve (connections : List Connection) (content : TripsContent) : TripsContent :=
  let trains := content.trains.map fun t =>
    { t with connectionIds := trainToConnectionIds connections t }
  let trains := trains.filter fun t => !t.connectionIds.isEmpty
  { trains
    polylines := trains.foldl (fun polylines t => t.indices.foldl
      (fun polylines i => polylines.modify i.natAbs (·.addTrain t)) polylines) content.polylines }

/-- The content of a response, with the number of the call whose request it answers. -/
structure TripData where
  call : ℕ
  content : TripsContent
  deriving DecidableEq, Repr

/-! ### Walks -/

inductive RouterType where | ppr | osrm
  deriving DecidableEq, Repr

/-- The text that stands for a walk has its kind, times and positions. -/
structure WalkKey where
  mumoType : String
  duration : ℤ
  accessibility : ℤ
  fromPos : ℚ × ℚ
  toPos : ℚ × ℚ
  deriving DecidableEq, Repr

def walkId (walk : Walk) : WalkKey :=
  ⟨walk.mumoType, walk.duration, walk.accessibility,
    (walk.departureStation.lat, walk.departureStation.lng),
    (walk.arrivalStation.lat, walk.arrivalStation.lng)⟩

structure WalkData where
  id : ℕ
  walk : Walk
  connectionIds : List ℤ
  polyline : Option Coordinates
  error : Bool
  minCId : Option ℤ := none
  routerType : Option RouterType := none
  deriving DecidableEq, Repr

def WalkData.key (w : WalkData) : WalkKey := walkId w.walk

def WalkData.complete (w : WalkData) : Bool := w.polyline.isSome || w.error

structure PprRoute where
  duration : ℤ
  accessibility : Option ℤ
  path : Coordinates
  deriving DecidableEq, Repr

/-- What the two routers answer with: `data.routes[0].routes` or `data.polyline`. -/
structure WalkContent where
  routes : List PprRoute := []
  polyline : Coordinates := []
  deriving DecidableEq, Repr

/-- Comparisons with an undefined number are equal. -/
def compareRoutes (walk : Walk) (a b : PprRoute) : Ordering :=
  let byDuration := compare (a.duration - walk.duration).natAbs (b.duration - walk.duration).natAbs
  match byDuration, a.accessibility, b.accessibility with
  | .eq, some a, some b => compare (a - walk.accessibility).natAbs (b - walk.accessibility).natAbs
  | byDuration, _, _ => byDuration

/-- The entries of the walks, one for each key. -/
def addWalk (walkData : List WalkData) (connection : Connection) (walk : Walk) : List WalkData :=
  let walkKey := walkId walk
  let walkData :=
    if walkData.any fun w => w.key = walkKey then walkData
    else walkData ++
      [{ id := walkData.length, walk, connectionIds := [], polyline := none, error := false }]
  walkData.map fun w =>
    if w.key = walkKey then
      { w with
        connectionIds := w.connectionIds ++ [connection.id]
        polyline := w.polyline <|> walk.polyline }
    else w

def walksOf (connections : List Connection) : List (Connection × Walk) :=
  connections.flatMap fun c => c.walks.map fun walk => (c, walk)

/-! ### The manager -/

/-- A request that is not answered, with the number of its call. -/
inductive Sent where
  | trips (callId call : ℕ)
  | walk (callId call : ℕ) (w : WalkData)
  deriving DecidableEq

/-- What is handed to the map, after the calls so far. -/
structure DataSet where
  calls : List (List Connection)
  connections : List Connection
  tripData : Option TripData
  walkData : List WalkData

structure Manager where
  connections : List Connection := []
  tripData : Option TripData := none
  walkData : List WalkData := []
  lastTripsRequest : Option ℕ := none
  tripsComplete : Bool := false
  osrmCache : List (WalkKey × Coordinates) := []
  pprCache : List (WalkKey × Coordinates) := []
  /-- The number of the last request, also of those of other modules. -/
  lastCallId : ℕ := 0
  /-- The calls of `setConnections`. -/
  calls : List (List Connection) := []
  inFlight : List Sent := []
  shown : List DataSet := []

namespace Manager

variable (m : Manager)

def dataIsComplete : Bool := m.tripsComplete && m.walkData.all WalkData.complete

def showConnections : Manager :=
  if m.dataIsComplete then
    { m with shown := m.shown ++ [⟨m.calls, m.connections, m.tripData, m.walkData⟩] }
  else m

def requestTrips : Manager :=
  if tripsOf m.connections = [] then { m with tripsComplete := true }.showConnections
  else
    let callId := m.lastCallId + 1
    { m with
      lastCallId := callId
      lastTripsRequest := some callId
      inFlight := m.inFlight ++ [.trips callId m.calls.length] }

def sendWalk (w : WalkData) : Manager :=
  let callId := m.lastCallId + 1
  { m with lastCallId := callId, inFlight := m.inFlight ++ [.walk callId m.calls.length w] }

def requestWalkSegment (w : WalkData) : Manager × WalkData :=
  let walkKey := w.key
  let routerType : RouterType :=
    if w.walk.mumoType = "bike" ∨ w.walk.mumoType = "car" then .osrm else .ppr
  let cache := match routerType with
    | .osrm => m.osrmCache
    | .ppr => m.pprCache
  let w := { w with routerType := some routerType }
  match cache.lookup walkKey with
  | some polyline => (m, { w with polyline := some polyline })
  | none => (m.sendWalk w, w)

def requestWalk (r : Manager × List WalkData) (w : WalkData) : Manager × List WalkData :=
  let w := { w with minCId := minCIdOf w.connectionIds }
  if w.polyline.isSome then (r.1, r.2 ++ [w])
  else
    let (m, w) := r.1.requestWalkSegment w
    (m, r.2 ++ [w])

def requestWalks : Manager :=
  let walkData := (walksOf m.connections).foldl (fun walkData (c, walk) => addWalk walkData c walk) []
  let (m, walkData) := walkData.foldl requestWalk (m, [])
  { m with walkData }.showConnections

def setConnections (conns : List Connection) : Manager :=
  { m with
    connections := conns
    tripData := none
    walkData := []
    tripsComplete := false
    calls := m.calls ++ [conns] }.requestTrips.requestWalks

def tripDataReceived (callId call : ℕ) (content : TripsContent) : Manager :=
  let m := { m with tripData := some ⟨call, content⟩ }
  if some callId ≠ m.lastTripsRequest then m
  else
    { m with
      tripData := some ⟨call, content.resolve m.connections⟩
      tripsComplete := true }.showConnections

/-- The entry of a walk of the call, if this is the current one. -/
def setWalk (call : ℕ) (w : WalkData) (f : WalkData → WalkData) : Manager :=
  if call = m.calls.length then
    { m with walkData := m.walkData.map fun w' => if w'.id = w.id then f w' else w' }
  else m

def handlePPRResponse (call : ℕ) (w : WalkData) (data : WalkContent) : Manager :=
  match data.routes.mergeSort fun a b => (compareRoutes w.walk a b).isLE with
  | [] =>
    m.setWalk call w fun w => { w with
      polyline := some [w.walk.departureStation.lat, w.walk.departureStation.lng,
        w.walk.arrivalStation.lat, w.walk.arrivalStation.lng] }
  | route :: _ =>
    { m with pprCache := (w.key, route.path) :: m.pprCache }.setWalk call w
      fun w => { w with polyline := some route.path }

def handleOSRMResponse (call : ℕ) (w : WalkData) (data : WalkContent) : Manager :=
  { m with osrmCache := (w.key, data.polyline) :: m.osrmCache }.setWalk call w
    fun w => { w with polyline := some data.polyline }

def walkDataReceived (call : ℕ) (w : WalkData) (data : WalkContent) : Manager :=
  match w.routerType with
  | some .ppr => (m.handlePPRResponse call w data).showConnections
  | some .osrm => (m.handleOSRMResponse call w data).showConnections
  | none => m.showConnections

def walkFailed (call : ℕ) (w : WalkData) : Manager :=
  (m.setWalk call w fun w => { w with error := true }).showConnections

def resetPPRCache : Manager := { m with pprCache := [] }

end Manager

end Motis.Ui.ConnectionManager
