import Motis.Lib.FirstBy
import Motis.Ui.Connections

/-! The departures and arrivals of a station.

    The list starts with the answer to a request for both directions, and is extended at its ends:

        minTime                                 maxTime
        [ … ◀── Prepend │ first answer │ Append ──▶ … ]

    The server answers with the first departures and the first arrivals from the time of the request
    on, or before it; each kind is counted by itself. Times are in milliseconds, those of requests in
    seconds. -/

namespace Motis.Ui.StationEvents

/-! ### Events -/

inductive EventType where | dep | arr
  deriving DecidableEq, Repr

/-- The `name` is the one of the transport. -/
structure TripInfo where
  id : String
  name : String
  deriving DecidableEq, Repr

structure RailVizEvent where
  trips : List TripInfo
  eventType : EventType
  event : EventInfo
  deriving DecidableEq, Repr

inductive RailVizStationDirection where | later | earlier | both
  deriving DecidableEq, Repr

structure RailVizStationRequest where
  stationId : String
  time : ℤ
  eventCount : ℤ
  direction : RailVizStationDirection
  byScheduleTime : Bool
  deriving DecidableEq, Repr

structure RailVizStationResponse where
  station : Station
  events : List RailVizEvent
  deriving DecidableEq, Repr

/-- The time is in seconds already. -/
def initialStationRequest (stationId : String) (selectedTime : ℤ) : RailVizStationRequest :=
  ⟨stationId, selectedTime, 20, .both, true⟩

def getScheduleTime (event : RailVizEvent) : ℤ := event.event.scheduleTime.getD 0

def getServiceName (event : RailVizEvent) : String := (event.trips.head?.map (·.name)).getD "?"

/-- The code units that a string is compared by. -/
def codeUnits (s : String) : List ℕ :=
  s.toList.flatMap fun c =>
    if c.toNat < 0x10000 then [c.toNat]
    else [0xD800 + (c.toNat - 0x10000) / 0x400, 0xDC00 + (c.toNat - 0x10000) % 0x400]

def compareEvents (a b : RailVizEvent) : Ordering :=
  let byDate := compare (getScheduleTime a) (getScheduleTime b)
  if byDate = .eq then compare (codeUnits (getServiceName a)) (codeUnits (getServiceName b))
  else byDate

/-! ### The list -/

inductive ViewType where | departures | arrivals
  deriving DecidableEq, Repr

inductive ExtendIntervalType where | extendBefore | extendAfter
  deriving DecidableEq, Repr

inductive SearchAction where | replaceResults | prependResults | appendResults
  deriving DecidableEq, Repr

structure Model where
  loading : Bool
  loadingBefore : Bool
  loadingAfter : Bool
  remoteAddress : String
  stationId : String
  station : Option Station
  depEvents : List RailVizEvent
  arrEvents : List RailVizEvent
  viewType : ViewType
  errorMessage : Option String
  errorBefore : Option String
  errorAfter : Option String
  request : RailVizStationRequest
  minTime : ℤ
  maxTime : ℤ
  allowBefore : Bool
  allowAfter : Bool

inductive Msg where
  | noOp
  | receiveResponse (action : SearchAction) (request : RailVizStationRequest)
      (response : RailVizStationResponse)
  | receiveError (action : SearchAction) (request : RailVizStationRequest) (err : String)
  | setViewType (vt : ViewType)
  | extendInterval (direction : ExtendIntervalType)

inductive Cmd where
  | sendRequest (remoteAddress : String) (action : SearchAction) (request : RailVizStationRequest)
  | mapFlyTo (station : Station)
  deriving DecidableEq, Repr

def maxInt : ℤ := 2147483647

def init (remoteAddress stationId : String) (selectedTime : ℤ) : Model × List Cmd :=
  let request := initialStationRequest stationId selectedTime
  ({ loading := true
     loadingBefore := false
     loadingAfter := false
     remoteAddress := remoteAddress
     stationId := stationId
     station := none
     depEvents := []
     arrEvents := []
     viewType := .departures
     errorMessage := none
     errorBefore := none
     errorAfter := none
     request := request
     minTime := maxInt
     maxTime := 0
     allowBefore := true
     allowAfter := true }, [.sendRequest remoteAddress .replaceResults request])

/-- `floor (t / 1000)` -/
def seconds (event : RailVizEvent) : ℤ := getScheduleTime event / 1000

namespace Model

variable (model : Model)

/-- `List.sortWith compareEvents` -/
def sortEvents (events : List RailVizEvent) : List RailVizEvent :=
  events.mergeSort fun a b => (compareEvents a b).isLE

def handleResponse (action : SearchAction) (response : RailVizStationResponse) : Model :=
  let events := sortEvents response.events
  let depEvents := events.filter fun e => e.eventType = .dep
  let arrEvents := events.filter fun e => e.eventType = .arr
  let newMinTime := (events.head?.map fun e => min model.minTime (seconds e)).getD model.minTime
  let newMaxTime := (events.getLast?.map fun e => max model.maxTime (seconds e)).getD model.maxTime
  let base := match action with
    | .replaceResults =>
      { model with
        loading := false
        errorMessage := none
        errorBefore := none
        errorAfter := none
        allowBefore := true
        allowAfter := true }
    | .prependResults =>
      { model with
        loadingBefore := false
        errorBefore := none
        allowBefore := !events.isEmpty }
    | .appendResults =>
      { model with
        loadingAfter := false
        errorAfter := none
        allowAfter := !events.isEmpty }
  let newEvents := match action with
    | .replaceResults => (depEvents, arrEvents)
    | .prependResults => (depEvents ++ model.depEvents, arrEvents ++ model.arrEvents)
    | .appendResults => (model.depEvents ++ depEvents, model.arrEvents ++ arrEvents)
  { base with
    depEvents := newEvents.1
    arrEvents := newEvents.2
    minTime := newMinTime
    maxTime := newMaxTime
    station := some response.station }

def handleRequestError (action : SearchAction) (err : String) : Model :=
  match action with
  | .replaceResults =>
    { model with
      loading := false
      errorMessage := some err
      depEvents := []
      arrEvents := [] }
  | .prependResults =>
    { model with
      loadingBefore := false
      errorBefore := some err }
  | .appendResults =>
    { model with
      loadingAfter := false
      errorAfter := some err }

def extendInterval : ExtendIntervalType → RailVizStationRequest
  | .extendBefore => { model.request with time := model.minTime, direction := .earlier }
  | .extendAfter => { model.request with time := model.maxTime, direction := .later }

def update : Msg → Model × List Cmd
  | .noOp => (model, [])
  | .receiveResponse action _ response =>
    let model' := model.handleResponse action response
    let cmds := match action, model'.station with
      | .replaceResults, some station => [Cmd.mapFlyTo station]
      | _, _ => []
    (model', cmds)
  | .receiveError action _ err => (model.handleRequestError action err, [])
  | .setViewType vt => ({ model with viewType := vt }, [])
  | .extendInterval direction =>
    let newRequest := model.extendInterval direction
    let action := match direction with
      | .extendBefore => SearchAction.prependResults
      | .extendAfter => .appendResults
    let loadingBefore := match direction with
      | .extendBefore => true
      | .extendAfter => model.loadingBefore
    let loadingAfter := match direction with
      | .extendBefore => model.loadingAfter
      | .extendAfter => true
    ({ model with loadingBefore := loadingBefore, loadingAfter := loadingAfter },
      [.sendRequest model.remoteAddress action newRequest])

/-- The buttons are shown with the list, and are links until something is loading, has failed or has
    come back empty. -/
def clickable (direction : ExtendIntervalType) : Bool :=
  !model.loading && model.errorMessage.isNone && match direction with
    | .extendBefore => model.allowBefore && !model.loadingBefore && model.errorBefore.isNone
    | .extendAfter => model.allowAfter && !model.loadingAfter && model.errorAfter.isNone

/-- What the view offers, one kind at a time. -/
def events : List RailVizEvent := model.depEvents ++ model.arrEvents

end Model

/-! ### The server -/

/-- The events of a station. -/
structure Timetable where
  station : Station
  departures : List RailVizEvent
  arrivals : List RailVizEvent
  nodup_departures : departures.Nodup
  nodup_arrivals : arrivals.Nodup
  dep_of_mem : ∀ e ∈ departures, e.eventType = .dep
  arr_of_mem : ∀ e ∈ arrivals, e.eventType = .arr

namespace RailVizStationRequest

variable (req : RailVizStationRequest)

/-- The event is on the requested side; its time is included. -/
def Asks (e : RailVizEvent) : Prop :=
  if req.direction ≠ .earlier then req.time ≤ seconds e else seconds e ≤ req.time

instance : DecidablePred req.Asks := fun e => by
  unfold Asks
  infer_instance

/-- The distance from the time of the request, up to a constant. -/
def key (e : RailVizEvent) : ℤ := if req.direction ≠ .earlier then seconds e else -seconds e

/-- `get_events` -/
def first (events : List RailVizEvent) : List RailVizEvent :=
  FirstBy.firstBy req.key req.eventCount.toNat (events.filter req.Asks)

end RailVizStationRequest

/-- `get_station`: departures and arrivals are counted one by one. -/
def getStation (tt : Timetable) (req : RailVizStationRequest) : RailVizStationResponse :=
  ⟨tt.station, req.first tt.departures ++ req.first tt.arrivals⟩

end Motis.Ui.StationEvents
