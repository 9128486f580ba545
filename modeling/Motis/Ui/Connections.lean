import Mathlib.Data.Int.Notation
import Mathlib.Data.List.Basic
import Mathlib.Data.Prod.Lex
import Mathlib.Data.Rat.Defs
import Mathlib.Order.Lattice

/-! The list of connections of the web interface.

    A search replaces the list; from then on it is extended at both ends:

        indexOffset = -2       -1 │ 0       1       2 │ 3
        journeys    = [ earlier … │ first results …   │ later … ]
                      Prepend  ◀──┘                   └──▶  Append

    A request carries a number, and its answer is taken when no request was sent after it. Times are
    in milliseconds, those of requests in seconds. -/

namespace Motis.Ui

/-! ### Connections -/

structure Station where
  id : String
  name : String
  lat : ℚ
  lng : ℚ
  deriving DecidableEq, Repr

inductive TimestampReason where | schedule | is | propagation | forecast
  deriving DecidableEq, Repr

structure EventInfo where
  time : Option ℤ
  scheduleTime : Option ℤ
  track : String
  reason : TimestampReason
  deriving DecidableEq, Repr

structure Stop where
  station : Station
  arrival : EventInfo
  departure : EventInfo
  exit : Bool
  enter : Bool
  deriving DecidableEq, Repr

inductive ProblemType where | noProblem | interchangeTimeViolated | canceledTrain
  deriving DecidableEq, Repr

structure Range where
  «from» : ℤ
  «to» : ℤ
  deriving DecidableEq, Repr

structure Problem where
  range : Range
  typ : ProblemType
  deriving DecidableEq, Repr

/-- The transports and trips are the `details`. -/
structure Connection (Details : Type) where
  stops : List Stop
  details : Details
  problems : List Problem
  deriving DecidableEq, Repr

def hasNoProblems {Details : Type} (connection : Connection Details) : Bool :=
  (connection.problems.filter (·.typ ≠ .noProblem)).isEmpty

/-- The trains, walks and moves are the `parts`. -/
structure Journey (Details Parts : Type) where
  connection : Connection Details
  parts : Parts
  deriving DecidableEq, Repr

structure RoutingResponse (Details : Type) where
  connections : List (Connection Details)
  intervalStart : ℤ
  intervalEnd : ℤ
  deriving DecidableEq, Repr

/-! ### Requests -/

/-- Seconds, both ends included. -/
structure Interval where
  begin : ℤ
  «end» : ℤ
  deriving DecidableEq, Repr

structure PretripSearchOptions where
  interval : Interval
  minConnectionCount : ℤ
  extendIntervalEarlier : Bool
  extendIntervalLater : Bool
  deriving DecidableEq, Repr

inductive IntermodalStart where
  | intermodalPretripStart (lat lng : ℚ) (options : PretripSearchOptions)
  | pretripStart (station : Station) (options : PretripSearchOptions)
  deriving DecidableEq, Repr

inductive SearchDirection where | forward | backward
  deriving DecidableEq, Repr

/-- The destination, the modes and the search type are the `options`. -/
structure IntermodalRoutingRequest (Options : Type) where
  start : IntermodalStart
  options : Options
  searchDir : SearchDirection
  deriving DecidableEq, Repr

namespace IntermodalRoutingRequest

variable {Options : Type}

def getInterval (req : IntermodalRoutingRequest Options) : Interval :=
  match req.start with
  | .intermodalPretripStart _ _ i => i.interval
  | .pretripStart _ i => i.interval

def setInterval (req : IntermodalRoutingRequest Options) (interval : Interval) :
    IntermodalRoutingRequest Options :=
  { req with
    start := match req.start with
      | .intermodalPretripStart lat lng i => .intermodalPretripStart lat lng { i with interval }
      | .pretripStart station i => .pretripStart station { i with interval } }

def setPretripSearchOptions (req : IntermodalRoutingRequest Options)
    (options : PretripSearchOptions) : IntermodalRoutingRequest Options :=
  { req with
    start := match req.start with
      | .intermodalPretripStart lat lng _ => .intermodalPretripStart lat lng options
      | .pretripStart station _ => .pretripStart station options }

@[simp] theorem getInterval_setInterval (req : IntermodalRoutingRequest Options) (i : Interval) :
    (req.setInterval i).getInterval = i := by
  cases h : req.start <;> simp [setInterval, getInterval, h]

@[simp] theorem getInterval_setPretripSearchOptions (req : IntermodalRoutingRequest Options)
    (options : PretripSearchOptions) :
    (req.setPretripSearchOptions options).getInterval = options.interval := by
  cases h : req.start <;> simp [setPretripSearchOptions, getInterval, h]

@[simp] theorem searchDir_setInterval (req : IntermodalRoutingRequest Options) (i : Interval) :
    (req.setInterval i).searchDir = req.searchDir := rfl

end IntermodalRoutingRequest

/-- `//` rounds towards zero. -/
def unixTime (d : ℤ) : ℤ := d.tdiv 1000

/-! ### The model -/

/-- What journeys and their graphs are made of. -/
structure Views where
  Details : Type
  Parts : Type
  Graph : Type
  GraphMsg : Type
  Options : Type
  ApiError : Type
  [detailsEq : DecidableEq Details]
  [partsEq : DecidableEq Parts]
  /-- `toJourney`, apart from the connection itself. -/
  parts : Connection Details → Parts
  /-- `JourneyTransportGraph.init` -/
  graph : ℤ → Journey Details Parts → Graph
  /-- `JourneyTransportGraph.update` -/
  graphUpdate : GraphMsg → Graph → Graph
  hideTooltips : Graph → Graph

attribute [instance] Views.detailsEq Views.partsEq

variable (V : Views)

abbrev Views.Journey := Ui.Journey V.Details V.Parts
abbrev Views.Response := RoutingResponse V.Details
abbrev Views.Request := IntermodalRoutingRequest V.Options

structure LabeledJourney where
  journey : V.Journey
  labels : List String
  deriving DecidableEq

structure Model where
  loading : Bool := false
  loadingBefore : Bool := false
  loadingAfter : Bool := false
  remoteAddress : String
  journeys : List (LabeledJourney V) := []
  journeyTransportGraphs : List V.Graph := []
  indexOffset : ℤ := 0
  errorMessage : Option V.ApiError := none
  errorBefore : Option V.ApiError := none
  errorAfter : Option V.ApiError := none
  routingRequest : Option V.Request := none
  newJourneys : List ℤ := []
  allowExtend : Bool := true
  labels : List String := []
  fromName : Option String := none
  toName : Option String := none
  lastRequestId : ℤ := 0

inductive ExtendIntervalType where | extendBefore | extendAfter
  deriving DecidableEq, Repr

inductive SearchAction where | replaceResults | prependResults | appendResults
  deriving DecidableEq, Repr

inductive Msg where
  | noOp
  | search (action : SearchAction) (req : V.Request) (fromName toName : Option String)
  | extendSearchInterval (direction : ExtendIntervalType)
  | receiveResponse (action : SearchAction) (request : V.Request) (requestId : ℤ)
      (response : V.Response)
  | receiveError (action : SearchAction) (request : V.Request) (requestId : ℤ) (err : V.ApiError)
  | resetNew
  | jtgUpdate (idx : ℤ) (msg : V.GraphMsg)
  | setRoutingResponses (responses : List (String × V.Response))
  | setError (err : V.ApiError)
  | mouseEnterConnection (idx : ℤ) (journey : V.Journey)
  | mouseLeaveConnection (idx : ℤ) (journey : V.Journey)
  | resetAll

inductive Cmd where
  | send (action : SearchAction) (request : V.Request) (requestId : ℤ)
  | setConnections (connections : List (ℤ × V.Journey))
  | highlightConnections (connections : List (ℤ × V.Journey))

variable {V}

/-! ### Indices -/

/-- `!!`, which is the first element for an index below zero. -/
def elementAt {α : Type} (list : List α) (index : ℤ) : Option α := (list.drop index.toNat).head?

def updateAt {α : Type} (index : ℤ) (f : α → α) (list : List α) : Option (List α) :=
  if index < 0 ∨ list.length ≤ index then none else some (list.modify index.toNat f)

/-- `List.range`, with both ends. -/
def range (lo hi : ℤ) : List ℤ := (List.range (hi - lo + 1).toNat).map fun n : ℕ => lo + n

namespace Model

variable (model : Model V)

def connectionIdxToListIdx (connectionIdx : ℤ) : ℤ := connectionIdx - model.indexOffset

def getJourney (connectionIdx : ℤ) : Option V.Journey :=
  (elementAt model.journeys (model.connectionIdxToListIdx connectionIdx)).map (·.journey)

def updateJourney (connectionIdx : ℤ) (f : V.Journey → V.Journey) : Model V :=
  match updateAt (model.connectionIdxToListIdx connectionIdx)
      (fun lj => { lj with journey := f lj.journey }) model.journeys with
  | some j => { model with journeys := j }
  | none => model

def updateJourneys (f : V.Journey → V.Journey) : Model V :=
  { model with journeys := model.journeys.map fun lj => { lj with journey := f lj.journey } }

/-! ### Results -/

def patchConnection (connection : Connection V.Details) : Connection V.Details :=
  let swapStartDest := (model.routingRequest.map fun r => r.searchDir == .backward).getD false
  let (startName, destName) :=
    if swapStartDest then (model.toName, model.fromName) else (model.fromName, model.toName)
  let patchStop (stop : Stop) : Stop :=
    match stop.station.id with
    | "START" => { stop with station := { stop.station with name := startName.getD "START" } }
    | "END" => { stop with station := { stop.station with name := destName.getD "END" } }
    | _ => stop
  { connection with stops := connection.stops.map patchStop }

def patchConnections (responses : List (String × V.Response)) : List (String × V.Response) :=
  responses.map fun (l, r) =>
    (l, { r with connections := r.connections.map model.patchConnection })

end Model

def toJourney (connection : Connection V.Details) : V.Journey := ⟨connection, V.parts connection⟩

/-- A journey that is there gets one more label. -/
def labelJourneys : String × V.Journey → List (LabeledJourney V) → List (LabeledJourney V)
  | (label, journey), labeled =>
    match labeled.findIdx? (·.journey == journey) with
    | some idx => labeled.modify idx fun lj => { lj with labels := label :: lj.labels }
    | none => ⟨journey, [label]⟩ :: labeled

def toLabeledJourneys (responses : List (String × V.Response)) : List (LabeledJourney V) :=
  let journeys := responses.flatMap fun (label, r) => r.connections.map (label, toJourney ·)
  journeys.foldr labelJourneys []

/-- The departure of the first stop, then the arrival of the last one. -/
def sortKey (lj : LabeledJourney V) : ℤ ×ₗ ℤ :=
  let stops := lj.journey.connection.stops
  toLex ((stops.head?.bind (·.departure.scheduleTime)).getD 0,
    (stops.getLast?.bind (·.arrival.scheduleTime)).getD 0)

/-- `List.sortBy` keeps the order of equal keys. -/
def sortJourneys (journeys : List (LabeledJourney V)) : List (LabeledJourney V) :=
  journeys.mergeSort fun lj lj' => sortKey lj ≤ sortKey lj'

def transportListViewWidth : ℤ := 335

namespace Model

variable (model : Model V)

def journeysToAdd (responses : List (String × V.Response)) : List (LabeledJourney V) :=
  (toLabeledJourneys (model.patchConnections responses)).filter
    fun lj => hasNoProblems lj.journey.connection

/-- `updateInterval` of the first response. -/
def updateInterval (updateStart updateEnd : Bool) (response : V.Response) (req : V.Request) :
    V.Request :=
  req.setInterval
    { begin := if updateStart then unixTime response.intervalStart else req.getInterval.begin
      «end» := if updateEnd then unixTime response.intervalEnd else req.getInterval.end }

/-- The model without the loading flag, the error and the interval that the action is about. -/
def answered (action : SearchAction) (responses : List (String × V.Response)) : Model V :=
  let updateInterval (updateStart updateEnd : Bool) (req : V.Request) : V.Request :=
    match responses.head? with
    | some (_, response) => Model.updateInterval updateStart updateEnd response req
    | none => req
  match action with
  | .replaceResults =>
    { model with
      loading := false, errorMessage := none, errorBefore := none, errorAfter := none
      routingRequest := model.routingRequest.map (updateInterval true true) }
  | .prependResults =>
    { model with
      loadingBefore := false, errorBefore := none
      routingRequest := model.routingRequest.map (updateInterval true false) }
  | .appendResults =>
    { model with
      loadingAfter := false, errorAfter := none
      routingRequest := model.routingRequest.map (updateInterval false true) }

def updateModelWithNewResults (action : SearchAction) (responses : List (String × V.Response)) :
    Model V × List (Cmd V) :=
  let base := model.answered action responses
  let journeysToAdd := base.journeysToAdd responses
  let newJourneys :=
    match action with
    | .replaceResults => journeysToAdd
    | .prependResults => journeysToAdd ++ model.journeys
    | .appendResults => model.journeys ++ journeysToAdd
  let newIndexOffset :=
    match action with
    | .replaceResults => 0
    | .prependResults => model.indexOffset - journeysToAdd.length
    | .appendResults => model.indexOffset
  let newNewJourneys :=
    match action with
    | .replaceResults => []
    | .prependResults => range newIndexOffset (newIndexOffset + journeysToAdd.length - 1)
    | .appendResults =>
      range (newIndexOffset + model.journeys.length) (newIndexOffset + newJourneys.length - 1)
  let sortedJourneys := sortJourneys newJourneys
  let labelsToAdd := (responses.map (·.1)).eraseDups
  let newLabels :=
    match action with
    | .replaceResults => labelsToAdd
    | _ => (model.labels ++ labelsToAdd).eraseDups
  ({ base with
      journeys := sortedJourneys
      journeyTransportGraphs := sortedJourneys.map fun lj => V.graph transportListViewWidth lj.journey
      indexOffset := newIndexOffset
      newJourneys := newNewJourneys
      labels := newLabels },
    [.setConnections <| sortedJourneys.mapIdx fun i lj => (newIndexOffset + i, lj.journey)])

def handleRequestError (action : SearchAction) (msg : V.ApiError) : Model V :=
  match action with
  | .replaceResults =>
    { model with
      loading := false, errorMessage := some msg, journeys := [], journeyTransportGraphs := [] }
  | .prependResults => { model with loadingBefore := false, errorBefore := some msg }
  | .appendResults => { model with loadingAfter := false, errorAfter := some msg }

/-! ### Updates -/

def sendRequest (action : SearchAction) (request : V.Request) : Model V × List (Cmd V) :=
  let requestId := model.lastRequestId + 1
  ({ model with lastRequestId := requestId }, [.send action request requestId])

/-- Two hours more, as a request for them and as the request for all. -/
def extendSearchInterval (direction : ExtendIntervalType) (base : V.Request) :
    V.Request × V.Request :=
  let extendBy := 3600 * 2
  let minConnectionCount := 3
  let previousInterval := base.getInterval
  match direction with
  | .extendBefore =>
    let newIntervalBegin := previousInterval.begin - extendBy
    (base.setPretripSearchOptions
        { interval := { begin := newIntervalBegin, «end» := previousInterval.begin - 1 }
          minConnectionCount
          extendIntervalEarlier := true
          extendIntervalLater := false },
      base.setInterval { begin := newIntervalBegin, «end» := previousInterval.end })
  | .extendAfter =>
    let newIntervalEnd := previousInterval.end + extendBy
    (base.setPretripSearchOptions
        { interval := { begin := previousInterval.end + 1, «end» := newIntervalEnd }
          minConnectionCount
          extendIntervalEarlier := false
          extendIntervalLater := true },
      base.setInterval { begin := previousInterval.begin, «end» := newIntervalEnd })

def update : Msg V → Model V × List (Cmd V)
  | .noOp => (model, [])
  | .search _ req fromName toName =>
    sendRequest { model with
      loading := true, loadingBefore := false, loadingAfter := false
      routingRequest := some req, fromName, toName } .replaceResults req
  | .extendSearchInterval direction =>
    match model.routingRequest with
    | some baseRequest =>
      let (newRequest, updatedFullRequest) := extendSearchInterval direction baseRequest
      match direction with
      | .extendBefore =>
        sendRequest { model with routingRequest := some updatedFullRequest, loadingBefore := true }
          .prependResults newRequest
      | .extendAfter =>
        sendRequest { model with routingRequest := some updatedFullRequest, loadingAfter := true }
          .appendResults newRequest
    | none => (model, [])
  | .receiveResponse action _ requestId response =>
    if requestId = model.lastRequestId then
      updateModelWithNewResults { model with allowExtend := true } action
        [(model.remoteAddress, response)]
    else (model, [])
  | .receiveError action _ requestId msg =>
    if requestId = model.lastRequestId then (model.handleRequestError action msg, [])
    else (model, [])
  | .setRoutingResponses responses =>
    updateModelWithNewResults { model with allowExtend := false, fromName := none, toName := none }
      .replaceResults responses
  | .resetNew =>
    ({ model with
        newJourneys := []
        journeyTransportGraphs := model.journeyTransportGraphs.map V.hideTooltips }, [])
  | .jtgUpdate idx msg =>
    ({ model with
        journeyTransportGraphs :=
          (updateAt (model.connectionIdxToListIdx idx) (V.graphUpdate msg)
            model.journeyTransportGraphs).getD model.journeyTransportGraphs }, [])
  | .setError err => (model.handleRequestError .replaceResults err, [])
  | .mouseEnterConnection idx journey => (model, [.highlightConnections [(idx, journey)]])
  | .mouseLeaveConnection _ _ => (model, [.highlightConnections []])
  | .resetAll => ({ remoteAddress := model.remoteAddress }, [.setConnections []])

end Model

/-- The widget that has just been opened. -/
def init (remoteAddress : String) : Model V := { remoteAddress }

end Motis.Ui
