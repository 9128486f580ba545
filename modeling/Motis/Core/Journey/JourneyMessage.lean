import Mathlib.Algebra.GroupWithZero.Nat
import Mathlib.Algebra.Ring.Int.Defs
import Motis.Core.Journey.Journey

/-! The two converters between journeys and messages.

    `to_connection` writes a journey into the tables of a `Connection` message, `convert` reads it
    back. The message is narrower than the journey in places: ranges are 16-bit, the night penalty
    and the costs are 16-bit, a colour is six hex digits or absent, and a move has the fields of a
    walk or those of a transport. The message library gives back what was put in. -/

namespace Motis.Fbs

inductive TimestampReason where
  | schedule | repair | is | propagation | forecast
  deriving DecidableEq, Repr

inductive ConnectionStatus where
  | ok | interchangeInvalid | trainHasBeenCanceled | invalid
  deriving DecidableEq, Repr

inductive ProblemType where
  | noProblem | interchangeTimeViolated | canceledTrain
  deriving DecidableEq, Repr

structure Position where
  lat : Double
  lng : Double
  deriving DecidableEq, Repr

structure Station where
  id : String
  name : String
  pos : Position
  deriving DecidableEq, Repr

structure EventInfo where
  time : UInt64 := 0
  scheduleTime : UInt64 := 0
  track : String := ""
  scheduleTrack : String := ""
  valid : Bool := false
  reason : TimestampReason := .schedule
  deriving DecidableEq, Repr

structure Stop where
  station : Station
  arrival : EventInfo := {}
  departure : EventInfo := {}
  exit : Bool
  enter : Bool
  deriving DecidableEq, Repr

structure Range where
  from_ : Int16
  to_ : Int16
  deriving DecidableEq, Repr

structure Transport where
  range : Range
  clasz : UInt32
  lineId : String
  name : String
  provider : String
  providerUrl : String
  direction : String
  routeColor : Option String
  routeTextColor : Option String
  deriving DecidableEq, Repr

structure Walk where
  range : Range
  mumoId : Int32
  price : UInt32
  accessibility : UInt32
  mumoType : String
  deriving DecidableEq, Repr

/-- The union in a `MoveWrapper`. -/
inductive Move where
  | transport (t : Transport)
  | walk (w : Walk)
  deriving DecidableEq, Repr

structure Attribute where
  range : Range
  code : String
  text : String
  deriving DecidableEq, Repr

structure TripId where
  id : String
  stationId : String
  trainNr : UInt32
  time : Int64
  targetStationId : String
  targetTime : Int64
  lineId : String
  deriving DecidableEq, Repr

structure Trip where
  range : Range
  id : TripId
  debug : String
  deriving DecidableEq, Repr

structure FreeText where
  range : Range
  code : Int32
  text : String
  type : String
  deriving DecidableEq, Repr

structure Problem where
  range : Range
  type : ProblemType
  deriving DecidableEq, Repr

structure Connection where
  stops : List Stop
  transports : List Move
  trips : List Trip
  attributes : List Attribute
  freeTexts : List FreeText
  problems : List Problem
  nightPenalty : UInt16
  dbCosts : UInt16
  status : ConnectionStatus
  deriving DecidableEq, Repr

end Motis.Fbs

namespace Motis.JourneyMessage

/-! ### Conversions of enumerations -/

/-- `to_fbs(timestamp_reason)`. -/
def toFbs : TimestampReason → Fbs.TimestampReason
  | .repair => .repair
  | .schedule => .schedule
  | .is => .is
  | .forecast => .forecast
  | .propagation => .propagation

/-- `from_fbs(TimestampReason)`. -/
def fromFbs : Fbs.TimestampReason → TimestampReason
  | .repair => .repair
  | .schedule => .schedule
  | .is => .is
  | .forecast => .forecast
  | .propagation => .propagation

def statusToFbs : Journey.ConnectionStatus → Fbs.ConnectionStatus
  | .ok => .ok
  | .interchangeInvalid => .interchangeInvalid
  | .trainHasBeenCanceled => .trainHasBeenCanceled
  | .invalid => .invalid

def statusFromFbs : Fbs.ConnectionStatus → Journey.ConnectionStatus
  | .ok => .ok
  | .interchangeInvalid => .interchangeInvalid
  | .trainHasBeenCanceled => .trainHasBeenCanceled
  | .invalid => .invalid

def problemTypeToFbs : Journey.ProblemType → Fbs.ProblemType
  | .canceledTrain => .canceledTrain
  | .interchangeTimeViolated => .interchangeTimeViolated
  | _ => .noProblem

def problemTypeFromFbs : Fbs.ProblemType → Journey.ProblemType
  | .canceledTrain => .canceledTrain
  | .interchangeTimeViolated => .interchangeTimeViolated
  | _ => .noProblem

/-! ### journeys_to_message -/

/-- The converter's own `convert_reason`; `REPAIR` falls to the default. -/
def convertReason : TimestampReason → Fbs.TimestampReason
  | .schedule => .schedule
  | .is => .is
  | .forecast => .forecast
  | .propagation => .propagation
  | _ => .schedule

def convertEvent (e : Journey.EventInfo) (includeInvalidStopInfo : Bool) : Fbs.EventInfo :=
  if e.valid || includeInvalidStopInfo then
    { time := e.timestamp.toUInt64
      scheduleTime := e.scheduleTimestamp.toUInt64
      track := e.track
      scheduleTrack := e.scheduleTrack
      valid := e.valid
      reason := convertReason e.timestampReason }
  else { valid := e.valid }

def convertStops (stops : List Journey.Stop) (includeInvalidStopInfo : Bool) : List Fbs.Stop :=
  stops.map fun stop =>
    { station := ⟨stop.evaNo, stop.name, ⟨stop.lat, stop.lng⟩⟩
      arrival := convertEvent stop.arrival includeInvalidStopInfo
      departure := convertEvent stop.departure includeInvalidStopInfo
      exit := stop.exit
      enter := stop.enter }

/-- A range, each end cut to 16 bits. -/
def toRange (r : ℕ × ℕ) : Fbs.Range := ⟨Int16.ofNat r.1, Int16.ofNat r.2⟩

def hexDigit (n : ℕ) : Char := "0123456789abcdef".toList.getD n '0'

/-- `n` in `width` lower-case hex digits. -/
def hexDigits : ℕ → ℕ → List Char
  | 0, _ => []
  | width + 1, n => hexDigits width (n / 16) ++ [hexDigit (n % 16)]

def convertColor (color : UInt32) : Option String :=
  if color = 0 then none
  else some (String.ofList (hexDigits 6 (color &&& 0x00ffffff).toNat))

open Ranged (range)

def convertMoves (transports : List Journey.Transport) : List Fbs.Move :=
  transports.map fun t =>
    if t.isWalk then
      .walk { range := toRange (range t), mumoId := t.mumoId, price := t.mumoPrice
              accessibility := t.mumoAccessibility, mumoType := t.mumoType }
    else
      .transport { range := toRange (range t), clasz := t.clasz, lineId := t.lineIdentifier
                   name := t.name, provider := t.provider, providerUrl := t.providerUrl
                   direction := t.direction, routeColor := convertColor t.routeColor
                   routeTextColor := convertColor t.routeTextColor }

/-- `to_fbs(extern_trip)`. -/
def tripToFbs (t : ExternTrip) : Fbs.TripId :=
  ⟨t.id, t.stationId, t.trainNr, t.time, t.targetStationId, t.targetTime, t.lineId⟩

def convertTrips (trips : List Journey.Trip) : List Fbs.Trip :=
  trips.map fun t => ⟨toRange (range t), tripToFbs t.externTrip, t.debug⟩

def convertAttributes (attributes : List Journey.RangedAttribute) : List Fbs.Attribute :=
  attributes.map fun a => ⟨toRange (range a), a.attr.code, a.attr.text⟩

def convertFreeTexts (freeTexts : List Journey.RangedFreeText) : List Fbs.FreeText :=
  freeTexts.map fun f => ⟨toRange (range f), f.text.code, f.text.text, f.text.type⟩

def convertProblems (problems : List Journey.Problem) : List Fbs.Problem :=
  problems.map fun p => ⟨toRange (range p), problemTypeToFbs p.type⟩

def toConnection (j : Journey) (includeInvalidStopInfo : Bool) : Fbs.Connection where
  stops := convertStops j.stops includeInvalidStopInfo
  transports := convertMoves j.transports
  trips := convertTrips j.trips
  attributes := convertAttributes j.attributes
  freeTexts := convertFreeTexts j.freeTexts
  problems := convertProblems j.problems
  nightPenalty := j.nightPenalty.toUInt16
  dbCosts := j.dbCosts.toUInt16
  status := statusToFbs j.status

/-! ### message_to_journeys -/

def toEventInfo (event : Fbs.EventInfo) : Journey.EventInfo where
  track := event.track
  scheduleTrack := event.scheduleTrack
  timestamp := event.time.toInt64
  scheduleTimestamp := event.scheduleTime.toInt64
  timestampReason := fromFbs event.reason
  valid := event.valid

def toStop (stop : Fbs.Stop) : Journey.Stop where
  evaNo := stop.station.id
  exit := stop.exit
  enter := stop.enter
  lat := stop.station.pos.lat
  lng := stop.station.pos.lng
  name := stop.station.name
  arrival := toEventInfo stop.arrival
  departure := toEventInfo stop.departure

/-- A 16-bit number stored in an `unsigned`. -/
def toUnsigned (i : Int16) : ℕ := (i.toInt % 2 ^ 32).toNat

def walkToTransport (walk : Fbs.Walk) (duration : UInt16) : Journey.Transport where
  isWalk := true
  duration := duration.toUInt32
  from_ := toUnsigned walk.range.from_
  to_ := toUnsigned walk.range.to_
  mumoId := walk.mumoId
  mumoPrice := walk.price
  mumoAccessibility := walk.accessibility
  mumoType := walk.mumoType

/-- The value of a hex digit, upper or lower case. -/
def hexValue? (c : Char) : Option ℕ :=
  if '0' ≤ c ∧ c ≤ '9' then some (c.toNat - '0'.toNat)
  else if 'a' ≤ c ∧ c ≤ 'f' then some (c.toNat - 'a'.toNat + 10)
  else if 'A' ≤ c ∧ c ≤ 'F' then some (c.toNat - 'A'.toNat + 10)
  else none

def isHex (c : Char) : Bool := (hexValue? c).isSome

/-- `strtol` on hex digits. -/
def parseHex (cs : List Char) : ℕ := cs.foldl (fun n c => 16 * n + (hexValue? c).getD 0) 0

def toColor (colorStr : String) : UInt32 :=
  let cs := colorStr.toList
  if cs.length ≠ 6 ∨ !cs.all isHex then 0
  else 0xFF000000 ||| UInt32.ofNat (parseHex cs)

def transportToTransport (transport : Fbs.Transport) (duration : UInt16) : Journey.Transport where
  duration := duration.toUInt32
  from_ := toUnsigned transport.range.from_
  to_ := toUnsigned transport.range.to_
  isWalk := false
  clasz := transport.clasz
  direction := transport.direction
  lineIdentifier := transport.lineId
  name := transport.name
  provider := transport.provider
  providerUrl := transport.providerUrl
  mumoId := 0
  routeColor := (transport.routeColor.map toColor).getD 0
  routeTextColor := (transport.routeTextColor.map toColor).getD 0

def toTrip (trip : Fbs.Trip) : Journey.Trip where
  from_ := toUnsigned trip.range.from_
  to_ := toUnsigned trip.range.to_
  externTrip :=
    { id := trip.id.id, stationId := trip.id.stationId, trainNr := trip.id.trainNr
      time := trip.id.time, targetStationId := trip.id.targetStationId
      targetTime := trip.id.targetTime, lineId := trip.id.lineId }
  debug := trip.debug

def toAttribute (a : Fbs.Attribute) : Journey.RangedAttribute where
  attr := { code := a.code, text := a.text }
  from_ := toUnsigned a.range.from_
  to_ := toUnsigned a.range.to_

def toFreeText (freeText : Fbs.FreeText) : Journey.RangedFreeText where
  text := { code := freeText.code, text := freeText.text, type := freeText.type }
  from_ := toUnsigned freeText.range.from_
  to_ := toUnsigned freeText.range.to_

def toProblem (problem : Fbs.Problem) : Journey.Problem where
  type := problemTypeFromFbs problem.type
  from_ := toUnsigned problem.range.from_
  to_ := toUnsigned problem.range.to_

/-- The minutes between the ends of a range, cut to 16 bits. Both ends are stops of the message. -/
def getMoveDuration (r : Fbs.Range) (stops : List Fbs.Stop) : UInt16 :=
  match stops[toUnsigned r.from_]?, stops[toUnsigned r.to_]? with
  | some first, some last => ((last.arrival.time - first.departure.time) / 60).toUInt16
  | _, _ => 0

def toTransport (stops : List Fbs.Stop) : Fbs.Move → Journey.Transport
  | .walk w => walkToTransport w (getMoveDuration w.range stops)
  | .transport t => transportToTransport t (getMoveDuration t.range stops)

/-- `journey_util`: the minutes from the first departure to the last arrival. -/
def getDuration (j : Journey) : UInt16 :=
  match j.stops.head?, j.stops.getLast? with
  | some first, some last =>
    ((last.arrival.timestamp - first.departure.timestamp) / 60).toUInt64.toUInt16
  | _, _ => 0

def getTransfers (j : Journey) : UInt16 :=
  let exits := j.stops.countP (·.exit)
  if exits = 0 then 0 else UInt16.ofNat (exits - 1)

def getAccessibility (j : Journey) : UInt16 :=
  (j.transports.foldl (fun (acc : UInt32) t => acc.toUInt16.toUInt32 + t.mumoAccessibility)
    0).toUInt16

/-- `convert`. -/
def convert (conn : Fbs.Connection) : Journey :=
  let j : Journey :=
    { stops := conn.stops.map toStop
      transports := conn.transports.map (toTransport conn.stops)
      attributes := conn.attributes.map toAttribute
      trips := conn.trips.map toTrip
      freeTexts := conn.freeTexts.map toFreeText
      problems := conn.problems.map toProblem
      status := statusFromFbs conn.status }
  { j with
    duration := (getDuration j).toUInt32
    transfers := (getTransfers j).toUInt32
    nightPenalty := conn.nightPenalty.toUInt32
    dbCosts := conn.dbCosts.toUInt32
    accessibility := (getAccessibility j).toUInt32 }

end Motis.JourneyMessage
