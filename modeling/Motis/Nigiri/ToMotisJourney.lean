import Motis.Core.Common.IntervalMap
import Motis.Core.Journey.JourneyOrder
import Motis.Nigiri.Timetable

/-! `nigiri_to_motis_journey`: from the legs of the router to a journey.

    Every stop of a run leg becomes a stop of the journey, the first one being the stop the journey
    has reached, if any. A walk adds a stop unless it is a transfer within a station. What the
    sections of a run carry is entered into three interval maps under the index of the stop the
    section starts at, and read back as ranges at the end. -/

namespace Motis.Nigiri
open FieldOrder

structure TransportDisplayInfo where
  duration : UInt32 := 0
  clasz : UInt8 := 0
  displayName : String := ""
  direction : String := ""
  provider : String := ""
  providerUrl : String := ""
  line : String := ""
  routeColor : UInt32 := 0
  routeTextColor : UInt32 := 0
  deriving DecidableEq, Repr

/-- A stop of a run, as `fr[stop_idx]` shows it. -/
structure RunStop where
  isCanceled : Bool := false
  location : LocationIdx := 0
  time : EventType → NigiriUnixtime := fun _ => 0
  scheduledTime : EventType → NigiriUnixtime := fun _ => 0
  track : String := ""

/-- `n::rt::frun`: a run with its stops. -/
structure Frun where
  t : Transport := {}
  isRt : Bool := false
  stop : ℕ → RunStop := fun _ => {}

/-- `leg.uses_`. -/
inductive Uses where
  | runEnterExit (fr : Frun) (stopRange : StopRange)
  | footpath (duration : Int16)
  | offset (duration : Int16) (transportModeId : Int32)

structure Leg where
  from_ : LocationIdx := 0
  to_ : LocationIdx := 0
  depTime : NigiriUnixtime := 0
  arrTime : NigiriUnixtime := 0
  uses : Uses

/-! ### The orders of the map keys: field by field -/

instance : Ord TransportDisplayInfo :=
  ⟨compareLex (compareOn (·.duration)) <| compareLex (compareOn (·.clasz)) <|
    compareLex (compareOn (·.displayName)) <| compareLex (compareOn (·.direction)) <|
    compareLex (compareOn (·.provider)) <| compareLex (compareOn (·.providerUrl)) <|
    compareLex (compareOn (·.line)) <| compareLex (compareOn (·.routeColor))
    (compareOn (·.routeTextColor))⟩

instance : Std.TransOrd TransportDisplayInfo :=
  inferInstanceAs (Std.TransCmp (compareLex _ _))

instance : Std.LawfulEqOrd TransportDisplayInfo where
  eq_of_compare {a b} h := by
    cases a; cases b
    simpa only [compare, compareLex_eq_eq, compareOn_eq_eq, TransportDisplayInfo.mk.injEq] using h

/-- `std::pair<extern_trip, std::string>`: the trip and where it was read. -/
abbrev TripKey := ExternTrip × String

instance : Ord TripKey := lexOrd

/-! ### Stops and walks -/

/-- The local variables of the conversion. -/
structure Conversion where
  mj : Journey := {}
  transports : IntervalMap TransportDisplayInfo := {}
  externTrips : IntervalMap TripKey := {}
  attributes : IntervalMap Attribute := {}

variable (tt : Timetable)

def fillStopInfo (s : Journey.Stop) (x : LocationIdx) : Journey.Stop :=
  let type := tt.types x
  let p := if type = .generatedTrack ∨ type = .track then tt.parents x else x
  { s with
    name := tt.names p
    evaNo := tt.getStationId (if type = .generatedTrack then p else x)
    lat := (tt.coordinates x).1
    lng := (tt.coordinates x).2 }

/-- A walk that stays in a station. -/
def isTransfer (leg : Leg) : Bool :=
  leg.from_ = leg.to_ || leg.from_ = tt.parents leg.to_ || leg.to_ = tt.parents leg.from_ ||
    (tt.parents leg.from_ = tt.parents leg.to_ &&
      (tt.types leg.from_ = .generatedTrack || tt.types leg.to_ = .generatedTrack))

def addWalk (leg : Leg) (duration : Int16) (mumoId : Int32) (c : Conversion) : Conversion :=
  let before := c.mj.stops.dropLast
  let reached := fillStopInfo tt (c.mj.stops.getLast?.getD {}) leg.from_
  let depTime := toMotisUnixtime leg.depTime
  let fromStop := { reached with
    departure := { reached.departure with
      valid := true
      timestamp := depTime
      timestampReason := reached.arrival.timestampReason
      scheduleTimestamp :=
        depTime - (reached.arrival.timestamp - reached.arrival.scheduleTimestamp) } }
  if isTransfer tt leg then { c with mj := { c.mj with stops := before ++ [fromStop] } }
  else
    let arrTime := toMotisUnixtime leg.arrTime
    let toStop := { fillStopInfo tt {} leg.to_ with
      arrival := {
        valid := true
        timestamp := arrTime
        scheduleTimestamp :=
          arrTime - (fromStop.departure.timestamp - fromStop.departure.scheduleTimestamp)
        timestampReason := fromStop.departure.timestampReason } }
    let t : Journey.Transport :=
      { from_ := before.length, to_ := before.length + 1, isWalk := true
        duration := duration.toInt32.toUInt32, mumoId := mumoId }
    { c with mj := { c.mj with
      stops := before ++ [fromStop, toStop]
      transports := c.mj.transports ++ [t] } }

/-! ### Sections of a run -/

/-- What a section carries: for each trip on it the display data and the trip, and attributes. -/
structure SectionValues where
  infos : List TransportDisplayInfo
  trips : List TripKey
  attributes : List Attribute

def sectionDirection (t : TransportIdx) (sectionIdx : ℕ) : Except Error String := do
  if tt.transportSectionDirections t = [] then return ""
  match ← atSection (tt.transportSectionDirections t) sectionIdx with
  | none => return ""
  | some direction =>
    match tt.tripDirections direction with
    | .string i => return tt.tripDirectionStrings i
    | .location l => return tt.names l

def sectionLine (t : TransportIdx) (sectionIdx : ℕ) : Except Error String := do
  if tt.transportSectionLines t = [] then return ""
  match ← atSection (tt.transportSectionLines t) sectionIdx with
  | none => return ""
  | some line => return tt.tripLines line

def sectionAttributes (t : TransportIdx) (sectionIdx : ℕ) : Except Error (List Attribute) := do
  if tt.transportSectionAttributes t = [] then return []
  let combination ← atSection (tt.transportSectionAttributes t) sectionIdx
  return (tt.attributeCombinations combination).map tt.attributes

def sectionColor (t : TransportIdx) (sectionIdx : ℕ) : Except Error RouteColor := do
  if tt.transportSectionRouteColors t = [] then return {}
  atSection (tt.transportSectionRouteColors t) sectionIdx

/-- The key of a trip: the trip itself and `file:from:to`. -/
def tripKey (t : Transport) (trip : TripIdx) : Except Error TripKey := do
  let debug ← at? (tt.tripDebug trip) 0
  let externTrip ← tt.tripToExternTrip trip t
  return (externTrip, tt.sourceFileNames debug.sourceFileIdx ++ ":" ++
    toString debug.lineNumberFrom ++ ":" ++ toString debug.lineNumberTo)

/-- The lookups of `add_transports`; when one of them throws, the conversion does. -/
def sectionValues (fr : Frun) (sectionIdx : ℕ) : Except Error SectionValues := do
  let t := fr.t.tIdx
  let mergedTripsIdx ← atSection (tt.transportToTripSection t) sectionIdx
  let clasz ← atSection (tt.routeSectionClasz (tt.transportRoute t)) sectionIdx
  let providerIdx ← atSection (tt.transportSectionProviders t) sectionIdx
  let direction ← sectionDirection tt t sectionIdx
  let line ← sectionLine tt t sectionIdx
  let attributes ← sectionAttributes tt t sectionIdx
  let color ← sectionColor tt t sectionIdx
  let trips ← (tt.mergedTrips mergedTripsIdx).mapM (tripKey tt fr.t)
  return {
    infos := (tt.mergedTrips mergedTripsIdx).map fun trip =>
      { clasz := clasz
        displayName := tt.tripDisplayNames trip
        direction := direction
        provider := (tt.providers providerIdx).longName
        providerUrl := (tt.providers providerIdx).url
        line := line
        routeColor := color.color
        routeTextColor := color.textColor }
    trips := trips
    attributes := attributes }

/-- Enters values under the section that starts at the last stop. -/
def addEntries {T : Type} [Ord T] (stops : ℕ) (values : List T) (m : IntervalMap T) :
    IntervalMap T :=
  values.foldl (fun m value => m.addEntry value (stops - 1) stops) m

def addTransports (fr : Frun) (sectionIdx : ℕ) (c : Conversion) : Except Error Conversion := do
  let values ← sectionValues tt fr sectionIdx
  return { c with
    transports := addEntries c.mj.stops.length values.infos c.transports
    externTrips := addEntries c.mj.stops.length values.trips c.externTrips
    attributes := addEntries c.mj.stops.length values.attributes c.attributes }

/-- The stop of the journey a stop of a run becomes, written over the one it reuses. -/
def showStop (fr : Frun) (stp : RunStop) (enter exit : Bool) (s : Journey.Stop) : Journey.Stop :=
  let event (type : EventType) (e : Journey.EventInfo) : Journey.EventInfo := { e with
    valid := true
    timestamp := toMotisUnixtime (stp.time type)
    scheduleTimestamp := toMotisUnixtime (stp.scheduledTime type)
    timestampReason := if fr.isRt then .forecast else .schedule
    track := stp.track
    scheduleTrack := stp.track }
  let s := fillStopInfo tt s stp.location
  { s with
    exit := s.exit || exit
    enter := s.enter || enter
    arrival := if enter then s.arrival else event .arr s.arrival
    departure := if exit then s.departure else event .dep s.departure }

/-- The loop over the stops of a run leg. -/
def rideStop (fr : Frun) (stopRange : StopRange) (c : Conversion) (stopIdx : ℕ) :
    Except Error Conversion :=
  let stp := fr.stop stopIdx
  if stp.isCanceled then .ok c
  else
    let exit := stopIdx == stopRange.to_ - 1
    let enter := stopIdx == stopRange.from_
    let reuseArrival := enter && !c.mj.stops.isEmpty
    let stops :=
      if reuseArrival then
        c.mj.stops.dropLast ++ [showStop tt fr stp enter exit (c.mj.stops.getLast?.getD {})]
      else c.mj.stops ++ [showStop tt fr stp enter exit {}]
    let c := { c with mj := { c.mj with stops := stops } }
    if exit then .ok c else addTransports tt fr stopIdx c

def addLeg (c : Conversion) (leg : Leg) : Except Error Conversion :=
  match leg.uses with
  | .runEnterExit fr stopRange =>
    (List.range' stopRange.from_ (stopRange.to_ - stopRange.from_)).foldlM
      (rideStop tt fr stopRange) c
  | .footpath duration => .ok (addWalk tt leg duration (-1) c)
  | .offset duration transportModeId => .ok (addWalk tt leg duration transportModeId c)

/-! ### The journey -/

def transportOf (x : TransportDisplayInfo) (r : ℕ × ℕ) : Journey.Transport where
  from_ := r.1
  to_ := r.2
  clasz := x.clasz.toUInt32
  name := x.displayName
  provider := x.provider
  providerUrl := x.providerUrl
  direction := x.direction
  lineIdentifier := x.line
  routeColor := x.routeColor
  routeTextColor := x.routeTextColor

def tripOf (x : TripKey) (r : ℕ × ℕ) : Journey.Trip where
  from_ := r.1
  to_ := r.2
  externTrip := x.1
  debug := x.2

def attributeOf (x : Attribute) (r : ℕ × ℕ) : Journey.RangedAttribute where
  from_ := r.1
  to_ := r.2
  attr := x

/-- One element for each range of each value. -/
def emit {T α : Type} [Ord T] (m : IntervalMap T) (f : T → ℕ × ℕ → α) : List α :=
  m.getAttributeRanges.toList.flatMap fun (x, ranges) => ranges.map (f x)

def nigiriToMotisJourney (legs : List Leg) : Except Error Journey := do
  let c ← legs.foldlM (addLeg tt) {}
  return { c.mj with
    transports := (c.mj.transports ++ emit c.transports transportOf).mergeSort
      fun a b => decide (a.from_ ≤ b.from_)
    trips := sort (c.mj.trips ++ emit c.externTrips tripOf)
    attributes := sort (c.mj.attributes ++ emit c.attributes attributeOf) }

end Motis.Nigiri
