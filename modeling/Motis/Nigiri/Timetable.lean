import Motis.Core.Journey.Journey

/-! What the journey converter reads of a timetable, and the trips and stations it names.

    The timetable is another project's; its tables are functions of their index, its per-section
    vectors are lists. Such a vector holds one value for the whole transport, one for each section,
    or, for optional data, none. -/

namespace Motis.Nigiri

/-- A vector was read past its end. -/
inductive Error where
  | outOfRange
  deriving DecidableEq, Repr

abbrev LocationIdx := ℕ
abbrev TransportIdx := ℕ
abbrev RouteIdx := ℕ
abbrev TripIdx := ℕ
abbrev SourceIdx := ℕ

/-- Minutes. -/
abbrev NigiriUnixtime := Int32

inductive LocationType where
  | track | generatedTrack | station
  deriving DecidableEq, Repr

inductive EventType where
  | arr | dep
  deriving DecidableEq, Repr

inductive TripDirection where
  | string (i : ℕ)
  | location (l : LocationIdx)
  deriving DecidableEq, Repr

structure RouteColor where
  color : UInt32 := 0
  textColor : UInt32 := 0
  deriving DecidableEq, Repr

structure Provider where
  longName : String := ""
  url : String := ""
  deriving DecidableEq, Repr

structure TripDebug where
  sourceFileIdx : ℕ := 0
  lineNumberFrom : UInt32 := 0
  lineNumberTo : UInt32 := 0
  deriving DecidableEq, Repr

/-- `n::transport`: a transport on a day. -/
structure Transport where
  tIdx : TransportIdx := 0
  day : ℕ := 0
  deriving DecidableEq, Repr

/-- `n::interval<stop_idx_t>`, half-open. -/
structure StopRange where
  from_ : ℕ
  to_ : ℕ
  deriving DecidableEq, Repr

/-- The tables of the timetable and of the tag lookup; an `invalid` index in a vector is `none`. -/
structure Timetable where
  types : LocationIdx → LocationType := fun _ => .station
  parents : LocationIdx → LocationIdx := id
  coordinates : LocationIdx → Double × Double := fun _ => (0, 0)
  names : LocationIdx → String := fun _ => ""
  ids : LocationIdx → String := fun _ => ""
  src : LocationIdx → Option SourceIdx := fun _ => none
  tag : SourceIdx → String := fun _ => ""
  transportRoute : TransportIdx → RouteIdx := id
  routeLocationSeq : RouteIdx → List LocationIdx := fun _ => []
  routeSectionClasz : RouteIdx → List UInt8 := fun _ => []
  transportToTripSection : TransportIdx → List ℕ := fun _ => []
  transportSectionProviders : TransportIdx → List ℕ := fun _ => []
  transportSectionDirections : TransportIdx → List (Option ℕ) := fun _ => []
  transportSectionLines : TransportIdx → List (Option ℕ) := fun _ => []
  transportSectionAttributes : TransportIdx → List ℕ := fun _ => []
  transportSectionRouteColors : TransportIdx → List RouteColor := fun _ => []
  providers : ℕ → Provider := fun _ => {}
  tripDirections : ℕ → TripDirection := .string
  tripDirectionStrings : ℕ → String := fun _ => ""
  tripLines : ℕ → String := fun _ => ""
  attributeCombinations : ℕ → List ℕ := fun _ => []
  attributes : ℕ → Attribute := fun _ => {}
  mergedTrips : ℕ → List TripIdx := fun _ => []
  tripDisplayNames : TripIdx → String := fun _ => ""
  tripDebug : TripIdx → List TripDebug := fun _ => []
  sourceFileNames : ℕ → String := fun _ => ""
  tripTransportRanges : TripIdx → List (TransportIdx × StopRange) := fun _ => []
  tripIds : TripIdx → List ℕ := fun _ => []
  tripIdSrc : ℕ → Option SourceIdx := fun _ => none
  tripIdStrings : ℕ → String := fun _ => ""
  tripTrainNr : ℕ → UInt32 := fun _ => 0
  eventTime : Transport → ℕ → EventType → NigiriUnixtime := fun _ _ _ => 0

/-- `at`. -/
def at? {α : Type} (l : List α) (i : ℕ) : Except Error α :=
  match l[i]? with
  | some a => .ok a
  | none => .error .outOfRange

/-- The value of a section: the only one there is, or the section's own. -/
def atSection {α : Type} (sections : List α) (sectionIdx : ℕ) : Except Error α :=
  at? sections (if sections.length = 1 then 0 else sectionIdx)

def toMotisUnixtime (t : NigiriUnixtime) : Unixtime := t.toInt64 * 60

/-- Seconds to minutes, toward zero. -/
def toNigiriUnixtime (t : Unixtime) : NigiriUnixtime := (t / 60).toInt32

namespace Timetable
variable (tt : Timetable)

/-- `tag_lookup::get_tag`. -/
def getTag : Option SourceIdx → String
  | none => ""
  | some src => tt.tag src

def getStationId (l : LocationIdx) : String := tt.getTag (tt.src l) ++ tt.ids l

/-- `resolve_id`. -/
def resolveId (x : LocationIdx) : String :=
  tt.getStationId (if tt.types x = .generatedTrack then tt.parents x else x)

/-- `nigiri_trip_to_extern_trip`. -/
def tripToExternTrip (tripIdx : TripIdx) (t : Transport) : Except Error ExternTrip := do
  let (transport, stopRange) ← at? (tt.tripTransportRanges tripIdx) 0
  let locations := tt.routeLocationSeq (tt.transportRoute transport)
  let firstLocation ← at? locations stopRange.from_
  let lastLocation ← at? locations (stopRange.to_ - 1)
  let line ← match tt.transportSectionLines transport with
    | [] | none :: _ => pure ""
    | [some line] => pure (tt.tripLines line)
    | sectionLines => do
      -- an `invalid` line of another section is read past the end of the lines
      match ← at? sectionLines stopRange.from_ with
      | some line => pure (tt.tripLines line)
      | none => throw .outOfRange
  let x ← at? (tt.tripIds tripIdx) 0
  let back ← at? (tt.tripIds tripIdx) ((tt.tripIds tripIdx).length - 1)
  return {
    id := tt.getTag (tt.tripIdSrc x) ++ tt.tripIdStrings x
    stationId := tt.resolveId firstLocation
    trainNr := tt.tripTrainNr back
    time := toMotisUnixtime (tt.eventTime t stopRange.from_ .dep)
    targetStationId := tt.resolveId lastLocation
    targetTime := toMotisUnixtime (tt.eventTime t (stopRange.to_ - 1) .arr)
    lineId := line }

end Timetable

end Motis.Nigiri
