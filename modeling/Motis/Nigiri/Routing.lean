import Motis.Nigiri.TagLookup

/-! From a routing request to the query of the timetable search.

    A search from or to the pseudo stations `START` and `END` gets its offsets from the edges of the
    request. Edges run in the direction of travel; in a backward search `START` is where travel
    ends:

        forward    START ──▶ a   …   b ──▶ END
        backward   END   ──▶ b   …   a ──▶ START -/

namespace Motis.Nigiri
open Fallible

/-! ### Requests -/

inductive SearchDir where
  | forward | backward
  deriving DecidableEq, Repr

structure MumoEdge where
  fromStationId : String
  toStationId : String
  duration : UInt16
  mumoId : Int32
  deriving DecidableEq, Repr

inductive AdditionalEdge where
  | none
  | mumoEdge (e : MumoEdge)
  | periodicMumoEdge
  | timeDependentMumoEdge
  | hotelEdge
  deriving DecidableEq, Repr

inductive Start where
  | pretripStart (begin_ end_ : Unixtime) (stationId : String) (minConnectionCount : UInt32)
      (extendIntervalEarlier extendIntervalLater : Bool)
  | ontripStationStart (departureTime : Unixtime) (stationId : String)
  | ontripTrainStart
  deriving DecidableEq, Repr

structure Via where
  stationId : String
  stayDuration : UInt32
  deriving DecidableEq, Repr

structure RoutingRequest where
  start : Start
  destinationId : String
  searchDir : SearchDir := .forward
  via : List Via := []
  additionalEdges : List AdditionalEdge := []
  useStartMetas : Bool := true
  useDestMetas : Bool := true
  useStartFootpaths : Bool := true
  allowedClaszes : Option (List UInt8) := none
  maxTransfers : Int32 := -1
  bikeTransport : Bool := false
  deriving DecidableEq, Repr

inductive RouteError where
  | location (e : Error)
  | verify (what : String)
  | timestampNotInSchedule
  deriving DecidableEq, Repr

/-! ### Queries -/

inductive StartTime where
  | at (t : NigiriUnixtime)
  | interval (from_ to_ : NigiriUnixtime)
  deriving DecidableEq, Repr

inductive LocationMatchMode where
  | intermodal | equivalent | onlyChildren
  deriving DecidableEq, Repr

structure Offset where
  target : LocationIdx
  duration : Int16
  type : Int32
  deriving DecidableEq, Repr

structure Query where
  startTime : StartTime
  startMatchMode : LocationMatchMode
  destMatchMode : LocationMatchMode
  useStartFootpaths : Bool
  start : List Offset
  destination : List Offset
  maxTransfers : UInt8
  minConnectionCount : UInt8
  extendIntervalEarlier : Bool
  extendIntervalLater : Bool
  allowedClaszes : UInt16
  requireBikeTransport : Bool
  viaStops : List (LocationIdx × Int16)
  deriving DecidableEq, Repr

/-- What the search library defines: its limits and the interval of the timetable. -/
structure SearchLibrary where
  kMaxTransfers : UInt8
  kNumClasses : UInt8
  allClaszesAllowed : UInt16
  contains : NigiriUnixtime → Bool
  overlaps : NigiriUnixtime → NigiriUnixtime → Bool
  clamp : NigiriUnixtime → NigiriUnixtime

inductive SpecialStation where
  | kStart | kEnd
  deriving DecidableEq, Repr

def getSpecialStation : SpecialStation → LocationIdx
  | .kStart => 0
  | .kEnd => 1

def getSpecialStationName : SpecialStation → String
  | .kStart => "START"
  | .kEnd => "END"

/-! ### route -/

def verify (b : Bool) (what : String) : Except RouteError Unit :=
  if b then .ok () else .error (.verify what)

section Route
variable {tt : Timetable} (tags : TagLookup) (locations : LocationIndex tt) (lib : SearchLibrary)

def location (stationId : String) : Except RouteError LocationIdx :=
  (getLocationIdx tags locations stationId).mapError .location

def getOffsets (edges : List MumoEdge) (dir : SearchDir) (isStart : Bool) :
    Except RouteError (List Offset) :=
  let refStation := getSpecialStationName (if isStart then .kStart else .kEnd)
  let useFrom := ((dir == .forward) ^^ isStart) == false
  (edges.filter fun e => (if useFrom then e.fromStationId else e.toStationId) == refStation).mapM
    fun e => do
      let target ← location tags locations (if useFrom then e.toStationId else e.fromStationId)
      return { target := target, duration := e.duration.toInt16, type := e.mumoId }

def toClaszMask : Option (List UInt8) → Except RouteError UInt16
  | none => .ok lib.allClaszesAllowed
  | some v => v.foldlM (fun mask c => do
      verify (c < lib.kNumClasses) ("clasz " ++ toString c ++ " does not exist")
      return mask ||| (1 <<< c.toUInt16)) 0

/-- The edge of a wrapper, which has to be a `MumoEdge`. -/
def asMumoEdge : AdditionalEdge → Except RouteError MumoEdge
  | .mumoEdge e => .ok e
  | .none => .error (.verify "not a mumo edge: NONE")
  | .periodicMumoEdge => .error (.verify "not a mumo edge: PeriodicMumoEdge")
  | .timeDependentMumoEdge => .error (.verify "not a mumo edge: TimeDependentMumoEdge")
  | .hotelEdge => .error (.verify "not a mumo edge: HotelEdge")

/-- What the start of the request holds, the station looked up. -/
structure StartSpec where
  startTime : StartTime
  startStation : LocationIdx
  minConnectionCount : UInt8 := 0
  extendIntervalEarlier : Bool := false
  extendIntervalLater : Bool := false
  deriving DecidableEq, Repr

def readStart : Start → Except RouteError StartSpec
  | .pretripStart begin_ end_ stationId minConnectionCount earlier later => do
    let startStation ← location tags locations stationId
    return { startTime := .interval (toNigiriUnixtime begin_) (toNigiriUnixtime end_ + 1)
             startStation := startStation
             minConnectionCount := minConnectionCount.toUInt8
             extendIntervalEarlier := earlier
             extendIntervalLater := later }
  | .ontripStationStart departureTime stationId => do
    let startStation ← location tags locations stationId
    return { startTime := .at (toNigiriUnixtime departureTime), startStation := startStation }
  | .ontripTrainStart => .error (.verify "OntripTrainStart not supported")

def clampStartTime : StartTime → Except RouteError StartTime
  | .at t => if lib.contains t then .ok (.at t) else .error .timestampNotInSchedule
  | .interval from_ to_ =>
    if lib.overlaps from_ to_ then .ok (.interval (lib.clamp from_) (lib.clamp to_))
    else .error .timestampNotInSchedule

def checkEdge (dir : SearchDir) (isIntermodalStart isIntermodalDest : Bool) (me : MumoEdge) :
    Except RouteError Unit :=
  let a := if dir == .forward then me.fromStationId else me.toStationId
  let b := if dir == .backward then me.fromStationId else me.toStationId
  verify (isIntermodalDest && b == getSpecialStationName .kEnd ||
      isIntermodalStart && a == getSpecialStationName .kStart ||
      isIntermodalStart && isIntermodalDest && a == getSpecialStationName .kStart &&
        b == getSpecialStationName .kEnd)
    ("bad mumo edge: " ++ me.fromStationId ++ " -> " ++ me.toStationId)

def checkEdges (dir : SearchDir) (isIntermodalStart isIntermodalDest : Bool)
    (edges : List MumoEdge) : Except RouteError Unit := do
  edges.forM (checkEdge dir isIntermodalStart isIntermodalDest)
  verify (!isIntermodalStart || edges.any fun me =>
      (if dir == .forward then me.fromStationId else me.toStationId) ==
        getSpecialStationName .kStart)
    "intermodal start but no edge from START"
  verify (!isIntermodalDest || edges.any fun me =>
      (if dir == .forward then me.toStationId else me.fromStationId) ==
        getSpecialStationName .kEnd)
    "intermodal destination but no edge to END"

def readMaxTransfers (maxTransfers : Int32) : Except RouteError UInt8 :=
  if maxTransfers ≥ 0 then do
    verify (maxTransfers.toInt < lib.kMaxTransfers.toNat)
      ("unsupported max_transfers value (max supported: " ++
        toString (lib.kMaxTransfers.toNat - 1 : ℤ) ++ ")")
    return (maxTransfers + 1).toInt8.toUInt8
  else .ok lib.kMaxTransfers

def readVia (via : Via) : Except RouteError (LocationIdx × Int16) := do
  let station ← location tags locations via.stationId
  return (station, via.stayDuration.toUInt16.toInt16)

/-- The offsets of one side: the edges' where it is intermodal, else the station itself. -/
def offsetsOf (edges : List MumoEdge) (dir : SearchDir) (isStart isIntermodal : Bool)
    (station : LocationIdx) : Except RouteError (List Offset) :=
  if isIntermodal then getOffsets tags locations edges dir isStart else .ok [⟨station, 0, 0⟩]

/-- The query `route` hands to the search. `get_location_idx` throws where a location would be
    invalid. -/
def route (req : RoutingRequest) : Except RouteError Query := do
  let start ← readStart tags locations req.start
  let destinationStation ← location tags locations req.destinationId
  let startTime ← clampStartTime lib start.startTime
  let isIntermodalStart := start.startStation == getSpecialStation .kStart
  let isIntermodalDest := destinationStation == getSpecialStation .kEnd
  let edges ← req.additionalEdges.mapM asMumoEdge
  checkEdges req.searchDir isIntermodalStart isIntermodalDest edges
  let destinationOffsets ←
    offsetsOf tags locations edges req.searchDir false isIntermodalDest destinationStation
  let maxTransfers ← readMaxTransfers lib req.maxTransfers
  let startOffsets ←
    offsetsOf tags locations edges req.searchDir true isIntermodalStart start.startStation
  let allowedClaszes ← toClaszMask lib req.allowedClaszes
  let viaStops ← req.via.mapM (readVia tags locations)
  verify (!startOffsets.isEmpty) "no start edges"
  verify (!destinationOffsets.isEmpty) "no destination edges"
  return {
    startTime := startTime
    startMatchMode := if isIntermodalStart then .intermodal
      else if req.useStartMetas then .equivalent else .onlyChildren
    destMatchMode := if isIntermodalDest then .intermodal
      else if req.useDestMetas then .equivalent else .onlyChildren
    useStartFootpaths := req.useStartFootpaths
    start := startOffsets
    destination := destinationOffsets
    maxTransfers := maxTransfers
    minConnectionCount := start.minConnectionCount
    extendIntervalEarlier := start.extendIntervalEarlier
    extendIntervalLater := start.extendIntervalLater
    allowedClaszes := allowedClaszes
    requireBikeTransport := req.bikeTransport
    viaStops := viaStops }

/-! ### What the checks leave -/

/-- The station of the edge on the side where the search starts. -/
def originStationId : SearchDir → MumoEdge → String
  | .forward, e => e.fromStationId
  | .backward, e => e.toStationId

/-- The station of the edge on the side where the search ends. -/
def targetStationId : SearchDir → MumoEdge → String
  | .forward, e => e.toStationId
  | .backward, e => e.fromStationId

/-- The station that makes an edge one of the start's, or one of the destination's. -/
def touchedStationId (dir : SearchDir) (isStart : Bool) : MumoEdge → String :=
  if isStart then originStationId dir else targetStationId dir

def otherStationId (dir : SearchDir) (isStart : Bool) : MumoEdge → String :=
  if isStart then targetStationId dir else originStationId dir

/-- The offset of an edge at a station: the edge's own duration and id. -/
structure OffsetAt (stationId : MumoEdge → String) (e : MumoEdge) (o : Offset) : Prop where
  target : getLocationIdx tags locations (stationId e) = .ok o.target
  duration : o.duration.toInt = e.duration.toNat
  type : o.type = e.mumoId

/-- The edges of a request are assigned to the two sides of the query. An intermodal side has one
    offset for each edge that touches it, at the edge's other station; every edge touches an
    intermodal side. -/
structure Assigned (dir : SearchDir) (edges : List MumoEdge)
    (startStation destinationStation : LocationIdx) (q : Query) : Prop where
  intermodalStart : startStation = getSpecialStation .kStart →
    List.Forall₂ (OffsetAt tags locations (targetStationId dir))
      (edges.filter fun e => originStationId dir e = "START") q.start
  stationStart : startStation ≠ getSpecialStation .kStart → q.start = [⟨startStation, 0, 0⟩]
  intermodalDestination : destinationStation = getSpecialStation .kEnd →
    List.Forall₂ (OffsetAt tags locations (originStationId dir))
      (edges.filter fun e => targetStationId dir e = "END") q.destination
  stationDestination : destinationStation ≠ getSpecialStation .kEnd →
    q.destination = [⟨destinationStation, 0, 0⟩]
  each : ∀ e ∈ edges,
    startStation = getSpecialStation .kStart ∧ originStationId dir e = "START" ∨
      destinationStation = getSpecialStation .kEnd ∧ targetStationId dir e = "END"

variable {tags locations lib}

theorem location_ok {stationId : String} {l : LocationIdx}
    (h : location tags locations stationId = .ok l) :
    getLocationIdx tags locations stationId = .ok l := by
  rw [location] at h
  cases hl : getLocationIdx tags locations stationId with
  | error e => simp [hl, Except.mapError] at h
  | ok l' => simpa [hl, Except.mapError] using h

theorem verify_ok {b : Bool} {what : String} (h : verify b what = .ok ()) : b = true := by
  cases b with
  | false => cases h
  | true => rfl

theorem toInt_toInt16 {d : UInt16} (h : d.toNat < 2 ^ 15) : d.toInt16.toInt = d.toNat := by
  have hlt : 2 * d.toBitVec.toNat < 2 ^ 16 := by
    have hnat : d.toBitVec.toNat = d.toNat := rfl
    omega
  exact BitVec.toInt_eq_toNat_of_lt hlt

/-- The exclusive or picks the touched station for the filter and the other one for the offset. -/
theorem getOffsets_ok {edges : List MumoEdge} {dir : SearchDir} {isStart : Bool}
    {offsets : List Offset} (hdur : ∀ e ∈ edges, e.duration.toNat < 2 ^ 15)
    (h : getOffsets tags locations edges dir isStart = .ok offsets) :
    List.Forall₂ (OffsetAt tags locations (otherStationId dir isStart))
      (edges.filter fun e => touchedStationId dir isStart e =
        getSpecialStationName (if isStart then .kStart else .kEnd)) offsets := by
  have hother : ∀ e : MumoEdge, otherStationId dir isStart e =
      if ((dir == .forward) ^^ isStart) == false then e.toStationId else e.fromStationId := by
    cases dir <;> cases isStart <;> exact fun _ => rfl
  have hfilter : (edges.filter fun e => touchedStationId dir isStart e =
      getSpecialStationName (if isStart then .kStart else .kEnd)) =
        edges.filter fun e =>
          (if ((dir == .forward) ^^ isStart) == false then e.fromStationId else e.toStationId) ==
            getSpecialStationName (if isStart then .kStart else .kEnd) := by
    cases dir <;> cases isStart <;> rfl
  rw [hfilter]
  refine List.forall₂_iff_get.mpr ?_
  obtain ⟨hlen, hget⟩ := List.forall₂_iff_get.mp (mapM_ok h)
  refine ⟨hlen, fun i hi hi' => ?_⟩
  obtain ⟨target, htarget, hoffset⟩ := bind_ok (hget i hi hi')
  rw [← hother] at htarget
  have hmem := List.mem_of_mem_filter (List.get_mem _ ⟨i, hi⟩)
  rw [← Except.ok.inj hoffset]
  exact ⟨location_ok htarget, toInt_toInt16 (hdur _ hmem), rfl⟩

theorem offsetsOf_ok {edges : List MumoEdge} {dir : SearchDir} {isStart : Bool}
    {special : SpecialStation} {station : LocationIdx} {offsets : List Offset}
    (hdur : ∀ e ∈ edges, e.duration.toNat < 2 ^ 15)
    (h : offsetsOf tags locations edges dir isStart (station == getSpecialStation special) station =
      .ok offsets) :
    (station = getSpecialStation special →
      List.Forall₂ (OffsetAt tags locations (otherStationId dir isStart))
        (edges.filter fun e => touchedStationId dir isStart e =
          getSpecialStationName (if isStart then .kStart else .kEnd)) offsets) ∧
      (station ≠ getSpecialStation special → offsets = [⟨station, 0, 0⟩]) := by
  rw [offsetsOf] at h
  split at h
  · next hspecial =>
    exact ⟨fun _ => getOffsets_ok hdur h, fun hne => absurd (eq_of_beq hspecial) hne⟩
  · next hne =>
    exact ⟨fun heq => absurd (beq_iff_eq.mpr heq) hne, fun _ => (Except.ok.inj h).symm⟩

theorem checkEdge_ok {dir : SearchDir} {isIntermodalStart isIntermodalDest : Bool} {e : MumoEdge}
    (h : checkEdge dir isIntermodalStart isIntermodalDest e = .ok ()) :
    isIntermodalStart = true ∧ originStationId dir e = "START" ∨
      isIntermodalDest = true ∧ targetStationId dir e = "END" := by
  have horigin : (if dir = .forward then e.fromStationId else e.toStationId) =
      originStationId dir e := by cases dir <;> rfl
  have htarget : (if dir = .backward then e.fromStationId else e.toStationId) =
      targetStationId dir e := by cases dir <;> rfl
  have hchecked := verify_ok h
  simp only [Bool.or_eq_true, Bool.and_eq_true, beq_iff_eq, horigin, htarget] at hchecked
  rcases hchecked with (hend | hstart) | ⟨⟨⟨hintermodal, _⟩, hstart⟩, _⟩
  · exact .inr hend
  · exact .inl hstart
  · exact .inl ⟨hintermodal, hstart⟩

theorem mapM_asMumoEdge_ok {wrappers : List AdditionalEdge} {edges : List MumoEdge}
    (h : wrappers.mapM asMumoEdge = .ok edges) : wrappers = edges.map .mumoEdge := by
  have hall := mapM_ok h
  clear h
  induction hall with
  | nil => rfl
  | @cons wrapper e wrappers edges he _ ih =>
    cases wrapper with
    | mumoEdge me =>
      obtain rfl := Except.ok.inj he
      rw [ih, List.map_cons]
    | none | periodicMumoEdge | timeDependentMumoEdge | hotelEdge => cases he

/-- CORRECT: a request that passes the checks has its edges assigned without loss. -/
theorem route_assigned {req : RoutingRequest} {q : Query}
    (h : route tags locations lib req = .ok q)
    (hdur : ∀ e, .mumoEdge e ∈ req.additionalEdges → e.duration.toNat < 2 ^ 15) :
    ∃ (start : StartSpec) (destinationStation : LocationIdx) (edges : List MumoEdge),
      readStart tags locations req.start = .ok start ∧
      getLocationIdx tags locations req.destinationId = .ok destinationStation ∧
      req.additionalEdges = edges.map .mumoEdge ∧
      Assigned tags locations req.searchDir edges start.startStation destinationStation q := by
  obtain ⟨start, hstart, h⟩ := bind_ok h
  obtain ⟨destinationStation, hdest, h⟩ := bind_ok h
  obtain ⟨startTime, _, h⟩ := bind_ok h
  obtain ⟨edges, hedges, h⟩ := bind_ok h
  obtain ⟨_, hcheck, h⟩ := bind_ok h
  obtain ⟨destinationOffsets, hdestOffsets, h⟩ := bind_ok h
  obtain ⟨maxTransfers, _, h⟩ := bind_ok h
  obtain ⟨startOffsets, hstartOffsets, h⟩ := bind_ok h
  obtain ⟨allowedClaszes, _, h⟩ := bind_ok h
  obtain ⟨viaStops, _, h⟩ := bind_ok h
  obtain ⟨_, _, h⟩ := bind_ok h
  obtain ⟨_, _, h⟩ := bind_ok h
  obtain rfl := Except.ok.inj h
  obtain ⟨_, hcheck, _⟩ := bind_ok hcheck
  have hwrap := mapM_asMumoEdge_ok hedges
  replace hdur : ∀ e ∈ edges, e.duration.toNat < 2 ^ 15 := fun e he =>
    hdur e (by rw [hwrap]; exact List.mem_map_of_mem he)
  obtain ⟨hintermodalStart, hstationStart⟩ := offsetsOf_ok hdur hstartOffsets
  obtain ⟨hintermodalDest, hstationDest⟩ := offsetsOf_ok hdur hdestOffsets
  refine ⟨start, destinationStation, edges, hstart, location_ok hdest, hwrap, {
    intermodalStart := hintermodalStart
    stationStart := hstationStart
    intermodalDestination := hintermodalDest
    stationDestination := hstationDest
    each := fun e he => ?_ }⟩
  simpa using checkEdge_ok (forM_ok hcheck e he)

end Route

/-- Stops `START`, `END` and `a`. -/
def pseudoStations : Timetable where
  ids l := if l = 0 then "START" else if l = 1 then "END" else "a"

def pseudoStationIndex : LocationIndex pseudoStations :=
  .ofList [0, 1, 2] (by decide)

def searchLibrary : SearchLibrary where
  kMaxTransfers := 7
  kNumClasses := 13
  allClaszesAllowed := 0xFFFF
  contains _ := true
  overlaps _ _ := true
  clamp := id

/-- Backward from `START`: travel ends there, after an edge from `a`. -/
def arriveByEdge : RoutingRequest where
  start := .ontripStationStart 60 "START"
  destinationId := "a"
  searchDir := .backward
  additionalEdges := [.mumoEdge ⟨"a", "START", 5, 0⟩]

theorem route_arriveByEdge : ∃ q, route {} pseudoStationIndex searchLibrary arriveByEdge = .ok q ∧
    q.start = [⟨2, 5, 0⟩] ∧ q.destination = [⟨2, 0, 0⟩] :=
  ⟨_, rfl, rfl, rfl⟩

theorem route_assigned_arriveByEdge : ∃ q start destinationStation edges,
    readStart {} pseudoStationIndex arriveByEdge.start = .ok start ∧
    getLocationIdx {} pseudoStationIndex arriveByEdge.destinationId = .ok destinationStation ∧
    arriveByEdge.additionalEdges = edges.map .mumoEdge ∧
    Assigned {} pseudoStationIndex arriveByEdge.searchDir edges start.startStation
      destinationStation q := by
  obtain ⟨q, h, -, -⟩ := route_arriveByEdge
  refine ⟨q, route_assigned h fun e he => ?_⟩
  simp only [arriveByEdge, List.mem_singleton, AdditionalEdge.mumoEdge.injEq] at he
  rw [he]
  decide

end Motis.Nigiri
