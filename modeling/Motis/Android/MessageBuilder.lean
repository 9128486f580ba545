import Motis.Android.FlatBufferRuns

/-! `MessageBuilder`: the requests the app sends.

    A request is a message with an id, a destination that is a module of the server, and a content.
    A route is asked for from the place where the interval is: for an arrival the start is the
    station the user wants to go to, and the search goes backward. -/

namespace Motis.Android.MessageBuilder
open ByteStack FlatBufferBuilder Fallible

def utf8 (s : String) : List UInt8 := s.toUTF8.data.toList

/-! ### Generated classes -/

namespace MsgContent
def motisNoMessage : ℤ := 1
def stationGuesserRequest : ℤ := 23
def intermodalRoutingRequest : ℤ := 25
end MsgContent

namespace DestinationType
def module : ℤ := 0
end DestinationType

namespace IntermodalStart
def pretripStart : ℤ := 5
end IntermodalStart

namespace IntermodalDestination
def inputStation : ℤ := 1
end IntermodalDestination

namespace SearchType
def default : ℤ := 0
end SearchType

namespace SearchDir
def forward : ℤ := 0
def backward : ℤ := 1
end SearchDir

/-- `putBoolean` writes a byte. -/
def ofBool (x : Bool) : ℤ := if x then 1 else 0

namespace Message

def fields (destination : ℕ) (contentType : ℤ) (content : ℕ) (msgId : Int32) :
    List (ℕ × Field) :=
  [(3, .number 4 msgId.toInt 0), (2, .offset content), (0, .offset destination),
    (1, .number 1 contentType 0)]

def createMessage (b : FlatBufferBuilder) (destination : ℕ) (contentType : ℤ) (content : ℕ)
    (msgId : Int32) : Result (ℕ × FlatBufferBuilder) :=
  b.createTable 4 (fields destination contentType content msgId)

def destination (t : Table) : Option (Option Table) := t.tableField 4
def contentType (t : Table) : Option ℤ := t.numberField 6 1 0
def content (t : Table) : Option (Option Table) := t.unionField 8
def msgId (t : Table) : Option ℤ := t.numberField 10 4 0

end Message

namespace Destination

def fields (type : ℤ) (target : ℕ) : List (ℕ × Field) :=
  [(1, .offset target), (0, .number 1 type 0)]

def createDestination (b : FlatBufferBuilder) (type : ℤ) (target : ℕ) :
    Result (ℕ × FlatBufferBuilder) :=
  b.createTable 2 (fields type target)

def type (t : Table) : Option ℤ := t.numberField 4 1 0
def target (t : Table) : Option (Option (List UInt8)) := t.stringField 6

end Destination

namespace StationGuesserRequest

def fields (guessCount : ℤ) (input : ℕ) : List (ℕ × Field) :=
  [(1, .offset input), (0, .number 2 guessCount 8)]

def createStationGuesserRequest (b : FlatBufferBuilder) (guessCount : ℤ) (input : ℕ) :
    Result (ℕ × FlatBufferBuilder) :=
  b.createTable 2 (fields guessCount input)

/-- `& 0xFFFF`. -/
def guessCount (t : Table) : Option ℤ := (t.numberField 4 2 8).map (· % 2 ^ 16)
def input (t : Table) : Option (Option (List UInt8)) := t.stringField 6

end StationGuesserRequest

namespace InputStation

def fields (id name : ℕ) : List (ℕ × Field) := [(1, .offset name), (0, .offset id)]

def createInputStation (b : FlatBufferBuilder) (id name : ℕ) : Result (ℕ × FlatBufferBuilder) :=
  b.createTable 2 (fields id name)

def id (t : Table) : Option (Option (List UInt8)) := t.stringField 4
def name (t : Table) : Option (Option (List UInt8)) := t.stringField 6

end InputStation

namespace Interval

/-- `createInterval`, inside of the table that has the struct. -/
def createInterval (begin_ end_ : Int64) : Field := .struct 8 [begin_.toInt, end_.toInt]

def begin_ (t : Table) : Option ℤ := getNumber t.bb (t.bbPos + 0) 8
def end_ (t : Table) : Option ℤ := getNumber t.bb (t.bbPos + 8) 8

end Interval

namespace PretripStart

def station (t : Table) : Option (Option Table) := t.tableField 4
def interval (t : Table) : Option (Option Table) := t.structField 6
/-- `& 0xFFFFFFFFL`. -/
def minConnectionCount (t : Table) : Option ℤ := (t.numberField 8 4 0).map (· % 2 ^ 32)
def extendIntervalEarlier (t : Table) : Option Bool := (t.numberField 10 1 0).map (0 != ·)
def extendIntervalLater (t : Table) : Option Bool := (t.numberField 12 1 0).map (0 != ·)

end PretripStart

namespace IntermodalRoutingRequest

def fields (startType : ℤ) (start startModes : ℕ) (destinationType : ℤ)
    (destination destinationModes : ℕ) (searchType searchDir : ℤ) (router : ℕ) :
    List (ℕ × Field) :=
  [(8, .offset router), (5, .offset destinationModes), (4, .offset destination),
    (2, .offset startModes), (1, .offset start), (7, .number 1 searchDir 0),
    (6, .number 1 searchType 0), (3, .number 1 destinationType 0), (0, .number 1 startType 0)]

def createIntermodalRoutingRequest (b : FlatBufferBuilder) (startType : ℤ) (start startModes : ℕ)
    (destinationType : ℤ) (destination destinationModes : ℕ) (searchType searchDir : ℤ)
    (router : ℕ) : Result (ℕ × FlatBufferBuilder) :=
  b.createTable 9 (fields startType start startModes destinationType destination
    destinationModes searchType searchDir router)

def startType (t : Table) : Option ℤ := t.numberField 4 1 0
def start (t : Table) : Option (Option Table) := t.unionField 6
def startModesLength (t : Table) : Option ℤ := t.vectorLength 8
def destinationType (t : Table) : Option ℤ := t.numberField 10 1 0
def destination (t : Table) : Option (Option Table) := t.unionField 12
def destinationModesLength (t : Table) : Option ℤ := t.vectorLength 14
def searchType (t : Table) : Option ℤ := t.numberField 16 1 0
def searchDir (t : Table) : Option ℤ := t.numberField 18 1 0
def router (t : Table) : Option (Option (List UInt8)) := t.stringField 20

end IntermodalRoutingRequest

/-! ### Requests -/

def guess (ssid : Int32) (input : List UInt8) : Result (List UInt8) := do
  let (inputOffset, b) ← ({} : FlatBufferBuilder).createString input
  let (guesserRequestOffset, b) ←
    StationGuesserRequest.createStationGuesserRequest b 10 inputOffset
  let (target, b) ← b.createString (utf8 "/guesser")
  let (destination, b) ← Destination.createDestination b DestinationType.module target
  let (message, b) ← Message.createMessage b destination MsgContent.stationGuesserRequest
    guesserRequestOffset ssid
  let b ← b.finish message
  b.sizedByteArray

def PretripStart.fields (station : ℕ) (intervalBegin intervalEnd : Int64)
    (extendIntervalEarlier extendIntervalLater : Bool) (minConnectionCount : Int32) :
    List (ℕ × Field) :=
  [(0, .offset station), (1, Interval.createInterval (intervalBegin / 1000) (intervalEnd / 1000)),
    (3, .number 1 (ofBool extendIntervalEarlier) 0),
    (4, .number 1 (ofBool extendIntervalLater) 0),
    (2, .number 4 minConnectionCount.toInt 0)]

/-- The dates are in milliseconds. -/
def createPreTripStart (b : FlatBufferBuilder) (startStationId : List UInt8)
    (intervalBegin intervalEnd : Int64) (extendIntervalEarlier extendIntervalLater : Bool)
    (minConnectionCount : Int32) : Result (ℕ × FlatBufferBuilder) := do
  let (stationId, b) ← b.createString startStationId
  let (name, b) ← b.createString (utf8 "")
  let (station, b) ← InputStation.createInputStation b stationId name
  b.createTable 5 (PretripStart.fields station intervalBegin intervalEnd extendIntervalEarlier
    extendIntervalLater minConnectionCount)

def route (ssid : Int32) (fromId toId : List UInt8) (isArrival : Bool)
    (intervalBegin intervalEnd : Int64) (extendIntervalEarlier extendIntervalLater : Bool)
    (minConnectionCount : Int32) : Result (List UInt8) := do
  let startStationId := if isArrival then toId else fromId
  let targetStationId := if isArrival then fromId else toId
  let (start, b) ← createPreTripStart {} startStationId intervalBegin intervalEnd
    extendIntervalEarlier extendIntervalLater minConnectionCount
  let (stationId, b) ← b.createString targetStationId
  let (name, b) ← b.createString (utf8 "")
  let (destination, b) ← InputStation.createInputStation b stationId name
  let (router, b) ← b.createString (utf8 "")
  let (startModes, b) ← b.createOffsetVector []
  let (destinationModes, b) ← b.createOffsetVector []
  let (intermodalRoutingRequest, b) ←
    IntermodalRoutingRequest.createIntermodalRoutingRequest b IntermodalStart.pretripStart start
      startModes IntermodalDestination.inputStation destination destinationModes
      SearchType.default (if isArrival then SearchDir.backward else SearchDir.forward) router
  let (target, b) ← b.createString (utf8 "/intermodal")
  let (messageDestination, b) ← Destination.createDestination b DestinationType.module target
  let (message, b) ← Message.createMessage b messageDestination
    MsgContent.intermodalRoutingRequest intermodalRoutingRequest ssid
  let b ← b.finish message
  b.sizedByteArray

def scheduleInfo (ssid : Int32) : Result (List UInt8) := do
  let (noMsg, b) ← ({} : FlatBufferBuilder).createTable 0 []
  let (target, b) ← b.createString (utf8 "/lookup/schedule_info")
  let (destination, b) ← Destination.createDestination b DestinationType.module target
  let (message, b) ← Message.createMessage b destination MsgContent.motisNoMessage noMsg ssid
  let b ← b.finish message
  b.sizedByteArray

def decode (buf : List UInt8) : Option Table := getRoot buf

/-! ### The calls -/

/-- The calls of a message: those of its content, and the last three for its destination and
    itself. -/
def addressed (calls : List Call) (content : ℕ) (target : String) (contentType : ℤ)
    (ssid : Int32) : List Call :=
  calls ++ [.string (utf8 target),
    .table 2 (Destination.fields DestinationType.module calls.length),
    .table 4 (Message.fields (calls.length + 1) contentType content ssid)]

def guessCalls (input : List UInt8) : List Call :=
  [.string input, .table 2 (StationGuesserRequest.fields 10 0)]

def routeCalls (startStationId targetStationId : List UInt8) (searchDir : ℤ)
    (intervalBegin intervalEnd : Int64) (extendIntervalEarlier extendIntervalLater : Bool)
    (minConnectionCount : Int32) : List Call :=
  [.string startStationId, .string (utf8 ""), .table 2 (InputStation.fields 0 1),
    .table 5 (PretripStart.fields 2 intervalBegin intervalEnd extendIntervalEarlier
      extendIntervalLater minConnectionCount),
    .string targetStationId, .string (utf8 ""), .table 2 (InputStation.fields 4 5),
    .string (utf8 ""), .vector [], .vector [],
    .table 9 (IntermodalRoutingRequest.fields IntermodalStart.pretripStart 3 8
      IntermodalDestination.inputStation 6 9 SearchType.default searchDir 7)]

section Calls
variable {ssid : Int32} {input fromId toId : List UInt8} {isArrival : Bool}
  {intervalBegin intervalEnd : Int64} {extendIntervalEarlier extendIntervalLater : Bool}
  {minConnectionCount : Int32}

theorem guess_eq : guess ssid input = writeMessage (addressed (guessCalls input) 1 "/guesser"
    MsgContent.stationGuesserRequest ssid) 4 := by
  simp [guess, writeMessage, addressed, guessCalls, createAll, Call.create, resolveFields,
    Field.resolve, ok_bind rfl, StationGuesserRequest.createStationGuesserRequest,
    StationGuesserRequest.fields, Destination.createDestination, Destination.fields,
    Message.createMessage, Message.fields]

theorem scheduleInfo_eq : scheduleInfo ssid = writeMessage (addressed [.table 0 []] 0
    "/lookup/schedule_info" MsgContent.motisNoMessage ssid) 3 := by
  simp [scheduleInfo, writeMessage, addressed, createAll, Call.create, resolveFields,
    Field.resolve, ok_bind rfl, Destination.createDestination, Destination.fields,
    Message.createMessage, Message.fields]

theorem route_eq : route ssid fromId toId isArrival intervalBegin intervalEnd
      extendIntervalEarlier extendIntervalLater minConnectionCount =
    writeMessage (addressed (routeCalls (if isArrival then toId else fromId)
      (if isArrival then fromId else toId)
      (if isArrival then SearchDir.backward else SearchDir.forward) intervalBegin intervalEnd
      extendIntervalEarlier extendIntervalLater minConnectionCount) 10 "/intermodal"
      MsgContent.intermodalRoutingRequest ssid) 13 := by
  simp [route, createPreTripStart, writeMessage, addressed, routeCalls, createAll, Call.create,
    resolveFields, Field.resolve, ok_bind rfl, InputStation.createInputStation,
    InputStation.fields, PretripStart.fields, Interval.createInterval,
    IntermodalRoutingRequest.createIntermodalRoutingRequest, IntermodalRoutingRequest.fields,
    Destination.createDestination, Destination.fields, Message.createMessage, Message.fields]

end Calls

/-! ### What is read -/

/-- The message is addressed to a module of the server, and has this content. -/
def IsRequest (data : List UInt8) (ssid : Int32) (target : String) (contentType : ℤ)
    (content : Table) : Prop :=
  ∃ m d, decode data = some m ∧ Message.msgId m = some ssid.toInt ∧
    Message.contentType m = some contentType ∧ Message.content m = some (some content) ∧
    Message.destination m = some (some d) ∧ Destination.type d = some DestinationType.module ∧
    Destination.target d = some (some (utf8 target))

/-- The station is given by its id. -/
def IsStation (t : Table) (stationId : List UInt8) : Prop :=
  InputStation.id t = some (some stationId) ∧ InputStation.name t = some (some (utf8 ""))

/-- A station, an interval in seconds, and how the interval may be extended. -/
structure IsPretripStart (t : Table) (stationId : List UInt8) (intervalBegin intervalEnd : Int64)
    (extendIntervalEarlier extendIntervalLater : Bool) (minConnectionCount : Int32) : Prop where
  station : ∃ station, PretripStart.station t = some (some station) ∧ IsStation station stationId
  interval : ∃ interval, PretripStart.interval t = some (some interval) ∧
    Interval.begin_ interval = some (intervalBegin / 1000).toInt ∧
    Interval.end_ interval = some (intervalEnd / 1000).toInt
  extendIntervalEarlier : PretripStart.extendIntervalEarlier t = some extendIntervalEarlier
  extendIntervalLater : PretripStart.extendIntervalLater t = some extendIntervalLater
  minConnectionCount :
    PretripStart.minConnectionCount t = some (minConnectionCount.toInt % 2 ^ 32)

/-- A search from `start` to a station, with no other modes. -/
structure IsSearch (t start : Table) (targetStationId : List UInt8) (searchDir : ℤ) : Prop where
  startType : IntermodalRoutingRequest.startType t = some IntermodalStart.pretripStart
  start : IntermodalRoutingRequest.start t = some (some start)
  startModes : IntermodalRoutingRequest.startModesLength t = some 0
  destinationType :
    IntermodalRoutingRequest.destinationType t = some IntermodalDestination.inputStation
  destination : ∃ station, IntermodalRoutingRequest.destination t = some (some station) ∧
    IsStation station targetStationId
  destinationModes : IntermodalRoutingRequest.destinationModesLength t = some 0
  searchType : IntermodalRoutingRequest.searchType t = some SearchType.default
  searchDir : IntermodalRoutingRequest.searchDir t = some searchDir
  router : IntermodalRoutingRequest.router t = some (some (utf8 ""))

theorem inRange_toInt32 (x : Int32) : InRange 4 x.toInt := by
  have := x.le_toInt
  have := x.toInt_lt
  constructor <;> norm_num <;> omega

theorem inRange_toInt64 (x : Int64) : InRange 8 x.toInt := by
  have := x.le_toInt
  have := x.toInt_lt
  constructor <;> norm_num <;> omega

theorem inRange_ofBool (x : Bool) : InRange 1 (ofBool x) := by
  cases x <;> decide

theorem allValid_append {n : ℕ} {calls more : List Call} :
    AllValid n (calls ++ more) ↔ AllValid n calls ∧ AllValid (n + calls.length) more := by
  induction calls generalizing n with
  | nil => simp [AllValid]
  | cons call calls ih => simp [AllValid, ih, and_assoc, Nat.add_assoc, Nat.add_comm 1]

section Addressed
variable {calls : List Call} {content numfields : ℕ} {fields : List (ℕ × Field)}
  {contentType : ℤ}

theorem addressed_get {k : ℕ} {call : Call} (content : ℕ) (contentType : ℤ) (target : String)
    (ssid : Int32) (hk : calls[k]? = some call) :
    (addressed calls content target contentType ssid)[k]? = some call := by
  rw [addressed, List.getElem?_append_left (List.getElem?_eq_some_iff.mp hk).1, hk]

theorem allValid_addressed (target : String) (ssid : Int32) (hvalid : AllValid 0 calls)
    (hcontent : content < calls.length) (htype : InRange 1 contentType) :
    AllValid 0 (addressed calls content target contentType ssid) := by
  have hssid := inRange_toInt32 ssid
  rw [addressed, allValid_append, Nat.zero_add]
  refine ⟨hvalid, trivial, ⟨?_, by simp [Destination.fields],
    by simp [Destination.fields, Field.cost], by decide⟩, ?_, trivial⟩
  · simp [Destination.fields, Field.Valid, IsSize, InRange, DestinationType.module]
  · refine ⟨?_, by simp [Message.fields], by simp [Message.fields, Field.cost], by decide⟩
    simp only [Message.fields, List.forall_mem_cons, Field.Valid]
    refine ⟨⟨⟨isSize_four, hssid, by decide⟩, by decide⟩, ⟨by omega, by decide⟩,
      ⟨by omega, by decide⟩, ⟨⟨isSize_one, htype, by decide⟩, by decide⟩, by simp⟩

/-- The message, its destination and the tables of its content are read. -/
theorem addressed_read (content : ℕ) (target : String) (contentType : ℤ) (ssid : Int32)
    (hvalid : AllValid 0 calls)
    (hcontent : calls[content]? = some (.table numfields fields))
    (htype : InRange 1 contentType)
    (hsize : (calls.map Call.cost).sum + (utf8 target).length + 256 ≤ maxSize) :
    ∃ data results,
      writeMessage (addressed calls content target contentType ssid) (calls.length + 2) = .ok data ∧
      IsRequest data ssid target contentType (tableAt data (results.getD content 0)) ∧
      ∀ k numfields fields, calls[k]? = some (.table numfields fields) →
        ReadsTable data (addressed calls content target contentType ssid) results
          (tableAt data (results.getD k 0)) fields := by
  have hlt : content < calls.length := (List.getElem?_eq_some_iff.mp hcontent).1
  have htarget : (addressed calls content target contentType ssid)[calls.length]? =
      some (.string (utf8 target)) := by
    simp [addressed]
  have hdestination : (addressed calls content target contentType ssid)[calls.length + 1]? =
      some (.table 2 (Destination.fields DestinationType.module calls.length)) := by
    simp [addressed]
  have hmessage : (addressed calls content target contentType ssid)[calls.length + 2]? =
      some (.table 4 (Message.fields (calls.length + 1) contentType content ssid)) := by
    simp [addressed]
  obtain ⟨b, data, results, hwrite, hholding, hsuffix, hlength, hdvd, hget⟩ :=
    writeMessage_spec (addressed calls content target contentType ssid) (calls.length + 2)
      (allValid_addressed target ssid hvalid hlt htype) ⟨4, _, hmessage⟩ (by
        simp only [addressed, List.map_append, List.sum_append, List.map_cons, List.map_nil,
          List.sum_cons, List.sum_nil, Call.cost, tableCost, Destination.fields, Message.fields,
          Field.cost]
        omega)
  have hreads := fun {k numfields fields} (hk : (addressed calls content target contentType
      ssid)[k]? = some (Call.table numfields fields)) =>
    reads_of_holding hholding hsuffix hlength hdvd hk
  have hm := hreads hmessage
  have hd := hreads hdestination
  have hc := addressed_get content contentType target ssid hcontent
  refine ⟨data, results, hwrite, ⟨_, tableAt data (results.getD (calls.length + 1) 0), hget,
    hm.number 3 4 _ 0 (by simp [Message.fields]), hm.number 1 1 _ 0 (by simp [Message.fields]),
    (hm.table 2 _ _ _ (by simp [Message.fields]) hc).2,
    (hm.table 0 _ _ _ (by simp [Message.fields]) hdestination).1,
    hd.number 0 1 _ 0 (by simp [Destination.fields]),
    hd.string 1 _ _ (by simp [Destination.fields]) htarget⟩, fun k numfields fields hk => ?_⟩
  exact hreads (addressed_get content contentType target ssid hk)

end Addressed

theorem allValid_guess (input : List UInt8) : AllValid 0 (guessCalls input) := by
  refine ⟨trivial, ?_, trivial⟩
  simp [Call.Valid, StationGuesserRequest.fields, Field.Valid, IsSize, InRange, Field.cost]

theorem allValid_scheduleInfo : AllValid 0 [.table 0 []] :=
  ⟨by simp [Call.Valid], trivial⟩

/-- The station guesser reads what the user has typed. -/
theorem guess_read (ssid : Int32) (input : List UInt8) (hsize : input.length + 512 ≤ maxSize) :
    ∃ data request, guess ssid input = .ok data ∧
      IsRequest data ssid "/guesser" MsgContent.stationGuesserRequest request ∧
      StationGuesserRequest.guessCount request = some 10 ∧
      StationGuesserRequest.input request = some (some input) := by
  have htarget : (utf8 "/guesser").length = 8 := rfl
  obtain ⟨data, results, hwrite, hrequest, hreads⟩ := addressed_read 1
    "/guesser" MsgContent.stationGuesserRequest ssid (allValid_guess input) rfl (by decide) (by
        rw [htarget]
        simp only [guessCalls, List.map_cons, List.map_nil, List.sum_cons, List.sum_nil, Call.cost,
          tableCost, StationGuesserRequest.fields, Field.cost]
        omega)
  have hr := hreads 1 _ _ rfl
  refine ⟨data, _, guess_eq.trans hwrite, hrequest, ?_, ?_⟩
  · have hcount := hr.number 0 2 10 8 (by simp [StationGuesserRequest.fields])
    exact congrArg (Option.map (· % 2 ^ 16)) hcount
  · exact hr.string 1 0 input (by simp [StationGuesserRequest.fields])
      (addressed_get 1 _ "/guesser" ssid rfl)

theorem scheduleInfo_read (ssid : Int32) :
    ∃ data content, scheduleInfo ssid = .ok data ∧
      IsRequest data ssid "/lookup/schedule_info" MsgContent.motisNoMessage content := by
  obtain ⟨data, results, hwrite, hrequest, -⟩ := addressed_read 0
    "/lookup/schedule_info" MsgContent.motisNoMessage ssid allValid_scheduleInfo rfl (by decide)
    (by decide)
  exact ⟨data, _, scheduleInfo_eq.trans hwrite, hrequest⟩

section Route
variable {data : List UInt8} {calls : List Call} {results : List ℕ} {t : Table}

theorem isStation_of_reads {i j : ℕ} {stationId : List UInt8}
    (h : ReadsTable data calls results t (InputStation.fields i j))
    (hi : calls[i]? = some (.string stationId)) (hj : calls[j]? = some (.string (utf8 ""))) :
    IsStation t stationId :=
  ⟨h.string 0 i _ (by simp [InputStation.fields]) hi,
    h.string 1 j _ (by simp [InputStation.fields]) hj⟩

theorem isPretripStart_of_reads {i : ℕ} {stationId : List UInt8} {intervalBegin intervalEnd : Int64}
    {extendIntervalEarlier extendIntervalLater : Bool} {minConnectionCount : Int32}
    {numfields : ℕ} {fields : List (ℕ × Field)}
    (h : ReadsTable data calls results t (PretripStart.fields i intervalBegin intervalEnd
      extendIntervalEarlier extendIntervalLater minConnectionCount))
    (hi : calls[i]? = some (.table numfields fields))
    (hstation : IsStation (tableAt data (results.getD i 0)) stationId) :
    IsPretripStart t stationId intervalBegin intervalEnd extendIntervalEarlier
      extendIntervalLater minConnectionCount := by
  have hnumber := h.number
  have hearlier := hnumber 3 1 (ofBool extendIntervalEarlier) 0 (by simp [PretripStart.fields])
  have hlater := hnumber 4 1 (ofBool extendIntervalLater) 0 (by simp [PretripStart.fields])
  have hcount := hnumber 2 4 minConnectionCount.toInt 0 (by simp [PretripStart.fields])
  obtain ⟨interval, hinterval, hbb, hmembers⟩ := h.struct 1 8
    [(intervalBegin / 1000).toInt, (intervalEnd / 1000).toInt] (by
      simp [PretripStart.fields, Interval.createInterval])
  refine ⟨⟨_, (h.table 0 i _ _ (by simp [PretripStart.fields]) hi).1, hstation⟩,
    ⟨interval, hinterval, ?_, ?_⟩, ?_, ?_, congrArg (Option.map (· % 2 ^ 32)) hcount⟩
  · have hbegin := hmembers 0 _ rfl
    rwa [← hbb] at hbegin
  · have hend := hmembers 1 _ rfl
    rwa [← hbb] at hend
  · refine (congrArg (Option.map (0 != ·)) hearlier).trans ?_
    cases extendIntervalEarlier <;> rfl
  · refine (congrArg (Option.map (0 != ·)) hlater).trans ?_
    cases extendIntervalLater <;> rfl

theorem isSearch_of_reads {start startModes destination destinationModes router : ℕ}
    {searchDir : ℤ} {targetStationId : List UInt8} {numfields numfields' : ℕ}
    {fields fields' : List (ℕ × Field)}
    (h : ReadsTable data calls results t (IntermodalRoutingRequest.fields
      IntermodalStart.pretripStart start startModes IntermodalDestination.inputStation destination
      destinationModes SearchType.default searchDir router))
    (hstart : calls[start]? = some (.table numfields fields))
    (hstartModes : calls[startModes]? = some (.vector []))
    (hdestination : calls[destination]? = some (.table numfields' fields'))
    (hdestinationModes : calls[destinationModes]? = some (.vector []))
    (hrouter : calls[router]? = some (.string (utf8 "")))
    (hstation : IsStation (tableAt data (results.getD destination 0)) targetStationId) :
    IsSearch t (tableAt data (results.getD start 0)) targetStationId searchDir where
  startType := h.number 0 1 _ 0 (by simp [IntermodalRoutingRequest.fields])
  start := (h.table 1 _ _ _ (by simp [IntermodalRoutingRequest.fields]) hstart).2
  startModes := (h.vector 2 _ _ (by simp [IntermodalRoutingRequest.fields]) hstartModes).1
  destinationType := h.number 3 1 _ 0 (by simp [IntermodalRoutingRequest.fields])
  destination :=
    ⟨_, (h.table 4 _ _ _ (by simp [IntermodalRoutingRequest.fields]) hdestination).2, hstation⟩
  destinationModes :=
    (h.vector 5 _ _ (by simp [IntermodalRoutingRequest.fields]) hdestinationModes).1
  searchType := h.number 6 1 _ 0 (by simp [IntermodalRoutingRequest.fields])
  searchDir := h.number 7 1 _ 0 (by simp [IntermodalRoutingRequest.fields])
  router := h.string 8 _ _ (by simp [IntermodalRoutingRequest.fields]) hrouter

theorem allValid_route (startStationId targetStationId : List UInt8) {searchDir : ℤ}
    (hdir : InRange 1 searchDir) (intervalBegin intervalEnd : Int64)
    (extendIntervalEarlier extendIntervalLater : Bool) (minConnectionCount : Int32) :
    AllValid 0 (routeCalls startStationId targetStationId searchDir intervalBegin intervalEnd
      extendIntervalEarlier extendIntervalLater minConnectionCount) := by
  have hstation : ∀ n i j : ℕ, i < n → j < n →
      (Call.table 2 (InputStation.fields i j)).Valid n := by
    intro n i j hi hj
    simp [Call.Valid, InputStation.fields, Field.Valid, Field.cost, hi, hj]
  refine ⟨trivial, trivial, hstation 2 0 1 (by decide) (by decide), ?_, trivial, trivial,
    hstation 6 4 5 (by decide) (by decide), trivial, by simp [Call.Valid], by simp [Call.Valid],
    ?_, trivial⟩
  · have hbegin := inRange_toInt64 (intervalBegin / 1000)
    have hend := inRange_toInt64 (intervalEnd / 1000)
    have hcount := inRange_toInt32 minConnectionCount
    have hearlier := inRange_ofBool extendIntervalEarlier
    have hlater := inRange_ofBool extendIntervalLater
    have hzero : InRange 1 0 := by decide
    have hzero' : InRange 4 0 := by decide
    refine ⟨?_, by simp [PretripStart.fields], ?_, by decide⟩
    · simp only [PretripStart.fields, Interval.createInterval, List.forall_mem_cons, Field.Valid]
      simp [hearlier, hlater, hzero, hzero', hcount, hbegin, hend, IsSize, -Int64.toInt_div]
    · simp [PretripStart.fields, Interval.createInterval, Field.cost]
  · refine ⟨?_, by simp [IntermodalRoutingRequest.fields], ?_, by decide⟩
    · have hzero : InRange 1 0 := by decide
      have hstart : InRange 1 IntermodalStart.pretripStart := by decide
      have hdestination : InRange 1 IntermodalDestination.inputStation := by decide
      have htype : InRange 1 SearchType.default := by decide
      simp only [IntermodalRoutingRequest.fields, List.forall_mem_cons, Field.Valid]
      simp [hdir, hzero, hstart, hdestination, htype, isSize_one]
    · simp [IntermodalRoutingRequest.fields, Field.cost]

theorem routeCalls_cost (startStationId targetStationId : List UInt8) (searchDir : ℤ)
    (intervalBegin intervalEnd : Int64) (extendIntervalEarlier extendIntervalLater : Bool)
    (minConnectionCount : Int32) :
    ((routeCalls startStationId targetStationId searchDir intervalBegin intervalEnd
      extendIntervalEarlier extendIntervalLater minConnectionCount).map Call.cost).sum =
      startStationId.length + targetStationId.length + 392 := by
  have hempty : (utf8 "").length = 0 := rfl
  simp only [routeCalls, List.map_cons, List.map_nil, List.sum_cons, List.sum_nil, Call.cost,
    tableCost, InputStation.fields, PretripStart.fields, Interval.createInterval,
    IntermodalRoutingRequest.fields, Field.cost, List.length_cons, List.length_nil, hempty]
  ring

/-- CORRECT: the server reads the search that the user has asked for. For an arrival it starts at
    the station of the arrival and goes backward; the interval is in seconds. -/
theorem route_read (ssid : Int32) (fromId toId : List UInt8) (isArrival : Bool)
    (intervalBegin intervalEnd : Int64) (extendIntervalEarlier extendIntervalLater : Bool)
    (minConnectionCount : Int32) (hsize : fromId.length + toId.length + 2048 ≤ maxSize) :
    ∃ data request start,
      route ssid fromId toId isArrival intervalBegin intervalEnd extendIntervalEarlier
        extendIntervalLater minConnectionCount = .ok data ∧
      IsRequest data ssid "/intermodal" MsgContent.intermodalRoutingRequest request ∧
      IsSearch request start (if isArrival then fromId else toId)
        (if isArrival then SearchDir.backward else SearchDir.forward) ∧
      IsPretripStart start (if isArrival then toId else fromId) intervalBegin intervalEnd
        extendIntervalEarlier extendIntervalLater minConnectionCount := by
  have htarget : (utf8 "/intermodal").length = 11 := rfl
  have hlengths : (if isArrival then toId else fromId).length +
      (if isArrival then fromId else toId).length = fromId.length + toId.length := by
    cases isArrival
    · rfl
    · exact Nat.add_comm _ _
  have hdir : InRange 1 (if isArrival then SearchDir.backward else SearchDir.forward) := by
    cases isArrival <;> decide
  obtain ⟨data, results, hwrite, hrequest, hreads⟩ := addressed_read 10
    "/intermodal" MsgContent.intermodalRoutingRequest ssid
    (allValid_route (if isArrival then toId else fromId) (if isArrival then fromId else toId) hdir
      intervalBegin intervalEnd extendIntervalEarlier extendIntervalLater minConnectionCount) rfl
    (by decide) (by
      rw [htarget, routeCalls_cost, hlengths]
      exact le_trans (by omega) hsize)
  have hget := fun {k : ℕ} {call : Call} (hk : (routeCalls (if isArrival then toId else fromId)
      (if isArrival then fromId else toId)
      (if isArrival then SearchDir.backward else SearchDir.forward) intervalBegin intervalEnd
      extendIntervalEarlier extendIntervalLater minConnectionCount)[k]? = some call) =>
    addressed_get 10 MsgContent.intermodalRoutingRequest "/intermodal" ssid hk
  have hstation := isStation_of_reads (hreads 2 _ _ rfl) (hget rfl) (hget rfl)
  have hdestination := isStation_of_reads (hreads 6 _ _ rfl) (hget rfl) (hget rfl)
  exact ⟨data, _, _, route_eq.trans hwrite, hrequest,
    isSearch_of_reads (hreads 10 _ _ rfl) (hget rfl) (hget rfl) (hget rfl) (hget rfl) (hget rfl)
      hdestination,
    isPretripStart_of_reads (hreads 3 _ _ rfl) (hget rfl) hstation⟩

/-- A search for arrivals within an hour. -/
theorem route_read_arrival :
    ∃ data request start,
      route 7 (utf8 "de_8000068") (utf8 "de_8000105") true 1500000000000 1500003600000 true false
        5 = .ok data ∧
      IsRequest data 7 "/intermodal" MsgContent.intermodalRoutingRequest request ∧
      IsSearch request start (utf8 "de_8000068") SearchDir.backward ∧
      IsPretripStart start (utf8 "de_8000105") 1500000000000 1500003600000 true false 5 :=
  route_read 7 (utf8 "de_8000068") (utf8 "de_8000105") true 1500000000000 1500003600000 true false 5
    (by decide)

end Route

end Motis.Android.MessageBuilder
