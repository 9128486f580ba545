import Mathlib.Algebra.Ring.Int.Defs
import Motis.Lib.Tiling
import Motis.Ui.Connections

/-! The trains and walks of a connection.

    The stops are folded from the last to the first one. An exit opens a train, and an enter closes
    the one that is open; a stop may do both:

        stops     0 ─── 1 ─── 2 ─── 3 ─── 4 ─── 5
        exit            ▲                 ▲
        enter     ▲     ▲
        trains    ├─────┤
                        ├─────────────────┤
        walks                             ├─────┤

    The moves are both, sorted by the first stop. -/

namespace Motis.Ui.JourneyMoves
open Tiling

structure TransportInfo where
  range : Range
  «class» : ℤ
  lineId : String
  name : String
  provider : String
  providerUrl : String
  direction : String
  deriving DecidableEq, Repr

structure WalkInfo where
  range : Range
  mumoId : ℤ
  price : ℤ
  accessibility : ℤ
  mumoType : String
  deriving DecidableEq, Repr

inductive Move where
  | transport (transport : TransportInfo)
  | walk (walk : WalkInfo)
  deriving DecidableEq, Repr

structure TripId where
  id : String
  stationId : String
  trainNr : ℤ
  time : ℤ
  targetStationId : String
  targetTime : ℤ
  lineId : String
  deriving DecidableEq, Repr

structure Trip where
  range : Range
  id : TripId
  deriving DecidableEq, Repr

structure Details where
  transports : List Move
  trips : List Trip
  deriving DecidableEq, Repr

abbrev Connection := Ui.Connection Details

structure Train where
  stops : List Stop
  transports : List TransportInfo
  trip : Option TripId
  fromIdx : ℤ
  toIdx : ℤ
  deriving DecidableEq, Repr

inductive WalkType where | initialWalk | trailingWalk | transferWalk
  deriving DecidableEq, Repr

structure JourneyWalk (Delta : Type) where
  «from» : Stop
  fromIdx : ℤ
  «to» : Stop
  toIdx : ℤ
  duration : Delta
  mumoType : String
  mumoId : ℤ
  polyline : Option (List ℚ)
  accessibility : ℤ
  walkType : WalkType
  deriving DecidableEq, Repr

inductive JourneyMove (Delta : Type) where
  | trainMove (train : Train)
  | walkMove (walk : JourneyWalk Delta)
  deriving DecidableEq, Repr

/-- A journey, apart from its connection. -/
structure Parts (Delta : Type) where
  trains : List Train
  leadingWalk : Option (JourneyWalk Delta)
  trailingWalk : Option (JourneyWalk Delta)
  walks : List (JourneyWalk Delta)
  moves : List (JourneyMove Delta)
  isSingleCompleteTrip : Bool
  accessibility : ℤ
  deriving DecidableEq, Repr

abbrev Journey (Delta : Type) := Ui.Journey Details (Parts Delta)

/-- `Date.Extra.Duration` -/
structure DurationLibrary (Delta : Type) where
  diff : ℤ → ℤ → Delta
  zeroDelta : Delta

/-! ### Trains -/

def Range.overlaps (range : Range) («from» «to» : ℤ) : Bool :=
  range.from < «to» && range.to > «from»

def transportsForRange (connection : Connection) («from» «to» : ℤ) : List TransportInfo :=
  let checkMove : Move → Option TransportInfo
    | .transport transport =>
      if Range.overlaps transport.range «from» «to» then some transport else none
    | .walk _ => none
  (connection.details.transports.filterMap checkMove).mergeSort fun t t' =>
    -(t.range.to - t.range.from) ≤ -(t'.range.to - t'.range.from)

def tripKey (t : Trip) : ℤ ×ₗ ℤ ×ₗ ℤ :=
  toLex (t.range.from, toLex (-t.range.to, t.id.trainNr))

def tripsForRange (connection : Connection) («from» «to» : ℤ) : List TripId :=
  let checkTrip (trip : Trip) : Option Trip :=
    if Range.overlaps trip.range «from» «to» then some trip else none
  ((connection.details.trips.filterMap checkTrip).mergeSort fun t t' =>
    tripKey t ≤ tripKey t').map (·.id)

def addStop (trains : List Train) (stop : Stop) : List Train :=
  match trains with
  | train :: trains => { train with stops := stop :: train.stops } :: trains
  | [] => []

def finishTrain (connection : Connection) (trains : List Train) (startIdx endIdx : ℤ) :
    List Train :=
  match trains with
  | train :: trains =>
    { train with
      transports := transportsForRange connection startIdx endIdx
      trip := (tripsForRange connection startIdx endIdx).head?
      fromIdx := startIdx
      toIdx := endIdx } :: trains
  | [] => []

/-- The trains, if one of them is open, and where that one ends. -/
abbrev GroupState := List Train × Bool × ℤ

/-- What `group` does first. -/
def groupEnter (connection : Connection) (idx : ℤ) (stop : Stop) : GroupState → GroupState
  | (trains, inTrain, endIdx) =>
    if stop.enter then (finishTrain connection (addStop trains stop) idx endIdx, false, -1)
    else (trains, inTrain, endIdx)

def group (connection : Connection) (idx : ℤ) (stop : Stop) (s : GroupState) : GroupState :=
  match groupEnter connection idx stop s with
  | (trains, inTrain, endIdx) =>
    if stop.exit then (addStop (⟨[], [], none, -1, -1⟩ :: trains) stop, true, idx)
    else if inTrain then (addStop trains stop, inTrain, endIdx)
    else (trains, inTrain, endIdx)

def groupTrains (connection : Connection) : List Train :=
  (connection.stops.zipIdx.foldr (fun (stop, idx) => group connection idx stop)
    ([], false, -1)).1

/-! ### Walks -/

section Walks

variable {Delta : Type} (library : DurationLibrary Delta) (connection : Connection)

def getWalkType (walkInfo : WalkInfo) : WalkType :=
  let extractTransportInfo : Move → Option TransportInfo
    | .transport ti => some ti
    | .walk _ => none
  let transports := connection.details.transports.filterMap extractTransportInfo
  let trainsBefore := (transports.filter (·.range.to ≤ walkInfo.range.from)).length
  let trainsAfter := (transports.filter (·.range.from ≥ walkInfo.range.to)).length
  match trainsBefore, trainsAfter with
  | 0, _ => .initialWalk
  | _, 0 => .trailingWalk
  | _, _ => .transferWalk

def toJourneyWalk (walkInfo : WalkInfo) : Option (JourneyWalk Delta) := do
  let fromStop ← elementAt connection.stops walkInfo.range.from
  let toStop ← elementAt connection.stops walkInfo.range.to
  let duration : Option Delta := do
    let arrival ← toStop.arrival.scheduleTime
    let departure ← fromStop.departure.scheduleTime
    return library.diff arrival departure
  return {
    «from» := fromStop
    fromIdx := walkInfo.range.from
    «to» := toStop
    toIdx := walkInfo.range.to
    duration := duration.getD library.zeroDelta
    mumoType := walkInfo.mumoType
    mumoId := walkInfo.mumoId
    polyline := none
    accessibility := walkInfo.accessibility
    walkType := getWalkType connection walkInfo }

def extractWalks : List (JourneyWalk Delta) :=
  let convertWalk : Move → Option (JourneyWalk Delta)
    | .walk walk => toJourneyWalk library connection walk
    | .transport _ => none
  connection.details.transports.filterMap convertWalk

def getWalk (filter : WalkInfo → Bool) : Option WalkInfo :=
  let checkMove : Move → Option WalkInfo
    | .walk walk => if filter walk then some walk else none
    | .transport _ => none
  (connection.details.transports.filterMap checkMove).head?

def getWalkTo («to» : ℤ) : Option WalkInfo := getWalk connection (·.range.to = «to»)

def getWalkFrom («from» : ℤ) : Option WalkInfo := getWalk connection (·.range.from = «from»)

def extractLeadingWalk : Option (JourneyWalk Delta) :=
  (getWalkFrom connection 0).bind (toJourneyWalk library connection)

def extractTrailingWalk : Option (JourneyWalk Delta) :=
  let lastStopIdx := (connection.stops.length : ℤ) - 1
  (getWalkTo connection lastStopIdx).bind (toJourneyWalk library connection)

def getAccessibility : ℤ :=
  let accessibility : Move → ℤ
    | .walk walk => walk.accessibility
    | .transport _ => 0
  (connection.details.transports.map accessibility).sum

end Walks

/-! ### Moves -/

section Moves

variable {Delta : Type}

namespace JourneyMove

def fromIdx : JourneyMove Delta → ℤ
  | trainMove t => t.fromIdx
  | walkMove w => w.fromIdx

def toIdx : JourneyMove Delta → ℤ
  | trainMove t => t.toIdx
  | walkMove w => w.toIdx

end JourneyMove

def getMoves (trains : List Train) (walks : List (JourneyWalk Delta)) : List (JourneyMove Delta) :=
  (trains.map JourneyMove.trainMove ++ walks.map JourneyMove.walkMove).mergeSort fun m m' =>
    m.fromIdx ≤ m'.fromIdx

def toJourney (library : DurationLibrary Delta) (connection : Connection) : Journey Delta :=
  let trains := groupTrains connection
  let walks := extractWalks library connection
  { connection
    parts := {
      trains
      leadingWalk := extractLeadingWalk library connection
      trailingWalk := extractTrailingWalk library connection
      walks
      moves := getMoves trains walks
      isSingleCompleteTrip := false
      accessibility := getAccessibility connection } }

end Moves

/-! ### Rides -/

/-- The stops where a ride is entered and left. -/
structure Ride where
  first : ℕ
  last : ℕ
  deriving DecidableEq, Repr

/-- The stops are marked with the rides, one after the other. -/
structure Marks (rides : List Ride) (stops : List Stop) : Prop where
  forward : ∀ r ∈ rides, r.first < r.last
  ordered : rides.Pairwise fun r r' => r.last ≤ r'.first
  enter : ∀ i, (stops[i]?.any (·.enter)) = true ↔ ∃ r ∈ rides, r.first = i
  exit : ∀ i, (stops[i]?.any (·.exit)) = true ↔ ∃ r ∈ rides, r.last = i

/-- The stops from `first` to `last`. -/
def stopsBetween (stops : List Stop) (first last : ℕ) : List Stop :=
  (stops.drop first).take (last + 1 - first)

section Rides

variable {connection : Connection} {rides : List Ride} {i : ℕ} {stop : Stop}

def rideTrain (connection : Connection) (r : Ride) : Train where
  stops := stopsBetween connection.stops r.first r.last
  transports := transportsForRange connection r.first r.last
  trip := (tripsForRange connection r.first r.last).head?
  fromIdx := r.first
  toIdx := r.last

/-- A train with the stops from `i` on. -/
def openTrain (connection : Connection) (i : ℕ) (r : Ride) : Train where
  stops := stopsBetween connection.stops i r.last
  transports := []
  trip := none
  fromIdx := -1
  toIdx := -1

/-- The state after the stops from `i` on. -/
def stateFrom (connection : Connection) (i : ℕ) : List Ride → GroupState
  | [] => ([], false, -1)
  | r :: rs =>
    if i ≤ r.first then ((r :: rs).map (rideTrain connection), false, -1)
    else if i ≤ r.last then
      (openTrain connection i r :: rs.map (rideTrain connection), true, r.last)
    else stateFrom connection i rs

theorem stopsBetween_cons (hstop : connection.stops[i]? = some stop) {last : ℕ} (h : i ≤ last) :
    stopsBetween connection.stops i last = stop :: stopsBetween connection.stops (i + 1) last := by
  obtain ⟨hi, rfl⟩ := List.getElem?_eq_some_iff.mp hstop
  rw [stopsBetween, stopsBetween, List.drop_eq_getElem_cons hi, Nat.succ_sub h, List.take_succ_cons,
    Nat.add_sub_add_right]

theorem stopsBetween_self (hstop : connection.stops[i]? = some stop) :
    stopsBetween connection.stops i i = [stop] := by
  rw [stopsBetween_cons hstop le_rfl, stopsBetween, Nat.sub_self, List.take_zero]

/-- No ride is open above its last stop. -/
theorem stateFrom_of_last_lt (h : ∀ r ∈ rides, r.last < i)
    (hforward : ∀ r ∈ rides, r.first < r.last) :
    stateFrom connection i rides = ([], false, -1) := by
  induction rides with
  | nil => rfl
  | cons r rs ih =>
    have hlast := h r List.mem_cons_self
    have hfirst := hforward r List.mem_cons_self
    rw [stateFrom, if_neg (by omega), if_neg (by omega)]
    exact ih (fun r' hr' => h r' (List.mem_cons_of_mem _ hr'))
      fun r' hr' => hforward r' (List.mem_cons_of_mem _ hr')

/-- Before the next ride nothing is open. -/
theorem groupEnter_stateFrom (hstop : connection.stops[i]? = some stop)
    (hforward : ∀ r ∈ rides, r.first < r.last)
    (hordered : rides.Pairwise fun r r' => r.last ≤ r'.first) (hi : ∀ r ∈ rides, i ≤ r.first)
    (henter : stop.enter = true ↔ ∃ r ∈ rides, r.first = i) :
    groupEnter connection i stop (stateFrom connection (i + 1) rides) =
      (rides.map (rideTrain connection), false, -1) := by
  cases rides with
  | nil =>
    have hstay : stop.enter = false := by simpa using henter
    rw [stateFrom, groupEnter, hstay]
    rfl
  | cons r rs =>
    have hfirst := hi r List.mem_cons_self
    have hlast := hforward r List.mem_cons_self
    rcases Nat.eq_or_lt_of_le hfirst with rfl | hlt
    · have hopen : stop.enter = true := henter.mpr ⟨r, List.mem_cons_self, rfl⟩
      rw [stateFrom, if_neg (by omega), if_pos (by omega), groupEnter, if_pos hopen, addStop,
        finishTrain, openTrain, ← stopsBetween_cons hstop hlast.le]
      rfl
    · have hstay : stop.enter = false := by
        rw [← Bool.not_eq_true, henter]
        rintro ⟨r', hr', rfl⟩
        rcases List.mem_cons.mp hr' with rfl | hr'
        · omega
        · have hafter := (List.pairwise_cons.mp hordered).1 r' hr'
          omega
      rw [stateFrom, if_pos (by omega), groupEnter, hstay]
      rfl

/-- A stop changes the state of the stops after it into its own. -/
theorem group_stateFrom (hstop : connection.stops[i]? = some stop)
    (hforward : ∀ r ∈ rides, r.first < r.last)
    (hordered : rides.Pairwise fun r r' => r.last ≤ r'.first)
    (henter : stop.enter = true ↔ ∃ r ∈ rides, r.first = i)
    (hexit : stop.exit = true ↔ ∃ r ∈ rides, r.last = i) :
    group connection i stop (stateFrom connection (i + 1) rides) = stateFrom connection i rides := by
  induction rides with
  | nil =>
    have hstay : stop.enter = false := by simpa using henter
    have hkeep : stop.exit = false := by simpa using hexit
    rw [stateFrom, group, groupEnter, hstay, hkeep]
    rfl
  | cons r rs ih =>
    have hlt := hforward r List.mem_cons_self
    obtain ⟨hafter, hrest⟩ := List.pairwise_cons.mp hordered
    have hforward' : ∀ r' ∈ rs, r'.first < r'.last :=
      fun r' hr' => hforward r' (List.mem_cons_of_mem _ hr')
    rcases lt_trichotomy r.last i with hlast | hlast | hlast
    -- the ride is over
    · rw [stateFrom, if_neg (by omega), if_neg (by omega), stateFrom, if_neg (by omega),
        if_neg (by omega)]
      refine ih hforward' hrest (henter.trans ?_) (hexit.trans ?_)
      · rw [List.exists_mem_cons_iff]
        exact or_iff_right (by omega)
      · rw [List.exists_mem_cons_iff]
        exact or_iff_right (by omega)
    -- the ride ends here, where the next one may start
    · have hkeep : stop.exit = true := hexit.mpr ⟨r, List.mem_cons_self, hlast⟩
      have hbefore : groupEnter connection i stop (stateFrom connection (i + 1) rs) =
          (rs.map (rideTrain connection), false, -1) := by
        refine groupEnter_stateFrom hstop hforward' hrest (fun r' hr' => ?_) (henter.trans ?_)
        · have hle := hafter r' hr'
          omega
        · rw [List.exists_mem_cons_iff]
          exact or_iff_right (by omega)
      rw [stateFrom, if_neg (by omega), if_neg (by omega), group, hbefore, stateFrom,
        if_neg (by omega), if_pos (by omega), hkeep, openTrain, hlast, stopsBetween_self hstop]
      rfl
    · have hkeep : stop.exit = false := by
        rw [← Bool.not_eq_true, hexit]
        rintro ⟨r', hr', hlast'⟩
        rcases List.mem_cons.mp hr' with rfl | hr'
        · omega
        · have hle := hafter r' hr'
          have hlt' := hforward' r' hr'
          omega
      rcases Nat.lt_or_ge r.first i with hfirst | hfirst
      -- the ride goes on
      · have hstay : stop.enter = false := by
          rw [← Bool.not_eq_true, henter]
          rintro ⟨r', hr', hfirst'⟩
          rcases List.mem_cons.mp hr' with rfl | hr'
          · omega
          · have hle := hafter r' hr'
            omega
        rw [stateFrom, if_neg (by omega), if_pos (by omega), stateFrom, if_neg (by omega),
          if_pos (by omega), group, groupEnter, hstay, hkeep, openTrain, openTrain,
          stopsBetween_cons hstop hlast.le]
        rfl
      -- all rides are still to come
      · have hbefore : groupEnter connection i stop (stateFrom connection (i + 1) (r :: rs)) =
            ((r :: rs).map (rideTrain connection), false, -1) := by
          refine groupEnter_stateFrom hstop hforward hordered (fun r' hr' => ?_) henter
          rcases List.mem_cons.mp hr' with rfl | hr'
          · exact hfirst
          · have hle := hafter r' hr'
            omega
        rw [group, hbefore, hkeep, stateFrom, if_pos hfirst]
        rfl

theorem foldr_group (h : Marks rides connection.stops) {l : List Stop}
    (hl : connection.stops.drop i = l) :
    (l.zipIdx i).foldr (fun (stop, idx) => group connection idx stop) ([], false, -1) =
      stateFrom connection i rides := by
  induction l generalizing i with
  | nil =>
    refine (stateFrom_of_last_lt (fun r hr => ?_) h.forward).symm
    obtain ⟨stop, hstop, -⟩ := Option.any_eq_true _ _ |>.mp ((h.exit r.last).mpr ⟨r, hr, rfl⟩)
    exact (List.getElem?_eq_some_iff.mp hstop).1.trans_le (List.drop_eq_nil_iff.mp hl)
  | cons stop l ih =>
    have hstop : connection.stops[i]? = some stop := by
      rw [← List.head?_drop, hl]
      rfl
    have hrest : connection.stops.drop (i + 1) = l := by
      rw [← List.drop_drop, hl]
      rfl
    rw [List.zipIdx_cons, List.foldr_cons, ih hrest]
    refine group_stateFrom hstop h.forward h.ordered ?_ ?_
    · rw [← h.enter i, hstop]
      rfl
    · rw [← h.exit i, hstop]
      rfl

/-- One train for each ride. -/
theorem groupTrains_eq (h : Marks rides connection.stops) :
    groupTrains connection = rides.map (rideTrain connection) := by
  rw [groupTrains, foldr_group h List.drop_zero]
  cases rides with
  | nil => rfl
  | cons r rs => rw [stateFrom, if_pos (Nat.zero_le _)]

/-! ### Gaps -/

/-- The section from the stop `k` to the next one lies in the range. -/
def Range.covers (range : Range) (k : ℕ) : Bool := range.from ≤ k && k < range.to

theorem Range.covers_iff {range : Range} {k : ℕ} :
    Range.covers range k = true ↔ range.from ≤ k ∧ k < range.to := by
  simp [Range.covers]

def walkInfos (connection : Connection) : List WalkInfo :=
  connection.details.transports.filterMap fun
    | .walk walk => some walk
    | .transport _ => none

/-- Each section is covered by one walk, unless it belongs to a ride. -/
structure CoverGaps (rides : List Ride) (connection : Connection) : Prop where
  forward : ∀ w ∈ walkInfos connection, 0 ≤ w.range.from ∧ w.range.from < w.range.to
  once : ∀ k, (walkInfos connection).countP (fun w => Range.covers w.range k) =
    if k + 1 < connection.stops.length ∧ ¬ ∃ r ∈ rides, r.first ≤ k ∧ k < r.last then 1 else 0

theorem last_lt_length (h : Marks rides connection.stops) {r : Ride} (hr : r ∈ rides) :
    r.last < connection.stops.length := by
  obtain ⟨stop, hstop, -⟩ := Option.any_eq_true _ _ |>.mp ((h.exit r.last).mpr ⟨r, hr, rfl⟩)
  exact (List.getElem?_eq_some_iff.mp hstop).1

/-- A section belongs to at most one ride. -/
theorem countP_rides (hordered : rides.Pairwise fun r r' => r.last ≤ r'.first) (k : ℕ) :
    rides.countP (fun r => r.first ≤ k && k < r.last) =
      if ∃ r ∈ rides, r.first ≤ k ∧ k < r.last then 1 else 0 := by
  induction rides with
  | nil => simp
  | cons r rs ih =>
    obtain ⟨hafter, hrest⟩ := List.pairwise_cons.mp hordered
    rw [List.countP_cons, ih hrest]
    by_cases hr : r.first ≤ k ∧ k < r.last
    · have hothers : ¬ ∃ r' ∈ rs, r'.first ≤ k ∧ k < r'.last := by
        rintro ⟨r', hr', hle, -⟩
        have hlast := hafter r' hr'
        omega
      rw [if_neg hothers, if_pos (by simpa using hr), if_pos ⟨r, List.mem_cons_self, hr⟩]
    · have hcovers : (decide (r.first ≤ k) && decide (k < r.last)) = false := by
        rw [← Bool.decide_and, decide_eq_false hr]
      rw [hcovers, if_neg Bool.false_ne_true, Nat.add_zero]
      refine if_congr ?_ rfl rfl
      rw [List.exists_mem_cons_iff]
      exact (or_iff_right hr).symm

theorem to_lt_length (h : CoverGaps rides connection) {w : WalkInfo}
    (hw : w ∈ walkInfos connection) : w.range.to < connection.stops.length := by
  obtain ⟨hfrom, hto⟩ := h.forward w hw
  have hlast : Range.covers w.range (w.range.to - 1).toNat = true := by
    rw [Range.covers_iff]
    omega
  have hpos : 0 < (walkInfos connection).countP
      (fun w' => Range.covers w'.range (w.range.to - 1).toNat) :=
    List.countP_pos_iff.mpr ⟨w, hw, hlast⟩
  rw [h.once] at hpos
  split_ifs at hpos with hin
  · omega
  · cases hpos

/-- The indices of a walk are those of its stops. -/
theorem toJourneyWalk_some {Delta : Type} (library : DurationLibrary Delta)
    (h : CoverGaps rides connection) {w : WalkInfo} (hw : w ∈ walkInfos connection) :
    ∃ walk, toJourneyWalk library connection w = some walk ∧
      (⟨walk.fromIdx, walk.toIdx⟩ : Range) = w.range := by
  have hlt := to_lt_length h hw
  obtain ⟨hfrom, hto⟩ := h.forward w hw
  have hfromStop : ∃ stop, elementAt connection.stops w.range.from = some stop := by
    have hindex : w.range.from.toNat < connection.stops.length := by omega
    refine ⟨connection.stops[w.range.from.toNat], ?_⟩
    rw [elementAt, List.head?_drop, List.getElem?_eq_getElem]
  have htoStop : ∃ stop, elementAt connection.stops w.range.to = some stop := by
    have hindex : w.range.to.toNat < connection.stops.length := by omega
    refine ⟨connection.stops[w.range.to.toNat], ?_⟩
    rw [elementAt, List.head?_drop, List.getElem?_eq_getElem]
  obtain ⟨fromStop, hfromStop⟩ := hfromStop
  obtain ⟨toStop, htoStop⟩ := htoStop
  rw [toJourneyWalk, hfromStop, htoStop]
  exact ⟨_, rfl, rfl⟩

theorem extractWalks_eq {Delta : Type} (library : DurationLibrary Delta) :
    extractWalks library connection =
      (walkInfos connection).filterMap (toJourneyWalk library connection) := by
  rw [extractWalks, walkInfos, List.filterMap_filterMap]
  refine List.filterMap_congr fun m _ => ?_
  cases m with
  | walk w => rfl
  | transport t => rfl

theorem range_extractWalks {Delta : Type} (library : DurationLibrary Delta)
    (h : CoverGaps rides connection) :
    (extractWalks library connection).map (fun w => (⟨w.fromIdx, w.toIdx⟩ : Range)) =
      (walkInfos connection).map (·.range) := by
  rw [extractWalks_eq, List.map_filterMap, ← List.filterMap_eq_map]
  refine List.filterMap_congr fun w hw => ?_
  obtain ⟨walk, hwalk, hrange⟩ := toJourneyWalk_some library h hw
  rw [hwalk, Option.map_some, hrange]
  rfl

end Rides

/-! ### Chains of moves -/

section Chains

variable {Delta : Type}

/-- Each move goes on where the one before it ends. -/
def Contiguous (start : ℤ) : List (JourneyMove Delta) → ℤ → Prop
  | [], stop => start = stop
  | m :: ms, stop => m.fromIdx = start ∧ start < m.toIdx ∧ Contiguous m.toIdx ms stop

def JourneyMove.range (m : JourneyMove Delta) : Range := ⟨m.fromIdx, m.toIdx⟩

def JourneyMove.span (m : JourneyMove Delta) : Span :=
  (m.fromIdx.toNat, (m.toIdx - m.fromIdx).toNat)

/-- A move to a later stop. -/
def JourneyMove.Forward (m : JourneyMove Delta) : Prop := 0 ≤ m.fromIdx ∧ m.fromIdx < m.toIdx

theorem covers_span {m : JourneyMove Delta} (h : m.Forward) (k : ℕ) :
    Tiling.covers k m.span = Range.covers m.range k := by
  obtain ⟨hfrom, hto⟩ := h
  have hrange : Range.covers m.range k = true ↔ m.fromIdx ≤ k ∧ k < m.toIdx := Range.covers_iff
  rw [Bool.eq_iff_iff, Tiling.covers_iff, hrange, JourneyMove.span]
  omega

theorem contiguous_of_follows {moves : List (JourneyMove Delta)} {start stop : ℕ}
    (hforward : ∀ m ∈ moves, m.Forward)
    (h : Follows start (moves.map (·.span)) stop) : Contiguous start moves stop := by
  induction moves generalizing start with
  | nil => exact congrArg Nat.cast h
  | cons m ms ih =>
    obtain ⟨hfrom, hto⟩ := hforward m List.mem_cons_self
    obtain ⟨hstart, hpos, hrest⟩ := h
    have hstart' : m.fromIdx.toNat = start := hstart
    have hend : ((start + (m.span).2 : ℕ) : ℤ) = m.toIdx := by
      rw [JourneyMove.span]
      omega
    have hchain := ih (fun m' hm' => hforward m' (List.mem_cons_of_mem _ hm')) hrest
    rw [hend] at hchain
    exact ⟨by omega, by omega, hchain⟩

variable (library : DurationLibrary Delta) {connection : Connection} {rides : List Ride}

theorem getMoves_perm (trains : List Train) (walks : List (JourneyWalk Delta)) :
    (getMoves trains walks).Perm
      (trains.map JourneyMove.trainMove ++ walks.map JourneyMove.walkMove) :=
  List.mergeSort_perm _ _

theorem getMoves_sorted (trains : List Train) (walks : List (JourneyWalk Delta)) :
    (getMoves trains walks).Pairwise fun m m' => m.fromIdx ≤ m'.fromIdx := by
  let le (m m' : JourneyMove Delta) : Bool := decide (m.fromIdx ≤ m'.fromIdx)
  have htrans : ∀ a b c, le a b = true → le b c = true → le a c = true := fun a b c hab hbc =>
    decide_eq_true (le_trans (of_decide_eq_true hab) (of_decide_eq_true hbc))
  have htotal : ∀ a b, (le a b || le b a) = true := fun a b => by
    simpa [le] using le_total a.fromIdx b.fromIdx
  have hsorted := List.pairwise_mergeSort htrans htotal
    (trains.map JourneyMove.trainMove ++ walks.map JourneyMove.walkMove)
  exact hsorted.imp of_decide_eq_true

/-- The moves have the ranges of the rides and walks. -/
theorem range_moves (hmarks : Marks rides connection.stops) (hgaps : CoverGaps rides connection) :
    ((toJourney library connection).parts.moves.map (·.range)).Perm
      (rides.map (fun r => (⟨r.first, r.last⟩ : Range)) ++
        (walkInfos connection).map (·.range)) := by
  refine ((getMoves_perm _ _).map _).trans (List.Perm.of_eq ?_)
  rw [List.map_append, List.map_map, List.map_map, groupTrains_eq hmarks, List.map_map,
    ← range_extractWalks library hgaps]
  rfl

theorem countP_moves (hmarks : Marks rides connection.stops) (hgaps : CoverGaps rides connection)
    (k : ℕ) : (toJourney library connection).parts.moves.countP (fun m => Range.covers m.range k) =
      if k + 1 < connection.stops.length then 1 else 0 := by
  have hcount := (range_moves library hmarks hgaps).countP_eq (Range.covers · k)
  rw [List.countP_map, List.countP_append, List.countP_map, List.countP_map] at hcount
  have hrides : rides.countP ((Range.covers · k) ∘ fun r => (⟨r.first, r.last⟩ : Range)) =
      if ∃ r ∈ rides, r.first ≤ k ∧ k < r.last then 1 else 0 := by
    rw [← countP_rides hmarks.ordered k]
    refine List.countP_congr fun r _ => ?_
    rw [Function.comp_apply, Range.covers_iff]
    simp
  have hwalks : (walkInfos connection).countP ((Range.covers · k) ∘ (·.range)) = _ := hgaps.once k
  refine hcount.trans ?_
  rw [hrides, hwalks]
  by_cases hride : ∃ r ∈ rides, r.first ≤ k ∧ k < r.last
  · have hin : k + 1 < connection.stops.length := by
      obtain ⟨r, hr, -, hlt⟩ := hride
      have hlast := last_lt_length hmarks hr
      omega
    rw [if_pos hride, if_neg (fun h => h.2 hride), if_pos hin]
  · rw [if_neg hride, Nat.zero_add]
    exact if_congr (and_iff_left hride) rfl rfl

theorem forward_moves (hmarks : Marks rides connection.stops) (hgaps : CoverGaps rides connection) :
    ∀ m ∈ (toJourney library connection).parts.moves, m.Forward := by
  intro m hm
  have hrange := (range_moves library hmarks hgaps).subset (List.mem_map_of_mem hm)
  rcases List.mem_append.mp hrange with hrange | hrange
  · obtain ⟨r, hr, heq⟩ := List.mem_map.mp hrange
    have hlt := hmarks.forward r hr
    have hfrom : (r.first : ℤ) = m.fromIdx := congrArg Range.from heq
    have hto : (r.last : ℤ) = m.toIdx := congrArg Range.to heq
    exact ⟨by omega, by omega⟩
  · obtain ⟨w, hw, heq⟩ := List.mem_map.mp hrange
    have hfrom : w.range.from = m.fromIdx := congrArg Range.from heq
    have hto : w.range.to = m.toIdx := congrArg Range.to heq
    have hforward := hgaps.forward w hw
    rw [hfrom, hto] at hforward
    exact hforward

/-- A ride becomes a train with its stops, and the moves go through the connection, section by
    section. -/
theorem toJourney_decomposes (library : DurationLibrary Delta) (connection : Connection)
    (rides : List Ride) (hmarks : Marks rides connection.stops)
    (hgaps : CoverGaps rides connection) :
    let journey := (toJourney library connection).parts
    journey.trains.map (fun t => (t.fromIdx, t.toIdx, t.stops)) =
        rides.map (fun r : Ride => ((r.first : ℤ), (r.last : ℤ),
          stopsBetween connection.stops r.first r.last)) ∧
      journey.walks.map (fun w => (⟨w.fromIdx, w.toIdx⟩ : Range)) =
        (walkInfos connection).map (·.range) ∧
      journey.moves.Perm (journey.trains.map JourneyMove.trainMove ++
        journey.walks.map JourneyMove.walkMove) ∧
      Contiguous 0 journey.moves ((connection.stops.length - 1 : ℕ) : ℤ) ∧
      ∀ k, journey.moves.countP (fun m => Range.covers m.range k) =
        if k + 1 < connection.stops.length then 1 else 0 := by
  refine ⟨?_, range_extractWalks library hgaps, getMoves_perm _ _, ?_, countP_moves library hmarks hgaps⟩
  · change (groupTrains connection).map _ = _
    rw [groupTrains_eq hmarks, List.map_map]
    rfl
  · have hforward := forward_moves library hmarks hgaps
    have hfollows : Follows 0 ((toJourney library connection).parts.moves.map (·.span))
        (connection.stops.length - 1) := by
      refine follows_of_sorted (Nat.zero_le _) ?_ ?_ ?_
      · intro b hb
        obtain ⟨m, hm, rfl⟩ := List.mem_map.mp hb
        obtain ⟨hfrom, hto⟩ := hforward m hm
        rw [JourneyMove.span]
        omega
      · refine List.pairwise_map.mpr ((getMoves_sorted _ _).imp fun hle => ?_)
        exact Int.toNat_le_toNat hle
      · intro k
        rw [List.countP_map]
        refine (List.countP_congr fun m hm => ?_).trans
          ((countP_moves library hmarks hgaps k).trans (if_congr (by omega) rfl rfl))
        rw [Function.comp_apply, covers_span (hforward m hm)]
    exact contiguous_of_follows hforward hfollows

/-- A walk to the station, a ride over three stops, and another one from where it ends. -/
def twoRides : Connection where
  stops := [(false, false), (false, true), (false, false), (true, true), (true, false)].map
    fun (exit, enter) =>
      ⟨⟨"s", "S", 0, 0⟩, ⟨none, none, "", .schedule⟩, ⟨none, none, "", .schedule⟩, exit, enter⟩
  details := ⟨[.walk ⟨⟨0, 1⟩, 0, 0, 0, ""⟩], []⟩
  problems := []

theorem toJourney_decomposes_twoRides :
    Contiguous 0 (toJourney (⟨(· - ·), 0⟩ : DurationLibrary ℤ) twoRides).parts.moves 4 := by
  have hmarks : Marks [⟨1, 3⟩, ⟨3, 4⟩] twoRides.stops := by
    refine ⟨by decide, by decide, ?_, ?_⟩
    · rintro (_ | _ | _ | _ | _ | i)
      all_goals simp [twoRides]
    · rintro (_ | _ | _ | _ | _ | i)
      all_goals simp [twoRides]
  have hgaps : CoverGaps [⟨1, 3⟩, ⟨3, 4⟩] twoRides := by
    refine ⟨by decide, ?_⟩
    rintro (_ | _ | _ | _ | k)
    · decide
    · decide
    · decide
    · decide
    · have hout : ¬ ((k : ℤ) + 1 + 1 + 1 + 1 < 1) := by omega
      simp [twoRides, walkInfos, Range.covers, hout]
  exact (toJourney_decomposes _ twoRides _ hmarks hgaps).2.2.2.1

end Chains

end Motis.Ui.JourneyMoves
