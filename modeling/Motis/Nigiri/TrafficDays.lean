import Mathlib.Data.Int.Notation
import Mathlib.Data.List.Nodup
import Motis.Nigiri.Timetable

/-! Routes, their transports and the days these run on.

    The stop times of a transport count from the midnight of its traffic day, so they may lie days
    after it:

        traffic day 3, departure 25:30   =   day 4, 01:30      day offset 1 -/

namespace Motis.Nigiri

/-- `n::day_idx_t`. -/
abbrev DayIdx := UInt16

abbrev StopIdx := ℕ

/-- The tables of the timetable that tell which transport runs when. A route is listed at its stops;
    a transport belongs to one route. -/
structure TrafficDays (tt : Timetable) where
  locationRoutes : LocationIdx → List RouteIdx
  routeTransportRanges : RouteIdx → StopRange
  /-- `bitfields_[transport_traffic_days_[t]].test(day)`. -/
  bitfield : TransportIdx → DayIdx → Bool
  /-- `event_mam(..).days()`. -/
  eventDays : RouteIdx → TransportIdx → StopIdx → EventType → DayIdx
  /-- `day_idx_mam(..).first`. -/
  dayIdx : NigiriUnixtime → DayIdx
  /-- `day_idx(date_range_.to_)`. -/
  dateRangeTo : DayIdx
  mem_locationRoutes : ∀ l r, r ∈ locationRoutes l ↔ l ∈ tt.routeLocationSeq r
  transportRoute : ∀ r t, (routeTransportRanges r).from_ ≤ t → t < (routeTransportRanges r).to_ →
    tt.transportRoute t = r

abbrev RtTransportIdx := ℕ

/-- `n::stop` of a real-time transport. -/
structure RtStop where
  locationIdx : LocationIdx
  inAllowed : Bool
  outAllowed : Bool
  deriving DecidableEq, Repr

/-- The real-time timetable: its own traffic days of the static transports, and the transports that
    took their place. A real-time transport is listed once at each location it stops at. -/
structure RtTimetable where
  bitfield : TransportIdx → DayIdx → Bool
  locationRtTransports : LocationIdx → List RtTransportIdx
  rtTransportLocationSeq : RtTransportIdx → List RtStop
  unixEventTime : RtTransportIdx → StopIdx → EventType → NigiriUnixtime
  nodup_locationRtTransports : ∀ l, (locationRtTransports l).Nodup
  mem_locationRtTransports : ∀ l t, t ∈ locationRtTransports l ↔
    ∃ s ∈ rtTransportLocationSeq t, s.locationIdx = l

namespace TrafficDays
variable {tt : Timetable} (td : TrafficDays tt) (rtt : Option RtTimetable)

/-- The transports of a route, in their order. -/
def transports (r : RouteIdx) : List TransportIdx :=
  List.range' (td.routeTransportRanges r).from_
    ((td.routeTransportRanges r).to_ - (td.routeTransportRanges r).from_)

theorem nodup_transports (r : RouteIdx) : (td.transports r).Nodup := List.nodup_range'

theorem route_of_mem_transports {r : RouteIdx} {t : TransportIdx} (h : t ∈ td.transports r) :
    tt.transportRoute t = r := by
  rw [transports, List.mem_range'_1] at h
  exact td.transportRoute r t h.1 (by omega)

def isActive (t : TransportIdx) (day : DayIdx) : Bool :=
  match rtt with
  | none => td.bitfield t day
  | some rtt => rtt.bitfield t day

end TrafficDays

/-- `tt.event_time`, in minutes. -/
def Timetable.minutes (tt : Timetable) (t : TransportIdx) (day : DayIdx) (stopIdx : StopIdx)
    (evType : EventType) : ℤ :=
  (tt.eventTime ⟨t, day.toNat⟩ stopIdx evType).toInt

end Motis.Nigiri
