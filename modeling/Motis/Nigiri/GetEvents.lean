import Mathlib.Algebra.GroupWithZero.Nat
import Mathlib.Algebra.Ring.Int.Defs
import Mathlib.Data.List.Nodup
import Motis.Nigiri.EvIterators

/-! The next departures or arrivals at some locations.

    `getEvents` merges the iterators of all stops at the locations. What it gives is right when the
    slots the iterators list are the events, and come in order. They are not where an event lies on
    another day than the traffic day of its transport: the transport is looked up on the traffic
    day, while the event's time, and the run, take the day of the slot for it. -/

namespace Motis.Nigiri
open StaticEvIterator

section Model
variable {tt : Timetable} (td : TrafficDays tt) (rtt : Option RtTimetable) (evType : EventType)
  (dir : Direction)

/-- A departure is not at the last stop, an arrival not at the first one. -/
def isEventStop (stopIdx length : ℕ) : Bool :=
  match evType with
  | .dep => stopIdx != length - 1
  | .arr => stopIdx != 0

/-- The real-time events at the locations. -/
def rtStops (rtt : RtTimetable) (locations : List LocationIdx) : List (RtTransportIdx × StopIdx) :=
  locations.flatMap fun x => (rtt.locationRtTransports x).flatMap fun rtT =>
    let locationSeq := rtt.rtTransportLocationSeq rtT
    (locationSeq.zipIdx.filter fun (s, stopIdx) => s.locationIdx == x &&
      isEventStop evType stopIdx locationSeq.length &&
      (match evType with
        | .dep => s.inAllowed
        | .arr => s.outAllowed)).map fun (_, stopIdx) => (rtT, stopIdx)

/-- The stops of routes at the locations, each when it is first `seen`. -/
def routeStops (locations : List LocationIdx) : List (RouteIdx × StopIdx) :=
  (locations.flatMap fun x => (td.locationRoutes x).flatMap fun r =>
    let locationSeq := tt.routeLocationSeq r
    (locationSeq.zipIdx.filter fun (s, stopIdx) => s == x &&
      isEventStop evType stopIdx locationSeq.length).map fun (_, stopIdx) => (r, stopIdx)).eraseDups

def rtEvIterators (locations : List LocationIdx) (time : NigiriUnixtime) : List RtEvIterator :=
  match rtt with
  | none => []
  | some rtt => (rtStops evType rtt locations).map fun (rtT, stopIdx) =>
      rtEvIterator evType dir rtt rtT stopIdx time

def isEarlier (a b : ℤ × Run) : Bool :=
  match dir with
  | .forward => a.1 < b.1
  | .backward => a.1 > b.1

/-- `none`: some iterator does not come back. -/
def getEvents (locations : List LocationIdx) (time : NigiriUnixtime) (count : ℕ) :
    Option (List Run) := do
  let statics ← (routeStops td evType locations).mapM fun (r, stopIdx) =>
    staticEvIterator td rtt evType dir r stopIdx time
  let iterators := (rtEvIterators rtt evType dir locations time).map .rt ++ statics.map .static
  let evs ← Merge.merge (evCursor td rtt evType dir) (isEarlier dir) count iterators
  return evs.map (·.2)

end Model

/-! ### The events there are -/

section Events
variable {tt : Timetable} (td : TrafficDays tt) (rtt : Option RtTimetable) (evType : EventType)
  (dir : Direction) (locations : List LocationIdx) (start : NigiriUnixtime)

/-- The order of the board: in time, or backward in it. -/
def boardTime (time : ℤ) : ℤ :=
  match dir with
  | .forward => time
  | .backward => -time

variable (tt) in
/-- The time of the event a run stands for. -/
def runTime (run : Run) : ℤ :=
  match run.t, run.rt, rtt with
  | some t, _, _ => (tt.eventTime t run.stopRange.from_ evType).toInt
  | none, some rtT, some rtt => (rtt.unixEventTime rtT run.stopRange.from_ evType).toInt
  | _, _, _ => 0

variable (tt) in
/-- The route has an event of the type at the stop, which is one of the locations. -/
structure RouteStopsAt (r : RouteIdx) (stopIdx : StopIdx) : Prop where
  location : ∃ x ∈ locations, (tt.routeLocationSeq r)[stopIdx]? = some x
  isEvent : isEventStop evType stopIdx (tt.routeLocationSeq r).length = true

/-- The real-time transport may be boarded, or left, at the stop, which is one of the locations. -/
structure RtStopsAt (rtt : RtTimetable) (rtT : RtTransportIdx) (stopIdx : StopIdx) : Prop where
  location : ∃ s, (rtt.rtTransportLocationSeq rtT)[stopIdx]? = some s ∧ s.locationIdx ∈ locations ∧
    (match evType with
      | .dep => s.inAllowed
      | .arr => s.outAllowed) = true
  isEvent : isEventStop evType stopIdx (rtt.rtTransportLocationSeq rtT).length = true

variable {td rtt evType dir locations start}

theorem mem_routeStops {r : RouteIdx} {stopIdx : StopIdx} :
    (r, stopIdx) ∈ routeStops td evType locations ↔
      RouteStopsAt tt evType locations r stopIdx := by
  simp only [routeStops, List.mem_eraseDups, List.mem_flatMap, List.mem_map, List.mem_filter,
    Prod.exists, List.mk_mem_zipIdx_iff_getElem?, Bool.and_eq_true, beq_iff_eq, Prod.mk.injEq]
  constructor
  · rintro ⟨x, hx, r, hr, s, i, ⟨hs, rfl, hevent⟩, rfl, rfl⟩
    exact ⟨⟨s, hx, hs⟩, hevent⟩
  · rintro ⟨⟨x, hx, hs⟩, hevent⟩
    exact ⟨x, hx, r, (td.mem_locationRoutes x r).mpr (List.mem_of_getElem? hs), x, stopIdx,
      ⟨hs, rfl, hevent⟩, rfl, rfl⟩

theorem mem_rtStops {rtt : RtTimetable} {rtT : RtTransportIdx} {stopIdx : StopIdx} :
    (rtT, stopIdx) ∈ rtStops evType rtt locations ↔
      RtStopsAt evType locations rtt rtT stopIdx := by
  simp only [rtStops, List.mem_flatMap, List.mem_map, List.mem_filter, Prod.exists,
    List.mk_mem_zipIdx_iff_getElem?, Bool.and_eq_true, beq_iff_eq, Prod.mk.injEq]
  constructor
  · rintro ⟨x, hx, rtT, hrtT, s, i, ⟨hs, ⟨rfl, hevent⟩, hallowed⟩, rfl, rfl⟩
    exact ⟨⟨s, hs, hx, hallowed⟩, hevent⟩
  · rintro ⟨⟨s, hs, hx, hallowed⟩, hevent⟩
    have hmem := (rtt.mem_locationRtTransports s.locationIdx rtT).mpr
      ⟨s, List.mem_of_getElem? hs, rfl⟩
    exact ⟨s.locationIdx, hx, rtT, hmem, s, stopIdx, ⟨hs, ⟨rfl, hevent⟩, hallowed⟩, rfl, rfl⟩

theorem nodup_eraseDups {α : Type} [BEq α] [LawfulBEq α] (l : List α) : l.eraseDups.Nodup := by
  generalize hlen : l.length = n
  induction n using Nat.strong_induction_on generalizing l with
  | _ n ih =>
    cases l with
    | nil => simp
    | cons a l =>
      rw [List.eraseDups_cons, List.nodup_cons]
      have hlt : (l.filter fun b => !b == a).length < n := by
        have hle := List.length_filter_le (fun b => !b == a) l
        rw [← hlen, List.length_cons]
        omega
      exact ⟨by simp, ih _ hlt _ rfl⟩

theorem nodup_routeStops : (routeStops td evType locations).Nodup := nodup_eraseDups _

theorem nodup_map_zipIdx {α β : Type} (l : List α) (p : α × ℕ → Bool) (b : β) :
    ((l.zipIdx.filter p).map fun (_, i) => (b, i)).Nodup := by
  have hsnd : ((l.zipIdx.filter p).map Prod.snd).Nodup :=
    (List.zipIdx_map_snd 0 l ▸ List.nodup_range').sublist (List.filter_sublist.map _)
  have hmap := hsnd.map (Prod.mk_right_injective b)
  rwa [List.map_map] at hmap

/-- Each location is asked for once, lists each real-time transport once, and each stop is at one
    location. -/
theorem nodup_rtStops {rtt : RtTimetable} (h : locations.Nodup) :
    (rtStops evType rtt locations).Nodup := by
  rw [rtStops, List.nodup_flatMap]
  constructor
  · intro x _
    rw [List.nodup_flatMap]
    refine ⟨fun rtT _ => nodup_map_zipIdx .., (rtt.nodup_locationRtTransports x).imp ?_⟩
    intro a b hab p ha hb
    obtain ⟨_, _, rfl⟩ := List.mem_map.mp ha
    obtain ⟨_, _, heq⟩ := List.mem_map.mp hb
    exact hab (Prod.mk.inj heq).1.symm
  · refine h.imp fun hab p ha hb => hab ?_
    simp only [List.mem_flatMap, List.mem_map, List.mem_filter, Prod.exists,
      List.mk_mem_zipIdx_iff_getElem?, Bool.and_eq_true, beq_iff_eq] at ha hb
    obtain ⟨_, _, s, i, ⟨hs, ⟨rfl, _⟩, _⟩, rfl⟩ := ha
    obtain ⟨_, _, s', i', ⟨hs', ⟨rfl, _⟩, _⟩, heq⟩ := hb
    obtain ⟨rfl, rfl⟩ := Prod.mk.inj heq
    rw [Option.some.inj (hs.symm.trans hs')]

/-! ### What the iterators list -/

variable (dir) in
/-- The order of the board. -/
def boardKey (a : ℤ × Run) : ℤ := boardTime dir a.1

theorem isEarlier_iff (a b : ℤ × Run) :
    isEarlier dir a b = true ↔ boardKey dir a < boardKey dir b := by
  cases dir <;> simp [isEarlier, boardKey, boardTime]

variable (evType) in
def rtStream (it : RtEvIterator) : List (ℤ × Run) :=
  if it.finished then [] else [(it.time evType, it.get)]

theorem unrolls_rt (it : RtEvIterator) :
    Merge.Unrolls (evCursor td rtt evType dir) True (.rt it) (rtStream evType it) := by
  have hdone : (evCursor td rtt evType dir).finished (.rt it.increment) = true := rfl
  rw [rtStream]
  split
  · next hfin => exact .finished trivial hfin
  · next hfin => exact .next (Bool.eq_false_of_not_eq_true hfin) rfl (.finished trivial hdone)

variable (td rtt evType dir start) in
def routeStream (p : RouteIdx × StopIdx) : List (ℤ × Run) :=
  (stream td rtt evType dir start.toInt (initial td dir p.1 p.2 start)).map (event td evType)

variable (td rtt evType dir locations start) in
/-- What the iterators list, the real-time ones first. -/
def streams : List (List (ℤ × Run)) :=
  (rtEvIterators rtt evType dir locations start).map (rtStream evType) ++
    (routeStops td evType locations).map (routeStream td rtt evType dir start)

theorem mapM_of_forall {α β γ : Type} {R : β → γ → Prop} {f : α → Option β} {g : α → γ}
    {l : List α} (h : ∀ a ∈ l, ∃ b, f a = some b ∧ R b (g a)) :
    ∃ bs, l.mapM f = some bs ∧ List.Forall₂ R bs (l.map g) := by
  induction l with
  | nil => exact ⟨[], rfl, .nil⟩
  | cons a l ih =>
    obtain ⟨ha, hl⟩ := List.forall_mem_cons.mp h
    obtain ⟨b, hb, hR⟩ := ha
    obtain ⟨bs, hbs, hRs⟩ := ih hl
    exact ⟨b :: bs, by simp [List.mapM_cons, hb, hbs], .cons hR hRs⟩

theorem mapM_eq_none {α β : Type} {f : α → Option β} {l : List α} {a : α} (ha : a ∈ l)
    (hf : f a = none) : l.mapM f = none := by
  induction l with
  | nil => cases ha
  | cons b l ih =>
    rw [List.mapM_cons]
    rcases List.mem_cons.mp ha with rfl | ha
    · simp [hf]
    · cases f b <;> simp [ih ha]

/-- The iterators come back when there are none over routes or the walk comes to the end day. -/
theorem getEvents_eq (hends : routeStops td evType locations = [] ∨
    Ends td dir (td.dayIdx start).toNat) (count : ℕ) :
    getEvents td rtt evType dir locations start count =
      some ((Merge.mergeLists (isEarlier dir) count
        (streams td rtt evType dir locations start)).map (·.2)) := by
  have hroutes : ∀ p ∈ routeStops td evType locations,
      ∃ it, staticEvIterator td rtt evType dir p.1 p.2 start = some it ∧
        Merge.Unrolls (evCursor td rtt evType dir) True (.static it)
          (routeStream td rtt evType dir start p) := by
    intro p hp
    replace hends := hends.resolve_left (List.ne_nil_of_mem hp)
    rcases unrolls_staticEvIterator p.1 p.2 start with ⟨it, hit, hunroll⟩ | ⟨hnot, -⟩
    · exact ⟨it, hit, eq_true hends ▸ hunroll⟩
    · exact absurd hends hnot
  obtain ⟨statics, hstatics, hunroll⟩ := mapM_of_forall hroutes
  have hall : List.Forall₂ (Merge.Unrolls (evCursor td rtt evType dir) True)
      ((rtEvIterators rtt evType dir locations start).map .rt ++ statics.map .static)
      (streams td rtt evType dir locations start) := by
    refine List.rel_append ?_ (List.forall₂_map_left_iff.mpr hunroll)
    rw [List.forall₂_map_left_iff, List.forall₂_map_right_iff, List.forall₂_same]
    exact fun it _ => unrolls_rt it
  rw [getEvents]
  simp only [hstatics, Merge.merge_eq_mergeLists isEarlier_iff hall, Option.bind_eq_bind,
    Option.bind_some]
  rfl

/-- Else they do not come back for all counts. -/
theorem getEvents_eq_none (hne : routeStops td evType locations ≠ [])
    (hends : ¬ Ends td dir (td.dayIdx start).toNat) :
    ∃ count, getEvents td rtt evType dir locations start count = none := by
  by_cases hstuck : ∃ p ∈ routeStops td evType locations,
      staticEvIterator td rtt evType dir p.1 p.2 start = none
  · obtain ⟨p, hp, hnone⟩ := hstuck
    refine ⟨0, ?_⟩
    rw [getEvents, mapM_eq_none hp hnone]
    rfl
  · have hroutes : ∀ p ∈ routeStops td evType locations,
        ∃ it, staticEvIterator td rtt evType dir p.1 p.2 start = some it ∧
          Merge.Unrolls (evCursor td rtt evType dir) False (.static it)
            (routeStream td rtt evType dir start p) := by
      intro p hp
      rcases unrolls_staticEvIterator p.1 p.2 start with ⟨it, hit, hunroll⟩ | ⟨-, hnone⟩
      · exact ⟨it, hit, eq_false hends ▸ hunroll⟩
      · exact absurd ⟨p, hp, hnone⟩ hstuck
    obtain ⟨statics, hstatics, hunroll⟩ := mapM_of_forall hroutes
    have hall : List.Forall₂
        (fun it l => ∃ ends, Merge.Unrolls (evCursor td rtt evType dir) ends it l)
        ((rtEvIterators rtt evType dir locations start).map .rt ++ statics.map .static)
        (streams td rtt evType dir locations start) := by
      refine List.rel_append ?_ (List.forall₂_map_left_iff.mpr (hunroll.imp fun _ _ h => ⟨_, h⟩))
      rw [List.forall₂_map_left_iff, List.forall₂_map_right_iff, List.forall₂_same]
      exact fun it _ => ⟨_, unrolls_rt it⟩
    obtain ⟨p, hp⟩ := List.exists_mem_of_ne_nil _ hne
    obtain ⟨it, hit, hit'⟩ := Merge.exists_of_mem_left hunroll.flip (List.mem_map_of_mem hp)
    have hsome : ∃ it' ∈ (rtEvIterators rtt evType dir locations start).map .rt ++
        statics.map .static, ∃ l, Merge.Unrolls (evCursor td rtt evType dir) False it' l :=
      ⟨.static it, List.mem_append_right _ (List.mem_map_of_mem hit), _, hit'⟩
    refine ⟨(streams td rtt evType dir locations start).flatten.length, ?_⟩
    rw [getEvents]
    simp only [hstatics, Option.bind_eq_bind, Option.bind_some,
      Merge.merge_eq_none isEarlier_iff hall hsome le_rfl]
    rfl

theorem getEvents_total_iff :
    (∀ count, ∃ runs, getEvents td rtt evType dir locations start count = some runs) ↔
      routeStops td evType locations = [] ∨ Ends td dir (td.dayIdx start).toNat := by
  constructor
  · intro h
    by_contra hcontra
    obtain ⟨hne, hends⟩ := not_or.mp hcontra
    obtain ⟨count, hnone⟩ := @getEvents_eq_none _ _ rtt _ _ _ _ hne hends
    obtain ⟨runs, hruns⟩ := h count
    rw [hnone] at hruns
    cases hruns
  · exact fun hends count => ⟨_, getEvents_eq hends count⟩

variable (td rtt evType dir locations start) in
/-- All events the iterators list, in the order they are given. -/
def board : List (ℤ × Run) :=
  Merge.mergeLists (isEarlier dir) (streams td rtt evType dir locations start).flatten.length
    (streams td rtt evType dir locations start)

theorem board_perm : (board td rtt evType dir locations start).Perm
    (streams td rtt evType dir locations start).flatten :=
  Merge.mergeLists_perm isEarlier_iff le_rfl

theorem getEvents_eq_take (hends : routeStops td evType locations = [] ∨
    Ends td dir (td.dayIdx start).toNat) (count : ℕ) :
    getEvents td rtt evType dir locations start count =
      some (((board td rtt evType dir locations start).map (·.2)).take count) := by
  rw [getEvents_eq hends, Merge.mergeLists_eq_take isEarlier_iff, board, List.map_take]

theorem mem_rtStream {it : RtEvIterator} {x : ℤ × Run} :
    x ∈ rtStream evType it ↔ it.finished = false ∧ (it.time evType, it.get) = x := by
  rw [rtStream]
  cases it.finished <;> simp [eq_comm]

/-- The board holds the real-time events and the listed slots. -/
theorem mem_board (hends : routeStops td evType locations = [] ∨
    Ends td dir (td.dayIdx start).toNat) (x : ℤ × Run) :
    x ∈ board td rtt evType dir locations start ↔
      (∃ it ∈ rtEvIterators rtt evType dir locations start,
        it.finished = false ∧ (it.time evType, it.get) = x) ∨
      ∃ it : StaticEvIterator, RouteStopsAt tt evType locations it.r it.stopIdx ∧
        Listed td rtt evType dir start it ∧ event td evType it = x := by
  rw [board_perm.mem_iff, streams, List.flatten_append, List.mem_append]
  simp only [List.mem_flatten, List.mem_map, exists_exists_and_eq_and, mem_rtStream]
  refine or_congr Iff.rfl ?_
  constructor
  · rintro ⟨p, hp, hx⟩
    obtain ⟨it, hit, rfl⟩ := List.mem_map.mp hx
    obtain ⟨hr, hstop, hlisted⟩ :=
      (mem_stream (hends.resolve_left (List.ne_nil_of_mem hp)) it).mp hit
    exact ⟨it, mem_routeStops.mp (by rwa [hr, hstop]), hlisted, rfl⟩
  · rintro ⟨it, hstop, hlisted, rfl⟩
    have hp := (@mem_routeStops _ td ..).mpr hstop
    refine ⟨_, hp, List.mem_map_of_mem ?_⟩
    exact (mem_stream (hends.resolve_left (List.ne_nil_of_mem hp)) it).mpr ⟨rfl, rfl, hlisted⟩

/-! ### Genuine runs -/

variable (td rtt evType dir locations start) in
/-- The transport of a static run is active on the day of the run, and has its event at one of the
    locations, on this day not before the start. -/
def Genuine (run : Run) : Prop :=
  ∃ r t, ∃ day : DayIdx, ∃ stopIdx,
    run = { t := some ⟨t, day.toNat⟩, stopRange := ⟨stopIdx, stopIdx + 1⟩ } ∧
    RouteStopsAt tt evType locations r stopIdx ∧ t ∈ td.transports r ∧
    td.isActive rtt t day = true ∧
    isBefore dir (tt.minutes t day stopIdx evType) start.toInt = false

theorem transport_mem {it : StaticEvIterator} (h : it.i < size td it.r) :
    it.transport td ∈ td.transports it.r := by
  rw [size, TrafficDays.transports, List.length_range'] at h
  rw [TrafficDays.transports, List.mem_range'_1, transport]
  omega

theorem lt_size_of_listed {it : StaticEvIterator} (h : Listed td rtt evType dir start it) :
    it.i < size td it.r := by
  have hwindow := h.1
  cases dir <;> simp only [InWindow] at hwindow <;> omega

theorem genuine_get_iff {it : StaticEvIterator}
    (hstop : RouteStopsAt tt evType locations it.r it.stopIdx) (hi : it.i < size td it.r) :
    Genuine td rtt evType dir locations start (it.get td) ↔
      td.isActive rtt (it.transport td) it.dayIdx = true ∧
        isBefore dir (it.time td evType) start.toInt = false := by
  constructor
  · rintro ⟨r, t, day, stopIdx, hrun, -, -, hactive, htime⟩
    simp only [StaticEvIterator.get, Run.mk.injEq, Option.some.injEq, Transport.mk.injEq, UInt16.toNat_inj,
      StopRange.mk.injEq] at hrun
    obtain ⟨⟨rfl, rfl⟩, ⟨rfl, -⟩, -⟩ := hrun
    exact ⟨hactive, htime⟩
  · rintro ⟨hactive, htime⟩
    exact ⟨it.r, it.transport td, it.dayIdx, it.stopIdx, rfl, hstop, transport_mem hi, hactive,
      htime⟩

variable (td rtt evType dir locations start) in
/-- CORRECT: the static runs of all boards are genuine exactly when the iterators come back and every
    slot they list has an active transport on its own day and a time not before the start. -/
theorem getEvents_genuine_iff :
    (∀ count, ∃ runs, getEvents td rtt evType dir locations start count = some runs ∧
      ∀ run ∈ runs, run.rt = none → Genuine td rtt evType dir locations start run) ↔
    (routeStops td evType locations = [] ∨ Ends td dir (td.dayIdx start).toNat) ∧
      ∀ it : StaticEvIterator, RouteStopsAt tt evType locations it.r it.stopIdx →
        Listed td rtt evType dir start it →
        td.isActive rtt (it.transport td) it.dayIdx = true ∧
          isBefore dir (it.time td evType) start.toInt = false := by
  constructor
  · intro h
    have hends := getEvents_total_iff.mp fun count => ⟨_, (h count).choose_spec.1⟩
    refine ⟨hends, fun it hstop hlisted => ?_⟩
    have hmem := List.mem_map_of_mem (f := Prod.snd)
      ((mem_board hends _).mpr (.inr ⟨it, hstop, hlisted, rfl⟩))
    obtain ⟨runs, hruns, hgenuine⟩ := h (board td rtt evType dir locations start).length
    obtain rfl := Option.some.inj ((getEvents_eq_take hends _).symm.trans hruns)
    rw [List.take_of_length_le (by simp)] at hgenuine
    exact (genuine_get_iff hstop (lt_size_of_listed hlisted)).mp (hgenuine _ hmem rfl)
  · rintro ⟨hends, hslots⟩ count
    refine ⟨_, getEvents_eq_take hends count, fun run hrun hstatic => ?_⟩
    obtain ⟨x, hx, rfl⟩ := List.mem_map.mp (List.mem_of_mem_take hrun)
    rcases (mem_board hends x).mp hx with ⟨it, -, -, rfl⟩ | ⟨it, hstop, hlisted, rfl⟩
    · cases hstatic
    · exact (genuine_get_iff hstop (lt_size_of_listed hlisted)).mpr (hslots it hstop hlisted)

/-! ### The events that come first -/

variable (td rtt evType dir locations start) in
/-- The events at the locations: of transports that are active on their traffic day, on the searched
    side of the start, on a day of the timetable. -/
inductive IsEvent : Run → Prop
  | static {r : RouteIdx} {stopIdx : StopIdx} {t : TransportIdx} {day : DayIdx} :
      RouteStopsAt tt evType locations r stopIdx → t ∈ td.transports r →
      td.isActive rtt t day = true →
      isBefore dir (tt.minutes t day stopIdx evType) start.toInt = false →
      day.toNat + (td.eventDays r t stopIdx evType).toNat < td.dateRangeTo.toNat →
      IsEvent { t := some ⟨t, day.toNat⟩, stopRange := ⟨stopIdx, stopIdx + 1⟩ }
  | rt {table : RtTimetable} {rtT : RtTransportIdx} {stopIdx : StopIdx} : rtt = some table →
      RtStopsAt evType locations table rtT stopIdx →
      isBefore dir (table.unixEventTime rtT stopIdx evType).toInt start.toInt = false →
      IsEvent { stopRange := ⟨stopIdx, stopIdx + 1⟩, rt := some rtT }

variable (td rtt evType dir start) in
/-- The slot is an event. -/
structure IsEventSlot (it : StaticEvIterator) : Prop where
  day : 0 ≤ it.day ∧ it.day < 2 ^ 16
  position : it.i < size td it.r
  active : td.isActive rtt (it.transport td) it.dayIdx = true
  time : isBefore dir (it.time td evType) start.toInt = false
  inDays : it.day + (td.eventDays it.r (it.transport td) it.stopIdx evType).toNat <
    td.dateRangeTo.toNat

variable (tt rtt evType dir) in
/-- The order of runs on a board. -/
def runKey (run : Run) : ℤ := boardTime dir (runTime tt rtt evType run)

theorem toNat_dayIdx {it : StaticEvIterator} (h : 0 ≤ it.day ∧ it.day < 2 ^ 16) :
    (it.dayIdx.toNat : ℤ) = it.day := by
  simp [dayIdx, UInt16.ofInt]
  omega

theorem dayIdx_toNat (day : DayIdx) : UInt16.ofInt day.toNat = day := by
  have hlt := day.toNat_lt
  refine UInt16.toNat_inj.mp ?_
  simp [UInt16.ofInt]
  omega

theorem exists_position {r : RouteIdx} {t : TransportIdx} (h : t ∈ td.transports r) :
    ∃ i < size td r, (td.routeTransportRanges r).from_ + i = t := by
  rw [size, TrafficDays.transports, List.length_range']
  rw [TrafficDays.transports, List.mem_range'_1] at h
  exact ⟨t - (td.routeTransportRanges r).from_, by omega, by omega⟩

theorem get_inj {it it' : StaticEvIterator} (hi : it.i < size td it.r)
    (hi' : it'.i < size td it'.r) (hday : 0 ≤ it.day ∧ it.day < 2 ^ 16)
    (hday' : 0 ≤ it'.day ∧ it'.day < 2 ^ 16) (h : it.get td = it'.get td) : it = it' := by
  simp only [StaticEvIterator.get, Run.mk.injEq, Option.some.injEq, Transport.mk.injEq,
    StopRange.mk.injEq] at h
  obtain ⟨⟨htransport, hdays⟩, ⟨hstop, -⟩, -⟩ := h
  have hr : it.r = it'.r := by
    rw [← td.route_of_mem_transports (transport_mem hi),
      ← td.route_of_mem_transports (transport_mem hi'), htransport]
  have hpos : it.i = it'.i := by
    simp only [transport, hr] at htransport
    exact Nat.add_left_cancel htransport
  have hsame : it.day = it'.day := by rw [← toNat_dayIdx hday, ← toNat_dayIdx hday', hdays]
  cases it
  cases it'
  simp_all

theorem day_of_listed {it : StaticEvIterator} (h : Listed td rtt evType dir start it) :
    0 ≤ it.day ∧ it.day < 2 ^ 16 := by
  have hwindow := h.1
  have hto := td.dateRangeTo.toNat_lt
  have hstart := (td.dayIdx start).toNat_lt
  cases dir <;> simp only [InWindow, endDay] at hwindow <;> omega

theorem isEvent_static_iff (run : Run) (hrun : run.rt = none) :
    IsEvent td rtt evType dir locations start run ↔
      ∃ it : StaticEvIterator, RouteStopsAt tt evType locations it.r it.stopIdx ∧
        IsEventSlot td rtt evType dir start it ∧ it.get td = run := by
  constructor
  · rintro (⟨hstop, ht, hactive, htime, hdays⟩ | ⟨_, _, _⟩)
    · next r stopIdx t day =>
      obtain ⟨i, hi, rfl⟩ := exists_position ht
      have hlt : (day.toNat : ℤ) < 2 ^ 16 := by exact_mod_cast day.toNat_lt
      refine ⟨⟨r, stopIdx, day.toNat, i⟩, hstop, ⟨⟨by simp, hlt⟩, hi, ?_, ?_, ?_⟩, ?_⟩
      · rwa [dayIdx, dayIdx_toNat]
      · rwa [time, dayIdx, dayIdx_toNat]
      · exact Int.ofNat_lt.mpr hdays
      · rw [StaticEvIterator.get, dayIdx, dayIdx_toNat]
        rfl
    · cases hrun
  · rintro ⟨it, hstop, hslot, rfl⟩
    refine .static hstop (transport_mem hslot.position) hslot.active hslot.time ?_
    have hdays := hslot.inDays
    rw [← toNat_dayIdx hslot.day] at hdays
    exact_mod_cast hdays

theorem isEvent_rt_iff (run : Run) (hrun : run.rt ≠ none) :
    IsEvent td rtt evType dir locations start run ↔
      ∃ it ∈ rtEvIterators rtt evType dir locations start, it.finished = false ∧ it.get = run := by
  constructor
  · rintro (⟨_, _, _, _, _⟩ | ⟨rfl, hstop, htime⟩)
    · exact absurd rfl hrun
    · exact ⟨_, List.mem_map_of_mem (mem_rtStops.mpr hstop), htime, rfl⟩
  · rintro ⟨it, hit, hfin, rfl⟩
    cases rtt with
    | none => cases hit
    | some table =>
      obtain ⟨p, hp, rfl⟩ := List.mem_map.mp hit
      exact .rt rfl (mem_rtStops.mp hp) hfin

theorem nodup_rtRuns (hlocations : locations.Nodup) :
    (((rtEvIterators rtt evType dir locations start).flatMap (rtStream evType)).map (·.2)).Nodup := by
  rw [List.map_flatMap, List.nodup_flatMap]
  constructor
  · intro it _
    rw [rtStream]
    split <;> simp
  · cases rtt with
    | none => exact .nil
    | some table =>
      refine List.pairwise_map.mpr ((nodup_rtStops hlocations).imp fun hne run hrun hrun' => hne ?_)
      obtain ⟨x, hx, rfl⟩ := List.mem_map.mp hrun
      obtain ⟨x', hx', heq⟩ := List.mem_map.mp hrun'
      obtain ⟨-, rfl⟩ := mem_rtStream.mp hx
      obtain ⟨-, rfl⟩ := mem_rtStream.mp hx'
      simp only [RtEvIterator.get, rtEvIterator, Run.mk.injEq, StopRange.mk.injEq,
        Option.some.injEq] at heq
      exact Prod.ext heq.2.2.symm heq.2.1.1.symm

/-- Listed slots are told apart by their runs. -/
theorem get_inj_of_listed {it it' : StaticEvIterator} (h : Listed td rtt evType dir start it)
    (h' : Listed td rtt evType dir start it') (heq : it.get td = it'.get td) : it = it' :=
  get_inj (lt_size_of_listed h) (lt_size_of_listed h') (day_of_listed h) (day_of_listed h') heq

section Ends

-- the iterators over routes come to the end day
variable (hends : routeStops td evType locations = [] ∨ Ends td dir (td.dayIdx start).toNat)

include hends

theorem runKey_of_mem_board {x : ℤ × Run}
    (hx : x ∈ board td rtt evType dir locations start) :
    runKey tt rtt evType dir x.2 = boardKey dir x := by
  rcases (mem_board hends x).mp hx with ⟨it, hit, -, rfl⟩ | ⟨it, -, -, rfl⟩
  · cases rtt with
    | none => cases hit
    | some table =>
      obtain ⟨p, -, rfl⟩ := List.mem_map.mp hit
      rfl
  · rfl

theorem nodup_routeRuns :
    (((routeStops td evType locations).flatMap (routeStream td rtt evType dir start)).map
      (·.2)).Nodup := by
  rw [List.map_flatMap, List.nodup_flatMap]
  constructor
  · intro p hp
    have hmem := @mem_stream _ _ rtt evType _ p.1 p.2 _
      (hends.resolve_left (List.ne_nil_of_mem hp))
    have hne : (stream td rtt evType dir start.toInt (initial td dir p.1 p.2 start)).Nodup :=
      (pairwise_stream p.1 p.2 start).imp fun hlt heq => (heq ▸ hlt).asymm (heq ▸ hlt)
    rw [routeStream, List.map_map]
    refine List.Nodup.map_on (fun it hit it' hit' heq => ?_) hne
    exact get_inj_of_listed ((hmem it).mp hit).2.2 ((hmem it').mp hit').2.2 heq
  · refine nodup_routeStops.imp_of_mem fun {p p'} hp hp' hne run hrun hrun' => hne ?_
    replace hends := hends.resolve_left (List.ne_nil_of_mem hp)
    obtain ⟨x, hx, rfl⟩ := List.mem_map.mp hrun
    obtain ⟨it, hit, rfl⟩ := List.mem_map.mp hx
    obtain ⟨x', hx', heq⟩ := List.mem_map.mp hrun'
    obtain ⟨it', hit', rfl⟩ := List.mem_map.mp hx'
    obtain ⟨hr, hstop, hlisted⟩ := (mem_stream hends it).mp hit
    obtain ⟨hr', hstop', hlisted'⟩ := (mem_stream hends it').mp hit'
    obtain rfl := get_inj_of_listed hlisted' hlisted heq
    exact Prod.ext (hr.symm.trans hr') (hstop.symm.trans hstop')

theorem nodup_board (hlocations : locations.Nodup) :
    ((board td rtt evType dir locations start).map (·.2)).Nodup := by
  rw [(board_perm.map _).nodup_iff, streams, List.flatten_append, List.map_append,
    List.nodup_append]
  refine ⟨nodup_rtRuns hlocations, nodup_routeRuns hends, fun run hrun run' hrun' heq => ?_⟩
  have hrt : run.rt ≠ none := by
    obtain ⟨x, hx, rfl⟩ := List.mem_map.mp hrun
    simp only [List.mem_flatten, List.mem_map, exists_exists_and_eq_and, mem_rtStream] at hx
    obtain ⟨it, -, -, rfl⟩ := hx
    exact Option.some_ne_none _
  have hroute : run'.rt = none := by
    obtain ⟨x, hx, rfl⟩ := List.mem_map.mp hrun'
    simp only [List.mem_flatten, List.mem_map, exists_exists_and_eq_and] at hx
    obtain ⟨p, -, hx⟩ := hx
    obtain ⟨it, -, rfl⟩ := List.mem_map.mp hx
    rfl
  exact hrt (heq ▸ hroute)

/-- The board is ordered when each iterator lists its slots in the order of their times. -/
theorem board_sorted_iff :
    ((board td rtt evType dir locations start).Pairwise
      fun x y => boardKey dir x ≤ boardKey dir y) ↔
    ∀ a b : StaticEvIterator, RouteStopsAt tt evType locations a.r a.stopIdx →
      a.r = b.r → a.stopIdx = b.stopIdx → Listed td rtt evType dir start a →
      Listed td rtt evType dir start b → Earlier dir a b →
      boardTime dir (a.time td evType) ≤ boardTime dir (b.time td evType) := by
  constructor
  · intro hsorted a b hstop hr hstopIdx ha hb hearlier
    have hp := (@mem_routeStops _ td ..).mpr hstop
    have hmem := @mem_stream _ _ rtt evType _ a.r a.stopIdx _
      (hends.resolve_left (List.ne_nil_of_mem hp))
    have hsub : (routeStream td rtt evType dir start (a.r, a.stopIdx)).Sublist
        (board td rtt evType dir locations start) :=
      Merge.sublist_mergeLists isEarlier_iff le_rfl _
        (List.mem_append_right _ (List.mem_map_of_mem hp))
    have hstream := List.pairwise_map.mp (hsorted.sublist hsub)
    have hbmem := (hmem b).mpr ⟨hr.symm, hstopIdx.symm, hb⟩
    obtain ⟨pre, post, hsplit⟩ := List.append_of_mem ((hmem a).mpr ⟨rfl, rfl, ha⟩)
    have hwalk := @pairwise_stream _ td rtt evType dir a.r a.stopIdx start
    rw [hsplit] at hstream hwalk hbmem
    -- `b` is behind `a` in the walk, so it is behind it in the stream
    rcases List.mem_append.mp hbmem with hpre | hpost
    · exact absurd ((List.pairwise_append.mp hwalk).2.2 b hpre a List.mem_cons_self)
        hearlier.asymm
    · rcases List.mem_cons.mp hpost with rfl | hpost
      · exact le_rfl
      · exact (List.pairwise_cons.mp (List.pairwise_append.mp hstream).2.1).1 b hpost
  · intro hsorted
    refine Merge.mergeLists_sorted isEarlier_iff fun l hl => ?_
    rcases List.mem_append.mp hl with hl | hl
    · obtain ⟨it, -, rfl⟩ := List.mem_map.mp hl
      rw [rtStream]
      split <;> simp
    · obtain ⟨p, hp, rfl⟩ := List.mem_map.mp hl
      have hmem := @mem_stream _ _ rtt evType _ p.1 p.2 _
        (hends.resolve_left (List.ne_nil_of_mem hp))
      refine List.pairwise_map.mpr ((pairwise_stream p.1 p.2 start).imp_of_mem ?_)
      intro a b ha hb hearlier
      obtain ⟨hr, hstop, hlisted⟩ := (hmem a).mp ha
      obtain ⟨hr', hstop', hlisted'⟩ := (hmem b).mp hb
      exact hsorted a b (mem_routeStops.mp (by rwa [hr, hstop])) (hr.trans hr'.symm)
        (hstop.trans hstop'.symm) hlisted hlisted' hearlier

/-- The board holds the events when the listed slots are the event slots. -/
theorem mem_board_iff_isEvent :
    (∀ run, run ∈ (board td rtt evType dir locations start).map (·.2) ↔
      IsEvent td rtt evType dir locations start run) ↔
    ∀ it : StaticEvIterator, RouteStopsAt tt evType locations it.r it.stopIdx →
      (Listed td rtt evType dir start it ↔ IsEventSlot td rtt evType dir start it) := by
  have hstatic : ∀ run : Run, run.rt = none →
      (run ∈ (board td rtt evType dir locations start).map (·.2) ↔
        ∃ it : StaticEvIterator, RouteStopsAt tt evType locations it.r it.stopIdx ∧
          Listed td rtt evType dir start it ∧ it.get td = run) := by
    intro run hrun
    simp only [List.mem_map, mem_board hends]
    constructor
    · rintro ⟨x, ⟨it, -, -, rfl⟩ | ⟨it, hstop, hlisted, rfl⟩, rfl⟩
      · cases hrun
      · exact ⟨it, hstop, hlisted, rfl⟩
    · rintro ⟨it, hstop, hlisted, rfl⟩
      exact ⟨_, .inr ⟨it, hstop, hlisted, rfl⟩, rfl⟩
  constructor
  · intro h it hstop
    have hiff := (hstatic (it.get td) rfl).symm.trans
      ((h (it.get td)).trans (isEvent_static_iff (it.get td) rfl))
    constructor
    · intro hlisted
      obtain ⟨it', -, hslot, heq⟩ := hiff.mp ⟨it, hstop, hlisted, rfl⟩
      rwa [← get_inj hslot.position (lt_size_of_listed hlisted) hslot.day (day_of_listed hlisted)
        heq]
    · intro hslot
      obtain ⟨it', -, hlisted, heq⟩ := hiff.mpr ⟨it, hstop, hslot, rfl⟩
      rwa [← get_inj (lt_size_of_listed hlisted) hslot.position (day_of_listed hlisted) hslot.day
        heq]
  · intro h run
    by_cases hrun : run.rt = none
    · rw [hstatic run hrun, isEvent_static_iff run hrun]
      refine exists_congr fun it => and_congr_right fun hstop => ?_
      rw [h it hstop]
    · rw [isEvent_rt_iff run hrun, List.mem_map]
      simp only [mem_board hends]
      constructor
      · rintro ⟨x, ⟨it, hit, hfin, rfl⟩ | ⟨it, _, _, rfl⟩, rfl⟩
        · exact ⟨it, hit, hfin, rfl⟩
        · exact absurd rfl hrun
      · rintro ⟨it, hit, hfin, rfl⟩
        exact ⟨_, .inl ⟨it, hit, hfin, rfl⟩, rfl⟩

end Ends

variable (td rtt evType dir locations start) in
/-- CORRECT: every board holds the first events in order exactly when the iterators come back, the
    slots they list are the events, and each lists them in the order of their times. -/
theorem getEvents_isFirst_iff (hlocations : locations.Nodup) :
    (∀ count, ∃ runs, getEvents td rtt evType dir locations start count = some runs ∧
      Merge.IsFirst (IsEvent td rtt evType dir locations start) (runKey tt rtt evType dir) count
        runs) ↔
    (routeStops td evType locations = [] ∨ Ends td dir (td.dayIdx start).toNat) ∧
    (∀ it : StaticEvIterator, RouteStopsAt tt evType locations it.r it.stopIdx →
      (Listed td rtt evType dir start it ↔ IsEventSlot td rtt evType dir start it)) ∧
    ∀ a b : StaticEvIterator, RouteStopsAt tt evType locations a.r a.stopIdx →
      a.r = b.r → a.stopIdx = b.stopIdx → Listed td rtt evType dir start a →
      Listed td rtt evType dir start b → Earlier dir a b →
      boardTime dir (a.time td evType) ≤ boardTime dir (b.time td evType) := by
  have hkeys : (routeStops td evType locations = [] ∨ Ends td dir (td.dayIdx start).toNat) →
      (((board td rtt evType dir locations start).map (·.2)).Pairwise (fun run run' =>
          runKey tt rtt evType dir run ≤ runKey tt rtt evType dir run') ↔
        (board td rtt evType dir locations start).Pairwise
          fun x y => boardKey dir x ≤ boardKey dir y) := by
    intro hends
    rw [List.pairwise_map]
    constructor <;> refine fun h => h.imp_of_mem fun hx hy hle => ?_
    · rwa [← runKey_of_mem_board hends hx, ← runKey_of_mem_board hends hy]
    · rwa [runKey_of_mem_board hends hx, runKey_of_mem_board hends hy]
  constructor
  · intro h
    have hends := getEvents_total_iff.mp fun count => ⟨_, (h count).choose_spec.1⟩
    have hfirst := Merge.isFirst_take_iff.mp fun count => by
      obtain ⟨runs, hruns, hfirst⟩ := h count
      obtain rfl := Option.some.inj ((getEvents_eq_take hends count).symm.trans hruns)
      exact hfirst
    obtain ⟨-, hmem, hsorted⟩ := hfirst
    exact ⟨hends, (mem_board_iff_isEvent hends).mp hmem,
      (board_sorted_iff hends).mp ((hkeys hends).mp hsorted)⟩
  · rintro ⟨hends, hslots, hsorted⟩ count
    refine ⟨_, getEvents_eq_take hends count, Merge.isFirst_take_iff.mpr ⟨?_, ?_, ?_⟩ count⟩
    · exact nodup_board hends hlocations
    · exact (mem_board_iff_isEvent hends).mpr hslots
    · exact (hkeys hends).mpr ((board_sorted_iff hends).mpr hsorted)

end Events

/-! A night bus leaves its first stop at 25:30. -/

def nightBus : Timetable where
  routeLocationSeq r := if r = 0 then [0, 1] else []
  transportRoute _ := 0
  eventTime t _ evType := Int32.ofNat (1440 * t.day + match evType with
    | .dep => 1530
    | .arr => 1560)

/-- It runs on day 3. -/
def nightBusDays : TrafficDays nightBus where
  locationRoutes l := if l = 0 ∨ l = 1 then [0] else []
  routeTransportRanges r := if r = 0 then ⟨0, 1⟩ else ⟨0, 0⟩
  bitfield _ day := day == 3
  eventDays _ _ _ _ := 1
  dayIdx t := UInt16.ofNat (t.toInt / 1440).toNat
  dateRangeTo := 10
  mem_locationRoutes l r := by
    by_cases hr : r = 0 <;> simp [nightBus, hr]
  transportRoute r t hfrom hto := by
    by_cases hr : r = 0 <;> simp_all [nightBus]

/-- On day 4, when it leaves, it is listed as if it ran on day 4. -/
theorem getEvents_nightBus :
    getEvents nightBusDays none .dep .forward [0] (4 * 1440) 1 =
      some [{ t := some ⟨0, 4⟩, stopRange := ⟨0, 1⟩ }] := by
  decide

/-- The bus does not run on day 4. -/
theorem not_active_of_day_eq {run : Run} {t : TransportIdx} {day : DayIdx} {stopRange : StopRange}
    (hrun : run = { t := some ⟨0, 4⟩, stopRange := ⟨0, 1⟩ })
    (heq : run = { t := some ⟨t, day.toNat⟩, stopRange := stopRange }) :
    nightBusDays.isActive none t day = false := by
  rw [hrun, Run.mk.injEq, Option.some.injEq, Transport.mk.injEq] at heq
  have hday : day = 4 := UInt16.toNat_inj.mp heq.1.2.symm
  rw [hday]
  rfl

theorem getEvents_not_genuine : ¬ ∀ (tt : Timetable) (td : TrafficDays tt)
    (rtt : Option RtTimetable) (evType : EventType) (dir : Direction)
    (locations : List LocationIdx) (start : NigiriUnixtime) (count : ℕ) (runs : List Run),
    getEvents td rtt evType dir locations start count = some runs →
    ∀ run ∈ runs, run.rt = none → Genuine td rtt evType dir locations start run := by
  intro h
  obtain ⟨_, _, _, _, heq, -, -, hactive, -⟩ :=
    h _ _ _ _ _ _ _ _ _ getEvents_nightBus _ List.mem_cons_self rfl
  rw [not_active_of_day_eq rfl heq] at hactive
  cases hactive

theorem getEvents_not_isFirst : ¬ ∀ (tt : Timetable) (td : TrafficDays tt)
    (rtt : Option RtTimetable) (evType : EventType) (dir : Direction)
    (locations : List LocationIdx) (start : NigiriUnixtime) (count : ℕ), locations.Nodup →
    ∃ runs, getEvents td rtt evType dir locations start count = some runs ∧
      Merge.IsFirst (IsEvent td rtt evType dir locations start) (runKey tt rtt evType dir) count
        runs := by
  intro h
  obtain ⟨runs, hruns, hfirst⟩ :=
    h nightBus nightBusDays none .dep .forward [0] (4 * 1440) 1 (by decide)
  obtain rfl := Option.some.inj (getEvents_nightBus.symm.trans hruns)
  have hevent := hfirst.mem _ List.mem_cons_self
  generalize hrun : ({ t := some ⟨0, 4⟩, stopRange := ⟨0, 1⟩ } : Run) = run at hevent
  cases hevent with
  | static _ _ hactive _ _ =>
    rw [not_active_of_day_eq hrun.symm rfl] at hactive
    cases hactive
  | rt hnone => cases hnone

/-- The slot of the bus on day 4 is listed and no event. -/
theorem not_isFirst_nightBus : ¬ ∀ count, ∃ runs,
    getEvents nightBusDays none .dep .forward [0] (4 * 1440) count = some runs ∧
      Merge.IsFirst (IsEvent nightBusDays none .dep .forward [0] (4 * 1440))
        (runKey nightBus none .dep .forward) count runs := by
  intro h
  obtain ⟨-, hslots, -⟩ :=
    (getEvents_isFirst_iff nightBusDays none .dep .forward [0] (4 * 1440) (by decide)).mp h
  have hstop : RouteStopsAt nightBus .dep [0] 0 0 := ⟨⟨0, by decide, rfl⟩, rfl⟩
  have hwindow : InWindow nightBusDays .forward 4 ⟨0, 0, 4, 0⟩ :=
    ⟨by decide, by decide, by decide⟩
  have hlisted : Listed nightBusDays none .dep .forward (4 * 1440) ⟨0, 0, 4, 0⟩ :=
    ⟨hwindow, rfl, ⟨0, 0, 4, 0⟩, rfl, rfl, hwindow, rfl, .inl rfl⟩
  cases ((hslots ⟨0, 0, 4, 0⟩ hstop).mp hlisted).active

end Motis.Nigiri
