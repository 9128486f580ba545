import Motis.Nigiri.TrafficDays

/-! The trains on the live map.

    A train is shown with the sections it runs in a time window. For each section the days of the
    window are taken as days of its departure; a section that departs before the first of them and
    still runs is not looked for:

        day        3        │        4
        window              │    ├─────┤
        section       ├─────┼───────┤ -/

namespace Motis.Nigiri

/-- A section, as the first two stops of a run. -/
structure StopPair where
  t : Transport
  stopRange : StopRange
  from_ : StopIdx
  to_ : StopIdx
  deriving DecidableEq, Repr

structure TimeInterval where
  from_ : NigiriUnixtime
  to_ : NigiriUnixtime
  deriving DecidableEq, Repr

/-- `overlaps` of an interval and the half-open `[dep, arr + 1)`. -/
def TimeInterval.overlaps (interval : TimeInterval) (dep arr : ℤ) : Bool :=
  interval.from_.toInt < arr + 1 && dep < interval.to_.toInt

/-- The days from `startDay` to `endDay`, unless `endDay` is the last value of the type: then the
    loop over them does not end. -/
def daysBetween (startDay endDay : DayIdx) : Option (List DayIdx) :=
  if endDay = 65535 then none
  else some ((List.range' startDay.toNat (endDay.toNat + 1 - startDay.toNat)).map UInt16.ofNat)

section Railviz
variable {tt : Timetable} (td : TrafficDays tt) (rtt : Option RtTimetable)
  (boxOverlaps : Double × Double → Double × Double → Bool)

variable (tt) in
/-- The sections of a route whose box overlaps the area. -/
def sectionsInArea (r : RouteIdx) : List StopIdx :=
  let seq := tt.routeLocationSeq r
  (List.range (seq.length - 1)).filter fun from_ =>
    match seq[from_]?, seq[from_ + 1]? with
    | some l, some l' => boxOverlaps (tt.coordinates l) (tt.coordinates l')
    | _, _ => false

def stopPair (t : TransportIdx) (trafficDay : DayIdx) (from_ : StopIdx) : StopPair where
  t := ⟨t, trafficDay.toNat⟩
  stopRange := ⟨from_, from_ + 1⟩
  from_ := 0
  to_ := 1

/-- The runs of one transport in one section. -/
def sectionRuns (r : RouteIdx) (timeInterval : TimeInterval) (days : List DayIdx) (from_ : StopIdx)
    (t : TransportIdx) : List StopPair :=
  let trafficDays := days.map (· - td.eventDays r t from_ .dep)
  (trafficDays.filter fun trafficDay =>
    timeInterval.overlaps (tt.minutes t trafficDay from_ .dep)
      (tt.minutes t trafficDay (from_ + 1) .arr) && td.isActive rtt t trafficDay).map
    fun trafficDay => stopPair t trafficDay from_

/-- `none`: the loop over the days does not end. -/
def addStaticTransports (r : RouteIdx) (timeInterval : TimeInterval) : Option (List StopPair) :=
  let sections := sectionsInArea tt boxOverlaps r
  let transports := td.transports r
  if sections = [] ∨ transports = [] then some []
  else do
    let days ← daysBetween (td.dayIdx timeInterval.from_) (td.dayIdx timeInterval.to_)
    return sections.flatMap fun from_ =>
      transports.flatMap (sectionRuns td rtt r timeInterval days from_)

/-- The section of a transport on a traffic day is to be reported. -/
structure Matching (r : RouteIdx) (timeInterval : TimeInterval) (from_ : StopIdx)
    (t : TransportIdx) (trafficDay : DayIdx) : Prop where
  section_ : from_ ∈ sectionsInArea tt boxOverlaps r
  transport : t ∈ td.transports r
  active : td.isActive rtt t trafficDay
  overlaps : timeInterval.overlaps (tt.minutes t trafficDay from_ .dep)
    (tt.minutes t trafficDay (from_ + 1) .arr)

/-- The day of the departure. -/
def departureDay (r : RouteIdx) (from_ : StopIdx) (t : TransportIdx) (trafficDay : DayIdx) :
    DayIdx :=
  trafficDay + td.eventDays r t from_ .dep

/-- The matching sections are reported, each once, and nothing else. -/
def ReportsAll (r : RouteIdx) (timeInterval : TimeInterval) (runs : List StopPair) : Prop :=
  runs.Nodup ∧ ∀ p, p ∈ runs ↔ ∃ from_ t trafficDay,
    Matching td rtt boxOverlaps r timeInterval from_ t trafficDay ∧ p = stopPair t trafficDay from_

/-! ### The loops -/

theorem mem_daysBetween {startDay endDay day : DayIdx} {days : List DayIdx}
    (h : daysBetween startDay endDay = some days) :
    day ∈ days ↔ startDay ≤ day ∧ day ≤ endDay := by
  rw [daysBetween] at h
  split at h
  · cases h
  · obtain rfl := Option.some.inj h
    have hend := endDay.toNat_lt
    rw [List.mem_map, UInt16.le_iff_toNat_le, UInt16.le_iff_toNat_le]
    constructor
    · rintro ⟨n, hn, rfl⟩
      rw [List.mem_range'_1] at hn
      rw [UInt16.toNat_ofNat', Nat.mod_eq_of_lt (by omega)]
      omega
    · rintro ⟨hstart, hle⟩
      exact ⟨day.toNat, List.mem_range'_1.mpr (by omega), UInt16.ofNat_toNat⟩

theorem nodup_daysBetween {startDay endDay : DayIdx} {days : List DayIdx}
    (h : daysBetween startDay endDay = some days) : days.Nodup := by
  rw [daysBetween] at h
  split at h
  · cases h
  · obtain rfl := Option.some.inj h
    have hend := endDay.toNat_lt
    refine List.Nodup.map_on (fun m hm n hn heq => ?_) List.nodup_range'
    rw [List.mem_range'_1] at hm hn
    have htoNat := congrArg UInt16.toNat heq
    rwa [UInt16.toNat_ofNat', UInt16.toNat_ofNat', Nat.mod_eq_of_lt (by omega),
      Nat.mod_eq_of_lt (by omega)] at htoNat

variable {td rtt boxOverlaps}

theorem stopPair_inj {t t' : TransportIdx} {day day' : DayIdx} {from_ from_' : StopIdx}
    (h : stopPair t day from_ = stopPair t' day' from_') :
    from_ = from_' ∧ t = t' ∧ day = day' := by
  simp only [stopPair, StopPair.mk.injEq, Transport.mk.injEq, StopRange.mk.injEq,
    UInt16.toNat_inj] at h
  exact ⟨h.2.1.1, h.1.1, h.1.2⟩

theorem mem_sectionRuns {r : RouteIdx} {timeInterval : TimeInterval} {days : List DayIdx}
    {from_ : StopIdx} {t : TransportIdx} {p : StopPair} :
    p ∈ sectionRuns td rtt r timeInterval days from_ t ↔ ∃ trafficDay,
      departureDay td r from_ t trafficDay ∈ days ∧
      timeInterval.overlaps (tt.minutes t trafficDay from_ .dep)
        (tt.minutes t trafficDay (from_ + 1) .arr) = true ∧
      td.isActive rtt t trafficDay = true ∧ p = stopPair t trafficDay from_ := by
  have hday : ∀ trafficDay, trafficDay ∈ days.map (· - td.eventDays r t from_ .dep) ↔
      departureDay td r from_ t trafficDay ∈ days := by
    intro trafficDay
    rw [List.mem_map]
    constructor
    · rintro ⟨day, hmem, rfl⟩
      rwa [departureDay, UInt16.sub_add_cancel]
    · intro hmem
      exact ⟨_, hmem, UInt16.add_sub_cancel _ _⟩
  simp only [sectionRuns, List.mem_map (f := fun trafficDay => stopPair t trafficDay from_),
    List.mem_filter, hday, Bool.and_eq_true, and_assoc, @eq_comm _ p]

theorem nodup_sectionRuns {r : RouteIdx} {timeInterval : TimeInterval} {days : List DayIdx}
    (hdays : days.Nodup) (from_ : StopIdx) (t : TransportIdx) :
    (sectionRuns td rtt r timeInterval days from_ t).Nodup := by
  refine List.Nodup.map (fun _ _ h => (stopPair_inj h).2.2) (List.Nodup.filter _ ?_)
  exact hdays.map fun _ _ h => (UInt16.sub_left_inj _).mp h

theorem nodup_flatMap_sectionRuns {r : RouteIdx} {timeInterval : TimeInterval}
    {days : List DayIdx} (hdays : days.Nodup) {sections : List StopIdx}
    {transports : List TransportIdx} (hsections : sections.Nodup) (htransports : transports.Nodup) :
    (sections.flatMap fun from_ =>
      transports.flatMap (sectionRuns td rtt r timeInterval days from_)).Nodup := by
  rw [List.nodup_flatMap]
  refine ⟨fun from_ _ => List.nodup_flatMap.mpr ⟨fun t _ => nodup_sectionRuns hdays from_ t, ?_⟩, ?_⟩
  · refine htransports.imp fun hne p hp hp' => hne ?_
    obtain ⟨_, _, _, _, rfl⟩ := mem_sectionRuns.mp hp
    obtain ⟨_, _, _, _, heq⟩ := mem_sectionRuns.mp hp'
    exact (stopPair_inj heq).2.1
  · refine hsections.imp fun hne p hp hp' => hne ?_
    obtain ⟨_, _, hp⟩ := List.mem_flatMap.mp hp
    obtain ⟨_, _, hp'⟩ := List.mem_flatMap.mp hp'
    obtain ⟨_, _, _, _, rfl⟩ := mem_sectionRuns.mp hp
    obtain ⟨_, _, _, _, heq⟩ := mem_sectionRuns.mp hp'
    exact (stopPair_inj heq).1

/-- What is reported: the matching sections that depart on one of the days. -/
theorem addStaticTransports_spec {r : RouteIdx} {timeInterval : TimeInterval}
    {runs : List StopPair}
    (h : addStaticTransports td rtt boxOverlaps r timeInterval = some runs) :
    runs.Nodup ∧ ∀ p, p ∈ runs ↔ ∃ from_ t trafficDay,
      Matching td rtt boxOverlaps r timeInterval from_ t trafficDay ∧
      td.dayIdx timeInterval.from_ ≤ departureDay td r from_ t trafficDay ∧
      departureDay td r from_ t trafficDay ≤ td.dayIdx timeInterval.to_ ∧
      p = stopPair t trafficDay from_ := by
  rw [addStaticTransports] at h
  split at h
  · next hnone =>
    obtain rfl := Option.some.inj h
    refine ⟨List.nodup_nil, fun p => iff_of_false List.not_mem_nil ?_⟩
    rintro ⟨from_, t, trafficDay, hmatch, -⟩
    rcases hnone with hsections | htransports
    · exact List.ne_nil_of_mem hmatch.section_ hsections
    · exact List.ne_nil_of_mem hmatch.transport htransports
  · obtain ⟨days, hdays, hruns⟩ := Option.bind_eq_some_iff.mp h
    obtain rfl := Option.some.inj hruns
    refine ⟨nodup_flatMap_sectionRuns (nodup_daysBetween hdays) (List.nodup_range.filter _)
      (td.nodup_transports r), fun p => ?_⟩
    simp only [List.mem_flatMap, mem_sectionRuns, mem_daysBetween hdays]
    constructor
    · rintro ⟨from_, hsection, t, htransport, trafficDay, hday, hoverlaps, hactive, rfl⟩
      exact ⟨from_, t, trafficDay, ⟨hsection, htransport, hactive, hoverlaps⟩, hday.1, hday.2, rfl⟩
    · rintro ⟨from_, t, trafficDay, hmatch, hstart, hend, rfl⟩
      exact ⟨from_, hmatch.section_, t, hmatch.transport, trafficDay, ⟨hstart, hend⟩,
        hmatch.overlaps, hmatch.active, rfl⟩

/-- The loop over the days ends unless there is something to do on the last value of the type. -/
theorem addStaticTransports_isSome_iff {r : RouteIdx} {timeInterval : TimeInterval} :
    (∃ runs, addStaticTransports td rtt boxOverlaps r timeInterval = some runs) ↔
      sectionsInArea tt boxOverlaps r = [] ∨ td.transports r = [] ∨
        td.dayIdx timeInterval.to_ ≠ 65535 := by
  rw [addStaticTransports, daysBetween]
  split_ifs <;> simp_all [← or_assoc]

/-- CORRECT: all matching sections of a route are reported, each once and nothing else, exactly when
    the loop over the days ends and each of them departs on a day between those of the window's
    ends. -/
theorem addStaticTransports_iff (r : RouteIdx) (timeInterval : TimeInterval) :
    (∃ runs, addStaticTransports td rtt boxOverlaps r timeInterval = some runs ∧
      ReportsAll td rtt boxOverlaps r timeInterval runs) ↔
      (sectionsInArea tt boxOverlaps r = [] ∨ td.transports r = [] ∨
        td.dayIdx timeInterval.to_ ≠ 65535) ∧
      ∀ from_ t trafficDay, Matching td rtt boxOverlaps r timeInterval from_ t trafficDay →
        td.dayIdx timeInterval.from_ ≤ departureDay td r from_ t trafficDay ∧
        departureDay td r from_ t trafficDay ≤ td.dayIdx timeInterval.to_ := by
  rw [← addStaticTransports_isSome_iff]
  constructor
  · rintro ⟨runs, h, -, hall⟩
    refine ⟨⟨runs, h⟩, fun from_ t trafficDay hmatch => ?_⟩
    have hmem := (hall _).mpr ⟨from_, t, trafficDay, hmatch, rfl⟩
    obtain ⟨_, _, _, _, hstart, hend, heq⟩ := ((addStaticTransports_spec h).2 _).mp hmem
    obtain ⟨rfl, rfl, rfl⟩ := stopPair_inj heq
    exact ⟨hstart, hend⟩
  · rintro ⟨⟨runs, h⟩, hdays⟩
    obtain ⟨hnodup, hmem⟩ := addStaticTransports_spec h
    refine ⟨runs, h, hnodup, fun p => (hmem p).trans ?_⟩
    constructor
    · rintro ⟨from_, t, trafficDay, hmatch, -, -, rfl⟩
      exact ⟨from_, t, trafficDay, hmatch, rfl⟩
    · rintro ⟨from_, t, trafficDay, hmatch, rfl⟩
      obtain ⟨hstart, hend⟩ := hdays _ _ _ hmatch
      exact ⟨from_, t, trafficDay, hmatch, hstart, hend, rfl⟩

end Railviz

/-! A train leaves its first stop at 23:50 and reaches the second at 00:10. -/

def overMidnight : Timetable where
  routeLocationSeq r := if r = 0 then [0, 1] else []
  transportRoute _ := 0
  eventTime t _ evType := Int32.ofNat (1440 * t.day + match evType with
    | .dep => 1430
    | .arr => 1450)

/-- It runs on day 3. -/
def overMidnightDays : TrafficDays overMidnight where
  locationRoutes l := if l = 0 ∨ l = 1 then [0] else []
  routeTransportRanges r := if r = 0 then ⟨0, 1⟩ else ⟨0, 0⟩
  bitfield _ day := day == 3
  eventDays _ _ _ evType := match evType with
    | .dep => 0
    | .arr => 1
  dayIdx t := UInt16.ofNat (t.toInt / 1440).toNat
  dateRangeTo := 10
  mem_locationRoutes l r := by
    by_cases hr : r = 0 <;> simp [overMidnight, hr]
  transportRoute r t hfrom hto := by
    by_cases hr : r = 0 <;> simp_all [overMidnight]

/-- Day 4, from 00:05 to 00:08. -/
def afterMidnight : TimeInterval := ⟨4 * 1440 + 5, 4 * 1440 + 8⟩

/-- On day 4 at 00:05 the train is between its stops, and is not reported. -/
theorem addStaticTransports_not_complete : ¬ ∀ (tt : Timetable) (td : TrafficDays tt)
    (rtt : Option RtTimetable) (boxOverlaps : Double × Double → Double × Double → Bool)
    (r : RouteIdx) (timeInterval : TimeInterval),
    ∃ runs, addStaticTransports td rtt boxOverlaps r timeInterval = some runs ∧
      ReportsAll td rtt boxOverlaps r timeInterval runs := by
  intro h
  obtain ⟨runs, hruns, -, hall⟩ :=
    h overMidnight overMidnightDays none (fun _ _ => true) 0 afterMidnight
  have hnone : addStaticTransports overMidnightDays none (fun _ _ => true) 0 afterMidnight =
      some [] := by decide
  obtain rfl := Option.some.inj (hnone.symm.trans hruns)
  have hmatch : Matching overMidnightDays none (fun _ _ => true) 0 afterMidnight 0 0 3 :=
    ⟨by decide, by decide, by decide, by decide⟩
  exact List.not_mem_nil ((hall _).mpr ⟨0, 0, 3, hmatch, rfl⟩)

end Motis.Nigiri
