import Mathlib.Data.Prod.Lex
import Mathlib.Order.WithBot
import Motis.Nigiri.EvIterators
import Motis.Nigiri.TagLookup

/-! From a trip id back to the run it was made for.

    A trip may be served by several transports, and by a part of each. Its id names the first stop and
    the departure there, always at the stop range that is stored first, whichever transport the run
    has:

        stored for "de_t1":   transport 0, stops [0, 2)     transport 1, stops [1, 3)
        run of transport 1    ──▶   time of transport 1 at stop 0, where the trip is not served -/

namespace Motis.Nigiri
open Fallible

abbrev TripIdIdx := ℕ

/-- A transport and the stops of it that serve a trip. -/
abbrev TransportRange := TransportIdx × StopRange

/-- `std::tuple(src, trip_id)`; the invalid source is the greatest one. -/
abbrev TripIdKey := WithTop SourceIdx ×ₗ String

def tripIdKey (src : Option SourceIdx) (tripId : String) : TripIdKey := toLex (src, tripId)

def Timetable.tripIdKey (tt : Timetable) (x : TripIdIdx) : TripIdKey :=
  Nigiri.tripIdKey (tt.tripIdSrc x) (tt.tripIdStrings x)

/-- The tables that lead from ids to trips, and how the timetable counts time: service day 0 is
    `internalFrom` days after 1970, and an event lies `eventDays` days and `eventMam` minutes after
    the midnight of its service day. -/
structure TripTables {tt : Timetable} (td : TrafficDays tt) where
  tripIdToIdx : List (TripIdIdx × TripIdx)
  internalFrom : ℤ
  eventMam : TransportIdx → StopIdx → EventType → ℕ
  sorted : tripIdToIdx.Pairwise fun a b => tt.tripIdKey a.1 ≤ tt.tripIdKey b.1
  mem_tripIdToIdx : ∀ x trip, (x, trip) ∈ tripIdToIdx ↔ x ∈ tt.tripIds trip
  tripIds_ne_nil : ∀ trip, tt.tripTransportRanges trip ≠ [] → tt.tripIds trip ≠ []
  stopRange : ∀ trip, ∀ p ∈ tt.tripTransportRanges trip,
    p.2.from_ < p.2.to_ ∧ p.2.to_ ≤ (tt.routeLocationSeq (tt.transportRoute p.1)).length
  eventMam_lt : ∀ t stopIdx evType, eventMam t stopIdx evType < 1440
  minutes_eq : ∀ (t : TransportIdx) (day : DayIdx) (stopIdx : StopIdx) (evType : EventType),
    stopIdx < (tt.routeLocationSeq (tt.transportRoute t)).length →
    tt.minutes t day stopIdx evType = (internalFrom + day.toNat +
      (td.eventDays (tt.transportRoute t) t stopIdx evType).toNat) * 1440 + eventMam t stopIdx evType

/-- The trips of the timetable were loaded from the tagged schedules. -/
structure TripsLoadedWith (tt : Timetable) (tags : TagLookup) : Prop where
  sources : ∀ trip, ∀ x ∈ tt.tripIds trip, ∃ src, tt.tripIdSrc x = some src ∧
    src < tags.srcToTag.length
  tags : ∀ src tag, tags.srcToTag[src]? = some tag → tt.tag src = tag

namespace TripTables
variable {tt : Timetable} {td : TrafficDays tt} (tables : TripTables td)

/-- `tt.day_idx`, of a day counted from 1970. -/
def dayIdx (day : ℤ) : DayIdx := UInt16.ofInt (day - tables.internalFrom)

variable (td) in
/-- The body of the loop: the run of a stored pair, if it departs at `depTime`. -/
def runAt (depTime : NigiriUnixtime) (dayIdx : DayIdx) (p : TransportRange) : Option Run :=
  let (tIdx, stopRange) := p
  let dayOffset := td.eventDays (tt.transportRoute tIdx) tIdx stopRange.from_ .dep
  let t : Transport := ⟨tIdx, (dayIdx - dayOffset).toNat⟩
  if depTime ≠ tt.eventTime t stopRange.from_ .dep then none
  else if !td.bitfield tIdx (dayIdx - dayOffset) then none
  else some { t := some t, stopRange := stopRange }

/-- An empty run when no stored pair departs then. -/
def resolveRun (tags : TagLookup) (et : ExternTrip) : Run :=
  let (tag, tripId) := splitTagAndLocationId et.id
  let src := tags.getSrc tag
  let depTime := toNigiriUnixtime et.time
  -- the cast to days is a division toward zero
  let dayIdx := tables.dayIdx (depTime / 1440).toInt
  let lb := tables.tripIdToIdx.dropWhile fun a => tt.tripIdKey a.1 < tripIdKey src tripId
  let matching := lb.takeWhile fun a => tt.tripIdSrc a.1 == src && tt.tripIdStrings a.1 == tripId
  ((matching.flatMap fun a => tt.tripTransportRanges a.2).findSome?
    (runAt td depTime dayIdx)).getD { stopRange := ⟨0, 0⟩ }

/-! ### The pairs of a trip id -/

variable (tt) in
/-- The line of the first section, or of the section the trip begins with, is there. -/
def HasLine (front : TransportRange) : Prop :=
  let sectionLines := tt.transportSectionLines front.1
  sectionLines.length ≤ 1 ∨ sectionLines.head? = some none ∨
    ∃ line, sectionLines[front.2.from_]? = some (some line)

/-- The pairs stored for the id `x`, in the order they are looked up. -/
def stored (x : TripIdIdx) : List TransportRange :=
  (tables.tripIdToIdx.filter fun a => tt.tripIdKey a.1 = tt.tripIdKey x).flatMap fun a =>
    tt.tripTransportRanges a.2

variable (td) in
/-- The pair departs at `time` of one of its active days. -/
def DepartsAt (p : TransportRange) (day : DayIdx) (time : ℤ) : Prop :=
  td.bitfield p.1 day = true ∧ tt.minutes p.1 day p.2.from_ .dep = time

variable (td) in
/-- No two pairs stored for equal ids depart at the same time of a common active day. -/
def DistinctDepartures : Prop :=
  ∀ trip trip' : TripIdx, ∀ x ∈ tt.tripIds trip, ∀ x' ∈ tt.tripIds trip',
    tt.tripIdKey x = tt.tripIdKey x' →
    ∀ p ∈ tt.tripTransportRanges trip, ∀ p' ∈ tt.tripTransportRanges trip', p ≠ p' →
      ∀ (day : DayIdx) (time : ℤ), DepartsAt td p day time → ¬ DepartsAt td p' day time

/-- What it takes for the run of `p` on `day` to be found again, by the id `x` of a trip whose first
    pair is `front`. -/
structure FoundAgain (x : TripIdIdx) (front p : TransportRange) (day : DayIdx) : Prop where
  hasLine : HasLine tt front
  sameStart : tt.minutes p.1 day front.2.from_ .dep = tt.minutes p.1 day p.2.from_ .dep
  /-- The departure is rounded down to its day. -/
  roundsDown : 0 ≤ tt.minutes p.1 day p.2.from_ .dep ∨ 1440 ∣ tt.minutes p.1 day p.2.from_ .dep
  first : ∀ q ∈ (tables.stored x).takeWhile (· ≠ p),
    ∀ day', ¬ DepartsAt td q day' (tt.minutes p.1 day p.2.from_ .dep)

/-- In a sorted list, the search from the lower bound on finds the entries of a key. -/
theorem takeWhile_dropWhile_eq_filter {α β : Type} [LinearOrder β] {key : α → β} {k : β}
    {l : List α} (h : l.Pairwise fun a b => key a ≤ key b) :
    (l.dropWhile fun a => key a < k).takeWhile (fun a => key a = k) =
      l.filter fun a => key a = k := by
  induction l with
  | nil => simp
  | cons a l ih =>
    obtain ⟨ha, hl⟩ := List.pairwise_cons.mp h
    rcases lt_trichotomy (key a) k with hlt | heq | hgt
    · simp [hlt, hlt.ne, ih hl]
    · -- all entries from `a` on have at least its key
      have hdrop : l.dropWhile (fun b => key b < k) = l := by
        cases l with
        | nil => simp
        | cons b l =>
          have hb : k ≤ key b := heq ▸ ha b List.mem_cons_self
          simp [hb]
      have hrest := ih hl
      rw [hdrop] at hrest
      simp [heq, hrest]
    · have hnone : l.filter (fun b => key b = k) = [] := by
        simp only [List.filter_eq_nil_iff, decide_eq_true_eq]
        intro b hb
        exact (hgt.trans_le (ha b hb)).ne'
      simp [hgt.not_gt, hgt.ne', hnone]

theorem toNigiriUnixtime_toMotisUnixtime (t : NigiriUnixtime) :
    toNigiriUnixtime (toMotisUnixtime t) = t := by
  have hlt := t.toInt_lt
  have hge := t.le_toInt
  have hmul : (t.toInt64 * 60).toInt = t.toInt * 60 := by
    rw [Int64.toInt_mul, Int32.toInt_toInt64]
    exact Int.bmod_eq_of_le (by simp; omega) (by simp; omega)
  refine Int32.toInt_inj.mp ?_
  rw [toNigiriUnixtime, toMotisUnixtime, Int64.toInt_toInt32,
    Int64.toInt_div_of_ne_right _ _ (by decide), hmul]
  have hdiv : (t.toInt * 60).tdiv (60 : Int64).toInt = t.toInt :=
    Int.mul_tdiv_cancel _ (by decide)
  rw [hdiv]
  exact Int.bmod_eq_of_le (by omega) (by omega)

theorem at?_of_getElem? {α : Type} {l : List α} {i : ℕ} {a : α} (h : l[i]? = some a) :
    at? l i = .ok a := by
  rw [at?, h]

include tables in
/-- The encoder throws only where a line is missing. -/
theorem tripToExternTrip_spec {trip : TripIdx} {front : TransportRange} {x : TripIdIdx}
    (hfront : (tt.tripTransportRanges trip)[0]? = some front)
    (hx : (tt.tripIds trip)[0]? = some x) (t : Transport) :
    (HasLine tt front → ∃ et, tt.tripToExternTrip trip t = .ok et ∧
      et.id = tt.getTag (tt.tripIdSrc x) ++ tt.tripIdStrings x ∧
      et.time = toMotisUnixtime (tt.eventTime t front.2.from_ .dep)) ∧
    (¬ HasLine tt front → tt.tripToExternTrip trip t = .error .outOfRange) := by
  obtain ⟨hlt, hle⟩ := tables.stopRange trip front (List.mem_of_getElem? hfront)
  have hids : 0 < (tt.tripIds trip).length := (List.getElem?_eq_some_iff.mp hx).1
  have hfirst := at?_of_getElem? (List.getElem?_eq_getElem (hlt.trans_le hle))
  have hlast := at?_of_getElem? (List.getElem?_eq_getElem (Nat.sub_one_lt_of_le
    (Nat.zero_lt_of_lt hlt) hle))
  have hback := at?_of_getElem? (List.getElem?_eq_getElem (Nat.sub_one_lt_of_lt hids))
  rw [Timetable.tripToExternTrip, at?_of_getElem? hfront, HasLine]
  simp only [bind, Except.bind, pure, Except.pure, hfirst, hlast, hback, at?_of_getElem? hx]
  split
  case h_1 hlines => simp [hlines]
  case h_2 hlines => simp [hlines]
  case h_3 hlines => simp [hlines]
  case h_4 hnil hnone hone =>
    have hlong : ¬ (tt.transportSectionLines front.1).length ≤ 1 := by
      intro hle
      match hlines : tt.transportSectionLines front.1, hle with
      | [], _ => exact hnil hlines
      | [none], _ => exact hnone _ hlines
      | [some line], _ => exact hone _ hlines
    have hhead : (tt.transportSectionLines front.1).head? ≠ some none := by
      intro hhead
      obtain ⟨tail, htail⟩ := List.head?_eq_some_iff.mp hhead
      exact hnone tail htail
    simp only [hlong, hhead, false_or, at?]
    rcases (tt.transportSectionLines front.1)[front.2.from_]? with _ | _ | line
    · simp
    · simp [throw, throwThe, MonadExceptOf.throw]
    · simp

/-! ### The run that is found -/

theorem runAt_eq_some {depTime : NigiriUnixtime} {dayIdx : DayIdx} {p : TransportRange} {r : Run}
    {day : DayIdx} (hday : dayIdx - td.eventDays (tt.transportRoute p.1) p.1 p.2.from_ .dep = day) :
    runAt td depTime dayIdx p = some r ↔ DepartsAt td p day depTime.toInt ∧
      r = { t := some ⟨p.1, day.toNat⟩, stopRange := p.2 } := by
  simp only [runAt, hday, DepartsAt, Timetable.minutes, Int32.toInt_inj]
  rcases eq_or_ne depTime (tt.eventTime ⟨p.1, day.toNat⟩ p.2.from_ .dep) with rfl | hne
  · cases td.bitfield p.1 day <;> simp [eq_comm]
  · simp [hne, hne.symm]

/-- The difference of the day a departure lies in and its day offset is its service day exactly when
    the departure is rounded down. -/
theorem dayIdx_sub_eq_iff {p : TransportRange} {day : DayIdx} {time : NigiriUnixtime}
    (hstop : p.2.from_ < (tt.routeLocationSeq (tt.transportRoute p.1)).length)
    (htime : tt.minutes p.1 day p.2.from_ .dep = time.toInt) :
    tables.dayIdx (time / 1440).toInt -
        td.eventDays (tt.transportRoute p.1) p.1 p.2.from_ .dep = day ↔
      0 ≤ time.toInt ∨ 1440 ∣ time.toInt := by
  generalize hoffset : td.eventDays (tt.transportRoute p.1) p.1 p.2.from_ .dep = offset
  have hminutes := tables.minutes_eq p.1 day p.2.from_ .dep hstop
  have hmam := tables.eventMam_lt p.1 p.2.from_ .dep
  rw [htime, hoffset] at hminutes
  have hdiv : (time / 1440).toInt = tables.internalFrom + day.toNat + offset.toNat +
      if 0 ≤ time.toInt ∨ 1440 ∣ time.toInt then 0 else 1 := by
    have hfloor : time.toInt / 1440 = tables.internalFrom + day.toNat + offset.toNat := by omega
    rw [Int32.toInt_div_of_ne_right _ _ (by decide), ← hfloor]
    exact Int.tdiv_eq_ediv
  have := day.toNat_lt
  have := offset.toNat_lt
  rw [dayIdx, hdiv, ← UInt16.toNat_inj, UInt16.toNat_sub, UInt16.ofInt, UInt16.toNat_ofNat']
  split_ifs with hdown
  · simp only [hdown, iff_true]
    omega
  · simp only [hdown, iff_false]
    omega

theorem stopRange_of_mem_stored {x : TripIdIdx} {p : TransportRange} (hp : p ∈ tables.stored x) :
    p.2.from_ < (tt.routeLocationSeq (tt.transportRoute p.1)).length := by
  obtain ⟨a, -, hp⟩ := List.mem_flatMap.mp hp
  obtain ⟨hlt, hle⟩ := tables.stopRange a.2 p hp
  exact hlt.trans_le hle

theorem mem_stored {trip : TripIdx} {x : TripIdIdx} {p : TransportRange}
    (hx : x ∈ tt.tripIds trip) (hp : p ∈ tt.tripTransportRanges trip) : p ∈ tables.stored x := by
  refine List.mem_flatMap.mpr ⟨(x, trip), ?_, hp⟩
  simp [tables.mem_tripIdToIdx, hx]

theorem takeWhile_ne_eq {α : Type} [DecidableEq α] {a : α} {before behind : List α}
    (h : a ∉ before) : (before ++ a :: behind).takeWhile (· ≠ a) = before := by
  have hall : ∀ b ∈ before, decide (b ≠ a) = true := fun b hb => by
    simpa using ne_of_mem_of_not_mem hb h
  rw [List.takeWhile_append_of_pos hall]
  simp

/-- The id of a trip leads to the pairs stored for it when the tags are distinct and have no
    underscore. -/
theorem resolveRun_eq {paths : List ImportPath} {tags : TagLookup}
    (htags : registerTags paths = .ok tags) (hnodup : (nameTags paths).Nodup)
    (hclean : ∀ tag ∈ nameTags paths, '_' ∉ tag.toList) (hload : TripsLoadedWith tt tags)
    {trip : TripIdx} {x : TripIdIdx} (hx : x ∈ tt.tripIds trip) {et : ExternTrip}
    (hid : et.id = tt.getTag (tt.tripIdSrc x) ++ tt.tripIdStrings x) :
    tables.resolveRun tags et =
      ((tables.stored x).findSome? (runAt td (toNigiriUnixtime et.time)
        (tables.dayIdx (toNigiriUnixtime et.time / 1440).toInt))).getD { stopRange := ⟨0, 0⟩ } := by
  obtain ⟨hfirst, hsrcToTag⟩ := registerTags_spec htags
  obtain ⟨src, hsrc, hlt⟩ := hload.sources trip x hx
  obtain ⟨tag, hget⟩ : ∃ tag, (nameTags paths)[src]? = some tag :=
    ⟨_, List.getElem?_eq_getElem (by simpa [hsrcToTag] using hlt)⟩
  have hgetTag : tt.getTag (some src) = tag ++ "_" := hload.tags src _ (by simp [hsrcToTag, hget])
  have hgetSrc : tags.getSrc (tag ++ "_") = some src := by
    rw [hfirst, hsrcToTag, idxOf?_map_underscore, idxOf?_eq_some_iff_notMem_take hget,
      List.mem_take_iff_getElem]
    rintro ⟨j, hj, hsame⟩
    obtain ⟨hi, hget⟩ := List.getElem?_eq_some_iff.mp hget
    have hij := (List.Nodup.getElem_inj_iff hnodup).mp (hsame.trans hget.symm)
    omega
  rw [hsrc, hgetTag] at hid
  have hkey : tripIdKey (some src) (tt.tripIdStrings x) = tt.tripIdKey x := by
    rw [Timetable.tripIdKey, hsrc]
  have hmatch : ∀ a : TripIdIdx × TripIdx, (tt.tripIdSrc a.1 == some src &&
      tt.tripIdStrings a.1 == tt.tripIdStrings x) = decide (tt.tripIdKey a.1 = tt.tripIdKey x) := by
    intro a
    rw [← hkey, Timetable.tripIdKey, tripIdKey, tripIdKey, Bool.eq_iff_iff]
    simp only [Bool.and_eq_true, beq_iff_eq, decide_eq_true_eq, toLex_inj]
    exact Prod.mk_inj.symm
  rw [resolveRun, hid, splitTagAndLocationId_append (hclean tag (List.mem_of_getElem? hget))]
  simp only [hgetSrc, hmatch, hkey, takeWhile_dropWhile_eq_filter tables.sorted]
  rfl

/-- Of the pairs stored for an id, the first one that departs at a time is found, unless the time is
    rounded up to the next day. -/
theorem findSome?_runAt_eq_some {x : TripIdIdx} {p : TransportRange} {day : DayIdx}
    {time : NigiriUnixtime} (hp : p ∈ tables.stored x) (hactive : td.bitfield p.1 day = true) :
    (tables.stored x).findSome? (runAt td time (tables.dayIdx (time / 1440).toInt)) =
        some { t := some ⟨p.1, day.toNat⟩, stopRange := p.2 } ↔
      tt.minutes p.1 day p.2.from_ .dep = time.toInt ∧ (0 ≤ time.toInt ∨ 1440 ∣ time.toInt) ∧
      ∀ q ∈ (tables.stored x).takeWhile (· ≠ p), ∀ day', ¬ DepartsAt td q day' time.toInt := by
  constructor
  · intro hfind
    obtain ⟨before, q, behind, hsplit, hq, hbefore⟩ := List.findSome?_eq_some_iff.mp hfind
    obtain ⟨⟨-, htime⟩, hr⟩ := (runAt_eq_some rfl).mp hq
    simp only [Run.mk.injEq, Option.some.injEq, Transport.mk.injEq, UInt16.toNat_inj] at hr
    obtain ⟨⟨hqt, hday⟩, hqrange, -⟩ := hr
    obtain rfl : p = q := Prod.ext hqt hqrange
    rw [← hday] at htime
    have hround := (tables.dayIdx_sub_eq_iff (tables.stopRange_of_mem_stored hp) htime).mp hday.symm
    have hnot : p ∉ before := by
      intro hmem
      rw [hbefore p hmem] at hq
      cases hq
    refine ⟨htime, hround, ?_⟩
    rw [hsplit, takeWhile_ne_eq hnot]
    intro q hmem day' hdeparts
    have hstop := tables.stopRange_of_mem_stored (hsplit ▸ List.mem_append_left _ hmem)
    have hrun := (runAt_eq_some ((tables.dayIdx_sub_eq_iff hstop hdeparts.2).mpr hround)).mpr
      ⟨hdeparts, rfl⟩
    rw [hbefore q hmem] at hrun
    cases hrun
  · rintro ⟨htime, hround, hfirst⟩
    obtain ⟨before, behind, hsplit, hnot⟩ := List.eq_append_cons_of_mem hp
    rw [hsplit, takeWhile_ne_eq hnot] at hfirst
    have hday := (tables.dayIdx_sub_eq_iff (tables.stopRange_of_mem_stored hp) htime).mpr hround
    refine List.findSome?_eq_some_iff.mpr ⟨before, p, behind, hsplit, ?_, ?_⟩
    · exact (runAt_eq_some hday).mpr ⟨⟨hactive, htime⟩, rfl⟩
    · intro q hmem
      rw [Option.eq_none_iff_forall_ne_some]
      intro r hr
      exact hfirst q hmem _ ((runAt_eq_some rfl).mp hr).1

/-- CORRECT: the run of a stored pair on an active day is found again from the trip id made for it
    exactly when it is `FoundAgain`. -/
theorem resolveRun_iff {paths : List ImportPath} {tags : TagLookup}
    (htags : registerTags paths = .ok tags) (hnodup : (nameTags paths).Nodup)
    (hclean : ∀ tag ∈ nameTags paths, '_' ∉ tag.toList) (hload : TripsLoadedWith tt tags)
    {trip : TripIdx} {x : TripIdIdx} {front p : TransportRange} {day : DayIdx}
    (hx : (tt.tripIds trip)[0]? = some x)
    (hfront : (tt.tripTransportRanges trip)[0]? = some front)
    (hp : p ∈ tt.tripTransportRanges trip) (hactive : td.bitfield p.1 day = true) :
    (∃ et, tt.tripToExternTrip trip ⟨p.1, day.toNat⟩ = .ok et ∧
      tables.resolveRun tags et = { t := some ⟨p.1, day.toNat⟩, stopRange := p.2 }) ↔
      tables.FoundAgain x front p day := by
  have hmem : x ∈ tt.tripIds trip := List.mem_of_getElem? hx
  have hfound := @findSome?_runAt_eq_some _ _ tables x p day
    (tt.eventTime ⟨p.1, day.toNat⟩ front.2.from_ .dep) (tables.mem_stored hmem hp) hactive
  obtain ⟨hok, herror⟩ := tables.tripToExternTrip_spec hfront hx ⟨p.1, day.toNat⟩
  constructor
  · rintro ⟨et, het, hrun⟩
    have hline : HasLine tt front := by
      by_contra hline
      rw [herror hline] at het
      cases het
    obtain ⟨_, het', hid, htime⟩ := hok hline
    obtain rfl := Except.ok.inj (het'.symm.trans het)
    rw [tables.resolveRun_eq htags hnodup hclean hload hmem hid, htime,
      toNigiriUnixtime_toMotisUnixtime] at hrun
    have hsome := Option.getD_eq_iff.mp hrun
    obtain ⟨hstart, hround, hfirst⟩ := hfound.mp (hsome.resolve_right (by simp))
    refine ⟨hline, hstart.symm, ?_, ?_⟩
    · rwa [hstart]
    · rwa [hstart]
  · intro h
    have hstart : tt.minutes p.1 day p.2.from_ .dep =
        (tt.eventTime ⟨p.1, day.toNat⟩ front.2.from_ .dep).toInt := h.sameStart.symm
    have hround := h.roundsDown
    have hfirst := h.first
    rw [hstart] at hround hfirst
    obtain ⟨et, het, hid, htime⟩ := hok h.hasLine
    refine ⟨et, het, ?_⟩
    rw [tables.resolveRun_eq htags hnodup hclean hload hmem hid, htime,
      toNigiriUnixtime_toMotisUnixtime, hfound.mpr ⟨hstart, hround, hfirst⟩, Option.getD_some]

end TripTables

/-! ### A trip on two transports -/

/-- Transport 0 departs at 08:00, transport 1 at 09:00, and both need an hour from stop to stop. -/
def blockMam (t stopIdx : ℕ) : ℕ :=
  if t < 2 ∧ stopIdx < 3 then 480 + 60 * t + 60 * stopIdx else 0

theorem blockMam_lt (t stopIdx : ℕ) : blockMam t stopIdx < 1440 := by
  rw [blockMam]
  split
  · omega
  · omega

def blockTimetable : Timetable where
  tag _ := "de_"
  routeLocationSeq r := if r < 2 then [0, 1, 2] else []
  tripTransportRanges trip := if trip = 0 then [(0, ⟨0, 2⟩), (1, ⟨1, 3⟩)] else []
  tripIds trip := if trip = 0 then [0] else []
  tripIdSrc _ := some 0
  tripIdStrings _ := "t1"
  eventTime t stopIdx _ := Int32.ofNat (1440 * t.day + blockMam t.tIdx stopIdx)

theorem mem_blockRanges {trip : TripIdx} {p : TransportRange}
    (hp : p ∈ blockTimetable.tripTransportRanges trip) : p = (0, ⟨0, 2⟩) ∨ p = (1, ⟨1, 3⟩) := by
  by_cases h : trip = 0
  · simpa [blockTimetable, h] using hp
  · simp [blockTimetable, h] at hp

/-- Both transports run on day 0. -/
def blockDays : TrafficDays blockTimetable where
  locationRoutes l := if l < 3 then [0, 1] else []
  routeTransportRanges r := ⟨r, r + 1⟩
  bitfield _ day := day == 0
  eventDays _ _ _ _ := 0
  dayIdx t := UInt16.ofNat (t.toInt / 1440).toNat
  dateRangeTo := 10
  mem_locationRoutes l r := by
    have hstops : ∀ l r : ℕ, (l < 3 ∧ (r = 0 ∨ r = 1)) ↔ r < 2 ∧ (l = 0 ∨ l = 1 ∨ l = 2) := by
      omega
    simpa [blockTimetable] using hstops l r
  transportRoute r t hfrom hto := Nat.le_antisymm (Nat.le_of_lt_succ hto) hfrom

def blockTables : TripTables blockDays where
  tripIdToIdx := [(0, 0)]
  internalFrom := 0
  eventMam t stopIdx _ := blockMam t stopIdx
  sorted := by simp
  mem_tripIdToIdx x trip := by
    by_cases h : trip = 0 <;> simp [blockTimetable, h]
  tripIds_ne_nil trip := by
    by_cases h : trip = 0 <;> simp [blockTimetable, h]
  stopRange trip p hp := by
    rcases mem_blockRanges hp with rfl | rfl
    · decide
    · decide
  eventMam_lt t stopIdx _ := blockMam_lt t stopIdx
  minutes_eq t day stopIdx evType hstop := by
    have hmam := blockMam_lt t stopIdx
    have hday := day.toNat_lt
    have htime : (Int32.ofNat (1440 * day.toNat + blockMam t stopIdx)).toInt =
        ((1440 * day.toNat + blockMam t stopIdx : ℕ) : ℤ) :=
      Int32.toInt_ofNat_of_lt (by omega)
    have hzero : (0 : UInt16).toNat = 0 := rfl
    simp only [Timetable.minutes, blockTimetable, blockDays, htime, hzero]
    omega

theorem stored_block : blockTables.stored 0 = [(0, ⟨0, 2⟩), (1, ⟨1, 3⟩)] := by
  simp [TripTables.stored, blockTables, blockTimetable]

def blockPaths : List ImportPath := [⟨"schedule", "de", "de.zip"⟩]

theorem registerTags_blockPaths : ∃ tags, registerTags blockPaths = .ok tags ∧
    TripsLoadedWith blockTimetable tags := by
  obtain ⟨tags, htags⟩ : ∃ tags, registerTags blockPaths = .ok tags := ⟨_, rfl⟩
  have hsrcToTag : tags.srcToTag = ["de_"] := (registerTags_spec htags).2
  refine ⟨tags, htags, fun trip x hx => ⟨0, rfl, by simp [hsrcToTag]⟩, fun src tag htag => ?_⟩
  rw [hsrcToTag] at htag
  match src, htag with
  | 0, htag => exact Option.some.inj htag

theorem distinctDepartures_block : TripTables.DistinctDepartures blockDays := by
  intro trip trip' x hx x' hx' hkey p hp p' hp' hne day time hdeparts hdeparts'
  obtain rfl : day = 0 := by simpa [blockDays] using hdeparts.1
  have hsame := hdeparts.2.trans hdeparts'.2.symm
  rcases mem_blockRanges hp with rfl | rfl <;> rcases mem_blockRanges hp' with rfl | rfl
  · exact hne rfl
  · exact absurd hsame (by decide)
  · exact absurd hsame (by decide)
  · exact hne rfl

/-- The run of transport 0 is found again. -/
theorem resolveRun_iff_block : ∃ tags, registerTags blockPaths = .ok tags ∧
    ∃ et, blockTimetable.tripToExternTrip 0 ⟨0, 0⟩ = .ok et ∧
      blockTables.resolveRun tags et = { t := some ⟨0, 0⟩, stopRange := ⟨0, 2⟩ } := by
  obtain ⟨tags, htags, hload⟩ := registerTags_blockPaths
  refine ⟨tags, htags, ?_⟩
  refine (@TripTables.resolveRun_iff _ _ blockTables blockPaths tags htags (by decide) (by decide)
    hload 0 0 (0, ⟨0, 2⟩) (0, ⟨0, 2⟩) 0 rfl rfl List.mem_cons_self rfl).mpr ?_
  refine ⟨.inl (by decide), rfl, .inl (by decide), ?_⟩
  rw [stored_block]
  simp

/-- The id of the run of transport 1 names its departure at stop 0. -/
theorem resolveRun_not_roundTrip : ¬ ∀ (paths : List ImportPath) (tags : TagLookup) (tt : Timetable)
    (td : TrafficDays tt) (tables : TripTables td), registerTags paths = .ok tags →
      (nameTags paths).Nodup → (∀ tag ∈ nameTags paths, '_' ∉ tag.toList) →
      TripsLoadedWith tt tags → TripTables.DistinctDepartures td →
      ∀ trip, ∀ p ∈ tt.tripTransportRanges trip, ∀ day, td.bitfield p.1 day = true →
        ∃ et, tt.tripToExternTrip trip ⟨p.1, day.toNat⟩ = .ok et ∧
          tables.resolveRun tags et = { t := some ⟨p.1, day.toNat⟩, stopRange := p.2 } := by
  intro h
  obtain ⟨tags, htags, hload⟩ := registerTags_blockPaths
  obtain ⟨et, het, hrun⟩ := h _ _ _ _ blockTables htags (by decide) (by decide) hload
    distinctDepartures_block 0 (1, ⟨1, 3⟩) (by decide) 0 rfl
  obtain ⟨_, het', hid, htime⟩ := (@TripTables.tripToExternTrip_spec _ _ blockTables 0 (0, ⟨0, 2⟩) 0
    rfl rfl ⟨1, 0⟩).1 (.inl (by decide))
  obtain rfl := Except.ok.inj (het'.symm.trans het)
  have hmem : 0 ∈ blockTimetable.tripIds 0 := List.mem_cons_self
  rw [blockTables.resolveRun_eq htags (by decide) (by decide) hload hmem hid, htime,
    stored_block] at hrun
  exact absurd hrun (by decide)

end Motis.Nigiri
