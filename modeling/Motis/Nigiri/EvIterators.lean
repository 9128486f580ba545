import Mathlib.Algebra.GroupWithZero.Nat
import Mathlib.Algebra.Ring.Int.Defs
import Mathlib.Data.List.Range
import Mathlib.Data.List.TakeWhile
import Motis.Lib.Merge
import Motis.Nigiri.TrafficDays

/-! The events of a departure or arrival board, read lazily from the timetable.

    The departures of a route at one of its stops are walked day by day, and in each day transport
    by transport; a slot is a day and a transport's position in the route:

        forward     (3, 0) (3, 1) (3, 2)  (4, 0) (4, 1) (4, 2)  …   to the end of the timetable
        backward    (3, 2) (3, 1)         (2, 2) (2, 1)         …   to day 0

    Backward, no slot has position 0. -/

namespace Motis.Nigiri

inductive Direction where
  | forward | backward
  deriving DecidableEq, Repr

/-- `n::rt::run`, of a static transport or of a real-time one. -/
structure Run where
  t : Option Transport := none
  stopRange : StopRange
  rt : Option RtTransportIdx := none
  deriving DecidableEq, Repr

section Static
variable {tt : Timetable} (td : TrafficDays tt) (rtt : Option RtTimetable) (evType : EventType)
  (dir : Direction)

/-- `day_` and `i_` of an iterator over the route `r` at the stop `stopIdx`. -/
structure StaticEvIterator where
  r : RouteIdx
  stopIdx : StopIdx
  day : ℤ
  i : ℕ
  deriving DecidableEq, Repr

namespace StaticEvIterator

def size (r : RouteIdx) : ℕ := (td.transports r).length

def endDay : ℤ :=
  match dir with
  | .forward => td.dateRangeTo.toNat
  | .backward => -1

/-- `route_transport_ranges_[r_][i_]`. -/
def transport (it : StaticEvIterator) : TransportIdx := (td.routeTransportRanges it.r).from_ + it.i

/-- `n::day_idx_t{day_}`. -/
def dayIdx (it : StaticEvIterator) : DayIdx := UInt16.ofInt it.day

def time (it : StaticEvIterator) : ℤ :=
  tt.minutes (it.transport td) it.dayIdx it.stopIdx evType

def get (it : StaticEvIterator) : Run where
  t := some ⟨it.transport td, it.dayIdx.toNat⟩
  stopRange := ⟨it.stopIdx, it.stopIdx + 1⟩

/-- The transport is looked up on `day_` less the day offset of its event. -/
def isActive (it : StaticEvIterator) : Bool :=
  td.isActive rtt (it.transport td)
    (it.dayIdx - td.eventDays it.r (it.transport td) it.stopIdx evType)

def finished (it : StaticEvIterator) : Bool := it.day == endDay td dir

/-- The positions from `i` on to the end of the day; backward the loop stops before position 0. -/
def positionsFrom (r : RouteIdx) (i : ℕ) : List ℕ :=
  match dir with
  | .forward => List.range' i (size td r - i)
  | .backward => (List.range' 1 i).reverse

/-- The position a day begins with. -/
def firstPosition (r : RouteIdx) : ℕ :=
  match dir with
  | .forward => 0
  | .backward => size td r - 1

def nextDay (day : ℤ) : ℤ :=
  match dir with
  | .forward => day + 1
  | .backward => day - 1

def nextPosition (i : ℕ) : ℕ :=
  match dir with
  | .forward => i + 1
  | .backward => i - 1

/-- The time lies before the start, in search direction. -/
def isBefore (time start : ℤ) : Bool :=
  match dir with
  | .forward => time < start
  | .backward => time > start

/-- The iterator may stop here: it is active and, where there is a start, not before it. -/
def stopsAt (start : Option ℤ) (it : StaticEvIterator) : Bool :=
  !(start.any fun start => isBefore dir (it.time td evType) start) && it.isActive td rtt evType

/-- The days that `day_` can still count before it overflows, or down to the end. -/
def daysLeft (day : ℤ) : ℕ :=
  match dir with
  | .forward => (2 ^ 31 - day).toNat
  | .backward => (day + 2).toNat

/-- `none`: the search for an active transport runs past the end day and has no end. -/
def seek (start : Option ℤ) (r : RouteIdx) (stopIdx : StopIdx) :
    ℕ → ℤ → ℕ → Option StaticEvIterator
  | 0, _, _ => none
  | n + 1, day, i =>
    if day = endDay td dir then some ⟨r, stopIdx, day, i⟩
    else match (positionsFrom td dir r i).find? fun i =>
        stopsAt td rtt evType dir start ⟨r, stopIdx, day, i⟩ with
      | some i => some ⟨r, stopIdx, day, i⟩
      | none => seek start r stopIdx n (nextDay dir day) (firstPosition td dir r)

def seekNext (start : Option ℤ) (it : StaticEvIterator) : Option StaticEvIterator :=
  seek td rtt evType dir start it.r it.stopIdx (daysLeft dir it.day) it.day it.i

def increment (it : StaticEvIterator) : Option StaticEvIterator :=
  seekNext td rtt evType dir none { it with i := nextPosition dir it.i }

end StaticEvIterator

/-- The state before the constructor looks for the first event. -/
def initial (r : RouteIdx) (stopIdx : StopIdx) (start : NigiriUnixtime) : StaticEvIterator :=
  ⟨r, stopIdx, (td.dayIdx start).toNat, StaticEvIterator.firstPosition td dir r⟩

/-- The constructor. -/
def staticEvIterator (r : RouteIdx) (stopIdx : StopIdx) (start : NigiriUnixtime) :
    Option StaticEvIterator :=
  (initial td dir r stopIdx start).seekNext td rtt evType dir (some start.toInt)

/-! ### The slots an iterator goes through -/

namespace StaticEvIterator
variable {td rtt evType dir}

variable (td dir) in
/-- The slots from the position `i` of `day` on, over `n` days at most. -/
def slots (r : RouteIdx) (stopIdx : StopIdx) : ℕ → ℤ → ℕ → List StaticEvIterator
  | 0, _, _ => []
  | n + 1, day, i =>
    if day = endDay td dir then []
    else (positionsFrom td dir r i).map (fun i => ⟨r, stopIdx, day, i⟩) ++
      slots r stopIdx n (nextDay dir day) (firstPosition td dir r)

variable (td dir) in
/-- The slots from one on. -/
def slotsFrom (it : StaticEvIterator) : List StaticEvIterator :=
  slots td dir it.r it.stopIdx (daysLeft dir it.day) it.day it.i

variable (td dir) in
/-- The slots behind one. -/
def rest (it : StaticEvIterator) : List StaticEvIterator :=
  slotsFrom td dir { it with i := nextPosition dir it.i }

variable (td dir) in
/-- The walk over the days comes to the end day. -/
def Ends (day : ℤ) : Prop :=
  match dir with
  | .forward => day ≤ endDay td dir
  | .backward => endDay td dir ≤ day

theorem daysLeft_nextDay {day : ℤ} {n : ℕ} (h : n + 1 = daysLeft dir day) :
    n = daysLeft dir (nextDay dir day) := by
  cases dir <;> simp only [daysLeft, nextDay] at h ⊢ <;> omega

theorem ends_nextDay {day : ℤ} (h : day ≠ endDay td dir) :
    Ends td dir (nextDay dir day) ↔ Ends td dir day := by
  cases dir <;> simp only [Ends, nextDay] at h ⊢ <;> omega

theorem not_ends_of_daysLeft {day : ℤ} (h : 0 = daysLeft dir day) : ¬ Ends td dir day := by
  have hto := td.dateRangeTo.toNat_lt
  cases dir <;> simp only [daysLeft, Ends, endDay] at h ⊢ <;> omega

/-- What follows a position in a day are the positions from the next one on. -/
theorem positionsFrom_split {r : RouteIdx} {i i' : ℕ} {pre post : List ℕ}
    (h : positionsFrom td dir r i = pre ++ i' :: post) :
    post = positionsFrom td dir r (nextPosition dir i') := by
  cases dir with
  | forward =>
    obtain ⟨k, hk, rfl, hcons⟩ := List.range'_eq_append_iff.mp h
    obtain ⟨rfl, hlt, rfl⟩ := List.range'_eq_cons_iff.mp hcons.symm
    simp only [positionsFrom, nextPosition]
    congr 1
    omega
  | backward =>
    have hrev : List.range' 1 i = post.reverse ++ i' :: pre.reverse := by
      rw [← List.reverse_reverse (List.range' 1 i), show (List.range' 1 i).reverse = _ from h]
      simp
    obtain ⟨k, hk, hpost, hcons⟩ := List.range'_eq_append_iff.mp hrev
    obtain ⟨rfl, -, -⟩ := List.range'_eq_cons_iff.mp hcons.symm
    rw [← List.reverse_reverse post, hpost, positionsFrom, nextPosition]
    congr 2
    omega

/-- A search finds the next slot to stop at, or finishes, or does not come back. -/
theorem seek_spec {start : Option ℤ} {r : RouteIdx} {stopIdx : StopIdx} {n : ℕ} {day : ℤ} {i : ℕ}
    (hn : n = daysLeft dir day) :
    (∃ pre it, slots td dir r stopIdx n day i = pre ++ it :: rest td dir it ∧
        (∀ x ∈ pre, stopsAt td rtt evType dir start x = false) ∧
        stopsAt td rtt evType dir start it = true ∧ it.finished td dir = false ∧
        (Ends td dir it.day ↔ Ends td dir day) ∧
        seek td rtt evType dir start r stopIdx n day i = some it) ∨
      (∀ x ∈ slots td dir r stopIdx n day i, stopsAt td rtt evType dir start x = false) ∧
        (Ends td dir day ∧ (∃ it, it.finished td dir = true ∧
          seek td rtt evType dir start r stopIdx n day i = some it) ∨
        ¬ Ends td dir day ∧ seek td rtt evType dir start r stopIdx n day i = none) := by
  induction n generalizing day i with
  | zero => exact .inr ⟨by simp [slots], .inr ⟨not_ends_of_daysLeft hn, rfl⟩⟩
  | succ n ih =>
    rw [seek, slots]
    rcases eq_or_ne day (endDay td dir) with hend | hend
    · simp only [if_pos hend]
      refine .inr ⟨by simp, .inl ⟨?_, _, ?_, rfl⟩⟩
      · cases dir <;> simp [Ends, hend]
      · simp [finished, hend]
    · simp only [if_neg hend]
      cases hfind : (positionsFrom td dir r i).find? fun i =>
          stopsAt td rtt evType dir start ⟨r, stopIdx, day, i⟩ with
      | some i' =>
        obtain ⟨hstop, pre, post, hsplit, hpre⟩ := List.find?_eq_some_iff_append.mp hfind
        refine .inl ⟨pre.map fun i => ⟨r, stopIdx, day, i⟩, ⟨r, stopIdx, day, i'⟩, ?_, ?_, hstop, ?_,
          Iff.rfl, rfl⟩
        · rw [rest, slotsFrom, ← hn, slots, if_neg hend, hsplit, positionsFrom_split hsplit]
          simp
        · simpa using hpre
        · simpa [finished] using hend
      | none =>
        have hskip : ∀ x ∈ (positionsFrom td dir r i).map
            (fun i => (⟨r, stopIdx, day, i⟩ : StaticEvIterator)),
            stopsAt td rtt evType dir start x = false := by
          simpa using List.find?_eq_none.mp hfind
        rcases @ih (nextDay dir day) (firstPosition td dir r) (daysLeft_nextDay hn) with
          ⟨pre, it, hslots, hpre, hrest⟩ | ⟨hnone, hrest⟩
        · obtain ⟨hstop, hfin, hends, hseek⟩ := hrest
          refine .inl ⟨_ ++ pre, it, ?_, List.forall_mem_append.mpr ⟨hskip, hpre⟩, hstop, hfin,
            hends.trans (ends_nextDay hend), hseek⟩
          rw [hslots, List.append_assoc]
        · rw [ends_nextDay hend] at hrest
          exact .inr ⟨List.forall_mem_append.mpr ⟨hskip, hnone⟩, hrest⟩

theorem seekNext_spec (start : Option ℤ) (it : StaticEvIterator) :
    (∃ pre it', slotsFrom td dir it = pre ++ it' :: rest td dir it' ∧
        (∀ x ∈ pre, stopsAt td rtt evType dir start x = false) ∧
        stopsAt td rtt evType dir start it' = true ∧ it'.finished td dir = false ∧
        (Ends td dir it'.day ↔ Ends td dir it.day) ∧
        it.seekNext td rtt evType dir start = some it') ∨
      (∀ x ∈ slotsFrom td dir it, stopsAt td rtt evType dir start x = false) ∧
        (Ends td dir it.day ∧ (∃ it', it'.finished td dir = true ∧
          it.seekNext td rtt evType dir start = some it') ∨
        ¬ Ends td dir it.day ∧ it.seekNext td rtt evType dir start = none) :=
  seek_spec rfl

end StaticEvIterator

/-! ### Cursors -/

structure RtEvIterator where
  rtt : RtTimetable
  rtT : RtTransportIdx
  stopIdx : StopIdx
  finished : Bool

namespace RtEvIterator

def time (it : RtEvIterator) : ℤ := (it.rtt.unixEventTime it.rtT it.stopIdx evType).toInt

def get (it : RtEvIterator) : Run where
  stopRange := ⟨it.stopIdx, it.stopIdx + 1⟩
  rt := some it.rtT

def increment (it : RtEvIterator) : RtEvIterator := { it with finished := true }

end RtEvIterator

/-- The constructor: an event on the wrong side of the start is finished with. -/
def rtEvIterator (rtt : RtTimetable) (rtT : RtTransportIdx) (stopIdx : StopIdx)
    (start : NigiriUnixtime) : RtEvIterator where
  rtt := rtt
  rtT := rtT
  stopIdx := stopIdx
  finished := StaticEvIterator.isBefore dir (rtt.unixEventTime rtT stopIdx evType).toInt start.toInt

inductive EvIterator where
  | static (it : StaticEvIterator)
  | rt (it : RtEvIterator)

/-- The virtual functions; an element is a run with the time of its event. -/
def evCursor : Merge.Cursor EvIterator (ℤ × Run) where
  finished
    | .static it => it.finished td dir
    | .rt it => it.finished
  get
    | .static it => (it.time td evType, it.get td)
    | .rt it => (it.time evType, it.get)
  increment
    | .static it => (it.increment td rtt evType dir).map .static
    | .rt it => some (.rt it.increment)

namespace StaticEvIterator
variable {td rtt evType dir}

theorem stopsAt_none (it : StaticEvIterator) :
    stopsAt td rtt evType dir none it = it.isActive td rtt evType := by
  simp [stopsAt]

theorem isActive_of_stopsAt {start : Option ℤ} {it : StaticEvIterator}
    (h : stopsAt td rtt evType dir start it = true) : it.isActive td rtt evType = true := by
  simp only [stopsAt, Bool.and_eq_true] at h
  exact h.2

variable (td evType) in
def event (it : StaticEvIterator) : ℤ × Run := (it.time td evType, it.get td)

/-- A static iterator goes through its slot and the active ones behind it. -/
theorem unrolls {it : StaticEvIterator} (hfin : it.finished td dir = false) :
    Merge.Unrolls (evCursor td rtt evType dir) (Ends td dir it.day) (.static it)
      ((it :: (rest td dir it).filter (isActive td rtt evType)).map (event td evType)) := by
  generalize hlen : (rest td dir it).length = len
  induction len using Nat.strong_induction_on generalizing it with
  | _ len ih =>
    have hspec := @seekNext_spec _ td rtt evType dir none { it with i := nextPosition dir it.i }
    simp only [stopsAt_none] at hspec
    rcases hspec with ⟨pre, it', hslots, hpre, hactive, hfin', hends, hseek⟩ | ⟨hnone, hrest⟩
    · replace hslots : rest td dir it = pre ++ it' :: rest td dir it' := hslots
      have hfilter : (rest td dir it).filter (isActive td rtt evType) =
          it' :: (rest td dir it').filter (isActive td rtt evType) := by
        have hpre' : pre.filter (isActive td rtt evType) = [] := by simpa using hpre
        rw [hslots, List.filter_append, hpre', List.nil_append, List.filter_cons, if_pos hactive]
      have hshorter : (rest td dir it').length < len := by
        rw [← hlen, hslots, List.length_append, List.length_cons]
        omega
      have hinc : (evCursor td rtt evType dir).increment (.static it) = some (.static it') := by
        simp [evCursor, increment, hseek]
      rw [hfilter, List.map_cons]
      exact .next hfin hinc ((propext hends) ▸ ih _ hshorter hfin' rfl)
    · have hfilter : (rest td dir it).filter (isActive td rtt evType) = [] := by
        simpa [rest] using hnone
      rw [hfilter]
      rcases hrest with ⟨hends, it', hfin', hseek⟩ | ⟨hends, hseek⟩
      · have hinc : (evCursor td rtt evType dir).increment (.static it) = some (.static it') := by
          simp [evCursor, increment, hseek]
        have hfin'' : (evCursor td rtt evType dir).finished (.static it') = true := hfin'
        exact .next hfin hinc (.finished hends hfin'')
      · have hinc : (evCursor td rtt evType dir).increment (.static it) = none := by
          simp [evCursor, increment, hseek]
        exact .stuck hends hfin hinc

variable (td rtt evType dir) in
/-- What a new iterator goes through: the first slot it may stop at, and the active ones behind. -/
def stream (start : ℤ) (it : StaticEvIterator) : List StaticEvIterator :=
  ((slotsFrom td dir it).dropWhile fun x => !stopsAt td rtt evType dir (some start) x).filter
    (isActive td rtt evType)

/-- The constructor stands on the first element of the stream, or has finished an empty one, or does
    not come back. -/
theorem unrolls_staticEvIterator (r : RouteIdx) (stopIdx : StopIdx) (start : NigiriUnixtime) :
    (∃ it, staticEvIterator td rtt evType dir r stopIdx start = some it ∧
      Merge.Unrolls (evCursor td rtt evType dir) (Ends td dir (td.dayIdx start).toNat) (.static it)
        ((stream td rtt evType dir start.toInt (initial td dir r stopIdx start)).map
          (event td evType))) ∨
      ¬ Ends td dir (td.dayIdx start).toNat ∧
        staticEvIterator td rtt evType dir r stopIdx start = none := by
  have hspec := @seekNext_spec _ td rtt evType dir (some start.toInt)
    (initial td dir r stopIdx start)
  rcases hspec with ⟨pre, it, hslots, hpre, hstop, hfin, hends, hseek⟩ | ⟨hnone, hrest⟩
  · refine .inl ⟨it, hseek, ?_⟩
    have hstream : stream td rtt evType dir start.toInt (initial td dir r stopIdx start) =
        it :: (rest td dir it).filter (isActive td rtt evType) := by
      rw [stream, hslots, List.dropWhile_append_of_pos (by simpa using hpre),
        List.dropWhile_cons_of_neg (by simpa using hstop), List.filter_cons,
        if_pos (isActive_of_stopsAt hstop)]
    rw [hstream]
    exact (propext hends) ▸ unrolls hfin
  · have hstream : stream td rtt evType dir start.toInt (initial td dir r stopIdx start) = [] := by
      rw [stream, List.dropWhile_eq_nil_iff.mpr (by simpa using hnone), List.filter_nil]
    rcases hrest with ⟨hends, it, hfin, hseek⟩ | ⟨hends, hseek⟩
    · refine .inl ⟨it, hseek, ?_⟩
      rw [hstream]
      exact .finished hends hfin
    · exact .inr ⟨hends, hseek⟩

/-! ### Which slots -/

variable (td dir) in
/-- The slots between a day and the end day; backward, position 0 is not among them. -/
def InWindow (startDay : ℤ) (it : StaticEvIterator) : Prop :=
  match dir with
  | .forward => startDay ≤ it.day ∧ it.day < endDay td dir ∧ it.i < size td it.r
  | .backward => endDay td dir < it.day ∧ it.day ≤ startDay ∧ 1 ≤ it.i ∧ it.i < size td it.r

variable (dir) in
/-- The slot comes earlier in the walk. -/
def Earlier (a b : StaticEvIterator) : Prop :=
  match dir with
  | .forward => a.day < b.day ∨ a.day = b.day ∧ a.i < b.i
  | .backward => b.day < a.day ∨ b.day = a.day ∧ b.i < a.i

theorem Earlier.asymm {a b : StaticEvIterator} (h : Earlier dir a b) : ¬ Earlier dir b a := by
  cases dir <;> simp only [Earlier] at h ⊢ <;> omega

theorem mem_positionsFrom_firstPosition {r : RouteIdx} {i : ℕ} :
    i ∈ positionsFrom td dir r (firstPosition td dir r) ↔
      i < size td r ∧ (dir = .backward → 1 ≤ i) := by
  cases dir <;> simp [positionsFrom, firstPosition]
  omega

theorem inWindow_iff {r : RouteIdx} {day : ℤ} {it : StaticEvIterator} (hr : it.r = r)
    (hends : Ends td dir day) (hday : day ≠ endDay td dir) :
    InWindow td dir day it ↔ it.day = day ∧ it.i < size td r ∧ (dir = .backward → 1 ≤ it.i) ∨
      InWindow td dir (nextDay dir day) it := by
  subst hr
  cases dir with
  | forward =>
    simp only [InWindow, Ends, nextDay, reduceCtorEq, false_imp_iff, and_true] at hends ⊢
    omega
  | backward =>
    simp only [InWindow, Ends, nextDay, true_imp_iff] at hends ⊢
    omega

theorem mem_slots {r : RouteIdx} {stopIdx : StopIdx} {n : ℕ} {day : ℤ} (hn : n = daysLeft dir day)
    (hends : Ends td dir day) (it : StaticEvIterator) :
    it ∈ slots td dir r stopIdx n day (firstPosition td dir r) ↔
      it.r = r ∧ it.stopIdx = stopIdx ∧ InWindow td dir day it := by
  induction n generalizing day with
  | zero => exact absurd hends (not_ends_of_daysLeft hn)
  | succ n ih =>
    rw [slots]
    rcases eq_or_ne day (endDay td dir) with hend | hend
    · rw [if_pos hend]
      refine iff_of_false List.not_mem_nil fun ⟨_, _, hwindow⟩ => ?_
      cases dir <;> simp only [InWindow] at hwindow <;> omega
    · rw [if_neg hend, List.mem_append, List.mem_map, ih (daysLeft_nextDay hn)
        ((ends_nextDay hend).mpr hends)]
      simp only [mem_positionsFrom_firstPosition]
      constructor
      · rintro (⟨i, hi, rfl⟩ | ⟨hr, hstop, hwindow⟩)
        · exact ⟨rfl, rfl, (inWindow_iff rfl hends hend).mpr (.inl ⟨rfl, hi⟩)⟩
        · exact ⟨hr, hstop, (inWindow_iff hr hends hend).mpr (.inr hwindow)⟩
      · rintro ⟨hr, hstop, hwindow⟩
        rcases (inWindow_iff hr hends hend).mp hwindow with ⟨hday, hi⟩ | hwindow
        · subst hr hstop hday
          exact .inl ⟨it.i, hi, rfl⟩
        · exact .inr ⟨hr, hstop, hwindow⟩

variable (dir) in
/-- A day is reached from another one. -/
def DayLe (day day' : ℤ) : Prop :=
  match dir with
  | .forward => day ≤ day'
  | .backward => day' ≤ day

theorem dayLe_of_mem_slots {r : RouteIdx} {stopIdx : StopIdx} {n : ℕ} {day : ℤ} {i : ℕ}
    {it : StaticEvIterator} (h : it ∈ slots td dir r stopIdx n day i) : DayLe dir day it.day := by
  induction n generalizing day i with
  | zero => cases h
  | succ n ih =>
    rw [slots] at h
    split at h
    · cases h
    · rcases List.mem_append.mp h with h | h
      · obtain ⟨i', -, rfl⟩ := List.mem_map.mp h
        cases dir <;> exact le_rfl
      · have hle := ih h
        cases dir <;> simp only [DayLe, nextDay] at hle ⊢ <;> omega

theorem pairwise_positionsFrom (r : RouteIdx) (stopIdx : StopIdx) (day : ℤ) (i : ℕ) :
    (positionsFrom td dir r i).Pairwise fun i i' =>
      Earlier dir ⟨r, stopIdx, day, i⟩ ⟨r, stopIdx, day, i'⟩ := by
  cases dir with
  | forward => exact (List.pairwise_lt_range' 1).imp fun hlt => .inr ⟨rfl, hlt⟩
  | backward =>
    exact List.pairwise_reverse.mpr ((List.pairwise_lt_range' 1).imp fun hlt => .inr ⟨rfl, hlt⟩)

theorem pairwise_slots (r : RouteIdx) (stopIdx : StopIdx) (n : ℕ) (day : ℤ) (i : ℕ) :
    (slots td dir r stopIdx n day i).Pairwise (Earlier dir) := by
  induction n generalizing day i with
  | zero => exact .nil
  | succ n ih =>
    rw [slots]
    split
    · exact .nil
    · refine List.pairwise_append.mpr ⟨List.pairwise_map.mpr (pairwise_positionsFrom ..), ih _ _, ?_⟩
      intro a ha b hb
      obtain ⟨i', -, rfl⟩ := List.mem_map.mp ha
      have hle := dayLe_of_mem_slots hb
      cases dir <;> simp only [DayLe, nextDay, Earlier] at hle ⊢ <;> omega

/-- In an ordered list, what is left after the first element with a property are the elements not
    before one with the property. -/
theorem mem_dropWhile_iff {α : Type} {R : α → α → Prop} (hasymm : ∀ a b, R a b → ¬ R b a)
    {p : α → Bool} {l : List α} (hl : l.Pairwise R) {x : α} :
    x ∈ l.dropWhile (!p ·) ↔ x ∈ l ∧ ∃ y ∈ l, p y = true ∧ (y = x ∨ R y x) := by
  induction l with
  | nil => simp
  | cons a l ih =>
    obtain ⟨ha, hl⟩ := List.pairwise_cons.mp hl
    cases hp : p a with
    | true =>
      rw [List.dropWhile_cons_of_neg (by simp [hp])]
      refine ⟨fun hx => ⟨hx, a, List.mem_cons_self, hp, ?_⟩, And.left⟩
      rcases List.mem_cons.mp hx with rfl | hx
      · exact .inl rfl
      · exact .inr (ha x hx)
    | false =>
      rw [List.dropWhile_cons_of_pos (by simp [hp]), ih hl]
      constructor
      · rintro ⟨hx, y, hy, hpy, hyx⟩
        exact ⟨List.mem_cons_of_mem _ hx, y, List.mem_cons_of_mem _ hy, hpy, hyx⟩
      · rintro ⟨hx, y, hy, hpy, hyx⟩
        have hy' : y ∈ l := by
          rcases List.mem_cons.mp hy with rfl | hy
          · rw [hp] at hpy; cases hpy
          · exact hy
        refine ⟨?_, y, hy', hpy, hyx⟩
        rcases List.mem_cons.mp hx with rfl | hx
        · rcases hyx with rfl | hyx
          · exact hy'
          · exact absurd hyx (hasymm _ _ (ha y hy'))
        · exact hx

variable (td rtt evType dir) in
/-- The slot is listed: it is active, and some slot not behind it is active and not before the
    start. -/
def Listed (start : NigiriUnixtime) (it : StaticEvIterator) : Prop :=
  InWindow td dir (td.dayIdx start).toNat it ∧ it.isActive td rtt evType = true ∧
    ∃ first : StaticEvIterator, first.r = it.r ∧ first.stopIdx = it.stopIdx ∧
      InWindow td dir (td.dayIdx start).toNat first ∧
      stopsAt td rtt evType dir (some start.toInt) first = true ∧
      (first = it ∨ Earlier dir first it)

theorem mem_stream {r : RouteIdx} {stopIdx : StopIdx} {start : NigiriUnixtime}
    (hends : Ends td dir (td.dayIdx start).toNat) (it : StaticEvIterator) :
    it ∈ stream td rtt evType dir start.toInt (initial td dir r stopIdx start) ↔
      it.r = r ∧ it.stopIdx = stopIdx ∧ Listed td rtt evType dir start it := by
  have hmem : ∀ x, x ∈ slotsFrom td dir (initial td dir r stopIdx start) ↔ x.r = r ∧
      x.stopIdx = stopIdx ∧ InWindow td dir (td.dayIdx start).toNat x := mem_slots rfl hends
  have hordered : (slotsFrom td dir (initial td dir r stopIdx start)).Pairwise (Earlier dir) :=
    pairwise_slots ..
  rw [stream, List.mem_filter, mem_dropWhile_iff (fun _ _ => Earlier.asymm) hordered, hmem]
  constructor
  · rintro ⟨⟨⟨hr, hstop, hwindow⟩, first, hfirst, hstops, hle⟩, hactive⟩
    obtain ⟨hr', hstop', hwindow'⟩ := (hmem first).mp hfirst
    exact ⟨hr, hstop, hwindow, hactive, first, hr'.trans hr.symm, hstop'.trans hstop.symm, hwindow',
      hstops, hle⟩
  · rintro ⟨hr, hstop, hwindow, hactive, first, hr', hstop', hwindow', hstops, hle⟩
    exact ⟨⟨⟨hr, hstop, hwindow⟩, first,
      (hmem first).mpr ⟨hr'.trans hr, hstop'.trans hstop, hwindow'⟩, hstops, hle⟩, hactive⟩

theorem pairwise_stream (r : RouteIdx) (stopIdx : StopIdx) (start : NigiriUnixtime) :
    (stream td rtt evType dir start.toInt (initial td dir r stopIdx start)).Pairwise
      (Earlier dir) :=
  ((pairwise_slots ..).sublist (List.dropWhile_sublist _)).filter _

end StaticEvIterator

end Static

end Motis.Nigiri
