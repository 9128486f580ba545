import Motis.Nigiri.GetEvents

/-! Event iterators come back.

    An iterator walks from the day of the start towards the end day, and only stands still there:

        forward    3 ▸ 4 ▸ 5 = end          backward   3 ▸ 2 ▸ 1 ▸ 0 ▸ -1 = end
                   6 ▸ 7 ▸ …   behind the end day, never there again -/

namespace Motis.Nigiri
open StaticEvIterator

section
variable {tt : Timetable} (td : TrafficDays tt) (rtt : Option RtTimetable) (evType : EventType)
  (dir : Direction) (r : RouteIdx) (stopIdx : StopIdx) (start : NigiriUnixtime)

/-- The iterator after its construction and some increments; `none` when one of these does not come
    back. -/
def incremented : ℕ → Option StaticEvIterator
  | 0 => staticEvIterator td rtt evType dir r stopIdx start
  | k + 1 => (incremented k).bind (increment td rtt evType dir)

/-- The iterator stands on an active transport or has finished, and has walked no further than from
    the first day to the end day. -/
structure Settled (day : ℤ) (it : StaticEvIterator) : Prop where
  stops : it.isActive td rtt evType = true ∨ it.finished td dir = true
  first_le : DayLe dir day it.day
  le_end : DayLe dir it.day (endDay td dir)

variable {td rtt evType dir r stopIdx start}

theorem dayLe_endDay {day : ℤ} : DayLe dir day (endDay td dir) ↔ Ends td dir day := by
  cases dir <;> rfl

theorem StaticEvIterator.DayLe.trans {a b c : ℤ} (h : DayLe dir a b) (h' : DayLe dir b c) : DayLe dir a c := by
  cases dir <;> simp only [DayLe] at h h' ⊢ <;> omega

/-- A finished search finds nothing else. -/
theorem seek_endDay (s : Option ℤ) (n i : ℕ) :
    seek td rtt evType dir s r stopIdx (n + 1) (endDay td dir) i =
      some ⟨r, stopIdx, endDay td dir, i⟩ := by
  rw [seek, if_pos rfl]

variable (td dir) in
theorem daysLeft_endDay : ∃ n, daysLeft dir (endDay td dir) = n + 1 := by
  have hto := td.dateRangeTo.toNat_lt
  refine ⟨daysLeft dir (endDay td dir) - 1, ?_⟩
  cases dir <;> simp only [daysLeft, endDay] <;> omega

/-- A finished search has come to the end day, any other stands on a slot of its walk. -/
theorem settled_of_seekNext {s : Option ℤ} {day : ℤ} {it : StaticEvIterator}
    (hday : DayLe dir day it.day) (hends : Ends td dir it.day) :
    ∃ it', it.seekNext td rtt evType dir s = some it' ∧ Settled td rtt evType dir day it' := by
  rcases seekNext_spec s it with ⟨pre, it', hslots, -, hstop, -, hends', hseek⟩ | ⟨-, hrest⟩
  · have hmem : it' ∈ slotsFrom td dir it := by
      rw [hslots]
      exact List.mem_append_right _ (List.mem_cons_self ..)
    exact ⟨it', hseek, .inl (isActive_of_stopsAt hstop), hday.trans (dayLe_of_mem_slots hmem),
      dayLe_endDay.mpr (hends'.mpr hends)⟩
  · rcases hrest with ⟨-, it', hfinished, hseek⟩ | ⟨hnever, -⟩
    · have hend : it'.day = endDay td dir := by simpa [finished] using hfinished
      refine ⟨it', hseek, .inr hfinished, ?_, ?_⟩
      · rw [hend]
        exact hday.trans (dayLe_endDay.mpr hends)
      · rw [hend]
        cases dir <;> exact le_rfl
    · exact absurd hends hnever

theorem settled_increment {day : ℤ} {it : StaticEvIterator} (h : Settled td rtt evType dir day it) :
    ∃ it', it.increment td rtt evType dir = some it' ∧ Settled td rtt evType dir day it' :=
  settled_of_seekNext h.first_le (dayLe_endDay.mp h.le_end)

theorem settled_incremented (hends : Ends td dir (td.dayIdx start).toNat) (k : ℕ) :
    ∃ it, incremented td rtt evType dir r stopIdx start k = some it ∧
      Settled td rtt evType dir (td.dayIdx start).toNat it := by
  induction k with
  | zero =>
    refine settled_of_seekNext ?_ hends
    cases dir <;> exact le_rfl
  | succ k ih =>
    obtain ⟨it, hit, hsettled⟩ := ih
    obtain ⟨it', hit', hsettled'⟩ := settled_increment hsettled
    exact ⟨it', by rw [incremented, hit, Option.bind_some, hit'], hsettled'⟩

/-- An iterator that goes through a list without an end is stuck behind it. -/
theorem stuck_of_unrolls {l : List (ℤ × Run)} {it : StaticEvIterator} {ends : Prop}
    (h : Merge.Unrolls (evCursor td rtt evType dir) ends (.static it) l) (hends : ¬ends) {k : ℕ}
    (hk : incremented td rtt evType dir r stopIdx start k = some it) :
    ∃ k, incremented td rtt evType dir r stopIdx start k = none := by
  generalize hs : EvIterator.static it = s at h
  induction h generalizing it k with
  | finished hends' => exact absurd hends' hends
  | stuck _ _ hnone =>
    subst hs
    have hstuck : it.increment td rtt evType dir = none := Option.map_eq_none_iff.mp hnone
    exact ⟨k + 1, by rw [incremented, hk, Option.bind_some, hstuck]⟩
  | next _ hnext _ ih =>
    subst hs
    obtain ⟨it', hit', rfl⟩ := Option.map_eq_some_iff.mp hnext
    exact ih (k := k + 1) (by rw [incremented, hk, Option.bind_some, hit']) rfl

variable (rtt evType r stopIdx) in
theorem stuck_of_not_ends (hends : ¬Ends td dir (td.dayIdx start).toNat) :
    ∃ k, incremented td rtt evType dir r stopIdx start k = none := by
  rcases unrolls_staticEvIterator r stopIdx start with ⟨it, hit, hunrolls⟩ | ⟨-, hnone⟩
  · exact stuck_of_unrolls hunrolls hends (k := 0) hit
  · exact ⟨0, hnone⟩

theorem ends_dayIdx : Ends td dir (td.dayIdx start).toNat ↔
    dir = .backward ∨ td.dayIdx start ≤ td.dateRangeTo := by
  cases dir with
  | forward =>
    simp only [Ends, endDay, reduceCtorEq, false_or, UInt16.le_iff_toNat_le]
    omega
  | backward =>
    simp only [Ends, endDay, true_or, iff_true]
    omega

/-- The constructor and all increments come back, after no more days than lie between the first day
    and the end day, exactly when the search goes backward or does not start behind the end. -/
theorem terminates_iff :
    (∀ k, ∃ it, incremented td rtt evType dir r stopIdx start k = some it ∧
      Settled td rtt evType dir (td.dayIdx start).toNat it) ↔
      dir = .backward ∨ td.dayIdx start ≤ td.dateRangeTo := by
  rw [← ends_dayIdx]
  constructor
  · intro h
    by_contra hends
    obtain ⟨k, hk⟩ := stuck_of_not_ends rtt evType r stopIdx hends
    obtain ⟨it, hit, -⟩ := h k
    rw [hk] at hit
    cases hit
  · exact settled_incremented

end

/-- The timetable ends on day 10, the search starts on day 11. -/
theorem not_terminates_nightBus : ¬∀ (tt : Timetable) (td : TrafficDays tt)
    (rtt : Option RtTimetable) (evType : EventType) (dir : Direction) (r : RouteIdx)
    (stopIdx : StopIdx) (start : NigiriUnixtime) (k : ℕ),
    ∃ it, incremented td rtt evType dir r stopIdx start k = some it ∧
      Settled td rtt evType dir (td.dayIdx start).toNat it := by
  intro h
  have hlate : ¬Ends nightBusDays .forward (nightBusDays.dayIdx (11 * 1440)).toNat := by
    rw [ends_dayIdx]
    decide
  obtain ⟨k, hk⟩ := stuck_of_not_ends none .dep 0 0 hlate
  obtain ⟨it, hit, -⟩ := h nightBus nightBusDays none .dep .forward 0 0 (11 * 1440) k
  rw [hk] at hit
  cases hit

end Motis.Nigiri
