import Motis.Core.Journey.Journey
import Motis.Lib.Counters
import Motis.Lib.Fallible

/-! `check_journey`: what is wrong with a journey.

    The checker reports transports whose range is empty, sections without a transport, arrivals
    before the departure at the stop before, and stops that are left before they are reached. For
    the sections it counts the transports in a table, by the ranges that the journey gives: a range
    that ends behind the last stop leaves the table.

        stops        0     1     2     3
        sections        0     1     2          (the table)
        [1, 3]                +     +
        [2, 5]                      +     !  -/

namespace Motis
open Journey

/-- The largest `int`. -/
def intMax : ℕ := 2147483647

/-- `broken`, and what `report_error` was called with and was given to write. -/
structure Checker where
  broken : Bool := false
  reports : List (Bool × String) := []
  deriving DecidableEq, Repr

namespace Checker

def raiseError (c : Checker) (text : String) : Checker :=
  { broken := true, reports := c.reports ++ [(!c.broken, text)] }

def raiseIf (c : Checker) (error : Bool) (text : String) : Checker :=
  if error then c.raiseError text else c

def checkRange (c : Checker) (t : Transport × ℕ) : Checker :=
  c.raiseIf (t.1.to_ ≤ t.1.from_)
    ("  Transport " ++ toString t.2 ++ " broken: " ++ toString t.1.from_ ++ " -> " ++
      toString t.1.to_ ++ "\n")

def checkSegment (segmentTransports : List ℕ) (c : Checker) (i : ℕ) : Checker :=
  c.raiseIf (segmentTransports.getD i 0 < 1)
    ("  No transport for segment between stops " ++ toString i ++ " -> " ++ toString (i + 1) ++
      "\n")

def checkArrival (stops : List Stop) (c : Checker) (i : ℕ) : Checker :=
  c.raiseIf ((stops.getD i {}).arrival.timestamp < (stops.getD (i - 1) {}).departure.timestamp)
    ("  Stops broken: " ++ toString (i - 1) ++ "/" ++ toString i ++
      ": Arrival before departure" ++ "\n")

def checkStop (c : Checker) (stop : Stop) : Checker :=
  c.raiseIf
    (stop.arrival.valid && stop.departure.valid &&
      stop.departure.timestamp < stop.arrival.timestamp)
    ("  Stop broken: " ++ stop.name ++ ": Departure before arrival" ++ "\n")

end Checker

/-- The values of `s` in the loop over the sections of a transport. -/
def sectionsOf (t : Transport) : List ℕ := List.range' t.from_ (t.to_ - t.from_)

def countSections (segmentTransports : List ℕ) (t : Transport) :
    Except Counters.Error (List ℕ) :=
  (sectionsOf t).foldlM (Counters.increment intMax) segmentTransports

/-- The loop over the transports: the checker and the table. -/
def checkTransports (transports : List Transport) (c : Checker) (segmentTransports : List ℕ) :
    Except Counters.Error (Checker × List ℕ) :=
  transports.zipIdx.foldlM
    (fun s t => do
      let segmentTransports ← countSections s.2 t.1
      pure (s.1.checkRange t, segmentTransports))
    (c, segmentTransports)

/-- `check_journey`, up to the loops over the stops. -/
def checkSections (j : Journey) : Except Counters.Error Checker :=
  if j.stops.length ≥ 2 then do
    let s ← checkTransports j.transports {} (List.replicate (j.stops.length - 1) 0)
    pure ((List.range (j.stops.length - 1)).foldl (Checker.checkSegment s.2) s.1)
  else if j.stops.length == 1 then
    pure (({} : Checker).raiseError ("  Connection only has one stop" ++ "\n"))
  else pure {}

def checkTimes (stops : List Stop) (c : Checker) : Checker :=
  stops.foldl Checker.checkStop
    ((List.range' 1 (stops.length - 1)).foldl (Checker.checkArrival stops) c)

/-- `check_journey`: the verdict and the reports. -/
def checkJourney (j : Journey) : Except Counters.Error (Bool × List (Bool × String)) := do
  let c ← checkSections j
  let c := checkTimes j.stops c
  pure (!c.broken, c.reports)

/-- What the checker is for. -/
structure WellFormed (j : Journey) : Prop where
  notSingle : j.stops.length ≠ 1
  ranges : 2 ≤ j.stops.length → ∀ t ∈ j.transports, t.from_ < t.to_
  covered : ∀ s, s + 1 < j.stops.length → ∃ t ∈ j.transports, t.from_ ≤ s ∧ s < t.to_
  arrivals : ∀ i a b, j.stops[i]? = some a → j.stops[i + 1]? = some b →
    a.departure.timestamp ≤ b.arrival.timestamp
  departures : ∀ stop ∈ j.stops, stop.arrival.valid → stop.departure.valid →
    stop.arrival.timestamp ≤ stop.departure.timestamp

/-- The table has an entry for every section of the transports, and room to count them. -/
structure Tabulated (j : Journey) : Prop where
  inside : ∀ t ∈ j.transports, t.from_ < t.to_ → t.to_ < j.stops.length
  room : ∀ s, j.transports.countP (fun t => t.from_ ≤ s && s < t.to_) ≤ intMax

/-! ### The reports -/

namespace Checker

variable {α : Type}

theorem broken_raiseIf (c : Checker) (error : Bool) (text : String) :
    (c.raiseIf error text).broken = (c.broken || error) := by
  cases error
  · exact (Bool.or_false _).symm
  · exact (Bool.or_true _).symm

theorem broken_checkRange (c : Checker) (t : Transport × ℕ) :
    (c.checkRange t).broken = (c.broken || decide (t.1.to_ ≤ t.1.from_)) := broken_raiseIf ..

theorem broken_checkSegment (table : List ℕ) (c : Checker) (i : ℕ) :
    (checkSegment table c i).broken = (c.broken || decide (table.getD i 0 < 1)) :=
  broken_raiseIf ..

theorem broken_checkArrival (stops : List Stop) (c : Checker) (i : ℕ) :
    (checkArrival stops c i).broken = (c.broken || decide
      ((stops.getD i {}).arrival.timestamp < (stops.getD (i - 1) {}).departure.timestamp)) :=
  broken_raiseIf ..

theorem broken_checkStop (c : Checker) (stop : Stop) :
    (c.checkStop stop).broken = (c.broken || (stop.arrival.valid && stop.departure.valid &&
      stop.departure.timestamp < stop.arrival.timestamp)) :=
  broken_raiseIf ..

/-- A loop whose step raises an error for some elements. -/
theorem broken_foldl {f : Checker → α → Checker} {error : α → Bool}
    (hf : ∀ c a, (f c a).broken = (c.broken || error a)) (l : List α) (c : Checker) :
    (l.foldl f c).broken = (c.broken || l.any error) := by
  induction l generalizing c with
  | nil => exact (Bool.or_false _).symm
  | cons a l ih => rw [List.foldl_cons, ih, hf, List.any_cons, Bool.or_assoc]

/-- The checker has found something if and only if it has reported it, and only its first report is
    announced as the first. -/
structure Reported (c : Checker) : Prop where
  broken : c.broken = true ↔ c.reports ≠ []
  first : ∀ i : ℕ, ∀ r, c.reports[i]? = some r → (r.1 = true ↔ i = 0)

theorem Reported.raiseIf {c : Checker} (h : c.Reported) (error : Bool) (text : String) :
    (c.raiseIf error text).Reported := by
  cases error with
  | false => exact h
  | true =>
    refine ⟨by simp [Checker.raiseIf, Checker.raiseError], fun i r hi => ?_⟩
    rw [Checker.raiseIf, if_pos rfl, Checker.raiseError] at hi
    rcases Nat.lt_or_ge i c.reports.length with hlt | hge
    · rw [List.getElem?_append_left hlt] at hi
      exact h.first i r hi
    · rw [List.getElem?_append_right hge, List.getElem?_singleton] at hi
      split at hi
      · obtain rfl := Option.some.inj hi
        -- the new report is the first one if there was none
        have hbroken : (!c.broken) = true ↔ c.reports = [] := by
          rw [Bool.not_eq_true', ← Bool.not_eq_true, h.broken, not_not]
        rw [hbroken, ← List.length_eq_zero_iff]
        omega
      · cases hi

theorem Reported.foldl {f : Checker → α → Checker}
    (hf : ∀ c a, c.Reported → (f c a).Reported) (l : List α) {c : Checker} (h : c.Reported) :
    (l.foldl f c).Reported := by
  induction l generalizing c with
  | nil => exact h
  | cons a l ih => exact ih (hf c a h)

end Checker

/-! ### The table -/

theorem checkTransports_eq (transports : List Transport) (c : Checker) (table : List ℕ) :
    checkTransports transports c table =
      ((transports.flatMap sectionsOf).foldlM (Counters.increment intMax) table).map
        fun table' => (transports.zipIdx.foldl Checker.checkRange c, table') := by
  rw [checkTransports, Fallible.foldlM_flatMap]
  have hpair := Fallible.foldlM_prod (f := Checker.checkRange) (g := countSections)
    (h := Prod.fst) (b := c) (c := table) (l := transports.zipIdx)
  rw [List.zipIdx_map_fst] at hpair
  exact hpair

/-- The count of a section is the number of the transports that cover it. -/
theorem count_sections (transports : List Transport) (s : ℕ) :
    (transports.flatMap sectionsOf).count s =
      transports.countP (fun t => t.from_ ≤ s && s < t.to_) := by
  induction transports with
  | nil => rfl
  | cons t transports ih =>
    rw [List.flatMap_cons, List.count_append, ih, List.countP_cons, sectionsOf,
      List.count_range_1', Nat.add_comm]
    congr 1
    simp only [Bool.and_eq_true, decide_eq_true_eq]
    exact if_congr (by omega) rfl rfl

theorem mem_sectionsOf {t : Transport} {s : ℕ} : s ∈ sectionsOf t ↔ t.from_ ≤ s ∧ s < t.to_ := by
  rw [sectionsOf, List.mem_range'_1]
  omega

theorem getElem?_replicate_zero {n s c : ℕ} :
    (List.replicate n 0)[s]? = some c ↔ s < n ∧ c = 0 := by
  rw [List.getElem?_replicate]
  by_cases hs : s < n
  · simp [hs, eq_comm]
  · simp [hs]

variable {j : Journey}

/-- The table has room for the transports of the journey. -/
theorem room_iff (hlen : 2 ≤ j.stops.length) :
    Counters.Room intMax (List.replicate (j.stops.length - 1) 0)
      (j.transports.flatMap sectionsOf) ↔ Tabulated j := by
  constructor
  · intro h
    -- a section of a transport has an entry, and its count is at most the limit
    have hentry : ∀ t ∈ j.transports, ∀ s, t.from_ ≤ s → s < t.to_ → s < j.stops.length - 1 ∧
        j.transports.countP (fun t => t.from_ ≤ s && s < t.to_) ≤ intMax := by
      intro t ht s hfrom hto
      obtain ⟨c, hc, hle⟩ :=
        h s (List.mem_flatMap.mpr ⟨t, ht, mem_sectionsOf.mpr ⟨hfrom, hto⟩⟩)
      obtain ⟨hs, rfl⟩ := getElem?_replicate_zero.mp hc
      rw [Nat.zero_add, count_sections] at hle
      exact ⟨hs, hle⟩
    refine ⟨fun t ht hlt => ?_, fun s => ?_⟩
    · have hlast := (hentry t ht (t.to_ - 1) (by omega) (by omega)).1
      omega
    · by_cases hcovered : ∃ t ∈ j.transports, (t.from_ ≤ s && s < t.to_) = true
      · obtain ⟨t, ht, hs⟩ := hcovered
        simp only [Bool.and_eq_true, decide_eq_true_eq] at hs
        exact (hentry t ht s hs.1 hs.2).2
      · have hzero : j.transports.countP (fun t => t.from_ ≤ s && s < t.to_) = 0 :=
          List.countP_eq_zero.mpr fun t ht hs => hcovered ⟨t, ht, hs⟩
        rw [hzero]
        exact Nat.zero_le _
  · intro h s hs
    obtain ⟨t, ht, hs⟩ := List.mem_flatMap.mp hs
    obtain ⟨hfrom, hto⟩ := mem_sectionsOf.mp hs
    have hinside := h.inside t ht (Nat.lt_of_le_of_lt hfrom hto)
    refine ⟨0, getElem?_replicate_zero.mpr ⟨by omega, rfl⟩, ?_⟩
    rw [Nat.zero_add, count_sections]
    exact h.room s

/-! ### The verdict -/

/-- A section is counted if and only if some transport covers it. -/
theorem uncovered_iff {s : ℕ} (hs : s < j.stops.length - 1) :
    (Counters.add (List.replicate (j.stops.length - 1) 0)
      (j.transports.flatMap sectionsOf)).getD s 0 < 1 ↔
        ¬∃ t ∈ j.transports, t.from_ ≤ s ∧ s < t.to_ := by
  rw [List.getD_eq_getElem?_getD, Counters.getElem?_add,
    getElem?_replicate_zero.mpr ⟨hs, rfl⟩, Option.map_some, Option.getD_some, Nat.zero_add,
    Nat.lt_one_iff, count_sections, List.countP_eq_zero]
  simp

theorem arrivals_iff (stops : List Stop) :
    (List.range' 1 (stops.length - 1)).any (fun i =>
      (stops.getD i {}).arrival.timestamp < (stops.getD (i - 1) {}).departure.timestamp) = false ↔
    ∀ i a b, stops[i]? = some a → stops[i + 1]? = some b →
      a.departure.timestamp ≤ b.arrival.timestamp := by
  rw [List.any_eq_false]
  constructor
  · intro h i a b ha hb
    have hlt := (List.getElem?_eq_some_iff.mp hb).1
    have hi := h (i + 1) (List.mem_range'_1.mpr ⟨by omega, by omega⟩)
    rw [List.getD_eq_getElem?_getD, List.getD_eq_getElem?_getD, Nat.add_sub_cancel, ha, hb] at hi
    exact Int64.not_lt.mp (by simpa using hi)
  · intro h i hi
    obtain ⟨hpos, hlt⟩ := List.mem_range'_1.mp hi
    obtain ⟨i, rfl⟩ : ∃ k, i = k + 1 := ⟨i - 1, by omega⟩
    have hle := h i _ _ (List.getElem?_eq_getElem (by omega)) (List.getElem?_eq_getElem (by omega))
    rw [List.getD_eq_getElem?_getD, List.getD_eq_getElem?_getD, Nat.add_sub_cancel,
      List.getElem?_eq_getElem (by omega), List.getElem?_eq_getElem (by omega)]
    simpa using Int64.not_lt.mpr hle

theorem departures_iff (stops : List Stop) :
    stops.any (fun stop => stop.arrival.valid && stop.departure.valid &&
      stop.departure.timestamp < stop.arrival.timestamp) = false ↔
    ∀ stop ∈ stops, stop.arrival.valid → stop.departure.valid →
      stop.arrival.timestamp ≤ stop.departure.timestamp := by
  simp only [List.any_eq_false, Bool.and_eq_true, decide_eq_true_eq, not_and, Int64.not_lt,
    and_imp]

/-- The loops over the stops find what is wrong with the times. -/
theorem broken_checkTimes (c : Checker) (stops : List Stop) :
    (checkTimes stops c).broken = false ↔ c.broken = false ∧
      (∀ i a b, stops[i]? = some a → stops[i + 1]? = some b →
        a.departure.timestamp ≤ b.arrival.timestamp) ∧
      ∀ stop ∈ stops, stop.arrival.valid → stop.departure.valid →
        stop.arrival.timestamp ≤ stop.departure.timestamp := by
  rw [checkTimes, Checker.broken_foldl Checker.broken_checkStop,
    Checker.broken_foldl (Checker.broken_checkArrival stops), Bool.or_eq_false_iff,
    Bool.or_eq_false_iff, arrivals_iff, departures_iff, and_assoc]

/-- What the loops over the transports and the sections find. -/
structure SectionsWellFormed (j : Journey) : Prop where
  notSingle : j.stops.length ≠ 1
  ranges : 2 ≤ j.stops.length → ∀ t ∈ j.transports, t.from_ < t.to_
  covered : ∀ s, s + 1 < j.stops.length → ∃ t ∈ j.transports, t.from_ ≤ s ∧ s < t.to_

/-- With a table that is large enough the sections are checked. -/
theorem checkSections_ok (h : 2 ≤ j.stops.length → Tabulated j) :
    ∃ c, checkSections j = .ok c ∧ (c.broken = false ↔ SectionsWellFormed j) := by
  rw [checkSections]
  by_cases hlen : j.stops.length ≥ 2
  · rw [if_pos hlen, checkTransports_eq,
      Counters.foldlM_increment_ok.mpr ⟨(room_iff hlen).mpr (h hlen), rfl⟩]
    refine ⟨_, rfl, ?_⟩
    rw [Checker.broken_foldl (Checker.broken_checkSegment _),
      Checker.broken_foldl Checker.broken_checkRange, Bool.false_or, Bool.or_eq_false_iff,
      List.any_eq_false, List.any_eq_false]
    constructor
    · rintro ⟨hranges, hcovered⟩
      refine ⟨by omega, fun _ t ht => ?_, fun s hs => ?_⟩
      · obtain ⟨i, hi⟩ := List.mem_iff_getElem?.mp ht
        have hnot := hranges (t, i) (List.mem_zipIdx_iff_getElem?.mpr hi)
        simpa using hnot
      · have hs : s < j.stops.length - 1 := by omega
        have hnot := hcovered s (List.mem_range.mpr hs)
        rw [decide_eq_true_eq, uncovered_iff hs, not_not] at hnot
        exact hnot
    · intro hw
      refine ⟨fun t ht => ?_, fun s hs => ?_⟩
      · have hlt := hw.ranges hlen t.1 (List.mem_of_getElem? (List.mem_zipIdx_iff_getElem?.mp ht))
        simpa using hlt
      · have hs := List.mem_range.mp hs
        rw [decide_eq_true_eq, uncovered_iff hs, not_not]
        exact hw.covered s (by omega)
  · rw [if_neg hlen]
    by_cases hone : j.stops.length = 1
    · rw [if_pos (by simpa using hone)]
      exact ⟨_, rfl, nofun, fun hw => absurd hone hw.notSingle⟩
    · rw [if_neg (by simpa using hone)]
      exact ⟨_, rfl, fun _ => ⟨hone, fun h => absurd h hlen, fun s hs => by omega⟩, fun _ => rfl⟩

/-- The sections can only be checked with such a table. -/
theorem tabulated_of_checkSections {c : Checker} (h : checkSections j = .ok c)
    (hlen : 2 ≤ j.stops.length) : Tabulated j := by
  rw [checkSections, if_pos hlen, checkTransports_eq] at h
  obtain ⟨s, hs, -⟩ := Fallible.bind_ok h
  cases hcount : (j.transports.flatMap sectionsOf).foldlM (Counters.increment intMax)
      (List.replicate (j.stops.length - 1) 0) with
  | error e => rw [hcount] at hs; cases hs
  | ok table => exact (room_iff hlen).mp (Counters.foldlM_increment_ok.mp hcount).1

theorem wellFormed_iff : WellFormed j ↔ SectionsWellFormed j ∧
    (∀ i a b, j.stops[i]? = some a → j.stops[i + 1]? = some b →
      a.departure.timestamp ≤ b.arrival.timestamp) ∧
    ∀ stop ∈ j.stops, stop.arrival.valid → stop.departure.valid →
      stop.arrival.timestamp ≤ stop.departure.timestamp :=
  ⟨fun h => ⟨⟨h.notSingle, h.ranges, h.covered⟩, h.arrivals, h.departures⟩,
    fun ⟨hs, ha, hd⟩ => ⟨hs.notSingle, hs.ranges, hs.covered, ha, hd⟩⟩

/-- The checker comes to the right verdict if and only if there are no sections to check or the
    transports stay inside the table. -/
theorem checked_iff_tabulated (j : Journey) :
    (∃ verdict reports, checkJourney j = .ok (verdict, reports) ∧
      (verdict = true ↔ WellFormed j)) ↔
    (2 ≤ j.stops.length → Tabulated j) := by
  constructor
  · rintro ⟨verdict, reports, hok, -⟩ hlen
    obtain ⟨c, hc, -⟩ := Fallible.bind_ok hok
    exact tabulated_of_checkSections hc hlen
  · intro h
    obtain ⟨c, hc, hbroken⟩ := checkSections_ok h
    refine ⟨!(checkTimes j.stops c).broken, (checkTimes j.stops c).reports, ?_, ?_⟩
    · rw [checkJourney, hc]
      rfl
    · rw [Bool.not_eq_true', broken_checkTimes, hbroken, wellFormed_iff]

/-- A transport that ends behind the last stop. -/
def pastTheEnd : Journey where
  stops := [{ name := "A" }, { name := "B" }]
  transports := [{ from_ := 0, to_ := 2 }]

theorem unchecked_pastTheEnd :
    ¬∃ verdict reports, checkJourney pastTheEnd = .ok (verdict, reports) ∧
      (verdict = true ↔ WellFormed pastTheEnd) := by
  rintro ⟨verdict, reports, hok, -⟩
  have herror : checkJourney pastTheEnd = .error .outOfRange := rfl
  rw [herror] at hok
  cases hok

/-! ### The reports of a journey -/

theorem checkTransports_reported {transports : List Transport} {c c' : Checker}
    {table table' : List ℕ} (h : checkTransports transports c table = .ok (c', table'))
    (hc : c.Reported) : c'.Reported := by
  rw [checkTransports_eq] at h
  cases hcount : (transports.flatMap sectionsOf).foldlM (Counters.increment intMax) table with
  | error e => rw [hcount] at h; cases h
  | ok t =>
    rw [hcount] at h
    obtain ⟨rfl, -⟩ := Prod.mk.inj (Except.ok.inj h)
    exact hc.foldl (fun _ _ hc => hc.raiseIf ..) _

/-- The verdict is negative if and only if something is reported, and only the first report is
    announced as the first. -/
theorem checkJourney_reported {verdict : Bool} {reports : List (Bool × String)}
    (h : checkJourney j = .ok (verdict, reports)) :
    (verdict = false ↔ reports ≠ []) ∧
      ∀ i : ℕ, ∀ r, reports[i]? = some r → (r.1 = true ↔ i = 0) := by
  obtain ⟨c, hc, hresult⟩ := Fallible.bind_ok h
  obtain ⟨rfl, rfl⟩ := Prod.mk.inj (Except.ok.inj hresult)
  have hnone : ({} : Checker).Reported := ⟨⟨nofun, fun h => absurd rfl h⟩, nofun⟩
  have hsections : c.Reported := by
    rw [checkSections] at hc
    split at hc
    · obtain ⟨s, hs, hsegments⟩ := Fallible.bind_ok hc
      rw [← Except.ok.inj hsegments]
      exact (checkTransports_reported hs hnone).foldl (fun _ _ hc => hc.raiseIf ..) _
    · split at hc
      · rw [← Except.ok.inj hc]
        exact hnone.raiseIf true _
      · rw [← Except.ok.inj hc]
        exact hnone
  have htimes : (checkTimes j.stops c).Reported :=
    (hsections.foldl (fun _ _ hc => hc.raiseIf ..) _).foldl (fun _ _ hc => hc.raiseIf ..) _
  exact ⟨by rw [Bool.not_eq_false', htimes.broken], htimes.first⟩

end Motis
