import Motis.Lib.JsString
import Motis.Ui.JourneyMoves

/-! The sections of a connection in the app.

    The app reads the same marks of the stops as the web interface, from the first stop to the last
    one, and has a walk in front and one at the end when the outer stops are not marked:

        stops     0 ─── 1 ─── 2 ─── 3 ─── 4 ─── 5
        exit            ▲                 ▲
        enter     ▲     ▲
        sections  ├─────┤
                        ├─────────────────┤
        walk                              ├─────┤ -/

namespace Motis.Android.SectionsExtractor
open Ui.JourneyMoves

abbrev Connection := Ui.JourneyMoves.Connection

structure Section where
  from_ : ℤ
  to_ : ℤ
  deriving DecidableEq, Repr

def isEnter (con : Connection) (i : ℕ) : Bool := con.stops[i]?.any (·.enter)

def isExit (con : Connection) (i : ℕ) : Bool := con.stops[i]?.any (·.exit)

/-- The last stop, with an error in the log, when there is no exit. -/
def getNextExit (con : Connection) (stopIndex : ℕ) : ℕ :=
  ((List.range' (stopIndex + 1) (con.stops.length - (stopIndex + 1))).find?
    (isExit con)).getD (con.stops.length - 1)

def leadingSection (con : Connection) : Option Section :=
  if 1 < con.stops.length ∧ ¬isEnter con 0 then some ⟨0, 1⟩ else none

def trailingSection (con : Connection) : Option Section :=
  if 1 < con.stops.length ∧ ¬isExit con (con.stops.length - 1) then
    some ⟨con.stops.length - 2, con.stops.length - 1⟩
  else none

def getSections (con : Connection) (includeIntermodalWalks : Bool) : List Section :=
  (if includeIntermodalWalks then (leadingSection con).toList else []) ++
    ((List.range con.stops.length).filter (isEnter con)).map (fun (i : ℕ) =>
      ⟨i, getNextExit con i⟩) ++
    if includeIntermodalWalks then (trailingSection con).toList else []

/-! ### Moves -/

def inSection (s : Section) : Move → Bool
  | .transport t => t.range.from ≤ s.to_ && t.range.to > s.from_
  | .walk w => w.range.from == s.from_ && w.range.to == s.to_

theorem inSection_transport {s : Section} {t : TransportInfo} :
    inSection s (.transport t) = true ↔ t.range.from ≤ s.to_ ∧ s.from_ < t.range.to := by
  simp [inSection]

theorem inSection_walk {s : Section} {w : WalkInfo} :
    inSection s (.walk w) = true ↔ w.range.from = s.from_ ∧ w.range.to = s.to_ := by
  simp [inSection]

def getMove (c : Connection) (s : Section) : Option Move :=
  c.details.transports.find? (inSection s)

def getTransport : Option Move → Option TransportInfo
  | some (.transport t) => some t
  | _ => none

def getWalk : Option Move → Option WalkInfo
  | some (.walk w) => some w
  | _ => none

def getLeadingWalk (c : Connection) : Option WalkInfo := do
  let s ← leadingSection c
  getWalk (getMove c s)

def getTrailingWalk (c : Connection) : Option WalkInfo := do
  let s ← trailingSection c
  getWalk (getMove c s)

structure DisplayTransport where
  clasz : ℤ
  longName : String
  shortName : String
  deriving DecidableEq, Repr

namespace DisplayTransport

def WALK_CLASS : ℤ := 13

def getShortName (t : TransportInfo) : String :=
  if JsString.length t.name < 7 ∨ t.lineId = "" then t.name else ""

def useLineId (t : TransportInfo) : Bool := t.class = 5 || t.class = 6

def ofTransport (t : TransportInfo) : DisplayTransport :=
  if useLineId t then ⟨t.class, t.lineId, t.lineId⟩ else ⟨t.class, t.name, getShortName t⟩

def ofWalk (_ : WalkInfo) : DisplayTransport := ⟨WALK_CLASS, "", ""⟩

end DisplayTransport

open DisplayTransport

def displayMove (m : Option Move) : Option DisplayTransport :=
  ((getTransport m).map ofTransport).or ((getWalk m).map ofWalk)

def getTransports (con : Connection) (includeIntermodalWalks : Bool) : List DisplayTransport :=
  (getSections con includeIntermodalWalks).filterMap fun s => displayMove (getMove con s)

/-! ### Sections are rides -/

section Rides
variable {con : Connection} {rides : List Ride}

def rideSection (r : Ride) : Section := ⟨r.first, r.last⟩

/-- Of two intervals in a list of one after the other, one lies before the other. -/
theorem apart_of_ordered {α β : Type} [LE β] {first last : α → β} {l : List α}
    (h : l.Pairwise fun a b => last a ≤ first b) {a b : α} (ha : a ∈ l) (hb : b ∈ l) :
    a = b ∨ last a ≤ first b ∨ last b ≤ first a := by
  refine List.Pairwise.forall_of_forall_of_flip (R := fun a b =>
    a = b ∨ last a ≤ first b ∨ last b ≤ first a) (fun _ _ => .inl rfl) ?_ ?_ ha hb
  · exact h.imp fun hle => .inr (.inl hle)
  · exact h.imp fun hle => .inr (.inr hle)

/-- The exit after an enter is the one of the ride. -/
theorem getNextExit_eq (h : Marks rides con.stops) {r : Ride} (hr : r ∈ rides) :
    getNextExit con r.first = r.last := by
  have hforward := h.forward r hr
  have hlast := last_lt_length h hr
  have hfind : (List.range' (r.first + 1) (con.stops.length - (r.first + 1))).find?
      (isExit con) = some r.last := by
    rw [List.find?_range'_eq_some]
    refine ⟨(h.exit r.last).mpr ⟨r, hr, rfl⟩, ?_, fun j hj hlt => ?_⟩
    · rw [List.mem_range'_1]
      omega
    · rw [Bool.not_eq_true', Bool.eq_false_iff]
      intro hexit
      obtain ⟨r', hr', rfl⟩ := (h.exit j).mp hexit
      rcases apart_of_ordered h.ordered hr hr' with rfl | hle | hle
      · exact absurd hlt (lt_irrefl _)
      · have := h.forward r' hr'
        omega
      · omega
  rw [getNextExit, hfind, Option.getD_some]

theorem enters_eq (h : Marks rides con.stops) :
    (List.range con.stops.length).filter (isEnter con) = rides.map (·.first) := by
  have hrides : (rides.map (·.first)).Pairwise (· < ·) := by
    rw [List.pairwise_map]
    refine h.ordered.imp_of_mem fun hr _ hle => ?_
    have := h.forward _ hr
    omega
  have henters : ((List.range con.stops.length).filter (isEnter con)).Pairwise (· < ·) :=
    List.pairwise_lt_range.filter _
  refine List.Perm.eq_of_pairwise (fun a b _ _ hab hba => absurd hab hba.asymm) henters hrides ?_
  rw [List.perm_ext_iff_of_nodup (henters.imp fun hlt => hlt.ne) (hrides.imp fun hlt => hlt.ne)]
  intro i
  rw [List.mem_filter, List.mem_range, List.mem_map]
  constructor
  · rintro ⟨-, henter⟩
    exact (h.enter i).mp henter
  · rintro ⟨r, hr, rfl⟩
    have := h.forward r hr
    have := last_lt_length h hr
    exact ⟨by omega, (h.enter r.first).mpr ⟨r, hr, rfl⟩⟩

theorem getSections_false (h : Marks rides con.stops) :
    getSections con false = rides.map rideSection := by
  simp only [getSections, enters_eq h, List.map_map, Bool.false_eq_true, if_false,
    List.nil_append, List.append_nil]
  refine List.map_congr_left fun r hr => ?_
  rw [Function.comp_apply, getNextExit_eq h hr, rideSection]

end Rides

/-! ### Moves of the sections -/

def moveRange : Move → Ui.Range
  | .transport t => t.range
  | .walk w => w.range

/-- The moves lie in the stops, one after the other, and each ride begins with a transport. -/
structure Laid (rides : List Ride) (con : Connection) : Prop where
  forward : ∀ m ∈ con.details.transports, 0 ≤ (moveRange m).from ∧
    (moveRange m).from < (moveRange m).to ∧ (moveRange m).to < con.stops.length
  ordered : con.details.transports.Pairwise fun m m' => (moveRange m).to ≤ (moveRange m').from
  boards : ∀ r ∈ rides, ∃ t, Move.transport t ∈ con.details.transports ∧
    t.range.from = r.first ∧ t.range.to ≤ r.last

section Moves
variable {con : Connection} {rides : List Ride}

theorem find?_of_ordered {p : Move → Bool} {l : List Move} {m : Move}
    (hordered : l.Pairwise fun m m' => (moveRange m).to ≤ (moveRange m').from) (hm : m ∈ l)
    (hp : p m = true) (hbefore : ∀ m' ∈ l, (moveRange m').to ≤ (moveRange m).from → ¬p m' = true) :
    l.find? p = some m := by
  induction l with
  | nil => cases hm
  | cons a l ih =>
    obtain ⟨hhead, htail⟩ := List.pairwise_cons.mp hordered
    rcases List.mem_cons.mp hm with rfl | hmem
    · exact List.find?_cons_of_pos hp
    · rw [List.find?_cons_of_neg (hbefore a List.mem_cons_self (hhead m hmem))]
      exact ih htail hmem fun m' hm' => hbefore m' (List.mem_cons_of_mem _ hm')

/-- A section of a ride has the first transport of the ride. -/
theorem getMove_ride (h : Marks rides con.stops) (hlaid : Laid rides con) {r : Ride}
    (hr : r ∈ rides) : ∃ t ∈ transportsForRange con r.first r.last,
      getMove con (rideSection r) = some (.transport t) ∧
        ∀ t' ∈ transportsForRange con r.first r.last, t.range.from ≤ t'.range.from := by
  obtain ⟨t, ht, hfirst, hlast⟩ := hlaid.boards r hr
  have hforward := h.forward r hr
  have htforward := (hlaid.forward _ ht).2.1
  simp only [moveRange] at htforward
  have hmem : ∀ {t'}, t' ∈ transportsForRange con r.first r.last ↔
      Move.transport t' ∈ con.details.transports ∧
        t'.range.from < r.last ∧ (r.first : ℤ) < t'.range.to := by
    intro t'
    simp only [transportsForRange, List.mem_mergeSort, List.mem_filterMap]
    constructor
    · rintro ⟨m, hm, hsome⟩
      cases m with
      | transport ti =>
        simp only [Range.overlaps, Option.ite_none_right_eq_some, Bool.and_eq_true,
          decide_eq_true_eq, Option.some.injEq] at hsome
        obtain ⟨hoverlaps, rfl⟩ := hsome
        exact ⟨hm, hoverlaps⟩
      | walk w => cases hsome
    · rintro ⟨hm, hoverlaps⟩
      exact ⟨_, hm, by simp [Range.overlaps, hoverlaps]⟩
  refine ⟨t, hmem.mpr ⟨ht, by omega, by omega⟩, ?_, fun t' ht' => ?_⟩
  · refine find?_of_ordered hlaid.ordered ht ?_ fun m hm hbefore => ?_
    · rw [inSection_transport]
      simp only [rideSection]
      omega
    · have hmforward := (hlaid.forward m hm).2.1
      cases m with
      | transport t' =>
        rw [inSection_transport]
        simp only [rideSection]
        simp only [moveRange] at hbefore
        omega
      | walk w =>
        rw [inSection_walk]
        simp only [rideSection]
        simp only [moveRange] at hbefore hmforward
        omega
  · obtain ⟨ht', -, hto⟩ := hmem.mp ht'
    rcases apart_of_ordered hlaid.ordered ht ht' with heq | hle | hle
    · rw [Move.transport.inj heq]
    · simp only [moveRange] at hle
      omega
    · simp only [moveRange] at hle
      omega

/-- A section that a walk covers has that walk, when it covers nothing else. -/
theorem getMove_gap (hlaid : Laid rides con) {w : WalkInfo}
    (hw : Move.walk w ∈ con.details.transports) {k : ℤ} (hfrom : w.range.from ≤ k)
    (hto : k < w.range.to)
    (hend : w.range.from < k → ∀ m ∈ con.details.transports, (moveRange m).from ≠ k + 1) :
    getMove con ⟨k, k + 1⟩ =
      if w.range.from = k ∧ w.range.to = k + 1 then some (.walk w) else none := by
  split_ifs with hexact
  · refine find?_of_ordered hlaid.ordered hw (inSection_walk.mpr hexact) fun m hm hbefore => ?_
    cases m with
    | transport t =>
      rw [inSection_transport]
      dsimp only
      simp only [moveRange] at hbefore
      omega
    | walk w' =>
      rw [inSection_walk]
      dsimp only
      have hforward := (hlaid.forward _ hm).2.1
      simp only [moveRange] at hbefore hforward
      omega
  · rw [getMove, List.find?_eq_none]
    intro m hm
    have hstart := fun hlt => hend hlt m hm
    have hforward := (hlaid.forward m hm).2.1
    have hapart := apart_of_ordered hlaid.ordered hw hm
    cases m with
    | transport t =>
      rw [inSection_transport]
      dsimp only
      simp only [moveRange, reduceCtorEq, false_or] at hapart hstart hforward
      omega
    | walk w' =>
      rw [inSection_walk]
      dsimp only
      rcases hapart with heq | hapart
      · rwa [← Move.walk.inj heq]
      · simp only [moveRange] at hapart hforward
        omega

/-! ### Walks in front and at the end -/

theorem mem_walkInfos {w : WalkInfo} :
    w ∈ walkInfos con ↔ Move.walk w ∈ con.details.transports := by
  simp only [walkInfos, List.mem_filterMap]
  constructor
  · rintro ⟨m, hm, hsome⟩
    cases m with
    | transport t => cases hsome
    | walk w' => rwa [← Option.some.inj hsome]
  · exact fun hw => ⟨_, hw, rfl⟩

/-- A section outside of the rides has a walk. -/
theorem exists_walk (hgaps : CoverGaps rides con) {k : ℕ} (hk : k + 1 < con.stops.length)
    (hgap : ¬∃ r ∈ rides, r.first ≤ k ∧ k < r.last) :
    ∃ w, Move.walk w ∈ con.details.transports ∧ w.range.from ≤ k ∧ k < w.range.to := by
  have hcount := hgaps.once k
  rw [if_pos ⟨hk, hgap⟩] at hcount
  obtain ⟨w, hw, hcovers⟩ := List.countP_pos_iff.mp (by omega :
    0 < (walkInfos con).countP fun w => Range.covers w.range k)
  exact ⟨w, mem_walkInfos.mp hw, Range.covers_iff.mp hcovers⟩

theorem not_ride (hgaps : CoverGaps rides con) {k : ℕ} {w : WalkInfo}
    (hw : Move.walk w ∈ con.details.transports) (hfrom : w.range.from ≤ k)
    (hto : k < w.range.to) {r : Ride} (hr : r ∈ rides) : ¬(r.first ≤ k ∧ k < r.last) := by
  intro hride
  have hcount := hgaps.once k
  rw [if_neg fun h => h.2 ⟨r, hr, hride⟩, List.countP_eq_zero] at hcount
  exact hcount w (mem_walkInfos.mpr hw) (Range.covers_iff.mpr ⟨hfrom, hto⟩)

theorem mem_checkMove {filter : WalkInfo → Bool} {w : WalkInfo} :
    (w ∈ con.details.transports.filterMap fun
      | .walk walk => if filter walk then some walk else none
      | .transport _ => none) ↔ Move.walk w ∈ con.details.transports ∧ filter w = true := by
  simp only [List.mem_filterMap]
  constructor
  · rintro ⟨m, hm, hsome⟩
    cases m with
    | transport t => cases hsome
    | walk w' =>
      obtain ⟨hfilter, rfl⟩ := Option.ite_none_right_eq_some.mp hsome |>.imp id Option.some.inj
      exact ⟨hm, hfilter⟩
  · rintro ⟨hw, hfilter⟩
    exact ⟨_, hw, if_pos hfilter⟩

theorem getWalk_eq_none {filter : WalkInfo → Bool}
    (h : ∀ w, Move.walk w ∈ con.details.transports → ¬filter w = true) :
    Ui.JourneyMoves.getWalk con filter = none := by
  rw [Ui.JourneyMoves.getWalk, List.head?_eq_none_iff, List.eq_nil_iff_forall_not_mem]
  exact fun w hw => h w (mem_checkMove.mp hw).1 (mem_checkMove.mp hw).2

theorem getWalk_eq_some {filter : WalkInfo → Bool} {w : WalkInfo}
    (hw : Move.walk w ∈ con.details.transports) (hfilter : filter w = true)
    (honly : ∀ w', Move.walk w' ∈ con.details.transports → filter w' = true → w' = w) :
    Ui.JourneyMoves.getWalk con filter = some w := by
  rw [Ui.JourneyMoves.getWalk]
  cases hhead : (con.details.transports.filterMap _).head? with
  | none =>
    exact absurd (List.head?_eq_none_iff.mp hhead)
      (List.ne_nil_of_mem (mem_checkMove.mpr ⟨hw, hfilter⟩))
  | some w' =>
    obtain ⟨hw', hfilter'⟩ := mem_checkMove.mp (List.mem_of_mem_head? hhead)
    rw [honly w' hw' hfilter']

/-- Two walks that cover the same section are one. -/
theorem walk_unique (hlaid : Laid rides con) {w w' : WalkInfo}
    (hw : Move.walk w ∈ con.details.transports) (hw' : Move.walk w' ∈ con.details.transports)
    {k : ℤ} (hcovers : w.range.from ≤ k ∧ k < w.range.to)
    (hcovers' : w'.range.from ≤ k ∧ k < w'.range.to) : w' = w := by
  rcases apart_of_ordered hlaid.ordered hw hw' with heq | hapart
  · exact (Move.walk.inj heq).symm
  · simp only [moveRange] at hapart
    omega

/-- In front the app has the walk of the web interface, when it ends at the next stop. -/
theorem leading_spec (h : Marks rides con.stops) (hgaps : CoverGaps rides con)
    (hlaid : Laid rides con) :
    (leadingSection con = none ∧ getWalkFrom con 0 = none) ∨
      ∃ w, leadingSection con = some ⟨0, 1⟩ ∧ getWalkFrom con 0 = some w ∧
        getMove con ⟨0, 1⟩ = if w.range.to = 1 then some (.walk w) else none := by
  by_cases hsection : 1 < con.stops.length ∧ ¬isEnter con 0
  · obtain ⟨hlength, henter⟩ := hsection
    right
    have hgap : ¬∃ r ∈ rides, r.first ≤ 0 ∧ 0 < r.last := by
      rintro ⟨r, hr, hle, -⟩
      exact henter ((h.enter 0).mpr ⟨r, hr, Nat.le_zero.mp hle⟩)
    obtain ⟨w, hw, hfrom, hto⟩ := exists_walk hgaps hlength hgap
    have hforward := hlaid.forward _ hw
    simp only [moveRange] at hforward
    have hzero : w.range.from = 0 := by omega
    refine ⟨w, if_pos ⟨hlength, henter⟩, ?_, ?_⟩
    · refine getWalk_eq_some hw (decide_eq_true hzero) fun w' hw' hfrom' => ?_
      have hforward' := (hlaid.forward _ hw').2.1
      have hfrom' := of_decide_eq_true hfrom'
      simp only [moveRange] at hforward'
      exact walk_unique hlaid hw hw' ⟨hzero.le, hto⟩ ⟨hfrom'.le, by omega⟩
    · have hmove := getMove_gap (k := 0) hlaid hw hzero.le hto fun hlt => by omega
      simpa [hzero] using hmove
  · left
    refine ⟨if_neg hsection, getWalk_eq_none fun w hw hfrom => hsection ?_⟩
    have hforward := hlaid.forward _ hw
    have hfrom := of_decide_eq_true hfrom
    simp only [moveRange] at hforward
    refine ⟨by omega, fun henter => ?_⟩
    obtain ⟨r, hr, hfirst⟩ := (h.enter 0).mp henter
    have hride := h.forward r hr
    exact not_ride (k := 0) hgaps hw (by omega) (by omega) hr ⟨hfirst.le, by omega⟩

/-- At the end the app has the walk of the web interface, when it begins at the stop before. -/
theorem trailing_spec (h : Marks rides con.stops) (hgaps : CoverGaps rides con)
    (hlaid : Laid rides con) :
    (trailingSection con = none ∧ getWalkTo con (con.stops.length - 1) = none) ∨
      ∃ w, trailingSection con = some ⟨con.stops.length - 2, con.stops.length - 1⟩ ∧
        getWalkTo con (con.stops.length - 1) = some w ∧
          getMove con ⟨con.stops.length - 2, con.stops.length - 1⟩ =
            if w.range.from = con.stops.length - 2 then some (.walk w) else none := by
  by_cases hsection : 1 < con.stops.length ∧ ¬isExit con (con.stops.length - 1)
  · obtain ⟨hlength, hexit⟩ := hsection
    right
    have hgap : ¬∃ r ∈ rides, r.first ≤ con.stops.length - 2 ∧ con.stops.length - 2 < r.last := by
      rintro ⟨r, hr, -, hlt⟩
      have := last_lt_length h hr
      exact hexit ((h.exit _).mpr ⟨r, hr, by omega⟩)
    obtain ⟨w, hw, hfrom, hto⟩ := exists_walk hgaps (by omega) hgap
    have hforward := hlaid.forward _ hw
    simp only [moveRange] at hforward
    have hlast : w.range.to = con.stops.length - 1 := by omega
    refine ⟨w, if_pos ⟨hlength, hexit⟩, ?_, ?_⟩
    · refine getWalk_eq_some hw (decide_eq_true hlast) fun w' hw' hto' => ?_
      have hforward' := (hlaid.forward _ hw').2.1
      have hto' := of_decide_eq_true hto'
      simp only [moveRange] at hforward'
      exact walk_unique hlaid hw hw' ⟨hfrom, hto⟩ ⟨by omega, by omega⟩
    · have hmove := getMove_gap (k := (con.stops.length : ℤ) - 2) hlaid hw (by omega) (by omega)
        fun _ m hm => by
          have hforward' := hlaid.forward m hm
          omega
      have hnext : (con.stops.length : ℤ) - 2 + 1 = con.stops.length - 1 := by omega
      rw [hnext] at hmove
      simpa [hlast] using hmove
  · left
    refine ⟨if_neg hsection, getWalk_eq_none fun w hw hto => hsection ?_⟩
    have hforward := hlaid.forward _ hw
    have hto := of_decide_eq_true hto
    simp only [moveRange] at hforward
    refine ⟨by omega, fun hexit => ?_⟩
    obtain ⟨r, hr, hlast⟩ := (h.exit _).mp hexit
    have hride := h.forward r hr
    exact not_ride (k := con.stops.length - 2) hgaps hw (by omega) (by omega) hr
      ⟨by omega, by omega⟩

end Moves

/-! ### The two clients -/

def trainSection (train : Train) : Section := ⟨train.fromIdx, train.toIdx⟩

/-- The app shows what the web interface shows: its sections are the trains, each with the first of
    the transports, and its walks are the outer ones, unless they pass a stop. -/
structure SameParts (con : Connection) : Prop where
  sections : getSections con false = (groupTrains con).map trainSection
  transports : ∀ train ∈ groupTrains con, ∃ t ∈ train.transports,
    getMove con (trainSection train) = some (.transport t) ∧
      ∀ t' ∈ train.transports, t.range.from ≤ t'.range.from
  leading : getLeadingWalk con = (getWalkFrom con 0).filter (·.range.to = 1)
  trailing : getTrailingWalk con =
    (getWalkTo con (con.stops.length - 1)).filter (·.range.from = (con.stops.length : ℤ) - 2)
  shown : getTransports con true = (getLeadingWalk con).toList.map ofWalk ++
    (groupTrains con).filterMap (fun train => displayMove (getMove con (trainSection train))) ++
      (getTrailingWalk con).toList.map ofWalk

section Clients
variable {con : Connection} {rides : List Ride}

theorem getSections_true : getSections con true =
    (leadingSection con).toList ++ getSections con false ++ (trailingSection con).toList := by
  simp [getSections]

/-- CORRECT: when the stops are marked with rides, the walks cover what is between them and the
    moves are in order, the app shows the trains and the outer walks of the web interface. -/
theorem sameParts (h : Marks rides con.stops) (hgaps : CoverGaps rides con)
    (hlaid : Laid rides con) : SameParts con := by
  have htrains := groupTrains_eq h
  have hsections : getSections con false = (groupTrains con).map trainSection := by
    rw [getSections_false h, htrains, List.map_map]
    rfl
  have hleading := leading_spec h hgaps hlaid
  have htrailing := trailing_spec h hgaps hlaid
  refine ⟨hsections, fun train htrain => ?_, ?_, ?_, ?_⟩
  · rw [htrains] at htrain
    obtain ⟨r, hr, rfl⟩ := List.mem_map.mp htrain
    exact getMove_ride h hlaid hr
  · rcases hleading with ⟨hnone, hweb⟩ | ⟨w, hsome, hweb, hmove⟩
    · rw [getLeadingWalk, hnone, hweb]
      rfl
    · rw [getLeadingWalk, hsome, hweb, Option.bind_eq_bind, Option.bind_some, hmove]
      by_cases hend : w.range.to = 1 <;> simp [hend, getWalk, Option.filter]
  · rcases htrailing with ⟨hnone, hweb⟩ | ⟨w, hsome, hweb, hmove⟩
    · rw [getTrailingWalk, hnone, hweb]
      rfl
    · rw [getTrailingWalk, hsome, hweb, Option.bind_eq_bind, Option.bind_some, hmove]
      by_cases hend : w.range.from = con.stops.length - 2 <;> simp [hend, getWalk, Option.filter]
  · rw [getTransports, getSections_true, List.filterMap_append, List.filterMap_append, hsections,
      List.filterMap_map]
    congr 1
    · congr 1
      rcases hleading with ⟨hnone, -⟩ | ⟨w, hsome, -, hmove⟩
      · simp [getLeadingWalk, hnone]
      · by_cases hend : w.range.to = 1 <;>
          simp [getLeadingWalk, hsome, hmove, hend, displayMove, getWalk, getTransport]
    · rcases htrailing with ⟨hnone, -⟩ | ⟨w, hsome, -, hmove⟩
      · simp [getTrailingWalk, hnone]
      · by_cases hend : w.range.from = con.stops.length - 2 <;>
          simp [getTrailingWalk, hsome, hmove, hend, displayMove, getWalk, getTransport]

end Clients

/-- A walk to the station, and a ride of two trains with a stop to stay at. -/
def walkAndRide : Connection where
  stops := [(false, false), (false, true), (false, false), (true, false)].map
    fun (exit, enter) =>
      ⟨⟨"s", "S", 0, 0⟩, ⟨none, none, "", .schedule⟩, ⟨none, none, "", .schedule⟩, exit, enter⟩
  details := ⟨[.walk ⟨⟨0, 1⟩, 0, 0, 0, ""⟩, .transport ⟨⟨1, 2⟩, 5, "12", "RE 12", "", "", ""⟩,
    .transport ⟨⟨2, 3⟩, 5, "14", "RE 14", "", "", ""⟩], []⟩
  problems := []

theorem sameParts_walkAndRide : SameParts walkAndRide := by
  have hmarks : Marks [⟨1, 3⟩] walkAndRide.stops := by
    refine ⟨by decide, by decide, ?_, ?_⟩
    · rintro (_ | _ | _ | _ | i)
      all_goals simp [walkAndRide]
    · rintro (_ | _ | _ | _ | i)
      all_goals simp [walkAndRide]
  have hgaps : CoverGaps [⟨1, 3⟩] walkAndRide := by
    refine ⟨by decide, ?_⟩
    rintro (_ | _ | _ | k)
    · decide
    · decide
    · decide
    · have hout : ¬ ((k : ℤ) + 1 + 1 + 1 < 1) := by omega
      simp [walkAndRide, walkInfos, Range.covers, hout]
  refine sameParts hmarks hgaps ⟨by decide, by decide, fun r hr => ?_⟩
  rw [List.mem_singleton.mp hr]
  exact ⟨⟨⟨1, 2⟩, 5, "12", "RE 12", "", "", ""⟩, by decide⟩

example : getTransports walkAndRide true = [⟨13, "", ""⟩, ⟨5, "12", "12"⟩] := by decide

end Motis.Android.SectionsExtractor
