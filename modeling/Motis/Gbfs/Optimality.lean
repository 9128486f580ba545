import Mathlib.Order.Bounds.Basic
import Motis.Gbfs.Candidates

/-! The best journeys against the shortest feasible ones.

    A combination is feasible when the street routers know all its ways and the limits hold. The
    candidates of the loops are the feasible combinations and those with a way that nobody knows, and
    the backward loops have other totals and guards of their own. -/

namespace Motis.Gbfs
open Best

/-! ### Feasible combinations -/

def JourneyInfo.legs : JourneyInfo → ℕ
  | .s firstWalk ride secondWalk _ _ _ => firstWalk + ride + secondWalk
  | .b walk ride _ _ => walk + ride

def JourneyInfo.total (c : JourneyInfo) : ℕ := bikeReadyTime + c.legs

section Feasible

variable {provider : Provider} (q : Query provider)

inductive FeasibleFwd (t : ForwardTimes) (p : ℕ) : JourneyInfo → Prop
  | b {b walk ride : ℕ} : b < q.b.length → t.xToB b = some walk → t.bToP b p = some ride →
      ceilMinutes walk ≤ q.maxFootDuration → ceilMinutes ride ≤ q.maxBikeDuration →
      FeasibleFwd t p (.b (ceilMinutes walk) (ceilMinutes ride) b p)
  | s {sx sp firstWalk ride secondWalk : ℕ} : sx < q.sx.length → sp < q.sp.length →
      t.xToSx sx = some firstWalk → t.sxToSp sx sp = some ride → t.spToP sp p = some secondWalk →
      ceilMinutes firstWalk + ceilMinutes secondWalk ≤ q.maxFootDuration →
      ceilMinutes ride ≤ q.maxBikeDuration →
      FeasibleFwd t p
        (.s (ceilMinutes firstWalk) (ceilMinutes ride) (ceilMinutes secondWalk) sx sp p)

inductive FeasibleBwd (t : BackwardTimes) (p : ℕ) : JourneyInfo → Prop
  | b {b walk ride : ℕ} : b < q.b.length → t.pToB p b = some walk → t.bToX b = some ride →
      ceilMinutes walk ≤ q.maxFootDuration → ceilMinutes ride ≤ q.maxBikeDuration →
      FeasibleBwd t p (.b (ceilMinutes walk) (ceilMinutes ride) b p)
  | s {sx sp firstWalk ride secondWalk : ℕ} : sx < q.sx.length → sp < q.sp.length →
      bikesAvailable q.sp sp ≠ 0 →
      t.pToSp p sp = some firstWalk → t.spToSx sp sx = some ride → t.sxToX sx = some secondWalk →
      ceilMinutes firstWalk + ceilMinutes secondWalk ≤ q.maxFootDuration →
      ceilMinutes ride ≤ q.maxBikeDuration →
      FeasibleBwd t p
        (.s (ceilMinutes firstWalk) (ceilMinutes ride) (ceilMinutes secondWalk) sx sp p)

/-- A way, if there is one, takes a number of minutes that a `duration` holds. -/
def Fits (way : Option ℕ) : Prop := ∀ s, way = some s → ceilMinutes s < 2 ^ 16

structure FitsFwd (t : ForwardTimes) : Prop where
  xToB : ∀ b < q.b.length, Fits (t.xToB b)
  bToP : ∀ b < q.b.length, ∀ p < q.targets, Fits (t.bToP b p)
  xToSx : ∀ sx < q.sx.length, Fits (t.xToSx sx)
  sxToSp : ∀ sx < q.sx.length, ∀ sp < q.sp.length, Fits (t.sxToSp sx sp)
  spToP : ∀ sp < q.sp.length, ∀ p < q.targets, Fits (t.spToP sp p)

structure FitsBwd (t : BackwardTimes) : Prop where
  pToB : ∀ p < q.p.length, ∀ b < q.b.length, Fits (t.pToB p b)
  bToX : ∀ b < q.b.length, Fits (t.bToX b)
  pToSp : ∀ p < q.p.length, ∀ sp < q.sp.length, Fits (t.pToSp p sp)
  spToSx : ∀ sp < q.sp.length, ∀ sx < q.sx.length, Fits (t.spToSx sp sx)
  sxToX : ∀ sx < q.sx.length, Fits (t.sxToX sx)

/-- The total is that of a shortest feasible combination. -/
structure Shortest (feasible : Set JourneyInfo) (j : Journey) : Prop where
  valid_iff : j.info ≠ none ↔ feasible.Nonempty
  isLeast : j.info ≠ none → IsLeast (JourneyInfo.total '' feasible) j.totalDuration

/-- The journey is a shortest feasible combination. -/
structure Optimal (feasible : Set JourneyInfo) (j : Journey) : Prop extends Shortest feasible j where
  attained : ∀ c, j.info = some c → c ∈ feasible ∧ c.total = j.totalDuration

end Feasible

section Optimality

variable {provider : Provider} {undefined : Cost → UInt16} {q : Query provider}

theorem toDuration_tableCost {way : Option ℕ} {s : ℕ} (hway : way = some s) (hfits : Fits way) :
    toDuration undefined (tableCost way) = ceilMinutes s := by
  have hlt := hfits s hway
  rw [hway, tableCost, toDuration, if_pos hlt]

theorem toDuration_oneToManyCost {way : Option ℕ} {s : ℕ} (hway : way = some s) (hfits : Fits way) :
    toDuration undefined (oneToManyCost way) = ceilMinutes s := by
  have hlt := hfits s hway
  rw [hway, oneToManyCost, toDuration, if_pos hlt]

theorem totalFwd_eq (c : JourneyInfo) : totalFwd c = c.total := by
  cases c <;> simp only [totalFwd, JourneyInfo.total, JourneyInfo.legs] <;> omega

/-! ### Forward -/

theorem mem_candidates {rounds : List (ℕ → JourneyInfo)} {f : ℕ → JourneyInfo} {p : ℕ}
    {c : JourneyInfo} (hf : f ∈ rounds) (hc : f p = c) (hwithin : WithinLimits q c) :
    c ∈ candidates q rounds p :=
  List.mem_filter.mpr ⟨List.mem_map.mpr ⟨f, hf, hc⟩, decide_eq_true hwithin⟩

/-- Every feasible combination is a candidate. -/
theorem mem_candidatesFwd {t : ForwardTimes} (hfits : FitsFwd q t) {p : ℕ} (hp : p < q.targets)
    {c : JourneyInfo} (h : FeasibleFwd q t p c) : c ∈ candidatesFwd undefined q t p := by
  cases h with
  | @b b walk ride hb hwalk hride hfoot hbike =>
    have hround : fwdB undefined t b ∈ roundsFwd undefined q t :=
      List.mem_append_left _ (List.mem_map_of_mem (List.mem_range.mpr hb))
    refine mem_candidates hround ?_ ⟨hfoot, hbike⟩
    rw [fwdB, toDuration_oneToManyCost hwalk (hfits.xToB b hb),
      toDuration_tableCost hride (hfits.bToP b hb p hp)]
  | @s sx sp firstWalk ride secondWalk hsx hsp hfirst hride hsecond hfoot hbike =>
    have hround : fwdS undefined t sx sp ∈ roundsFwd undefined q t :=
      List.mem_append_right _ (List.mem_flatMap.mpr
        ⟨sx, List.mem_range.mpr hsx, List.mem_map_of_mem (List.mem_range.mpr hsp)⟩)
    refine mem_candidates hround ?_ ⟨by omega, hbike, by omega, hfoot⟩
    rw [fwdS, toDuration_oneToManyCost hfirst (hfits.xToSx sx hsx),
      toDuration_tableCost hride (hfits.sxToSp sx hsx sp hsp),
      toDuration_tableCost hsecond (hfits.spToP sp hsp p hp)]

/-- The best of a list with all feasible combinations. -/
theorem optimal_ofBest_iff {feasible : Set JourneyInfo} {l : List JourneyInfo}
    (hmem : ∀ c ∈ feasible, c ∈ l) :
    Optimal feasible (ofBest (best JourneyInfo.total 65535 l)) ↔
      (feasible.Nonempty → ∃ c ∈ feasible, c.total < 65535) ∧
        Beaten JourneyInfo.total 65535 (· ∈ feasible) l := by
  constructor
  · intro h
    refine ⟨fun hfeasible => ?_, best_good_iff.mp fun c hc => (h.attained c hc).1⟩
    have hvalid := h.valid_iff.mpr hfeasible
    rcases best_spec JourneyInfo.total 65535 l with ⟨hbest, -⟩ | ⟨c, hbest, hc⟩
    · rw [hbest] at hvalid
      exact absurd rfl hvalid
    · exact ⟨c, (h.attained c (by rw [hbest]; rfl)).1, hc.lt_limit⟩
  · rintro ⟨hlimit, hbeaten⟩
    have hgood := best_good_iff.mpr hbeaten
    rcases best_spec JourneyInfo.total 65535 l with ⟨hbest, hall⟩ | ⟨c, hbest, hc⟩
    · -- nothing is below the limit, so nothing is feasible
      have hnone : ¬feasible.Nonempty := by
        intro hfeasible
        obtain ⟨c, hc, hlt⟩ := hlimit hfeasible
        exact absurd hlt (not_lt.mpr (hall c (hmem c hc)))
      rw [hbest]
      exact ⟨⟨iff_of_false (fun h => h rfl) hnone, fun h => absurd rfl h⟩, fun c hc => by cases hc⟩
    · have hfeasible : c ∈ feasible := hgood c (by rw [hbest])
      rw [hbest]
      refine ⟨⟨iff_of_true (Option.some_ne_none c) ⟨c, hfeasible⟩, fun _ => ⟨⟨c, hfeasible, rfl⟩, ?_⟩⟩,
        fun c' hc' => ?_⟩
      · rintro _ ⟨a, ha, rfl⟩
        exact hc.le (hmem a ha)
      · obtain rfl := Option.some.inj hc'
        exact ⟨hfeasible, rfl⟩

/-- The best journey of a target is a shortest feasible one, exactly when some feasible one stays
    below the greatest total and every other candidate is beaten by a feasible one. -/
theorem optimalFwd_iff {t : ForwardTimes} (hfits : FitsFwd q t) {p : ℕ} (hp : p < q.targets) :
    (∃ j, (bestFwd undefined q t)[p]? = some j ∧ Optimal {c | FeasibleFwd q t p c} j) ↔
      ((∃ c, FeasibleFwd q t p c) → ∃ c, FeasibleFwd q t p c ∧ c.total < 65535) ∧
        Beaten JourneyInfo.total 65535 (FeasibleFwd q t p) (candidatesFwd undefined q t p) := by
  have htotal : totalFwd = JourneyInfo.total := funext totalFwd_eq
  have hmem : ∀ c ∈ {c | FeasibleFwd q t p c}, c ∈ candidatesFwd undefined q t p :=
    fun c hc => mem_candidatesFwd hfits hp hc
  rw [getElem?_bestFwd t hp, htotal]
  constructor
  · rintro ⟨j, hj, hoptimal⟩
    obtain rfl := Option.some.inj hj
    exact (optimal_ofBest_iff hmem).mp hoptimal
  · intro h
    exact ⟨_, rfl, (optimal_ofBest_iff hmem).mpr h⟩

/-- A vehicle that is parked two minutes from x and five minutes from a stop. -/
def oneVehicle : Provider := ⟨"bike", [], ["lastenrad"], List.nodup_nil⟩

def rental : Query oneVehicle := ⟨15, 20, [⟨0, Nat.zero_lt_one⟩], [], [], ["8000068"], 0⟩

def ridden (ride : Option ℕ) : ForwardTimes :=
  ⟨fun _ => some 100, fun _ _ => ride, fun _ => none, fun _ _ => none, fun _ _ => none⟩

theorem fits_some {s : ℕ} (h : ceilMinutes s < 2 ^ 16) : Fits (some s) := by
  rintro _ ⟨rfl⟩
  exact h

theorem fits_none : Fits none := nofun

theorem fits_ridden {ride : Option ℕ} (h : Fits ride) : FitsFwd rental (ridden ride) where
  xToB _ _ := fits_some (by decide)
  bToP _ _ _ _ := h
  xToSx _ _ := fits_none
  sxToSp _ _ _ _ := fits_none
  spToP _ _ _ _ := fits_none

theorem optimalFwd_iff_ridden :
    (∃ j, (bestFwd (fun _ => 0) rental (ridden (some 290)))[0]? = some j ∧
        Optimal {c | FeasibleFwd rental (ridden (some 290)) 0 c} j) ↔
      ((∃ c, FeasibleFwd rental (ridden (some 290)) 0 c) →
        ∃ c, FeasibleFwd rental (ridden (some 290)) 0 c ∧ c.total < 65535) ∧
      Best.Beaten JourneyInfo.total 65535 (FeasibleFwd rental (ridden (some 290)) 0)
        (candidatesFwd (fun _ => 0) rental (ridden (some 290)) 0) :=
  optimalFwd_iff (fits_ridden (fits_some (by decide))) (by decide)

/-- There is no way from the vehicle to the stop: the search takes it in no time. -/
theorem not_optimalFwd_noRide : ¬∀ (provider : Provider) (undefined : Cost → UInt16)
    (q : Query provider) (t : ForwardTimes) (p : ℕ), FitsFwd q t → p < q.targets →
    ∃ j, (bestFwd undefined q t)[p]? = some j ∧ Optimal {c | FeasibleFwd q t p c} j := by
  intro h
  obtain ⟨j, hj, hoptimal⟩ := h oneVehicle (fun _ => 0) rental (ridden none) 0
    (fits_ridden fits_none) (by decide)
  have hbest : (bestFwd (fun _ => 0) rental (ridden none))[0]? = some ⟨5, some (.b 2 0 0 0)⟩ := by
    decide
  obtain rfl := Option.some.inj (hbest.symm.trans hj)
  obtain ⟨c, hc⟩ := hoptimal.valid_iff.mp (Option.some_ne_none _)
  cases hc with
  | b _ _ hride => cases hride
  | s hsx => cases hsx

/-! ### Backward -/

theorem mem_candidatesBwd {t : BackwardTimes} (hfits : FitsBwd q t) {p : ℕ} (hp : p < q.p.length)
    (hb : q.b ≠ []) {c : JourneyInfo} (h : FeasibleBwd q t p c) :
    c ∈ candidatesBwd undefined q t p := by
  cases h with
  | @b b walk ride hb hwalk hride hfoot hbike =>
    have hround : bwdB undefined t b ∈ roundsBwd undefined q t :=
      List.mem_append_left _ (List.mem_map_of_mem (List.mem_range.mpr hb))
    refine mem_candidates hround ?_ ⟨hfoot, hbike⟩
    rw [bwdB, toDuration_tableCost hwalk (hfits.pToB p hp b hb),
      toDuration_oneToManyCost hride (hfits.bToX b hb)]
  | @s sx sp firstWalk ride secondWalk hsx hsp hbikes hfirst hride hsecond hfoot hbike =>
    have hstation : sp ∈ stationsBwd q := by
      rw [stationsBwd, if_neg hb]
      exact List.mem_filter.mpr ⟨List.mem_range.mpr hsp, decide_eq_true hbikes⟩
    have hround : bwdS undefined t sx sp ∈ roundsBwd undefined q t :=
      List.mem_append_right _ (List.mem_flatMap.mpr
        ⟨sx, List.mem_range.mpr hsx, List.mem_map_of_mem hstation⟩)
    refine mem_candidates hround ?_ ⟨by omega, hbike, by omega, hfoot⟩
    rw [bwdS, toDuration_tableCost hfirst (hfits.pToSp p hp sp hsp),
      toDuration_tableCost hride (hfits.spToSx sp hsp sx hsx),
      toDuration_oneToManyCost hsecond (hfits.sxToX sx hsx)]

theorem candidatesBwd_nil (t : BackwardTimes) (p : ℕ) (hb : q.b = []) :
    candidatesBwd undefined q t p = [] := by
  rw [candidatesBwd, roundsBwd, stationsBwd, if_pos hb, flatMap_map_nil, hb]
  rfl

theorem totalBwd_le (c : JourneyInfo) : totalBwd c ≤ c.total := by
  cases c <;> simp only [totalBwd, JourneyInfo.total, JourneyInfo.legs] <;> omega

/-- The total is a shortest one when it is matched on both sides. -/
theorem shortest_ofBest_iff {cost : JourneyInfo → ℕ} {feasible : Set JourneyInfo}
    {l : List JourneyInfo} :
    Shortest feasible (ofBest (best cost 65535 l)) ↔
      (∀ c ∈ feasible, ∃ d ∈ l, cost d ≤ c.total ∧ cost d < 65535) ∧
        ∀ d ∈ l, cost d < 65535 → ∃ c ∈ feasible, c.total ≤ cost d := by
  rcases best_spec cost 65535 l with ⟨hbest, hall⟩ | ⟨d, hbest, hd⟩
  · rw [hbest]
    constructor
    · intro h
      refine ⟨fun c hc => absurd rfl (h.valid_iff.mpr ⟨c, hc⟩), fun d hd hlt => ?_⟩
      exact absurd hlt (not_lt.mpr (hall d hd))
    · rintro ⟨hcovered, -⟩
      refine ⟨iff_of_false (fun h => h rfl) ?_, fun h => absurd rfl h⟩
      rintro ⟨c, hc⟩
      obtain ⟨d, hd, -, hlt⟩ := hcovered c hc
      exact absurd hlt (not_lt.mpr (hall d hd))
  · have hvalid : (ofBest (cost d, some d)).info ≠ none := Option.some_ne_none d
    rw [hbest]
    constructor
    · intro h
      obtain ⟨⟨c, hc, hcd⟩, hleast⟩ := h.isLeast hvalid
      have hcd : c.total = cost d := hcd
      refine ⟨fun c' hc' => ⟨d, hd.mem, hleast ⟨c', hc', rfl⟩, hd.lt_limit⟩, fun d' hd' _ => ?_⟩
      exact ⟨c, hc, hcd.trans_le (hd.le hd')⟩
    · rintro ⟨hcovered, hbacked⟩
      obtain ⟨c, hc, hcd⟩ := hbacked d hd.mem hd.lt_limit
      have hleast : ∀ c' ∈ feasible, cost d ≤ c'.total := by
        intro c' hc'
        obtain ⟨d', hd', hle, -⟩ := hcovered c' hc'
        exact (hd.le hd').trans hle
      refine ⟨iff_of_true hvalid ⟨c, hc⟩, fun _ => ⟨⟨c, hc, hcd.antisymm (hleast c hc)⟩, ?_⟩⟩
      rintro _ ⟨c', hc', rfl⟩
      exact hleast c' hc'

/-- What keeps the backward search exact for a stop. -/
structure ExactBwd (undefined : Cost → UInt16) (q : Query provider) (t : BackwardTimes) (p : ℕ) :
    Prop where
  /-- The stations are only searched when there is a vehicle that stands somewhere. -/
  vehicles : q.b = [] → ∀ c, ¬FeasibleBwd q t p c
  /-- The ready time of a free-floating vehicle is not counted: another combination is shorter. -/
  ready : ∀ walk ride b, FeasibleBwd q t p (.b walk ride b p) → walk + ride < 65535 →
    ∃ c, FeasibleBwd q t p c ∧ c.total ≤ walk + ride
  /-- A way that nobody knows is taken for a short one: a feasible combination is no longer. -/
  reached : ∀ d ∈ candidatesBwd undefined q t p, ¬FeasibleBwd q t p d → totalBwd d < 65535 →
    ∃ c, FeasibleBwd q t p c ∧ c.total ≤ totalBwd d
  below : (∃ c, FeasibleBwd q t p c) → ∃ c, FeasibleBwd q t p c ∧ totalBwd c < 65535

def walked (walk : ℕ) : BackwardTimes :=
  ⟨fun _ _ => some walk, fun _ => some 290, fun _ _ => none, fun _ _ => none, fun _ => none⟩

theorem fits_walked {walk : ℕ} (h : ceilMinutes walk < 2 ^ 16) : FitsBwd rental (walked walk) where
  pToB _ _ _ _ := fits_some h
  bToX _ _ := fits_some (by decide)
  pToSp _ _ _ _ := fits_none
  spToSx _ _ _ _ := fits_none
  sxToX _ _ := fits_none

end Optimality

end Motis.Gbfs
