import Motis.Gbfs.CheckedIndices
import Motis.Gbfs.Optimality

/-! The targets of a search and their labels.

    The stops and the direct targets stand in one list:

        0 … p.size() - 1    p.size() … p.size() + direct - 1
        stops               direct targets

    The index of a direct target is `p.size() - p_`, and the only one that is not below zero belongs
    to the first of them. -/

namespace Motis.Gbfs
open Best

/-! ### Served targets -/

section Served

variable {provider : Provider} (undefined : Cost → UInt16) (q : Query provider)

def Search.Feasible : Search → ℕ → JourneyInfo → Prop
  | .forward t, p, c => FeasibleFwd q t p c
  | .backward t, p, c => FeasibleBwd q t p c

/-- The ways to a target within the limits, no matter whether a loop looks at them. -/
def Search.ways : Search → ℕ → List JourneyInfo
  | .forward t, p => candidatesFwd undefined q t p
  | .backward t, p => candidatesBwd undefined q t p

/-- The route takes one of the ways to the target. -/
def RouteTo (s : Search) (p : ℕ) (r : RouteInfo) : Prop :=
  ∃ c ∈ s.ways undefined q p, ∃ r', routeInfo q s.dir (s.total c) c = .ok r' ∧
    r.route = r'.route ∧ r.totalDuration = r'.totalDuration

/-- The id of a stop, or the position of a direct target in its list. -/
def label (p : ℕ) : Target :=
  match q.p[p]? with
  | some id => .station id
  | none => .direct (p - q.p.length)

/-- Every target that can be reached has a route with its own label. -/
def Served (s : Search) (routes : List RouteInfo) : Prop :=
  ∀ p < q.targets, (∃ c, s.Feasible q p c) →
    ∃ r ∈ routes, r.p = label q p ∧ RouteTo undefined q s p r

structure ServedFwd (t : ForwardTimes) : Prop where
  /-- A stop or the first direct target that can be reached has a way below the greatest total. -/
  below : ∀ p < q.targets, p ≤ q.p.length → (∃ c, FeasibleFwd q t p c) →
    ∃ c ∈ candidatesFwd undefined q t p, totalFwd c < 65535
  /-- No way leads to another direct target. -/
  first : ∀ p < q.targets, q.p.length < p → (∀ c, ¬FeasibleFwd q t p c) ∧
    ∀ c ∈ candidatesFwd undefined q t p, 65535 ≤ totalFwd c

structure ServedBwd (t : BackwardTimes) : Prop where
  below : ∀ p < q.p.length, (∃ c, FeasibleBwd q t p c) →
    ∃ c ∈ candidatesBwd undefined q t p, totalBwd c < 65535
  /-- No direct target can be reached. -/
  stops : ∀ p < q.targets, q.p.length ≤ p → ∀ c, ¬FeasibleBwd q t p c

def ServedWhen : Search → Prop
  | .forward t => ServedFwd undefined q t
  | .backward t => ServedBwd undefined q t

/-- A journey that a target keeps. -/
structure Kept (s : Search) (p : ℕ) (c : JourneyInfo) : Prop where
  best : best s.total 65535 (s.candidates undefined q p) = (s.total c, some c)
  mem : c ∈ s.candidates undefined q p
  below : s.total c < 65535

variable {undefined q}

theorem candidates_p {rounds : List (ℕ → JourneyInfo)} (h : Leads rounds) {p : ℕ}
    {c : JourneyInfo} (hc : c ∈ candidates q rounds p) : c.p = p := by
  obtain ⟨f, hf, rfl⟩ := List.mem_map.mp (List.mem_of_mem_filter hc)
  exact h f hf p

theorem Search.candidates_ways {s : Search} {p : ℕ} {c : JourneyInfo}
    (hc : c ∈ s.candidates undefined q p) : c ∈ s.ways undefined q p := by
  cases s with
  | forward t => exact hc
  | backward t =>
    rw [Search.candidates] at hc
    split at hc
    · exact hc
    · exact absurd hc List.not_mem_nil

theorem Search.candidates_p {s : Search} {p : ℕ} {c : JourneyInfo}
    (hc : c ∈ s.candidates undefined q p) : c.p = p := by
  have hways := Search.candidates_ways hc
  cases s with
  | forward t => exact Gbfs.candidates_p (leads_roundsFwd undefined q t) hways
  | backward t => exact Gbfs.candidates_p (leads_roundsBwd undefined q t) hways

/-! ### Labels -/

theorem checkedTarget_of_le {p : ℕ} (h : p ≤ q.p.length) (hp : p < q.targets) :
    Checked.target q p = .ok (label q p) := by
  cases hid : q.p[p]? with
  | some id => rw [Checked.target, label, hid]
  | none =>
    have heq : p = q.p.length := h.antisymm (List.getElem?_eq_none_iff.mp hid)
    have hdirect : 0 < q.direct := by
      rw [Query.targets] at hp
      omega
    subst heq
    rw [Checked.target, label, hid]
    exact if_pos ⟨le_rfl, by rwa [Nat.sub_self]⟩

theorem le_of_checkedTarget {p : ℕ} {t : Target} (h : Checked.target q p = .ok t) :
    p ≤ q.p.length := by
  rw [Checked.target] at h
  split at h
  · rename_i hsome
    exact (List.getElem?_eq_some_iff.mp hsome).1.le
  · split at h
    · rename_i hle
      exact hle.1
    · cases h

theorem label_stop {p : ℕ} (h : p < q.p.length) : label q p = .station q.p[p] := by
  rw [label, List.getElem?_eq_getElem h]

theorem label_direct (i : ℕ) : label q (q.p.length + i) = .direct i := by
  have hposition : ((q.p.length + i : ℕ) : ℤ) - q.p.length = i := by omega
  rw [label, List.getElem?_eq_none (Nat.le_add_right _ _)]
  exact congrArg Target.direct hposition

/-- A direct target shares its label with no target before it. -/
theorem label_ne {p p' : ℕ} (h : q.p.length ≤ p) (hp : p' < p) : label q p' ≠ label q p := by
  obtain ⟨i, rfl⟩ := Nat.exists_eq_add_of_le h
  rw [label_direct]
  rcases Nat.lt_or_ge p' q.p.length with hstop | hdirect
  · rw [label_stop hstop]
    simp
  · obtain ⟨k, rfl⟩ := Nat.exists_eq_add_of_le hdirect
    rw [label_direct]
    simp
    omega

/-! ### Reported routes -/

theorem exists_kept_iff {s : Search} {p : ℕ} : (∃ c, Kept undefined q s p c) ↔
    ∃ c ∈ s.candidates undefined q p, s.total c < 65535 := by
  constructor
  · rintro ⟨c, hc⟩
    exact ⟨c, hc.mem, hc.below⟩
  · rintro ⟨c, hc, hbelow⟩
    rcases best_spec s.total 65535 (s.candidates undefined q p) with ⟨-, hnone⟩ | ⟨d, hd, hfirst⟩
    · exact absurd hbelow (not_lt.mpr (hnone c hc))
    · exact ⟨d, hd, hfirst.mem, hfirst.lt_limit⟩

theorem mem_validJourneys_kept {s : Search} {j : ℕ × JourneyInfo} :
    j ∈ validJourneys (bestJourneys undefined q s) ↔
      ∃ p < q.targets, ∃ c, Kept undefined q s p c ∧ (s.total c, c) = j := by
  obtain ⟨total, d⟩ := j
  rw [mem_validJourneys]
  constructor
  · rintro ⟨p, hp, hbest⟩
    obtain ⟨rfl, hd, hbelow⟩ := best_mem hbest
    exact ⟨p, hp, d, ⟨hbest, hd, hbelow⟩, rfl⟩
  · rintro ⟨p, hp, c, hc, hj⟩
    obtain ⟨rfl, rfl⟩ := Prod.mk.inj hj
    exact ⟨p, hp, hc.best⟩

theorem routeInfo_totalDuration {dir : SearchDir} {total : ℕ} {c : JourneyInfo} {r : RouteInfo}
    (h : routeInfo q dir total c = .ok r) : r.totalDuration = total := by
  cases c with
  | b =>
    obtain ⟨_, -, h⟩ := Fallible.bind_ok h
    cases h
    rfl
  | s =>
    obtain ⟨_, -, h⟩ := Fallible.bind_ok h
    obtain ⟨_, -, h⟩ := Fallible.bind_ok h
    cases h
    rfl

/-- The route of a journey that is kept, with a label if its index is one. -/
theorem Kept.routeInfo {s : Search} {p : ℕ} {c : JourneyInfo} (h : Kept undefined q s p c) :
    ∃ r, Gbfs.routeInfo q s.dir (s.total c) c = .ok r ∧
      Checked.routeInfo q s.dir (s.total c) c =
        (Checked.target q p).map fun label => { r with p := label } := by
  obtain ⟨r, hr, -⟩ := routeInfo_spec h.mem h.below
  refine ⟨r, hr, ?_⟩
  rw [Checked.routeInfo, Search.candidates_p h.mem, hr]
  rfl

/-- No index leaves its bounds exactly when no direct target but the first one keeps a journey. -/
theorem exists_route_iff {s : Search}
    (htype : provider.vehicleType = "car" ∨ provider.vehicleType = "bike") :
    (∃ routes, Checked.route undefined q s = .ok routes) ↔
      ∀ p < q.targets, q.p.length < p → ¬∃ c, Kept undefined q s p c := by
  rw [Checked.route_eq s htype]
  constructor
  · rintro ⟨routes, hroutes⟩ p hp hlt ⟨c, hc⟩
    obtain ⟨r, -, hr⟩ := Fallible.exists_of_mapM_ok hroutes
      (mem_validJourneys_kept.mpr ⟨p, hp, c, hc, rfl⟩)
    obtain ⟨label, hlabel, -⟩ := Fallible.bind_ok hr
    rw [Search.candidates_p hc.mem] at hlabel
    exact absurd hlt (not_lt.mpr (le_of_checkedTarget hlabel))
  · intro h
    refine Fallible.mapM_total fun j hj => ?_
    obtain ⟨p, hp, c, hc, rfl⟩ := mem_validJourneys_kept.mp hj
    have hle : p ≤ q.p.length := not_lt.mp fun hlt => h p hp hlt ⟨c, hc⟩
    obtain ⟨r, -, hr⟩ := hc.routeInfo
    rw [checkedTarget_of_le hle hp] at hr
    exact ⟨_, hr⟩

/-- The routes are those of the targets that keep a journey. -/
theorem mem_route {s : Search} {routes : List RouteInfo} {r : RouteInfo}
    (htype : provider.vehicleType = "car" ∨ provider.vehicleType = "bike")
    (h : Checked.route undefined q s = .ok routes) :
    r ∈ routes ↔ ∃ p < q.targets, p ≤ q.p.length ∧ r.p = label q p ∧ ∃ c, Kept undefined q s p c ∧
      ∃ r', routeInfo q s.dir (s.total c) c = .ok r' ∧ r = { r' with p := label q p } := by
  rw [Checked.route_eq s htype] at h
  rw [Fallible.mem_mapM_ok h]
  constructor
  · rintro ⟨j, hj, hr⟩
    obtain ⟨p, hp, c, hc, rfl⟩ := mem_validJourneys_kept.mp hj
    obtain ⟨l, hl, -⟩ := Fallible.bind_ok hr
    rw [Search.candidates_p hc.mem] at hl
    have hle := le_of_checkedTarget hl
    obtain ⟨r', hr', hchecked⟩ := hc.routeInfo
    rw [checkedTarget_of_le hle hp] at hchecked
    obtain rfl := Except.ok.inj (hr.symm.trans hchecked)
    exact ⟨p, hp, hle, rfl, c, hc, r', hr', rfl⟩
  · rintro ⟨p, hp, hle, -, c, hc, r', hr', rfl⟩
    obtain ⟨r'', hr'', hchecked⟩ := hc.routeInfo
    obtain rfl := Except.ok.inj (hr'.symm.trans hr'')
    rw [checkedTarget_of_le hle hp] at hchecked
    exact ⟨_, mem_validJourneys_kept.mpr ⟨p, hp, c, hc, rfl⟩, hchecked⟩

/-- A stop with a route that is short enough has kept a journey. -/
theorem RouteTo.kept {s : Search} {p : ℕ} {r : RouteInfo} (hp : p < q.p.length)
    (h : RouteTo undefined q s p r) (hbelow : r.totalDuration < 65535) :
    ∃ c, Kept undefined q s p c := by
  obtain ⟨c, hc, r', hr', -, htotal⟩ := h
  rw [routeInfo_totalDuration hr'] at htotal
  refine exists_kept_iff.mpr ⟨c, ?_, htotal ▸ hbelow⟩
  cases s with
  | forward t => exact hc
  | backward t =>
    rw [Search.candidates, if_pos hp]
    exact hc

theorem served_iff_kept {s : Search}
    (htype : provider.vehicleType = "car" ∨ provider.vehicleType = "bike") :
    (∃ routes, Checked.route undefined q s = .ok routes ∧ Served undefined q s routes) ↔
      (∀ p < q.targets, q.p.length < p → ¬∃ c, Kept undefined q s p c) ∧
        ∀ p < q.targets, (∃ c, s.Feasible q p c) →
          p ≤ q.p.length ∧ ∃ c, Kept undefined q s p c := by
  constructor
  · rintro ⟨routes, hroutes, hserved⟩
    refine ⟨(exists_route_iff htype).mp ⟨routes, hroutes⟩, fun p hp hfeasible => ?_⟩
    obtain ⟨r, hr, hlabel, hto⟩ := hserved p hp hfeasible
    obtain ⟨p', hp', hle, hlabel', c, hc, r', hr', hrr'⟩ := (mem_route htype hroutes).mp hr
    rw [hlabel] at hlabel'
    rcases Nat.lt_or_ge p q.p.length with hstop | hdirect
    · refine ⟨hstop.le, hto.kept hstop ?_⟩
      rw [hrr', routeInfo_totalDuration hr']
      exact hc.below
    · -- the only target with this label is the one that has kept the journey
      have heq : p' = p := by
        by_contra hne
        exact label_ne hdirect (by omega) hlabel'.symm
      subst heq
      exact ⟨hle, c, hc⟩
  · rintro ⟨hnone, hkept⟩
    obtain ⟨routes, hroutes⟩ := (exists_route_iff htype).mpr hnone
    refine ⟨routes, hroutes, fun p hp hfeasible => ?_⟩
    obtain ⟨hle, c, hc⟩ := hkept p hp hfeasible
    obtain ⟨r, hr, -⟩ := hc.routeInfo
    have hmem : { r with p := label q p } ∈ routes :=
      (mem_route htype hroutes).mpr ⟨p, hp, hle, rfl, c, hc, r, hr, rfl⟩
    exact ⟨_, hmem, rfl, c, Search.candidates_ways hc.mem, r, hr, rfl, rfl⟩

/-- Every target that can be reached has a route with its label and no index leaves its bounds:
    forward, exactly when no way leads to a direct target but the first one; backward, when none can
    be reached. -/
theorem targets_served_iff (s : Search)
    (htype : provider.vehicleType = "car" ∨ provider.vehicleType = "bike") :
    (∃ routes, Checked.route undefined q s = .ok routes ∧ Served undefined q s routes) ↔
      ServedWhen undefined q s := by
  rw [served_iff_kept htype]
  simp only [exists_kept_iff]
  cases s with
  | forward t =>
    constructor
    · rintro ⟨hnone, hkept⟩
      refine ⟨fun p hp _ hfeasible => (hkept p hp hfeasible).2, fun p hp hlt => ⟨?_, ?_⟩⟩
      · intro c hc
        exact absurd hlt (not_lt.mpr (hkept p hp ⟨c, hc⟩).1)
      · intro c hc
        exact not_lt.mp fun hbelow => hnone p hp hlt ⟨c, hc, hbelow⟩
    · intro h
      refine ⟨fun p hp hlt => ?_, fun p hp hfeasible => ?_⟩
      · rintro ⟨c, hc, hbelow⟩
        exact absurd hbelow (not_lt.mpr ((h.first p hp hlt).2 c hc))
      · obtain ⟨c, hc⟩ := hfeasible
        have hle : p ≤ q.p.length := not_lt.mp fun hlt => (h.first p hp hlt).1 c hc
        exact ⟨hle, h.below p hp hle ⟨c, hc⟩⟩
  | backward t =>
    constructor
    · rintro ⟨-, hkept⟩
      refine ⟨fun p hp hfeasible => ?_, fun p hp hle c hc => ?_⟩
      · obtain ⟨-, c, hc, hbelow⟩ := hkept p (Nat.lt_add_right _ hp) hfeasible
        exact ⟨c, Search.candidates_ways hc, hbelow⟩
      · obtain ⟨-, d, hd, -⟩ := hkept p hp ⟨c, hc⟩
        rw [Search.candidates, if_neg (not_lt.mpr hle)] at hd
        exact absurd hd List.not_mem_nil
    · intro h
      refine ⟨fun p hp hlt => ?_, fun p hp hfeasible => ?_⟩
      · rintro ⟨c, hc, -⟩
        rw [Search.candidates, if_neg (not_lt.mpr hlt.le)] at hc
        exact absurd hc List.not_mem_nil
      · have hstop : p < q.p.length := by
          obtain ⟨c, hc⟩ := hfeasible
          exact not_le.mp fun hle => h.stops p hp hle c hc
        rw [Search.candidates, if_pos hstop]
        exact ⟨hstop.le, h.below p hstop hfeasible⟩

end Served

theorem targets_served_iff_rental :
    (∃ routes, Checked.route (fun _ => 0) rental (.forward (ridden (some 290))) = .ok routes ∧
      Served (fun _ => 0) rental (.forward (ridden (some 290))) routes) ↔
    ServedWhen (fun _ => 0) rental (.forward (ridden (some 290))) :=
  targets_served_iff (.forward (ridden (some 290))) (.inr rfl)

/-- Two direct targets, five minutes from a vehicle next to x. -/
def twoPlaces : Query oneVehicle := ⟨15, 20, [⟨0, Nat.zero_lt_one⟩], [], [], [], 2⟩

/-- The second of them is looked up behind the end of the list. -/
theorem not_served_twoPlaces : ¬∀ (provider : Provider) (undefined : Cost → UInt16)
    (q : Query provider) (s : Search), provider.vehicleType = "car" ∨ provider.vehicleType = "bike" →
    ∃ routes, Checked.route undefined q s = .ok routes ∧ Served undefined q s routes := by
  intro h
  obtain ⟨routes, hroutes, -⟩ :=
    h oneVehicle (fun _ => 0) twoPlaces (.forward (ridden (some 290))) (.inr rfl)
  have hroute : Checked.route (fun _ => 0) twoPlaces (.forward (ridden (some 290))) =
      .error "out_of_range" := by
    rfl
  rw [hroute] at hroutes
  cases hroutes

end Motis.Gbfs
