import Mathlib.Algebra.GroupWithZero.Nat
import Mathlib.Data.List.Nodup
import Motis.Lib.Fallible
import Motis.Gbfs.Candidates

/-! The routes of a response.

    The stations are reported in travel order, and the ready time with the first walk:

        forward     from sx to sp        total = (3 + walk) + ride + walk
        backward    from sp to sx                                         -/

namespace Motis.Gbfs
open Best

inductive SearchDir where
  | forward | backward
  deriving DecidableEq, Repr

/-- A search in a direction, with what the street routers know about its ways. -/
inductive Search where
  | forward (t : ForwardTimes)
  | backward (t : BackwardTimes)

def Search.dir : Search → SearchDir
  | .forward _ => .forward
  | .backward _ => .backward

structure GbfsStation where
  id : String
  name : String
  deriving DecidableEq, Repr

inductive BikeRoute where
  | freeBikeRoute (bikeId : String) (walkDuration bikeDuration : ℕ)
  | stationBikeRoute (fromStation toStation : GbfsStation)
      (firstWalkDuration bikeDuration secondWalkDuration : ℕ)
  deriving DecidableEq, Repr

/-- `P`: a stop with its id, or a place in the list of the direct targets. -/
inductive Target where
  | station (id : String)
  | direct (i : ℤ)
  deriving DecidableEq, Repr

structure RouteInfo where
  vehicleType : String
  p : Target
  route : BikeRoute
  totalDuration : ℕ
  deriving DecidableEq, Repr

/-- `std::vector::at` -/
def vectorAt {α : Type} (l : List α) (i : ℕ) : Except String α :=
  match l[i]? with
  | some a => .ok a
  | none => .error "out_of_range"

section Respond

variable {provider : Provider} (undefined : Cost → UInt16) (q : Query provider)

/-- The direct targets are counted from the wrong side: `direct->Get(p.size() - p_)`. -/
def target (p : ℕ) : Target :=
  match q.p[p]? with
  | some id => .station id
  | none => .direct (q.p.length - p)

def gbfsStation (station : Fin provider.stations.length) : GbfsStation :=
  ⟨(provider.stations.get station).id, (provider.stations.get station).name⟩

def routeInfo (dir : SearchDir) (totalDuration : ℕ) : JourneyInfo → Except String RouteInfo
  | .b walk ride b p => do
    let freeBike ← vectorAt q.b b
    return ⟨provider.vehicleType, target q p,
      .freeBikeRoute (provider.freeBikes.get freeBike) ((walk + bikeReadyTime) % 2 ^ 16) ride,
      totalDuration⟩
  | .s firstWalk ride secondWalk sx sp p => do
    let sxBikeStation ← vectorAt q.sx sx
    let spBikeStation ← vectorAt q.sp sp
    let sxGbfsStation := gbfsStation sxBikeStation
    let spGbfsStation := gbfsStation spBikeStation
    return ⟨provider.vehicleType, target q p,
      .stationBikeRoute (if dir = .forward then sxGbfsStation else spGbfsStation)
        (if dir = .forward then spGbfsStation else sxGbfsStation)
        ((firstWalk + bikeReadyTime) % 2 ^ 16) ride secondWalk, totalDuration⟩

def bestJourneys : Search → List Journey
  | .forward t => bestFwd undefined q t
  | .backward t => bestBwd undefined q t

/-- The valid journeys. -/
def validJourneys (journeys : List Journey) : List (ℕ × JourneyInfo) :=
  journeys.filterMap fun j => j.info.map fun info => (j.totalDuration, info)

def route (s : Search) : Except String (List RouteInfo) :=
  if ¬(provider.vehicleType = "car" ∨ provider.vehicleType = "bike") then
    .error ("unsupported vehicle type " ++ provider.vehicleType)
  else if q.targets = 0 then .ok []
  else if q.b = [] ∧ (q.sp = [] ∨ q.sx = []) then .ok []
  else (validJourneys (bestJourneys undefined q s)).mapM fun (total, info) =>
    routeInfo q s.dir total info

/-! ### Routes that can be travelled -/

def BikeRoute.durations : BikeRoute → List ℕ
  | .freeBikeRoute _ walk ride => [walk, ride]
  | .stationBikeRoute _ _ firstWalk ride secondWalk => [firstWalk, ride, secondWalk]

/-- The stations where a vehicle is taken. -/
def Search.pickUps : Search → List (Fin provider.stations.length)
  | .forward _ => q.sx
  | .backward _ => q.sp

def Search.dropOffs : Search → List (Fin provider.stations.length)
  | .forward _ => q.sp
  | .backward _ => q.sx

def Search.firstWalk (pickUp p : ℕ) : Search → Cost
  | .forward t => oneToManyCost (t.xToSx pickUp)
  | .backward t => tableCost (t.pToSp p pickUp)

def Search.ride (pickUp dropOff : ℕ) : Search → Cost
  | .forward t => tableCost (t.sxToSp pickUp dropOff)
  | .backward t => tableCost (t.spToSx pickUp dropOff)

def Search.secondWalk (dropOff p : ℕ) : Search → Cost
  | .forward t => tableCost (t.spToP dropOff p)
  | .backward t => oneToManyCost (t.sxToX dropOff)

/-- The route goes from a pick-up to a drop-off station, and reports their walks and their ride. -/
def Travels (s : Search) (p pickUp dropOff : ℕ) (route : BikeRoute) : Prop :=
  ∃ a b, (s.pickUps q)[pickUp]? = some a ∧ (s.dropOffs q)[dropOff]? = some b ∧
    route = .stationBikeRoute (gbfsStation a) (gbfsStation b)
      (toDuration undefined (s.firstWalk pickUp p) + bikeReadyTime)
      (toDuration undefined (s.ride pickUp dropOff))
      (toDuration undefined (s.secondWalk dropOff p))

structure Usable (s : Search) (r : RouteInfo) : Prop where
  adds_up : r.totalDuration = r.route.durations.sum
  travels : ∀ fromStation toStation firstWalk ride secondWalk,
    r.route = .stationBikeRoute fromStation toStation firstWalk ride secondWalk →
      ∃ p pickUp dropOff, r.p = target q p ∧ Travels undefined q s p pickUp dropOff r.route
  vehicle : ∀ fromStation toStation firstWalk ride secondWalk,
    r.route = .stationBikeRoute fromStation toStation firstWalk ride secondWalk →
      ∀ station ∈ provider.stations, station.id = fromStation.id → station.bikesAvailable ≠ 0

/-! ### Candidates of both directions -/

def Search.total : Search → JourneyInfo → ℕ
  | .forward _ => totalFwd
  | .backward _ => totalBwd

def Search.candidates : Search → ℕ → List JourneyInfo
  | .forward t, p => candidatesFwd undefined q t p
  | .backward t, p => if p < q.p.length then candidatesBwd undefined q t p else []

/-- Forward, a station has a vehicle; backward, the ready time is counted. -/
def Search.Sound : Search → JourneyInfo → Prop
  | .forward _, .s _ _ _ sx _ _ => bikesAvailable q.sx sx ≠ 0
  | .forward _, .b .. => True
  | .backward _, .s .. => True
  | .backward _, .b .. => False

variable {undefined q}

theorem bestJourneys_eq (s : Search) : bestJourneys undefined q s =
    (List.range q.targets).map fun p => ofBest (best s.total 65535 (s.candidates undefined q p)) := by
  refine List.ext_getElem? fun p => ?_
  rw [List.getElem?_map]
  by_cases hp : p < q.targets
  · rw [List.getElem?_range hp]
    cases s with
    | forward t => exact getElem?_bestFwd t hp
    | backward t =>
      by_cases hstop : p < q.p.length
      · have hcandidates : (Search.backward t).candidates undefined q p =
            candidatesBwd undefined q t p := if_pos hstop
        rw [Option.map_some, hcandidates]
        exact getElem?_bestBwd t hstop
      · have hcandidates : (Search.backward t).candidates undefined q p = [] := if_neg hstop
        rw [Option.map_some, hcandidates]
        exact getElem?_bestBwd_direct t (not_lt.mp hstop) hp
  · have hlength : (bestJourneys undefined q s).length = q.targets := by
      cases s with
      | forward t => exact length_bestFwd t
      | backward t => exact length_bestBwd t
    rw [List.getElem?_eq_none (by omega), List.getElem?_eq_none (by simpa using not_lt.mp hp)]
    rfl

/-- A valid journey is what some target has kept. -/
theorem mem_validJourneys {s : Search} {total : ℕ} {c : JourneyInfo} :
    (total, c) ∈ validJourneys (bestJourneys undefined q s) ↔
      ∃ p < q.targets, best s.total 65535 (s.candidates undefined q p) = (total, some c) := by
  rw [validJourneys, bestJourneys_eq, List.mem_filterMap]
  constructor
  · rintro ⟨j, hj, hinfo⟩
    obtain ⟨p, hp, rfl⟩ := List.mem_map.mp hj
    obtain ⟨c', hc', heq⟩ := Option.map_eq_some_iff.mp hinfo
    obtain ⟨rfl, rfl⟩ := Prod.mk.inj heq
    exact ⟨p, List.mem_range.mp hp, Prod.ext rfl hc'⟩
  · rintro ⟨p, hp, hbest⟩
    refine ⟨_, List.mem_map_of_mem (List.mem_range.mpr hp), ?_⟩
    rw [hbest]
    rfl

theorem candidates_nil {s : Search} (h : q.b = [] ∧ (q.sp = [] ∨ q.sx = [])) (p : ℕ) :
    s.candidates undefined q p = [] := by
  obtain ⟨hb, hplaces⟩ := h
  cases s with
  | forward t =>
    have hrounds : roundsFwd undefined q t = [] := by
      rw [roundsFwd, hb]
      rcases hplaces with h | h
      · rw [h, List.length_nil, List.length_nil, List.range_zero, flatMap_map_nil]
        rfl
      · rw [h]
        rfl
    rw [Search.candidates, candidatesFwd, hrounds]
    rfl
  | backward t =>
    have hrounds : roundsBwd undefined q t = [] := by
      rw [roundsBwd, stationsBwd, if_pos hb, flatMap_map_nil, hb]
      rfl
    rw [Search.candidates, candidatesBwd, hrounds]
    exact ite_self []

/-- Targets without candidates have no journeys. -/
theorem validJourneys_nil {s : Search} (h : ∀ p < q.targets, s.candidates undefined q p = []) :
    validJourneys (bestJourneys undefined q s) = [] := by
  refine List.eq_nil_iff_forall_not_mem.mpr fun ⟨total, c⟩ hc => ?_
  obtain ⟨p, hp, hbest⟩ := mem_validJourneys.mp hc
  rw [h p hp] at hbest
  cases hbest

/-- An early return is what the loops give. -/
theorem route_eq (s : Search) (htype : provider.vehicleType = "car" ∨ provider.vehicleType = "bike") :
    route undefined q s = (validJourneys (bestJourneys undefined q s)).mapM fun (total, info) =>
      routeInfo q s.dir total info := by
  rw [route, if_neg (not_not.mpr htype)]
  split
  · rename_i htargets
    rw [validJourneys_nil fun p hp => by omega]
    rfl
  · split
    · rename_i hplaces
      rw [validJourneys_nil fun p _ => candidates_nil hplaces p]
      rfl
    · rfl

/-! ### One route -/

theorem mem_candidatesFwd_cases {t : ForwardTimes} {p : ℕ} {c : JourneyInfo}
    (h : c ∈ candidatesFwd undefined q t p) :
    (∃ b < q.b.length, c = fwdB undefined t b p) ∨
      ∃ sx < q.sx.length, ∃ sp < q.sp.length, c = fwdS undefined t sx sp p := by
  obtain ⟨f, hf, rfl⟩ := List.mem_map.mp (List.mem_of_mem_filter h)
  rcases List.mem_append.mp hf with hf | hf
  · obtain ⟨b, hb, rfl⟩ := List.mem_map.mp hf
    exact .inl ⟨b, List.mem_range.mp hb, rfl⟩
  · obtain ⟨sx, hsx, hf⟩ := List.mem_flatMap.mp hf
    obtain ⟨sp, hsp, rfl⟩ := List.mem_map.mp hf
    exact .inr ⟨sx, List.mem_range.mp hsx, sp, List.mem_range.mp hsp, rfl⟩

theorem mem_candidatesBwd_cases {t : BackwardTimes} {p : ℕ} {c : JourneyInfo}
    (h : c ∈ candidatesBwd undefined q t p) :
    (∃ b < q.b.length, c = bwdB undefined t b p) ∨
      ∃ sx < q.sx.length, ∃ sp < q.sp.length, bikesAvailable q.sp sp ≠ 0 ∧
        c = bwdS undefined t sx sp p := by
  obtain ⟨f, hf, rfl⟩ := List.mem_map.mp (List.mem_of_mem_filter h)
  rcases List.mem_append.mp hf with hf | hf
  · obtain ⟨b, hb, rfl⟩ := List.mem_map.mp hf
    exact .inl ⟨b, List.mem_range.mp hb, rfl⟩
  · obtain ⟨sx, hsx, hf⟩ := List.mem_flatMap.mp hf
    obtain ⟨sp, hsp, rfl⟩ := List.mem_map.mp hf
    rw [stationsBwd] at hsp
    split at hsp
    · exact absurd hsp List.not_mem_nil
    · obtain ⟨hlt, hbikes⟩ := List.mem_filter.mp hsp
      exact .inr ⟨sx, List.mem_range.mp hsx, sp, List.mem_range.mp hlt, of_decide_eq_true hbikes, rfl⟩

theorem vectorAt_ok {α : Type} {l : List α} {i : ℕ} (h : i < l.length) : vectorAt l i = .ok l[i] := by
  rw [vectorAt, List.getElem?_eq_getElem h]

theorem bikesAvailable_eq {l : List (Fin provider.stations.length)} {i : ℕ}
    {station : Fin provider.stations.length} (h : l[i]? = some station) :
    bikesAvailable l i = (provider.stations.get station).bikesAvailable := by
  rw [bikesAvailable, h]
  rfl

/-- The id of a station says which one it is. -/
theorem vehicle_iff (station : Fin provider.stations.length) :
    (∀ other ∈ provider.stations, other.id = (gbfsStation station).id → other.bikesAvailable ≠ 0) ↔
      (provider.stations.get station).bikesAvailable ≠ 0 := by
  have hmem : provider.stations.get station ∈ provider.stations := List.getElem_mem _
  constructor
  · intro h
    exact h _ hmem rfl
  · intro h other hother hid
    obtain rfl := List.inj_on_of_nodup_map provider.nodup_ids hother hmem hid
    exact h

/-- A route between stations is fine when it starts at one with a vehicle. -/
theorem usable_station_iff {s : Search} {r : RouteInfo} {p : ℕ} (pickUp dropOff : ℕ)
    (hp : r.p = target q p) (htravels : Travels undefined q s p pickUp dropOff r.route)
    (htotal : r.totalDuration = r.route.durations.sum) :
    Usable undefined q s r ↔ bikesAvailable (s.pickUps q) pickUp ≠ 0 := by
  obtain ⟨a, b, ha, hb, hroute⟩ := htravels
  rw [bikesAvailable_eq ha, ← vehicle_iff]
  constructor
  · intro h
    exact h.vehicle _ _ _ _ _ hroute
  · intro h
    refine ⟨htotal, fun _ _ _ _ _ _ => ⟨p, pickUp, dropOff, hp, a, b, ha, hb, hroute⟩, ?_⟩
    intro fromStation toStation firstWalk ride secondWalk hroute'
    obtain ⟨rfl, -⟩ := BikeRoute.stationBikeRoute.inj (hroute.symm.trans hroute')
    exact h

/-- A route with a free-floating vehicle only has to add up. -/
theorem usable_freeBike_iff {s : Search} {r : RouteInfo} {bikeId : String} {walk ride : ℕ}
    (hroute : r.route = .freeBikeRoute bikeId walk ride) :
    Usable undefined q s r ↔ r.totalDuration = walk + ride := by
  have hsum : r.route.durations.sum = walk + ride := by
    rw [hroute]
    simp [BikeRoute.durations]
  constructor
  · intro h
    exact h.adds_up.trans hsum
  · intro h
    refine ⟨h.trans hsum.symm, fun _ _ _ _ _ hstation => ?_, fun _ _ _ _ _ hstation => ?_⟩ <;>
      rw [hroute] at hstation <;> cases hstation

theorem routeInfo_b {dir : SearchDir} {total walk ride b : ℕ} (p : ℕ) (hb : b < q.b.length) :
    routeInfo q dir total (.b walk ride b p) = .ok ⟨provider.vehicleType, target q p,
      .freeBikeRoute (provider.freeBikes.get q.b[b]) ((walk + bikeReadyTime) % 2 ^ 16) ride, total⟩ := by
  rw [routeInfo, vectorAt_ok hb]
  rfl

theorem routeInfo_s {dir : SearchDir} {total firstWalk ride secondWalk sx sp : ℕ} (p : ℕ)
    (hsx : sx < q.sx.length) (hsp : sp < q.sp.length) :
    routeInfo q dir total (.s firstWalk ride secondWalk sx sp p) =
      .ok ⟨provider.vehicleType, target q p,
        .stationBikeRoute
          (if dir = .forward then gbfsStation q.sx[sx] else gbfsStation q.sp[sp])
          (if dir = .forward then gbfsStation q.sp[sp] else gbfsStation q.sx[sx])
          ((firstWalk + bikeReadyTime) % 2 ^ 16) ride secondWalk, total⟩ := by
  rw [routeInfo, vectorAt_ok hsx, vectorAt_ok hsp]
  rfl

/-- The route of a candidate is reported, and it is fine when the candidate is sound. -/
theorem routeInfo_spec {s : Search} {p : ℕ} {c : JourneyInfo}
    (hc : c ∈ s.candidates undefined q p) (hlt : s.total c < 65535) :
    ∃ r, routeInfo q s.dir (s.total c) c = .ok r ∧ (Usable undefined q s r ↔ s.Sound q c) := by
  cases s with
  | forward t =>
    rcases mem_candidatesFwd_cases hc with ⟨b, hb, rfl⟩ | ⟨sx, hsx, sp, hsp, rfl⟩
    · refine ⟨_, routeInfo_b p hb, (usable_freeBike_iff rfl).trans (iff_of_true ?_ trivial)⟩
      simp only [Search.total, fwdB, totalFwd, bikeReadyTime] at hlt ⊢
      omega
    · refine ⟨_, routeInfo_s p hsx hsp, usable_station_iff sx sp rfl ?_ ?_⟩
      · refine ⟨q.sx[sx], q.sp[sp], List.getElem?_eq_getElem hsx, List.getElem?_eq_getElem hsp, ?_⟩
        simp only [Search.total, fwdS, totalFwd, bikeReadyTime] at hlt
        rw [Nat.mod_eq_of_lt (by simp only [bikeReadyTime]; omega)]
        rfl
      · simp only [Search.total, fwdS, totalFwd, bikeReadyTime, BikeRoute.durations,
          List.sum_cons, List.sum_nil] at hlt ⊢
        omega
  | backward t =>
    rw [Search.candidates] at hc
    split at hc
    · rcases mem_candidatesBwd_cases hc with ⟨b, hb, rfl⟩ | ⟨sx, hsx, sp, hsp, hbikes, rfl⟩
      · refine ⟨_, routeInfo_b p hb, (usable_freeBike_iff rfl).trans (iff_of_false ?_ id)⟩
        simp only [Search.total, bwdB, totalBwd, bikeReadyTime] at hlt ⊢
        omega
      · refine ⟨_, routeInfo_s p hsx hsp,
          (usable_station_iff sp sx rfl ?_ ?_).trans
            (iff_of_true hbikes trivial)⟩
        · refine ⟨q.sp[sp], q.sx[sx], List.getElem?_eq_getElem hsp, List.getElem?_eq_getElem hsx, ?_⟩
          simp only [Search.total, bwdS, totalBwd, bikeReadyTime] at hlt
          rw [Nat.mod_eq_of_lt (by simp only [bikeReadyTime]; omega)]
          rfl
        · simp only [Search.total, bwdS, totalBwd, bikeReadyTime, BikeRoute.durations,
            List.sum_cons, List.sum_nil] at hlt ⊢
          omega
    · exact absurd hc List.not_mem_nil

/-- The journey that a target has kept is one of its candidates. -/
theorem best_mem {s : Search} {p total : ℕ} {c : JourneyInfo}
    (h : best s.total 65535 (s.candidates undefined q p) = (total, some c)) :
    total = s.total c ∧ c ∈ s.candidates undefined q p ∧ s.total c < 65535 := by
  rcases best_spec s.total 65535 (s.candidates undefined q p) with ⟨hbest, -⟩ | ⟨c', hbest, hc'⟩
  · rw [hbest] at h
    cases h
  · rw [hbest] at h
    obtain ⟨rfl, hc⟩ := Prod.mk.inj h
    obtain rfl := Option.some.inj hc
    exact ⟨rfl, hc'.mem, hc'.lt_limit⟩

variable (undefined q) in
/-- A property of routes that some journeys give them holds of what all targets have kept exactly when
    the other journeys are beaten. -/
theorem kept_good_iff {good : JourneyInfo → Prop} {P : JourneyInfo → RouteInfo → Prop} {s : Search}
    (h : ∀ {p c r}, c ∈ s.candidates undefined q p → s.total c < 65535 →
      routeInfo q s.dir (s.total c) c = .ok r → (P c r ↔ good c)) :
    (∀ j ∈ validJourneys (bestJourneys undefined q s), ∀ r,
        routeInfo q s.dir j.1 j.2 = .ok r → P j.2 r) ↔
      ∀ p < q.targets, Beaten s.total 65535 good (s.candidates undefined q p) := by
  constructor
  · intro hkept p hp
    refine best_good_iff.mp fun c hc => ?_
    obtain ⟨htotal, hmem, hlt⟩ := best_mem (Prod.ext rfl hc)
    obtain ⟨r, hr, -⟩ := routeInfo_spec hmem hlt
    have hj : (s.total c, c) ∈ validJourneys (bestJourneys undefined q s) :=
      mem_validJourneys.mpr ⟨p, hp, Prod.ext htotal hc⟩
    exact (h hmem hlt hr).mp (hkept _ hj r hr)
  · rintro hbeaten ⟨total, c⟩ hj r hr
    obtain ⟨p, hp, hbest⟩ := mem_validJourneys.mp hj
    obtain ⟨rfl, hmem, hlt⟩ := best_mem hbest
    refine (h hmem hlt hr).mpr (best_good_iff.mpr (hbeaten p hp) c ?_)
    rw [hbest]

variable (undefined q) in
theorem exists_route (s : Search)
    (htype : provider.vehicleType = "car" ∨ provider.vehicleType = "bike") :
    ∃ routes, route undefined q s = .ok routes := by
  rw [route_eq s htype]
  refine Fallible.mapM_total fun ⟨total, c⟩ hj => ?_
  obtain ⟨p, -, hbest⟩ := mem_validJourneys.mp hj
  obtain ⟨rfl, hmem, hlt⟩ := best_mem hbest
  obtain ⟨r, hr, -⟩ := routeInfo_spec hmem hlt
  exact ⟨r, hr⟩

/-- All reported routes can be travelled and add up, exactly when no target keeps a forward journey
    from a station without vehicles or a backward one with a free-floating vehicle: each of them is
    beaten by another. -/
theorem usable_iff (s : Search) :
    (∀ routes, route undefined q s = .ok routes → ∀ r ∈ routes, Usable undefined q s r) ↔
      (provider.vehicleType = "car" ∨ provider.vehicleType = "bike") →
        ∀ p < q.targets, Beaten s.total 65535 (s.Sound q) (s.candidates undefined q p) := by
  by_cases htype : provider.vehicleType = "car" ∨ provider.vehicleType = "bike"
  · have hgood := kept_good_iff undefined q (P := fun _ r => Usable undefined q s r) fun hmem hlt hr => by
      obtain ⟨r', hr', husable⟩ := routeInfo_spec hmem hlt
      obtain rfl := Except.ok.inj (hr.symm.trans hr')
      exact husable
    constructor
    · intro h _
      refine hgood.mp fun j hj r hr => ?_
      obtain ⟨routes, hroutes⟩ := exists_route undefined q s htype
      refine h routes hroutes r ?_
      rw [route_eq s htype] at hroutes
      exact (Fallible.mem_mapM_ok hroutes).mpr ⟨j, hj, hr⟩
    · intro h routes hroutes r hr
      rw [route_eq s htype] at hroutes
      obtain ⟨j, hj, hrj⟩ := (Fallible.mem_mapM_ok hroutes).mp hr
      exact hgood.mpr (h htype) j hj r hrj
  · refine iff_of_true (fun routes hroutes => ?_) fun h => absurd h htype
    rw [route, if_pos htype] at hroutes
    cases hroutes

end Respond

/-- The station next to x has no vehicles. -/
def twoStations : Provider where
  vehicleType := "bike"
  stations := [⟨"altstadt", "Altstadt", 0⟩, ⟨"bahnhof", "Bahnhof", 4⟩]
  freeBikes := []
  nodup_ids := by decide

def toStation : Query twoStations :=
  ⟨15, 20, [], [⟨0, by decide⟩], [⟨1, by decide⟩], ["8000068"], 0⟩

def cycled : ForwardTimes :=
  ⟨fun _ => none, fun _ _ => none, fun _ => some 60, fun _ _ => some 600, fun _ _ => some 60⟩

theorem not_usable_cycled : ¬∀ (provider : Provider) (undefined : Cost → UInt16) (q : Query provider)
    (s : Search) (routes : List RouteInfo), route undefined q s = .ok routes →
    ∀ r ∈ routes, Usable undefined q s r := by
  intro h
  have hroute : route (fun _ => 0) toStation (.forward cycled) = .ok [⟨"bike", .station "8000068",
      .stationBikeRoute ⟨"altstadt", "Altstadt"⟩ ⟨"bahnhof", "Bahnhof"⟩ 4 10 1, 15⟩] := by
    decide
  have husable := h twoStations (fun _ => 0) toStation (.forward cycled) _ hroute _
    (List.mem_cons_self ..)
  exact husable.vehicle _ _ _ _ _ rfl ⟨"altstadt", "Altstadt", 0⟩ (by decide) rfl rfl

end Motis.Gbfs
