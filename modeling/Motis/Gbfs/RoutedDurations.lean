import Motis.Gbfs.DirectTargets

/-! The ways that a route uses.

    A route names its durations in minutes. They are those of the ways between its places when the
    street routers know all of them, and none is too long for its field:

        seconds     [walk, ride, walk]
        minutes     [⌈walk⌉ + 3, ⌈ride⌉, ⌈walk⌉]     -/

namespace Motis.Gbfs
open Best

/-- What the street routers know about the ways of a journey, in travel order. -/
def Search.entries : Search → JourneyInfo → List (Option ℕ)
  | .forward t, .b _ _ b p => [t.xToB b, t.bToP b p]
  | .forward t, .s _ _ _ sx sp p => [t.xToSx sx, t.sxToSp sx sp, t.spToP sp p]
  | .backward t, .b _ _ b p => [t.pToB p b, t.bToX b]
  | .backward t, .s _ _ _ sx sp p => [t.pToSp p sp, t.spToSx sp sx, t.sxToX sx]

/-- The minutes of a route: the first walk includes the time to get the vehicle ready. -/
def routeMinutes (seconds : List ℕ) : List ℕ :=
  (seconds.map ceilMinutes).modifyHead (· + bikeReadyTime)

/-- The ready time in the total. -/
def Search.readyTime : Search → JourneyInfo → ℕ
  | .backward _, .b .. => 0
  | _, _ => bikeReadyTime

/-- The journey has only known ways, and the route their durations. -/
def Search.Backed (s : Search) (c : JourneyInfo) (r : RouteInfo) : Prop :=
  ∃ seconds, s.entries c = seconds.map some ∧ r.route.durations = routeMinutes seconds ∧
    r.totalDuration = (seconds.map ceilMinutes).sum + s.readyTime c

/-- The journey has only known ways, with minutes that fit into 16 bits. -/
def Search.Storable (s : Search) (c : JourneyInfo) : Prop :=
  ∃ seconds, s.entries c = seconds.map some ∧ ∀ m ∈ routeMinutes seconds, m < 2 ^ 16

/-- Every route has the durations of the ways of its journey. -/
def RoutesBacked {provider : Provider} (undefined : Cost → UInt16) (q : Query provider)
    (s : Search) : Prop :=
  ∀ routes, route undefined q s = .ok routes →
    List.Forall₂ (fun j r => routeInfo q s.dir j.1 j.2 = .ok r ∧ s.Backed j.2 r)
      (validJourneys (bestJourneys undefined q s)) routes

section Backed

variable {provider : Provider} {undefined : Cost → UInt16} {q : Query provider}

theorem toDuration_lt (cost : Cost) : toDuration undefined cost < 2 ^ 16 := by
  cases cost with
  | seconds s =>
    rw [toDuration]
    split
    · assumption
    · exact UInt16.toNat_lt _
  | max => exact UInt16.toNat_lt _

/-- The minutes of a known way, if a `duration` holds them. -/
theorem toDuration_seconds_iff {s : ℕ} :
    toDuration undefined (.seconds s) = ceilMinutes s ↔ ceilMinutes s < 2 ^ 16 := by
  constructor
  · intro h
    exact h ▸ toDuration_lt (.seconds s)
  · intro h
    rw [toDuration, if_pos h]

/-- A duration was read from an entry. -/
def ReadFrom (undefined : Cost → UInt16) (entry : Option ℕ) (d : ℕ) : Prop :=
  ∃ cost, d = toDuration undefined cost ∧ ∀ s, entry = some s → cost = .seconds s

theorem readFrom_table (entry : Option ℕ) :
    ReadFrom undefined entry (toDuration undefined (tableCost entry)) :=
  ⟨_, rfl, by rintro s rfl; rfl⟩

theorem readFrom_oneToMany (entry : Option ℕ) :
    ReadFrom undefined entry (toDuration undefined (oneToManyCost entry)) :=
  ⟨_, rfl, by rintro s rfl; rfl⟩

theorem ReadFrom.eq_iff {s d : ℕ} (h : ReadFrom undefined (some s) d) :
    d = ceilMinutes s ↔ ceilMinutes s < 2 ^ 16 := by
  obtain ⟨cost, rfl, hcost⟩ := h
  rw [hcost s rfl, toDuration_seconds_iff]

theorem readFrom_map_iff {seconds ds : List ℕ}
    (h : List.Forall₂ (ReadFrom undefined) (seconds.map some) ds) :
    ds = seconds.map ceilMinutes ↔ ∀ m ∈ seconds.map ceilMinutes, m < 2 ^ 16 := by
  induction seconds generalizing ds with
  | nil =>
    cases h
    simp
  | cons s seconds ih =>
    obtain _ | ⟨hd, hds⟩ := h
    rw [List.map_cons, List.cons.injEq, List.forall_mem_cons, hd.eq_iff, ih hds]

/-- The durations of a route, with the ready time in the first one, are those of its ways exactly
    when all of these fit. -/
theorem routeMinutes_iff {seconds ds : List ℕ}
    (h : List.Forall₂ (ReadFrom undefined) (seconds.map some) ds) :
    ds.modifyHead (fun d => (d + bikeReadyTime) % 2 ^ 16) = routeMinutes seconds ↔
      ∀ m ∈ routeMinutes seconds, m < 2 ^ 16 := by
  cases seconds with
  | nil =>
    cases h
    simp [routeMinutes]
  | cons s seconds =>
    obtain _ | ⟨hd, hds⟩ := h
    rename_i d ds
    have hhead : (d + bikeReadyTime) % 2 ^ 16 = ceilMinutes s + bikeReadyTime ↔
        ceilMinutes s + bikeReadyTime < 2 ^ 16 := by
      constructor
      · intro heq
        exact heq ▸ Nat.mod_lt _ (by decide)
      · intro hlt
        rw [hd.eq_iff.mpr (by omega), Nat.mod_eq_of_lt hlt]
    rw [routeMinutes, List.map_cons, List.modifyHead_cons, List.modifyHead_cons, List.cons.injEq,
      List.forall_mem_cons, hhead, readFrom_map_iff hds]

theorem fits_of_routeMinutes {seconds : List ℕ} (h : ∀ m ∈ routeMinutes seconds, m < 2 ^ 16) :
    ∀ m ∈ seconds.map ceilMinutes, m < 2 ^ 16 := by
  cases seconds with
  | nil => exact h
  | cons s seconds =>
    rw [routeMinutes, List.map_cons, List.modifyHead_cons, List.forall_mem_cons] at h
    rw [List.map_cons, List.forall_mem_cons]
    exact ⟨by omega, h.2⟩

/-! ### Journeys -/

def JourneyInfo.durations : JourneyInfo → List ℕ
  | .s firstWalk ride secondWalk _ _ _ => [firstWalk, ride, secondWalk]
  | .b walk ride _ _ => [walk, ride]

/-- The durations of a candidate are read from the entries of its ways. -/
theorem readFrom_entries {s : Search} {p : ℕ} {c : JourneyInfo}
    (hc : c ∈ s.candidates undefined q p) :
    List.Forall₂ (ReadFrom undefined) (s.entries c) c.durations := by
  have hways := Search.candidates_ways hc
  cases s with
  | forward t =>
    rcases mem_candidatesFwd_cases hways with ⟨b, -, rfl⟩ | ⟨sx, -, sp, -, rfl⟩
    · exact .cons (readFrom_oneToMany _) (.cons (readFrom_table _) .nil)
    · exact .cons (readFrom_oneToMany _) (.cons (readFrom_table _) (.cons (readFrom_table _) .nil))
  | backward t =>
    rcases mem_candidatesBwd_cases hways with ⟨b, -, rfl⟩ | ⟨sx, -, sp, -, -, rfl⟩
    · exact .cons (readFrom_table _) (.cons (readFrom_oneToMany _) .nil)
    · exact .cons (readFrom_table _) (.cons (readFrom_table _) (.cons (readFrom_oneToMany _) .nil))

theorem routeInfo_durations {dir : SearchDir} {total : ℕ} {c : JourneyInfo} {r : RouteInfo}
    (h : routeInfo q dir total c = .ok r) : r.route.durations =
      c.durations.modifyHead fun d => (d + bikeReadyTime) % 2 ^ 16 := by
  cases c with
  | b =>
    obtain ⟨_, -, h⟩ := Fallible.bind_ok h
    cases h
    rfl
  | s =>
    obtain ⟨_, -, h⟩ := Fallible.bind_ok h
    obtain ⟨_, -, h⟩ := Fallible.bind_ok h
    cases h
    rfl

theorem total_eq (s : Search) (c : JourneyInfo) :
    s.total c = c.durations.sum + s.readyTime c := by
  cases s <;> cases c <;>
    simp only [Search.total, totalFwd, totalBwd, JourneyInfo.durations, Search.readyTime,
      List.sum_cons, List.sum_nil] <;> omega

theorem backed_iff {s : Search} {p : ℕ} {c : JourneyInfo} {r : RouteInfo}
    (hc : c ∈ s.candidates undefined q p) (hr : routeInfo q s.dir (s.total c) c = .ok r) :
    s.Backed c r ↔ s.Storable c := by
  have hread := readFrom_entries hc
  refine exists_congr fun seconds => and_congr_right fun hentries => ?_
  rw [hentries] at hread
  rw [routeInfo_durations hr, routeMinutes_iff hread, routeInfo_totalDuration hr, total_eq]
  refine and_iff_left_of_imp fun hfits => ?_
  rw [(readFrom_map_iff hread).mpr (fits_of_routeMinutes hfits)]

/-! ### Routes -/

/-- No route uses a way that nobody knows or a duration that does not fit, exactly when every
    candidate that does is beaten by one that does not. -/
theorem routesBacked_iff (s : Search) : RoutesBacked undefined q s ↔
    (provider.vehicleType = "car" ∨ provider.vehicleType = "bike") →
      ∀ p < q.targets, Beaten s.total 65535 s.Storable (s.candidates undefined q p) := by
  by_cases htype : provider.vehicleType = "car" ∨ provider.vehicleType = "bike"
  · have hgood := kept_good_iff undefined q (P := s.Backed) fun hmem _ hr => backed_iff hmem hr
    constructor
    · intro h _
      obtain ⟨routes, hroutes⟩ := exists_route undefined q s htype
      have hbacked := h routes hroutes
      rw [route_eq s htype] at hroutes
      exact hgood.mp ((Fallible.forall₂_mapM_iff hroutes).mp hbacked)
    · intro h routes hroutes
      rw [route_eq s htype] at hroutes
      exact (Fallible.forall₂_mapM_iff hroutes).mpr (hgood.mpr (h htype))
  · refine iff_of_true (fun routes hroutes => ?_) fun h => absurd h htype
    rw [route, if_pos htype] at hroutes
    cases hroutes

end Backed

end Motis.Gbfs
