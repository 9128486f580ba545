import Motis.Gbfs.RoutedDurations
import Motis.Intermodal.MumoEdges

/-! Edges along the streets.

    Where there is no way, `one_to_many` says 65535 seconds, and `table` the greatest `double`. An
    edge is made from such a number like from any other, unless it is above a limit:

        osrm_edges     up to the greatest duration of the mode
        ppr_edges      all
        GBFS           up to the limits of the request, and the best only -/

namespace Motis.Intermodal
open Gbfs (SearchDir)

/-! ### Lists -/

section Lists

variable {α β : Type} {f g : α → Option β} {l : List α}

theorem length_filterMap_le (h : ∀ a ∈ l, f a = none → g a = none) :
    (l.filterMap g).length ≤ (l.filterMap f).length := by
  induction l with
  | nil => exact le_rfl
  | cons a l ih =>
    obtain ⟨ha, hl⟩ := List.forall_mem_cons.mp h
    have hle := ih hl
    cases hf : f a with
    | none =>
      rw [List.filterMap_cons_none hf, List.filterMap_cons_none (ha hf)]
      exact hle
    | some b =>
      rw [List.filterMap_cons_some hf]
      cases hg : g a with
      | none =>
        rw [List.filterMap_cons_none hg]
        exact hle.trans (Nat.le_succ _)
      | some c =>
        rw [List.filterMap_cons_some hg]
        exact Nat.succ_le_succ hle

/-- A selection that chooses no less than another chooses the same exactly when it does so for
    every element. -/
theorem filterMap_eq_iff (h : ∀ a ∈ l, f a = none → g a = none) :
    l.filterMap f = l.filterMap g ↔ ∀ a ∈ l, f a = g a := by
  induction l with
  | nil => simp
  | cons a l ih =>
    obtain ⟨ha, hl⟩ := List.forall_mem_cons.mp h
    rw [List.forall_mem_cons, ← ih hl]
    cases hf : f a with
    | none =>
      rw [List.filterMap_cons_none hf, List.filterMap_cons_none (ha hf), ha hf]
      simp
    | some b =>
      rw [List.filterMap_cons_some hf]
      cases hg : g a with
      | none =>
        -- the first one chooses more
        have hle := length_filterMap_le hl
        rw [List.filterMap_cons_none hg]
        refine iff_of_false (fun heq => ?_) (by simp)
        have hlength := congrArg List.length heq
        rw [List.length_cons] at hlength
        omega
      | some c =>
        rw [List.filterMap_cons_some hg, List.cons.injEq, Option.some.injEq]

end Lists

/-! ### Edges of ways -/

section Ways

variable (undefined : ℕ → UInt16) (skip : ℕ → Prop) [DecidablePred skip] (kind : MumoKind)

/-- The edge to a station, unless it is skipped for what is said about its way. -/
def madeEdge (way : Option ℕ) (station : Station) : Option Found :=
  if skip (oneToManyDuration way) then none
  else some
    { id := station.id, pos := station.pos, duration := truncMinutes undefined (oneToManyDuration way)
      accessibility := 0, kind }

/-- The edge of a known way, in its minutes. -/
def wayEdge (way : Option ℕ) (station : Station) : Option Found :=
  way.bind fun s =>
    if skip s ∨ 2 ^ 16 ≤ s / 60 then none
    else some
      { id := station.id, pos := station.pos, duration := UInt16.ofNat (s / 60), accessibility := 0
        kind }

variable (stations : List Station) (ways : ℕ → Option ℕ)

def madeEdges : List Found :=
  stations.zipIdx.filterMap fun (station, i) => madeEdge undefined skip kind (ways i) station

def wayEdges : List Found :=
  stations.zipIdx.filterMap fun (station, i) => wayEdge skip kind (ways i) station

/-- A missing way is skipped, and every other one has few enough minutes. -/
def Usable (way : Option ℕ) : Prop :=
  (way = none → skip 65535) ∧ ∀ s, way = some s → ¬skip s → s / 60 < 2 ^ 16

variable {undefined skip kind stations ways}

theorem madeEdge_eq_none {way : Option ℕ} {station : Station} :
    madeEdge undefined skip kind way station = none ↔ skip (oneToManyDuration way) := by
  rw [madeEdge]
  split
  · rename_i hskip
    exact iff_of_true rfl hskip
  · rename_i hskip
    exact iff_of_false (Option.some_ne_none _) hskip

theorem wayEdge_some_eq_none {s : ℕ} {station : Station} :
    wayEdge skip kind (some s) station = none ↔ skip s ∨ 2 ^ 16 ≤ s / 60 := by
  rw [wayEdge, Option.bind_some]
  split
  · rename_i hskip
    exact iff_of_true rfl hskip
  · rename_i hskip
    exact iff_of_false (Option.some_ne_none _) hskip

theorem wayEdge_of_madeEdge {way : Option ℕ} {station : Station}
    (h : madeEdge undefined skip kind way station = none) : wayEdge skip kind way station = none := by
  cases way with
  | none => rfl
  | some s => exact wayEdge_some_eq_none.mpr (.inl (madeEdge_eq_none.mp h))

theorem madeEdge_eq_iff {way : Option ℕ} {station : Station} :
    madeEdge undefined skip kind way station = wayEdge skip kind way station ↔ Usable skip way := by
  cases way with
  | none =>
    constructor
    · intro h
      exact ⟨fun _ => madeEdge_eq_none.mp h, nofun⟩
    · intro h
      exact madeEdge_eq_none.mpr (h.1 rfl)
  | some s =>
    have husable : Usable skip (some s) ↔ (¬skip s → s / 60 < 2 ^ 16) := by
      simp [Usable]
    rw [husable]
    constructor
    · intro h hskip
      by_contra hfits
      have hmade := h.trans (wayEdge_some_eq_none.mpr (.inr (not_lt.mp hfits)))
      exact hskip (madeEdge_eq_none.mp hmade)
    · intro h
      by_cases hskip : skip s
      · exact (madeEdge_eq_none.mpr hskip).trans (wayEdge_some_eq_none.mpr (.inl hskip)).symm
      · have hlt := h hskip
        have hedge : ¬(skip s ∨ 2 ^ 16 ≤ s / 60) := not_or.mpr ⟨hskip, not_le.mpr hlt⟩
        have hminutes : truncMinutes undefined s = UInt16.ofNat (s / 60) := if_pos hlt
        rw [madeEdge, wayEdge, Option.bind_some, if_neg hedge, oneToManyDuration, Option.getD_some,
          if_neg hskip, hminutes]

/-- The edges are those of the known ways exactly when no missing way is taken for one. -/
theorem madeEdges_eq_iff : madeEdges undefined skip kind stations ways =
    wayEdges skip kind stations ways ↔ ∀ i < stations.length, Usable skip (ways i) := by
  rw [madeEdges, wayEdges, filterMap_eq_iff fun _ _ => wayEdge_of_madeEdge]
  simp only [madeEdge_eq_iff]
  constructor
  · intro h i hi
    exact h (stations[i], i) (List.mem_zipIdx_iff_getElem?.mpr (List.getElem?_eq_getElem hi))
  · rintro h ⟨station, i⟩ hmem
    exact h i (List.getElem?_eq_some_iff.mp (List.mem_zipIdx_iff_getElem?.mp hmem)).1

/-- Such an edge has a way, and its duration is that of the way. -/
theorem of_mem_wayEdges {e : Found} (h : e ∈ wayEdges skip kind stations ways) :
    ∃ i station s, stations[i]? = some station ∧ ways i = some s ∧ ¬skip s ∧ e.id = station.id ∧
      e.pos = station.pos ∧ e.duration.toNat = s / 60 := by
  obtain ⟨⟨station, i⟩, hmem, he⟩ := List.mem_filterMap.mp h
  obtain ⟨s, hway, he⟩ := Option.bind_eq_some_iff.mp he
  split at he
  · cases he
  · rename_i hskip
    obtain ⟨hskip, hfits⟩ := not_or.mp hskip
    obtain rfl := Option.some.inj he
    refine ⟨i, station, s, List.mem_zipIdx_iff_getElem?.mp hmem, hway, hskip, rfl, rfl, ?_⟩
    exact UInt16.toNat_ofNat_of_lt' (not_le.mp hfits)

theorem usable_false_iff {way : Option ℕ} :
    Usable (fun _ => False) way ↔ ∃ s, way = some s ∧ s / 60 < 2 ^ 16 := by
  cases way <;> simp [Usable]

end Ways

section Services

variable (services : Services)

/-- `osr::ppr` without paths: `cost->duration() / 60.0` minutes to each destination. -/
def osrPpr (direction : SearchDir) (start : LatLng) (destinations : List LatLng)
    (_searchOptions : SearchOptions) : List (List FootRoute) :=
  let costs := services.oneToMany "foot" direction start destinations
  destinations.zipIdx.map fun (_, i) =>
    [⟨truncMinutes services.undefined (oneToManyDuration (costs i)), 0⟩]

/-- The foot routes come from the same router. -/
def withOsr : Services := { services with pprRoute := osrPpr services }

variable {services} {pos : LatLng} {direction : SearchDir}

theorem zip_singletons {α β γ δ : Type} (l : List α) (f : α → β) (g : ℕ → γ) (mk : α → γ → δ) :
    (l.zip ((l.map f).zipIdx.map fun x => [g x.2])).flatMap (fun x => x.2.map (mk x.1)) =
      l.zipIdx.filterMap fun x => some (mk x.1 (g x.2)) := by
  have hzip : l.zip ((l.map f).zipIdx.map fun x => [g x.2]) =
      l.zipIdx.map fun x => (x.1, [g x.2]) :=
    List.ext_getElem (by simp) fun i _ _ => by simp
  rw [hzip, List.flatMap_map, List.filterMap_eq_flatMap_toList]
  rfl

variable (services) in
/-- The stations within the radius of a mode. -/
def osrmStations (pos : LatLng) (maxDur : ℤ) (speed : ℚ) : List Station :=
  let maxDist : ℚ := maxDur * speed
  services.geoStation pos (maxDist.num.tdiv maxDist.den : ℤ)

variable (services) in
def pprStations (pos : LatLng) (searchOptions : SearchOptions) : List Station :=
  services.geoStation pos
    (searchOptions.durationLimit * services.getWalkingSpeed searchOptions.profile)

variable (services) in
def waysTo (profile : String) (direction : SearchDir) (pos : LatLng) (stations : List Station) :
    ℕ → Option ℕ :=
  services.oneToMany profile direction pos (stations.map (·.pos))

theorem osrmEdges_eq (maxDur : ℤ) (speed : ℚ) (kind : MumoKind) :
    osrmEdges services pos maxDur speed kind direction =
      let stations := osrmStations services pos maxDur speed
      madeEdges services.undefined (fun dur => maxDur < dur) kind stations
        (waysTo services kind.type.toString direction pos stations) :=
  rfl

/-- Every station has one route. -/
theorem pprEdges_eq (searchOptions : SearchOptions) :
    pprEdges (withOsr services) pos searchOptions direction =
      if searchOptions.durationLimit = 0 then []
      else
        let stations := pprStations services pos searchOptions
        madeEdges services.undefined (fun _ => False) .foot stations
          (waysTo services "foot" direction pos stations) := by
  have hroutes := zip_singletons (pprStations services pos searchOptions) Station.pos
    (fun i => FootRoute.mk (truncMinutes services.undefined (oneToManyDuration
      (waysTo services "foot" direction pos (pprStations services pos searchOptions) i))) 0)
    (fun dest route => Found.mk dest.id dest.pos route.duration route.accessibility .foot 0)
  exact if_congr Iff.rfl rfl hroutes

/-! ### Known ways -/

/-- Of the edges to the stations around a position and of the routes with rented vehicles, each has
    a known way, and its minutes. -/
structure OnlyKnownWays (services : Services) (pos : LatLng) (direction : SearchDir) (maxDur : ℤ)
    (speed : ℚ) (kind : MumoKind) (searchOptions : SearchOptions) {provider : Gbfs.Provider}
    (undefined : Gbfs.Cost → UInt16) (q : Gbfs.Query provider) (s : Gbfs.Search) : Prop where
  osrm : osrmEdges (withOsr services) pos maxDur speed kind direction =
    let stations := osrmStations services pos maxDur speed
    wayEdges (fun dur => maxDur < dur) kind stations
      (waysTo services kind.type.toString direction pos stations)
  ppr : pprEdges (withOsr services) pos searchOptions direction =
    if searchOptions.durationLimit = 0 then []
    else
      let stations := pprStations services pos searchOptions
      wayEdges (fun _ => False) .foot stations (waysTo services "foot" direction pos stations)
  gbfs : Gbfs.RoutesBacked undefined q s

/-- What the routers have to know. -/
structure WaysKnown (services : Services) (pos : LatLng) (direction : SearchDir) (maxDur : ℤ)
    (speed : ℚ) (kind : MumoKind) (searchOptions : SearchOptions) {provider : Gbfs.Provider}
    (undefined : Gbfs.Cost → UInt16) (q : Gbfs.Query provider) (s : Gbfs.Search) : Prop where
  /-- The limit is below the number for a missing way, or there is none. -/
  osrm : let stations := osrmStations services pos maxDur speed
    ∀ i < stations.length, Usable (fun dur => maxDur < dur)
      (waysTo services kind.type.toString direction pos stations i)
  /-- There is a way to every station. -/
  ppr : searchOptions.durationLimit ≠ 0 →
    let stations := pprStations services pos searchOptions
    ∀ i < stations.length, ∃ s, waysTo services "foot" direction pos stations i = some s ∧
      s / 60 < 2 ^ 16
  /-- A candidate with a missing way is beaten by one without. -/
  gbfs : provider.vehicleType = "car" ∨ provider.vehicleType = "bike" → ∀ p < q.targets,
    Best.Beaten s.total 65535 s.Storable (s.candidates undefined q p)

/-- Each edge and each route has a known way and its minutes, exactly when the limit of a mode is below
    the number for a missing way or none is missing, a foot profile reaches every stop, and each
    candidate with a missing way is beaten. -/
theorem onlyKnownWays_iff (services : Services) (pos : LatLng) (direction : SearchDir) (maxDur : ℤ)
    (speed : ℚ) (kind : MumoKind) (searchOptions : SearchOptions) {provider : Gbfs.Provider}
    (undefined : Gbfs.Cost → UInt16) (q : Gbfs.Query provider) (s : Gbfs.Search) :
    OnlyKnownWays services pos direction maxDur speed kind searchOptions undefined q s ↔
      WaysKnown services pos direction maxDur speed kind searchOptions undefined q s := by
  constructor
  · rintro ⟨hosrm, hppr, hgbfs⟩
    rw [osrmEdges_eq] at hosrm
    refine ⟨madeEdges_eq_iff.mp hosrm, fun hlimit i hi => ?_,
      (Gbfs.routesBacked_iff s).mp hgbfs⟩
    rw [pprEdges_eq, if_neg hlimit, if_neg hlimit] at hppr
    exact usable_false_iff.mp (madeEdges_eq_iff.mp hppr i hi)
  · rintro ⟨hosrm, hppr, hgbfs⟩
    refine ⟨(osrmEdges_eq ..).trans (madeEdges_eq_iff.mpr hosrm), ?_,
      (Gbfs.routesBacked_iff s).mpr hgbfs⟩
    rw [pprEdges_eq]
    by_cases hlimit : searchOptions.durationLimit = 0
    · rw [if_pos hlimit, if_pos hlimit]
    · rw [if_neg hlimit, if_neg hlimit]
      exact madeEdges_eq_iff.mpr fun i hi => usable_false_iff.mpr (hppr hlimit i hi)

end Services

/-- A stop that no way leads to. -/
def island : Services where
  distance _ _ := 0
  getWalkingSpeed _ := 3 / 2
  geoStation _ _ := [⟨"8000068", 0, 0⟩]
  oneToMany _ _ _ _ _ := none
  pprRoute _ _ _ _ := []
  parkingEdges _ _ _ _ := []
  gbfsRoute _ _ _ _ _ _ := []
  undefined _ := 0

/-- It is 1092 minutes away. -/
theorem pprEdges_island : pprEdges (withOsr island) {} ⟨"default", 900⟩ .forward =
    [{ id := "8000068", pos := ⟨0, 0⟩, duration := 1092, accessibility := 0, kind := .foot }] := by
  rw [pprEdges_eq, if_neg (by decide)]
  rfl

theorem not_onlyKnownWays_island : ¬∀ (services : Services) (pos : LatLng) (direction : SearchDir)
    (maxDur : ℤ) (speed : ℚ) (kind : MumoKind) (searchOptions : SearchOptions)
    (provider : Gbfs.Provider) (undefined : Gbfs.Cost → UInt16) (q : Gbfs.Query provider)
    (s : Gbfs.Search),
    OnlyKnownWays services pos direction maxDur speed kind searchOptions undefined q s := by
  intro h
  have hppr := (h island {} .forward 900 walkSpeed .foot ⟨"default", 900⟩ Gbfs.oneVehicle
    (fun _ => 0) Gbfs.rental (.forward (Gbfs.ridden (some 290)))).ppr
  rw [pprEdges_island, if_neg (by decide)] at hppr
  cases hppr

end Motis.Intermodal
