import Mathlib.Algebra.Order.Floor.Semifield
import Mathlib.Data.Rat.Floor
import Motis.Intermodal.StreetEdges
import Motis.Lib.Fallible

/-! Foot routes of the street router: `osr::ppr`.

    A request with `include_path` is one search for each destination, any other a single search for
    all of them:

        include_path       via           time, distance        minutes    minutes
        otherwise          one_to_many   duration, distance    minutes    seconds
                                                               duration   duration_exact

    The router itself is another project's. Numbers that are `double` are rationals here. -/

namespace Motis.Osr

open Gbfs (SearchDir)
open Intermodal

inductive SearchProfile where
  | wheelchair | foot | bike | car
  /-- Any profile that has no case. -/
  | other
  deriving DecidableEq, Repr

/-- An `o::path`: its cost in seconds, its length in metres, and the lines of its segments. -/
structure Path where
  cost : UInt16
  dist : ℚ
  segments : List (List LatLng) := []
  deriving DecidableEq, Repr

/-- Latitudes and longitudes in turn. -/
def Path.doubles (p : Path) : List Double :=
  p.segments.flatMap fun s => s.flatMap fun pos => [pos.lat, pos.lng]

/-- `o::route`, to one and to several locations, up to a cost. -/
structure Router where
  toProfile : String → SearchProfile
  route : SearchProfile → LatLng → LatLng → UInt16 → SearchDir → Option Path
  routeMany : SearchProfile → LatLng → List LatLng → UInt16 → SearchDir → List (Option Path)
  toProfile_foot : toProfile "foot" = .foot
  /-- One result for each location. -/
  length_routeMany : ∀ profile start dests maxDist dir,
    (routeMany profile start dests maxDist dir).length = dests.length

def maxDist : UInt16 := 3600

/-- The cases of the profiles. -/
def handled : SearchProfile → Except String SearchProfile
  | .other => .error "not implemented"
  | profile => .ok profile

/-! ### The searches -/

structure OneToManyRequest where
  profile : String
  direction : SearchDir
  one : LatLng
  many : List LatLng

structure Cost where
  duration : ℚ
  distance : ℚ
  deriving DecidableEq, Repr

structure ViaRouteRequest where
  profile : String
  waypoints : List LatLng

structure ViaRouteResponse where
  time : ℤ
  distance : ℚ
  polyline : List Double

section Searches

variable (router : Router)

def oneToMany (req : OneToManyRequest) : Except String (List Cost) := do
  let profile ← handled (router.toProfile req.profile)
  let result := router.routeMany profile req.one req.many maxDist req.direction
  pure (result.map fun
    | some r => ⟨r.cost.toNat, r.dist⟩
    | none => ⟨65535, 65535⟩)

def via (req : ViaRouteRequest) : Except String ViaRouteResponse :=
  match req.waypoints with
  | [start, dest] => do
    let profile ← handled (router.toProfile req.profile)
    match router.route profile start dest maxDist .forward with
    | none => .error "no path found"
    | some result =>
      pure
        { time := result.cost.toNat, distance := result.dist
          polyline := result.doubles }
  | _ => .error "no via points supported"

end Searches

/-! ### The request -/

structure FootRoutingRequest where
  start : LatLng
  destinations : List LatLng
  searchOptions : SearchOptions
  searchDirection : SearchDir
  includePath : Bool

/-- A `ppr::Route`, the steps and the edges of which are always empty. -/
structure Route where
  distance : ℚ
  duration : UInt16
  durationExact : ℚ
  durationDivision : ℚ := 0
  accessibility : UInt16 := 0
  accessibilityExact : ℚ := 0
  accessibilityDivision : ℚ := 0
  start : LatLng
  destination : LatLng
  path : List Double
  elevationUp : ℤ := 0
  elevationDown : ℤ := 0

/-- The conversion of a `double` to the `ushort` of a table. -/
def toUShort (x : ℚ) : UInt16 := .ofNat ⌊x⌋₊

/-- The routes to each destination. -/
def ppr (router : Router) (req : FootRoutingRequest) : Except String (List (List Route)) :=
  if req.includePath then
    req.destinations.mapM fun dest => do
      let fromTo := match req.searchDirection with
        | .forward => [req.start, dest]
        | .backward => [dest, req.start]
      let res ← via router ⟨"foot", fromTo⟩
      pure
        [{ distance := res.distance, duration := toUShort (res.time / 60)
           durationExact := res.time / 60, start := req.start, destination := dest
           path := res.polyline }]
  else do
    let costs ← oneToMany router ⟨"foot", req.searchDirection, req.start, req.destinations⟩
    pure (List.zipWith (fun cost dest =>
      [{ distance := cost.distance / 60, duration := toUShort (cost.duration / 60)
         durationExact := cost.duration, start := req.start, destination := dest
         path := [] }]) costs req.destinations)

/-- `/ppr/route`, as it is asked for edges. -/
def pprRoute (router : Router) (direction : SearchDir) (start : LatLng)
    (destinations : List LatLng) (searchOptions : SearchOptions) : List (List FootRoute) :=
  match ppr router ⟨start, destinations, searchOptions, direction, false⟩ with
  | .ok routes => routes.map fun rs => rs.map fun r => ⟨r.duration, r.accessibility⟩
  | .error _ => []

/-! ### One search for each destination -/

section Ways

variable (router : Router) (req : FootRoutingRequest)

/-- The way that is searched for one destination. -/
def wayTo (dest : LatLng) : Option Path :=
  match req.searchDirection with
  | .forward => router.route .foot req.start dest maxDist .forward
  | .backward => router.route .foot dest req.start maxDist .forward

/-- The ways that are searched for all destinations. -/
def waysToAll : List (Option Path) :=
  router.routeMany .foot req.start req.destinations maxDist req.searchDirection

def pathRoute (dest : LatLng) (p : Path) : Route where
  distance := p.dist
  duration := toUShort (p.cost.toNat / 60)
  durationExact := p.cost.toNat / 60
  start := req.start
  destination := dest
  path := p.doubles

/-- The seconds of a way, or of a missing one. -/
def seconds : Option Path → ℕ
  | some p => p.cost.toNat
  | none => 65535

def metres : Option Path → ℚ
  | some p => p.dist
  | none => 65535

def costRoute (dest : LatLng) (way : Option Path) : Route where
  distance := metres way / 60
  duration := toUShort (seconds way / 60)
  durationExact := seconds way
  start := req.start
  destination := dest
  path := []

theorem via_foot (start dest : LatLng) : via router ⟨"foot", [start, dest]⟩ =
    match router.route .foot start dest maxDist .forward with
    | none => .error "no path found"
    | some p => .ok ⟨p.cost.toNat, p.dist, p.doubles⟩ := by
  rw [via, router.toProfile_foot]
  rfl

theorem ppr_path : ppr router { req with includePath := true } = req.destinations.mapM fun dest =>
    match wayTo router req dest with
    | none => .error "no path found"
    | some p => .ok [pathRoute req dest p] := by
  rw [ppr, if_pos rfl]
  refine congrArg (fun f => List.mapM f req.destinations) (funext fun dest => ?_)
  rw [wayTo]
  cases req.searchDirection <;> dsimp only <;> rw [via_foot]
  · cases router.route .foot req.start dest maxDist .forward <;> rfl
  · cases router.route .foot dest req.start maxDist .forward <;> rfl

theorem ppr_costs : ppr router { req with includePath := false } =
    .ok (List.zipWith (fun way dest => [costRoute req dest way]) (waysToAll router req)
      req.destinations) := by
  rw [ppr, if_neg Bool.false_ne_true]
  simp only [oneToMany, router.toProfile_foot, handled]
  show Except.ok (List.zipWith _ (List.map _ (waysToAll router req)) req.destinations) = _
  rw [List.zipWith_map_left]
  refine congrArg (fun f => Except.ok (List.zipWith f _ _)) (funext₂ fun way dest => ?_)
  cases way <;> rfl

end Ways

/-! ### Answers with and without paths -/

/-- The numbers of two routes are the same. -/
def SameAnswer (r r' : Route) : Prop :=
  r.distance = r'.distance ∧ r.duration = r'.duration ∧ r.durationExact = r'.durationExact

def SameAnswers : Except String (List (List Route)) → Except String (List (List Route)) → Prop
  | .ok routes, .ok routes' => List.Forall₂ (List.Forall₂ SameAnswer) routes routes'
  | .error e, .error e' => e = e'
  | _, _ => False

section Answers

variable {router : Router} {req : FootRoutingRequest}

variable (router req) in
theorem length_waysToAll : (waysToAll router req).length = req.destinations.length :=
  router.length_routeMany ..

theorem toNat_toUShort {c : ℕ} (h : c < 2 ^ 16) : (toUShort ((c : ℚ) / 60)).toNat = c / 60 := by
  have hfloor : ⌊(c : ℚ) / 60⌋₊ = c / 60 := Nat.floor_div_eq_div c 60
  rw [toUShort, hfloor]
  exact UInt16.toNat_ofNat_of_lt' ((Nat.div_le_self c 60).trans_lt h)

theorem seconds_lt (way : Option Path) : seconds way < 2 ^ 16 := by
  cases way with
  | none => decide
  | some p => exact p.cost.toNat_lt

/-- Minutes and seconds are the same for no time only, and lengths differ by a factor of 60. -/
theorem pathRoute_same_costRoute_iff {dest : LatLng} {p : Path} {way : Option Path} :
    SameAnswer (pathRoute req dest p) (costRoute req dest way) ↔
      ∃ q, way = some q ∧ p.cost = 0 ∧ q.cost = 0 ∧ p.dist = q.dist / 60 := by
  constructor
  · rintro ⟨hdistance, hduration, hexact⟩
    have hexact : (p.cost.toNat : ℚ) / 60 = seconds way := hexact
    have hseconds : p.cost.toNat = 60 * seconds way := by
      rw [div_eq_iff (by norm_num)] at hexact
      rw [Nat.mul_comm]
      exact_mod_cast hexact
    have hminutes : p.cost.toNat / 60 = seconds way / 60 := by
      rw [← toNat_toUShort p.cost.toNat_lt, ← toNat_toUShort (seconds_lt way)]
      exact congrArg UInt16.toNat hduration
    have hzero : seconds way = 0 := by omega
    cases way with
    | none => exact absurd hzero (by decide)
    | some q =>
      have hp : p.cost.toNat = 0 := by rw [hseconds, hzero]
      exact ⟨q, rfl, UInt16.toNat_inj.mp hp, UInt16.toNat_inj.mp hzero, hdistance⟩
  · rintro ⟨q, rfl, hp, hq, hdist⟩
    have hp : p.cost.toNat = 0 := by rw [hp]; rfl
    have hq : seconds (some q) = 0 := by rw [seconds, hq]; rfl
    refine ⟨hdist, ?_, ?_⟩
    · rw [pathRoute, costRoute, hp, hq]
    · rw [pathRoute, costRoute, hp, hq, Nat.cast_zero, zero_div]

theorem forall₂_comp_zipWith {α β γ δ : Type} {P : α → β → Prop} {R : β → δ → Prop} {g : γ → α → δ}
    {as : List α} {cs : List γ} (hlength : cs.length = as.length) :
    (∃ bs, List.Forall₂ P as bs ∧ List.Forall₂ R bs (List.zipWith g cs as)) ↔
      List.Forall₂ (fun a c => ∃ b, P a b ∧ R b (g c a)) as cs := by
  induction as generalizing cs with
  | nil =>
    obtain rfl := List.length_eq_zero_iff.mp hlength
    exact iff_of_true ⟨[], .nil, .nil⟩ .nil
  | cons a as ih =>
    obtain ⟨c, cs, rfl⟩ := List.exists_cons_of_length_eq_add_one hlength
    have ih := ih (Nat.succ.inj hlength)
    rw [List.forall₂_cons, ← ih]
    constructor
    · rintro ⟨_, hP, hR⟩
      cases hP with
      | cons hab hrest =>
        obtain ⟨hb, hR⟩ := List.forall₂_cons.mp hR
        exact ⟨⟨_, hab, hb⟩, _, hrest, hR⟩
    · rintro ⟨⟨b, hab, hb⟩, bs, hrest, hR⟩
      exact ⟨b :: bs, .cons hab hrest, .cons hb hR⟩

variable (router req) in
/-- Both searches find a way to each destination, of no time. -/
def NoTime : Prop :=
  List.Forall₂ (fun dest way => ∃ p q, wayTo router req dest = some p ∧ way = some q ∧
    p.cost = 0 ∧ q.cost = 0 ∧ p.dist = q.dist / 60) req.destinations (waysToAll router req)

theorem sameAnswers_ok_iff {x : Except String (List (List Route))} {routes : List (List Route)} :
    SameAnswers x (.ok routes) ↔
      ∃ rs, x = .ok rs ∧ List.Forall₂ (List.Forall₂ SameAnswer) rs routes := by
  cases x <;> simp [SameAnswers]

/-- With paths, there is a way to each destination, or no answer. -/
theorem ppr_path_ok_iff {routes : List (List Route)} :
    ppr router { req with includePath := true } = .ok routes ↔
      List.Forall₂ (fun dest rs => ∃ p, wayTo router req dest = some p ∧ rs = [pathRoute req dest p])
        req.destinations routes := by
  rw [ppr_path]
  constructor
  · intro h
    refine (Fallible.mapM_ok h).imp fun dest rs hrs => ?_
    split at hrs
    · cases hrs
    · rename_i p hp
      exact ⟨p, hp, (Except.ok.inj hrs).symm⟩
  · intro h
    refine Fallible.mapM_of_forall₂ (h.imp fun dest rs hrs => ?_)
    obtain ⟨p, hp, rfl⟩ := hrs
    rw [hp]

theorem sameAnswers_iff : SameAnswers (ppr router { req with includePath := true })
    (ppr router { req with includePath := false }) ↔ NoTime router req := by
  have hway : ∀ dest way, (∃ rs, (∃ p, wayTo router req dest = some p ∧
      rs = [pathRoute req dest p]) ∧ List.Forall₂ SameAnswer rs [costRoute req dest way]) ↔
      ∃ p q, wayTo router req dest = some p ∧ way = some q ∧ p.cost = 0 ∧ q.cost = 0 ∧
        p.dist = q.dist / 60 := by
    intro dest way
    constructor
    · rintro ⟨_, ⟨p, hp, rfl⟩, hrs⟩
      obtain ⟨q, hq, hcosts⟩ := pathRoute_same_costRoute_iff.mp (List.forall₂_cons.mp hrs).1
      exact ⟨p, q, hp, hq, hcosts⟩
    · rintro ⟨p, q, hp, hq, hcosts⟩
      exact ⟨_, ⟨p, hp, rfl⟩, .cons (pathRoute_same_costRoute_iff.mpr ⟨q, hq, hcosts⟩) .nil⟩
  rw [ppr_costs, sameAnswers_ok_iff]
  simp only [ppr_path_ok_iff]
  rw [forall₂_comp_zipWith (length_waysToAll router req), NoTime]
  simp only [hway]

/-! ### Edges -/

variable (router) in
/-- The seconds of the ways, for the modes of a request. -/
def waySeconds (profile : String) (direction : SearchDir) (start : LatLng)
    (destinations : List LatLng) (i : ℕ) : Option ℕ :=
  let ways := router.routeMany (router.toProfile profile) start destinations maxDist direction
  (ways[i]?.join).map (·.cost.toNat)

theorem truncMinutes_eq (undefined : ℕ → UInt16) (way : Option Path) :
    truncMinutes undefined (oneToManyDuration (way.map (·.cost.toNat))) =
      toUShort (seconds way / 60) := by
  have hseconds : oneToManyDuration (way.map (·.cost.toNat)) = seconds way := by
    cases way <;> rfl
  have hlt : seconds way / 60 < 2 ^ 16 := (Nat.div_le_self ..).trans_lt (seconds_lt way)
  rw [hseconds, truncMinutes, if_pos hlt]
  apply UInt16.toNat_inj.mp
  rw [toNat_toUShort (seconds_lt way), UInt16.toNat_ofNat_of_lt' hlt]

/-- The foot routes of the modes are these. -/
theorem pprRoute_eq (services : Services) :
    pprRoute router = osrPpr { services with oneToMany := waySeconds router } := by
  funext direction start destinations searchOptions
  have hlength := router.length_routeMany .foot start destinations maxDist direction
  rw [pprRoute, ppr_costs router ⟨start, destinations, searchOptions, direction, false⟩]
  refine List.ext_getElem (by simp [osrPpr, waysToAll, hlength]) fun i hi hi' => ?_
  have hi : i < destinations.length := by simpa [osrPpr] using hi'
  have hget : (router.routeMany .foot start destinations maxDist direction)[i]? =
      some (router.routeMany .foot start destinations maxDist direction)[i] :=
    List.getElem?_eq_getElem (hi.trans_eq hlength.symm)
  simp [osrPpr, waysToAll, costRoute, waySeconds, router.toProfile_foot, hget, truncMinutes_eq]

/-- Of the edges for a request, one for each station. -/
theorem pprEdges_eq_madeEdges {services : Services} (hroute : services.pprRoute = pprRoute router)
    (hstations : (pprStations services req.start req.searchOptions).map (·.pos) =
      req.destinations) :
    pprEdges services req.start req.searchOptions req.searchDirection =
      if req.searchOptions.durationLimit = 0 then []
      else madeEdges services.undefined (fun _ => False) .foot
        (pprStations services req.start req.searchOptions)
        (waySeconds router "foot" req.searchDirection req.start req.destinations) := by
  have hservices : pprEdges services req.start req.searchOptions req.searchDirection =
      pprEdges (withOsr { services with oneToMany := waySeconds router }) req.start
        req.searchOptions req.searchDirection := by
    rw [withOsr, ← pprRoute_eq, ← hroute]
    rfl
  rw [hservices, pprEdges_eq, ← hstations]
  rfl

/-- Without a limit, every station has an edge. -/
theorem map_madeEdges (undefined : ℕ → UInt16) (stations : List Station) (ways : ℕ → Option ℕ) :
    (madeEdges undefined (fun _ => False) .foot stations ways).map (·.duration) =
      stations.zipIdx.map fun x => truncMinutes undefined (oneToManyDuration (ways x.2)) := by
  rw [madeEdges, List.map_filterMap, ← List.filterMap_eq_map]
  refine congrArg (fun f => List.filterMap f stations.zipIdx) (funext fun x => ?_)
  show (madeEdge undefined (fun _ => False) .foot (ways x.2) x.1).map _ = _
  rw [madeEdge, if_neg not_false]
  rfl

/-- The edges have the minutes of the ways, unless the limit is 0. -/
theorem map_pprEdges {services : Services} (hroute : services.pprRoute = pprRoute router)
    (hstations : (pprStations services req.start req.searchOptions).map (·.pos) =
      req.destinations) :
    (pprEdges services req.start req.searchOptions req.searchDirection).map (·.duration) =
      if req.searchOptions.durationLimit = 0 then []
      else (waysToAll router req).map fun way => toUShort (seconds way / 60) := by
  have hlength : (pprStations services req.start req.searchOptions).length =
      (waysToAll router req).length := by
    rw [length_waysToAll, ← hstations, List.length_map]
  rw [pprEdges_eq_madeEdges hroute hstations]
  split
  · rfl
  · rw [map_madeEdges]
    refine List.ext_getElem (by simp [hlength]) fun i hi hi' => ?_
    have hlt : i < (waysToAll router req).length := by simpa using hi'
    have hget : (waysToAll router req)[i]? = some (waysToAll router req)[i] :=
      List.getElem?_eq_getElem hlt
    have hway : waySeconds router "foot" req.searchDirection req.start req.destinations i =
        (waysToAll router req)[i].map (·.cost.toNat) := by
      rw [waySeconds, router.toProfile_foot]
      exact congrArg (fun way => (Option.join way).map (·.cost.toNat)) hget
    simp [hway, truncMinutes_eq]

variable (router req) in
/-- The edges from the start to stations at the destinations keep the limit. -/
def WithinLimit : Prop := ∀ services : Services, services.pprRoute = pprRoute router →
  (pprStations services req.start req.searchOptions).map (·.pos) = req.destinations →
  ∀ e ∈ pprEdges services req.start req.searchOptions req.searchDirection,
    60 * (e.duration.toNat : ℚ) ≤ req.searchOptions.durationLimit

/-- What is said about a request, with a conversion of `duration_exact`. -/
structure OneAnswer (f : ℚ → UInt16) (router : Router) (req : FootRoutingRequest) : Prop where
  sameAnswers : SameAnswers (ppr router { req with includePath := true })
    (ppr router { req with includePath := false })
  conversion : ∀ includePath routes, ppr router { req with includePath } = .ok routes →
    ∀ rs ∈ routes, ∀ r ∈ rs, r.duration = f r.durationExact
  withinLimit : WithinLimit router req

variable (router req) in
/-- The stations are at the destinations. -/
def stationsAt : Services where
  distance _ _ := 0
  getWalkingSpeed _ := 0
  geoStation _ _ := req.destinations.map fun pos => ⟨"", pos⟩
  oneToMany _ _ _ _ _ := none
  pprRoute := pprRoute router
  parkingEdges _ _ _ _ := []
  gbfsRoute _ _ _ _ _ _ := []
  undefined _ := 0

/-- Nothing compares the ways, nor the number for a missing one, with the limit. -/
theorem withinLimit_iff : WithinLimit router req ↔ req.searchOptions.durationLimit = 0 ∨
    ∀ way ∈ waysToAll router req,
      60 * ((seconds way / 60 : ℕ) : ℚ) ≤ req.searchOptions.durationLimit := by
  have hedges : ∀ services : Services, services.pprRoute = pprRoute router →
      (pprStations services req.start req.searchOptions).map (·.pos) = req.destinations →
      ((∀ e ∈ pprEdges services req.start req.searchOptions req.searchDirection,
        60 * (e.duration.toNat : ℚ) ≤ req.searchOptions.durationLimit) ↔
      (req.searchOptions.durationLimit = 0 ∨ ∀ way ∈ waysToAll router req,
        60 * ((seconds way / 60 : ℕ) : ℚ) ≤ req.searchOptions.durationLimit)) := by
    intro services hroute hstations
    have hmap := map_pprEdges hroute hstations
    rw [← List.forall_mem_map (f := fun e : Found => e.duration)
      (P := fun duration => 60 * (duration.toNat : ℚ) ≤ req.searchOptions.durationLimit), hmap]
    split
    · rename_i hzero
      simp [hzero]
    · rename_i hne
      rw [List.forall_mem_map, or_iff_right hne]
      simp only [toNat_toUShort (seconds_lt _)]
  refine ⟨fun h => ?_, fun h services hroute hstations =>
    (hedges services hroute hstations).mpr h⟩
  have hstations : (pprStations (stationsAt router req) req.start req.searchOptions).map (·.pos) =
      req.destinations := by
    rw [pprStations, stationsAt, List.map_map]
    exact List.map_id _
  exact (hedges _ rfl hstations).mp (h _ rfl hstations)

theorem forall_of_forall₂ {α β : Type} {R : α → β → Prop} {P : β → Prop} {as : List α} {bs : List β}
    (h : List.Forall₂ R as bs) (himp : ∀ a b, R a b → P b) : ∀ b ∈ bs, P b := by
  induction h with
  | nil => exact nofun
  | cons hab _ ih => exact List.forall_mem_cons.mpr ⟨himp _ _ hab, ih⟩

theorem NoTime.seconds_eq (h : NoTime router req) :
    ∀ way ∈ waysToAll router req, seconds way = 0 := by
  refine forall_of_forall₂ h fun dest way hway => ?_
  obtain ⟨p, q, -, rfl, -, hq, -⟩ := hway
  rw [seconds, hq]
  rfl

/-- Minutes are cut off in both branches. -/
theorem NoTime.conversion (h : NoTime router req) {includePath : Bool} {routes : List (List Route)}
    (hroutes : ppr router { req with includePath } = .ok routes) :
    ∀ rs ∈ routes, ∀ r ∈ rs, r.duration = toUShort r.durationExact := by
  cases includePath with
  | true =>
    refine forall_of_forall₂ (ppr_path_ok_iff.mp hroutes) fun dest rs hrs => ?_
    obtain ⟨p, -, rfl⟩ := hrs
    intro r hr
    obtain rfl := List.mem_singleton.mp hr
    rfl
  | false =>
    rw [ppr_costs] at hroutes
    obtain rfl := Except.ok.inj hroutes
    intro rs hrs r hr
    obtain ⟨i, hi, rfl⟩ := List.mem_iff_getElem.mp hrs
    rw [List.getElem_zipWith] at hr
    obtain rfl := List.mem_singleton.mp hr
    have hzero := h.seconds_eq _ (List.getElem_mem (List.lt_length_left_of_zipWith hi))
    rw [costRoute, hzero, Nat.cast_zero, zero_div]

theorem oneAnswer_of_noTime (h : NoTime router req)
    (hlimit : req.destinations = [] ∨ 0 ≤ req.searchOptions.durationLimit) :
    OneAnswer toUShort router req where
  sameAnswers := sameAnswers_iff.mpr h
  conversion _ _ hroutes := h.conversion hroutes
  withinLimit := by
    refine withinLimit_iff.mpr (.inr fun way hway => ?_)
    rw [h.seconds_eq way hway, Nat.zero_div, Nat.cast_zero, mul_zero]
    refine hlimit.resolve_left fun hnil => ?_
    have hlength := length_waysToAll router req
    rw [hnil, List.length_nil, List.length_eq_zero_iff] at hlength
    rw [hlength] at hway
    cases hway

theorem WithinLimit.limit (h : WithinLimit router req) :
    req.destinations = [] ∨ 0 ≤ req.searchOptions.durationLimit := by
  rcases withinLimit_iff.mp h with hzero | hle
  · exact .inr hzero.ge
  · rcases List.eq_nil_or_concat req.destinations with hnil | ⟨_, _, hdests⟩
    · exact .inl hnil
    · have hne : waysToAll router req ≠ [] := by
        rw [← List.length_pos_iff, length_waysToAll, hdests, List.length_concat]
        exact Nat.succ_pos _
      obtain ⟨way, ways, hways⟩ := List.exists_cons_of_ne_nil hne
      exact .inr (le_trans (by positivity) (hle way (hways ▸ List.mem_cons_self ..)))

/-- A request has one answer exactly when its ways take no time, and the limit is not below 0. -/
theorem ppr_iff (router : Router) (req : FootRoutingRequest) :
    ((∃ f, OneAnswer f router req) ↔ NoTime router req ∧
      (req.destinations = [] ∨ 0 ≤ req.searchOptions.durationLimit)) ∧
    ((∃ f, OneAnswer f router req) → OneAnswer toUShort router req) := by
  have hiff : (∃ f, OneAnswer f router req) ↔ NoTime router req ∧
      (req.destinations = [] ∨ 0 ≤ req.searchOptions.durationLimit) := by
    constructor
    · rintro ⟨f, h⟩
      exact ⟨sameAnswers_iff.mp h.sameAnswers, h.withinLimit.limit⟩
    · rintro ⟨h, hlimit⟩
      exact ⟨toUShort, oneAnswer_of_noTime h hlimit⟩
  refine ⟨hiff, fun h => ?_⟩
  obtain ⟨hnoTime, hlimit⟩ := hiff.mp h
  exact oneAnswer_of_noTime hnoTime hlimit

/-- Every way takes ten minutes. -/
def tenMinutes : Router where
  toProfile profile := if profile = "foot" then .foot else .other
  route _ _ _ _ _ := some ⟨600, 780, []⟩
  routeMany _ _ dests _ _ := dests.map fun _ => some ⟨600, 780, []⟩
  toProfile_foot := rfl
  length_routeMany _ _ _ _ _ := List.length_map _

/-- Its `duration_exact` is 10 with the path, and 600 without. -/
theorem not_oneAnswer_tenMinutes : ¬∃ f, ∀ router req, OneAnswer f router req := by
  rintro ⟨f, h⟩
  have hsame := (h tenMinutes ⟨{}, [{}], ⟨"default", 900⟩, .forward, false⟩).sameAnswers
  obtain ⟨⟨p, q, -, hq, -, hcost, -⟩, -⟩ := List.forall₂_cons.mp (sameAnswers_iff.mp hsame)
  obtain rfl := Option.some.inj hq
  exact absurd hcost (by decide)

end Answers

end Motis.Osr
