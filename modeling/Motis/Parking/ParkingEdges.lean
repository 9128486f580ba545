import Mathlib.Data.List.Perm.Basic
import Mathlib.Data.Rat.Floor
import Mathlib.Tactic.Linarith
import Motis.Parking.FootEdges

/-! Parking edges: a car ride to a lot and the walks from there to the stations.

    The walks of a query are routed when it comes, or read from the stored foot edges:

        custom   stations within limit * speed ──▶ routes within the limit ──▶ valid costs
        cached   stored edges ──▶ minutes within the limit, station known   ──▶ valid costs

    The car rides, the routes and the distances of stations are other projects'. -/

namespace Motis.Parking

structure Station (Pos : Type) extends LookupStation Pos where
  name : String
  deriving DecidableEq, Repr

/-- The stations; those in a radius come in any order. -/
structure StationIndex (Pos : Type) where
  stations : List (Station Pos)
  distance : Pos → Pos → ℚ
  inRadius : StationLookup Pos
  /-- `/lookup/geo_station` -/
  geoStation : Pos → ℚ → List (Station Pos)
  /-- `none` is the invalid station. -/
  get : String → Option (Station Pos)
  inRadius_perm : ∀ center radius, (inRadius center radius).Perm
    ((stations.filter fun s => distance center s.pos ≤ radius).map
      fun s => (s.toLookupStation, distance center s.pos))
  geoStation_perm : ∀ center radius,
    (geoStation center radius).Perm (stations.filter fun s => distance center s.pos ≤ radius)

/-- The street router answers for each destination by itself, and with the routes that are within
    the limit of the profile. -/
structure StreetRouter (Graph Pos Opts : Type) where
  findRoutes : FindRoutes Graph Pos Opts
  routes : Graph → Pos → Pos → SearchProfile Opts → SearchDirection → List Route
  each : ∀ rg loc dests profile dir,
    findRoutes rg loc dests profile dir = dests.map fun dest => routes rg loc dest profile dir
  within : ∀ rg loc dest (profile : SearchProfile Opts) limit dir, profile.durationLimit ≤ limit →
    routes rg loc dest profile dir =
      (routes rg loc dest { profile with durationLimit := limit } dir).filter
        (·.duration ≤ profile.durationLimit)

/-! ### Foot routing -/

inductive PprError where | profileNotAvailable
  deriving DecidableEq, Repr

structure Ppr (Graph Pos Opts : Type) where
  router : StreetRouter Graph Pos Opts
  rg : Graph
  profiles : String → Option (SearchProfile Opts)
  /-- `search_profile{}` -/
  defaultProfile : SearchProfile Opts

variable {Graph Pos Opts : Type}

def Ppr.getSearchProfile (ppr : Ppr Graph Pos Opts) (name : String) (durationLimit : ℚ) :
    Except PprError (SearchProfile Opts) :=
  match ppr.profiles name with
  | some profile => .ok { profile with durationLimit }
  | none =>
    if name ≠ "" ∧ name ≠ "default" then .error .profileNotAvailable
    else .ok { ppr.defaultProfile with durationLimit }

/-- `/ppr/route` -/
def Ppr.route (ppr : Ppr Graph Pos Opts) (start : Pos) (destinations : List Pos)
    (profile : String) (durationLimit : ℚ) (dir : SearchDirection) :
    Except PprError (List (List FootEdgeInfo)) := do
  let profile ← ppr.getSearchProfile profile durationLimit
  pure (routePprDirect ppr.router.findRoutes ppr.rg start destinations profile dir)

/-! ### Costs -/

/-- Of a car ride, the duration in seconds. -/
structure Cost where
  duration : ℚ
  distance : ℚ
  deriving DecidableEq, Repr

structure ParkingEdgeCosts where
  stationId : String
  stationName : String
  /-- In minutes; what exceeds `uint16_t` is undefined. -/
  carDuration : ℕ
  carDistance : ℚ
  footDuration : ℕ
  footAccessibility : ℕ
  footDistance : ℚ
  deriving DecidableEq, Repr

/-- Costs without a car ride have no car duration and distance. -/
def parkingEdgeCosts (stationId stationName : String) (osrmCost : Option Cost)
    (foot : FootEdgeInfo) : ParkingEdgeCosts where
  stationId := stationId
  stationName := stationName
  carDuration := (osrmCost.map fun c => roundHalfUp (c.duration / 60)).getD 0
  carDistance := (osrmCost.map Cost.distance).getD 0
  footDuration := foot.duration
  footAccessibility := foot.accessibility
  footDistance := foot.distance

def ParkingEdgeCosts.totalDuration (c : ParkingEdgeCosts) : ℕ :=
  min ((c.carDuration + c.footDuration) % 2 ^ 16) maxDuration

def ParkingEdgeCosts.valid (c : ParkingEdgeCosts) : Bool := c.totalDuration != maxDuration

structure ParkingEdges (Pos : Type) where
  parking : ParkingLot Pos
  outwardCosts : List ParkingEdgeCosts
  returnCosts : List ParkingEdgeCosts
  deriving DecidableEq, Repr

/-! ### Queries -/

structure ParkingQuery where
  /-- The ids of the destination stations. -/
  destStations : List String
  maxCarDuration : ℤ
  profile : String
  durationLimit : ℚ
  includeOutward : Bool
  includeReturn : Bool
  walkingSpeed : ℚ

def ParkingQuery.includes (q : ParkingQuery) : SearchDirection → Bool
  | .fwd => q.includeOutward
  | .bwd => q.includeReturn

/-- A lot, and the car rides to it and back. -/
structure LotRides (Pos : Type) where
  parking : ParkingLot Pos
  car : SearchDirection → Cost

/-- The ride of a direction is asked for when the query includes it. -/
def LotRides.cost (l : LotRides Pos) (q : ParkingQuery) (dir : SearchDirection) : Option Cost :=
  if q.includes dir then some (l.car dir) else none

/-- A ride that is longer than the query admits. -/
def LotRides.tooFar (l : LotRides Pos) (q : ParkingQuery) : Bool :=
  let exceeds (c : Cost) : Bool := (q.maxCarDuration : ℚ) < c.duration
  (l.cost q .fwd).any exceeds || (l.cost q .bwd).any exceeds

def removeDestStations (startStations : List (Station Pos)) (destStations : List String) :
    List (Station Pos) :=
  startStations.filter fun s => s.id ∉ destStations

section Answers

variable (ppr : Ppr Graph Pos Opts) (ix : StationIndex Pos) (t : FootEdgeTables)

/-- The costs of one direction, routed now. -/
def customCosts (q : ParkingQuery) (l : LotRides Pos) (dir : SearchDirection) :
    Except PprError (List ParkingEdgeCosts) :=
  let parkingStationRadius := q.durationLimit * q.walkingSpeed
  let stations := removeDestStations (ix.geoStation l.parking.location parkingStationRadius)
    q.destStations
  if q.includes dir then do
    let routes ← ppr.route l.parking.location (stations.map (·.pos)) q.profile q.durationLimit dir
    pure <| ((stations.zip routes).flatMap fun (s, rs) =>
      rs.map (parkingEdgeCosts s.id s.name (l.cost q dir))).filter (·.valid)
  else pure []

def addParkingEdges (q : ParkingQuery) (l : LotRides Pos) :
    Except PprError (Option (ParkingEdges Pos)) := do
  let outwardCosts ← customCosts ppr ix q l .fwd
  let returnCosts ← customCosts ppr ix q l .bwd
  if (outwardCosts.isEmpty && returnCosts.isEmpty) ||
      (q.includeOutward && q.includeReturn && (outwardCosts.isEmpty || returnCosts.isEmpty)) then
    pure none
  else pure (some ⟨l.parking, outwardCosts, returnCosts⟩)

/-- What `get_custom_parking_edges` does with one lot. -/
def customParkingEdge (q : ParkingQuery) (l : LotRides Pos) :
    Except PprError (Option (ParkingEdges Pos)) :=
  if l.tooFar q then pure none else addParkingEdges ppr ix q l

def getCustomParkingEdges (q : ParkingQuery) (lots : List (LotRides Pos)) :
    Except PprError (List (ParkingEdges Pos)) :=
  lots.filterMapM (customParkingEdge ppr ix q)

/-- `duration`, whose overflow is undefined. -/
def footDurationLimit (q : ParkingQuery) : ℕ := ⌈q.durationLimit / 60⌉.toNat

def filterStation (q : ParkingQuery) (fe : FootEdge) : Bool :=
  footDurationLimit q < fe.duration || (ix.get fe.stationId).isNone ||
    fe.stationId ∈ q.destStations

/-- The costs of one direction, read from its stored edges. -/
def cachedCosts (q : ParkingQuery) (l : LotRides Pos) (dir : SearchDirection)
    (edges : List FootEdge) : List ParkingEdgeCosts :=
  ((edges.filter fun fe => !filterStation ix q fe).map fun fe =>
    parkingEdgeCosts fe.stationId "" (l.cost q dir)
      ⟨fe.duration, fe.accessibility, fe.distance⟩).filter (·.valid)

/-- What `get_cached_parking_edges` does with one lot. -/
def cachedParkingEdge (q : ParkingQuery) (l : LotRides Pos) :
    Except PprError (Option (ParkingEdges Pos)) :=
  if l.tooFar q then pure none
  else match t.footedges (l.parking.id, q.profile) with
    | some footEdges =>
      let outwardCosts := cachedCosts ix q l .fwd footEdges.outwardEdges
      let returnCosts := cachedCosts ix q l .bwd footEdges.returnEdges
      if !outwardCosts.isEmpty && !returnCosts.isEmpty then
        pure (some ⟨l.parking, outwardCosts, returnCosts⟩)
      else pure none
    | none => addParkingEdges ppr ix q l

def getCachedParkingEdges (q : ParkingQuery) (lots : List (LotRides Pos)) :
    Except PprError (List (ParkingEdges Pos)) :=
  lots.filterMapM (cachedParkingEdge ppr ix t q)

end Answers

/-! ### Two selections from one list -/

section Selections

variable {α β : Type} {l : List α} {p q : α → Bool}

/-- A selection that is contained in another one and has its length is that one. -/
theorem eq_of_filter_length (himp : ∀ x ∈ l, p x → q x)
    (hlen : (l.filter p).length = (l.filter q).length) : ∀ x ∈ l, p x = q x := by
  have hsub : (l.filter p).Sublist (l.filter q) := by
    have heq : l.filter p = (l.filter q).filter p := by
      rw [List.filter_filter]
      refine List.filter_congr fun x hx => ?_
      cases hp : p x with
      | false => rfl
      | true => simp [himp x hx hp]
    rw [heq]
    exact List.filter_sublist
  have heq := hsub.eq_of_length hlen
  intro x hx
  have hiff : x ∈ l.filter p ↔ x ∈ l.filter q := by rw [heq]
  simp only [List.mem_filter, hx, true_and] at hiff
  exact Bool.eq_iff_iff.mpr hiff

/-- Up to order, `p` and `q` select the same, where `q` selects what is `known` and `p` only `q` on
    what is known. -/
theorem perm_selections_iff (c : α → β) (known : α → Bool) (knownImage : β → Bool)
    (hknown : ∀ x, knownImage (c x) = known x) (hp : ∀ x ∈ l, known x → p x → q x)
    (hq : ∀ x ∈ l, q x → known x) :
    ((l.filter p).map c).Perm ((l.filter q).map c) ↔ ∀ x ∈ l, p x = q x := by
  constructor
  · intro h
    have hout := (h.filter (!knownImage ·)).length_eq
    have hcomp : (fun y => !knownImage y) ∘ c = fun x => !known x := by
      funext x
      simp [hknown]
    simp only [List.filter_map, List.length_map, List.filter_filter, hcomp] at hout
    have hpknown : ∀ x ∈ l, p x → known x := by
      have hnone : l.filter (fun x => !known x && q x) = [] := by
        rw [List.filter_eq_nil_iff]
        intro x hx hqx
        simp only [Bool.and_eq_true, Bool.not_eq_true'] at hqx
        simp [hq x hx hqx.2] at hqx
      rw [hnone, List.length_nil, List.length_eq_zero_iff, List.filter_eq_nil_iff] at hout
      intro x hx hpx
      by_contra hk
      exact hout x hx (by simp [hpx, hk])
    have hlen : (l.filter p).length = (l.filter q).length := by simpa using h.length_eq
    exact eq_of_filter_length (fun x hx hpx => hp x hx (hpknown x hx hpx) hpx) hlen
  · intro h
    rw [List.filter_congr h]

/-- A selection of stations, then of what each has, is one of the pairs. -/
theorem flatMap_selections {γ δ : Type} (stations : List γ) (near : γ → Bool) (f : γ → List α)
    (take : α → Bool) (c : γ → α → δ) :
    ((stations.filter near).flatMap fun s => ((f s).filter take).map (c s)) =
      ((stations.flatMap fun s => (f s).map (s, ·)).filter
        fun w => near w.1 && take w.2).map fun w => c w.1 w.2 := by
  induction stations with
  | nil => rfl
  | cons s stations ih =>
    rw [List.flatMap_cons, List.filter_append, List.map_append, ← ih, List.filter_cons]
    have hhead : (((f s).map (s, ·)).filter fun w => near w.1 && take w.2).map
        (fun w => c w.1 w.2) = if near s then ((f s).filter take).map (c s) else [] := by
      cases hn : near s <;> simp [List.filter_map, Function.comp_def, hn]
    rw [hhead]
    cases near s <;> simp

theorem zip_map_flatMap {γ δ : Type} (f : γ → List α) (c : γ → α → δ) (stations : List γ) :
    ((stations.zip (stations.map f)).flatMap fun x => x.2.map (c x.1)) =
      stations.flatMap fun s => (f s).map (c s) := by
  induction stations with
  | nil => rfl
  | cons s stations ih => simp [ih]

end Selections

/-! ### The costs of both answers -/

def ParkingEdgeCosts.unnamed (c : ParkingEdgeCosts) : ParkingEdgeCosts :=
  { c with stationName := "" }

@[simp] theorem valid_unnamed (c : ParkingEdgeCosts) : c.unnamed.valid = c.valid := rfl

@[simp] theorem unnamed_parkingEdgeCosts (id name : String) (cost : Option Cost)
    (foot : FootEdgeInfo) :
    (parkingEdgeCosts id name cost foot).unnamed = parkingEdgeCosts id "" cost foot := rfl

section Agreement

variable (ppr : Ppr Graph Pos Opts) (ix : StationIndex Pos) (t : FootEdgeTables)
  (stored : SearchProfile Opts) (q : ParkingQuery) (l : LotRides Pos)

/-- The foot edges of the lot are stored, as `compute_edges` finds them in exact mode. -/
def StoredExactly : Prop :=
  t.footedges (l.parking.id, q.profile) = some (computeEdges ppr.router.findRoutes ppr.rg
    (footEdgeTask ix.inRadius l.parking (q.profile, stored)) stored true)

/-- The stored edges of the lot are those of the profile of the query, for a limit that is not
    shorter; the limit of the query is whole minutes. -/
structure StoredFor : Prop where
  edges : StoredExactly ppr ix t stored q l
  profile : ∃ profile, ppr.getSearchProfile q.profile q.durationLimit = .ok profile ∧
    { profile with durationLimit := stored.durationLimit } = stored
  longer : q.durationLimit ≤ stored.durationLimit
  minutes : ∃ m : ℕ, q.durationLimit = 60 * m
  speed : q.walkingSpeed = stored.walkingSpeed
  speed_nonneg : 0 ≤ q.walkingSpeed

/-- The walks of one direction, to all stations and within the limit of the stored edges. -/
def walks (dir : SearchDirection) : List (Station Pos × Route) :=
  ix.stations.flatMap fun s =>
    (ppr.router.routes ppr.rg l.parking.location s.pos stored dir).map (s, ·)

def walkCosts (dir : SearchDirection) (w : Station Pos × Route) : ParkingEdgeCosts :=
  parkingEdgeCosts w.1.id "" (l.cost q dir) (footEdgeInfo w.2)

/-- What both answers ask of a walk. -/
def eligible (dir : SearchDirection) (w : Station Pos × Route) : Bool :=
  w.1.id ∉ q.destStations && (walkCosts q l dir w).valid

/-- The walk and the distance of its station are within the limit of the query. -/
def withinLimit (w : Station Pos × Route) : Bool :=
  ix.distance l.parking.location w.1.pos ≤ q.durationLimit * q.walkingSpeed &&
    w.2.duration ≤ q.durationLimit

/-- The station was in reach, is known by its id, and the walk is within the limit in minutes. -/
def withinStored (w : Station Pos × Route) : Bool :=
  ix.distance l.parking.location w.1.pos ≤ walkRadius stored && (ix.get w.1.id).isSome &&
    getDuration w.2 ≤ footDurationLimit q

def customTakes (dir : SearchDirection) (w : Station Pos × Route) : Bool :=
  eligible q l dir w && withinLimit ix q l w

def cachedTakes (dir : SearchDirection) (w : Station Pos × Route) : Bool :=
  eligible q l dir w && withinStored ix stored q l w

variable {ppr ix t stored q l}

theorem customCosts_excluded {dir : SearchDirection} (h : q.includes dir = false) :
    customCosts ppr ix q l dir = .ok [] := by
  simp only [customCosts, h, Bool.false_eq_true, if_false]
  rfl

theorem not_filterStation (fe : FootEdge) :
    (!filterStation ix q fe) = ((ix.get fe.stationId).isSome && fe.duration ≤ footDurationLimit q &&
      fe.stationId ∉ q.destStations) := by
  rw [Bool.eq_iff_iff]
  cases hget : ix.get fe.stationId <;> simp [filterStation, hget]

theorem durationLimit_getSearchProfile {name : String} {limit : ℚ} {profile : SearchProfile Opts}
    (h : ppr.getSearchProfile name limit = .ok profile) : profile.durationLimit = limit := by
  rw [Ppr.getSearchProfile] at h
  split at h
  · cases h; rfl
  · split at h <;> cases h
    rfl

/-- What is routed now is what `customTakes` selects. -/
theorem customCosts_perm (h : StoredFor ppr ix t stored q l) {dir : SearchDirection}
    (hdir : q.includes dir = true) :
    ∃ costs, customCosts ppr ix q l dir = .ok costs ∧
      (costs.map (·.unnamed)).Perm
        (((walks ppr ix stored l dir).filter (customTakes ix q l dir)).map
          (walkCosts q l dir)) := by
  let routes (s : Station Pos) := ppr.router.routes ppr.rg l.parking.location s.pos
  let near (s : Station Pos) : Bool :=
    ix.distance l.parking.location s.pos ≤ q.durationLimit * q.walkingSpeed &&
      s.id ∉ q.destStations
  let inTime (r : Route) : Bool := r.duration ≤ q.durationLimit
  obtain ⟨profile, hprofile, hstored⟩ := h.profile
  have hlimit := durationLimit_getSearchProfile hprofile
  have hstations : (removeDestStations (ix.geoStation l.parking.location
      (q.durationLimit * q.walkingSpeed)) q.destStations).Perm (ix.stations.filter near) := by
    refine ((ix.geoStation_perm _ _).filter _).trans (.of_eq ?_)
    rw [List.filter_filter]
    exact List.filter_congr fun s _ => Bool.and_comm _ _
  have hroutes : ∀ s : Station Pos,
      routes s profile dir = (routes s stored dir).filter inTime := by
    intro s
    have hwithin := ppr.router.within ppr.rg l.parking.location s.pos profile
      stored.durationLimit dir (hlimit ▸ h.longer)
    rwa [hstored, hlimit] at hwithin
  simp only [customCosts, hdir, if_true, Ppr.route, hprofile]
  refine ⟨_, rfl, ?_⟩
  generalize removeDestStations (ix.geoStation l.parking.location
    (q.durationLimit * q.walkingSpeed)) q.destStations = stations at hstations ⊢
  have hfound : routePprDirect ppr.router.findRoutes ppr.rg l.parking.location
      (stations.map (·.pos)) profile dir =
        stations.map fun s => ((routes s stored dir).filter inTime).map footEdgeInfo := by
    simp only [routePprDirect, ppr.router.each, List.map_map]
    exact List.map_congr_left fun s _ => congrArg (List.map footEdgeInfo) (hroutes s)
  rw [hfound, zip_map_flatMap _ fun s : Station Pos =>
    parkingEdgeCosts s.id s.name (l.cost q dir)]
  have hunnamed : ∀ costs : List ParkingEdgeCosts, (costs.filter (·.valid)).map (·.unnamed) =
      (costs.map (·.unnamed)).filter (·.valid) := by
    intro costs
    exact (List.filter_map (f := ParkingEdgeCosts.unnamed) (p := ParkingEdgeCosts.valid)).symm
  have hcosts : (stations.flatMap fun s =>
        (((routes s stored dir).filter inTime).map footEdgeInfo).map
          (parkingEdgeCosts s.id s.name (l.cost q dir))).map (·.unnamed) =
      stations.flatMap fun s =>
        ((routes s stored dir).filter inTime).map fun r => walkCosts q l dir (s, r) := by
    simp only [List.map_flatMap, List.map_map]
    rfl
  rw [hunnamed, hcosts]
  refine ((hstations.flatMap_right _).filter _).trans (.of_eq ?_)
  rw [flatMap_selections _ near _ inTime fun s r => walkCosts q l dir (s, r), List.filter_map,
    List.filter_filter]
  refine congrArg _ (List.filter_congr fun w _ => ?_)
  simp only [customTakes, eligible, withinLimit, near, inTime, Function.comp_apply]
  ac_rfl

variable (ppr ix stored l) in
/-- The foot edges of one direction. -/
def exactEdges (dir : SearchDirection) : List FootEdge :=
  EdgeInputs.edges ppr.router.findRoutes
    ⟨ppr.rg, l.parking.location, ix.inRadius l.parking.location (walkRadius stored), stored, true⟩
    dir

variable (ppr ix stored q l) in
/-- What is read from the stored edges is what `cachedTakes` selects. -/
theorem cachedCosts_perm (dir : SearchDirection) :
    ((cachedCosts ix q l dir (exactEdges ppr ix stored l dir)).map (·.unnamed)).Perm
      (((walks ppr ix stored l dir).filter (cachedTakes ix stored q l dir)).map
        (walkCosts q l dir)) := by
  let routes (s : Station Pos) := ppr.router.routes ppr.rg l.parking.location s.pos stored dir
  let dist (s : Station Pos) := ix.distance l.parking.location s.pos
  let near (s : Station Pos) : Bool := dist s ≤ walkRadius stored
  have hedges : (exactEdges ppr ix stored l dir).Perm
      ((ix.stations.filter near).flatMap fun s => ((routes s).filter fun _ => true).map fun r =>
        createFootEdge (s.toLookupStation, dist s) (footEdgeInfo r)) := by
    have hstations : (ix.inRadius l.parking.location (walkRadius stored)).Perm
        ((ix.stations.filter near).map fun s => (s.toLookupStation, dist s)) :=
      ix.inRadius_perm _ _
    rw [exactEdges]
    generalize ix.inRadius l.parking.location (walkRadius stored) = stations at hstations ⊢
    have hfound : EdgeInputs.edges ppr.router.findRoutes
        ⟨ppr.rg, l.parking.location, stations, stored, true⟩ dir =
          stations.flatMap fun s => ((ppr.router.routes ppr.rg l.parking.location s.1.pos stored
            dir).map footEdgeInfo).map (createFootEdge s) := by
      cases stations with
      | nil => rfl
      | cons s stations =>
        have hzip := zip_map_flatMap (fun s : LookupStation Pos × ℚ => (ppr.router.routes ppr.rg
          l.parking.location s.1.pos stored dir).map footEdgeInfo) createFootEdge (s :: stations)
        simp only [EdgeInputs.edges, List.isEmpty_cons, Bool.false_eq_true, if_false,
          createFootEdges, routePprDirect, ppr.router.each]
        rw [← hzip, List.map_map, List.map_map]
        rfl
    rw [hfound]
    refine (hstations.flatMap_right _).trans (.of_eq ?_)
    rw [List.flatMap_map]
    simp only [List.map_map, List.filter_true]
    rfl
  refine ((((hedges.filter _).map _).filter _).map _).trans (.of_eq ?_)
  rw [flatMap_selections _ near routes (fun _ => true) fun s r =>
    createFootEdge (s.toLookupStation, dist s) (footEdgeInfo r)]
  simp only [List.filter_map, List.map_map, List.filter_filter]
  refine congrArg₂ _ (funext fun w => ?_) (List.filter_congr fun w _ => ?_)
  · rfl
  · have hkeep : (!filterStation ix q (createFootEdge (w.1.toLookupStation, dist w.1)
        (footEdgeInfo w.2))) = ((ix.get w.1.id).isSome && getDuration w.2 ≤ footDurationLimit q &&
          w.1.id ∉ q.destStations) := not_filterStation _
    change ((walkCosts q l dir w).valid && (_ && (near w.1 && true))) = _
    simp only [Function.comp_apply, hkeep, cachedTakes, eligible, withinStored, near, dist,
      Bool.and_true]
    ac_rfl

/-! ### Agreement -/

theorem roundHalfUp_le {x : ℚ} {m : ℕ} (h : x ≤ m) : roundHalfUp x ≤ m := by
  have hfloor : ⌊x + 1 / 2⌋ < (m : ℤ) + 1 := by
    rw [Int.floor_lt]
    push_cast
    linarith
  rw [roundHalfUp]
  omega

theorem footDurationLimit_minutes {m : ℕ} (h : q.durationLimit = 60 * m) :
    footDurationLimit q = m := by
  rw [footDurationLimit, h, mul_div_cancel_left₀ _ (by norm_num : (60 : ℚ) ≠ 0), Int.ceil_natCast,
    Int.toNat_natCast]

/-- A walk within the limit of the query is within the stored ones, when its station is known. -/
theorem withinStored_of_withinLimit (h : StoredFor ppr ix t stored q l)
    {w : Station Pos × Route} (hknown : (ix.get w.1.id).isSome = true)
    (hw : withinLimit ix q l w = true) : withinStored ix stored q l w = true := by
  obtain ⟨m, hm⟩ := h.minutes
  simp only [withinLimit, Bool.and_eq_true, decide_eq_true_eq] at hw
  have hdist : ix.distance l.parking.location w.1.pos ≤ walkRadius stored := calc
    _ ≤ q.durationLimit * q.walkingSpeed := hw.1
    _ ≤ stored.durationLimit * q.walkingSpeed :=
      mul_le_mul_of_nonneg_right h.longer h.speed_nonneg
    _ = stored.durationLimit * stored.walkingSpeed := by rw [h.speed]
    _ ≤ walkRadius stored := Int.le_ceil _
  have hduration : getDuration w.2 ≤ footDurationLimit q := by
    rw [footDurationLimit_minutes hm]
    refine (min_le_left _ _).trans (roundHalfUp_le ?_)
    rw [div_le_iff₀ (by norm_num)]
    linarith [hw.2]
  simp only [withinStored, hknown, hdist, hduration, decide_true, Bool.and_self]

variable (ppr ix stored q l)

/-- Both answers take the same walks of a direction. -/
def FiltersAgree (dir : SearchDirection) : Prop :=
  ∀ w ∈ walks ppr ix stored l dir, eligible q l dir w →
    (withinLimit ix q l w ↔ withinStored ix stored q l w)

/-- Some direction is included, and each that is has a walk within the limit. -/
def CustomWalks : Prop :=
  (q.includeOutward ∨ q.includeReturn) ∧ ∀ dir, q.includes dir →
    ∃ w ∈ walks ppr ix stored l dir, customTakes ix q l dir w

/-- Both directions have a walk within the stored ones. -/
def CachedWalks : Prop :=
  ∀ dir, ∃ w ∈ walks ppr ix stored l dir, cachedTakes ix stored q l dir w

def Agreeable : Prop :=
  l.tooFar q ∨ (q.includeOutward ∧ q.includeReturn ∧ ∀ dir, FiltersAgree ppr ix stored q l dir) ∨
    (¬ CustomWalks ppr ix stored q l ∧ ¬ CachedWalks ppr ix stored q l)

/-- The costs of the walks that are taken. -/
def selection (take : Station Pos × Route → Bool) (dir : SearchDirection) :
    List ParkingEdgeCosts :=
  ((walks ppr ix stored l dir).filter take).map (walkCosts q l dir)

def ParkingEdges.costs (e : ParkingEdges Pos) : SearchDirection → List ParkingEdgeCosts
  | .fwd => e.outwardCosts
  | .bwd => e.returnCosts

/-- The stations of stored edges have no name, and costs come in any order. -/
structure ParkingEdges.Same (e e' : ParkingEdges Pos) : Prop where
  parking : e.parking = e'.parking
  costs : ∀ dir, ((e.costs dir).map (·.unnamed)).Perm ((e'.costs dir).map (·.unnamed))

/-- Both answer, with the same parking edge or without one. -/
def SameAnswer (a a' : Except PprError (Option (ParkingEdges Pos))) : Prop :=
  ∃ e e', a = .ok e ∧ a' = .ok e' ∧ Option.Rel ParkingEdges.Same e e'

variable {ppr ix stored q l}

theorem selection_eq_nil {take : Station Pos × Route → Bool} {dir : SearchDirection} :
    selection ppr ix stored q l take dir = [] ↔ ¬ ∃ w ∈ walks ppr ix stored l dir, take w := by
  simp only [selection, List.map_eq_nil_iff, List.filter_eq_nil_iff, not_exists, not_and]

theorem isEmpty_eq_false_iff {costs : List ParkingEdgeCosts} {take : Station Pos × Route → Bool}
    {dir : SearchDirection}
    (h : (costs.map (·.unnamed)).Perm (selection ppr ix stored q l take dir)) :
    costs.isEmpty = false ↔ ∃ w ∈ walks ppr ix stored l dir, take w := by
  have hempty : costs.isEmpty = (selection ppr ix stored q l take dir).isEmpty := by
    rw [← h.isEmpty_eq, List.isEmpty_map]
  rw [hempty, Bool.eq_false_iff, ne_eq, List.isEmpty_iff, selection_eq_nil, not_not]

theorem forall_dir {p : SearchDirection → Prop} : (∀ dir, p dir) ↔ p .fwd ∧ p .bwd := by
  constructor
  · intro h
    exact ⟨h .fwd, h .bwd⟩
  · rintro ⟨hfwd, hbwd⟩ dir
    cases dir with
    | fwd => exact hfwd
    | bwd => exact hbwd

theorem customCosts_spec (h : StoredFor ppr ix t stored q l) (dir : SearchDirection) :
    ∃ costs, customCosts ppr ix q l dir = .ok costs ∧
      (costs.map (·.unnamed)).Perm (if q.includes dir then
        selection ppr ix stored q l (customTakes ix q l dir) dir else []) ∧
      (costs.isEmpty = false ↔ q.includes dir ∧
        ∃ w ∈ walks ppr ix stored l dir, customTakes ix q l dir w) := by
  cases hdir : q.includes dir with
  | false => exact ⟨[], customCosts_excluded hdir, .refl _, by simp⟩
  | true =>
    obtain ⟨costs, hcosts, hperm⟩ := customCosts_perm h hdir
    exact ⟨costs, hcosts, hperm, by rw [isEmpty_eq_false_iff hperm]; simp⟩

/-- An edge when `CustomWalks`, with what `customTakes` selects of the included directions. -/
theorem customParkingEdge_spec (h : StoredFor ppr ix t stored q l) (hfar : l.tooFar q = false) :
    ∃ e, customParkingEdge ppr ix q l = .ok e ∧ (e.isSome ↔ CustomWalks ppr ix stored q l) ∧
      ∀ edges ∈ e, edges.parking = l.parking ∧ ∀ dir, ((edges.costs dir).map (·.unnamed)).Perm
        (if q.includes dir then selection ppr ix stored q l (customTakes ix q l dir) dir
          else []) := by
  obtain ⟨outward, houtward, hpermOut, hout⟩ := customCosts_spec h .fwd
  obtain ⟨ret, hret, hpermRet, hreturn⟩ := customCosts_spec h .bwd
  have hnone : (outward.isEmpty && ret.isEmpty || q.includeOutward && q.includeReturn &&
      (outward.isEmpty || ret.isEmpty)) = false ↔ CustomWalks ppr ix stored q l := by
    rw [CustomWalks, forall_dir]
    simp only [ParkingQuery.includes] at hout hreturn ⊢
    grind
  have hcustom : customParkingEdge ppr ix q l =
      .ok (if outward.isEmpty && ret.isEmpty || q.includeOutward && q.includeReturn &&
        (outward.isEmpty || ret.isEmpty) then none else some ⟨l.parking, outward, ret⟩) := by
    simp only [customParkingEdge, hfar, Bool.false_eq_true, if_false, addParkingEdges, houtward,
      hret]
    change (if _ then _ else _) = _
    split <;> rfl
  refine ⟨_, hcustom, ?_, ?_⟩
  · rw [← hnone]
    cases outward.isEmpty && ret.isEmpty || q.includeOutward && q.includeReturn &&
      (outward.isEmpty || ret.isEmpty) <;> simp
  · intro edges hedges
    split at hedges
    · cases hedges
    · cases hedges
      exact ⟨rfl, forall_dir.mpr ⟨hpermOut, hpermRet⟩⟩

/-- An edge when `CachedWalks`, with what `cachedTakes` selects of both directions. -/
theorem cachedParkingEdge_spec (h : StoredFor ppr ix t stored q l) (hfar : l.tooFar q = false) :
    ∃ e, cachedParkingEdge ppr ix t q l = .ok e ∧ (e.isSome ↔ CachedWalks ppr ix stored q l) ∧
      ∀ edges ∈ e, edges.parking = l.parking ∧ ∀ dir, ((edges.costs dir).map (·.unnamed)).Perm
        (selection ppr ix stored q l (cachedTakes ix stored q l dir) dir) := by
  obtain ⟨fe, hfe, hfwd, hbwd⟩ : ∃ fe, t.footedges (l.parking.id, q.profile) = some fe ∧
      fe.outwardEdges = exactEdges ppr ix stored l .fwd ∧
        fe.returnEdges = exactEdges ppr ix stored l .bwd := ⟨_, h.edges, rfl, rfl⟩
  have hpermOut := cachedCosts_perm ppr ix stored q l .fwd
  have hpermRet := cachedCosts_perm ppr ix stored q l .bwd
  have hout := isEmpty_eq_false_iff hpermOut
  have hreturn := isEmpty_eq_false_iff hpermRet
  simp only [cachedParkingEdge, hfar, Bool.false_eq_true, if_false, hfe, hfwd, hbwd]
  generalize cachedCosts ix q l .fwd _ = outward at hpermOut hout ⊢
  generalize cachedCosts ix q l .bwd _ = ret at hpermRet hreturn ⊢
  refine ⟨if !outward.isEmpty && !ret.isEmpty then some ⟨l.parking, outward, ret⟩ else none,
    by split <;> rfl, ?_, ?_⟩
  · rw [CachedWalks, forall_dir, ← hout, ← hreturn]
    cases outward.isEmpty <;> cases ret.isEmpty <;> simp
  · intro edges hedges
    split at hedges
    · cases hedges
      exact ⟨rfl, forall_dir.mpr ⟨hpermOut, hpermRet⟩⟩
    · cases hedges

theorem filtersAgree_iff {dir : SearchDirection} : FiltersAgree ppr ix stored q l dir ↔
    ∀ w ∈ walks ppr ix stored l dir, customTakes ix q l dir w = cachedTakes ix stored q l dir w := by
  refine forall₂_congr fun w _ => ?_
  simp only [customTakes, cachedTakes]
  cases eligible q l dir w with
  | false => simp
  | true => simp

theorem selections_perm_iff (h : StoredFor ppr ix t stored q l) (dir : SearchDirection) :
    (selection ppr ix stored q l (customTakes ix q l dir) dir).Perm
        (selection ppr ix stored q l (cachedTakes ix stored q l dir) dir) ↔
      FiltersAgree ppr ix stored q l dir := by
  rw [filtersAgree_iff]
  refine perm_selections_iff (walkCosts q l dir) (fun w => (ix.get w.1.id).isSome)
    (fun c => (ix.get c.stationId).isSome) (fun w => rfl) ?_ ?_
  · intro w _ hknown hcustom
    simp only [customTakes, cachedTakes, Bool.and_eq_true] at hcustom ⊢
    exact ⟨hcustom.1, withinStored_of_withinLimit h hknown hcustom.2⟩
  · intro w _ hcached
    simp only [cachedTakes, withinStored, Bool.and_eq_true] at hcached
    exact hcached.2.1.2

/-- When the filters agree on both directions, both answers have an edge or none has. -/
theorem walks_iff (hout : q.includeOutward = true) (hreturn : q.includeReturn = true)
    (hagree : ∀ dir, FiltersAgree ppr ix stored q l dir) :
    CustomWalks ppr ix stored q l ↔ CachedWalks ppr ix stored q l := by
  have htakes : ∀ dir, (∃ w ∈ walks ppr ix stored l dir, customTakes ix q l dir w = true) ↔
      ∃ w ∈ walks ppr ix stored l dir, cachedTakes ix stored q l dir w = true := by
    intro dir
    refine exists_congr fun w => and_congr_right fun hw => ?_
    rw [filtersAgree_iff.mp (hagree dir) w hw]
  rw [CustomWalks, CachedWalks, forall_dir, forall_dir, ← htakes, ← htakes]
  simp only [ParkingQuery.includes, hout, hreturn, or_self, true_and, true_implies]

/-- Two edges are the same when both directions are included and the filters agree on them. -/
theorem same_iff (h : StoredFor ppr ix t stored q l) {edges edges' : ParkingEdges Pos}
    (hedges : edges.parking = l.parking ∧ ∀ dir, ((edges.costs dir).map (·.unnamed)).Perm
      (if q.includes dir then selection ppr ix stored q l (customTakes ix q l dir) dir else []))
    (hedges' : edges'.parking = l.parking ∧ ∀ dir, ((edges'.costs dir).map (·.unnamed)).Perm
      (selection ppr ix stored q l (cachedTakes ix stored q l dir) dir))
    (hcached : CachedWalks ppr ix stored q l) :
    ParkingEdges.Same edges edges' ↔ q.includeOutward = true ∧ q.includeReturn = true ∧
      ∀ dir, FiltersAgree ppr ix stored q l dir := by
  have hdir : ∀ dir, ((edges.costs dir).map (·.unnamed)).Perm ((edges'.costs dir).map (·.unnamed)) ↔
      q.includes dir = true ∧ FiltersAgree ppr ix stored q l dir := by
    intro dir
    rw [(hedges.2 dir).congr_left, (hedges'.2 dir).congr_right]
    cases q.includes dir with
    | true => simpa using selections_perm_iff h dir
    | false =>
      have hne : selection ppr ix stored q l (cachedTakes ix stored q l dir) dir ≠ [] := by
        rw [ne_eq, selection_eq_nil, not_not]
        exact hcached dir
      simpa using hne
  have hsplit : ParkingEdges.Same edges edges' ↔
      ∀ dir, q.includes dir = true ∧ FiltersAgree ppr ix stored q l dir := by
    simp only [← hdir]
    exact ⟨fun hsame => hsame.costs, fun hcosts => ⟨hedges.1.trans hedges'.1.symm, hcosts⟩⟩
  rw [hsplit, forall_and, forall_dir, and_assoc]
  rfl

/-- CORRECT: both answers are the same when the lot is too far, when both directions are included
    and no walk is within one limit only, or when neither of them has an edge. -/
theorem sameAnswer_iff (h : StoredFor ppr ix t stored q l) :
    SameAnswer (customParkingEdge ppr ix q l) (cachedParkingEdge ppr ix t q l) ↔
      Agreeable ppr ix stored q l := by
  cases hfar : l.tooFar q with
  | true =>
    have hcustom : customParkingEdge ppr ix q l = .ok none := by
      simp only [customParkingEdge, hfar, if_true]
      rfl
    have hcached : cachedParkingEdge ppr ix t q l = .ok none := by
      simp only [cachedParkingEdge, hfar, if_true]
      rfl
    exact ⟨fun _ => .inl hfar, fun _ => ⟨none, none, hcustom, hcached, .none⟩⟩
  | false =>
    obtain ⟨e, hcustom, hedge, hcosts⟩ := customParkingEdge_spec h hfar
    obtain ⟨e', hcached, hedge', hcosts'⟩ := cachedParkingEdge_spec h hfar
    have hsame : SameAnswer (customParkingEdge ppr ix q l) (cachedParkingEdge ppr ix t q l) ↔
        Option.Rel ParkingEdges.Same e e' := by
      rw [SameAnswer, hcustom, hcached]
      constructor
      · rintro ⟨_, _, ⟨⟩, ⟨⟩, hrel⟩
        exact hrel
      · intro hrel
        exact ⟨e, e', rfl, rfl, hrel⟩
    rw [hsame, Agreeable, hfar]
    cases e with
    | none =>
      have hcustomNone : ¬ CustomWalks ppr ix stored q l := fun hc => by simpa using hedge.mpr hc
      cases e' with
      | none =>
        exact ⟨fun _ => .inr (.inr ⟨hcustomNone, fun hc => by simpa using hedge'.mpr hc⟩),
          fun _ => .none⟩
      | some edges' =>
        have hcachedWalks := hedge'.mp rfl
        constructor
        · nofun
        · rintro (hfar' | ⟨hout, hreturn, hagree⟩ | ⟨-, hno⟩)
          · cases hfar'
          · exact absurd ((walks_iff hout hreturn hagree).mpr hcachedWalks) hcustomNone
          · exact absurd hcachedWalks hno
    | some edges =>
      have hcustomWalks := hedge.mp rfl
      cases e' with
      | none =>
        constructor
        · nofun
        · rintro (hfar' | ⟨hout, hreturn, hagree⟩ | ⟨hno, -⟩)
          · cases hfar'
          · have hwalks := hedge'.mpr ((walks_iff hout hreturn hagree).mp hcustomWalks)
            cases hwalks
          · exact absurd hcustomWalks hno
      | some edges' =>
        have hiff := same_iff h (hcosts edges rfl) (hcosts' edges' rfl) (hedge'.mp rfl)
        constructor
        · rintro ⟨hrel⟩
          exact .inr (.inl (hiff.mp hrel))
        · rintro (hfar' | hagree | ⟨hno, -⟩)
          · cases hfar'
          · exact .some (hiff.mpr hagree)
          · exact absurd hcustomWalks hno

end Agreement

/-! A lot with one station nearby, and a walk of two minutes between them in both directions. -/

def oneWalk : StreetRouter Unit Unit Unit where
  findRoutes _ _ dests profile _ :=
    dests.map fun _ => [⟨120, 1, 100⟩].filter (·.duration ≤ profile.durationLimit)
  routes _ _ _ profile _ := [⟨120, 1, 100⟩].filter (·.duration ≤ profile.durationLimit)
  each _ _ _ _ _ := rfl
  within _ _ _ profile limit _ hle := by
    rw [List.filter_filter]
    refine List.filter_congr fun r _ => ?_
    rw [Bool.eq_iff_iff]
    simpa using fun hr => hr.trans hle

def oneStation : StationIndex Unit where
  stations := [⟨⟨"s", ()⟩, "Station"⟩]
  distance _ _ := 100
  inRadius _ radius := ([⟨⟨"s", ()⟩, "Station"⟩].filter fun _ => (100 : ℚ) ≤ radius).map
    fun s : Station Unit => (s.toLookupStation, 100)
  geoStation _ radius := [⟨⟨"s", ()⟩, "Station"⟩].filter fun _ => 100 ≤ radius
  get _ := some ⟨⟨"s", ()⟩, "Station"⟩
  inRadius_perm _ _ := .refl _
  geoStation_perm _ _ := .refl _

def oneWalkPpr : Ppr Unit Unit Unit := ⟨oneWalk, (), fun _ => some ⟨600, 1, ()⟩, ⟨600, 1, ()⟩⟩

def nearbyLot : LotRides Unit where
  parking := { location := (), info := .osm { osmId := 1, osmType := .node } }
  car _ := ⟨300, 2000⟩

/-- Imported with a limit of 15 minutes. -/
def nearbyEdges : FootEdgeTables where
  footedges _ := some (computeEdges oneWalk.findRoutes ()
    (footEdgeTask oneStation.inRadius nearbyLot.parking ("default", ⟨900, 1, ()⟩)) ⟨900, 1, ()⟩ true)

def nearbyQuery (includeOutward includeReturn : Bool) : ParkingQuery where
  destStations := []
  maxCarDuration := 600
  profile := "default"
  durationLimit := 600
  includeOutward := includeOutward
  includeReturn := includeReturn
  walkingSpeed := 1

theorem storedFor_nearby (o r : Bool) :
    StoredFor oneWalkPpr oneStation nearbyEdges ⟨900, 1, ()⟩ (nearbyQuery o r) nearbyLot where
  edges := rfl
  profile := ⟨_, rfl, rfl⟩
  longer := by norm_num [nearbyQuery]
  minutes := ⟨10, by norm_num [nearbyQuery]⟩
  speed := rfl
  speed_nonneg := by norm_num [nearbyQuery]

theorem sameAnswer_iff_nearby :
    SameAnswer (customParkingEdge oneWalkPpr oneStation (nearbyQuery true true) nearbyLot)
        (cachedParkingEdge oneWalkPpr oneStation nearbyEdges (nearbyQuery true true) nearbyLot) ↔
      Agreeable oneWalkPpr oneStation ⟨900, 1, ()⟩ (nearbyQuery true true) nearbyLot :=
  sameAnswer_iff (storedFor_nearby true true)

/-- The stored edges answer with the way back, too, when it is not included. -/
theorem return_costs_not_included :
    StoredFor oneWalkPpr oneStation nearbyEdges ⟨900, 1, ()⟩ (nearbyQuery true false) nearbyLot ∧
      ¬ SameAnswer (customParkingEdge oneWalkPpr oneStation (nearbyQuery true false) nearbyLot)
        (cachedParkingEdge oneWalkPpr oneStation nearbyEdges (nearbyQuery true false) nearbyLot) := by
  have h := storedFor_nearby true false
  have hfar : nearbyLot.tooFar (nearbyQuery true false) = false := by decide
  have hwalks : CachedWalks oneWalkPpr oneStation ⟨900, 1, ()⟩ (nearbyQuery true false) nearbyLot := by
    intro dir
    refine ⟨(⟨⟨"s", ()⟩, "Station"⟩, ⟨120, 1, 100⟩), ?_, ?_⟩
    · cases dir <;> decide
    · cases dir <;> decide +kernel
  refine ⟨h, ?_⟩
  rintro ⟨e, e', he, he', hrel⟩
  obtain ⟨_, hcustom, -, hcosts⟩ := customParkingEdge_spec h hfar
  obtain ⟨_, hcached, hedge', hcosts'⟩ := cachedParkingEdge_spec h hfar
  cases he.symm.trans hcustom
  cases he'.symm.trans hcached
  cases hrel with
  | none => cases hedge'.mpr hwalks
  | some hsame =>
    have hboth := (same_iff h (hcosts _ rfl) (hcosts' _ rfl) hwalks).mp hsame
    exact absurd hboth.2.1 (by decide)

end Motis.Parking
