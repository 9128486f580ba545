import Mathlib.Data.List.Nodup
import Mathlib.Data.List.Perm.Basic
import Mathlib.Data.List.Sigma
import Mathlib.Tactic.NormNum
import Motis.Intermodal.DirectConnections

/-! The orientation of the direct connections.

    A direct journey has its stops in the order of a forward search, and only the edges of a forward
    search make one:

        edges            forward  START ──▶ END        backward  END ──▶ START
        direct journey   START ──▶ END
        positions        start ──▶ destination         destination ──▶ start -/

namespace Motis.Intermodal
open Journey Fallible
open Gbfs (SearchDir)

/-! ### Orientation -/

/-- The stop is the pseudo station, at its position. -/
structure StandsAt (station : String) (pos : LatLng) (s : Stop) : Prop where
  name : s.name = station
  evaNo : s.evaNo = station
  lat : s.lat = pos.lat
  lng : s.lng = pos.lng

/-- Where travel begins. -/
def IntermodalRoutingRequest.origin (req : IntermodalRoutingRequest) : String × LatLng :=
  match req.searchDir with
  | .forward => (stationStart, req.start.position)
  | .backward => (stationEnd, req.destination)

/-- Where travel ends. -/
def IntermodalRoutingRequest.target (req : IntermodalRoutingRequest) : String × LatLng :=
  match req.searchDir with
  | .forward => (stationEnd, req.destination)
  | .backward => (stationStart, req.start.position)

def OrientedJourney (req : IntermodalRoutingRequest) (j : Journey) : Prop :=
  ∃ first mid last, j.stops = first :: (mid ++ [last]) ∧
    StandsAt req.origin.1 req.origin.2 first ∧ StandsAt req.target.1 req.target.2 last

/-- The edge lies between the pseudo stations. -/
def PlacedEdge.Direct (e : PlacedEdge) : Prop :=
  e.from_ = stationStart ∧ e.to_ = stationEnd ∨ e.from_ = stationEnd ∧ e.to_ = stationStart

/-- The edges that the direct connections of the response stand for. -/
def RoutingResponse.mumoIds (r : RoutingResponse) : List ℤ :=
  r.connections.filterMap fun c => c.direct.map (·.mumoId)

/-- Every direct connection is oriented, and every direct edge has one. -/
structure Oriented (req : IntermodalRoutingRequest) (edges : List PlacedEdge)
    (r : RoutingResponse) : Prop where
  oriented : ∀ c ∈ r.connections, c.direct ≠ none → OrientedJourney req c.journey
  yields : ∀ (i : ℕ) (e : PlacedEdge), edges[i]? = some e → e.Direct → r.mumoIds.count (i : ℤ) = 1

/-- No street router has a direct way within its limits, and no generator finds a direct edge. -/
structure NothingDirect (services : Services) (req : IntermodalRoutingRequest) : Prop where
  foot : 0 < (getDirectPprSettings services req).maxDuration →
    beeline services req ≤ (getDirectPprSettings services req).maxDistance →
    ∀ routes, services.pprRoute req.searchDir (parseQueryStart req).pos [(parseQueryDest req).pos]
      ⟨(getDirectPprSettings services req).profile,
        (getDirectPprSettings services req).maxDuration⟩ = [routes] → routes = []
  bike : 0 < (getDirectOsrmBikeSettings req).maxDuration →
    beeline services req ≤ (getDirectOsrmBikeSettings req).maxDistance →
    (getDirectOsrmBikeSettings req).maxDuration < directDuration services req .bike
  car : 0 < (getDirectOsrmCarSettings req).maxDuration →
    beeline services req ≤ (getDirectOsrmCarSettings req).maxDistance →
    (getDirectOsrmCarSettings req).maxDuration < directDuration services req .car
  edges : ∀ e ∈ edgeMapping services req, ¬e.Direct

/-! ### Patches of a direct journey -/

section Patches

variable {a b : Stop} {t : Transport}

/-- The first and the last stop stay where they are. -/
def KeepsEnds (a b : Stop) (r : Except Error (Journey × List ℕ)) : Prop :=
  ∃ j splits mid, r = .ok (j, splits) ∧ j.stops = a :: (mid ++ [b])

theorem keepsEnds_nil : KeepsEnds a b (applyPatches
    { stops := [a, b], transports := [{ t with from_ := 0, to_ := 1 }] } [] []) :=
  ⟨_, _, [], rfl, rfl⟩

theorem keepsEnds_parking (c : CarParkingEdge) : KeepsEnds a b (applyPatches
    { stops := [a, b], transports := [{ t with from_ := 0, to_ := 1 }] } [⟨c, 0, 1⟩] []) :=
  ⟨_, _, [_], rfl, rfl⟩

/-- The first walk, the ride and the last walk. -/
theorem applyGbfsPatch_walk (vehicleType : String) (bike : StationBike) :
    ∃ mid s, applyGbfsPatch ⟨⟨vehicleType, .stationBike bike⟩, 0, 1⟩
      ⟨{ stops := [a, b], transports := [{ t with from_ := 0, to_ := 1 }] },
        [⟨⟨vehicleType, .stationBike bike⟩, 0, 1⟩], []⟩ = .ok s ∧
      s.journey.stops = a :: (mid ++ [b]) := by
  let t₁ : Transport := { t with from_ := 0, to_ := 1 }
  let t₂ : Transport := { t with from_ := 1, to_ := 2 }
  let t₃ : Transport := { t with from_ := 2, to_ := 3 }
  let e : GbfsEdge := ⟨vehicleType, .stationBike bike⟩
  have hget : getTransport { stops := [a, b], transports := [t₁] } 0 1 = .ok 0 := rfl
  have hfirst : splitTransport { stops := [a, b], transports := [t₁] } [⟨e, 0, 1⟩]
      ([t₁].getD 0 {}) =
        .ok ⟨{ stops := [a, {}, b], transports := [t₁, t₂] }, [⟨e, 0, 2⟩], 1, 0, 1⟩ := rfl
  have hsecond : splitTransport { stops := [a, {}, b], transports := [t₁, t₂] } [⟨e, 0, 2⟩]
      ([t₁, t₂].getD 1 {}) =
        .ok ⟨{ stops := [a, {}, {}, b], transports := [t₁, t₂, t₃] }, [⟨e, 0, 3⟩], 2, 1, 2⟩ := rfl
  rw [applyGbfsPatch, hget]
  dsimp only [bind, Except.bind]
  rw [hfirst]
  dsimp only
  rw [hsecond]
  dsimp only
  exact ⟨[_, _], _, rfl, rfl⟩

theorem applyParkingPatches_nil (j : Journey) :
    applyParkingPatches j [] = .ok { journey := j, patches := [] } :=
  rfl

theorem applyGbfsPatches_singleton (j : Journey) (p : ParkingPatch GbfsEdge) :
    applyGbfsPatches j [p] = applyGbfsPatch p { journey := j, patches := [p] } := by
  rw [applyGbfsPatches, forPatches]
  change applyGbfsPatch p { journey := j, patches := [p] } >>= pure = _
  exact bind_pure _

theorem keepsEnds_gbfs (g : GbfsEdge) : KeepsEnds a b (applyPatches
    { stops := [a, b], transports := [{ t with from_ := 0, to_ := 1 }] } [] [⟨g, 0, 1⟩]) := by
  obtain ⟨vehicleType, bike⟩ := g
  cases bike with
  | freeBike bike => exact ⟨_, _, [_], rfl, rfl⟩
  | stationBike bike =>
    obtain ⟨mid, s, hpatch, hstops⟩ :=
      applyGbfsPatch_walk (a := a) (b := b) (t := t) vehicleType bike
    refine ⟨s.journey, s.splits, mid, ?_, hstops⟩
    rw [applyPatches, applyParkingPatches_nil]
    dsimp only [bind, Except.bind]
    rw [applyGbfsPatches_singleton, hpatch]
    rfl

/-- A walk has at most one patch. -/
theorem collectPatches_walk {edges : List MumoEdge} (hwalk : t.isWalk = true)
    (hid : 0 ≤ t.mumoId → t.mumoId.toInt.toNat < edges.length) :
    ∃ t' ps gs, collectPatches edges [t] = .ok ([t'], ps, gs) ∧
      t'.from_ = t.from_ ∧ t'.to_ = t.to_ ∧
      (ps = [] ∧ gs = [] ∨ (∃ c, ps = [⟨c, t.from_, t.to_⟩] ∧ gs = []) ∨
        ∃ g, ps = [] ∧ gs = [⟨g, t.from_, t.to_⟩]) := by
  rw [collectPatches]
  by_cases hneg : t.mumoId < 0
  · rw [if_pos (by simp [hneg])]
    exact ⟨t, [], [], rfl, rfl, rfl, Or.inl ⟨rfl, rfl⟩⟩
  · have hlt := hid (Int32.not_lt.mp hneg)
    rw [if_neg (by simp [hwalk, hneg]), List.getElem?_eq_getElem hlt]
    generalize edges[t.mumoId.toInt.toNat] = e
    obtain ⟨kind, id⟩ := e
    let t' : Transport := { t with mumoType := kind.type.toString, mumoId := id }
    cases kind with
    | foot | bike | car => exact ⟨t', [], [], rfl, rfl, rfl, Or.inl ⟨rfl, rfl⟩⟩
    | gbfs g => exact ⟨t', [], [⟨g, t.from_, t.to_⟩], rfl, rfl, rfl, Or.inr (Or.inr ⟨g, rfl, rfl⟩)⟩
    | carParking edge =>
      cases edge with
      | none => exact ⟨t', [], [], rfl, rfl, rfl, Or.inl ⟨rfl, rfl⟩⟩
      | some c =>
        obtain ⟨parkingPos, carDuration, footDuration, usesCar⟩ := c
        cases usesCar with
        | false =>
          exact ⟨{ t' with mumoType := MumoType.foot.toString }, [], [], rfl, rfl, rfl,
            Or.inl ⟨rfl, rfl⟩⟩
        | true =>
          let c : CarParkingEdge := ⟨parkingPos, carDuration, footDuration, true⟩
          exact ⟨t', [⟨c, t.from_, t.to_⟩], [], rfl, rfl, rfl, Or.inr (Or.inl ⟨c, rfl, rfl⟩)⟩

theorem keepsEnds_postprocessJourney {edges : List MumoEdge} (hwalk : t.isWalk = true)
    (hid : 0 ≤ t.mumoId → t.mumoId.toInt.toNat < edges.length) (hfrom : t.from_ = 0)
    (hto : t.to_ = 1) :
    KeepsEnds a b (postprocessJourney edges { stops := [a, b], transports := [t] }) := by
  obtain ⟨t', ps, gs, hcollect, hfrom', hto', hpatches⟩ :=
    collectPatches_walk hwalk hid
  have ht' : { t' with from_ := 0, to_ := 1 } = t' := by
    rw [← hfrom'.trans hfrom, ← hto'.trans hto]
  rw [postprocessJourney]
  dsimp only
  rw [hcollect]
  rw [hfrom, hto] at hpatches
  rcases hpatches with ⟨rfl, rfl⟩ | ⟨c, rfl, rfl⟩ | ⟨g, rfl, rfl⟩
  · have h : KeepsEnds a b _ := keepsEnds_nil (t := t')
    rwa [ht'] at h
  · have h : KeepsEnds a b _ := keepsEnds_parking (t := t') c
    rwa [ht'] at h
  · have h : KeepsEnds a b _ := keepsEnds_gbfs (t := t') g
    rwa [ht'] at h

end Patches

/-! ### Direct journeys -/

section Direct

variable {services : Services} {req : IntermodalRoutingRequest}

/-- A mumo id is -1 or the place of an edge. -/
theorem mumoId_cases {edges : List PlacedEdge} {d : DirectConnection}
    (hd : d ∈ getDirectConnections services req edges) :
    d.mumoId = -1 ∨ ∃ i < edges.length, d.mumoId = (i : ℤ) := by
  have hosrm : ∀ settings type, d ∈ osrmConnections services req settings type →
      d.mumoId = -1 := by
    intro settings type hd
    rw [osrmConnections] at hd
    split at hd
    · dsimp only at hd
      split at hd
      · rw [List.mem_singleton.mp hd]
      · exact absurd hd List.not_mem_nil
    · exact absurd hd List.not_mem_nil
  rcases List.mem_append.mp hd with hd | hd
  · left
    rcases List.mem_append.mp hd with hd | hcar
    · rcases List.mem_append.mp hd with hppr | hbike
      · rw [pprConnections] at hppr
        split at hppr
        · split at hppr
          · obtain ⟨route, -, rfl⟩ := List.mem_map.mp hppr
            rfl
          · exact absurd hppr List.not_mem_nil
        · exact absurd hppr List.not_mem_nil
      · exact hosrm _ _ hbike
    · exact hosrm _ _ hcar
  · right
    obtain ⟨⟨e, i⟩, he, heq⟩ := List.mem_filterMap.mp hd
    have hi := (List.getElem?_eq_some_iff.mp (List.mem_zipIdx_iff_getElem?.mp he)).1
    dsimp only at heq
    split at heq
    · exact ⟨i, hi, by rw [← Option.some.inj heq]⟩
    · cases heq

/-- An `int` holds the place, or wraps to an earlier one or to a negative number. -/
theorem toNat_ofInt_lt {n : ℕ} {k : ℤ} (h : k = -1 ∨ ∃ i < n, k = (i : ℤ))
    (hpos : 0 ≤ Int32.ofInt k) : (Int32.ofInt k).toInt.toNat < n := by
  rcases h with rfl | ⟨i, hi, rfl⟩
  · exact absurd hpos (by decide)
  · have hmod : (Int32.ofInt (i : ℤ)).toInt = (i : ℤ).bmod (2 ^ 32) := Int32.toInt_ofInt
    have hnonneg : 0 ≤ (Int32.ofInt (i : ℤ)).toInt := Int32.le_iff_toInt_le.mp hpos
    rw [hmod] at hnonneg ⊢
    rw [Int.bmod_def] at hnonneg ⊢
    split at hnonneg <;> split <;> omega

/-- The positions of a direct journey are set in the order of travel, its names are not. -/
theorem postprocess_directJourney (edges : List PlacedEdge) (d : DirectConnection) :
    ∃ a b t, postprocess (parseQueryStart req) (parseQueryDest req) req.searchDir edges
        (directJourney (parseQueryStart req) (parseQueryDest req) req d) =
        (do
          let (j, _) ← postprocessJourney (edges.map (·.toMumoEdge))
            { stops := [a, b], transports := [t] }
          pure j) ∧
      StandsAt stationStart req.origin.2 a ∧ StandsAt stationEnd req.target.2 b ∧
      t.isWalk = true ∧ t.mumoId = Int32.ofInt d.mumoId ∧ t.from_ = 0 ∧ t.to_ = 1 := by
  obtain ⟨start, startModes, destination, destinationModes, searchDir⟩ := req
  cases start <;> cases searchDir <;>
    exact ⟨_, _, _, rfl, ⟨rfl, rfl, rfl, rfl⟩, ⟨rfl, rfl, rfl, rfl⟩, rfl, rfl, rfl, rfl⟩

/-- The journey of a direct connection is always processed; START stays its first stop. -/
theorem postprocess_direct {edges : List PlacedEdge} {d : DirectConnection}
    (hd : d ∈ getDirectConnections services req edges) :
    ∃ j first mid last, postprocess (parseQueryStart req) (parseQueryDest req) req.searchDir edges
        (directJourney (parseQueryStart req) (parseQueryDest req) req d) = .ok j ∧
      j.stops = first :: (mid ++ [last]) ∧
      StandsAt stationStart req.origin.2 first ∧ StandsAt stationEnd req.target.2 last := by
  obtain ⟨a, b, t, heq, ha, hb, hwalk, hmumoId, hfrom, hto⟩ := postprocess_directJourney edges d
  have hid : 0 ≤ t.mumoId → t.mumoId.toInt.toNat < (edges.map (·.toMumoEdge)).length := by
    rw [hmumoId, List.length_map]
    exact toNat_ofInt_lt (mumoId_cases hd)
  obtain ⟨j, splits, mid, hj, hstops⟩ := keepsEnds_postprocessJourney hwalk hid hfrom hto
  rw [heq, hj]
  exact ⟨j, a, mid, b, rfl, hstops, ha, hb⟩

/-! ### The response -/

/-- A connection that is added for a direct one. -/
def added (req : IntermodalRoutingRequest) (d : DirectConnection) : Connection :=
  { journey := directJourney (parseQueryStart req) (parseQueryDest req) req d, direct := some d }

/-- START is the first stop and END the last one, with the positions in the order of travel. -/
def Named (req : IntermodalRoutingRequest) (j : Journey) : Prop :=
  ∃ first mid last, j.stops = first :: (mid ++ [last]) ∧
    StandsAt stationStart req.origin.2 first ∧ StandsAt stationEnd req.target.2 last

/-- `postprocess`, which leaves the direct connection of a journey alone. -/
def process (req : IntermodalRoutingRequest) (edges : List PlacedEdge) (c : Connection) :
    Except Error Connection := do
  let journey ← postprocess (parseQueryStart req) (parseQueryDest req) req.searchDir edges c.journey
  return { c with journey }

theorem process_ok {edges : List PlacedEdge} {c c' : Connection}
    (h : process req edges c = .ok c') : c'.direct = c.direct ∧
      postprocess (parseQueryStart req) (parseQueryDest req) req.searchDir edges c.journey =
        .ok c'.journey := by
  obtain ⟨j, hj, h⟩ := bind_ok h
  obtain rfl := Except.ok.inj h
  exact ⟨rfl, hj⟩

/-- All direct connections are processed. -/
theorem process_added {edges : List PlacedEdge} : ∀ l : List DirectConnection,
    (∀ d ∈ l, d ∈ getDirectConnections services req edges) →
      ∃ cs, (l.map (added req)).mapM (process req edges) = .ok cs ∧
        cs.map (·.direct) = l.map some ∧ ∀ c ∈ cs, Named req c.journey
  | [], _ => ⟨[], rfl, rfl, fun _ hc => absurd hc List.not_mem_nil⟩
  | d :: l, hl => by
    obtain ⟨hd, hl⟩ := List.forall_mem_cons.mp hl
    obtain ⟨cs, hcs, hdirect, hnamed⟩ := process_added l hl
    obtain ⟨j, first, mid, last, hj, hstops, hfirst, hlast⟩ := postprocess_direct hd
    have hc : process req edges (added req d) = .ok { journey := j, direct := some d } := by
      rw [process, added, hj]
      rfl
    refine ⟨{ journey := j, direct := some d } :: cs, ?_, ?_, ?_⟩
    · rw [List.map_cons, List.mapM_cons, hc, hcs]
      rfl
    · rw [List.map_cons, List.map_cons, hdirect]
    · exact List.forall_mem_cons.mpr ⟨⟨first, mid, last, hstops, hfirst, hlast⟩, hnamed⟩

/-- The journeys of the router that no direct connection dominates. -/
def kept (services : Services) (req : IntermodalRoutingRequest) (journeys : List Journey) :
    List Journey :=
  removeDominatedJourneys journeys (getDirectConnections services req (edgeMapping services req))

def responseOf (direct : List DirectConnection) (connections : List Connection) : RoutingResponse :=
  { connections := sortConnections (connections.filter fun c => !c.journey.stops.isEmpty)
    directConnections := direct }

theorem postprocessResponse_eq (journeys : List Journey) :
    postprocessResponse services req journeys =
      (do
        let connections ←
          ((kept services req journeys).map (fun j => ({ journey := j } : Connection)) ++
            (getDirectConnections services req (edgeMapping services req)).map (added req)).mapM
              (process req (edgeMapping services req))
        return responseOf (getDirectConnections services req (edgeMapping services req))
          connections) :=
  rfl

/-- The connections of a response: those of the router, and one for each direct one. -/
theorem postprocessResponse_ok {journeys : List Journey} {r : RoutingResponse}
    (h : postprocessResponse services req journeys = .ok r) :
    ∃ others cs, r.connections.Perm (others ++ cs) ∧ (∀ c ∈ others, c.direct = none) ∧
      cs.map (·.direct) =
        (getDirectConnections services req (edgeMapping services req)).map some ∧
      ∀ c ∈ cs, Named req c.journey := by
  rw [postprocessResponse_eq, List.mapM_append] at h
  obtain ⟨connections, hconnections, h⟩ := bind_ok h
  obtain ⟨others, hothers, hconnections⟩ := bind_ok hconnections
  obtain ⟨cs, hcs, hconnections⟩ := bind_ok hconnections
  obtain rfl := Except.ok.inj hconnections
  obtain rfl := Except.ok.inj h
  obtain ⟨cs', hcs', hdirect, hnamed⟩ := process_added
    (getDirectConnections services req (edgeMapping services req)) fun _ hd => hd
  obtain rfl := Except.ok.inj (hcs'.symm.trans hcs)
  have hnonempty : cs'.filter (fun c => !c.journey.stops.isEmpty) = cs' := by
    refine List.filter_eq_self.mpr fun c hc => ?_
    obtain ⟨first, mid, last, hstops, -⟩ := hnamed c hc
    rw [hstops]
    rfl
  refine ⟨others.filter fun c => !c.journey.stops.isEmpty, cs', ?_, fun c hc => ?_, hdirect, hnamed⟩
  · refine (List.mergeSort_perm _ _).trans ?_
    rw [List.filter_append, hnonempty]
  · obtain ⟨c', hc', hprocess⟩ := (mem_mapM_ok hothers).mp (List.mem_filter.mp hc).1
    obtain ⟨j, -, rfl⟩ := List.mem_map.mp hc'
    exact (process_ok hprocess).1

/-- Only the journeys of the router can make the response fail. -/
theorem exists_response {journeys : List Journey} :
    (∃ r, postprocessResponse services req journeys = .ok r) ↔
      ∀ j ∈ kept services req journeys,
        ∃ j', postprocess (parseQueryStart req) (parseQueryDest req) req.searchDir
          (edgeMapping services req) j = .ok j' := by
  constructor
  · rintro ⟨r, h⟩ j hj
    rw [postprocessResponse_eq, List.mapM_append] at h
    obtain ⟨connections, hconnections, -⟩ := bind_ok h
    obtain ⟨others, hothers, -⟩ := bind_ok hconnections
    have hmem : ({ journey := j } : Connection) ∈
        (kept services req journeys).map fun j => ({ journey := j } : Connection) :=
      List.mem_map.mpr ⟨j, hj, rfl⟩
    obtain ⟨c, -, hc⟩ := exists_of_mapM_ok hothers hmem
    exact ⟨c.journey, (process_ok hc).2⟩
  · intro h
    have hothers : ∀ c ∈ (kept services req journeys).map fun j => ({ journey := j } : Connection),
        ∃ c', process req (edgeMapping services req) c = .ok c' := by
      intro c hc
      obtain ⟨j, hj, rfl⟩ := List.mem_map.mp hc
      obtain ⟨j', hj'⟩ := h j hj
      refine ⟨{ journey := j' }, ?_⟩
      rw [process, hj']
      rfl
    obtain ⟨others, hothers⟩ := mapM_total hothers
    obtain ⟨cs, hcs, -⟩ := process_added
      (getDirectConnections services req (edgeMapping services req)) fun _ hd => hd
    refine ⟨responseOf (getDirectConnections services req (edgeMapping services req))
      (others ++ cs), ?_⟩
    rw [postprocessResponse_eq, List.mapM_append, hothers, hcs]
    rfl

/-- There is a connection for every direct one, and for nothing else. -/
theorem mumoIds_perm {journeys : List Journey} {r : RoutingResponse}
    (h : postprocessResponse services req journeys = .ok r) :
    r.mumoIds.Perm
      ((getDirectConnections services req (edgeMapping services req)).map (·.mumoId)) := by
  obtain ⟨others, cs, hperm, hothers, hcs, -⟩ := postprocessResponse_ok h
  have hnone : others.filterMap (fun c => c.direct.map (·.mumoId)) = [] := by
    refine List.filterMap_eq_nil_iff.mpr fun c hc => ?_
    rw [hothers c hc]
    rfl
  have hsome : cs.filterMap (fun c => c.direct.map (·.mumoId)) =
      (getDirectConnections services req (edgeMapping services req)).map (·.mumoId) := by
    calc cs.filterMap (fun c => c.direct.map (·.mumoId))
        = (cs.map (·.direct)).filterMap (Option.map (·.mumoId)) := by
          rw [List.filterMap_map]
          rfl
      _ = _ := by
          rw [hcs, List.filterMap_map]
          exact congrFun (List.filterMap_eq_map (f := DirectConnection.mumoId)) _
  have hmumoIds := hperm.filterMap fun c => c.direct.map (·.mumoId)
  rwa [List.filterMap_append, hnone, hsome, List.nil_append] at hmumoIds

theorem named_of_direct {journeys : List Journey} {r : RoutingResponse}
    (h : postprocessResponse services req journeys = .ok r) {c : Connection}
    (hc : c ∈ r.connections) (hdirect : c.direct ≠ none) : Named req c.journey := by
  obtain ⟨others, cs, hperm, hothers, -, hnamed⟩ := postprocessResponse_ok h
  rcases List.mem_append.mp (hperm.mem_iff.mp hc) with hc | hc
  · exact absurd (hothers c hc) hdirect
  · exact hnamed c hc

/-! ### Direct edges -/

theorem mem_deps {e : PlacedEdge} (he : e ∈ deps services req) :
    match req.searchDir with
    | .forward => e.from_ = stationStart
    | .backward => e.to_ = stationStart := by
  rw [deps] at he
  cases hdir : req.searchDir <;> rw [hdir] at he <;>
    obtain ⟨found, -, rfl⟩ := List.mem_map.mp he <;> rfl

theorem mem_arrs {e : PlacedEdge} (he : e ∈ arrs services req) :
    match req.searchDir with
    | .forward => e.to_ = stationEnd
    | .backward => e.from_ = stationEnd := by
  rw [arrs] at he
  cases hdir : req.searchDir <;> rw [hdir] at he <;>
    obtain ⟨found, -, rfl⟩ := List.mem_map.mp he <;> rfl

theorem stationStart_ne : stationStart ≠ stationEnd := by decide

/-- The direct edges of a forward search lead from START to END. -/
theorem direct_forward (hdir : req.searchDir = .forward) {e : PlacedEdge}
    (he : e ∈ edgeMapping services req) (hdirect : e.Direct) :
    e.from_ = stationStart ∧ e.to_ = stationEnd := by
  refine hdirect.resolve_right fun hback => ?_
  rcases List.mem_append.mp he with he | he
  · have hfrom := mem_deps he
    rw [hdir] at hfrom
    exact stationStart_ne (hfrom.symm.trans hback.1)
  · have hto := mem_arrs he
    rw [hdir] at hto
    exact stationStart_ne (hback.2.symm.trans hto)

/-- Those of a backward search do not. -/
theorem mumoConnections_backward (hdir : req.searchDir = .backward) :
    mumoConnections (edgeMapping services req) = [] := by
  refine List.filterMap_eq_nil_iff.mpr fun x hx => if_neg ?_
  rintro ⟨hfrom, hto⟩
  have he : x.1 ∈ edgeMapping services req :=
    List.mem_of_getElem? (List.mem_zipIdx_iff_getElem?.mp hx)
  rcases List.mem_append.mp he with he | he
  · have hdeps := mem_deps he
    rw [hdir] at hdeps
    exact stationStart_ne (hdeps.symm.trans hto)
  · have harrs := mem_arrs he
    rw [hdir] at harrs
    exact stationStart_ne (hfrom.symm.trans harrs)

theorem nodup_mumoConnections (edges : List PlacedEdge) :
    ((mumoConnections edges).map (·.mumoId)).Nodup := by
  have hzip : edges.zipIdx.Pairwise fun a b => a.2 ≠ b.2 :=
    List.pairwise_map.mp (List.nodup_zipIdx_map_snd edges)
  rw [mumoConnections, List.Nodup, List.pairwise_map, List.pairwise_filterMap]
  refine hzip.imp fun {x y} hne d hd d' hd' heq => ?_
  have hplace : ∀ {x : PlacedEdge × ℕ} {d : DirectConnection},
      (if x.1.from_ = stationStart ∧ x.1.to_ = stationEnd then
        some (⟨x.1.kind.type, x.1.duration.toUInt32, x.1.accessibility.toUInt32, x.2⟩ :
          DirectConnection)
      else none) = some d → d.mumoId = x.2 := by
    intro x d hd
    split at hd
    · rw [← Option.some.inj hd]
    · cases hd
  rw [hplace hd, hplace hd'] at heq
  exact hne (Int.ofNat.inj heq)

theorem mumoId_streetConnections {d : DirectConnection} (hd : d ∈ streetConnections services req) :
    d.mumoId = -1 := by
  have hnil : d ∈ getDirectConnections services req [] := List.mem_append_left _ hd
  refine (mumoId_cases hnil).resolve_right ?_
  rintro ⟨i, hi, -⟩
  exact absurd hi (Nat.not_lt_zero i)

theorem count_streetConnections (i : ℕ) :
    ((streetConnections services req).map (·.mumoId)).count (i : ℤ) = 0 := by
  refine List.count_eq_zero.mpr fun hi => ?_
  obtain ⟨d, hd, heq⟩ := List.mem_map.mp hi
  rw [mumoId_streetConnections hd] at heq
  omega

/-- An edge from START to END has one direct connection. -/
theorem count_mumoConnections {edges : List PlacedEdge} {i : ℕ} {e : PlacedEdge}
    (he : edges[i]? = some e) (hfrom : e.from_ = stationStart) (hto : e.to_ = stationEnd) :
    ((mumoConnections edges).map (·.mumoId)).count (i : ℤ) = 1 := by
  refine List.count_eq_one_of_mem (nodup_mumoConnections edges) ?_
  refine List.mem_map.mpr ⟨⟨e.kind.type, e.duration.toUInt32, e.accessibility.toUInt32, i⟩, ?_, rfl⟩
  exact List.mem_filterMap.mpr ⟨(e, i), List.mem_zipIdx_iff_getElem?.mpr he, if_pos ⟨hfrom, hto⟩⟩

theorem osrmConnections_eq_nil {settings : OsrmSettings} {type : MumoType} :
    osrmConnections services req settings type = [] ↔
      (0 < settings.maxDuration → beeline services req ≤ settings.maxDistance →
        settings.maxDuration < directDuration services req type) := by
  rw [osrmConnections]
  by_cases hasked : 0 < settings.maxDuration ∧ beeline services req ≤ settings.maxDistance
  · rw [if_pos hasked]
    by_cases hle : (directDuration services req type : ℤ) ≤ settings.maxDuration
    · rw [if_pos hle]
      exact iff_of_false (List.cons_ne_nil _ _) fun h =>
        absurd (h hasked.1 hasked.2) (not_lt.mpr hle)
    · rw [if_neg hle]
      exact iff_of_true rfl fun _ _ => not_le.mp hle
  · rw [if_neg hasked]
    exact iff_of_true rfl fun hpos hle => absurd ⟨hpos, hle⟩ hasked

theorem pprConnections_eq_nil : pprConnections services req = [] ↔
    (0 < (getDirectPprSettings services req).maxDuration →
      beeline services req ≤ (getDirectPprSettings services req).maxDistance →
      ∀ routes, services.pprRoute req.searchDir (parseQueryStart req).pos
        [(parseQueryDest req).pos] ⟨(getDirectPprSettings services req).profile,
          (getDirectPprSettings services req).maxDuration⟩ = [routes] → routes = []) := by
  rw [pprConnections]
  split
  · rename_i hasked
    split
    · rename_i routes hroutes
      rw [List.map_eq_nil_iff]
      exact ⟨fun h _ _ routes' hroutes' => (List.cons.inj (hroutes.symm.trans hroutes')).1 ▸ h,
        fun h => h hasked.1 hasked.2 routes hroutes⟩
    · rename_i hother
      exact iff_of_true rfl fun _ _ routes hroutes => absurd hroutes (hother routes)
  · rename_i hasked
    exact iff_of_true rfl fun hpos hle => absurd ⟨hpos, hle⟩ hasked

end Direct

/-! ### Orientation of the response -/

section Orientation

variable {services : Services} {req : IntermodalRoutingRequest} {journeys : List Journey}
  {r : RoutingResponse}

/-- The travel order of a forward search is the order of the names. -/
theorem orientedJourney_forward (hdir : req.searchDir = .forward) {j : Journey}
    (h : Named req j) : OrientedJourney req j := by
  obtain ⟨first, mid, last, hstops, hfirst, hlast⟩ := h
  refine ⟨first, mid, last, hstops, ?_, ?_⟩
  · have horigin : req.origin.1 = stationStart := by rw [IntermodalRoutingRequest.origin, hdir]
    rwa [horigin]
  · have htarget : req.target.1 = stationEnd := by rw [IntermodalRoutingRequest.target, hdir]
    rwa [htarget]

/-- A backward search ends at START, where the added journeys begin. -/
theorem not_orientedJourney_backward (hdir : req.searchDir = .backward) {j : Journey}
    (h : Named req j) : ¬OrientedJourney req j := by
  rintro ⟨first', mid', last', hstops', hfirst', -⟩
  obtain ⟨first, mid, last, hstops, hfirst, -⟩ := h
  obtain rfl := (List.cons.inj (hstops.symm.trans hstops')).1
  have horigin : req.origin.1 = stationEnd := by rw [IntermodalRoutingRequest.origin, hdir]
  exact stationStart_ne (hfirst.name.symm.trans (hfirst'.name.trans horigin))

theorem count_mumoIds (h : postprocessResponse services req journeys = .ok r) (i : ℕ) :
    r.mumoIds.count (i : ℤ) =
      ((mumoConnections (edgeMapping services req)).map (·.mumoId)).count (i : ℤ) := by
  rw [(mumoIds_perm h).count_eq, getDirectConnections, List.map_append, List.count_append,
    count_streetConnections, Nat.zero_add]

theorem oriented_forward (hdir : req.searchDir = .forward)
    (h : postprocessResponse services req journeys = .ok r) :
    Oriented req (edgeMapping services req) r where
  oriented _ hc hdirect := orientedJourney_forward hdir (named_of_direct h hc hdirect)
  yields i e he hdirect := by
    obtain ⟨hfrom, hto⟩ := direct_forward hdir (List.mem_of_getElem? he) hdirect
    rw [count_mumoIds h, count_mumoConnections he hfrom hto]

/-- No direct edge of a backward search has a connection. -/
theorem not_yields_backward (hdir : req.searchDir = .backward)
    (h : postprocessResponse services req journeys = .ok r)
    (horiented : Oriented req (edgeMapping services req) r) :
    ∀ e ∈ edgeMapping services req, ¬e.Direct := by
  intro e he hdirect
  obtain ⟨i, hi⟩ := List.mem_iff_getElem?.mp he
  have hcount := horiented.yields i e hi hdirect
  rw [count_mumoIds h, mumoConnections_backward hdir, List.map_nil, List.count_nil] at hcount
  exact absurd hcount Nat.zero_ne_one

/-- The connections of the response that stand for a direct one. -/
theorem exists_added (h : postprocessResponse services req journeys = .ok r)
    (hstreet : streetConnections services req ≠ []) :
    ∃ c ∈ r.connections, c.direct ≠ none := by
  obtain ⟨others, cs, hperm, -, hcs, -⟩ := postprocessResponse_ok h
  obtain ⟨d, hd⟩ := List.exists_mem_of_ne_nil _ hstreet
  have hmem : some d ∈ cs.map (·.direct) := by
    rw [hcs]
    exact List.mem_map.mpr ⟨d, List.mem_append_left _ hd, rfl⟩
  obtain ⟨c, hc, hdirect⟩ := List.mem_map.mp hmem
  exact ⟨c, hperm.mem_iff.mpr (List.mem_append_right _ hc), by rw [hdirect]; exact nofun⟩

theorem streetConnections_eq_nil_of_oriented (hdir : req.searchDir = .backward)
    (h : postprocessResponse services req journeys = .ok r)
    (horiented : Oriented req (edgeMapping services req) r) :
    streetConnections services req = [] := by
  by_contra hstreet
  obtain ⟨c, hc, hdirect⟩ := exists_added h hstreet
  exact not_orientedJourney_backward hdir (named_of_direct h hc hdirect)
    (horiented.oriented c hc hdirect)

theorem oriented_of_nothing (hdir : req.searchDir = .backward)
    (h : postprocessResponse services req journeys = .ok r)
    (hstreet : streetConnections services req = [])
    (hedges : ∀ e ∈ edgeMapping services req, ¬e.Direct) :
    Oriented req (edgeMapping services req) r where
  oriented c hc hdirect := by
    obtain ⟨others, cs, hperm, hothers, hcs, -⟩ := postprocessResponse_ok h
    rw [getDirectConnections, hstreet, mumoConnections_backward hdir] at hcs
    obtain rfl := List.map_eq_nil_iff.mp hcs
    rw [List.append_nil] at hperm
    exact absurd (hothers c (hperm.mem_iff.mp hc)) hdirect
  yields _ _ he hdirect := absurd hdirect (hedges _ (List.mem_of_getElem? he))

theorem nothingDirect_iff : NothingDirect services req ↔
    streetConnections services req = [] ∧ ∀ e ∈ edgeMapping services req, ¬e.Direct := by
  rw [streetConnections, List.append_eq_nil_iff, List.append_eq_nil_iff, pprConnections_eq_nil,
    osrmConnections_eq_nil, osrmConnections_eq_nil]
  constructor
  · rintro ⟨hfoot, hbike, hcar, hedges⟩
    exact ⟨⟨⟨hfoot, hbike⟩, hcar⟩, hedges⟩
  · rintro ⟨⟨⟨hfoot, hbike⟩, hcar⟩, hedges⟩
    exact ⟨hfoot, hbike, hcar, hedges⟩

theorem oriented_backward_iff (hdir : req.searchDir = .backward)
    (h : postprocessResponse services req journeys = .ok r) :
    Oriented req (edgeMapping services req) r ↔ NothingDirect services req := by
  rw [nothingDirect_iff]
  constructor
  · intro horiented
    exact ⟨streetConnections_eq_nil_of_oriented hdir h horiented,
      not_yields_backward hdir h horiented⟩
  · rintro ⟨hstreet, hedges⟩
    exact oriented_of_nothing hdir h hstreet hedges

/-- A request gets a response unless a journey of the router fails, and its direct connections are
oriented in a forward search, or when there is nothing direct. -/
theorem direct_oriented_iff (services : Services) (req : IntermodalRoutingRequest)
    (routing : List PlacedEdge → List Journey) :
    (∀ r, route services req routing = .ok r →
      (Oriented req (edgeMapping services req) r ↔
        req.searchDir = .forward ∨ NothingDirect services req)) ∧
      ((∃ r, route services req routing = .ok r) ↔
        ∀ j ∈ kept services req (routed services req routing),
          ∃ j', postprocess (parseQueryStart req) (parseQueryDest req) req.searchDir
            (edgeMapping services req) j = .ok j') := by
  refine ⟨fun r h => ?_, exists_response⟩
  cases hdir : req.searchDir with
  | forward => exact iff_of_true (oriented_forward hdir h) (Or.inl rfl)
  | backward =>
    rw [oriented_backward_iff hdir h]
    exact ⟨Or.inr, fun h => h.resolve_left nofun⟩

end Orientation

/-! ### A backward search by bike -/

section Bike

/-- A bike takes four minutes between any two places. -/
def bikeServices : Services where
  distance _ _ := 100
  getWalkingSpeed _ := 1
  geoStation _ _ := []
  oneToMany _ _ _ _ _ := some 240
  pprRoute _ _ _ _ := []
  parkingEdges _ _ _ _ := []
  gbfsRoute _ _ _ _ _ _ := []
  undefined _ := 0

/-- Arrive at the start by bike. -/
def bikeRequest : IntermodalRoutingRequest where
  start := .intermodalOntripStart ⟨0, 0⟩ 36000
  startModes := [.bike 900]
  destination := ⟨1, 1⟩
  destinationModes := [.bike 900]
  searchDir := .backward

/-- Leave the start by bike. -/
def bikeRequestForward : IntermodalRoutingRequest := { bikeRequest with searchDir := .forward }

theorem direct_oriented_iff_bike : ∃ r,
    route bikeServices bikeRequestForward (fun _ => []) = .ok r ∧
      Oriented bikeRequestForward (edgeMapping bikeServices bikeRequestForward) r := by
  obtain ⟨horiented, hresponse⟩ :=
    direct_oriented_iff bikeServices bikeRequestForward (fun _ => [])
  have hrouted : routed bikeServices bikeRequestForward (fun _ => []) = [] := by decide
  obtain ⟨r, hr⟩ := hresponse.mpr fun j hj => by
    rw [hrouted] at hj
    exact absurd hj List.not_mem_nil
  exact ⟨r, hr, (horiented r hr).mpr (Or.inl rfl)⟩

/-- START comes first, with the position of the destination. -/
theorem not_oriented_bike : ¬∀ (services : Services) (req : IntermodalRoutingRequest)
    (routing : List PlacedEdge → List Journey) (r : RoutingResponse),
      route services req routing = .ok r → Oriented req (edgeMapping services req) r := by
  intro h
  have hrouted : routed bikeServices bikeRequest (fun _ => []) = [] := by decide
  obtain ⟨r, hr⟩ := (@exists_response bikeServices bikeRequest []).mpr fun j hj =>
    absurd hj List.not_mem_nil
  have hnil := streetConnections_eq_nil_of_oriented rfl hr
    (h bikeServices bikeRequest (fun _ => []) r (by rw [route, hrouted]; exact hr))
  have hbike : osrmConnections bikeServices bikeRequest
      (getDirectOsrmBikeSettings bikeRequest) .bike = [] :=
    (List.append_eq_nil_iff.mp (List.append_eq_nil_iff.mp hnil).1).2
  have hduration : (getDirectOsrmBikeSettings bikeRequest).maxDuration = 1800 := by decide
  have hdistance : (getDirectOsrmBikeSettings bikeRequest).maxDistance = 7500 := by
    norm_num [getDirectOsrmBikeSettings, getOsrmSettings, bikeRequest, bikeDuration, bikeSpeed,
      OsrmSettings.add]
  have hlong := osrmConnections_eq_nil.mp hbike (by rw [hduration]; decide)
    (by rw [hdistance]; norm_num [beeline, bikeServices])
  rw [hduration] at hlong
  exact absurd hlong (by decide)

end Bike

end Motis.Intermodal
