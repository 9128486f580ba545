import Mathlib.Data.List.Nodup
import Motis.Intermodal.PatchLoops

/-! Exactly when the patches of a journey keep its indices consistent.

    The patches of one list see every split made for that list, but the GBFS patches do not see the
    splits of the parking patches: every GBFS walk must lie before all of them.

        stops     0 ─park─ 1 ─train─ 2 ─bike─ 3
        parking   0 ─── P ─── 1 ─train─ 2 ─bike─ 3         the walk [2, 3] is now [3, 4]
        gbfs      the patch still says [2, 3]: the train is divided -/

namespace Motis.Intermodal
open Insertion Journey Fallible
open Ranged (range setRange)

/-! ### Both lists of patches -/

theorem parkingBody (j : Journey) : Body j applyParkingPatch (fun _ => 1) (· < 4) where
  cuts_pos := fun _ => Nat.one_pos
  ok := fun h hk hS hdiv hstop hi hp => applyParkingPatch_ok h hk hS hdiv hstop hi hp
  inv := applyParkingPatch_inv

theorem gbfsBody (j : Journey) : Body j (fun _ => applyGbfsPatch) cuts (fun _ => True) where
  cuts_pos := fun e => by unfold cuts; split <;> omega
  ok := fun h hk hS hdiv hstop _ hp => applyGbfsPatch_ok h hk hS hdiv hstop hp
  inv := fun h => ⟨trivial, applyGbfsPatch_inv h⟩

theorem forPatches_eq {E : Type}
    (body : ℕ → ParkingPatch E → PatchRun E → Except Error (PatchRun E)) (s : PatchRun E) :
    forPatches body s = (List.range' 0 s.patches.length).foldlM (iteration body) s := by
  rw [forPatches, List.range_eq_range']
  rfl

/-- After both lists of patches every patch has divided its own walk, and every range of the journey
    denotes the stops it denoted before. -/
def Consistent (j : Journey) (r : Recorded j) : Prop :=
  ∃ j' splits, applyPatches j (r.parking.map (patchOf j)) (r.gbfs.map (patchOf j)) =
      .ok (j', splits) ∧
    hits (List.range j.transports.length) splits =
      expected (fun _ => 1) r.parking ++ expected cuts r.gbfs ∧
    ∃ ρ, Denotes j {k | k ∈ r.parking.map (·.1) ++ r.gbfs.map (·.1)} ρ
      (relabel (List.range j.transports.length) splits) j'

/-- There are names for the parking places, every walk can be divided, and the GBFS walks lie before
    the parking walks. -/
structure Compatible (j : Journey) (r : Recorded j) : Prop where
  stations : r.parking.length ≤ 4
  dividable : ∀ k ∈ r.parking.map (·.1) ++ r.gbfs.map (·.1), Dividable j k
  before : ∀ p ∈ r.parking, ∀ g ∈ r.gbfs, (walk j g.1).to_ ≤ (walk j p.1).from_

section Both
variable {j : Journey} (r : Recorded j)

theorem before_parking : Before j ∅ id id (List.range j.transports.length) r.parking r.parking 0
    { journey := j, patches := r.parking.map (patchOf j) } where
  tracked := tracked_refl j
  mono := strictMono_id
  patches := by simp [renumber_id]
  drop := rfl
  todo := fun q hq => by
    have hw := r.walks q.1 (List.mem_append_left _ (List.mem_map_of_mem hq))
    exact ⟨by simp, hw.1, hw.2.2⟩
  nodup := (List.nodup_append.mp r.nodup).1

theorem before_gbfs {Φ : ℕ → ℕ} {labels : List ℕ} {j' : Journey}
    (h : Tracked j (∅ ∪ {k | k ∈ r.parking.map (·.1)}) Φ labels j') :
    Before j (∅ ∪ {k | k ∈ r.parking.map (·.1)}) Φ id labels r.gbfs r.gbfs 0
      { journey := j', patches := r.gbfs.map (patchOf j) } where
  tracked := h
  mono := strictMono_id
  patches := by simp [renumber_id]
  drop := rfl
  todo := fun q hq => by
    have hmem := List.mem_map_of_mem (f := (·.1)) hq
    have hw := r.walks q.1 (List.mem_append_right _ hmem)
    refine ⟨fun hp => ?_, hw.1, hw.2.2⟩
    rw [Set.empty_union] at hp
    exact (List.nodup_append.mp r.nodup).2.2 q.1 hp q.1 hmem rfl
  nodup := (List.nodup_append.mp r.nodup).2.1

/-- The parking splits leave a GBFS walk alone when it lies before all parking walks. -/
theorem fixed_iff_before {Φ : ℕ → ℕ} {labels : List ℕ} {j' : Journey}
    (h : Tracked j (∅ ∪ {k | k ∈ r.parking.map (·.1)}) Φ labels j') {k : ℕ}
    (hdiv : Dividable j k) :
    (range (walk j k)).map Φ Φ = range (walk j k) ↔
      ∀ p ∈ r.parking, (walk j k).to_ ≤ (walk j p.1).from_ := by
  have hmem : ∀ p ∈ r.parking, p.1 ∈ ((∅ : Set ℕ) ∪ {k | k ∈ r.parking.map (·.1)}) := by
    intro p hp
    rw [Set.empty_union]
    exact List.mem_map_of_mem hp
  constructor
  · intro heq p hp
    by_contra hlt
    have hone := (h.dividable p.1 (hmem p hp)).1
    have hmoved := h.moved (hmem p hp) (i := (walk j k).to_) (by omega)
    have hto : Φ (walk j k).to_ = (walk j k).to_ := congrArg Prod.snd heq
    omega
  · intro hbefore
    have hlt : ∀ l ∈ ((∅ : Set ℕ) ∪ {k | k ∈ r.parking.map (·.1)}),
        (walk j k).to_ < (walk j l).to_ := by
      intro l hl
      rw [Set.empty_union] at hl
      obtain ⟨p, hp, rfl⟩ := List.mem_map.mp hl
      have hone := (h.dividable p.1 (hmem p hp)).1
      have := hbefore p hp
      omega
    have hto := h.fixed hlt
    have hfrom := h.fixed (i := (walk j k).from_) fun l hl => by
      have := hlt l hl
      have := hdiv.1
      omega
    exact Prod.ext hfrom hto

theorem compatible_of_consistent : Consistent j r → Compatible j r := by
  have hlenp : (r.parking.map (patchOf j)).length = r.parking.length := by simp
  have hleng : (r.gbfs.map (patchOf j)).length = r.gbfs.length := by simp
  rintro ⟨j', splits, hrun, hhits, -⟩
  obtain ⟨s₁, hpark, hrun⟩ := bind_ok hrun
  obtain ⟨s₂, hgbfs, hrun⟩ := bind_ok hrun
  have hsplits : splits = s₁.splits ++ s₂.splits :=
    (congrArg Prod.snd (Except.ok.inj hrun)).symm
  rw [applyParkingPatches, forPatches_eq] at hpark
  rw [applyGbfsPatches, forPatches_eq] at hgbfs
  simp only [hlenp, hleng] at hpark hgbfs
  -- every parking patch fits, since otherwise the labels differ
  have hfineP : ∀ t q, r.parking[t]? = some q → Fine j id (· < 4) q (0 + t) := by
    by_contra hnot
    simp only [not_forall] at hnot
    obtain ⟨t, q, hq, hnot⟩ := hnot
    obtain ⟨xs, hxs, hdiffer⟩ := loop_differ (parkingBody j) (before_parking r)
      ⟨t, q, hq, hnot⟩ hpark
    rw [List.nil_append] at hxs
    rw [hsplits, hxs, hits_append] at hhits
    exact hdiffer.append_ne _ _ hhits
  obtain ⟨s₁', xs, ψ, hok, hxs, hexp, htracked⟩ := loop_ok (parkingBody j)
    (before_parking r) hfineP
  obtain rfl : s₁ = s₁' := Except.ok.inj (hpark.symm.trans hok)
  have hbefore := before_gbfs r htracked
  have hfineG : ∀ t q, r.gbfs[t]? = some q → Fine j (ψ ∘ id) (fun _ => True) q (0 + t) := by
    by_contra hnot
    simp only [not_forall] at hnot
    obtain ⟨t, q, hq, hnot⟩ := hnot
    obtain ⟨ys, hys, hdiffer⟩ := loop_differ (gbfsBody j) hbefore
      ⟨t, q, hq, hnot⟩ hgbfs
    rw [List.nil_append] at hxs hys
    rw [hsplits, hxs, hys, hits_append, hexp] at hhits
    exact (hdiffer.append_left _).append_ne [] [] (by rw [List.append_nil, List.append_nil, hhits])
  refine ⟨?_, fun k hk => ?_, fun p hp g hg => ?_⟩
  · by_contra hlen
    obtain ⟨q, hq⟩ : ∃ q, r.parking[4]? = some q :=
      ⟨_, List.getElem?_eq_getElem (by omega : 4 < r.parking.length)⟩
    exact absurd (hfineP 4 q hq).2.2 (by omega)
  · rcases List.mem_append.mp hk with hk | hk
    · obtain ⟨q, hq, rfl⟩ := List.mem_map.mp hk
      obtain ⟨t, ht, rfl⟩ := List.getElem_of_mem hq
      exact (hfineP t _ (List.getElem?_eq_getElem ht)).1
    · obtain ⟨q, hq, rfl⟩ := List.mem_map.mp hk
      obtain ⟨t, ht, rfl⟩ := List.getElem_of_mem hq
      exact (hfineG t _ (List.getElem?_eq_getElem ht)).1
  · obtain ⟨t, ht, rfl⟩ := List.getElem_of_mem hg
    obtain ⟨hdiv, hfix, -⟩ := hfineG t _ (List.getElem?_eq_getElem ht)
    exact (fixed_iff_before r htracked hdiv).mp hfix p hp

theorem consistent_of_compatible : Compatible j r → Consistent j r := by
  have hlenp : (r.parking.map (patchOf j)).length = r.parking.length := by simp
  have hleng : (r.gbfs.map (patchOf j)).length = r.gbfs.length := by simp
  intro hc
  have hfineP : ∀ t q, r.parking[t]? = some q → Fine j id (· < 4) q (0 + t) := by
    intro t q hq
    have hlt := (List.getElem?_eq_some_iff.mp hq).1
    have := hc.stations
    exact ⟨hc.dividable _ (List.mem_append_left _ (List.mem_map_of_mem (List.mem_of_getElem? hq))),
      rfl, by omega⟩
  obtain ⟨s₁, xs, ψ, hpark, hxs, hexp, htracked⟩ := loop_ok (parkingBody j)
    (before_parking r) hfineP
  have hfineG : ∀ t q, r.gbfs[t]? = some q → Fine j (ψ ∘ id) (fun _ => True) q (0 + t) := by
    intro t q hq
    have hmem := List.mem_of_getElem? hq
    have hdiv := hc.dividable _ (List.mem_append_right _ (List.mem_map_of_mem (f := (·.1)) hmem))
    exact ⟨hdiv, (fixed_iff_before r htracked hdiv).mpr fun p hp => hc.before p hp q hmem,
      trivial⟩
  obtain ⟨s₂, ys, ψ', hgbfs, hys, hexp', htracked'⟩ := loop_ok (gbfsBody j)
    (before_gbfs r htracked) hfineG
  refine ⟨s₂.journey, s₁.splits ++ s₂.splits, ?_, ?_, ψ' ∘ ψ ∘ id, ?_⟩
  · rw [applyPatches, applyParkingPatches, forPatches_eq]
    simp only [hlenp]
    rw [hpark]
    simp only [bind, Except.bind]
    rw [applyGbfsPatches, forPatches_eq]
    simp only [hleng]
    rw [hgbfs]
    rfl
  · rw [List.nil_append] at hxs hys
    rw [hxs, hys, hits_append, hexp, hexp']
  · rw [List.nil_append] at hxs hys
    have hset : ∅ ∪ {k | k ∈ r.parking.map (·.1)} ∪ {k | k ∈ r.gbfs.map (·.1)} =
        {k | k ∈ r.parking.map (·.1) ++ r.gbfs.map (·.1)} := by
      ext k
      simp
    rw [hset] at htracked'
    rw [hxs, hys, relabel, List.foldl_append]
    exact htracked'.toDenotes

/-- CORRECT: the patches keep the indices of the journey consistent exactly when there are at most
    four parking patches, every patched walk is one section long and the first transport with its
    range, and every GBFS walk lies before every parking walk. -/
theorem consistent_iff_compatible : Consistent j r ↔ Compatible j r :=
  ⟨compatible_of_consistent r, consistent_of_compatible r⟩

end Both

/-- Park and ride at the start, a free bike at the end. -/
def rideHome : Journey where
  stops := [{ name := stationStart }, {}, {}, { name := stationEnd }]
  transports := [{ from_ := 0, to_ := 1, isWalk := true }, { from_ := 1, to_ := 2, name := "RE 4" },
    { from_ := 2, to_ := 3, isWalk := true }]

/-- The patches of that journey. -/
def rideHomePatches : Recorded rideHome where
  parking := [(0, { carDuration := 10, footDuration := 2, usesCar := true })]
  gbfs := [(2, { vehicleType := "bike", bike := .freeBike { walkDuration := 3, id := "b" } })]
  nodup := by decide
  walks := by decide

/-- The bike patch still has the numbers from before the parking patch, and divides the train. -/
theorem rideHome_inconsistent :
    (applyPatches rideHome (rideHomePatches.parking.map (patchOf rideHome))
      (rideHomePatches.gbfs.map (patchOf rideHome))).toOption.map
        (fun run => hits (List.range 3) run.2) = some [some 0, some 1] ∧
      ¬ Consistent rideHome rideHomePatches := by
  refine ⟨by decide, fun h => ?_⟩
  have hbefore := (compatible_of_consistent rideHomePatches h).before
  exact absurd (hbefore _ (List.mem_singleton_self _) _ (List.mem_singleton_self _)) (by decide)

/-! ### Recording the patches -/

/-- The patches are those of different walks among the transports. -/
def Records (ts : List Transport) (ps : List (ParkingPatch CarParkingEdge))
    (gs : List (ParkingPatch GbfsEdge)) : Prop :=
  ∃ (pk : List (ℕ × CarParkingEdge)) (gk : List (ℕ × GbfsEdge)),
    ps = pk.map (fun r => ⟨r.2, (ts.getD r.1 {}).from_, (ts.getD r.1 {}).to_⟩) ∧
    gs = gk.map (fun r => ⟨r.2, (ts.getD r.1 {}).from_, (ts.getD r.1 {}).to_⟩) ∧
    (pk.map (·.1) ++ gk.map (·.1)).Nodup ∧
    ∀ k ∈ pk.map (·.1) ++ gk.map (·.1), ∃ t, ts[k]? = some t ∧ t.isWalk = true

section Records
variable {t : Transport} {ts : List Transport} {ps : List (ParkingPatch CarParkingEdge)}
  {gs : List (ParkingPatch GbfsEdge)}

/-- The positions, one transport later. -/
def later {E : Type} (l : List (ℕ × E)) : List (ℕ × E) := l.map fun r => (r.1 + 1, r.2)

theorem map_fst_later {E : Type} (l : List (ℕ × E)) :
    (later l).map (·.1) = (l.map (·.1)).map Nat.succ := by
  simp [later]

theorem later_keys {pk : List (ℕ × CarParkingEdge)} {gk : List (ℕ × GbfsEdge)} :
    (later pk).map (·.1) ++ (later gk).map (·.1) =
      (pk.map (·.1) ++ gk.map (·.1)).map Nat.succ := by
  rw [map_fst_later, map_fst_later, List.map_append]

theorem later_walks {ks : List ℕ} (h : ∀ k ∈ ks, ∃ t, ts[k]? = some t ∧ t.isWalk = true) :
    ∀ k ∈ ks.map Nat.succ, ∃ t', (t :: ts)[k]? = some t' ∧ t'.isWalk = true := by
  intro k hk
  obtain ⟨l, hl, rfl⟩ := List.mem_map.mp hk
  exact h l hl

theorem zero_notMem_succ (ks : List ℕ) : 0 ∉ ks.map Nat.succ := by simp

theorem Records.skip (h : Records ts ps gs) : Records (t :: ts) ps gs := by
  obtain ⟨pk, gk, rfl, rfl, hnd, hwalks⟩ := h
  refine ⟨later pk, later gk, by simp [later], by simp [later], ?_, ?_⟩
  · rw [later_keys]; exact hnd.map Nat.succ_injective
  · rw [later_keys]; exact later_walks hwalks

theorem Records.parking (h : Records ts ps gs) (ht : t.isWalk = true) (c : CarParkingEdge) :
    Records (t :: ts) (⟨c, t.from_, t.to_⟩ :: ps) gs := by
  obtain ⟨pk, gk, rfl, rfl, hnd, hwalks⟩ := h
  refine ⟨(0, c) :: later pk, later gk, by simp [later], by simp [later], ?_, ?_⟩
  · rw [List.map_cons, List.cons_append, later_keys, List.nodup_cons]
    exact ⟨zero_notMem_succ _, hnd.map Nat.succ_injective⟩
  · rw [List.map_cons, List.cons_append, later_keys, List.forall_mem_cons]
    exact ⟨⟨t, rfl, ht⟩, later_walks hwalks⟩

theorem Records.gbfs (h : Records ts ps gs) (ht : t.isWalk = true) (g : GbfsEdge) :
    Records (t :: ts) ps (⟨g, t.from_, t.to_⟩ :: gs) := by
  obtain ⟨pk, gk, rfl, rfl, hnd, hwalks⟩ := h
  have hperm : ((later pk).map (·.1) ++ ((0, g) :: later gk).map (·.1)).Perm
      (0 :: (pk.map (·.1) ++ gk.map (·.1)).map Nat.succ) := by
    rw [← later_keys]
    exact List.perm_middle
  refine ⟨later pk, (0, g) :: later gk, by simp [later], by simp [later], ?_, fun k hk => ?_⟩
  · rw [hperm.nodup_iff, List.nodup_cons]
    exact ⟨zero_notMem_succ _, hnd.map Nat.succ_injective⟩
  · have hall : ∀ k ∈ 0 :: (pk.map (·.1) ++ gk.map (·.1)).map Nat.succ,
        ∃ t', (t :: ts)[k]? = some t' ∧ t'.isWalk = true := by
      rw [List.forall_mem_cons]
      exact ⟨⟨t, rfl, ht⟩, later_walks hwalks⟩
    exact hall k (hperm.mem_iff.mp hk)

end Records

/-- The recording loop keeps the ranges and records patches for different walks. -/
theorem collectPatches_spec (edgeMapping : List MumoEdge) (ts₀ : List Transport)
    {ts : List Transport} {ps : List (ParkingPatch CarParkingEdge)}
    {gs : List (ParkingPatch GbfsEdge)} (h : collectPatches edgeMapping ts₀ = .ok (ts, ps, gs)) :
    ts.map range = ts₀.map range ∧ Records ts ps gs := by
  induction ts₀ generalizing ts ps gs with
  | nil =>
    obtain ⟨rfl, rfl, rfl⟩ : [] = ts ∧ [] = ps ∧ [] = gs := by
      simpa [collectPatches, pure, Except.pure] using h
    exact ⟨rfl, [], [], rfl, rfl, List.nodup_nil, by simp⟩
  | cons t ts₀ ih =>
    rw [collectPatches] at h
    split at h
    · obtain ⟨⟨ts₁, ps₁, gs₁⟩, htail, h⟩ := bind_ok h
      obtain ⟨hr, hrec⟩ := ih htail
      obtain ⟨rfl, rfl, rfl⟩ : t :: ts₁ = ts ∧ ps₁ = ps ∧ gs₁ = gs := by
        simpa [pure, Except.pure] using h
      exact ⟨by rw [List.map_cons, List.map_cons, hr], hrec.skip⟩
    · next hwalk =>
      have hwalk : t.isWalk = true := by
        by_contra hne
        simp [hne] at hwalk
      split at h
      · cases h
      · next e he =>
        obtain ⟨⟨ts₁, ps₁, gs₁⟩, htail, h⟩ := bind_ok h
        obtain ⟨hr, hrec⟩ := ih htail
        set t' : Transport := { t with mumoType := e.kind.type.toString, mumoId := e.id } with ht'
        have hwalk' : t'.isWalk = true := hwalk
        simp only at h
        split at h
        · next c hc =>
          split at h
          · obtain ⟨rfl, rfl, rfl⟩ := by simpa [pure, Except.pure] using h
            exact ⟨by rw [List.map_cons, List.map_cons, hr]; rfl, hrec.skip⟩
          · obtain ⟨rfl, rfl, rfl⟩ := by simpa [pure, Except.pure] using h
            exact ⟨by rw [List.map_cons, List.map_cons, hr]; rfl,
              hrec.parking hwalk' c⟩
        · next g hg =>
          obtain ⟨rfl, rfl, rfl⟩ := by simpa [pure, Except.pure] using h
          exact ⟨by rw [List.map_cons, List.map_cons, hr]; rfl,
            hrec.gbfs hwalk' g⟩
        · obtain ⟨rfl, rfl, rfl⟩ := by simpa [pure, Except.pure] using h
          exact ⟨by rw [List.map_cons, List.map_cons, hr]; rfl, hrec.skip⟩

/-- The patches that `postprocess_response` records for a journey with valid ranges are a recorded
    set of patches of the labelled journey. -/
theorem collectPatches_recorded {edgeMapping : List MumoEdge} {j : Journey} {ts : List Transport}
    {ps : List (ParkingPatch CarParkingEdge)} {gs : List (ParkingPatch GbfsEdge)}
    (hranges : ∀ t ∈ j.transports, t.to_ < j.stops.length)
    (h : collectPatches edgeMapping j.transports = .ok (ts, ps, gs)) :
    ∃ r : Recorded { j with transports := ts },
      ps = r.parking.map (patchOf { j with transports := ts }) ∧
      gs = r.gbfs.map (patchOf { j with transports := ts }) := by
  obtain ⟨hr, pk, gk, hps, hgs, hnd, hwalks⟩ := collectPatches_spec edgeMapping _ h
  refine ⟨⟨pk, gk, hnd, fun k hk => ?_⟩, hps, hgs⟩
  obtain ⟨t, ht, hwalk⟩ := hwalks k hk
  have hlt := (List.getElem?_eq_some_iff.mp ht).1
  have hw : walk { j with transports := ts } k = t := by simp [walk, ht]
  refine ⟨hlt, by rw [hw]; exact hwalk, ?_⟩
  obtain ⟨t₀, ht₀, hrange⟩ := List.mem_map.mp (hr ▸ List.mem_map_of_mem (f := range)
    (List.mem_of_getElem? ht) : range t ∈ j.transports.map range)
  have hto : t₀.to_ = t.to_ := congrArg Prod.snd hrange
  rw [hw, ← hto]
  exact hranges t₀ ht₀

end Motis.Intermodal
