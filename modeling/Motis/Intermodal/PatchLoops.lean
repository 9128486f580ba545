import Motis.Intermodal.PatchRuns
import Motis.Lib.Fallible

/-! The loops over the patches.

    The loops take the patches one by one. A patch whose range is the current range of its walk, and
    whose walk is the first with that range, divides its walk (`Before.fine`); every other patch
    divides a different transport or throws (`Before.not_fine`). Both loops are one loop with two
    bodies, and `Body` says what it asks of them. -/

namespace Motis.Intermodal
open Insertion Journey Fallible
open Ranged (range setRange)

section Steps
variable {E : Type} {j₀ j j' : Journey} {S : Set ℕ} {labels : List ℕ} {ρ : ℕ → ℕ} {k x a : ℕ}

/-! ### The parts of a loop body -/

theorem range_getD {r : ℕ × ℕ} (hx : (ranges j)[x]? = some r) :
    range (j.transports.getD x {}) = r := by
  simp only [ranges, List.getElem?_map, Option.map_eq_some_iff] at hx
  obtain ⟨t, ht, hr⟩ := hx
  simp [ht, hr]

/-- The first transport with the range is divided. -/
theorem splitTransport_eq (hx : (ranges j)[x]? = some (a, a + 1))
    (hfirst : ∀ z < x, (ranges j)[z]? ≠ some (a, a + 1)) (patches : List (ParkingPatch E))
    {t : Transport} (ht : range t = (a, a + 1)) :
    splitTransport j patches t =
      .ok ⟨insertStop j x (a + 1), updateIndices (a + 1) patches, a + 1, x, x + 1⟩ := by
  have hfrom : t.from_ = a := congrArg Prod.fst ht
  have hto : t.to_ = a + 1 := congrArg Prod.snd ht
  have hidx := (List.findIdx?_eq_some_iff_findIdx_eq.mp
    (findTransport_some.mpr ⟨hx, hfirst⟩)).2
  rw [splitTransport, ht, hto, hfrom, hidx, if_neg (by simp)]
  rfl

/-- Splitting the transport that was found by its range. -/
theorem splitTransport_ok (hx : (ranges j)[x]? = some (a, a + 1))
    (hfirst : ∀ z < x, (ranges j)[z]? ≠ some (a, a + 1)) (patches : List (ParkingPatch E)) :
    splitTransport j patches (j.transports.getD x {}) =
      .ok ⟨insertStop j x (a + 1), updateIndices (a + 1) patches, a + 1, x, x + 1⟩ :=
  splitTransport_eq hx hfirst patches (range_getD hx)

theorem splitTransport_inv {patches : List (ParkingPatch E)} {r : SplitTransportResult E}
    {t : Transport} (h : splitTransport j patches t = .ok r) :
    t.to_ = t.from_ + 1 ∧ r.firstTransport = j.transports.findIdx (range · == range t) := by
  rw [splitTransport] at h
  rcases eq_or_ne t.to_ (t.from_ + 1) with hto | hto
  · rw [if_neg (by simpa using hto)] at h
    exact ⟨hto, by rw [← Except.ok.inj h]⟩
  · rw [if_pos hto] at h
    cases h

theorem getTransport_some (hx : (ranges j)[x]? = some (a, a + 1)) :
    ∃ t, getTransport j a (a + 1) = .ok t := by
  rw [getTransport]
  cases hfind : j.transports.findIdx? (range · == (a, a + 1)) with
  | some t => exact ⟨t, rfl⟩
  | none =>
    rw [List.findIdx?_eq_none_iff] at hfind
    simp only [ranges, List.getElem?_map, Option.map_eq_some_iff] at hx
    obtain ⟨t, ht, hr⟩ := hx
    simpa [hr] using hfind t (List.mem_of_getElem? ht)

/-- Only the ranges and the old stops matter. -/
theorem Tracked.congr (h : Tracked j₀ S ρ labels j) (hr : ranges j' = ranges j)
    (hstops : ∀ i : ℕ, j'.stops[ρ i]? = j.stops[ρ i]?) (htrips : j'.trips = j.trips)
    (hattributes : j'.attributes = j.attributes) (hfreeTexts : j'.freeTexts = j.freeTexts)
    (hproblems : j'.problems = j.problems) : Tracked j₀ S ρ labels j' where
  mono := h.mono
  stops := fun i s hs => (hstops i).trans (h.stops i s hs)
  trips := htrips.trans h.trips
  attributes := hattributes.trans h.attributes
  freeTexts := hfreeTexts.trans h.freeTexts
  problems := hproblems.trans h.problems
  length := by
    have hlen := congrArg List.length hr
    simp only [ranges, List.length_map] at hlen
    rw [h.length, hlen]
  whole := fun x k hx hk => by rw [hr]; exact h.whole x k hx hk
  parts := fun x k hx hk => by rw [hr]; exact h.parts x k hx hk
  order := h.order
  present := h.present
  fresh := fun x k a b hx hk hab => h.fresh x k a b hx hk (by rwa [hr] at hab)
  apart := fun x y k l r hx hy hk hl hxr hyr =>
    h.apart x y k l r hx hy hk hl (by rwa [hr] at hxr) (by rwa [hr] at hyr)
  wide := h.wide
  zero := h.zero
  steps := h.steps
  dividable := h.dividable

theorem ranges_setMumoType (j : Journey) (t : ℕ) (type : String) :
    ranges (setMumoType j t type) = ranges j := by
  apply List.ext_getElem?
  intro y
  simp only [ranges, setMumoType, List.getElem?_map, List.getElem?_modify]
  rcases eq_or_ne t y with hy | hy
  · simp only [hy, if_true, Option.map_eq_map, Option.map_map]
    rfl
  · simp only [hy, if_false, Option.map_eq_map, Option.map_map]
    rfl

theorem Tracked.setMumoType (h : Tracked j₀ S ρ labels j) (t : ℕ) (type : String) :
    Tracked j₀ S ρ labels (setMumoType j t type) :=
  h.congr (ranges_setMumoType j t type) (fun _ => rfl) rfl rfl rfl rfl

/-- Filling in a new stop leaves the old ones alone. -/
theorem Tracked.setStop (h : Tracked j₀ S ρ labels j) {i : ℕ} (hi : i < j.stops.length)
    (hnew : ∀ u, ρ u ≠ i) (f : Stop → Stop) :
    ∃ j', setStop j i f = .ok j' ∧ Tracked j₀ S ρ labels j' ∧ ranges j' = ranges j ∧
      j'.stops.length = j.stops.length := by
  refine ⟨{ j with stops := j.stops.modify i f }, ?_, h.congr rfl (fun u => ?_) rfl rfl rfl rfl,
    rfl, by simp⟩
  · rw [Intermodal.setStop, if_pos hi]; rfl
  · simp [Ne.symm (hnew u)]

theorem length_stops_insertStop {n : ℕ} (hn : n ≤ j.stops.length) :
    (insertStop j x n).stops.length = j.stops.length + 1 := by
  simp [insertStop, List.length_insertIdx_of_le_length hn]

/-- The walk of a patch with the right numbers is found, and it can be divided. -/
theorem Tracked.find_dividable (h : Tracked j₀ S ρ labels j) (hk : k < j₀.transports.length)
    (hS : k ∉ S) (hdiv : Dividable j₀ k) :
    ∃ x, getTransport j (ρ (walk j₀ k).from_) (ρ (walk j₀ k).to_) = .ok x ∧
      labels[x]? = some k ∧
      (ranges j)[x]? = some (ρ (walk j₀ k).from_, ρ (walk j₀ k).from_ + 1) ∧
      ∀ z < x, (ranges j)[z]? ≠ some (ρ (walk j₀ k).from_, ρ (walk j₀ k).from_ + 1) := by
  obtain ⟨x, k', hfind, hx, -, hrange, hmin⟩ := h.find hk hS
  have hk' : k' = k := by
    have hle := hmin k hk hS rfl
    by_contra hne
    exact hdiv.2 k' (by omega) hrange
  subst hk'
  obtain ⟨hr, hfirst⟩ := findTransport_some.mp hfind
  have hone := h.one_section hdiv hS
  have hmap : (range (walk j₀ k')).map ρ ρ = (ρ (walk j₀ k').from_, ρ (walk j₀ k').from_ + 1) := by
    rw [← hone]; rfl
  refine ⟨x, ?_, hx, hmap ▸ hr, hmap ▸ hfirst⟩
  rw [getTransport]
  have hfind' : j.transports.findIdx? (range · == (ρ (walk j₀ k').from_, ρ (walk j₀ k').to_)) =
      some x := hfind
  rw [hfind']
  rfl

/-- A patch with other numbers than its walk, or of a walk that cannot be divided, never divides
    its walk. -/
theorem Tracked.find_other (h : Tracked j₀ S ρ labels j) (hk : k < j₀.transports.length)
    (hS : k ∉ S) {b c : ℕ} (hbad : (b, c) ≠ (range (walk j₀ k)).map ρ ρ ∨ ¬ Dividable j₀ k)
    (hget : getTransport j b c = .ok x) {patches : List (ParkingPatch E)}
    {r : SplitTransportResult E}
    (hsplit : splitTransport j patches (j.transports.getD x {}) = .ok r) :
    labels[r.firstTransport]? ≠ some k := by
  have hfind : j.transports.findIdx? (range · == (b, c)) = some x := by
    rw [getTransport] at hget
    split at hget
    · next i hi => rw [hi, Except.ok.inj hget]
    · cases hget
  obtain ⟨hr, hfirst⟩ := findTransport_some.mp hfind
  have hgetD := range_getD hr
  obtain ⟨hone, hidx⟩ := splitTransport_inv hsplit
  rw [hgetD, (List.findIdx?_eq_some_iff_findIdx_eq.mp hfind).2] at hidx
  have hc : c = b + 1 := by
    have hb : (j.transports.getD x {}).from_ = b := congrArg Prod.fst hgetD
    have hc : (j.transports.getD x {}).to_ = c := congrArg Prod.snd hgetD
    rwa [hb, hc] at hone
  rw [hidx]
  intro hx
  have hwhole := Option.some.inj (hr.symm.trans (h.whole x k hx hS))
  rcases hbad with hne | hdiv
  · exact hne hwhole
  · -- the walk is whole and has its own numbers, so it is not the first or not one section long
    have hb : b = ρ (walk j₀ k).from_ := congrArg Prod.fst hwhole
    have hc' : c = ρ (walk j₀ k).to_ := congrArg Prod.snd hwhole
    rw [Dividable, not_and_or] at hdiv
    rcases hdiv with hlen | hfirst'
    · have hlt : (walk j₀ k).from_ < (walk j₀ k).to_ := h.mono.lt_iff_lt.mp (by omega)
      have hadd := StrictMono.add_le_nat h.mono ((walk j₀ k).to_ - (walk j₀ k).from_)
        (walk j₀ k).from_
      rw [Nat.sub_add_cancel hlt.le] at hadd
      omega
    · simp only [not_forall, not_not] at hfirst'
      obtain ⟨i, hik, hrange⟩ := hfirst'
      by_cases hiS : i ∈ S
      · have hwide := h.wide i hiS
        have hfrom : (walk j₀ i).from_ = (walk j₀ k).from_ := congrArg Prod.fst hrange
        have hto : (walk j₀ i).to_ = (walk j₀ k).to_ := congrArg Prod.snd hrange
        rw [hfrom, hto] at hwide
        omega
      · obtain ⟨x', k', hfind', hx', -, -, hmin⟩ := h.find hk hS
        rw [← hwhole, hfind] at hfind'
        obtain rfl := Option.some.inj hfind'
        have hkk' : k = k' := Option.some.inj (hx.symm.trans hx')
        have := hmin i (by omega) hiS hrange
        omega

/-! ### The loop bodies -/

/-- The patch of walk `k` has divided its walk, `c` times. -/
structure Done (j₀ : Journey) (S : Set ℕ) (ρ : ℕ → ℕ) (labels : List ℕ) (k c : ℕ)
    (s s' : PatchRun E) (xs : List ℕ) (σ : ℕ → ℕ) : Prop where
  splits : s'.splits = s.splits ++ xs
  hits : hits labels xs = List.replicate c (some k)
  patches : s'.patches = s.patches.map (renumber σ)
  mono : StrictMono σ
  tracked : Tracked j₀ (insert k S) (σ ∘ ρ) (relabel labels xs) s'.journey

/-- What every run of a loop body has done, on its own walk or on another transport. -/
def Divided (p : ParkingPatch E) (s s' : PatchRun E) : Prop :=
  ∃ x r xs, getTransport s.journey p.from_ p.to_ = .ok x ∧
    splitTransport s.journey s.patches (s.journey.transports.getD x {}) = .ok r ∧
    s'.splits = s.splits ++ r.firstTransport :: xs

theorem applyParkingPatch_inv {i : ℕ} {p : ParkingPatch CarParkingEdge}
    {s s' : PatchRun CarParkingEdge} (h : applyParkingPatch i p s = .ok s') :
    i < 4 ∧ Divided p s s' := by
  obtain ⟨x, hx, h⟩ := bind_ok h
  obtain ⟨r, hr, h⟩ := bind_ok h
  obtain ⟨st, hst, h⟩ := bind_ok h
  obtain ⟨j, -, h⟩ := bind_ok h
  have hi : i < 4 := by
    by_contra hi
    obtain ⟨i, rfl⟩ := Nat.exists_eq_add_of_le (Nat.not_lt.mp hi)
    rw [Nat.add_comm] at hst
    cases hst
  exact ⟨hi, x, r, [], hx, hr, by rw [← Except.ok.inj h]⟩

theorem applyGbfsPatch_inv {p : ParkingPatch GbfsEdge} {s s' : PatchRun GbfsEdge}
    (h : applyGbfsPatch p s = .ok s') : Divided p s s' := by
  obtain ⟨x, hx, h⟩ := bind_ok h
  obtain ⟨r, hr, h⟩ := bind_ok h
  refine ⟨x, r, ?_⟩
  split at h
  · obtain ⟨r₂, -, h⟩ := bind_ok h
    obtain ⟨j₁, -, h⟩ := bind_ok h
    obtain ⟨j₂, -, h⟩ := bind_ok h
    obtain ⟨t₁, -, h⟩ := bind_ok h
    obtain ⟨t₂, -, h⟩ := bind_ok h
    obtain ⟨t₃, -, h⟩ := bind_ok h
    exact ⟨[r₂.firstTransport], hx, hr, by rw [← Except.ok.inj h]⟩
  · obtain ⟨j₁, -, h⟩ := bind_ok h
    exact ⟨[], hx, hr, by rw [← Except.ok.inj h]⟩

theorem applyParkingPatch_ok {s : PatchRun CarParkingEdge} {p : ParkingPatch CarParkingEdge}
    (h : Tracked j₀ S ρ labels s.journey) (hk : k < j₀.transports.length) (hS : k ∉ S)
    (hdiv : Dividable j₀ k) (hstop : (walk j₀ k).to_ < j₀.stops.length) {i : ℕ} (hi : i < 4)
    (hp : range p = (range (walk j₀ k)).map ρ ρ) :
    ∃ s' xs σ, applyParkingPatch i p s = .ok s' ∧ Done j₀ S ρ labels k 1 s s' xs σ := by
  have hfrom : p.from_ = ρ (walk j₀ k).from_ := congrArg Prod.fst hp
  have hto : p.to_ = ρ (walk j₀ k).to_ := congrArg Prod.snd hp
  obtain ⟨x, hget, hx, hr, hfirst⟩ := h.find_dividable hk hS hdiv
  set a := ρ (walk j₀ k).from_ with ha
  have hst : ∃ st, getParkingStation i = .ok st := by
    match i, hi with
    | 0, _ | 1, _ | 2, _ | 3, _ => exact ⟨_, rfl⟩
  obtain ⟨st, hst⟩ := hst
  have hlen : a + 1 < s.journey.stops.length := by
    rw [← h.one_section hdiv hS]
    obtain ⟨e, he⟩ : ∃ e, j₀.stops[(walk j₀ k).to_]? = some e := ⟨_, List.getElem?_eq_getElem hstop⟩
    exact (List.getElem?_eq_some_iff.mp (h.stops _ e he)).1
  have htracked := h.split hr hx hdiv
  have hslen : a + 1 < (insertStop s.journey x (a + 1)).stops.length := by
    rw [length_stops_insertStop (by omega)]; omega
  have hsplit := splitTransport_ok hr hfirst s.patches
  rw [applyParkingPatch, hfrom, hto, hget]
  simp only [bind, Except.bind]
  rw [hsplit]
  simp only
  rw [hst]
  simp only
  obtain ⟨j', hset, htracked', -, -⟩ := htracked.setStop hslen (fun u => shift_ne _ _) _
  rw [hset]
  exact ⟨_, [x], shift (a + 1), rfl, rfl, by rw [hits, hx]; rfl, rfl, shift_strictMono _,
    (htracked'.setMumoType _ _).setMumoType _ _⟩

/-- The number of times a GBFS patch divides its walk. -/
def cuts (e : GbfsEdge) : ℕ :=
  match e.bike with
  | .stationBike _ => 2
  | .freeBike _ => 1

theorem applyGbfsPatch_ok {s : PatchRun GbfsEdge} {p : ParkingPatch GbfsEdge}
    (h : Tracked j₀ S ρ labels s.journey) (hk : k < j₀.transports.length) (hS : k ∉ S)
    (hdiv : Dividable j₀ k) (hstop : (walk j₀ k).to_ < j₀.stops.length)
    (hp : range p = (range (walk j₀ k)).map ρ ρ) :
    ∃ s' xs σ, applyGbfsPatch p s = .ok s' ∧ Done j₀ S ρ labels k (cuts p.e) s s' xs σ := by
  have hfrom : p.from_ = ρ (walk j₀ k).from_ := congrArg Prod.fst hp
  have hto : p.to_ = ρ (walk j₀ k).to_ := congrArg Prod.snd hp
  obtain ⟨x, hget, hx, hr, hfirst⟩ := h.find_dividable hk hS hdiv
  set a := ρ (walk j₀ k).from_ with ha
  have hlen : a + 1 < s.journey.stops.length := by
    rw [← h.one_section hdiv hS]
    obtain ⟨e, he⟩ : ∃ e, j₀.stops[(walk j₀ k).to_]? = some e := ⟨_, List.getElem?_eq_getElem hstop⟩
    exact (List.getElem?_eq_some_iff.mp (h.stops _ e he)).1
  have htracked := h.split hr hx hdiv
  set j₁ := insertStop s.journey x (a + 1) with hj₁
  have hslen : j₁.stops.length = s.journey.stops.length + 1 := length_stops_insertStop (by omega)
  have hsplit := splitTransport_ok hr hfirst s.patches
  rw [applyGbfsPatch, hfrom, hto, hget]
  simp only [bind, Except.bind]
  rw [hsplit]
  simp only
  cases hbike : p.e.bike with
  | freeBike b =>
    obtain ⟨j', hset, htracked', -, -⟩ := htracked.setStop (i := a + 1) (by omega)
      (fun u => shift_ne _ _) (bikeStop b.id b.id b.pos (j₁.stops.getD a {}) b.walkDuration)
    simp only
    rw [hset]
    refine ⟨_, [x], shift (a + 1), rfl, rfl, ?_, rfl, shift_strictMono _,
      (htracked'.setMumoType _ _).setMumoType _ _⟩
    rw [hits, hx, cuts, hbike]
    rfl
  | stationBike b =>
    -- the second split divides the second part
    have hx₁ : (dup labels x)[x + 1]? = some k := by
      rw [getElem?_dup (List.getElem?_eq_some_iff.mp hx).1, if_neg (by omega),
        Nat.add_sub_cancel, hx]
    have hr₁ : (ranges j₁)[x + 1]? = some (a + 1, a + 1 + 1) := by
      rw [hj₁, ranges_insertStop hr, if_neg (by omega), if_neg (by omega), if_pos rfl]
    have hfirst₁ : ∀ z < x + 1, (ranges j₁)[z]? ≠ some (a + 1, a + 1 + 1) := by
      intro z hz heq
      rw [hj₁, ranges_insertStop hr] at heq
      rcases Nat.lt_or_ge z x with hzx | hzx
      · rw [if_pos hzx, Option.map_eq_some_iff] at heq
        obtain ⟨r, -, hmap⟩ := heq
        exact shift_ne (a + 1) r.1 (congrArg Prod.fst hmap)
      · rw [if_neg (by omega), if_pos (by omega)] at heq
        simp at heq
    have htracked₂ := htracked.split hr₁ hx₁ hdiv
    rw [Set.insert_eq_of_mem (Set.mem_insert k S)] at htracked₂
    set j₂ := insertStop j₁ (x + 1) (a + 1 + 1) with hj₂
    have hslen₂ : j₂.stops.length = j₁.stops.length + 1 := length_stops_insertStop (by omega)
    have hsplit₂ := splitTransport_ok hr₁ hfirst₁ (updateIndices (a + 1) s.patches)
    have hnew : ∀ u, (shift (a + 1 + 1) ∘ shift (a + 1) ∘ ρ) u ≠ a + 1 := by
      intro u hu
      have hne := shift_ne (a + 1) (ρ u)
      simp only [Function.comp_apply] at hu
      unfold shift at hu hne
      split at hu <;> split at hu <;> omega
    obtain ⟨j₃, hset₃, htracked₃, hranges₃, hlen₃⟩ := htracked₂.setStop (i := a + 1) (by omega)
      hnew (bikeStop b.fromStationId b.fromStationName b.fromStationPos (j₂.stops.getD a {})
        b.firstWalkDuration)
    obtain ⟨j₄, hset₄, htracked₄, hranges₄, -⟩ := htracked₃.setStop (i := a + 2) (by omega)
      (fun u => shift_ne _ _) (bikeStop b.toStationId b.toStationName b.toStationPos
        (j₃.stops.getD (a + 1) {}) b.bikeDuration)
    have hr₄ : ranges j₄ = ranges j₂ := hranges₄.trans hranges₃
    -- the three parts are there
    have hparts : (ranges j₂)[x]? = some (a, a + 1) ∧
        (ranges j₂)[x + 1]? = some (a + 1, a + 1 + 1) ∧
        (ranges j₂)[x + 2]? = some (a + 2, a + 2 + 1) := by
      refine ⟨?_, ?_, ?_⟩
      · rw [hj₂, ranges_insertStop hr₁, if_pos (by omega), hj₁, ranges_insertStop hr,
          if_neg (by omega), if_pos rfl]
        simp [shift_of_lt (show a < a + 1 + 1 by omega),
          shift_of_lt (show a + 1 < a + 1 + 1 by omega)]
      · rw [hj₂, ranges_insertStop hr₁, if_neg (by omega), if_pos rfl]
      · rw [hj₂, ranges_insertStop hr₁, if_neg (by omega), if_neg (by omega), if_pos rfl]
    obtain ⟨t₁, ht₁⟩ := getTransport_some (hr₄ ▸ hparts.1)
    have hr₅ := (ranges_setMumoType j₄ t₁ MumoType.foot.toString).trans hr₄
    obtain ⟨t₂, ht₂⟩ := getTransport_some (hr₅ ▸ hparts.2.1)
    have hr₆ := (ranges_setMumoType _ t₂ p.e.vehicleType).trans hr₅
    obtain ⟨t₃, ht₃⟩ := getTransport_some (hr₆ ▸ hparts.2.2)
    simp only
    rw [hsplit₂]
    simp only
    rw [hset₃]
    simp only
    rw [hset₄]
    simp only
    rw [ht₁]
    simp only
    rw [ht₂]
    simp only
    rw [ht₃]
    refine ⟨_, [x, x + 1], shift (a + 1 + 1) ∘ shift (a + 1), rfl, rfl, ?_, ?_,
      (shift_strictMono _).comp (shift_strictMono _),
      ((htracked₄.setMumoType _ _).setMumoType _ _).setMumoType _ _⟩
    · rw [hits, hits, hits, hx, hx₁, cuts, hbike]
      rfl
    · simp only [updateIndices, List.map_map]
      exact List.map_congr_left fun q _ => renumber_renumber _ _ q

end Steps

/-! ### The loops -/

/-- The lists disagree at some position that both have. -/
def Differ {α : Type} (l l' : List α) : Prop :=
  ∃ i : ℕ, ∃ a b, l[i]? = some a ∧ l'[i]? = some b ∧ a ≠ b

theorem Differ.append_left {α : Type} {l l' : List α} (h : Differ l l') (p : List α) :
    Differ (p ++ l) (p ++ l') := by
  obtain ⟨i, a, b, ha, hb, hne⟩ := h
  refine ⟨p.length + i, a, b, ?_, ?_, hne⟩
  · rw [List.getElem?_append_right (by omega), Nat.add_sub_cancel_left, ha]
  · rw [List.getElem?_append_right (by omega), Nat.add_sub_cancel_left, hb]

theorem Differ.append_ne {α : Type} {l l' : List α} (h : Differ l l') (t t' : List α) :
    l ++ t ≠ l' ++ t' := by
  obtain ⟨i, a, b, ha, hb, hne⟩ := h
  intro heq
  have hi := congrArg (fun l => l[i]?) heq
  simp only [List.getElem?_append_left (List.getElem?_eq_some_iff.mp ha).1,
    List.getElem?_append_left (List.getElem?_eq_some_iff.mp hb).1, ha, hb, Option.some.injEq] at hi
  exact hne hi

theorem hits_append (xs ys labels : List ℕ) :
    hits labels (xs ++ ys) = hits labels xs ++ hits (relabel labels xs) ys := by
  induction xs generalizing labels with
  | nil => rfl
  | cons x xs ih =>
    rw [List.cons_append, hits, ih, hits, List.cons_append]
    rfl

section Loop
variable {E : Type} {j₀ : Journey}
  {body : ℕ → ParkingPatch E → PatchRun E → Except Error (PatchRun E)} {cuts : E → ℕ}
  {room : ℕ → Prop}

/-- The labels a list of patches should divide. -/
def expected (cuts : E → ℕ) (rs : List (ℕ × E)) : List (Option ℕ) :=
  rs.flatMap fun r => List.replicate (cuts r.2) (some r.1)

/-- One iteration of `forPatches`. -/
def iteration (body : ℕ → ParkingPatch E → PatchRun E → Except Error (PatchRun E))
    (s : PatchRun E) (i : ℕ) : Except Error (PatchRun E) :=
  match s.patches[i]? with
  | some p => body i p s
  | none => pure s

/-- The loop before the patches `rs`, the first of them at `i`: the walks `S` are divided, the stops
    of the journey have the numbers `ψ ∘ Φ`, the patches have been renumbered by `ψ`. -/
structure Before (j₀ : Journey) (S : Set ℕ) (Φ ψ : ℕ → ℕ) (labels : List ℕ)
    (ps rs : List (ℕ × E)) (i : ℕ) (s : PatchRun E) : Prop where
  tracked : Tracked j₀ S (ψ ∘ Φ) labels s.journey
  mono : StrictMono ψ
  patches : s.patches = ps.map fun r => renumber ψ (patchOf j₀ r)
  drop : ps.drop i = rs
  todo : ∀ r ∈ rs, r.1 ∉ S ∧ r.1 < j₀.transports.length ∧ (walk j₀ r.1).to_ < j₀.stops.length
  nodup : (rs.map (·.1)).Nodup

/-- The patch at position `i` divides its walk. -/
def Fine (j₀ : Journey) (Φ : ℕ → ℕ) (room : ℕ → Prop) (r : ℕ × E) (i : ℕ) : Prop :=
  Dividable j₀ r.1 ∧ (range (walk j₀ r.1)).map Φ Φ = range (walk j₀ r.1) ∧ room i

variable {S : Set ℕ} {Φ ψ : ℕ → ℕ} {labels : List ℕ} {ps rs : List (ℕ × E)} {r : ℕ × E} {i : ℕ}
  {s s' : PatchRun E}

theorem Before.iteration_eq (h : Before j₀ S Φ ψ labels ps (r :: rs) i s) :
    iteration body s i = body i (renumber ψ (patchOf j₀ r)) s := by
  have hr : ps[i]? = some r := by
    have hdrop := congrArg (fun l => l[0]?) h.drop
    simpa using hdrop
  rw [iteration, h.patches, List.getElem?_map, hr]
  rfl

theorem Before.next (h : Before j₀ S Φ ψ labels ps (r :: rs) i s) {c : ℕ} {xs : List ℕ}
    {σ : ℕ → ℕ} (hd : Done j₀ S (ψ ∘ Φ) labels r.1 c s s' xs σ) :
    Before j₀ (insert r.1 S) Φ (σ ∘ ψ) (relabel labels xs) ps rs (i + 1) s' := by
  refine ⟨hd.tracked, hd.mono.comp h.mono, ?_, ?_, fun q hq => ?_, ?_⟩
  · rw [hd.patches, h.patches, List.map_map]
    exact List.map_congr_left fun q _ => renumber_renumber ψ σ _
  · rw [← List.drop_drop, h.drop]
    rfl
  · obtain ⟨hS, hlt, hstop⟩ := h.todo q (List.mem_cons_of_mem _ hq)
    refine ⟨fun hmem => ?_, hlt, hstop⟩
    rcases Set.mem_insert_iff.mp hmem with heq | hmem
    · have hnd := (List.nodup_cons.mp h.nodup).1
      exact hnd (List.mem_map.mpr ⟨q, hq, heq⟩)
    · exact hS hmem
  · exact (List.nodup_cons.mp h.nodup).2

/-- What the loop asks of its body. -/
structure Body (j₀ : Journey) (body : ℕ → ParkingPatch E → PatchRun E → Except Error (PatchRun E))
    (cuts : E → ℕ) (room : ℕ → Prop) : Prop where
  cuts_pos : ∀ e, 0 < cuts e
  ok : ∀ {S : Set ℕ} {ρ : ℕ → ℕ} {labels : List ℕ} {k i : ℕ} {p : ParkingPatch E} {s : PatchRun E},
    Tracked j₀ S ρ labels s.journey → k < j₀.transports.length → k ∉ S → Dividable j₀ k →
    (walk j₀ k).to_ < j₀.stops.length → room i → range p = (range (walk j₀ k)).map ρ ρ →
    ∃ s' xs σ, body i p s = .ok s' ∧ Done j₀ S ρ labels k (cuts p.e) s s' xs σ
  inv : ∀ {i : ℕ} {p : ParkingPatch E} {s s' : PatchRun E}, body i p s = .ok s' →
    room i ∧ Divided p s s'

/-- A patch that fits divides its walk. -/
theorem Before.fine (hbody : Body j₀ body cuts room)
    (h : Before j₀ S Φ ψ labels ps (r :: rs) i s) (hf : Fine j₀ Φ room r i) :
    ∃ s' xs σ, iteration body s i = .ok s' ∧
      Done j₀ S (ψ ∘ Φ) labels r.1 (cuts r.2) s s' xs σ := by
  obtain ⟨hS, hlt, hstop⟩ := h.todo r (List.mem_cons_self ..)
  obtain ⟨hdiv, hfix, hroom⟩ := hf
  rw [h.iteration_eq]
  refine hbody.ok h.tracked hlt hS hdiv hstop hroom ?_
  have hcomp : ((range (walk j₀ r.1)).map Φ Φ).map ψ ψ =
    (range (walk j₀ r.1)).map (ψ ∘ Φ) (ψ ∘ Φ) := rfl
  rw [range_renumber, ← hcomp, hfix]
  rfl

/-- A patch that does not fit divides another transport, if the iteration succeeds at all. -/
theorem Before.not_fine (hbody : Body j₀ body cuts room)
    (h : Before j₀ S Φ ψ labels ps (r :: rs) i s) (hf : ¬ Fine j₀ Φ room r i)
    (hok : iteration body s i = .ok s') :
    ∃ x xs, s'.splits = s.splits ++ x :: xs ∧ labels[x]? ≠ some r.1 := by
  obtain ⟨hS, hlt, -⟩ := h.todo r (List.mem_cons_self ..)
  rw [h.iteration_eq] at hok
  obtain ⟨hroom, x, q, xs, hget, hsplit, hsplits⟩ := hbody.inv hok
  refine ⟨q.firstTransport, xs, hsplits, h.tracked.find_other hlt hS ?_ hget hsplit⟩
  by_cases hdiv : Dividable j₀ r.1
  · refine Or.inl fun heq => hf ⟨hdiv, ?_, hroom⟩
    have hinj := Function.Injective.prodMap h.mono.injective h.mono.injective
    have heq : (range (walk j₀ r.1)).map ψ ψ = ((range (walk j₀ r.1)).map Φ Φ).map ψ ψ := heq
    exact (hinj heq).symm
  · exact Or.inr hdiv

theorem loop_splits (hbody : Body j₀ body cuts room) (is : List ℕ)
    (h : is.foldlM (iteration body) s = .ok s') : ∃ xs, s'.splits = s.splits ++ xs := by
  refine foldlM_inv (fun s' => ∃ xs, s'.splits = s.splits ++ xs) ?_ ⟨[], by simp⟩ h
  rintro i - s₁ s₂ ⟨xs, hxs⟩ hstep
  rw [iteration] at hstep
  split at hstep
  · obtain ⟨-, x, q, ys, -, -, hys⟩ := hbody.inv hstep
    exact ⟨xs ++ q.firstTransport :: ys, by rw [hys, hxs, List.append_assoc]⟩
  · rw [← Except.ok.inj hstep]
    exact ⟨xs, hxs⟩

/-- When every patch fits, the loop divides exactly the walks of its patches. -/
theorem loop_ok (hbody : Body j₀ body cuts room) (h : Before j₀ S Φ ψ labels ps rs i s)
    (hfine : ∀ t q, rs[t]? = some q → Fine j₀ Φ room q (i + t)) :
    ∃ s' xs ψ', (List.range' i rs.length).foldlM (iteration body) s = .ok s' ∧
      s'.splits = s.splits ++ xs ∧ hits labels xs = expected cuts rs ∧
      Tracked j₀ (S ∪ {k | k ∈ rs.map (·.1)}) (ψ' ∘ Φ) (relabel labels xs) s'.journey := by
  induction rs generalizing i s S ψ labels with
  | nil =>
    refine ⟨s, [], ψ, rfl, by simp, rfl, ?_⟩
    simpa [relabel] using h.tracked
  | cons r rs ih =>
    obtain ⟨s₁, xs, σ, hok, hd⟩ := h.fine hbody (by simpa using hfine 0 r rfl)
    have hrest : ∀ t q, rs[t]? = some q → Fine j₀ Φ room q (i + 1 + t) := by
      intro t q hq
      rw [Nat.add_assoc, Nat.add_comm 1 t]
      exact hfine (t + 1) q hq
    obtain ⟨s', ys, ψ', hloop, hsplits, hhits, htracked⟩ := ih (h.next hd) hrest
    refine ⟨s', xs ++ ys, ψ', ?_, ?_, ?_, ?_⟩
    · rw [List.length_cons, List.range'_succ, List.foldlM_cons, hok]
      exact hloop
    · rw [hsplits, hd.splits, List.append_assoc]
    · rw [hits_append, hd.hits, hhits]
      rfl
    · have hset : insert r.1 S ∪ {k | k ∈ rs.map (·.1)} = S ∪ {k | k ∈ (r :: rs).map (·.1)} := by
        ext k
        simp only [Set.mem_union, Set.mem_insert_iff, Set.mem_ofPred_eq, List.map_cons,
          List.mem_cons]
        tauto
      rw [← hset, relabel, List.foldl_append]
      exact htracked

/-- When some patch does not fit, a loop that succeeds has divided another transport for it. -/
theorem loop_differ (hbody : Body j₀ body cuts room) (h : Before j₀ S Φ ψ labels ps rs i s)
    (hunfit : ∃ t q, rs[t]? = some q ∧ ¬ Fine j₀ Φ room q (i + t))
    (hrun : (List.range' i rs.length).foldlM (iteration body) s = .ok s') :
    ∃ xs, s'.splits = s.splits ++ xs ∧ Differ (hits labels xs) (expected cuts rs) := by
  induction rs generalizing i s S ψ labels with
  | nil =>
    obtain ⟨t, q, hq, -⟩ := hunfit
    simp at hq
  | cons r rs ih =>
    obtain ⟨t, q, hq, hnot⟩ := hunfit
    rw [List.length_cons, List.range'_succ] at hrun
    obtain ⟨s₁, hstep, hloop⟩ := foldlM_cons_ok hrun
    by_cases hf : Fine j₀ Φ room r i
    · obtain ⟨s₂, xs, σ, hok, hd⟩ := h.fine hbody hf
      obtain rfl : s₁ = s₂ := Except.ok.inj (hstep.symm.trans hok)
      obtain ⟨t, rfl⟩ : ∃ t', t = t' + 1 := by
        cases t with
        | zero =>
          rw [List.getElem?_cons_zero, Option.some.injEq] at hq
          rw [← hq] at hnot
          exact absurd hf hnot
        | succ t => exact ⟨t, rfl⟩
      rw [← Nat.add_assoc, Nat.add_right_comm] at hnot
      obtain ⟨ys, hys, hdiffer⟩ := ih (h.next hd) ⟨t, q, hq, hnot⟩ hloop
      refine ⟨xs ++ ys, by rw [hys, hd.splits, List.append_assoc], ?_⟩
      rw [hits_append, hd.hits]
      exact hdiffer.append_left _
    · obtain ⟨x, xs, hxs, hx⟩ := h.not_fine hbody hf hstep
      obtain ⟨ys, hys⟩ := loop_splits hbody _ hloop
      refine ⟨x :: (xs ++ ys), by rw [hys, hxs]; simp, 0, labels[x]?, some r.1, rfl, ?_, hx⟩
      obtain ⟨c, hc⟩ := Nat.exists_eq_add_of_lt (hbody.cuts_pos r.2)
      rw [expected, List.flatMap_cons, hc, Nat.zero_add, List.replicate_succ]
      rfl

end Loop

end Motis.Intermodal
