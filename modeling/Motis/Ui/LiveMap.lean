import Mathlib.Data.Sym.Sym2
import Motis.Nigiri.TrainsResponse
import Motis.Ui.RailvizModel

/-! The polylines of the trains response, as the live map reads them.

    The server writes the two stops of a polyline in the order of their indices, and the sign says
    whether a train runs in this order; the client reads the polyline forward for a positive sign:

        section      key        polyline    index    read
        2 → 5        (2, 5)     [2, 5]        1      2, 5
        5 → 2        (2, 5)                  -1      5, 2 -/

namespace Motis.Ui.RailViz
open Nigiri

variable {K : Type} [Field K] [LinearOrder K]

/-- The trains of `preprocess`; `none` is a train whose polylines have no geometry. -/
def newTrains [IsStrictOrderedRing K] (proj : Projection K) (response : Fbs.RailVizTrainsResponse) :
    List (Option (Train K)) :=
  let polylines := response.polylines.map (preprocessPolyline proj)
  response.trains.map fun t =>
    Train.new polylines (t.dTime.toInt : K) (t.aTime.toInt : K) t.indices

/-- The stops of the sections. -/
def stopsOf (runs : List TrainSection) : List LocationIdx :=
  runs.flatMap fun s => [s.from_, s.to_]

/-- The client decodes what the encoder writes of two stops: their coordinates, rounded to the
    decimals of the format. -/
def Decodes {σ : Type} (tt : Timetable) (encoder : PolylineEncoder σ)
    (round : Double × Double → Coordinate) (stops : List LocationIdx) : Prop :=
  ∀ l ∈ stops, ∀ l' ∈ stops, decode (encoder.encode (tt.coordinates l) (tt.coordinates l')) =
    [round (tt.coordinates l), round (tt.coordinates l')]

/-- The train leads from one coordinate to another. -/
structure Train.Leads (t : Train K) (a b : Coordinate) : Prop where
  path : t.path = [a, b]
  first : t.firstCoordinate = some a
  last : t.lastCoordinate = some b

theorem preprocessPolyline_some [IsStrictOrderedRing K] (proj : Projection K) (str : String) (h : decode str ≠ []) :
    ∃ p, preprocessPolyline proj str = some p ∧ p.coordinates = decode str := by
  rw [preprocessPolyline]
  simp only
  rw [if_neg (by rwa [List.length_eq_zero_iff])]
  exact ⟨_, rfl, rfl⟩

/-- A train on one polyline. -/
theorem Train.leads_of_index {polylines : List (Option (Polyline K))} {n : ℕ} {p : Polyline K}
    {a b : Coordinate} (hp : polylines[n]? = some (some p)) (hcoords : p.coordinates = [a, b])
    (dTime aTime : K) {sign : ℤ} (hsign : sign = 1 ∨ sign = -1) (hn : 0 < n) :
    ∃ t, Train.new polylines dTime aTime [n * sign] = some t ∧
      t.Leads (if sign = 1 then a else b) (if sign = 1 then b else a) := by
  have habs : (n * sign : ℤ).natAbs = n := by
    rcases hsign with rfl | rfl
    · rw [mul_one, Int.natAbs_natCast]
    · rw [mul_neg, mul_one, Int.natAbs_neg, Int.natAbs_natCast]
  refine ⟨⟨dTime, aTime, [⟨decide (n * sign > 0), 0, p⟩], 0 + p.totalLength⟩, ?_, ?_⟩
  · rw [Train.new, polylineRefs, habs, hp]
    rfl
  · rcases hsign with rfl | rfl
    · refine ⟨?_, ?_, ?_⟩ <;>
        simp [Train.path, Train.firstCoordinate, Train.lastCoordinate, PolylineRef.coordinate,
          hcoords, hn]
    · have hneg : ¬(n : ℤ) < 0 := by omega
      refine ⟨?_, ?_, ?_⟩ <;>
        simp [Train.path, Train.firstCoordinate, Train.lastCoordinate, PolylineRef.coordinate,
          hcoords, hneg]

/-- The smaller and the larger of two stops are those of the unordered pair. -/
theorem minMax_eq_iff (a b c d : ℕ) :
    min a b = min c d ∧ max a b = max c d ↔ a = c ∧ b = d ∨ a = d ∧ b = c := by
  omega

theorem key_eq_iff (s s' : TrainSection) :
    s.key = s'.key ↔ s(s.from_, s.to_) = s(s'.from_, s'.to_) := by
  rw [TrainSection.key, TrainSection.key, Prod.mk.injEq, Sym2.eq_iff]
  exact minMax_eq_iff s.from_ s.to_ s'.from_ s'.to_

theorem sign_eq (s : TrainSection) : s.sign = 1 ∨ s.sign = -1 := by
  rw [TrainSection.sign]
  split
  · exact Or.inr rfl
  · exact Or.inl rfl

/-- The stops of the key, in the direction of the sign. -/
theorem key_of_sign (s : TrainSection) :
    (if s.sign = 1 then s.key.1 else s.key.2) = s.from_ ∧
      (if s.sign = 1 then s.key.2 else s.key.1) = s.to_ := by
  by_cases h : s.key.1 = s.from_
  · have hsign : s.sign = 1 := by rw [TrainSection.sign, if_neg (not_not.mpr h)]
    rw [if_pos hsign, if_pos hsign]
    exact ⟨h, max_eq_right (min_eq_left_iff.mp h)⟩
  · have hsign : s.sign = -1 := by rw [TrainSection.sign, if_pos h]
    have hle : s.to_ ≤ s.from_ := (le_total s.from_ s.to_).resolve_left fun hle =>
      h (min_eq_left hle)
    rw [hsign, if_neg (by decide), if_neg (by decide)]
    exact ⟨max_eq_left hle, min_eq_right hle⟩

section Response
variable {σ : Type} (tt : Timetable) (encoder : PolylineEncoder σ) {runs : List TrainSection}

/-- The train of a section, with its index. -/
theorem train_of_section {i : ℕ} {s : TrainSection} (hs : runs[i]? = some s) :
    ∃ n : ℕ, (createResponse tt encoder runs).trains[i]? = some (createTrain tt s (n * s.sign)) ∧
      0 < n ∧ (buildResponse tt encoder runs).polylineIndicesCache.lookup s.key = some (n : ℤ) ∧
      (createResponse tt encoder runs).polylines[n]? =
        some (encoder.encode (tt.coordinates s.key.1) (tt.coordinates s.key.2)) := by
  obtain ⟨hnumbered, htrains⟩ := buildResponse_numbered tt encoder runs
  have hi := (List.getElem?_eq_some_iff.mp hs).1
  have hi' : i < (buildResponse tt encoder runs).trains.length := htrains.length_eq ▸ hi
  have htrain := htrains.get hi hi'
  rw [List.get_eq_getElem, List.get_eq_getElem] at htrain
  obtain ⟨v, hv, heq⟩ := htrain
  rw [(List.getElem?_eq_some_iff.mp hs).2] at hv heq
  obtain ⟨n, rfl, hpos, hget⟩ := hnumbered.index _ v hv
  exact ⟨n, (List.getElem?_eq_getElem hi').trans (congrArg some heq), hpos, hv, hget⟩

theorem mem_stopsOf {s : TrainSection} (hs : s ∈ runs) :
    s.key.1 ∈ stopsOf runs ∧ s.key.2 ∈ stopsOf runs := by
  have hfrom : s.from_ ∈ stopsOf runs := List.mem_flatMap.mpr ⟨s, hs, by simp⟩
  have hto : s.to_ ∈ stopsOf runs := List.mem_flatMap.mpr ⟨s, hs, by simp⟩
  have hkey := key_of_sign s
  rcases sign_eq s with hsign | hsign
  · rw [if_pos hsign, if_pos hsign] at hkey
    exact ⟨hkey.1 ▸ hfrom, hkey.2 ▸ hto⟩
  · rw [hsign, if_neg (by decide), if_neg (by decide)] at hkey
    exact ⟨hkey.2 ▸ hto, hkey.1 ▸ hfrom⟩

end Response

/-- Every train of a response is read from its departure stop to its arrival stop, its index is
    never zero, and two trains have the same polyline if and only if they run between the same two
    stops. -/
structure PolylinesLead [IsStrictOrderedRing K] {σ : Type} (tt : Timetable)
    (encoder : PolylineEncoder σ) (round : Double × Double → Coordinate) (proj : Projection K)
    (runs : List TrainSection) : Prop where
  leads : ∀ (i : ℕ) (s : TrainSection), runs[i]? = some s → ∃ train x t,
    (createResponse tt encoder runs).trains[i]? = some train ∧ train.indices = [x] ∧ x ≠ 0 ∧
    (newTrains proj (createResponse tt encoder runs))[i]? = some (some t) ∧
    t.Leads (round (tt.coordinates s.from_)) (round (tt.coordinates s.to_))
  shared : ∀ (i j : ℕ) (s s' : TrainSection) (train train' : Fbs.Train) (x x' : ℤ),
    runs[i]? = some s → runs[j]? = some s' →
    (createResponse tt encoder runs).trains[i]? = some train →
    (createResponse tt encoder runs).trains[j]? = some train' →
    train.indices = [x] → train'.indices = [x'] →
    (x.natAbs = x'.natAbs ↔ s(s.from_, s.to_) = s(s'.from_, s'.to_))

/-- The client finds the sections of the trains on the polylines of the server. -/
theorem polylines_lead [IsStrictOrderedRing K] {σ : Type} (tt : Timetable)
    (encoder : PolylineEncoder σ) (round : Double × Double → Coordinate) (proj : Projection K)
    (runs : List TrainSection) (hdecodes : Decodes tt encoder round (stopsOf runs)) :
    PolylinesLead tt encoder round proj runs := by
  refine ⟨fun i s hs => ?_, fun i j s s' train train' x x' hs hs' ht ht' hx hx' => ?_⟩
  · obtain ⟨n, htrain, hpos, -, hpolyline⟩ := train_of_section tt encoder hs
    obtain ⟨hmem, hmem'⟩ := mem_stopsOf (List.mem_of_getElem? hs)
    have hdecode := hdecodes _ hmem _ hmem'
    obtain ⟨p, hp, hcoords⟩ := preprocessPolyline_some proj
      (encoder.encode (tt.coordinates s.key.1) (tt.coordinates s.key.2))
      (by rw [hdecode]; exact List.cons_ne_nil _ _)
    rw [hdecode] at hcoords
    have hget : ((createResponse tt encoder runs).polylines.map (preprocessPolyline proj))[n]? =
        some (some p) := by
      rw [List.getElem?_map, hpolyline, Option.map_some, hp]
    obtain ⟨t, ht, hleads⟩ := Train.leads_of_index hget hcoords
      ((toMotisUnixtime s.dep).toInt32.toInt : K) ((toMotisUnixtime s.arr).toInt32.toInt : K)
      (sign_eq s) hpos
    refine ⟨_, n * s.sign, t, htrain, rfl, ?_, ?_, ?_⟩
    · rcases sign_eq s with hsign | hsign
      · rw [hsign]; omega
      · rw [hsign]; omega
    · rw [newTrains, List.getElem?_map, htrain, Option.map_some]
      exact congrArg some ht
    · have hkey := key_of_sign s
      rw [← hkey.1, ← hkey.2, apply_ite tt.coordinates, apply_ite tt.coordinates, apply_ite round,
        apply_ite round]
      exact hleads
  · obtain ⟨n, htrain, -, hlookup, -⟩ := train_of_section tt encoder hs
    obtain ⟨n', htrain', -, hlookup', -⟩ := train_of_section tt encoder hs'
    rw [htrain, Option.some.injEq] at ht
    rw [htrain', Option.some.injEq] at ht'
    rw [← ht, createTrain, List.cons.injEq] at hx
    rw [← ht', createTrain, List.cons.injEq] at hx'
    have habs : ∀ (m : ℕ) (s : TrainSection), (m * s.sign : ℤ).natAbs = m := by
      intro m s
      rw [Int.natAbs_mul]
      rcases sign_eq s with hsign | hsign <;> simp [hsign]
    rw [← hx.1, ← hx'.1, habs, habs, ← key_eq_iff]
    constructor
    · rintro rfl
      exact (buildResponse_numbered tt encoder runs).1.inj _ _ _ hlookup hlookup'
    · intro hkey
      rw [hkey, hlookup', Option.some.injEq] at hlookup
      exact (Int.natCast_inj.mp hlookup).symm

/-- Two stops a millionth of a degree apart. -/
def twoStops : Timetable where
  coordinates l := if l = 0 then (0, 0) else (0, 0x3EB0C6F7A0B5ED8D)

def roundTwoStops (pos : Double × Double) : Coordinate := if pos = (0, 0) then (0, 0) else (0, 1)

/-- A change of less than 16 takes one character. -/
def encodeChange (change : ℤ) : Char :=
  Char.ofNat ((if change < 0 then -2 * change - 1 else 2 * change).toNat + 63)

def smallEncoder : PolylineEncoder (String × Coordinate) where
  init := ("", (0, 0))
  push s pos :=
    let c := roundTwoStops pos
    ((s.1.push (encodeChange (c.1 - s.2.1))).push (encodeChange (c.2 - s.2.2)), c)
  buf s := s.1
  reset _ := ("", (0, 0))
  reset_eq _ := rfl

def thereAndBack : List TrainSection := [{ from_ := 0, to_ := 1 }, { from_ := 1, to_ := 0 }]

theorem polylines_lead_thereAndBack :
    PolylinesLead twoStops smallEncoder roundTwoStops alongX thereAndBack :=
  polylines_lead _ _ _ _ _ (by rw [Decodes]; decide)

end Motis.Ui.RailViz
