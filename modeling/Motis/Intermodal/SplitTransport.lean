import Motis.Intermodal.PatchLoops
import Mathlib.Data.Nat.Find

/-! What one call of `split_transport` does to a journey.

    The transport is looked up by its range. If it is the first one with this range, it is divided,
    and everything else is renumbered around the new stop; else the first one is divided in its
    place.

        stops        … a       a+1 …            … a   new   a+2 …
        transport      [a, a+1]          ──▶      [a, a+1] [a+1, a+2]
        others         [f, t]                     [shift f, shift t] -/

namespace Motis.Intermodal
open Insertion Journey
open Ranged (range setRange)

variable {E : Type}

/-- The ranges denote the same stops as before. -/
def SameRanges {α : Type} [Ranged α] (newStop : ℕ) (v v' : List α) : Prop :=
  v' = v.map (renumber (shift newStop))

/-- Transport `k` is divided at one new stop, and all other ranges denote what they denoted. -/
structure DividesOnly (j : Journey) (k : ℕ) (patches : List (ParkingPatch E))
    (r : SplitTransportResult E) : Prop where
  stop : r.parkingStop = (walk j k).to_
  newStop : r.journey.stops[r.parkingStop]? = some {}
  stops : r.journey.stops.length = j.stops.length + 1
  sameStops : ∀ i, r.journey.stops[shift r.parkingStop i]? = j.stops[i]?
  transports : r.journey.transports.length = j.transports.length + 1
  first : r.firstTransport = k ∧ r.journey.transports[k]? =
    some (setRange (walk j k) (shift r.parkingStop (walk j k).from_, r.parkingStop))
  second : r.secondTransport = k + 1 ∧ r.journey.transports[k + 1]? =
    some (setRange (walk j k) (r.parkingStop, shift r.parkingStop (walk j k).to_))
  sections : r.parkingStop = shift r.parkingStop (walk j k).from_ + 1 ∧
    shift r.parkingStop (walk j k).to_ = r.parkingStop + 1
  others : ∀ y, y ≠ k → r.journey.transports[shift (k + 1) y]? =
    j.transports[y]?.map (renumber (shift r.parkingStop))
  trips : SameRanges r.parkingStop j.trips r.journey.trips
  attributes : SameRanges r.parkingStop j.attributes r.journey.attributes
  freeTexts : SameRanges r.parkingStop j.freeTexts r.journey.freeTexts
  problems : SameRanges r.parkingStop j.problems r.journey.problems
  pending : SameRanges r.parkingStop patches r.patches
  denoted : ∀ p ∈ patches, getTransport j p.from_ p.to_ ≠ .ok k →
    getTransport r.journey (shift r.parkingStop p.from_) (shift r.parkingStop p.to_) =
      (getTransport j p.from_ p.to_).map (shift (k + 1))

/-- The transport is the first one with its range. -/
def FirstWithRange (j : Journey) (k : ℕ) : Prop := ∀ i < k, range (walk j i) ≠ range (walk j k)

section Split

variable {j : Journey} {k a : ℕ}

theorem getElem?_transports (hk : k < j.transports.length) : j.transports[k]? = some (walk j k) := by
  rw [walk, List.getD_eq_getElem?_getD, List.getElem?_eq_getElem hk, Option.getD_some]

/-- Every other transport is renumbered. -/
theorem getElem?_transports_other {t : Transport} (hget : j.transports[k]? = some t)
    (hrange : range t = (a, a + 1)) {y : ℕ} (hy : y ≠ k) :
    (insertStop j k (a + 1)).transports[shift (k + 1) y]? =
      j.transports[y]?.map (renumber (shift (a + 1))) := by
  rw [getElem?_transports_insertStop hget hrange]
  rcases Nat.lt_or_gt_of_ne hy with hlt | hgt
  · have hshift : shift (k + 1) y = y := shift_of_lt (by omega)
    rw [hshift, if_pos hlt]
  · have hshift : shift (k + 1) y = y + 1 := shift_of_ge (by omega)
    rw [hshift, if_neg (by omega), if_neg (by omega), if_neg (by omega), Nat.add_sub_cancel]

/-- A pending patch of another transport finds it again. -/
theorem getTransport_insertStop (hk : k < j.transports.length)
    (hrange : range (walk j k) = (a, a + 1)) {f t : ℕ} (hother : (f, t) ≠ (a, a + 1)) :
    getTransport (insertStop j k (a + 1)) (shift (a + 1) f) (shift (a + 1) t) =
      (getTransport j f t).map (shift (k + 1)) := by
  have hget := getElem?_transports hk
  have hleft : ((a, a + 1) == (shift (a + 1) f, shift (a + 1) t)) = false :=
    beq_eq_false_iff_ne.mpr fun h => shift_ne (a + 1) t (congrArg Prod.snd h).symm
  have hright : ((a + 1, a + 2) == (shift (a + 1) f, shift (a + 1) t)) = false :=
    beq_eq_false_iff_ne.mpr fun h => shift_ne (a + 1) f (congrArg Prod.fst h).symm
  -- renumbered ranges are equal if and only if the ranges are
  have hrenumber : ∀ u : Transport,
      (range (renumber (shift (a + 1)) u) == (shift (a + 1) f, shift (a + 1) t)) =
        (range u == (f, t)) := by
    intro u
    have hinj := Function.Injective.prodMap (shift_strictMono (a + 1)).injective
      (shift_strictMono (a + 1)).injective
    rw [renumber, Ranged.range_setRange]
    exact beq_eq_beq.mpr (hinj.eq_iff (a := range u) (b := (f, t)))
  have hmap : ∀ o : Option Transport,
      (o.map (renumber (shift (a + 1)))).map
        (range · == (shift (a + 1) f, shift (a + 1) t)) = o.map (range · == (f, t)) := by
    intro o
    cases o with
    | none => rfl
    | some u => exact congrArg some (hrenumber u)
  have hsearch : (insertStop j k (a + 1)).transports.findIdx?
      (range · == (shift (a + 1) f, shift (a + 1) t)) =
        (j.transports.findIdx? (range · == (f, t))).map (shift (k + 1)) := by
    refine findIdx?_shift (fun y => ?_) ?_
    · rcases eq_or_ne y k with rfl | hy
      · have hshift : shift (y + 1) y = y := shift_of_lt (Nat.lt_succ_self y)
        rw [getElem?_transports_insertStop hget hrange, hshift, if_neg (Nat.lt_irrefl y),
          if_pos rfl, hget, Option.map_some, Option.map_some, Ranged.range_setRange, hleft, hrange]
        exact congrArg some (beq_eq_false_iff_ne.mpr (Ne.symm hother)).symm
      · rw [getElem?_transports_other hget hrange hy, hmap]
    · rw [getElem?_transports_insertStop hget hrange, if_neg (by omega), if_neg (by omega),
        if_pos rfl, Option.map_some, Ranged.range_setRange, hright]
      decide
  rw [getTransport, getTransport, hsearch]
  cases j.transports.findIdx? (range · == (f, t)) <;> rfl

theorem ranges_walk (hk : k < j.transports.length) : (ranges j)[k]? = some (range (walk j k)) := by
  rw [ranges, List.getElem?_map, getElem?_transports hk, Option.map_some]

/-- The first transport with its range is divided, and nothing else is. -/
theorem dividesOnly_first (hk : k < j.transports.length) (hrange : range (walk j k) = (a, a + 1))
    (hfirst : ∀ z < k, (ranges j)[z]? ≠ some (a, a + 1)) (hin : a + 1 < j.stops.length)
    (patches : List (ParkingPatch E)) :
    DividesOnly j k patches
      ⟨insertStop j k (a + 1), updateIndices (a + 1) patches, a + 1, k, k + 1⟩ := by
  have hfrom : (walk j k).from_ = a := congrArg Prod.fst hrange
  have hto : (walk j k).to_ = a + 1 := congrArg Prod.snd hrange
  have hget := getElem?_transports hk
  have hleft : shift (a + 1) a = a := shift_of_lt (Nat.lt_succ_self a)
  have hright : shift (a + 1) (a + 1) = a + 2 := shift_of_ge (Nat.le_refl (a + 1))
  have htransports := getElem?_transports_insertStop hget hrange
  refine { stop := hto.symm, newStop := ?_, stops := length_stops_insertStop (Nat.le_of_lt hin)
           sameStops := getElem?_insertIdx_shift j.stops (a + 1) {}, transports := ?_
           first := ⟨rfl, ?_⟩, second := ⟨rfl, ?_⟩, sections := ?_, others := ?_, trips := rfl
           attributes := rfl, freeTexts := rfl, problems := rfl, pending := rfl, denoted := ?_ }
  · simp only [insertStop]
    rw [List.getElem?_insertIdx_self, if_pos (Nat.le_of_lt hin)]
  · have hlen : k < (updateIndices (a + 1) j.transports).length := by
      rwa [updateIndices, List.length_map]
    simp only [insertStop, List.length_modify, length_dup hlen]
    rw [updateIndices, List.length_map]
  · rw [htransports, if_neg (Nat.lt_irrefl k), if_pos rfl, hfrom, hleft]
  · rw [htransports, if_neg (by omega), if_neg (by omega), if_pos rfl, hto, hright]
  · rw [hfrom, hto, hleft, hright]
    exact ⟨rfl, rfl⟩
  · exact fun y hy => getElem?_transports_other hget hrange hy
  · intro p _ hother
    refine getTransport_insertStop hk hrange fun heq => hother ?_
    have hfind := findTransport_some.mpr ⟨hrange ▸ ranges_walk hk, hfirst⟩
    rw [← heq] at hfind
    rw [getTransport, hfind]
    rfl

/-- The index of a transport with this range, and no earlier one has it. -/
theorem exists_first {x : ℕ} {r : ℕ × ℕ} (hx : (ranges j)[x]? = some r) :
    ∃ y ≤ x, (ranges j)[y]? = some r ∧ ∀ z < y, (ranges j)[z]? ≠ some r := by
  have hex : ∃ y, (ranges j)[y]? = some r := ⟨x, hx⟩
  exact ⟨Nat.find hex, Nat.find_min' hex hx, Nat.find_spec hex, fun z hz => Nat.find_min hex hz⟩

/-- A transport over one section is divided, and everything else denotes what it did before, if and
    only if no earlier transport has the same range. -/
theorem split_iff_first (j : Journey) (k : ℕ) (patches : List (ParkingPatch E))
    (hk : k < j.transports.length) (hsection : (walk j k).to_ = (walk j k).from_ + 1)
    (hin : (walk j k).to_ < j.stops.length) :
    (∃ r, splitTransport j patches (walk j k) = .ok r ∧ DividesOnly j k patches r) ↔
      FirstWithRange j k := by
  have hrange : range (walk j k) = ((walk j k).from_, (walk j k).from_ + 1) :=
    Prod.ext rfl hsection
  have hranges := ranges_walk hk
  rw [hsection] at hin
  rw [hrange] at hranges
  obtain ⟨x, hxk, hx, hfirst⟩ := exists_first hranges
  have hsplit := splitTransport_eq hx hfirst patches hrange
  constructor
  · -- the transport that is divided is the first one with the range
    rintro ⟨r, hr, hdivides⟩ i hi heq
    rw [hsplit] at hr
    have hxeq : x = k := by
      rw [← hdivides.first.1, ← Except.ok.inj hr]
    refine hfirst i (hxeq ▸ hi) ?_
    rw [ranges_walk (hi.trans hk), heq, hrange]
  · intro hfirstRange
    obtain rfl : x = k := by
      refine Nat.le_antisymm hxk (Nat.le_of_not_lt fun hlt => hfirstRange x hlt ?_)
      rw [hrange]
      exact Option.some.inj ((ranges_walk (hlt.trans hk)).symm.trans hx)
    exact ⟨_, hsplit, dividesOnly_first hk hrange hfirst hin patches⟩

end Split

/-- A drive and a walk over the same section. -/
def driveAndWalk : Journey where
  stops := [{ name := "START" }, { name := "station" }]
  transports := [{ from_ := 0, to_ := 1, mumoType := "car" },
    { from_ := 0, to_ := 1, isWalk := true, mumoType := "foot" }]

theorem split_iff_first_drive :
    (∃ r, splitTransport driveAndWalk ([⟨(), 0, 1⟩] : List (ParkingPatch Unit))
      (walk driveAndWalk 0) = .ok r ∧ DividesOnly driveAndWalk 0 [⟨(), 0, 1⟩] r) ↔
      FirstWithRange driveAndWalk 0 :=
  split_iff_first driveAndWalk 0 _ (by decide) (by decide) (by decide)

/-- The walk is to be divided, but the drive before it is. -/
theorem split_divides_drive :
    ¬∃ r, splitTransport driveAndWalk ([] : List (ParkingPatch Unit)) (walk driveAndWalk 1) = .ok r
      ∧ DividesOnly driveAndWalk 1 [] r := by
  rintro ⟨r, hr, hdivides⟩
  have hfirst : r.firstTransport = 0 := by rw [← Except.ok.inj hr]; rfl
  rw [hdivides.first.1] at hfirst
  cases hfirst

end Motis.Intermodal
