import Mathlib.Data.UInt
import Mathlib.Tactic.Ring
import Motis.Core.Journey.JourneyMessage

/-! The round trip of a journey through its message.

    Every field survives but two: `convert_reason` writes `REPAIR` as `SCHEDULE`, while `to_fbs` and
    `from_fbs` know it, and the night penalty and the costs are cut to 16 bits. -/

namespace Motis.JourneyMessage
open Ranged (range)

/-! ### Fields -/

@[simp] theorem fromFbs_toFbs (r : TimestampReason) : fromFbs (toFbs r) = r := by cases r <;> rfl

/-- The converter of journeys loses exactly `REPAIR`. -/
theorem fromFbs_convertReason (r : TimestampReason) :
    fromFbs (convertReason r) = r ↔ r ≠ .repair := by
  cases r <;> decide

@[simp] theorem statusFromFbs_statusToFbs (s : Journey.ConnectionStatus) :
    statusFromFbs (statusToFbs s) = s := by cases s <;> rfl

@[simp] theorem problemTypeFromFbs_problemTypeToFbs (p : Journey.ProblemType) :
    problemTypeFromFbs (problemTypeToFbs p) = p := by cases p <;> rfl

/-- A number below `2 ^ 15` fits into the range type. -/
theorem toUnsigned_ofNat {n : ℕ} (hn : n < 2 ^ 15) : toUnsigned (Int16.ofNat n) = n := by
  have hint : (Int16.ofNat n).toInt = n := Int16.toInt_ofNat_of_lt hn
  rw [toUnsigned, hint]
  omega

theorem toUInt16_toUInt32 (x : UInt32) : x.toUInt16.toUInt32 = x ↔ x < 2 ^ 16 := by
  rw [← UInt32.toNat_inj, UInt32.lt_iff_toNat_lt]
  simp only [UInt16.toNat_toUInt32, UInt32.toNat_toUInt16]
  have : (2 ^ 16 : UInt32).toNat = 65536 := rfl
  omega

/-! ### Colours -/

theorem hexValue?_hexDigit : ∀ n < 16, hexValue? (hexDigit n) = some n := by decide

theorem length_hexDigits (width n : ℕ) : (hexDigits width n).length = width := by
  induction width generalizing n with
  | zero => rfl
  | succ width ih => simp [hexDigits, ih]

theorem all_isHex_hexDigits (width n : ℕ) : (hexDigits width n).all isHex = true := by
  induction width generalizing n with
  | zero => rfl
  | succ width ih =>
    have hlast : isHex (hexDigit (n % 16)) = true := by
      rw [isHex, hexValue?_hexDigit _ (by omega)]
      rfl
    simp [hexDigits, ih, hlast]

/-- Reading `width` hex digits gives the number back. -/
theorem parseHex_hexDigits (width n : ℕ) (h : n < 16 ^ width) :
    parseHex (hexDigits width n) = n := by
  induction width generalizing n with
  | zero =>
    obtain rfl : n = 0 := by simpa using h
    rfl
  | succ width ih =>
    have ih := ih (n / 16) (by rw [pow_succ] at h; omega)
    rw [parseHex] at ih
    rw [parseHex, hexDigits, List.foldl_append, ih, List.foldl_cons, List.foldl_nil,
      hexValue?_hexDigit _ (by omega), Option.getD_some]
    omega

/-- A colour the message can hold: none, or opaque. -/
def IsColor (color : UInt32) : Prop := color = 0 ∨ color &&& 0xFF000000 = 0xFF000000

/-- The alpha byte of an opaque colour is the one the reader adds. -/
theorem alpha_or_rgb {color : UInt32} (h : color &&& 0xFF000000 = 0xFF000000) :
    0xFF000000 ||| (color &&& 0x00ffffff) = color := by
  calc 0xFF000000 ||| (color &&& 0x00ffffff)
      = (color &&& 0xFF000000) ||| (color &&& 0x00ffffff) := by rw [h]
    _ = color &&& (0xFF000000 ||| 0x00ffffff) :=
        (UInt32.toBitVec_inj.1 BitVec.and_or_distrib_left).symm
    _ = color &&& -1 := by rw [show (0xFF000000 ||| 0x00ffffff : UInt32) = -1 by decide]
    _ = color := UInt32.and_neg_one

/-- The reader makes the written digits opaque. -/
theorem toColor_hexDigits (color : UInt32) :
    toColor (String.ofList (hexDigits 6 (color &&& 0x00ffffff).toNat)) =
      0xFF000000 ||| (color &&& 0x00ffffff) := by
  have hlt : (color &&& 0x00ffffff).toNat < 16 ^ 6 := by
    rw [UInt32.toNat_and]
    exact lt_of_le_of_lt Nat.and_le_right (by decide)
  simp only [toColor, String.toList_ofList, length_hexDigits, all_isHex_hexDigits,
    parseHex_hexDigits 6 _ hlt, UInt32.ofNat_toNat]
  rfl

theorem toColor_convertColor {color : UInt32} (h : IsColor color) :
    ((convertColor color).map toColor).getD 0 = color := by
  rcases eq_or_ne color 0 with hz | hz
  · rw [convertColor, if_pos hz, hz]
    rfl
  · have halpha : color &&& 0xFF000000 = 0xFF000000 := h.resolve_left hz
    rw [convertColor, if_neg hz, Option.map_some, Option.getD_some, toColor_hexDigits]
    exact alpha_or_rgb halpha

/-! ### Stops -/

/-- An event comes back if and only if its reason is not the one the message loses. -/
theorem toEventInfo_convertEvent (e : Journey.EventInfo) :
    toEventInfo (convertEvent e true) = e ↔ e.timestampReason ≠ .repair := by
  obtain ⟨valid, timestamp, scheduleTimestamp, reason, track, scheduleTrack⟩ := e
  rw [← fromFbs_convertReason]
  simp [toEventInfo, convertEvent]

/-- No event of the stop carries the reason `REPAIR`. -/
def Unrepaired (s : Journey.Stop) : Prop :=
  s.arrival.timestampReason ≠ .repair ∧ s.departure.timestampReason ≠ .repair

theorem stops_roundTrip (stops : List Journey.Stop) :
    (convertStops stops true).map toStop = stops ↔ ∀ s ∈ stops, Unrepaired s := by
  induction stops with
  | nil => simp [convertStops]
  | cons s stops ih =>
    have hs : toStop ((convertStops [s] true).head (by simp [convertStops])) = s ↔
        Unrepaired s := by
      obtain ⟨exit, enter, name, evaNo, lat, lng, arrival, departure⟩ := s
      simp only [convertStops, List.map_cons, List.head_cons, toStop, Unrepaired,
        Journey.Stop.mk.injEq, toEventInfo_convertEvent, true_and]
    rw [List.forall_mem_cons, ← hs, ← ih]
    simp only [convertStops, List.map_cons, List.cons.injEq, List.head_cons]

/-! ### Ranges -/

/-- Both ends are stops of the journey, and the 16-bit range type holds them. -/
def OnStops (j : Journey) (r : ℕ × ℕ) : Prop :=
  (r.1 < j.stops.length ∧ r.2 < j.stops.length) ∧ r.1 < 2 ^ 15 ∧ r.2 < 2 ^ 15

theorem toRange_from {j : Journey} {r : ℕ × ℕ} (h : OnStops j r) :
    toUnsigned (toRange r).from_ = r.1 := toUnsigned_ofNat h.2.1

theorem toRange_to {j : Journey} {r : ℕ × ℕ} (h : OnStops j r) :
    toUnsigned (toRange r).to_ = r.2 := toUnsigned_ofNat h.2.2

/-- A list comes back if each of its elements does. -/
theorem map_map_self {α β : Type} {f : α → β} {g : β → α} {l : List α}
    (h : ∀ a ∈ l, g (f a) = a) : (l.map f).map g = l := by
  rw [List.map_map]
  exact (List.map_congr_left h).trans (List.map_id l)

theorem trips_roundTrip {j : Journey} (h : ∀ t ∈ j.trips, OnStops j (range t)) :
    (convertTrips j.trips).map toTrip = j.trips := by
  refine map_map_self fun t ht => ?_
  rw [toTrip, toRange_from (h t ht), toRange_to (h t ht)]
  rfl

theorem attributes_roundTrip {j : Journey} (h : ∀ a ∈ j.attributes, OnStops j (range a)) :
    (convertAttributes j.attributes).map toAttribute = j.attributes := by
  refine map_map_self fun a ha => ?_
  rw [toAttribute, toRange_from (h a ha), toRange_to (h a ha)]
  rfl

theorem freeTexts_roundTrip {j : Journey} (h : ∀ f ∈ j.freeTexts, OnStops j (range f)) :
    (convertFreeTexts j.freeTexts).map toFreeText = j.freeTexts := by
  refine map_map_self fun f hf => ?_
  rw [toFreeText, toRange_from (h f hf), toRange_to (h f hf)]
  rfl

theorem problems_roundTrip {j : Journey} (h : ∀ p ∈ j.problems, OnStops j (range p)) :
    (convertProblems j.problems).map toProblem = j.problems := by
  refine map_map_self fun p hp => ?_
  rw [toProblem, toRange_from (h p hp), toRange_to (h p hp), problemTypeFromFbs_problemTypeToFbs]
  rfl

/-! ### Moves -/

/-- What the message carries of a transport: the fields of a walk or those of a transport. -/
def carried (t : Journey.Transport) : Journey.Transport :=
  if t.isWalk then
    { from_ := t.from_, to_ := t.to_, isWalk := true, mumoId := t.mumoId
      mumoPrice := t.mumoPrice, mumoAccessibility := t.mumoAccessibility, mumoType := t.mumoType }
  else
    { from_ := t.from_, to_ := t.to_, clasz := t.clasz, lineIdentifier := t.lineIdentifier
      name := t.name, provider := t.provider, providerUrl := t.providerUrl
      direction := t.direction, routeColor := t.routeColor, routeTextColor := t.routeTextColor }

theorem moves_roundTrip {j : Journey} (stops : List Fbs.Stop)
    (h : ∀ t ∈ j.transports, OnStops j (range t))
    (hc : ∀ t ∈ j.transports, IsColor t.routeColor ∧ IsColor t.routeTextColor) :
    ((convertMoves j.transports).map (toTransport stops)).map carried =
      j.transports.map carried := by
  simp only [convertMoves, List.map_map]
  refine List.map_congr_left fun t ht => ?_
  have hfrom := toRange_from (h t ht)
  have hto := toRange_to (h t ht)
  obtain ⟨hcolor, htext⟩ := hc t ht
  by_cases hw : t.isWalk
  · simp only [Function.comp_apply, hw, if_true, toTransport, walkToTransport, carried, hfrom, hto]
    rfl
  · have hwf : t.isWalk = false := by simpa using hw
    simp only [Function.comp_apply, hwf, Bool.false_eq_true, if_false, toTransport,
      transportToTransport, carried, hfrom, hto, toColor_convertColor hcolor,
      toColor_convertColor htext]
    rfl

/-! ### The journey -/

/-- What the message asks of a journey. -/
structure Encodable (j : Journey) : Prop where
  transports : ∀ t ∈ j.transports, OnStops j (range t)
  trips : ∀ t ∈ j.trips, OnStops j (range t)
  attributes : ∀ a ∈ j.attributes, OnStops j (range a)
  freeTexts : ∀ f ∈ j.freeTexts, OnStops j (range f)
  problems : ∀ p ∈ j.problems, OnStops j (range p)
  colors : ∀ t ∈ j.transports, IsColor t.routeColor ∧ IsColor t.routeTextColor

/-- `j'` says the same as `j`, as far as a message carries it. -/
structure SameJourney (j j' : Journey) : Prop where
  stops : j'.stops = j.stops
  transports : j'.transports.map carried = j.transports.map carried
  trips : j'.trips = j.trips
  attributes : j'.attributes = j.attributes
  freeTexts : j'.freeTexts = j.freeTexts
  problems : j'.problems = j.problems
  status : j'.status = j.status
  nightPenalty : j'.nightPenalty = j.nightPenalty
  dbCosts : j'.dbCosts = j.dbCosts

/-- No event has the reason `REPAIR`, and the penalty and the costs fit into 16 bits. -/
structure Lossless (j : Journey) : Prop where
  unrepaired : ∀ s ∈ j.stops, Unrepaired s
  nightPenalty : j.nightPenalty < 2 ^ 16
  dbCosts : j.dbCosts < 2 ^ 16

/-- CORRECT: a journey the message can hold comes back from it if and only if nothing the two
    narrow spots of the writer cut off is in it. -/
theorem roundTrip_iff_lossless (j : Journey) (h : Encodable j) :
    SameJourney j (convert (toConnection j true)) ↔ Lossless j := by
  constructor
  · intro hsame
    exact ⟨(stops_roundTrip j.stops).mp hsame.stops,
      (toUInt16_toUInt32 j.nightPenalty).mp hsame.nightPenalty,
      (toUInt16_toUInt32 j.dbCosts).mp hsame.dbCosts⟩
  · intro hless
    exact {
      stops := (stops_roundTrip j.stops).mpr hless.unrepaired
      transports := moves_roundTrip _ h.transports h.colors
      trips := trips_roundTrip h.trips
      attributes := attributes_roundTrip h.attributes
      freeTexts := freeTexts_roundTrip h.freeTexts
      problems := problems_roundTrip h.problems
      status := statusFromFbs_statusToFbs j.status
      nightPenalty := (toUInt16_toUInt32 j.nightPenalty).mpr hless.nightPenalty
      dbCosts := (toUInt16_toUInt32 j.dbCosts).mpr hless.dbCosts }

/-- Two stops and a train between them; the reason of the arrival is given. -/
def shuttle (reason : TimestampReason) : Journey :=
  { stops := [
      { enter := true, name := "A", evaNo := "1"
        departure := { valid := true, timestamp := 600, scheduleTimestamp := 600 } },
      { exit := true, name := "B", evaNo := "2"
        arrival := { valid := true, timestamp := 1200, scheduleTimestamp := 1140
                     timestampReason := reason } }]
    transports := [{ from_ := 0, to_ := 1, clasz := 3, name := "S 1", routeColor := 0xFF00A040 }]
    trips := [{ from_ := 0, to_ := 1, externTrip := { id := "t", trainNr := 1 } }] }

theorem shuttle_encodable (reason : TimestampReason) : Encodable (shuttle reason) where
  transports := by simp [shuttle, OnStops, range]
  trips := by simp [shuttle, OnStops, range]
  attributes := by simp [shuttle]
  freeTexts := by simp [shuttle]
  problems := by simp [shuttle]
  colors := by
    simp only [shuttle, List.mem_singleton, forall_eq, IsColor]
    exact ⟨.inr (by decide), .inl trivial⟩

theorem roundTrip_iff_lossless_forecast :
    SameJourney (shuttle .forecast) (convert (toConnection (shuttle .forecast) true)) ↔
      Lossless (shuttle .forecast) :=
  roundTrip_iff_lossless _ (shuttle_encodable .forecast)

/-- The repaired arrival comes back as a scheduled one. -/
theorem shuttle_repair_lost :
    Encodable (shuttle .repair) ∧
      ¬ SameJourney (shuttle .repair) (convert (toConnection (shuttle .repair) true)) := by
  refine ⟨shuttle_encodable .repair, fun hsame => ?_⟩
  have hstops := (stops_roundTrip _).mp hsame.stops
  exact (hstops _ (List.mem_of_getElem? (i := 1) rfl)).1 rfl

end Motis.JourneyMessage
