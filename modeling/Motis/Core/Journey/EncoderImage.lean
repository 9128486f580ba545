import Motis.Core.Journey.RoundTrip

/-! Encoding what was decoded.

    What the writer loses, it loses once: an invalid event is all zeros, a lost reason is
    `SCHEDULE`, a colour opaque, and a number cut to 16 bits fits into them. A second pass changes
    nothing more:

        journey ──▶ message ──▶ journey ──▶ message
                       └────────────=──────────┘

    Reading a move looks up the stops at the ends of its range, as the 16-bit numbers they are in
    the message. -/

namespace Motis.JourneyMessage
open Ranged (range)

/-- The ends of the range of a move, as indices of stops. -/
def moveRange : Fbs.Move → Fbs.Range
  | .walk w => w.range
  | .transport t => t.range

/-- `convert`, where the stops of a move are only read if there are such stops. -/
def decode (conn : Fbs.Connection) : Option Journey :=
  if conn.transports.all fun m =>
    toUnsigned (moveRange m).from_ < conn.stops.length &&
      toUnsigned (moveRange m).to_ < conn.stops.length
  then some (convert conn)
  else none

/-! ### Fields -/

theorem convertReason_fromFbs (r : TimestampReason) :
    convertReason (fromFbs (convertReason r)) = convertReason r := by
  cases r <;> rfl

theorem convertEvent_toEventInfo (e : Journey.EventInfo) (flag : Bool) :
    convertEvent (toEventInfo (convertEvent e flag)) flag = convertEvent e flag := by
  obtain ⟨valid, timestamp, scheduleTimestamp, reason, track, scheduleTrack⟩ := e
  cases valid with
  | true => simp [convertEvent, toEventInfo, convertReason_fromFbs]
  | false =>
    cases flag with
    | true => simp [convertEvent, toEventInfo, convertReason_fromFbs]
    | false => rfl

/-- The second range is cut to the number the first one was. -/
theorem ofNat_toUnsigned (i : Int16) : Int16.ofNat (toUnsigned i) = i := by
  have hlo := i.le_toInt
  have hhi := i.toInt_lt
  have hcast : (toUnsigned i : ℤ) = i.toInt % 2 ^ 32 := by
    rw [toUnsigned]
    omega
  rw [← Int16.ofInt_eq_ofNat, hcast, Int16.ofInt_eq_iff_bmod_eq_toInt, Int.bmod_def]
  split <;> omega

theorem toRange_toUnsigned (r : Fbs.Range) :
    toRange (toUnsigned r.from_, toUnsigned r.to_) = r := by
  rw [toRange, ofNat_toUnsigned, ofNat_toUnsigned]

theorem convertColor_toColor (color : UInt32) :
    convertColor (((convertColor color).map toColor).getD 0) = convertColor color := by
  rcases eq_or_ne color 0 with rfl | hz
  · rfl
  · have hopaque : 0xFF000000 ||| (color &&& 0x00ffffff) ≠ 0 := by
      rw [Ne, UInt32.or_eq_zero_iff]
      exact fun h => absurd h.1 (by decide)
    have hrgb : (0xFF000000 ||| (color &&& 0x00ffffff)) &&& 0x00ffffff = color &&& 0x00ffffff := by
      calc (0xFF000000 ||| (color &&& 0x00ffffff)) &&& 0x00ffffff
          = (0xFF000000 &&& 0x00ffffff) ||| ((color &&& 0x00ffffff) &&& 0x00ffffff) :=
            UInt32.toBitVec_inj.1 BitVec.and_or_distrib_right
        _ = color &&& 0x00ffffff := by
            rw [UInt32.and_assoc, UInt32.and_self, show (0xFF000000 &&& 0x00ffffff : UInt32) = 0 by
              decide, UInt32.zero_or]
    have hwritten : convertColor color =
        some (String.ofList (hexDigits 6 (color &&& 0x00ffffff).toNat)) := by
      rw [convertColor, if_neg hz]
    rw [hwritten, Option.map_some, Option.getD_some, toColor_hexDigits, convertColor,
      if_neg hopaque, hrgb]

theorem toUInt16_toUInt32_toUInt16 (x : UInt32) : x.toUInt16.toUInt32.toUInt16 = x.toUInt16 :=
  UInt16.toUInt16_toUInt32 _

/-! ### Lists -/

/-- A list that is read back and written again is the same if each of its elements is. -/
theorem map_map_map {α β : Type} {f : α → β} {g : β → α} (h : ∀ a, f (g (f a)) = f a)
    (l : List α) : ((l.map f).map g).map f = l.map f := by
  rw [List.map_map, List.map_map]
  exact List.map_congr_left fun a _ => h a

theorem convertStops_toStop (stops : List Journey.Stop) (flag : Bool) :
    convertStops ((convertStops stops flag).map toStop) flag = convertStops stops flag :=
  map_map_map (fun stop => by simp only [toStop, convertEvent_toEventInfo]) stops

theorem convertMoves_toTransport (stops : List Fbs.Stop) (transports : List Journey.Transport) :
    convertMoves ((convertMoves transports).map (toTransport stops)) = convertMoves transports := by
  refine map_map_map (fun t => ?_) transports
  have hrange := toRange_toUnsigned (toRange (range t))
  cases hw : t.isWalk with
  | true =>
    simp only [if_true, toTransport, walkToTransport, Fbs.Move.walk.injEq, Fbs.Walk.mk.injEq,
      and_true]
    exact hrange
  | false =>
    simp only [Bool.false_eq_true, if_false, toTransport, transportToTransport,
      convertColor_toColor, Fbs.Move.transport.injEq, Fbs.Transport.mk.injEq, and_true]
    exact hrange

theorem convertTrips_toTrip (trips : List Journey.Trip) :
    convertTrips ((convertTrips trips).map toTrip) = convertTrips trips :=
  map_map_map (fun t => congrArg (fun r => Fbs.Trip.mk r (tripToFbs t.externTrip) t.debug)
    (toRange_toUnsigned (toRange (range t)))) trips

theorem convertAttributes_toAttribute (attributes : List Journey.RangedAttribute) :
    convertAttributes ((convertAttributes attributes).map toAttribute) =
      convertAttributes attributes :=
  map_map_map (fun a => congrArg (fun r => Fbs.Attribute.mk r a.attr.code a.attr.text)
    (toRange_toUnsigned (toRange (range a)))) attributes

theorem convertFreeTexts_toFreeText (freeTexts : List Journey.RangedFreeText) :
    convertFreeTexts ((convertFreeTexts freeTexts).map toFreeText) = convertFreeTexts freeTexts :=
  map_map_map (fun f => congrArg (fun r => Fbs.FreeText.mk r f.text.code f.text.text f.text.type)
    (toRange_toUnsigned (toRange (range f)))) freeTexts

theorem convertProblems_toProblem (problems : List Journey.Problem) :
    convertProblems ((convertProblems problems).map toProblem) = convertProblems problems := by
  refine map_map_map (fun p => ?_) problems
  have hrange := toRange_toUnsigned (toRange (range p))
  rw [toProblem, problemTypeFromFbs_problemTypeToFbs]
  exact congrArg (Fbs.Problem.mk · (problemTypeToFbs p.type)) hrange

/-! ### The message -/

/-- Whatever the first pass lost, the second one loses nothing. -/
theorem toConnection_convert (j : Journey) (flag : Bool) :
    toConnection (convert (toConnection j flag)) flag = toConnection j flag := by
  have hstops := convertStops_toStop j.stops flag
  have hmoves := convertMoves_toTransport (convertStops j.stops flag) j.transports
  rw [convert, toConnection, Fbs.Connection.mk.injEq]
  refine ⟨hstops, hmoves, convertTrips_toTrip j.trips, convertAttributes_toAttribute j.attributes,
    convertFreeTexts_toFreeText j.freeTexts, convertProblems_toProblem j.problems,
    toUInt16_toUInt32_toUInt16 j.nightPenalty, toUInt16_toUInt32_toUInt16 j.dbCosts, ?_⟩
  exact congrArg statusToFbs (statusFromFbs_statusToFbs j.status)

theorem moveRange_convertMoves {transports : List Journey.Transport} {m : Fbs.Move}
    (h : m ∈ convertMoves transports) : ∃ t ∈ transports, moveRange m = toRange (range t) := by
  obtain ⟨t, ht, rfl⟩ := List.mem_map.mp h
  refine ⟨t, ht, ?_⟩
  cases t.isWalk <;> rfl

/-- Moves between stops that the range type of the message can number are read. -/
theorem decode_toConnection {j : Journey} (h : ∀ t ∈ j.transports, OnStops j (range t))
    (flag : Bool) : decode (toConnection j flag) = some (convert (toConnection j flag)) := by
  refine if_pos (List.all_eq_true.mpr fun m hm => ?_)
  obtain ⟨t, ht, hrange⟩ := moveRange_convertMoves hm
  have hstops : (toConnection j flag).stops.length = j.stops.length := List.length_map ..
  obtain ⟨⟨hfrom, hto⟩, -⟩ := h t ht
  rw [hrange, hstops, toRange_from (h t ht), toRange_to (h t ht), Bool.and_eq_true]
  exact ⟨decide_eq_true hfrom, decide_eq_true hto⟩

/-- Encoding, decoding and encoding again gives the message of the first time, when the ranges of
    the moves are stops with numbers below 2 ^ 15. -/
theorem encoding_stable (j : Journey) (h : ∀ t ∈ j.transports, OnStops j (range t)) (flag : Bool) :
    ∃ j', decode (toConnection j flag) = some j' ∧ toConnection j' flag = toConnection j flag :=
  ⟨_, decode_toConnection h flag, toConnection_convert j flag⟩

theorem encoding_stable_shuttle : ∃ j', decode (toConnection (shuttle .repair) false) = some j' ∧
    toConnection j' false = toConnection (shuttle .repair) false :=
  encoding_stable (shuttle .repair) (shuttle_encodable .repair).transports false

/-- Both ends of every range are stops of the journey. -/
structure ValidRanges (j : Journey) : Prop where
  transports : ∀ t ∈ j.transports, (range t).1 < j.stops.length ∧ (range t).2 < j.stops.length
  trips : ∀ t ∈ j.trips, (range t).1 < j.stops.length ∧ (range t).2 < j.stops.length
  attributes : ∀ a ∈ j.attributes, (range a).1 < j.stops.length ∧ (range a).2 < j.stops.length
  freeTexts : ∀ f ∈ j.freeTexts, (range f).1 < j.stops.length ∧ (range f).2 < j.stops.length
  problems : ∀ p ∈ j.problems, (range p).1 < j.stops.length ∧ (range p).2 < j.stops.length

/-- A train to stop 2 ^ 15, which is -2 ^ 15 in the message. -/
def longRide : Journey :=
  { stops := List.replicate (2 ^ 15 + 1) {}
    transports := [{ from_ := 0, to_ := 2 ^ 15 }] }

theorem longRide_validRanges : ValidRanges longRide where
  transports := by
    intro t ht
    obtain rfl := List.mem_singleton.mp ht
    rw [longRide, List.length_replicate]
    exact ⟨by decide, by decide⟩
  trips := nofun
  attributes := nofun
  freeTexts := nofun
  problems := nofun

theorem decode_longRide (flag : Bool) : decode (toConnection longRide flag) = none := by
  refine if_neg fun h => ?_
  have hstops : (toConnection longRide flag).stops.length = 2 ^ 15 + 1 := by
    rw [toConnection, convertStops, List.length_map, longRide, List.length_replicate]
  have hto := (Bool.and_eq_true _ _ ▸ List.all_eq_true.mp h _ (List.mem_cons_self ..)).2
  rw [hstops] at hto
  exact absurd (of_decide_eq_true hto) (by decide)

theorem not_encoding_stable_longRide : ¬∀ (j : Journey) (flag : Bool), ValidRanges j →
    ∃ j', decode (toConnection j flag) = some j' ∧ toConnection j' flag = toConnection j flag := by
  intro h
  obtain ⟨j', hj', -⟩ := h longRide true longRide_validRanges
  rw [decode_longRide] at hj'
  cases hj'

end Motis.JourneyMessage
