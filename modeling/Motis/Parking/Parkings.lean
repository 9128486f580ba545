import Motis.Lib.Runs
import Motis.Parking.Database

/-! The parking lots in memory, looked up by their ids.

    The list is read from the database when it is opened, and extended by what each call of
    `add_parking_lots` stores; a lot is looked up at the position before its id:

        parkings_   [ lot 1 | lot 2 | lot 3 ]      get_parking(2) = parkings_[1]

    Ids that a failed call has drawn are lost until the next opening: the lots stored in between
    are found at the ids before their own. -/

namespace Motis.Parking
open Runs

structure Parkings (Pos : Type) where
  tables : LotTables Pos := {}
  highest : ℤ := 0
  parkings : List (ParkingLot Pos) := []
  parkenddIds : String → Option ℤ := fun _ => none
  /-- The ids that calls have returned. -/
  handedOut : List ℤ := []

inductive ParkingsEvent (Pos : Type) where
  /-- Opening the database, and the list of its lots. -/
  | open
  | addParkingLots (lots : List (ParkingLot Pos)) (outcome : CallOutcome)

variable {Pos : Type}

/-- `parkendd_id_to_parking_lot_id_` with the ids of the lots. -/
def recordParkendd (ids : String → Option ℤ) (lots : List (ParkingLot Pos)) : String → Option ℤ :=
  lots.foldl (fun ids lot =>
    match lot.info with
    | .osm _ => ids
    | .parkendd info => Function.update ids info.id (some lot.id)) ids

def Parkings.addParkings (s : Parkings Pos) (lots : List (ParkingLot Pos)) : Parkings Pos :=
  { s with
    parkings := s.parkings ++ lots
    parkenddIds := recordParkendd s.parkenddIds lots }

def Parkings.getParking (s : Parkings Pos) (id : ℤ) : Option (ParkingLot Pos) :=
  if 0 < id ∧ id ≤ s.parkings.length then s.parkings[(id - 1).toNat]? else none

def Parkings.handle (s : Parkings Pos) : ParkingsEvent Pos → Parkings Pos
  | .open =>
    let lots := s.tables.parkingLots.map (·.2)
    { s with
      highest := s.tables.highestId
      parkings := lots
      parkenddIds := recordParkendd (fun _ => none) lots }
  | .addParkingLots lots .commit =>
    let r := Parking.addParkingLots s.tables s.highest lots
    { s.addParkings r.newLots with
      tables := r.txn
      highest := r.highest
      handedOut := s.handedOut ++ r.lots.map (·.id) }
  | .addParkingLots lots (.throws processed drawn) =>
    { s with highest := highestAfterThrow s.tables s.highest lots processed drawn }

def parkingRuns (Pos : Type) : System (Parkings Pos) (ParkingsEvent Pos) where
  enabled := fun _ _ => True
  step := Parkings.handle

/-- The lot at position `i` has the id `i + 1`, and ids and lots belong together. -/
structure DenseIds (s : Parkings Pos) : Prop where
  position : ∀ (i : ℕ) (lot : ParkingLot Pos), s.parkings[i]? = some lot → lot.id = i + 1
  stored : ∀ e ∈ s.tables.parkingLots, e.2 ∈ s.parkings
  found : ∀ id ∈ s.handedOut, ∃ lot, s.getParking id = some lot ∧ lot.id = id
  missing : ∀ id, id ∉ s.handedOut → s.getParking id = none

/-- A call that stores new lots finds the counter at the number of lots. -/
def CounterKept (s : Parkings Pos) : ParkingsEvent Pos → Prop
  | .addParkingLots lots .commit =>
    (∃ lot ∈ lots, s.tables.lotIds lot.info.key = none) →
      s.highest = s.tables.parkingLots.length
  | _ => True

/-! ### The invariant -/

structure Sound (s : Parkings Pos) : Prop where
  stored : s.tables.parkingLots = s.parkings.map fun lot => (lot.id, lot)
  dense : s.parkings.map (·.id) = (List.range s.parkings.length).map fun (i : ℕ) => (i : ℤ) + 1
  highest : (s.parkings.length : ℤ) ≤ s.highest
  keys : ∀ key id, s.tables.lotIds key = some id → id ∈ s.parkings.map (·.id)
  handed : ∀ id, id ∈ s.handedOut ↔ id ∈ s.parkings.map (·.id)

variable {s : Parkings Pos}

theorem Sound.mem_ids (h : Sound s) (id : ℤ) :
    id ∈ s.parkings.map (·.id) ↔ 0 < id ∧ id ≤ s.parkings.length := by
  rw [h.dense, List.mem_map]
  constructor
  · rintro ⟨i, hi, rfl⟩
    have := List.mem_range.mp hi
    omega
  · rintro ⟨hpos, hle⟩
    exact ⟨(id - 1).toNat, List.mem_range.mpr (by omega), by omega⟩

theorem Sound.id_at (h : Sound s) {i : ℕ} {lot : ParkingLot Pos} (hlot : s.parkings[i]? = some lot) :
    lot.id = i + 1 := by
  have hid : (s.parkings.map (·.id))[i]? = some lot.id := by rw [List.getElem?_map, hlot]; rfl
  have hi : i < s.parkings.length := (List.getElem?_eq_some_iff.mp hlot).1
  rw [h.dense, List.getElem?_map, List.getElem?_range hi] at hid
  exact (Option.some.inj hid).symm

theorem Sound.denseIds (h : Sound s) : DenseIds s where
  position _ _ hlot := h.id_at hlot
  stored e he := by
    rw [h.stored] at he
    obtain ⟨lot, hlot, rfl⟩ := List.mem_map.mp he
    exact hlot
  found id hid := by
    have hbounds := (h.mem_ids id).mp ((h.handed id).mp hid)
    have hi : (id - 1).toNat < s.parkings.length := by omega
    refine ⟨s.parkings[(id - 1).toNat], ?_, ?_⟩
    · rw [Parkings.getParking, if_pos hbounds]
      exact List.getElem?_eq_getElem hi
    · rw [h.id_at (List.getElem?_eq_getElem hi)]
      omega
  missing id hid := if_neg fun hbounds => hid ((h.handed id).mpr ((h.mem_ids id).mpr hbounds))

theorem sound_init : Sound ({} : Parkings Pos) where
  stored := rfl
  dense := rfl
  highest := Int.le_refl 0
  keys _ _ h := nomatch h
  handed _ := by simp

/-! ### Steps -/

theorem Sound.tables_le (h : Sound s) : ∀ e ∈ s.tables.parkingLots, e.1 ≤ s.highest := by
  intro e he
  rw [h.stored] at he
  obtain ⟨lot, hlot, rfl⟩ := List.mem_map.mp he
  exact Int.le_trans ((h.mem_ids _).mp (List.mem_map_of_mem hlot)).2 h.highest

theorem Sound.highestId (h : Sound s) : s.tables.highestId = s.parkings.length := by
  rw [LotTables.highestId, h.stored, List.getLast?_map, Option.map_map]
  cases hlast : s.parkings.getLast? with
  | none => simp [List.getLast?_eq_none_iff.mp hlast]
  | some lot =>
    have hid : lot.id = (s.parkings.length - 1 : ℕ) + 1 :=
      h.id_at (List.getLast?_eq_getElem? ▸ hlast)
    have hpos := List.length_pos_of_mem (List.mem_of_getLast? hlast)
    change lot.id = _
    omega

theorem Sound.open (h : Sound s) : Sound (s.handle .open) := by
  have hlots : s.tables.parkingLots.map (·.2) = s.parkings := by
    rw [h.stored, List.map_map]
    exact List.map_id _
  have hhighest := h.highestId
  simp only [Parkings.handle, hlots]
  exact { h with highest := Int.le_of_eq hhighest.symm }

/-- A call either stores nothing new, or goes on from the number of lots. -/
theorem CounterKept.cases (h : Sound s) {lots fresh : List (ParkingLot Pos)} {r : AddLots Pos}
    (hcounter : CounterKept s (.addParkingLots lots .commit))
    (hadded : Added s.tables s.highest lots r fresh) :
    fresh = [] ∨ s.highest = s.parkings.length := by
  by_cases hfresh : fresh = []
  · exact .inl hfresh
  · have hlength : s.tables.parkingLots.length = s.parkings.length := by
      rw [h.stored, List.length_map]
    rw [hadded.known] at hfresh
    simp only [not_forall, not_not] at hfresh
    obtain ⟨lot, hlot, hnone⟩ := hfresh
    exact .inr (hlength ▸ hcounter ⟨lot, hlot, hnone⟩)

theorem Sound.commit (h : Sound s) {lots : List (ParkingLot Pos)}
    (hcounter : CounterKept s (.addParkingLots lots .commit)) :
    Sound (s.handle (.addParkingLots lots .commit)) := by
  obtain ⟨fresh, hadded⟩ := added_addParkingLots h.tables_le lots
  have hcase := hcounter.cases h hadded
  simp only [Parkings.handle, Parkings.addParkings, hadded.newLots]
  refine
    { stored := ?_
      dense := ?_
      highest := ?_
      keys := fun key id hid => ?_
      handed := fun id => ?_ }
  · change (Parking.addParkingLots _ _ _).txn.parkingLots = _
    rw [hadded.parkingLots, h.stored, List.map_append]
  · rw [List.map_append, h.dense, hadded.freshIds, List.length_append, List.range_add,
      List.map_append, List.map_map]
    rcases hcase with rfl | hhighest
    · rfl
    · congr 1
      refine List.map_congr_left fun i _ => ?_
      dsimp only [Function.comp]
      omega
  · change _ ≤ (Parking.addParkingLots _ _ _).highest
    have hle := h.highest
    rw [hadded.highest]
    dsimp only
    rw [List.length_append]
    omega
  · rw [List.map_append]
    rcases hadded.keys key id hid with hid | hid
    · exact List.mem_append_left _ (h.keys key id hid)
    · exact List.mem_append_right _ hid
  · dsimp only
    rw [List.mem_append, List.map_append, List.mem_append, h.handed]
    constructor
    · rintro (hid | hid)
      · exact .inl hid
      · obtain ⟨lot, hlot, rfl⟩ := List.mem_map.mp hid
        rcases hadded.returned lot hlot with ⟨key, hkey⟩ | hfresh
        · exact .inl (h.keys key _ hkey)
        · exact .inr hfresh
    · rintro (hid | hid)
      · exact .inl hid
      · obtain ⟨lot, hlot, rfl⟩ := List.mem_map.mp hid
        exact .inr (List.mem_map_of_mem (hadded.freshReturned lot hlot))

theorem Sound.throws (h : Sound s) (lots : List (ParkingLot Pos)) (processed : ℕ) (drawn : Bool) :
    Sound (s.handle (.addParkingLots lots (.throws processed drawn))) :=
  { h with
    highest := Int.le_trans h.highest (le_highestAfterThrow h.tables_le lots processed drawn) }

theorem Sound.step (h : Sound s) {e : ParkingsEvent Pos} (hcounter : CounterKept s e) :
    Sound (s.handle e) := by
  cases e with
  | «open» => exact h.open
  | addParkingLots lots outcome =>
    cases outcome with
    | commit => exact h.commit hcounter
    | throws processed drawn => exact h.throws lots processed drawn

/-- A lot stored past the end of the list has the wrong id for its position. -/
theorem Sound.counterKept (h : Sound s) {e : ParkingsEvent Pos} (hdense : DenseIds (s.handle e)) :
    CounterKept s e := by
  cases e with
  | «open» => trivial
  | addParkingLots lots outcome =>
    cases outcome with
    | throws processed drawn => trivial
    | commit =>
      rintro ⟨lot, hlot, hnone⟩
      obtain ⟨fresh, hadded⟩ := added_addParkingLots h.tables_le lots
      have hposition := hdense.position
      simp only [Parkings.handle, Parkings.addParkings, hadded.newLots] at hposition
      cases fresh with
      | nil => exact absurd hnone (hadded.known.mp rfl lot hlot)
      | cons new fresh =>
        have hid : new.id = s.highest + 1 := by
          have hids := hadded.freshIds
          rw [List.map_cons, List.length_cons, List.range_succ_eq_map, List.map_cons,
            List.cons.injEq] at hids
          simpa using hids.1
        have hnew : new.id = s.parkings.length + 1 :=
          hposition s.parkings.length new (by simp)
        have hlength : s.tables.parkingLots.length = s.parkings.length := by
          rw [h.stored, List.length_map]
        omega

/-! ### Runs -/

/-- CORRECT: in a run of openings and calls, failed ones among them, the lot at position `i` has the
    id `i + 1` and every id finds its lot, if and only if each call that stores new lots finds the
    counter at the number of lots. -/
theorem denseIds_iff_counterKept (es : List (ParkingsEvent Pos)) :
    Always (parkingRuns Pos) DenseIds {} es ↔ Each (parkingRuns Pos) CounterKept {} es :=
  always_iff_each (I := Sound) (fun _ _ h _ => h.step) (fun _ h => h.denseIds)
    (fun _ _ h _ => h.counterKept) sound_init (feasible_of_enabled fun _ _ => trivial)

/-- A lot of the API. -/
def exampleLot : ParkingLot Unit where
  location := ()
  info := .parkendd { id := "p1", name := "P1", lotType := "", address := "" }

/-- The commit of the first call fails; the second call stores the lot with the id 2. -/
theorem failed_commit_shifts_ids :
    ¬ Always (parkingRuns Unit) DenseIds {}
      [.open, .addParkingLots [exampleLot] (.throws 1 false),
        .addParkingLots [exampleLot] .commit] := by
  intro h
  have hid : (2 : ℤ) = (0 : ℕ) + 1 := h.last.position 0 { exampleLot with id := 2 } rfl
  omega

end Motis.Parking
