import Mathlib.Data.Int.Notation
import Mathlib.Data.List.Basic
import Mathlib.Data.List.Induction
import Mathlib.Data.List.TakeWhile
import Mathlib.Data.Nat.Notation
import Mathlib.Logic.Function.Basic
import Mathlib.Order.Basic

/-! The database of parking lots.

    Lots are stored by id, and found again by the key their source gives them:

        osm_parking_lots       (type, id) ──▶ id ─┐
                                                  ├──▶ parking_lots
        parkendd_parking_lots  id ──────────▶ id ─┘

    A call of `add_parking_lots` is one transaction, but it draws its ids from a counter outside of
    the transaction: a call that fails leaves the tables as they were, and the counter advanced. -/

namespace Motis.Parking

inductive OsmType where | node | way | relation
  deriving DecidableEq, Repr

inductive FeeType where | unknown | no | yes
  deriving DecidableEq, Repr

structure OsmParkingLotInfo where
  osmId : ℤ
  osmType : OsmType
  fee : FeeType := .unknown
  deriving DecidableEq, Repr

structure ParkenddParkingLotInfo where
  id : String
  name : String
  lotType : String
  address : String
  deriving DecidableEq, Repr

inductive ParkingLotInfo where
  | osm (info : OsmParkingLotInfo)
  | parkendd (info : ParkenddParkingLotInfo)
  deriving DecidableEq, Repr

structure ParkingLot (Pos : Type) where
  /-- `int32_t`, whose overflow is undefined. -/
  id : ℤ := 0
  location : Pos
  info : ParkingLotInfo
  deriving DecidableEq, Repr

/-! ### Tables -/

/-- A table with integer keys, in their order; `put` replaces the value of a key that is there. -/
abbrev IntTable (α : Type) := List (ℤ × α)

def IntTable.put {α : Type} (t : IntTable α) (key : ℤ) (value : α) : IntTable α :=
  t.takeWhile (·.1 < key) ++ (key, value) :: (t.dropWhile (·.1 < key)).dropWhile (·.1 == key)

/-- `osm_parking_lots` and `parkendd_parking_lots`: the keys `n:1`, `w:1`, `r:1` and the ids of the
    API, each in its table. -/
inductive LotKey where
  | osm (type : OsmType) (id : ℤ)
  | parkendd (id : String)
  deriving DecidableEq, Repr

def ParkingLotInfo.key : ParkingLotInfo → LotKey
  | .osm info => .osm info.osmType info.osmId
  | .parkendd info => .parkendd info.id

structure LotTables (Pos : Type) where
  parkingLots : IntTable (ParkingLot Pos) := []
  lotIds : LotKey → Option ℤ := fun _ => none

variable {Pos : Type}

def LotTables.storeParkingLot (t : LotTables Pos) (lot : ParkingLot Pos) : LotTables Pos where
  parkingLots := t.parkingLots.put lot.id lot
  lotIds := Function.update t.lotIds lot.info.key (some lot.id)

/-- `highest_parking_lot_id_` after `init`: the last key. -/
def LotTables.highestId (t : LotTables Pos) : ℤ :=
  (t.parkingLots.getLast?.map (·.1)).getD 0

/-! ### add_parking_lots -/

/-- The state of the loop in `add_parking_lots`. -/
structure AddLots (Pos : Type) where
  txn : LotTables Pos
  highest : ℤ
  /-- The lots so far, with their ids. -/
  lots : List (ParkingLot Pos) := []
  addedIndices : List ℕ := []

def AddLots.add (s : AddLots Pos) (lot : ParkingLot Pos) : AddLots Pos :=
  match s.txn.lotIds lot.info.key with
  | some id => { s with lots := s.lots ++ [{ lot with id := id }] }
  | none =>
    let lot := { lot with id := s.highest + 1 }
    { txn := s.txn.storeParkingLot lot
      highest := s.highest + 1
      lots := s.lots ++ [lot]
      addedIndices := s.addedIndices ++ [s.lots.length] }

def addParkingLots (t : LotTables Pos) (highest : ℤ) (lots : List (ParkingLot Pos)) :
    AddLots Pos :=
  lots.foldl AddLots.add { txn := t, highest := highest }

/-- The lots at `added_indices`. -/
def AddLots.newLots (s : AddLots Pos) : List (ParkingLot Pos) :=
  s.addedIndices.filterMap (s.lots[·]?)

/-- How a call ends: with its commit, or with an exception after `processed` lots, thrown by the
    commit, by a lookup or, with `drawn`, by a `put` for a lot that has drawn its id. -/
inductive CallOutcome where
  | commit
  | throws (processed : ℕ) (drawn : Bool)
  deriving DecidableEq, Repr

/-- The counter an exception leaves behind. -/
def highestAfterThrow (t : LotTables Pos) (highest : ℤ) (lots : List (ParkingLot Pos))
    (processed : ℕ) (drawn : Bool) : ℤ :=
  let s := addParkingLots t highest (lots.take processed)
  match lots[processed]? with
  | some lot => if drawn && (s.txn.lotIds lot.info.key).isNone then s.highest + 1 else s.highest
  | none => s.highest

/-! ### What a call does -/

/-- A key above all others goes to the end. -/
theorem IntTable.put_of_gt {α : Type} {t : IntTable α} {key : ℤ} (h : ∀ e ∈ t, e.1 < key)
    (value : α) : t.put key value = t ++ [(key, value)] := by
  have htake : t.takeWhile (·.1 < key) = t :=
    List.takeWhile_eq_self_iff.mpr fun e he => decide_eq_true (h e he)
  have hdrop : t.dropWhile (·.1 < key) = [] :=
    List.dropWhile_eq_nil_iff.mpr fun e he => decide_eq_true (h e he)
  rw [IntTable.put, htake, hdrop, List.dropWhile_nil]

/-- After the lots `processed`, of which those in `fresh` were new. -/
structure Added (t : LotTables Pos) (highest : ℤ) (processed : List (ParkingLot Pos))
    (s : AddLots Pos) (fresh : List (ParkingLot Pos)) : Prop where
  parkingLots : s.txn.parkingLots = t.parkingLots ++ fresh.map fun lot => (lot.id, lot)
  freshIds : fresh.map (·.id) = (List.range fresh.length).map fun (i : ℕ) => highest + i + 1
  highest : s.highest = highest + fresh.length
  indices : ∀ i ∈ s.addedIndices, i < s.lots.length
  newLots : s.newLots = fresh
  kept : ∀ key id, t.lotIds key = some id → s.txn.lotIds key = some id
  keys : ∀ key id, s.txn.lotIds key = some id → t.lotIds key = some id ∨ id ∈ fresh.map (·.id)
  known : fresh = [] ↔ ∀ lot ∈ processed, t.lotIds lot.info.key ≠ none
  returned : ∀ lot ∈ s.lots, (∃ key, t.lotIds key = some lot.id) ∨ lot.id ∈ fresh.map (·.id)
  freshReturned : ∀ lot ∈ fresh, lot ∈ s.lots

variable {t : LotTables Pos} {highest : ℤ} {processed fresh : List (ParkingLot Pos)}
  {s : AddLots Pos}

/-- A new lot at the end does not move the lots at the indices before. -/
theorem filterMap_getElem?_append {α : Type} {l l' : List α} {indices : List ℕ}
    (h : ∀ i ∈ indices, i < l.length) :
    indices.filterMap ((l ++ l')[·]?) = indices.filterMap (l[·]?) :=
  List.filterMap_congr fun i hi => List.getElem?_append_left (h i hi)

/-- An id up to the old counter was there before. -/
theorem Added.lotIds_of_le (h : Added t highest processed s fresh) {key : LotKey} {id : ℤ}
    (hid : s.txn.lotIds key = some id) (hle : id ≤ highest) : t.lotIds key = some id := by
  refine (h.keys key id hid).resolve_right fun hfresh => ?_
  rw [h.freshIds] at hfresh
  obtain ⟨i, -, rfl⟩ := List.mem_map.mp hfresh
  omega

theorem Added.add_known (h : Added t highest processed s fresh) (lot : ParkingLot Pos)
    {id : ℤ} (hid : s.txn.lotIds lot.info.key = some id) :
    Added t highest (processed ++ [lot]) (s.add lot) fresh := by
  have hadd : s.add lot = { s with lots := s.lots ++ [{ lot with id := id }] } := by
    simp only [AddLots.add, hid]
  rw [hadd]
  refine
    { h with
      indices := fun i hi => ?_
      newLots := ?_
      known := ?_
      returned := fun lot' hlot' => ?_
      freshReturned := fun lot' hlot' => List.mem_append_left _ (h.freshReturned lot' hlot') }
  · rw [List.length_append]
    exact Nat.lt_add_right _ (h.indices i hi)
  · exact (filterMap_getElem?_append h.indices).trans h.newLots
  · rw [List.forall_mem_append, ← h.known, iff_self_and]
    rintro rfl
    rcases h.keys _ _ hid with ht | hfresh
    · simp [ht]
    · cases hfresh
  · rcases List.mem_append.mp hlot' with hlot' | hlot'
    · exact h.returned lot' hlot'
    · obtain rfl := List.mem_singleton.mp hlot'
      exact (h.keys _ _ hid).imp_left fun ht => ⟨_, ht⟩

theorem Added.add_new (h : Added t highest processed s fresh)
    (hhighest : ∀ e ∈ t.parkingLots, e.1 ≤ highest) (lot : ParkingLot Pos)
    (hid : s.txn.lotIds lot.info.key = none) :
    Added t highest (processed ++ [lot]) (s.add lot)
      (fresh ++ [{ lot with id := highest + fresh.length + 1 }]) := by
  have hadd : s.add lot =
      { txn := s.txn.storeParkingLot { lot with id := highest + fresh.length + 1 }
        highest := highest + fresh.length + 1
        lots := s.lots ++ [{ lot with id := highest + fresh.length + 1 }]
        addedIndices := s.addedIndices ++ [s.lots.length] } := by
    simp only [AddLots.add, hid, h.highest]
  have hfresh : ∀ id ∈ fresh.map (·.id), id < highest + fresh.length + 1 := by
    intro id hmem
    rw [h.freshIds] at hmem
    obtain ⟨i, hi, rfl⟩ := List.mem_map.mp hmem
    have := List.mem_range.mp hi
    omega
  rw [hadd]
  refine
    { parkingLots := ?_
      freshIds := ?_
      highest := by rw [List.length_append]; simp; omega
      indices := fun i hi => ?_
      newLots := ?_
      kept := fun key id hkey => ?_
      keys := fun key id hkey => ?_
      known := ?_
      returned := fun lot' hlot' => ?_
      freshReturned := fun lot' hlot' => ?_ }
  · change s.txn.parkingLots.put _ _ = _
    rw [IntTable.put_of_gt, h.parkingLots, List.map_append, List.append_assoc]
    · rfl
    · intro e he
      rw [h.parkingLots] at he
      rcases List.mem_append.mp he with he | he
      · have := hhighest e he
        dsimp only
        omega
      · obtain ⟨lot', hlot', rfl⟩ := List.mem_map.mp he
        exact hfresh _ (List.mem_map_of_mem hlot')
  · rw [List.map_append, h.freshIds, List.length_append, List.length_singleton, List.range_succ,
      List.map_append]
    rfl
  · rw [List.length_append, List.length_singleton]
    rcases List.mem_append.mp hi with hi | hi
    · exact Nat.lt_add_right _ (h.indices i hi)
    · obtain rfl := List.mem_singleton.mp hi
      exact Nat.lt_succ_self _
  · change (s.addedIndices ++ [s.lots.length]).filterMap ((s.lots ++ [_])[·]?) = _
    rw [List.filterMap_append, filterMap_getElem?_append h.indices]
    exact congrArg₂ _ h.newLots (by simp)
  · have hne : key ≠ lot.info.key := by
      rintro rfl
      rw [h.kept _ _ hkey] at hid
      cases hid
    change Function.update _ _ _ _ = _
    rw [Function.update_of_ne hne]
    exact h.kept key id hkey
  · change Function.update s.txn.lotIds lot.info.key _ key = _ at hkey
    rw [List.map_append]
    by_cases hkey' : key = lot.info.key
    · rw [hkey', Function.update_self] at hkey
      obtain rfl := Option.some.inj hkey
      exact .inr (List.mem_append_right _ (List.mem_singleton_self _))
    · rw [Function.update_of_ne hkey'] at hkey
      exact (h.keys key id hkey).imp_right (List.mem_append_left _)
  · refine iff_of_false (by simp) fun hall => ?_
    cases ht : t.lotIds lot.info.key with
    | none => exact hall lot (by simp) ht
    | some id =>
      rw [h.kept _ _ ht] at hid
      cases hid
  · rw [List.map_append]
    rcases List.mem_append.mp hlot' with hlot' | hlot'
    · exact (h.returned lot' hlot').imp_right (List.mem_append_left _)
    · obtain rfl := List.mem_singleton.mp hlot'
      exact .inr (List.mem_append_right _ (List.mem_singleton_self _))
  · rcases List.mem_append.mp hlot' with hlot' | hlot'
    · exact List.mem_append_left _ (h.freshReturned lot' hlot')
    · exact List.mem_append_right _ hlot'

/-- What a call stores, returns and counts. -/
theorem added_addParkingLots (hhighest : ∀ e ∈ t.parkingLots, e.1 ≤ highest)
    (lots : List (ParkingLot Pos)) :
    ∃ fresh, Added t highest lots (addParkingLots t highest lots) fresh := by
  induction lots using List.reverseRecOn with
  | nil =>
    exact ⟨[], (List.append_nil _).symm, rfl, by simp [addParkingLots], by simp [addParkingLots], rfl,
      fun _ _ h => h, fun _ _ h => .inl h, by simp, by simp [addParkingLots], by simp⟩
  | append_singleton lots lot ih =>
    obtain ⟨fresh, h⟩ := ih
    rw [addParkingLots, List.foldl_append]
    cases hid : (addParkingLots t highest lots).txn.lotIds lot.info.key with
    | some id => exact ⟨_, h.add_known lot hid⟩
    | none => exact ⟨_, h.add_new hhighest lot hid⟩

/-- Ids belong to one key each, and are not above the counter. -/
structure IdsOk (t : LotTables Pos) (highest : ℤ) : Prop where
  le : ∀ key id, t.lotIds key = some id → id ≤ highest
  inj : ∀ key key' id, t.lotIds key = some id → t.lotIds key' = some id → key = key'
  tables_le : ∀ e ∈ t.parkingLots, e.1 ≤ highest
  highestId : t.highestId = highest

theorem IdsOk.add (h : IdsOk s.txn s.highest) (lot : ParkingLot Pos) :
    IdsOk (s.add lot).txn (s.add lot).highest := by
  cases hid : s.txn.lotIds lot.info.key with
  | some id => simpa only [AddLots.add, hid] using h
  | none =>
    have hput : s.txn.parkingLots.put (s.highest + 1) { lot with id := s.highest + 1 } =
        s.txn.parkingLots ++ [(s.highest + 1, { lot with id := s.highest + 1 })] :=
      IntTable.put_of_gt (fun e he => Int.lt_add_one_of_le (h.tables_le e he)) _
    have hkey : ∀ key id,
        Function.update s.txn.lotIds lot.info.key (some (s.highest + 1)) key = some id →
          (key = lot.info.key ∧ id = s.highest + 1) ∨ s.txn.lotIds key = some id := by
      intro key id hkey
      by_cases hne : key = lot.info.key
      · rw [hne, Function.update_self] at hkey
        exact .inl ⟨hne, (Option.some.inj hkey).symm⟩
      · rw [Function.update_of_ne hne] at hkey
        exact .inr hkey
    simp only [AddLots.add, hid, LotTables.storeParkingLot]
    refine
      { le := fun key id hid' => ?_
        inj := fun key key' id h₁ h₂ => ?_
        tables_le := fun e he => ?_
        highestId := ?_ }
    · rcases hkey key id hid' with ⟨-, rfl⟩ | hold
      · exact Int.le_refl _
      · have := h.le key id hold
        omega
    · rcases hkey key id h₁ with ⟨rfl, rfl⟩ | hold
      · rcases hkey key' _ h₂ with ⟨rfl, -⟩ | hold'
        · rfl
        · have := h.le _ _ hold'
          omega
      · rcases hkey key' id h₂ with ⟨rfl, rfl⟩ | hold'
        · have := h.le _ _ hold
          omega
        · exact h.inj key key' id hold hold'
    · rw [hput] at he
      rcases List.mem_append.mp he with he | he
      · have := h.tables_le e he
        omega
      · obtain rfl := List.mem_singleton.mp he
        exact Int.le_refl _
    · rw [LotTables.highestId, hput, List.getLast?_concat]
      rfl

theorem IdsOk.addParkingLots (h : IdsOk t highest) (lots : List (ParkingLot Pos)) :
    IdsOk (addParkingLots t highest lots).txn (addParkingLots t highest lots).highest := by
  induction lots using List.reverseRecOn with
  | nil => exact h
  | append_singleton lots lot ih =>
    rw [Parking.addParkingLots, List.foldl_append]
    exact ih.add lot

/-- Each lot is returned with the id its key has afterwards. -/
structure Returned (lots : List (ParkingLot Pos)) (s : AddLots Pos) : Prop where
  mem : ∀ pl ∈ s.lots, ∃ lot ∈ lots,
    s.txn.lotIds lot.info.key = some pl.id ∧ pl = { lot with id := pl.id }
  exists_id : ∀ lot ∈ lots, ∃ id,
    s.txn.lotIds lot.info.key = some id ∧ { lot with id := id } ∈ s.lots

theorem AddLots.lotIds_add {key : LotKey} {id : ℤ} (h : s.txn.lotIds key = some id)
    (lot : ParkingLot Pos) : (s.add lot).txn.lotIds key = some id := by
  cases hid : s.txn.lotIds lot.info.key with
  | some id' => simpa only [AddLots.add, hid] using h
  | none =>
    have hne : key ≠ lot.info.key := by
      rintro rfl
      rw [h] at hid
      cases hid
    simp only [AddLots.add, hid, LotTables.storeParkingLot]
    rwa [Function.update_of_ne hne]

theorem Returned.add {lots : List (ParkingLot Pos)} (h : Returned lots s) (lot : ParkingLot Pos) :
    Returned (lots ++ [lot]) (s.add lot) := by
  have hlot : ∃ id, (s.add lot).txn.lotIds lot.info.key = some id ∧
      (s.add lot).lots = s.lots ++ [{ lot with id := id }] := by
    cases hid : s.txn.lotIds lot.info.key with
    | some id =>
      simp only [AddLots.add, hid]
      exact ⟨id, rfl, rfl⟩
    | none =>
      simp only [AddLots.add, hid, LotTables.storeParkingLot]
      exact ⟨s.highest + 1, Function.update_self .., rfl⟩
  obtain ⟨id, hid, hlots⟩ := hlot
  refine ⟨fun pl hpl => ?_, fun lot' hlot' => ?_⟩
  · rw [hlots] at hpl
    rcases List.mem_append.mp hpl with hpl | hpl
    · obtain ⟨lot', hmem, hid', heq⟩ := h.mem pl hpl
      exact ⟨lot', List.mem_append_left _ hmem, AddLots.lotIds_add hid' lot, heq⟩
    · obtain rfl := List.mem_singleton.mp hpl
      exact ⟨lot, List.mem_append_right _ (List.mem_singleton_self _), hid, rfl⟩
  · rw [hlots]
    rcases List.mem_append.mp hlot' with hlot' | hlot'
    · obtain ⟨id', hid', hmem⟩ := h.exists_id lot' hlot'
      exact ⟨id', AddLots.lotIds_add hid' lot, List.mem_append_left _ hmem⟩
    · obtain rfl := List.mem_singleton.mp hlot'
      exact ⟨id, hid, List.mem_append_right _ (List.mem_singleton_self _)⟩

theorem returned_addParkingLots (t : LotTables Pos) (highest : ℤ) (lots : List (ParkingLot Pos)) :
    Returned lots (addParkingLots t highest lots) := by
  induction lots using List.reverseRecOn with
  | nil => exact ⟨by simp [addParkingLots], by simp⟩
  | append_singleton lots lot ih =>
    rw [addParkingLots, List.foldl_append]
    exact ih.add lot

/-- A call that throws has not moved the counter back. -/
theorem le_highestAfterThrow (hhighest : ∀ e ∈ t.parkingLots, e.1 ≤ highest)
    (lots : List (ParkingLot Pos)) (processed : ℕ) (drawn : Bool) :
    highest ≤ highestAfterThrow t highest lots processed drawn := by
  obtain ⟨fresh, h⟩ := added_addParkingLots hhighest (lots.take processed)
  have hle : highest ≤ (addParkingLots t highest (lots.take processed)).highest := by
    rw [h.highest]
    omega
  simp only [highestAfterThrow]
  split
  · split
    · omega
    · exact hle
  · exact hle

end Motis.Parking
