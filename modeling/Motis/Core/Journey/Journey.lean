import Mathlib.Tactic.Common

/-! The journey: what the modules of the system hand to each other.

    A journey is a list of stops and several lists of ranges over it: the transports, the trips, the
    attributes, the free texts and the problems. A range `[from_, to_]` names its first and its last
    stop; section `s` lies between the stops `s` and `s + 1`.

    Indices of stops are natural numbers; the other integers have the width of the source.
    `unixtime` is `int64_t`, and a `double` is its bit pattern. -/

namespace Motis

abbrev Unixtime := Int64

/-- Coordinates are only copied, never computed with. -/
abbrev Double := UInt64

inductive TimestampReason where
  | repair | is | schedule | propagation | forecast
  deriving DecidableEq, Repr, Inhabited

structure Attribute where
  code : String := ""
  text : String := ""
  deriving DecidableEq, Repr

structure FreeText where
  code : Int32 := 0
  text : String := ""
  type : String := ""
  deriving DecidableEq, Repr

structure ExternTrip where
  id : String := ""
  stationId : String := ""
  trainNr : UInt32 := 0
  time : Unixtime := 0
  targetStationId : String := ""
  targetTime : Unixtime := 0
  lineId : String := ""
  deriving DecidableEq, Repr

namespace Journey

inductive ConnectionStatus where
  | ok | interchangeInvalid | trainHasBeenCanceled | invalid
  deriving DecidableEq, Repr

inductive ProblemType where
  | noProblem | interchangeTimeViolated | canceledTrain
  deriving DecidableEq, Repr

structure Transport where
  from_ : ℕ := 0
  to_ : ℕ := 0
  isWalk : Bool := false
  name : String := ""
  clasz : UInt32 := 0
  lineIdentifier : String := ""
  duration : UInt32 := 0
  mumoId : Int32 := 0
  direction : String := ""
  provider : String := ""
  providerUrl : String := ""
  mumoPrice : UInt32 := 0
  mumoAccessibility : UInt32 := 0
  mumoType : String := ""
  routeColor : UInt32 := 0
  routeTextColor : UInt32 := 0
  deriving DecidableEq, Repr, Inhabited

structure Trip where
  from_ : ℕ := 0
  to_ : ℕ := 0
  externTrip : ExternTrip := {}
  debug : String := ""
  deriving DecidableEq, Repr

structure EventInfo where
  valid : Bool := false
  timestamp : Unixtime := 0
  scheduleTimestamp : Unixtime := 0
  timestampReason : TimestampReason := .schedule
  track : String := ""
  scheduleTrack : String := ""
  deriving DecidableEq, Repr

structure Stop where
  exit : Bool := false
  enter : Bool := false
  name : String := ""
  evaNo : String := ""
  lat : Double := 0
  lng : Double := 0
  arrival : EventInfo := {}
  departure : EventInfo := {}
  deriving DecidableEq, Repr

structure RangedAttribute where
  from_ : ℕ := 0
  to_ : ℕ := 0
  attr : Attribute := {}
  deriving DecidableEq, Repr

structure RangedFreeText where
  from_ : ℕ := 0
  to_ : ℕ := 0
  text : FreeText := {}
  deriving DecidableEq, Repr

structure Problem where
  type : ProblemType := .noProblem
  from_ : ℕ := 0
  to_ : ℕ := 0
  deriving DecidableEq, Repr

end Journey

structure Journey where
  duration : UInt32 := 0
  transfers : UInt32 := 0
  price : UInt32 := 0
  accessibility : UInt32 := 0
  stops : List Journey.Stop := []
  transports : List Journey.Transport := []
  trips : List Journey.Trip := []
  attributes : List Journey.RangedAttribute := []
  status : Journey.ConnectionStatus := .ok
  freeTexts : List Journey.RangedFreeText := []
  problems : List Journey.Problem := []
  nightPenalty : UInt32 := 0
  dbCosts : UInt32 := 0
  deriving DecidableEq, Repr

/-! ### Ranges -/

/-- A value that refers to a range of stops. -/
class Ranged (α : Type) where
  range : α → ℕ × ℕ
  setRange : α → ℕ × ℕ → α
  range_setRange : ∀ a r, range (setRange a r) = r
  setRange_setRange : ∀ a r r', setRange (setRange a r) r' = setRange a r'
  setRange_range : ∀ a, setRange a (range a) = a

open Ranged (range setRange)

attribute [simp] Ranged.range_setRange Ranged.setRange_setRange Ranged.setRange_range

namespace Journey

instance : Ranged Transport :=
  ⟨fun t => (t.from_, t.to_), fun t r => { t with from_ := r.1, to_ := r.2 },
    fun _ _ => rfl, fun _ _ _ => rfl, fun _ => rfl⟩

instance : Ranged Trip :=
  ⟨fun t => (t.from_, t.to_), fun t r => { t with from_ := r.1, to_ := r.2 },
    fun _ _ => rfl, fun _ _ _ => rfl, fun _ => rfl⟩

instance : Ranged RangedAttribute :=
  ⟨fun t => (t.from_, t.to_), fun t r => { t with from_ := r.1, to_ := r.2 },
    fun _ _ => rfl, fun _ _ _ => rfl, fun _ => rfl⟩

instance : Ranged RangedFreeText :=
  ⟨fun t => (t.from_, t.to_), fun t r => { t with from_ := r.1, to_ := r.2 },
    fun _ _ => rfl, fun _ _ _ => rfl, fun _ => rfl⟩

instance : Ranged Problem :=
  ⟨fun t => (t.from_, t.to_), fun t r => { t with from_ := r.1, to_ := r.2 },
    fun _ _ => rfl, fun _ _ _ => rfl, fun _ => rfl⟩

end Journey

/-- The value with both ends of its range renumbered. -/
def renumber {α : Type} [Ranged α] (f : ℕ → ℕ) (a : α) : α := setRange a ((range a).map f f)

@[simp] theorem range_renumber {α : Type} [Ranged α] (f : ℕ → ℕ) (a : α) :
    range (renumber f a) = (range a).map f f := by
  simp [renumber]

theorem renumber_renumber {α : Type} [Ranged α] (f g : ℕ → ℕ) (a : α) :
    renumber g (renumber f a) = renumber (g ∘ f) a := by
  simp [renumber, Prod.map]

theorem renumber_id {α : Type} [Ranged α] : renumber id = (id : α → α) := by
  funext a
  simp [renumber]

end Motis
