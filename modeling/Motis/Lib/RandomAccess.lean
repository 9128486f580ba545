import Mathlib.Data.Int.Notation
import Mathlib.Data.Nat.Notation
import Mathlib.Order.Basic
import Mathlib.Tactic.Common

/-! Random access iterators.

    An iterator has a position, and every move is meant to change it by a signed distance. A run of
    moves is exact when the position is the start plus the sum of the distances after every move:

        position    s ── m₁ ──▶ s + d₁ ── m₂ ──▶ s + d₁ + d₂ ── … -/

namespace Motis.RandomAccess

/-- The operations that move an iterator; a difference is an `int`. -/
inductive Move where
  | increment
  | decrement
  | addAssign (n : Int32)
  | subAssign (n : Int32)
  | add (n : Int32)
  | sub (n : Int32)
  deriving DecidableEq, Repr

/-- How far the operation is meant to go. -/
def Move.distance : Move → ℤ
  | .increment => 1
  | .decrement => -1
  | .addAssign n | .add n => n.toInt
  | .subAssign n | .sub n => -n.toInt

/-- An implementation of the operations. -/
class Iterator (I : Type) where
  increment : I → I
  decrement : I → I
  addAssign : I → Int32 → I
  subAssign : I → Int32 → I
  add : I → Int32 → I
  sub : I → Int32 → I
  position : I → ℤ

export Iterator (position)

section Runs

variable {I : Type} [Iterator I]

def move (it : I) : Move → I
  | .increment => Iterator.increment it
  | .decrement => Iterator.decrement it
  | .addAssign n => Iterator.addAssign it n
  | .subAssign n => Iterator.subAssign it n
  | .add n => Iterator.add it n
  | .sub n => Iterator.sub it n

/-- The moves, meant to start at `p`, stay between `first` and `last`. -/
def Within (first last p : ℤ) : List Move → Prop
  | [] => first ≤ p ∧ p ≤ last
  | m :: ms => first ≤ p ∧ p ≤ last ∧ Within first last (p + m.distance) ms

/-- After every move, `it` is where the moves from `p` are meant to lead. -/
def Exact (it : I) (p : ℤ) : List Move → Prop
  | [] => position it = p
  | m :: ms => position it = p ∧ Exact (move it m) (p + m.distance) ms

/-- The positions that `++` visits. -/
def forward (it : I) : ℕ → List ℤ
  | 0 => []
  | n + 1 => position it :: forward (move it .increment) n

/-- The positions that the move visits, before each of which it is made. -/
def backward (m : Move) (it : I) : ℕ → List ℤ
  | 0 => []
  | n + 1 => position (move it m) :: backward m (move it m) n

/-- The moves of an implementation that go as far as they are meant to. -/
def Reaches (Right : Move → Prop) (first last : I) : Prop :=
  ∀ (it : I) (m : Move), position first ≤ position it + m.distance →
    position it + m.distance ≤ position last →
      (position (move it m) = position it + m.distance ↔ Right m)

variable {Right : Move → Prop} {first last : I}

theorem Within.head {a b p : ℤ} : ∀ {ms : List Move}, Within a b p ms → a ≤ p ∧ p ≤ b
  | [], h => h
  | _ :: _, h => ⟨h.1, h.2.1⟩

/-- A run within the bounds is exact if and only if all of its moves are right. -/
theorem exact_iff (hreaches : Reaches Right first last) : ∀ (ms : List Move) (it : I),
    Within (position first) (position last) (position it) ms →
      (Exact it (position it) ms ↔ ∀ m ∈ ms, Right m)
  | [], it, _ => iff_of_true rfl fun _ hm => absurd hm List.not_mem_nil
  | m :: ms, it, hwithin => by
    obtain ⟨-, -, hwithin⟩ := hwithin
    obtain ⟨hfirst, hlast⟩ := hwithin.head
    have hstep := hreaches it m hfirst hlast
    rw [List.forall_mem_cons]
    constructor
    · rintro ⟨-, hexact⟩
      have hposition : position (move it m) = position it + m.distance := by
        cases ms with
        | nil => exact hexact
        | cons m' ms => exact hexact.1
      rw [← hposition] at hwithin hexact
      exact ⟨hstep.mp hposition, (exact_iff hreaches ms _ hwithin).mp hexact⟩
    · rintro ⟨hm, hms⟩
      have hposition := hstep.mpr hm
      rw [← hposition] at hwithin
      refine ⟨rfl, ?_⟩
      rw [← hposition]
      exact (exact_iff hreaches ms _ hwithin).mpr hms

/-! ### Backwards -/

theorem forward_eq (hreaches : Reaches Right first last) (hinc : Right .increment) :
    ∀ (n : ℕ) (it : I), position first ≤ position it → position it + n ≤ position last →
      forward it n = (List.range n).map fun k : ℕ => position it + k
  | 0, _, _, _ => rfl
  | n + 1, it, hfirst, hlast => by
    have hposition : position (move it .increment) = position it + 1 := by
      refine (hreaches it .increment ?_ ?_).mpr hinc
      all_goals simp only [Move.distance]; omega
    have htail := forward_eq hreaches hinc n (move it .increment)
      (by rw [hposition]; omega) (by rw [hposition]; omega)
    rw [forward, htail, List.range_succ_eq_map, List.map_cons, List.map_map, hposition]
    congr 1
    · simp
    · refine List.map_congr_left fun k _ => ?_
      simp only [Function.comp_apply]
      omega

theorem backward_eq (hreaches : Reaches Right first last) {m : Move} (hm : Right m)
    (hdistance : m.distance = -1) : ∀ (n : ℕ) (it : I), position first ≤ position it - n →
      position it ≤ position last →
        backward m it n = (List.range n).map fun k : ℕ => position it - 1 - k
  | 0, _, _, _ => rfl
  | n + 1, it, hfirst, hlast => by
    have hposition : position (move it m) = position it - 1 := by
      have hstep := (hreaches it m (by omega) (by omega)).mpr hm
      rw [hstep, hdistance]
      rfl
    have htail := backward_eq hreaches hm hdistance n (move it m)
      (by rw [hposition]; omega) (by rw [hposition]; omega)
    rw [backward, htail, List.range_succ_eq_map, List.map_cons, List.map_map, hposition]
    congr 1
    · simp
    · refine List.map_congr_left fun k _ => ?_
      simp only [Function.comp_apply]
      omega

theorem reverse_map_range (n : ℕ) (p : ℤ) :
    ((List.range n).map fun k : ℕ => p + k).reverse =
      (List.range n).map fun k : ℕ => p + n - 1 - k := by
  refine List.ext_getElem (by simp) fun i hi _ => ?_
  have hi : i < n := by simpa using hi
  simp only [List.getElem_reverse, List.getElem_map, List.getElem_range, List.length_map,
    List.length_range]
  omega

/-- Walking back by a move visits the reverse of what `++` visits if and only if the move is right,
or there is nothing to visit. -/
theorem backward_iff (hreaches : Reaches Right first last) (hinc : Right .increment) {m : Move}
    (hdistance : m.distance = -1) {n : ℕ} (hn : position first + n = position last) :
    backward m last n = (forward first n).reverse ↔ Right m ∨ n = 0 := by
  rw [forward_eq hreaches hinc n first (Int.le_refl _) (by omega), reverse_map_range]
  constructor
  · intro heq
    cases n with
    | zero => exact Or.inr rfl
    | succ n =>
      left
      rw [backward, List.range_succ_eq_map, List.map_cons] at heq
      refine (hreaches last m (by omega) (by omega)).mp ?_
      rw [(List.cons.inj heq).1, hdistance]
      push_cast
      omega
  · rintro (hm | rfl)
    · rw [backward_eq hreaches hm hdistance n last (by omega) (Int.le_refl _), hn]
    · rfl

end Runs

end Motis.RandomAccess
