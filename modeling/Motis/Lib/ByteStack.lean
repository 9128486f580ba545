import Mathlib.Algebra.Order.Ring.Int
import Mathlib.Data.List.Infix
import Mathlib.Data.UInt
import Mathlib.Tactic.Common
import Mathlib.Tactic.Ring

/-! Stacks of bytes.

    A buffer that is filled from its end is a list of bytes that grows at the front. What was
    written keeps its distance from the end, however much is written before it:

        offset 7     offset 3
           ▼            ▼
        [ 04 00 00 00 | 61 62 00 ]

    Numbers are written in two's complement, least significant byte first. -/

namespace ByteStack

/-! ### Numbers -/

def leBytes : ℕ → ℕ → List UInt8
  | 0, _ => []
  | n + 1, v => UInt8.ofNat v :: leBytes n (v / 256)

def leValue : List UInt8 → ℕ
  | [] => 0
  | b :: bs => b.toNat + 256 * leValue bs

@[simp] theorem length_leBytes (n v : ℕ) : (leBytes n v).length = n := by
  induction n generalizing v with
  | zero => rfl
  | succ n ih => rw [leBytes, List.length_cons, ih]

theorem leValue_leBytes {n v : ℕ} (hv : v < 256 ^ n) : leValue (leBytes n v) = v := by
  induction n generalizing v with
  | zero =>
    rw [pow_zero] at hv
    rw [leBytes, leValue]
    omega
  | succ n ih =>
    have hdiv : v / 256 < 256 ^ n := Nat.div_lt_of_lt_mul (by rwa [pow_succ'] at hv)
    rw [leBytes, leValue, ih hdiv, UInt8.toNat_ofNat']
    omega

/-- The two's complement in `n` bytes. -/
def toBytes (n : ℕ) (x : ℤ) : List UInt8 := leBytes n (x % 256 ^ n).toNat

def ofBytes (bs : List UInt8) : ℤ :=
  let v : ℤ := leValue bs
  if 2 * v < 256 ^ bs.length then v else v - 256 ^ bs.length

/-- The numbers of `n` bytes. -/
def InRange (n : ℕ) (x : ℤ) : Prop := -256 ^ n ≤ 2 * x ∧ 2 * x < 256 ^ n

instance (n : ℕ) (x : ℤ) : Decidable (InRange n x) := inferInstanceAs (Decidable (_ ∧ _))

@[simp] theorem length_toBytes (n : ℕ) (x : ℤ) : (toBytes n x).length = n := length_leBytes _ _

@[simp] theorem ofBytes_toBytes {n : ℕ} {x : ℤ} (hx : InRange n x) :
    ofBytes (toBytes n x) = x := by
  obtain ⟨hlow, hhigh⟩ := hx
  have hpos : (0 : ℤ) < 256 ^ n := pow_pos (by decide) n
  have hmod := Int.emod_nonneg x hpos.ne'
  have hlt := Int.emod_lt_of_pos x hpos
  have hvalue : (leValue (toBytes n x) : ℤ) = x % 256 ^ n := by
    have hbound : (x % 256 ^ n).toNat < 256 ^ n := by
      rw [Int.toNat_lt hmod]
      exact_mod_cast hlt
    rw [toBytes, leValue_leBytes hbound, Int.toNat_of_nonneg hmod]
  rw [ofBytes, length_toBytes, hvalue]
  rcases lt_or_ge x 0 with hneg | hnonneg
  · have hshift : x % 256 ^ n = x + 256 ^ n := by
      rw [← Int.add_emod_right, Int.emod_eq_of_lt (by omega) (by omega)]
    rw [if_neg (by omega)]
    omega
  · rw [Int.emod_eq_of_lt hnonneg (by omega), if_pos hhigh]

/-! ### Offsets -/

variable {c c' bs bs' : List UInt8} {off : ℕ}

/-- The bytes at an offset from the end. -/
def Holds (c : List UInt8) (off : ℕ) (bs : List UInt8) : Prop :=
  ∃ later, bs ++ later <:+ c ∧ off = bs.length + later.length

theorem holds_push (bs c : List UInt8) : Holds (bs ++ c) (bs ++ c).length bs :=
  ⟨c, List.suffix_rfl, List.length_append⟩

/-- What is written before does not matter. -/
theorem Holds.mono (h : Holds c off bs) (hsuffix : c <:+ c') : Holds c' off bs := by
  obtain ⟨later, hlater, hoff⟩ := h
  exact ⟨later, hlater.trans hsuffix, hoff⟩

theorem Holds.left (h : Holds c off (bs ++ bs')) : Holds c off bs := by
  obtain ⟨later, hlater, hoff⟩ := h
  refine ⟨bs' ++ later, by rwa [← List.append_assoc], ?_⟩
  simp only [List.length_append] at hoff ⊢
  omega

theorem Holds.right (h : Holds c off (bs ++ bs')) : Holds c (off - bs.length) bs' := by
  obtain ⟨later, hlater, hoff⟩ := h
  rw [List.append_assoc] at hlater
  refine ⟨later, (List.suffix_append _ _).trans hlater, ?_⟩
  simp only [List.length_append] at hoff
  omega

theorem Holds.length_le (h : Holds c off bs) : bs.length ≤ off ∧ off ≤ c.length := by
  obtain ⟨later, hlater, hoff⟩ := h
  have hle := hlater.length_le
  rw [List.length_append] at hle
  omega

/-- `n` bytes from a position on; `none` outside of the buffer. -/
def bytesAt (c : List UInt8) (pos : ℤ) (n : ℕ) : Option (List UInt8) :=
  if 0 ≤ pos ∧ pos + n ≤ c.length then some ((c.drop pos.toNat).take n) else none

theorem Holds.drop (h : Holds c off bs) : (c.drop (c.length - off)).take bs.length = bs := by
  obtain ⟨later, ⟨earlier, rfl⟩, rfl⟩ := h
  have hlength : (earlier ++ (bs ++ later)).length - (bs.length + later.length) =
      earlier.length := by
    simp only [List.length_append]
    omega
  rw [hlength, List.drop_left, List.take_left]

theorem Holds.bytesAt (h : Holds c off bs) :
    bytesAt c (c.length - off : ℤ) bs.length = some bs := by
  obtain ⟨hbs, hoff⟩ := h.length_le
  have hpos : ((c.length : ℤ) - off).toNat = c.length - off := by omega
  rw [ByteStack.bytesAt, if_pos (by omega), hpos, h.drop]

/-- A part of what is held. -/
theorem Holds.part {as : List UInt8} (h : Holds c off (as ++ (bs ++ bs'))) :
    Holds c (off - as.length) bs := h.right.left

/-! ### Tables of numbers -/

/-- A table of numbers is read number by number. -/
theorem Holds.get {n : ℕ} {xs : List ℤ} (h : Holds c off (xs.flatMap (toBytes n))) {j : ℕ} {x : ℤ}
    (hj : xs[j]? = some x) : Holds c (off - n * j) (toBytes n x) := by
  induction xs generalizing off j with
  | nil => simp at hj
  | cons y xs ih =>
    rw [List.flatMap_cons] at h
    cases j with
    | zero =>
      obtain rfl : y = x := by simpa using hj
      exact h.left
    | succ j =>
      have hrest := ih h.right (by simpa using hj)
      have hoff : off - (toBytes n y).length - n * j = off - n * (j + 1) := by
        rw [length_toBytes, Nat.mul_succ]
        omega
      rwa [hoff] at hrest

@[simp] theorem length_flatMap_toBytes (n : ℕ) (xs : List ℤ) :
    (xs.flatMap (toBytes n)).length = n * xs.length := by
  induction xs with
  | nil => simp
  | cons x xs ih =>
    rw [List.flatMap_cons, List.length_append, length_toBytes, ih, List.length_cons]
    ring

end ByteStack
