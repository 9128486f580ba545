import Mathlib.Data.Nat.ModEq
import Mathlib.Tactic.Common

/-! A window of numbers that slides over a ring.

    From `first` on, numbers take the slots of a ring in turn, so that those of a window of `n` have
    different slots. A number that the window has left behind shares its slot with one of its
    successors in the window:

        slots       0    1    2    0    1    2    0
        numbers     4    5    6    7    8    9   10
                        └─────────────┘
                             window                    -/

namespace Ring

variable (n : ℕ) [NeZero n]

/-- The slot of a number, for a ring whose slot 0 is that of `first`. -/
def slot (first m : ℕ) : Fin n := Fin.ofNat n (m - first)

omit [NeZero n] in
/-- The number in the window from `low` on that has the slot of `m`. -/
def inWindow (low m : ℕ) : ℕ := if low ≤ m then m else m + n * ((low - m + (n - 1)) / n)

variable {n} {first low m a b : ℕ}

theorem slot_add_mul (h : first ≤ m) (k : ℕ) : slot n first (m + n * k) = slot n first m := by
  have hsub : m + n * k - first = m - first + n * k := by omega
  apply Fin.ext
  show (m + n * k - first) % n = (m - first) % n
  rw [hsub, Nat.add_mul_mod_self_left]

theorem slot_ne (h : first ≤ a) (hab : a < b) (hb : b < a + n) : slot n first a ≠ slot n first b := by
  intro heq
  have hmod : (a - first) % n = (b - first) % n := congrArg Fin.val heq
  have hdvd : n ∣ b - first - (a - first) :=
    (Nat.modEq_iff_dvd' (Nat.sub_le_sub_right hab.le first)).mp hmod
  have hle := Nat.le_of_dvd (by omega) hdvd
  omega

theorem slot_inWindow (h : first ≤ m) (low : ℕ) :
    slot n first (inWindow n low m) = slot n first m := by
  rw [inWindow]
  split
  · rfl
  · exact slot_add_mul h _

theorem le_inWindow : low ≤ inWindow n low m := by
  rw [inWindow]
  split
  · assumption
  · have hdiv := Nat.div_add_mod (low - m + (n - 1)) n
    have hmod := Nat.mod_lt (low - m + (n - 1)) (Nat.pos_of_neZero n)
    omega

theorem inWindow_lt (h : m < low + n) : inWindow n low m < low + n := by
  rw [inWindow]
  split
  · exact h
  · have hdiv := Nat.div_add_mod (low - m + (n - 1)) n
    have hn := Nat.pos_of_neZero n
    omega

end Ring
