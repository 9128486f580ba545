import Mathlib.Data.List.Basic
import Mathlib.Data.Nat.Notation
import Mathlib.Tactic.Common

/-! Tables that are written row by row.

    The entry in row i and column j of a table with m columns stands at i * m + j. -/

namespace RowMajor

variable {α : Type}

def rowMajor (n m : ℕ) (f : ℕ → ℕ → α) : List α :=
  (List.range n).flatMap fun i => (List.range m).map (f i)

theorem getElem?_flatMap {l : List ℕ} {m : ℕ} {f : ℕ → List α} (h : ∀ a ∈ l, (f a).length = m)
    (i : ℕ) {j : ℕ} (hj : j < m) :
    (l.flatMap f)[i * m + j]? = (l[i]?).bind fun a => (f a)[j]? := by
  induction l generalizing i with
  | nil => simp
  | cons a l ih =>
    have hlength : (f a).length = m := h a (List.mem_cons_self ..)
    rw [List.flatMap_cons]
    cases i with
    | zero =>
      rw [Nat.zero_mul, Nat.zero_add, List.getElem?_append_left (by rwa [hlength])]
      rfl
    | succ i =>
      have hle : (f a).length ≤ (i + 1) * m + j := by
        rw [hlength, Nat.succ_mul]
        omega
      have hsub : (i + 1) * m + j - (f a).length = i * m + j := by
        rw [hlength, Nat.succ_mul]
        omega
      rw [List.getElem?_append_right hle, hsub, ih fun b hb => h b (List.mem_cons_of_mem a hb)]
      rfl

theorem getElem?_rowMajor {n m : ℕ} (f : ℕ → ℕ → α) {i j : ℕ} (hi : i < n) (hj : j < m) :
    (rowMajor n m f)[i * m + j]? = some (f i j) := by
  rw [rowMajor, getElem?_flatMap (fun a _ => by simp) i hj]
  simp [hi, hj]

end RowMajor
