import Mathlib.Data.List.Basic
import Mathlib.Tactic.Common

/-! A flat store of slots and the slices cut out of it.

    `slice data b s` is the window of `s` slots from slot `b` on; `overwrite data a xs` writes the
    values `xs` to the slots from `a` on. Copying and moving blocks of memory, filling a range and
    constructing one element in place are all overwrites, so two facts carry every frame argument:
    an overwrite outside a window leaves the window alone, and one inside it is an overwrite of the
    window. `resize` grows or cuts the store at its end. -/

namespace Slots

variable {α : Type*}

/-- The window of `s` slots from slot `b` on. -/
def slice (data : List α) (b s : ℕ) : List α := (data.drop b).take s

/-- Write `xs` to the slots from `a` on. -/
def overwrite (data : List α) (a : ℕ) (xs : List α) : List α :=
  data.take a ++ xs ++ data.drop (a + xs.length)

/-- Cut the store to `n` slots or pad it with `v` up to `n` slots. -/
def resize (data : List α) (n : ℕ) (v : α) : List α :=
  data.take n ++ List.replicate (n - data.length) v

/-- Exchange two slots. -/
def swap (data : List α) (i j : ℕ) : List α :=
  match data[i]?, data[j]? with
  | some a, some b => (data.set i b).set j a
  | _, _ => data

theorem getElem?_slice (data : List α) (b s k : ℕ) :
    (slice data b s)[k]? = if k < s then data[b + k]? else none := by
  simp [slice, List.getElem?_take, List.getElem?_drop]

theorem length_slice {data : List α} {b s : ℕ} (h : b + s ≤ data.length) :
    (slice data b s).length = s := by
  simp [slice]; omega

@[simp] theorem slice_zero (data : List α) (b : ℕ) : slice data b 0 = [] := by simp [slice]

theorem take_slice (data : List α) (b : ℕ) {s n : ℕ} (h : n ≤ s) :
    (slice data b s).take n = slice data b n := by
  simp [slice, List.take_take, Nat.min_eq_left h]

theorem getElem?_overwrite {data : List α} {a : ℕ} {xs : List α} (h : a + xs.length ≤ data.length)
    (k : ℕ) :
    (overwrite data a xs)[k]? = if a ≤ k ∧ k < a + xs.length then xs[k - a]? else data[k]? := by
  have hlen : (data.take a).length = a := by simp; omega
  rw [overwrite, List.append_assoc, List.getElem?_append, hlen]
  by_cases hk : k < a
  · rw [if_pos hk, if_neg (by omega), List.getElem?_take, if_pos hk]
  · rw [if_neg hk, List.getElem?_append, List.getElem?_drop]
    by_cases hx : k - a < xs.length
    · rw [if_pos hx, if_pos (by omega)]
    · rw [if_neg hx, if_neg (by omega)]
      congr 1; omega

@[simp] theorem length_overwrite {d : List α} {a : ℕ} {l : List α}
    (h : a + l.length ≤ d.length) : (overwrite d a l).length = d.length := by
  simp [overwrite]; omega

@[simp] theorem overwrite_nil (data : List α) (a : ℕ) : overwrite data a [] = data := by
  simp [overwrite]

/-- A window apart from the written slots is left alone. -/
theorem slice_overwrite_of_apart {data : List α} {a b s : ℕ} {xs : List α}
    (h : a + xs.length ≤ data.length) (hap : b + s ≤ a ∨ a + xs.length ≤ b) :
    slice (overwrite data a xs) b s = slice data b s := by
  apply List.ext_getElem?
  intro k
  rw [getElem?_slice, getElem?_slice]
  by_cases hk : k < s
  · rw [if_pos hk, if_pos hk, getElem?_overwrite h, if_neg (by omega)]
  · rw [if_neg hk, if_neg hk]

/-- Reading back exactly the written slots. -/
theorem slice_overwrite_self {d : List α} {a : ℕ} {l : List α}
    (h : a + l.length ≤ d.length) : slice (overwrite d a l) a l.length = l := by
  apply List.ext_getElem?
  intro k
  rw [getElem?_slice]
  by_cases hk : k < l.length
  · rw [if_pos hk, getElem?_overwrite h, if_pos (by omega), Nat.add_sub_cancel_left]
  · rw [if_neg hk, List.getElem?_eq_none (by omega)]

theorem length_resize (data : List α) (n : ℕ) (v : α) : (resize data n v).length = n := by
  simp [resize]; omega

theorem getElem?_resize (data : List α) (n : ℕ) (v : α) {k : ℕ} (hk : k < data.length)
    (hn : k < n) : (resize data n v)[k]? = data[k]? := by
  rw [resize, List.getElem?_append_left (by simp; omega), List.getElem?_take, if_pos hn]

/-- Growing the store leaves every window of it alone. -/
theorem slice_resize {data : List α} {n b s : ℕ} (v : α) (hb : b + s ≤ data.length)
    (hn : data.length ≤ n) : slice (resize data n v) b s = slice data b s := by
  apply List.ext_getElem?
  intro k
  rw [getElem?_slice, getElem?_slice]
  by_cases hk : k < s
  · rw [if_pos hk, if_pos hk, getElem?_resize data n v (by omega) (by omega)]
  · rw [if_neg hk, if_neg hk]

@[simp] theorem length_swap (data : List α) (i j : ℕ) : (swap data i j).length = data.length := by
  unfold swap; split <;> simp

/-- Exchanging neighbours: the two slots trade places in the middle of the store. -/
theorem swap_middle (l r : List α) (x y : α) :
    swap (l ++ x :: y :: r) l.length (l.length + 1) = l ++ y :: x :: r := by
  have h0 : (l ++ x :: y :: r)[l.length]? = some x := by simp
  have h1 : (l ++ x :: y :: r)[l.length + 1]? = some y := by
    rw [List.getElem?_append_right (by omega)]; simp
  simp only [swap, h0, h1]
  rw [List.set_append_right _ _ (by omega), Nat.sub_self, List.set_cons_zero,
    List.set_append_right _ _ (by omega), Nat.add_sub_cancel_left]
  rfl

/-! ### Windows as lists -/

/-- Writing behind a window appends to it. -/
theorem slice_append {d : List α} {b s : ℕ} {l : List α}
    (h : b + s + l.length ≤ d.length) :
    slice (overwrite d (b + s) l) b (s + l.length) = slice d b s ++ l := by
  apply List.ext_getElem?
  intro k
  rw [getElem?_slice, List.getElem?_append, length_slice (by omega), getElem?_slice,
    getElem?_overwrite (by omega)]
  by_cases hk : k < s
  · rw [if_pos (by omega), if_neg (by omega), if_pos hk, if_pos hk]
  · rw [if_neg hk]
    by_cases hx : k < s + l.length
    · rw [if_pos hx, if_pos (by omega)]; congr 1; omega
    · rw [if_neg hx, List.getElem?_eq_none (by omega)]

/-- Shifting the tail of a window by one slot and writing the gap inserts into it. -/
theorem slice_insert {data : List α} {b s pos : ℕ} (v : α) (hpos : pos ≤ s)
    (h : b + s < data.length) :
    slice (overwrite (overwrite data (b + pos + 1) (slice data (b + pos) (s - pos))) (b + pos) [v])
      b (s + 1) = (slice data b s).insertIdx pos v := by
  have htail : (slice data (b + pos) (s - pos)).length = s - pos := length_slice (by omega)
  have hlen := length_overwrite (d := data) (a := b + pos + 1)
    (l := slice data (b + pos) (s - pos)) (by omega)
  apply List.ext_getElem?
  intro k
  rw [getElem?_slice, getElem?_overwrite (by simp; omega), getElem?_overwrite (by omega),
    List.getElem?_insertIdx, htail, length_slice (by omega : b + s ≤ data.length),
    getElem?_slice, getElem?_slice, getElem?_slice]
  by_cases hk : k < s + 1
  · rw [if_pos hk]
    rcases Nat.lt_trichotomy k pos with hlt | rfl | hgt
    · rw [if_neg (by simp; omega), if_neg (by omega), if_pos hlt, if_pos (by omega)]
    · rw [if_pos (by simp), if_neg (by omega), if_pos rfl, if_pos hpos]; simp
    · rw [if_neg (by simp; omega), if_pos (by omega), if_pos (by omega), if_neg (by omega),
        if_neg (by omega), if_pos (by omega)]
      congr 1; omega
  · rw [if_neg hk, if_neg (by omega), if_neg (by omega), if_neg (by omega)]

/-- Moving the tail of a window down over the positions from `f` to `l` erases them. -/
theorem slice_erase {data : List α} {b s f l : ℕ} (hfl : f ≤ l) (hl : l ≤ s)
    (h : b + s ≤ data.length) :
    slice (overwrite data (b + f) (slice data (b + l) (s - l))) b (s - (l - f)) =
      (slice data b s).take f ++ (slice data b s).drop l := by
  have htail : (slice data (b + l) (s - l)).length = s - l := length_slice (by omega)
  apply List.ext_getElem?
  intro k
  rw [getElem?_slice, getElem?_overwrite (by omega), List.getElem?_append, List.length_take,
    length_slice h, List.getElem?_take, List.getElem?_drop, htail, getElem?_slice, getElem?_slice,
    getElem?_slice, Nat.min_eq_left (by omega : f ≤ s)]
  by_cases hk : k < s - (l - f)
  · rw [if_pos hk]
    by_cases hf : k < f
    · rw [if_neg (by omega), if_pos hf, if_pos hf, if_pos (by omega)]
    · rw [if_pos (by omega), if_neg hf, if_pos (by omega), if_pos (by omega)]
      congr 1; omega
  · rw [if_neg hk, if_neg (by omega), if_neg (by omega)]

/-- `n` exchanges of neighbours from slot `p` on. -/
def swapLoop (data : List α) (p : ℕ) : ℕ → List α
  | 0 => data
  | n + 1 => swapLoop (swap data p (p + 1)) (p + 1) n

theorem swapLoop_middle (l : List α) (x : α) (r : List α) : ∀ {n : ℕ}, n ≤ r.length →
    swapLoop (l ++ x :: r) l.length n = l ++ (r.take n ++ x :: r.drop n) := by
  intro n
  induction n generalizing l r with
  | zero => intro _; simp [swapLoop]
  | succ n ih =>
    intro hn
    obtain ⟨y, r', rfl⟩ : ∃ y r', r = y :: r' := List.exists_cons_of_length_pos (by omega)
    have hstep := ih (l ++ [y]) r' (by simpa using hn)
    rw [List.length_append, List.length_singleton, List.append_assoc] at hstep
    rw [swapLoop, swap_middle]
    simpa using hstep

/-- The exchanges rotate the first slot behind the next `n` ones. -/
theorem swapLoop_eq {data : List α} {p n : ℕ} (h : p + n < data.length) :
    swapLoop data p n = overwrite data p (slice data (p + 1) n ++ [data[p]]) := by
  have hsplit : data = data.take p ++ data[p] :: data.drop (p + 1) := by
    simp
  have hlen : (data.take p).length = p := by simp; omega
  have hloop := swapLoop_middle (data.take p) data[p] (data.drop (p + 1)) (n := n)
    (by simp; omega)
  rw [hlen, ← hsplit] at hloop
  rw [hloop, overwrite, slice]
  simp only [List.length_append, List.length_take, List.length_drop, List.length_cons,
    List.length_nil, List.drop_drop, List.append_assoc, List.cons_append, List.nil_append]
  rw [Nat.min_eq_left (by omega), Nat.add_assoc, Nat.add_comm 1 n]

/-- Slots written behind a window do not show in it. -/
theorem slice_overwrite_append {data : List α} {a b n : ℕ} {xs ys : List α}
    (h : a + (xs ++ ys).length ≤ data.length) (hn : b + n ≤ a + xs.length) :
    slice (overwrite data a (xs ++ ys)) b n = slice (overwrite data a xs) b n := by
  rw [List.length_append] at h
  apply List.ext_getElem?
  intro k
  rw [getElem?_slice, getElem?_slice]
  by_cases hk : k < n
  · rw [if_pos hk, if_pos hk, getElem?_overwrite (by simp; omega), getElem?_overwrite (by omega)]
    by_cases ha : a ≤ b + k
    · rw [if_pos (by simp; omega), if_pos (by omega), List.getElem?_append_left (by omega)]
    · rw [if_neg (by omega), if_neg (by omega)]
  · rw [if_neg hk, if_neg hk]

/-- Exchanging an entry to the end of its window and cutting the window erases the entry. -/
theorem slice_swapLoop {data : List α} {b s p : ℕ} (hp : p < s) (h : b + s ≤ data.length) :
    slice (swapLoop data (b + p) (s - 1 - p)) b (s - 1) = (slice data b s).eraseIdx p := by
  have htail : (slice data (b + p + 1) (s - 1 - p)).length = s - 1 - p := length_slice (by omega)
  have hone : s - (p + 1 - p) = s - 1 := by omega
  have hrest : s - (p + 1) = s - 1 - p := by omega
  rw [swapLoop_eq (by omega), slice_overwrite_append (by simp [htail]; omega) (by omega),
    List.eraseIdx_eq_take_drop_succ, ← slice_erase (by omega) (by omega) h, hone, hrest,
    Nat.add_assoc]

/-- The exchanges stay inside the rotated slots. -/
theorem slice_swapLoop_of_apart {data : List α} {p n c t : ℕ} (h : p + n < data.length)
    (hct : c + t ≤ p ∨ p + n + 1 ≤ c) : slice (swapLoop data p n) c t = slice data c t := by
  have htail : (slice data (p + 1) n).length = n := length_slice (by omega)
  rw [swapLoop_eq h, slice_overwrite_of_apart (by simp [htail]; omega) (by simp [htail]; omega)]

@[simp] theorem length_swapLoop (data : List α) (p n : ℕ) :
    (swapLoop data p n).length = data.length := by
  induction n generalizing data p with
  | zero => rfl
  | succ n ih => rw [swapLoop, ih, length_swap]

/-- The window of one group, in a store that is the groups one after the other. -/
theorem slice_flatten {gs : List (List α)} {k : ℕ} (hk : k < gs.length) :
    slice gs.flatten (gs.take k).flatten.length gs[k].length = gs[k] := by
  have hsplit : gs.flatten = (gs.take k).flatten ++ (gs[k] ++ (gs.drop (k + 1)).flatten) := by
    rw [← List.flatten_cons, List.getElem_cons_drop, ← List.flatten_append, List.take_append_drop]
  rw [slice, hsplit, List.drop_left, List.take_left]

end Slots
