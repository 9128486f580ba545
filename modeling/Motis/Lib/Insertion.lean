import Mathlib.Data.List.Basic
import Mathlib.Order.Monotone.Basic
import Mathlib.Tactic.Common

/-! Inserting into a list, and what becomes of positions.

    Inserting an element at position `n` renumbers the positions from `n` on: `shift n` sends an old
    position to the new one. Doubling an entry (`dup`) is the other edit: it is how a list of parts
    records which part came from which, when its entries are positions of the parts before. -/

namespace Insertion

variable {α : Type}

/-- The position of the old entry `i` after an insertion at `n`. -/
def shift (n i : ℕ) : ℕ := if i ≥ n then i + 1 else i

theorem shift_of_lt {n i : ℕ} (h : i < n) : shift n i = i := by simp [shift]; omega

theorem shift_of_ge {n i : ℕ} (h : n ≤ i) : shift n i = i + 1 := by simp [shift, h]

theorem shift_strictMono (n : ℕ) : StrictMono (shift n) := by
  intro i j hij
  unfold shift
  split <;> split <;> omega

/-- The new position itself has no old entry. -/
theorem shift_ne (n i : ℕ) : shift n i ≠ n := by unfold shift; split <;> omega

theorem getElem?_insertIdx_shift (l : List α) (n : ℕ) (a : α) (i : ℕ) :
    (l.insertIdx n a)[shift n i]? = l[i]? := by
  rw [List.getElem?_insertIdx]
  unfold shift
  split
  · rw [if_neg (by omega), if_neg (by omega), Nat.add_sub_cancel]
  · rw [if_pos (by omega)]

/-- The list with entry `x` twice. -/
def dup (l : List α) (x : ℕ) : List α := l.take (x + 1) ++ l.drop x

theorem length_dup {l : List α} {x : ℕ} (hx : x < l.length) : (dup l x).length = l.length + 1 := by
  simp [dup]
  omega

/-- Up to `x` the entries stay, from there on they follow one position later. -/
theorem getElem?_dup {l : List α} {x : ℕ} (hx : x < l.length) (y : ℕ) :
    (dup l x)[y]? = if y ≤ x then l[y]? else l[y - 1]? := by
  have hlen : (l.take (x + 1)).length = x + 1 := by simp; omega
  rw [dup, List.getElem?_append, hlen]
  by_cases hy : y ≤ x
  · rw [if_pos hy, if_pos (by omega), List.getElem?_take, if_pos (by omega)]
  · rw [if_neg hy, if_neg (by omega), List.getElem?_drop]
    congr 1
    omega

/-- Read backwards: the copy is the entry after `x`, the others have moved as by an insertion. -/
theorem getElem?_dup_shift {l : List α} {x : ℕ} (hx : x < l.length) (y : ℕ) :
    (dup l x)[shift (x + 1) y]? = l[y]? := by
  rw [getElem?_dup hx]
  unfold shift
  split
  · rw [if_neg (by omega), Nat.add_sub_cancel]
  · rw [if_pos (by omega)]

theorem eq_shift_of_ne {x y : ℕ} (hy : y ≠ x + 1) : ∃ y₀, y = shift (x + 1) y₀ := by
  rcases le_or_gt y x with h | h
  · exact ⟨y, (shift_of_lt (by omega)).symm⟩
  · exact ⟨y - 1, by rw [shift_of_ge (by omega)]; omega⟩

/-! ### Searching -/

variable {β : Type}

theorem findIdx?_eq_some {p : α → Bool} {l : List α} {i : ℕ} :
    l.findIdx? p = some i ↔
      l[i]?.map p = some true ∧ ∀ k < i, l[k]?.map p ≠ some true := by
  rw [List.findIdx?_eq_some_iff_getElem]
  constructor
  · rintro ⟨hi, hp, hbefore⟩
    refine ⟨by rw [List.getElem?_eq_getElem hi, Option.map_some, hp], fun k hk hpk => ?_⟩
    rw [List.getElem?_eq_getElem (hk.trans hi)] at hpk
    exact hbefore k hk (Option.some.inj hpk)
  · rintro ⟨hp, hbefore⟩
    obtain ⟨a, ha, hpa⟩ := Option.map_eq_some_iff.mp hp
    obtain ⟨hi, rfl⟩ := List.getElem?_eq_some_iff.mp ha
    refine ⟨hi, hpa, fun k hk hpk => hbefore k hk ?_⟩
    rw [List.getElem?_eq_getElem (hk.trans hi), Option.map_some, hpk]

theorem findIdx?_eq_none {p : α → Bool} {l : List α} :
    l.findIdx? p = none ↔ ∀ i : ℕ, l[i]?.map p ≠ some true := by
  rw [List.findIdx?_eq_none_iff]
  constructor
  · intro h i hi
    obtain ⟨a, ha, hpa⟩ := Option.map_eq_some_iff.mp hi
    rw [h a (List.mem_of_getElem? ha)] at hpa
    cases hpa
  · intro h a ha
    obtain ⟨i, hi⟩ := List.mem_iff_getElem?.mp ha
    have hpi := h i
    rw [hi, Option.map_some] at hpi
    simpa using hpi

/-- A search that finds neither the new entry nor a changed one finds what it found before. -/
theorem findIdx?_shift {p : α → Bool} {q : β → Bool} {l : List α} {l' : List β} {n : ℕ}
    (hold : ∀ y, l'[shift n y]?.map q = l[y]?.map p) (hnew : l'[n]?.map q ≠ some true) :
    l'.findIdx? q = (l.findIdx? p).map (shift n) := by
  have hcases : ∀ y, y = n ∨ ∃ y₀, y = shift n y₀ := by
    intro y
    rcases Nat.lt_trichotomy y n with h | h | h
    · exact Or.inr ⟨y, (shift_of_lt h).symm⟩
    · exact Or.inl h
    · exact Or.inr ⟨y - 1, by rw [shift_of_ge (by omega)]; omega⟩
  cases hp : l.findIdx? p with
  | none =>
    refine findIdx?_eq_none.mpr fun y => ?_
    rcases hcases y with rfl | ⟨y₀, rfl⟩
    · exact hnew
    · rw [hold]
      exact findIdx?_eq_none.mp hp y₀
  | some i =>
    obtain ⟨hi, hbefore⟩ := findIdx?_eq_some.mp hp
    refine findIdx?_eq_some.mpr ⟨(hold i).trans hi, fun y hy => ?_⟩
    rcases hcases y with rfl | ⟨y₀, rfl⟩
    · exact hnew
    · rw [hold]
      exact hbefore y₀ ((shift_strictMono n).lt_iff_lt.mp hy)

end Insertion
