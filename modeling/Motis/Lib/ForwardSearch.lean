import Mathlib.Algebra.Order.BigOperators.Group.List
import Mathlib.Tactic.Common

/-! Searching forward for the interval of a value.

    Boundaries `b 0, b 1, …, b n` cut a range into closed intervals, which may be empty or overlap
    in their ends. A search that starts at the interval `s` finds the first one from there on that
    contains the value. It can only miss a value that lies before `b s`. Lengths that are laid end
    to end give such boundaries (`boundary`).

        b 0      b 1   b 2            b 3
        ├────────┼─────┼──────────────┤
                 s ──▶          x       -/

namespace ForwardSearch

/-- `for (; i < stop; ++i) if (p(i)) break;` -/
def findFrom (p : ℕ → Bool) (start stop : ℕ) : ℕ :=
  ((List.range' start (stop - start)).find? p).getD (max start stop)

variable {p : ℕ → Bool} {s n : ℕ}

theorem findFrom_of_exists (h : ∃ k, s ≤ k ∧ k < n ∧ p k = true) :
    s ≤ findFrom p s n ∧ findFrom p s n < n ∧ p (findFrom p s n) = true := by
  obtain ⟨k, hsk, hkn, hp⟩ := h
  have hmem : k ∈ List.range' s (n - s) := List.mem_range'_1.mpr ⟨hsk, by omega⟩
  rw [findFrom]
  cases hfind : (List.range' s (n - s)).find? p with
  | none => exact absurd hp (List.find?_eq_none.mp hfind k hmem)
  | some i =>
    have hi := List.mem_range'_1.mp (List.mem_of_find?_eq_some hfind)
    exact ⟨hi.1, by rw [Option.getD_some]; omega, List.find?_some hfind⟩

theorem findFrom_of_forall (h : ∀ k, s ≤ k → k < n → p k = false) :
    findFrom p s n = max s n := by
  have hnone : (List.range' s (n - s)).find? p = none := by
    refine List.find?_eq_none.mpr fun k hk => ?_
    obtain ⟨hsk, hkn⟩ := List.mem_range'_1.mp hk
    rw [h k hsk (by omega)]
    exact Bool.false_ne_true
  rw [findFrom, hnone, Option.getD_none]

/-- Nothing before what is found satisfies the condition. -/
theorem eq_false_of_lt_findFrom {k : ℕ} (hsk : s ≤ k) (hk : k < findFrom p s n) : p k = false := by
  rw [findFrom] at hk
  cases hfind : (List.range' s (n - s)).find? p with
  | none =>
    rw [hfind, Option.getD_none] at hk
    exact Bool.eq_false_of_not_eq_true
      (List.find?_eq_none.mp hfind k (List.mem_range'_1.mpr ⟨hsk, by omega⟩))
  | some i =>
    rw [hfind, Option.getD_some] at hk
    obtain ⟨-, as, bs, hsplit, has⟩ := List.find?_eq_some_iff_append.mp hfind
    have hi := List.mem_range'_1.mp (List.mem_of_find?_eq_some hfind)
    have hmem : k ∈ as ++ i :: bs := hsplit ▸ List.mem_range'_1.mpr ⟨hsk, by omega⟩
    have hsorted := hsplit ▸ (List.pairwise_lt_range' : (List.range' s (n - s)).Pairwise (· < ·))
    rcases List.mem_append.mp hmem with hmem | hmem
    · simpa using has k hmem
    · -- `k` would come after `i`
      rcases List.mem_cons.mp hmem with rfl | hmem
      · exact absurd hk (lt_irrefl k)
      · have hik := (List.pairwise_cons.mp (List.pairwise_append.mp hsorted).2.1).1 k hmem
        exact absurd hk (lt_asymm hik)

variable {K : Type} [LinearOrder K] {b : ℕ → K} {x : K}

/-- A value between two boundaries lies in an interval between them. -/
theorem exists_interval (hsn : s < n) (hs : b s ≤ x) (hn : x ≤ b n) :
    ∃ k, s ≤ k ∧ k < n ∧ b k ≤ x ∧ x ≤ b (k + 1) := by
  induction n with
  | zero => omega
  | succ n ih =>
    rcases le_total x (b n) with hle | hle
    · rcases Nat.lt_or_ge s n with hlt | hge
      · obtain ⟨k, hsk, hkn, hk⟩ := ih hlt hle
        exact ⟨k, hsk, Nat.lt_succ_of_lt hkn, hk⟩
      · obtain rfl : s = n := by omega
        exact ⟨s, Nat.le_refl s, hsn, hs, hn⟩
    · exact ⟨n, by omega, Nat.lt_succ_self n, hle, hn⟩

/-! ### Lengths laid end to end -/

section Lengths
variable {G : Type} [AddCommGroup G] {l : List G} {i j : ℕ}

/-- Where length `i` starts. -/
def boundary (l : List G) (i : ℕ) : G := (l.take i).sum

theorem boundary_zero : boundary l 0 = 0 := rfl

theorem boundary_length : boundary l l.length = l.sum := by rw [boundary, List.take_length]

theorem boundary_succ (hi : i < l.length) : boundary l (i + 1) = boundary l i + l.getD i 0 := by
  rw [boundary, List.sum_take_succ l i hi, boundary, List.getD_eq_getElem?_getD,
    List.getElem?_eq_getElem hi, Option.getD_some]

theorem boundary_mono [LinearOrder G] [IsOrderedAddMonoid G] (h : ∀ x ∈ l, 0 ≤ x) (hij : i ≤ j) :
    boundary l i ≤ boundary l j := by
  obtain ⟨d, rfl⟩ := Nat.exists_eq_add_of_le hij
  rw [boundary, boundary, List.take_add, List.sum_append]
  have hrest : 0 ≤ ((l.drop i).take d).sum :=
    List.sum_nonneg fun x hx => h x (List.mem_of_mem_drop (List.mem_of_mem_take hx))
  exact le_add_of_nonneg_right hrest

end Lengths

end ForwardSearch
