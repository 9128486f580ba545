import Mathlib.Order.Bounds.Basic
import Mathlib.Order.Compare
import Mathlib.Tactic.Common

/-! Ordered maps: the entry before the upper bound of a key.

    Stepping back once from the first entry after `q` arrives at the greatest entry up to `q`:

        k₁ < k₂ < … < kᵢ ≤ q < kᵢ₊₁ < …
                      ▲
                 predecessor -/

namespace OrderedMap

variable {κ β : Type} [LinearOrder κ]

/-- The entry before `upper_bound(q)`. -/
def predecessor (m : Std.TreeMap κ β) (q : κ) : Option (κ × β) :=
  (m.toList.takeWhile fun e => decide (e.1 ≤ q)).getLast?

/-- In an ordered list the leading elements up to `q` are all of them. -/
theorem mem_takeWhile {l : List (κ × β)} (hl : l.Pairwise (·.1 < ·.1)) {q : κ} {e : κ × β} :
    e ∈ l.takeWhile (fun e => decide (e.1 ≤ q)) ↔ e ∈ l ∧ e.1 ≤ q := by
  induction l with
  | nil => simp
  | cons a l ih =>
    obtain ⟨ha, hl⟩ := List.pairwise_cons.mp hl
    by_cases haq : a.1 ≤ q
    · rw [List.takeWhile_cons_of_pos (by simpa using haq), List.mem_cons, List.mem_cons, ih hl]
      constructor
      · rintro (rfl | ⟨he, hle⟩)
        · exact ⟨.inl rfl, haq⟩
        · exact ⟨.inr he, hle⟩
      · rintro ⟨rfl | he, hle⟩
        · exact .inl rfl
        · exact .inr ⟨he, hle⟩
    · rw [List.takeWhile_cons_of_neg (by simpa using haq)]
      constructor
      · intro he
        cases he
      · rintro ⟨he, hle⟩
        rcases List.mem_cons.mp he with rfl | he
        · exact absurd hle haq
        · exact absurd ((ha e he).le.trans hle) haq

/-- The last element of an ordered list is the greatest. -/
theorem getLast?_eq_some {l : List (κ × β)} (hl : l.Pairwise (·.1 < ·.1)) {e : κ × β} :
    l.getLast? = some e ↔ e ∈ l ∧ ∀ e' ∈ l, e'.1 ≤ e.1 := by
  rcases List.eq_nil_or_concat l with rfl | ⟨init, last, rfl⟩
  · simp
  · obtain ⟨-, -, hlast⟩ := List.pairwise_append.mp (List.concat_eq_append ▸ hl)
    simp only [List.concat_eq_append, List.getLast?_append, List.getLast?_singleton,
      Option.some_or, Option.some_inj, List.mem_append, List.mem_singleton]
    have hlt : ∀ e' ∈ init, e'.1 < last.1 := fun e' he' =>
      hlast e' he' last (List.mem_singleton_self last)
    constructor
    · rintro rfl
      refine ⟨.inr rfl, ?_⟩
      rintro e' (he' | rfl)
      · exact (hlt e' he').le
      · exact le_rfl
    · rintro ⟨he | rfl, hmax⟩
      · exact absurd (hlt e he) (not_lt.mpr (hmax last (.inr rfl)))
      · rfl

/-- The predecessor is the entry of the greatest key up to `q`. -/
theorem predecessor_eq_some {m : Std.TreeMap κ β} {q k : κ} {v : β} :
    predecessor m q = some (k, v) ↔ m[k]? = some v ∧ IsGreatest {k' | k' ∈ m ∧ k' ≤ q} k := by
  have hsorted : m.toList.Pairwise (·.1 < ·.1) :=
    Std.TreeMap.ordered_keys_toList.imp fun h => compare_lt_iff_lt.mp h
  have hleading := hsorted.sublist
    (List.takeWhile_sublist (l := m.toList) fun e => decide (e.1 ≤ q))
  rw [predecessor, getLast?_eq_some hleading]
  simp only [mem_takeWhile hsorted, Std.TreeMap.mem_toList_iff_getElem?_eq_some, Prod.forall]
  constructor
  · rintro ⟨⟨hk, hle⟩, hmax⟩
    refine ⟨hk, ⟨Std.TreeMap.mem_iff_isSome_getElem?.mpr (by rw [hk]; rfl), hle⟩, ?_⟩
    rintro k' ⟨hk', hle'⟩
    obtain ⟨v', hv'⟩ := Option.isSome_iff_exists.mp (Std.TreeMap.mem_iff_isSome_getElem?.mp hk')
    exact hmax k' v' ⟨hv', hle'⟩
  · rintro ⟨hk, ⟨-, hle⟩, hmax⟩
    refine ⟨⟨hk, hle⟩, fun k' v' hv' => hmax ⟨?_, hv'.2⟩⟩
    exact Std.TreeMap.mem_iff_isSome_getElem?.mpr (by rw [hv'.1]; rfl)

end OrderedMap
