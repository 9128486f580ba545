import Mathlib.Data.List.Basic
import Mathlib.Data.List.Nodup
import Mathlib.Data.Nat.Notation
import Mathlib.Order.Basic
import Mathlib.Order.Lattice
import Mathlib.Tactic.Common

/-! The first elements of a list by a key.

    The list is sorted and cut. Elements with the same key stay in the order of the list, so the cut
    may go through them. -/

namespace FirstBy

variable {α κ : Type} [LinearOrder κ] (key : α → κ)

def sortBy (l : List α) : List α := l.mergeSort fun a b => key a ≤ key b

def firstBy (n : ℕ) (l : List α) : List α := (sortBy key l).take n

variable {key} {n : ℕ} {l : List α}

theorem le_trans' (a b c : α) (hab : decide (key a ≤ key b) = true)
    (hbc : decide (key b ≤ key c) = true) : decide (key a ≤ key c) = true :=
  decide_eq_true (le_trans (of_decide_eq_true hab) (of_decide_eq_true hbc))

theorem le_total' (a b : α) : (decide (key a ≤ key b) || decide (key b ≤ key a)) = true := by
  simpa using le_total (key a) (key b)

theorem pairwise_sortBy (l : List α) : (sortBy key l).Pairwise fun a b => key a ≤ key b := by
  simpa [sortBy] using List.pairwise_mergeSort le_trans' le_total' l

theorem perm_sortBy (l : List α) : (sortBy key l).Perm l := List.mergeSort_perm ..

theorem mem_of_mem_firstBy {a : α} (h : a ∈ firstBy key n l) : a ∈ l :=
  (perm_sortBy l).mem_iff.mp (List.mem_of_mem_take h)

theorem nodup_firstBy (h : l.Nodup) : (firstBy key n l).Nodup :=
  ((perm_sortBy l).nodup_iff.mpr h).sublist (List.take_sublist ..)

/-- All elements up to a key are among the first when there are no more than that. -/
theorem mem_firstBy_of_le {u : κ} (hcount : (l.filter fun a => key a ≤ u).length ≤ n) {a : α}
    (ha : a ∈ l) (hle : key a ≤ u) : a ∈ firstBy key n l := by
  have hsorted : (sortBy key l).Pairwise fun a b => key a ≤ key b := pairwise_sortBy l
  have hmem : a ∈ sortBy key l := (perm_sortBy l).mem_iff.mpr ha
  rw [← List.take_append_drop n (sortBy key l)] at hsorted hmem
  rcases List.mem_append.mp hmem with hfirst | hrest
  · exact hfirst
  · -- behind the cut: the first elements and this one are too many
    have hfirst : ∀ b ∈ (sortBy key l).take n, key b ≤ u := fun b hb =>
      ((List.pairwise_append.mp hsorted).2.2 b hb a hrest).trans hle
    have hlength : ((sortBy key l).take n).length = n := by
      have hpos := List.length_pos_of_mem hrest
      rw [List.length_drop] at hpos
      rw [List.length_take]
      omega
    have hperm : (l.filter fun a => key a ≤ u).length =
        ((sortBy key l).filter fun a => key a ≤ u).length :=
      ((perm_sortBy l).filter _).length_eq.symm
    have hall : ((sortBy key l).take n).filter (fun a => key a ≤ u) = (sortBy key l).take n :=
      List.filter_eq_self.mpr fun b hb => decide_eq_true (hfirst b hb)
    have hone : 0 < (((sortBy key l).drop n).filter fun a => key a ≤ u).length :=
      List.length_pos_of_mem (List.mem_filter.mpr ⟨hrest, decide_eq_true hle⟩)
    rw [hperm, ← List.take_append_drop n (sortBy key l), List.filter_append, List.length_append,
      hall, hlength] at hcount
    omega

/-- What stands before one of the first elements, with no greater key, is among them. -/
theorem mem_firstBy_of_before (hnodup : l.Nodup) {a b : α} (hsub : [a, b].Sublist l)
    (hle : key a ≤ key b) (hb : b ∈ firstBy key n l) : a ∈ firstBy key n l := by
  have hsorted : [a, b].Sublist (sortBy key l) :=
    List.pair_sublist_mergeSort le_trans' le_total' (decide_eq_true hle) hsub
  have hnodup' : (sortBy key l).Nodup := (perm_sortBy l).nodup_iff.mpr hnodup
  rw [← List.take_append_drop n (sortBy key l)] at hsorted hnodup'
  have hdisjoint := (List.nodup_append'.mp hnodup').2.2
  obtain ⟨l₁, l₂, heq, h₁, h₂⟩ := List.sublist_append_iff.mp hsorted
  cases l₁ with
  | nil =>
    rw [List.nil_append] at heq
    have hdrop : b ∈ (sortBy key l).drop n := h₂.subset (heq ▸ by simp)
    exact absurd hdrop (fun h => hdisjoint hb h)
  | cons c l₁ =>
    obtain ⟨rfl, -⟩ := List.cons_eq_cons.mp heq
    exact h₁.subset (List.mem_cons_self ..)

/-- The first element with a key is among the first ones when another one with this key is. -/
theorem mem_firstBy_of_first (hnodup : l.Nodup) {pre post : List α} {a b : α}
    (hl : l = pre ++ a :: post) (hpre : ∀ c ∈ pre, key c ≠ key a) (hkey : key b = key a)
    (hb : b ∈ firstBy key n l) : a ∈ firstBy key n l := by
  have hmem := mem_of_mem_firstBy hb
  rw [hl] at hmem
  rcases List.mem_append.mp hmem with hbefore | hfrom
  · exact absurd hkey (hpre b hbefore)
  · rcases List.mem_cons.mp hfrom with rfl | hbehind
    · exact hb
    · refine mem_firstBy_of_before hnodup ?_ hkey.ge hb
      rw [hl]
      exact ((List.singleton_sublist.mpr hbehind).cons_cons a).trans (List.sublist_append_right ..)

/-- The first of the elements with the least key is among the first ones. -/
theorem mem_firstBy_of_least (hnodup : l.Nodup) {pre post : List α} {a : α}
    (hl : l = pre ++ a :: post) (hpre : ∀ c ∈ pre, key c ≠ key a) (hleast : ∀ c ∈ l, key a ≤ key c)
    (hn : 0 < n) : a ∈ firstBy key n l := by
  have ha : a ∈ sortBy key l := by
    rw [(perm_sortBy l).mem_iff, hl]
    exact List.mem_append_right _ (List.mem_cons_self ..)
  have hsorted : (sortBy key l).Pairwise fun a b => key a ≤ key b := pairwise_sortBy l
  obtain ⟨b, rest, hcons⟩ := List.exists_cons_of_ne_nil (List.ne_nil_of_mem ha)
  have hb : b ∈ firstBy key n l := by
    cases n with
    | zero => exact absurd hn (Nat.lt_irrefl 0)
    | succ n =>
      rw [firstBy, hcons]
      exact List.mem_cons_self ..
  rw [hcons] at ha hsorted
  have hle : key b ≤ key a := by
    rcases List.mem_cons.mp ha with rfl | ha
    · exact le_rfl
    · exact (List.pairwise_cons.mp hsorted).1 a ha
  exact mem_firstBy_of_first hnodup hl hpre
    (le_antisymm hle (hleast b (mem_of_mem_firstBy hb))) hb

variable (key) in
/-- Of the elements with a key, one is the first. -/
theorem exists_first {a : α} (ha : a ∈ l) :
    ∃ pre f post, l = pre ++ f :: post ∧ key f = key a ∧ ∀ c ∈ pre, key c ≠ key f := by
  induction l with
  | nil => exact absurd ha List.not_mem_nil
  | cons b l ih =>
    by_cases hb : key b = key a
    · exact ⟨[], b, l, rfl, hb, fun c hc => absurd hc List.not_mem_nil⟩
    · rcases List.mem_cons.mp ha with rfl | ha
      · exact absurd rfl hb
      · obtain ⟨pre, f, post, rfl, hf, hpre⟩ := ih ha
        refine ⟨b :: pre, f, post, rfl, hf, List.forall_mem_cons.mpr ⟨?_, hpre⟩⟩
        rwa [hf]

end FirstBy
