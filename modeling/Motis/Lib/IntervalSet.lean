import Mathlib.Data.List.Basic
import Mathlib.Data.List.Pairwise
import Mathlib.Order.Cover
import Mathlib.Order.MinMax
import Mathlib.Tactic.Common

/-! Interval sets that join.

    A set of points as the ordered list of its maximal half-open intervals. Adding an interval joins
    it with every interval it overlaps or touches, so there is a gap between any two neighbours:

        [ lo₁ )   [ lo₂   )      ──▶ add [a, b) ──▶      [ lo₁           )
               [a, b) -/

/-- A list of nonempty intervals `[lo, hi)` with gaps between them. -/
structure IntervalSet (α : Type) [LinearOrder α] where
  intervals : List (α × α) := []
  nonempty : ∀ i ∈ intervals, i.1 < i.2 := by simp
  apart : intervals.Pairwise (·.2 < ·.1) := by simp

namespace IntervalSet

variable {α : Type} [LinearOrder α]

/-- The point `x` lies in the interval. -/
def Within (x : α) (i : α × α) : Prop := i.1 ≤ x ∧ x < i.2

instance : Membership α (IntervalSet α) := ⟨fun s x => ∃ i ∈ s.intervals, Within x i⟩

instance : EmptyCollection (IntervalSet α) := ⟨{}⟩

@[simp] theorem notMem_empty (x : α) : x ∉ (∅ : IntervalSet α) := by
  rintro ⟨i, hi, -⟩
  exact List.not_mem_nil hi

/-! ### Adding an interval -/

/-- The interval `i` joined with all intervals of the list it overlaps or touches. -/
def join (i : α × α) : List (α × α) → List (α × α)
  | [] => [i]
  | j :: rest =>
    if i.2 < j.1 then i :: j :: rest
    else if j.2 < i.1 then j :: join i rest
    else join (min i.1 j.1, max i.2 j.2) rest

/-- What holds of intervals and of their joins holds of all a join keeps. -/
theorem forall_mem_join {p : α × α → Prop}
    (hjoin : ∀ i j, p i → p j → p (min i.1 j.1, max i.2 j.2)) {i : α × α} {l : List (α × α)}
    (hi : p i) (hl : ∀ j ∈ l, p j) : ∀ k ∈ join i l, p k := by
  induction l generalizing i with
  | nil =>
    intro k hk
    rw [join, List.mem_singleton] at hk
    rwa [hk]
  | cons j rest ih =>
    obtain ⟨hj, hrest⟩ := List.forall_mem_cons.mp hl
    intro k hk
    rw [join] at hk
    split_ifs at hk
    · rcases List.mem_cons.mp hk with rfl | hk
      · exact hi
      · exact hl k hk
    · rcases List.mem_cons.mp hk with rfl | hk
      · exact hj
      · exact ih hi hrest k hk
    · exact ih (hjoin i j hi hj) hrest k hk

/-- Joining keeps every lower bound of the starts. -/
theorem lt_of_mem_join {a : α} {i : α × α} {l : List (α × α)} (hi : a < i.1)
    (hl : ∀ j ∈ l, a < j.1) : ∀ k ∈ join i l, a < k.1 :=
  forall_mem_join (fun _ _ hi hj => lt_min hi hj) hi hl

theorem nonempty_join {i : α × α} {l : List (α × α)} (hi : i.1 < i.2)
    (hl : ∀ j ∈ l, j.1 < j.2) : ∀ k ∈ join i l, k.1 < k.2 := by
  refine forall_mem_join (fun i j hi _ => ?_) hi hl
  exact lt_of_le_of_lt (min_le_left _ _) (lt_of_lt_of_le hi (le_max_left _ _))

theorem apart_join {i : α × α} {l : List (α × α)} (hl : ∀ j ∈ l, j.1 < j.2)
    (hp : l.Pairwise (·.2 < ·.1)) : (join i l).Pairwise (·.2 < ·.1) := by
  induction l generalizing i with
  | nil => simp [join]
  | cons j rest ih =>
    obtain ⟨hj, hrest⟩ := List.forall_mem_cons.mp hl
    obtain ⟨hjrest, hprest⟩ := List.pairwise_cons.mp hp
    rw [join]
    split_ifs with hbefore hafter
    · refine List.pairwise_cons.mpr ⟨?_, hp⟩
      rintro k hk
      rcases List.mem_cons.mp hk with rfl | hk
      · exact hbefore
      · exact hbefore.trans (hj.trans (hjrest k hk))
    · exact List.pairwise_cons.mpr ⟨lt_of_mem_join hafter hjrest, ih hrest hprest⟩
    · exact ih hrest hprest

/-- An interval that overlaps or touches another covers with it what the two cover. -/
theorem within_join {x : α} {i j : α × α} (hij : ¬ i.2 < j.1) (hji : ¬ j.2 < i.1) :
    Within x (min i.1 j.1, max i.2 j.2) ↔ Within x i ∨ Within x j := by
  simp only [Within, min_le_iff, lt_max_iff]
  constructor
  · rintro ⟨hlo, hhi⟩
    rcases lt_or_ge x i.2 with hxi | hxi
    · rcases le_or_gt i.1 x with hix | hix
      · exact .inl ⟨hix, hxi⟩
      · exact .inr ⟨hlo.resolve_left (not_le.mpr hix), lt_of_lt_of_le hix (not_lt.mp hji)⟩
    · exact .inr ⟨(not_lt.mp hij).trans hxi, hhi.resolve_left (not_lt.mpr hxi)⟩
  · rintro (⟨hlo, hhi⟩ | ⟨hlo, hhi⟩)
    · exact ⟨.inl hlo, .inl hhi⟩
    · exact ⟨.inr hlo, .inr hhi⟩

/-- Joining adds the points of the interval and no others. -/
theorem within_mem_join {x : α} {i : α × α} {l : List (α × α)} :
    (∃ k ∈ join i l, Within x k) ↔ Within x i ∨ ∃ j ∈ l, Within x j := by
  induction l generalizing i with
  | nil => simp [join]
  | cons j rest ih =>
    rw [join]
    split_ifs with hbefore hafter
    · simp
    · simp only [List.exists_mem_cons_iff, ih]
      rw [or_left_comm]
    · rw [ih, within_join hbefore hafter, List.exists_mem_cons_iff, or_assoc]

/-- Adds an interval; an empty one changes nothing. -/
def add (s : IntervalSet α) (i : α × α) : IntervalSet α :=
  if h : i.1 < i.2 then
    ⟨join i s.intervals, nonempty_join h s.nonempty, apart_join s.nonempty s.apart⟩
  else s

theorem mem_add {s : IntervalSet α} {i : α × α} {x : α} :
    x ∈ s.add i ↔ Within x i ∨ x ∈ s := by
  rw [add]
  split_ifs with h
  · exact within_mem_join
  · refine (or_iff_right ?_).symm
    rintro ⟨hlo, hhi⟩
    exact h (lt_of_le_of_lt hlo hhi)

/-! ### Neighbouring points -/

/-- Of two intervals of the set one lies before the other. -/
theorem before_or_before (s : IntervalSet α) {i j : α × α} (hi : i ∈ s.intervals)
    (hj : j ∈ s.intervals) (hne : i ≠ j) : i.2 < j.1 ∨ j.2 < i.1 := by
  have : Std.Symm fun a b : α × α => a.2 < b.1 ∨ b.2 < a.1 := ⟨fun _ _ => Or.symm⟩
  have hp : s.intervals.Pairwise fun a b => a.2 < b.1 ∨ b.2 < a.1 := s.apart.imp Or.inl
  exact hp.forall hi hj hne

/-- Two neighbouring points of the set lie in one interval: there is no gap between them. -/
theorem covBy_within {s : IntervalSet α} {x y : α} (hxy : x ⋖ y) :
    (∃ i ∈ s.intervals, i.1 ≤ x ∧ y < i.2) ↔ x ∈ s ∧ y ∈ s := by
  constructor
  · rintro ⟨i, hi, hlo, hhi⟩
    exact ⟨⟨i, hi, hlo, hxy.1.trans hhi⟩, ⟨i, hi, hlo.trans hxy.1.le, hhi⟩⟩
  · rintro ⟨⟨i, hi, hix, hxi⟩, ⟨j, hj, hjy, hyj⟩⟩
    rcases eq_or_ne i j with rfl | hne
    · exact ⟨i, hi, hix, hyj⟩
    · have hsym : i.2 < j.1 ∨ j.2 < i.1 := s.before_or_before hi hj hne
      rcases hsym with h | h
      · exact absurd (lt_of_lt_of_le h hjy) (hxy.2 hxi)
      · exact absurd (hyj.trans (h.trans_le hix)) (not_lt.mpr hxy.1.le)

end IntervalSet
