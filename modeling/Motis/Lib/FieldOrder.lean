import Mathlib.Tactic.Common

/-! Orders of records, field by field.

    A record compared by `compareLex` of `compareOn` its fields is ordered like the tuple of them.
    Transitivity is inferred from the fields; that only equal records compare equal follows with
    `compareLex_eq_eq` and the lemma below. -/

namespace FieldOrder

theorem compareOn_eq_eq {α β : Type} [Ord β] [Std.LawfulEqOrd β] {f : α → β} {a b : α} :
    compareOn f a b = .eq ↔ f a = f b :=
  ⟨Std.LawfulEqOrd.eq_of_compare, fun h => by
    rw [compareOn, h]
    exact Std.ReflOrd.compare_self⟩

/-- `std::sort` with `operator<`. -/
def sort {α : Type} [Ord α] (l : List α) : List α := l.mergeSort fun a b => (compare a b).isLE

theorem mem_sort {α : Type} [Ord α] {l : List α} {a : α} : a ∈ sort l ↔ a ∈ l :=
  (List.mergeSort_perm l _).mem_iff

end FieldOrder
