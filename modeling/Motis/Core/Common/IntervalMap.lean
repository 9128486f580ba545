import Mathlib.Order.SuccPred.Basic
import Mathlib.Algebra.Order.SuccPred
import Mathlib.Data.Nat.SuccPred
import Motis.Lib.IntervalSet

/-! The interval map: for each value the ranges of stops it holds on.

    A range `[from, to]` names its first and its last stop and is stored as the interval
    `[from, to + 1)` of stops, so that the ranges of two sections with one section between them
    touch, and the set joins them:

        stops       0   1   2   3
        sections      0   1   2
        marked        ─       ─       [0, 2) and [2, 4) become [0, 4)
        read back     ─   ─   ─       the range [0, 3] -/

namespace Motis

/-- `interval_map<T>`. -/
structure IntervalMap (T : Type) [Ord T] where
  attributes : Std.TreeMap T (IntervalSet ℕ) := ∅

namespace IntervalMap

variable {T : Type} [Ord T]

/-- `add_entry(entry, from_index, to_index)`. -/
def addEntry (m : IntervalMap T) (entry : T) (fromIndex toIndex : ℕ) : IntervalMap T :=
  ⟨m.attributes.alter entry fun ranges => some ((ranges.getD ∅).add (fromIndex, toIndex + 1))⟩

/-- `get_attribute_ranges`: the ranges of each value, both ends inclusive. -/
def getAttributeRanges (m : IntervalMap T) : Std.TreeMap T (List (ℕ × ℕ)) :=
  m.attributes.map fun _ ranges => ranges.intervals.map fun r => (r.1, r.2 - 1)

/-- The range covers the section between the stops `s` and `s + 1`. -/
def Covers (r : ℕ × ℕ) (s : ℕ) : Prop := r.1 ≤ s ∧ s < r.2

/-- A range of the value covers section `s`. -/
def Covered (m : IntervalMap T) (v : T) (s : ℕ) : Prop :=
  ∃ ranges, (v, ranges) ∈ m.getAttributeRanges.toList ∧ ∃ r ∈ ranges, Covers r s

variable [Std.TransOrd T] [Std.LawfulEqOrd T]

/-- The stops stored for a value. -/
def points (m : IntervalMap T) (v : T) : IntervalSet ℕ := m.attributes.getD v ∅

theorem mem_points_addEntry {m : IntervalMap T} {e v : T} {a b x : ℕ} :
    x ∈ (m.addEntry e a b).points v ↔ (v = e ∧ a ≤ x ∧ x ≤ b) ∨ x ∈ m.points v := by
  rw [points, addEntry, Std.TreeMap.getD_alter]
  rcases eq_or_ne v e with h | h
  · subst h
    rw [if_pos Std.ReflCmp.compare_self, Option.getD_some, IntervalSet.mem_add,
      ← Std.TreeMap.getD_eq_getD_getElem?]
    simp [IntervalSet.Within, points]
  · rw [if_neg fun heq => h (Std.LawfulEqOrd.eq_of_compare heq).symm]
    simp [h, points]

/-- A section is covered if both of its stops are stored. -/
theorem covered_iff_points {m : IntervalMap T} {v : T} {s : ℕ} :
    m.Covered v s ↔ s ∈ m.points v ∧ s + 1 ∈ m.points v := by
  rw [← IntervalSet.covBy_within (Order.covBy_add_one s), points,
    Std.TreeMap.getD_eq_getD_getElem?]
  simp only [Covered, getAttributeRanges, Std.TreeMap.mem_toList_iff_getElem?_eq_some,
    Std.TreeMap.getElem?_map]
  constructor
  · rintro ⟨ranges, hget, r, hr, hcov⟩
    cases hset : m.attributes[v]? with
    | none => simp [hset] at hget
    | some set =>
      obtain rfl : set.intervals.map (fun r => (r.1, r.2 - 1)) = ranges := by
        simpa [hset] using hget
      obtain ⟨i, hi, rfl⟩ := List.mem_map.mp hr
      exact ⟨i, hi, hcov.1, Nat.add_lt_of_lt_sub hcov.2⟩
  · rintro ⟨i, hi, hlo, hhi⟩
    cases hset : m.attributes[v]? with
    | none =>
      rw [hset] at hi
      exact absurd hi List.not_mem_nil
    | some set =>
      rw [hset] at hi
      exact ⟨_, rfl, _, List.mem_map_of_mem hi, hlo, Nat.lt_sub_of_add_lt hhi⟩

/-! ### Marking sections -/

/-- The map stores the two stops of every marked section and nothing else. -/
def Marks (m : IntervalMap T) (marked : T → ℕ → Prop) : Prop :=
  ∀ v x, x ∈ m.points v ↔ marked v x ∨ ∃ s, x = s + 1 ∧ marked v s

omit [Std.LawfulEqOrd T] in
theorem marks_empty : Marks ({} : IntervalMap T) fun _ _ => False := by
  intro v x
  simp [points]

/-- An entry for one section marks it. -/
theorem Marks.addEntry {m : IntervalMap T} {marked : T → ℕ → Prop} (h : m.Marks marked) (e : T)
    (s : ℕ) : (m.addEntry e s (s + 1)).Marks fun v x => (v = e ∧ x = s) ∨ marked v x := by
  intro v x
  rw [mem_points_addEntry, h v x]
  constructor
  · rintro (⟨hv, hlo, hhi⟩ | hx | ⟨t, ht, hm⟩)
    · rcases Nat.lt_or_ge s x with hlt | hge
      · exact .inr ⟨s, by omega, .inl ⟨hv, rfl⟩⟩
      · exact .inl (.inl ⟨hv, by omega⟩)
    · exact .inl (.inr hx)
    · exact .inr ⟨t, ht, .inr hm⟩
  · rintro ((⟨hv, hx⟩ | hx) | ⟨t, ht, ⟨hv, hts⟩ | hm⟩)
    · exact .inl ⟨hv, by omega, by omega⟩
    · exact .inr (.inl hx)
    · exact .inl ⟨hv, by omega, by omega⟩
    · exact .inr (.inr ⟨t, ht, hm⟩)

/-- Entries of one section for several values. -/
theorem Marks.addEntries {m : IntervalMap T} {marked : T → ℕ → Prop} (h : m.Marks marked) (s : ℕ)
    (es : List T) : (es.foldl (fun m e => m.addEntry e s (s + 1)) m).Marks
      fun v x => (v ∈ es ∧ x = s) ∨ marked v x := by
  induction es generalizing m marked with
  | nil => simpa using h
  | cons e es ih =>
    intro v x
    rw [List.foldl_cons, ih (h.addEntry e s) v x]
    simp only [List.mem_cons]
    grind

/-- A section is covered if it is marked, or if it lies between two marked ones. -/
theorem Marks.covered_iff {m : IntervalMap T} {marked : T → ℕ → Prop} (h : m.Marks marked) {v : T}
    {s : ℕ} : m.Covered v s ↔ marked v s ∨ marked v (s + 1) ∧ ∃ t, s = t + 1 ∧ marked v t := by
  rw [covered_iff_points, h v s, h v (s + 1)]
  constructor
  · rintro ⟨hs | hbefore, hafter | ⟨t, ht, hm⟩⟩
    · exact .inl hs
    · exact .inl hs
    · exact .inr ⟨hafter, hbefore⟩
    · obtain rfl : s = t := by omega
      exact .inl hm
  · rintro (hs | ⟨hafter, hbefore⟩)
    · exact ⟨.inl hs, .inr ⟨s, rfl, hs⟩⟩
    · exact ⟨.inr hbefore, .inl hafter⟩

end IntervalMap

end Motis
