import Mathlib.Data.List.Count
import Mathlib.Tactic.Common

/-! A table of bounded counters.

    A counter is incremented by its index. An index outside the table and a counter that is at its
    limit are errors. A sequence of increments goes through when every index is inside and no
    counter has to pass the limit, and then every counter has grown by its number of occurrences. -/

namespace Counters

inductive Error where
  | outOfRange
  | overflow
  deriving DecidableEq, Repr

/-- `++counts[i]` -/
def increment (limit : ℕ) (counts : List ℕ) (i : ℕ) : Except Error (List ℕ) :=
  match counts[i]? with
  | none => .error .outOfRange
  | some c => if c < limit then .ok (counts.set i (c + 1)) else .error .overflow

variable {limit : ℕ} {counts counts' : List ℕ}

theorem increment_ok {i : ℕ} :
    increment limit counts i = .ok counts' ↔
      ∃ c, counts[i]? = some c ∧ c < limit ∧ counts' = counts.set i (c + 1) := by
  rw [increment]
  cases hc : counts[i]? with
  | none => simp
  | some c =>
    by_cases hlt : c < limit
    · simp [hlt, eq_comm]
    · simp [hlt]

/-- The counters grown by the numbers of their occurrences. -/
def add (counts : List ℕ) (is : List ℕ) : List ℕ := counts.mapIdx fun i c => c + is.count i

theorem getElem?_add (is : List ℕ) (i : ℕ) :
    (add counts is)[i]? = counts[i]?.map (· + is.count i) := by
  rw [add, List.getElem?_mapIdx]

theorem add_nil : add counts [] = counts := by
  apply List.ext_getElem?
  intro i
  rw [getElem?_add]
  simp

/-- One increment is an occurrence of its index. -/
theorem add_cons {i c : ℕ} (hc : counts[i]? = some c) (is : List ℕ) :
    add (counts.set i (c + 1)) is = add counts (i :: is) := by
  apply List.ext_getElem?
  intro k
  rw [getElem?_add, getElem?_add, List.getElem?_set]
  rcases eq_or_ne i k with rfl | hk
  · have hi : i < counts.length := (List.getElem?_eq_some_iff.mp hc).1
    rw [if_pos rfl, if_pos hi, hc, Option.map_some, Option.map_some, List.count_cons_self]
    congr 1
    omega
  · rw [if_neg hk, List.count_cons_of_ne hk]

/-- Every index is inside the table, and its counter does not pass the limit. -/
def Room (limit : ℕ) (counts is : List ℕ) : Prop :=
  ∀ i ∈ is, ∃ c, counts[i]? = some c ∧ c + is.count i ≤ limit

theorem room_cons {i c : ℕ} (hc : counts[i]? = some c) (is : List ℕ) :
    Room limit counts (i :: is) ↔ c < limit ∧ Room limit (counts.set i (c + 1)) is := by
  have hi : i < counts.length := (List.getElem?_eq_some_iff.mp hc).1
  -- the indices that still come: their counters and what is left of their occurrences
  have hrest : ∀ k ∈ is, (∃ d, (counts.set i (c + 1))[k]? = some d ∧ d + is.count k ≤ limit) ↔
      ∃ d, counts[k]? = some d ∧ d + (i :: is).count k ≤ limit := by
    intro k _
    rcases eq_or_ne i k with rfl | hk
    · rw [List.getElem?_set_self hi, hc, List.count_cons_self]
      simp only [Option.some.injEq, exists_eq_left']
      omega
    · rw [List.getElem?_set_ne hk, List.count_cons_of_ne hk]
  constructor
  · intro h
    obtain ⟨d, hd, hle⟩ := h i (List.mem_cons_self ..)
    rw [hc, Option.some.injEq] at hd
    rw [← hd, List.count_cons_self] at hle
    exact ⟨by omega, fun k hk => (hrest k hk).mpr (h k (List.mem_cons_of_mem i hk))⟩
  · rintro ⟨hlt, h⟩ k hk
    by_cases hmem : k ∈ is
    · exact (hrest k hmem).mp (h k hmem)
    · obtain rfl : k = i := (List.mem_cons.mp hk).resolve_right hmem
      refine ⟨c, hc, ?_⟩
      rw [List.count_cons_self, List.count_eq_zero_of_not_mem hmem]
      omega

/-- A sequence of increments. -/
theorem foldlM_increment_ok {is : List ℕ} :
    is.foldlM (increment limit) counts = .ok counts' ↔
      Room limit counts is ∧ counts' = add counts is := by
  induction is generalizing counts with
  | nil =>
    rw [add_nil, List.foldlM_nil]
    refine ⟨fun h => ⟨nofun, (Except.ok.inj h).symm⟩, fun h => congrArg Except.ok h.2.symm⟩
  | cons i is ih =>
    rw [List.foldlM_cons]
    constructor
    · intro h
      cases hstep : increment limit counts i with
      | error e => rw [hstep] at h; cases h
      | ok counts₁ =>
        rw [hstep] at h
        obtain ⟨c, hc, hlt, rfl⟩ := increment_ok.mp hstep
        obtain ⟨hroom, rfl⟩ := ih.mp h
        exact ⟨(room_cons hc is).mpr ⟨hlt, hroom⟩, add_cons hc is⟩
    · rintro ⟨hroom, rfl⟩
      obtain ⟨c, hc, -⟩ := hroom i (List.mem_cons_self ..)
      obtain ⟨hlt, hroom⟩ := (room_cons hc is).mp hroom
      rw [increment_ok.mpr ⟨c, hc, hlt, rfl⟩]
      exact ih.mpr ⟨hroom, (add_cons hc is).symm⟩

end Counters
