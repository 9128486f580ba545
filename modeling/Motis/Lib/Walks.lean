import Mathlib.Order.Lattice.Nat
import Mathlib.Order.Bounds.Basic
import Mathlib.Tactic.Common

/-! Weights of walks, and their relaxation in place.

    A walk has one edge at least:

        i ──▶ v₁ ──▶ v₂ ──▶ … ──▶ j

    An estimate of every pair is relaxed over the detours through one vertex after the other. Weights
    are never negative, so that two bounds are enough, whatever the order of the pairs: an estimate
    is the weight of some walk, up to a cap, and no walk through the relaxed vertices weighs less. -/

namespace Walks

variable {V : Type} (W : V → V → ℕ)

/-- The weight of the walk from `i` through `vs` to `j`. -/
def weight : V → List V → V → ℕ
  | i, [], j => W i j
  | i, v :: vs, j => W i v + weight v vs j

variable {W}

theorem weight_append (i k j : V) (us vs : List V) :
    weight W i (us ++ k :: vs) j = weight W i us k + weight W k vs j := by
  induction us generalizing i with
  | nil => rfl
  | cons u us ih =>
    calc weight W i (u :: us ++ k :: vs) j = W i u + weight W u (us ++ k :: vs) j := rfl
      _ = W i u + (weight W u us k + weight W k vs j) := by rw [ih]
      _ = weight W i (u :: us) k + weight W k vs j := (Nat.add_assoc ..).symm

/-- A walk avoids a vertex, or is not lighter than a walk to it and one from it that do. -/
theorem avoid_or_detour {S : V → Prop} {k j : V} {vs : List V} (h : ∀ v ∈ vs, S v ∨ v = k) (i : V) :
    (∀ v ∈ vs, S v) ∨ ∃ us ws, (∀ v ∈ us, S v) ∧ (∀ v ∈ ws, S v) ∧
      weight W i us k + weight W k ws j ≤ weight W i vs j := by
  induction vs generalizing i with
  | nil => exact .inl nofun
  | cons v vs ih =>
    obtain ⟨hv, hvs⟩ := List.forall_mem_cons.mp h
    rcases hv with hv | rfl
    · rcases ih hvs v with hvs | ⟨us, ws, hus, hws, hle⟩
      · exact .inl (List.forall_mem_cons.mpr ⟨hv, hvs⟩)
      · refine .inr ⟨v :: us, ws, List.forall_mem_cons.mpr ⟨hv, hus⟩, hws, ?_⟩
        rw [weight, weight, Nat.add_assoc]
        exact Nat.add_le_add_left hle _
    · -- the walk meets the vertex, and what comes before its last visit is left out
      rcases ih hvs v with hvs | ⟨us, ws, -, hws, hle⟩
      · exact .inr ⟨[], vs, nofun, hvs, le_rfl⟩
      · exact .inr ⟨[], ws, nofun, hws,
          Nat.add_le_add_left ((Nat.le_add_left ..).trans hle) (W i v)⟩

/-! ### Bounds -/

variable {cap : ℕ} {d : V → V → ℕ}

variable (W cap) in
/-- Every estimate is the weight of a walk, up to the cap. -/
def Realised (d : V → V → ℕ) : Prop := ∀ i j, ∃ vs, d i j = min cap (weight W i vs j)

variable (W) in
/-- No walk through the vertices of `S` only weighs less than the estimate. -/
def Within (S : V → Prop) (d : V → V → ℕ) : Prop :=
  ∀ i j vs, (∀ v ∈ vs, S v) → d i j ≤ weight W i vs j

variable (W cap) in
/-- Up to the cap, the least weight of a walk. -/
def Shortest (d : V → V → ℕ) : Prop :=
  ∀ i j, ∃ s, IsLeast (Set.range fun vs => weight W i vs j) s ∧ d i j = min cap s

theorem min_cap_add (a b : ℕ) : min cap (min cap a + min cap b) = min cap (a + b) := by
  omega

theorem realised_self (h : ∀ i j, W i j ≤ cap) : Realised W cap W := by
  intro i j
  exact ⟨[], (Nat.min_eq_right (h i j)).symm⟩

theorem within_self : Within W (fun _ => False) W := by
  intro i j vs hvs
  cases vs with
  | nil => exact le_rfl
  | cons v vs => exact (hvs v (List.mem_cons_self ..)).elim

theorem shortest_of_within (hreal : Realised W cap d) (hwithin : Within W (fun _ => True) d) :
    Shortest W cap d := by
  intro i j
  have hne : (Set.range fun vs => weight W i vs j).Nonempty := Set.range_nonempty _
  have hleast : IsLeast (Set.range fun vs => weight W i vs j)
      (sInf (Set.range fun vs => weight W i vs j)) :=
    ⟨Nat.sInf_mem hne, fun _ h => Nat.sInf_le h⟩
  obtain ⟨us, hus⟩ := hleast.1
  obtain ⟨vs, hvs⟩ := hreal i j
  refine ⟨_, hleast, le_antisymm (le_min ?_ ?_) ?_⟩
  · exact hvs.trans_le (Nat.min_le_left ..)
  · exact (hwithin i j us fun _ _ => trivial).trans_eq hus
  · rw [hvs]
    exact min_le_min_left cap (hleast.2 ⟨vs, rfl⟩)

/-- A detour through a third vertex is no improvement. -/
theorem Shortest.triangle (h : Shortest W cap d) (i k j : V) :
    d i j ≤ min cap (d i k + d k j) := by
  obtain ⟨s, hs, hij⟩ := h i j
  obtain ⟨t, ⟨⟨us, rfl⟩, -⟩, hik⟩ := h i k
  obtain ⟨u, ⟨⟨vs, rfl⟩, -⟩, hkj⟩ := h k j
  rw [hij, hik, hkj, min_cap_add]
  exact min_le_min_left cap (hs.2 ⟨us ++ k :: vs, weight_append ..⟩)

/-! ### Relaxation -/

variable [DecidableEq V]

variable (cap) in
/-- The detour from `i` through `k` to `j`, if it is better. -/
def relax (k : V) (d : V → V → ℕ) (p : V × V) : V → V → ℕ := fun a b =>
  if a = p.1 ∧ b = p.2 then min (d a b) (min cap (d a k + d k b)) else d a b

variable (cap) in
/-- One vertex, for all pairs. -/
def relaxVia (pairs : List (V × V)) (d : V → V → ℕ) (k : V) : V → V → ℕ :=
  pairs.foldl (relax cap k) d

variable (cap) in
def relaxAll (pairs : List (V × V)) (ks : List V) (d : V → V → ℕ) : V → V → ℕ :=
  ks.foldl (relaxVia cap pairs) d

variable {pairs : List (V × V)} {ks : List V} {k : V}

theorem relax_le (p : V × V) (a b : V) : relax cap k d p a b ≤ d a b := by
  rw [relax]
  split
  · exact Nat.min_le_left ..
  · exact le_rfl

theorem relax_self_le (i j : V) : relax cap k d (i, j) i j ≤ d i k + d k j := by
  rw [relax, if_pos ⟨rfl, rfl⟩]
  exact (Nat.min_le_right ..).trans (Nat.min_le_right ..)

theorem relaxVia_le (a b : V) : relaxVia cap pairs d k a b ≤ d a b := by
  induction pairs generalizing d with
  | nil => exact le_rfl
  | cons p pairs ih => exact (ih (d := relax cap k d p)).trans (relax_le p a b)

/-- The estimates of the two parts of a detour may be better already when it is looked at. -/
theorem relaxVia_le_detour {i j : V} (h : (i, j) ∈ pairs) :
    relaxVia cap pairs d k i j ≤ d i k + d k j := by
  induction pairs generalizing d with
  | nil => cases h
  | cons p pairs ih =>
    rcases List.mem_cons.mp h with rfl | h
    · exact (relaxVia_le (d := relax cap k d (i, j)) i j).trans (relax_self_le i j)
    · exact (ih h (d := relax cap k d p)).trans
        (Nat.add_le_add (relax_le p i k) (relax_le p k j))

theorem Realised.relax (h : Realised W cap d) (p : V × V) : Realised W cap (relax cap k d p) := by
  intro a b
  rw [Walks.relax]
  split
  · rcases Nat.le_total (d a b) (min cap (d a k + d k b)) with hle | hle
    · rw [Nat.min_eq_left hle]
      exact h a b
    · rw [Nat.min_eq_right hle]
      obtain ⟨us, hus⟩ := h a k
      obtain ⟨vs, hvs⟩ := h k b
      exact ⟨us ++ k :: vs, by rw [hus, hvs, min_cap_add, weight_append]⟩
  · exact h a b

theorem Realised.relaxVia (h : Realised W cap d) (k : V) :
    Realised W cap (relaxVia cap pairs d k) := by
  induction pairs generalizing d with
  | nil => exact h
  | cons p pairs ih => exact ih (h.relax p)

theorem Realised.relaxAll (h : Realised W cap d) : Realised W cap (relaxAll cap pairs ks d) := by
  induction ks generalizing d with
  | nil => exact h
  | cons k ks ih => exact ih (h.relaxVia k)

/-- The round of `k` adds it to the vertices of the walks. -/
theorem Within.relaxVia {S : V → Prop} (h : Within W S d) (hall : ∀ p, p ∈ pairs) (k : V) :
    Within W (fun v => S v ∨ v = k) (relaxVia cap pairs d k) := by
  intro i j vs hvs
  rcases avoid_or_detour hvs i with hvs | ⟨us, ws, hus, hws, hle⟩
  · exact (relaxVia_le i j).trans (h i j vs hvs)
  · calc Walks.relaxVia cap pairs d k i j ≤ d i k + d k j := relaxVia_le_detour (hall (i, j))
      _ ≤ weight W i us k + weight W k ws j := Nat.add_le_add (h i k us hus) (h k j ws hws)
      _ ≤ weight W i vs j := hle

theorem Within.relaxAll {S : V → Prop} (h : Within W S d) (hall : ∀ p, p ∈ pairs) :
    Within W (fun v => S v ∨ v ∈ ks) (relaxAll cap pairs ks d) := by
  induction ks generalizing S d with
  | nil =>
    intro i j vs hvs
    exact h i j vs fun v hv => (hvs v hv).resolve_right List.not_mem_nil
  | cons k ks ih =>
    intro i j vs hvs
    refine ih (h.relaxVia hall k) i j vs fun v hv => ?_
    rcases hvs v hv with hS | hmem
    · exact .inl (.inl hS)
    · rcases List.mem_cons.mp hmem with rfl | hmem
      · exact .inl (.inr rfl)
      · exact .inr hmem

/-- After the rounds of all vertices the estimates are exact. -/
theorem shortest_relaxAll (hcap : ∀ i j, W i j ≤ cap) (hpairs : ∀ p, p ∈ pairs)
    (hks : ∀ k, k ∈ ks) : Shortest W cap (relaxAll cap pairs ks W) :=
  shortest_of_within (realised_self hcap).relaxAll
    fun i j vs _ => within_self.relaxAll hpairs i j vs fun v _ => .inr (hks v)

theorem Shortest.relax (h : Shortest W cap d) (k : V) (p : V × V) : relax cap k d p = d := by
  funext a b
  rw [Walks.relax]
  split
  · exact Nat.min_eq_left (h.triangle a k b)
  · rfl

end Walks
