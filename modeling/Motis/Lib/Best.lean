import Mathlib.Data.List.Basic
import Mathlib.Data.List.Induction
import Mathlib.Order.Basic
import Mathlib.Order.Nat
import Mathlib.Data.Nat.Notation
import Mathlib.Tactic.Common

/-! The running best.

    Candidates are looked at one after the other, and one is kept when it costs less than all
    before. What is left is the first of the cheapest ones, if one costs less than the limit. -/

namespace Best

variable {α : Type} (cost : α → ℕ)

def keep (b : ℕ × Option α) (c : α) : ℕ × Option α :=
  if cost c < b.1 then (cost c, some c) else b

def best (limit : ℕ) (l : List α) : ℕ × Option α := l.foldl (keep cost) (limit, none)

/-- The first of the cheapest elements, below the limit. -/
structure IsFirstBest (limit : ℕ) (l : List α) (c : α) : Prop where
  split : ∃ pre post, l = pre ++ c :: post ∧ (∀ a ∈ pre, cost c < cost a) ∧
    ∀ a ∈ post, cost c ≤ cost a
  lt_limit : cost c < limit

variable {cost} {limit : ℕ} {l : List α}

theorem IsFirstBest.mem {c : α} (h : IsFirstBest cost limit l c) : c ∈ l := by
  obtain ⟨pre, post, rfl, -, -⟩ := h.split
  exact List.mem_append_right _ (List.mem_cons_self ..)

theorem IsFirstBest.le {c a : α} (h : IsFirstBest cost limit l c) (ha : a ∈ l) :
    cost c ≤ cost a := by
  obtain ⟨pre, post, rfl, hpre, hpost⟩ := h.split
  rcases List.mem_append.mp ha with ha | ha
  · exact (hpre a ha).le
  · rcases List.mem_cons.mp ha with rfl | ha
    · exact le_rfl
    · exact hpost a ha

theorem best_concat (l : List α) (c : α) :
    best cost limit (l ++ [c]) = keep cost (best cost limit l) c := by
  rw [best, List.foldl_concat, best]

/-- Nothing is below the limit, or the first of the cheapest is kept. -/
theorem best_spec (cost : α → ℕ) (limit : ℕ) (l : List α) :
    best cost limit l = (limit, none) ∧ (∀ a ∈ l, limit ≤ cost a) ∨
      ∃ c, best cost limit l = (cost c, some c) ∧ IsFirstBest cost limit l c := by
  induction l using List.reverseRecOn with
  | nil => exact .inl ⟨rfl, fun a ha => absurd ha List.not_mem_nil⟩
  | append_singleton l a ih =>
    rw [best_concat]
    rcases ih with ⟨hbest, hlimit⟩ | ⟨c, hbest, hc⟩
    · rw [hbest, keep]
      split
      · rename_i hlt
        have hlt : cost a < limit := hlt
        exact .inr ⟨a, rfl, ⟨l, [], rfl, fun b hb => hlt.trans_le (hlimit b hb),
          fun b hb => absurd hb List.not_mem_nil⟩, hlt⟩
      · rename_i hle
        refine .inl ⟨rfl, fun b hb => ?_⟩
        rcases List.mem_append.mp hb with hb | hb
        · exact hlimit b hb
        · obtain rfl := List.mem_singleton.mp hb
          exact not_lt.mp hle
    · rw [hbest, keep]
      split
      · rename_i hlt
        have hlt : cost a < cost c := hlt
        exact .inr ⟨a, rfl, ⟨l, [], rfl, fun b hb => hlt.trans_le (hc.le hb),
          fun b hb => absurd hb List.not_mem_nil⟩, hlt.trans hc.lt_limit⟩
      · rename_i hle
        obtain ⟨pre, post, rfl, hpre, hpost⟩ := hc.split
        refine .inr ⟨c, rfl, ⟨pre, post ++ [a], by simp, hpre, fun b hb => ?_⟩, hc.lt_limit⟩
        rcases List.mem_append.mp hb with hb | hb
        · exact hpost b hb
        · obtain rfl := List.mem_singleton.mp hb
          exact not_lt.mp hle

/-- Every bad element below the limit is beaten by a good one: by one before it that costs no more,
    or by one behind it that costs less. -/
def Beaten (cost : α → ℕ) (limit : ℕ) (good : α → Prop) (l : List α) : Prop :=
  ∀ pre c post, l = pre ++ c :: post → cost c < limit → ¬good c →
    (∃ a ∈ pre, good a ∧ cost a ≤ cost c) ∨ ∃ a ∈ post, good a ∧ cost a < cost c

/-- What is kept is good exactly when the bad elements are beaten. -/
theorem best_good_iff {good : α → Prop} :
    (∀ c, (best cost limit l).2 = some c → good c) ↔ Beaten cost limit good l := by
  rcases best_spec cost limit l with ⟨hbest, hlimit⟩ | ⟨c, hbest, hc⟩
  · rw [hbest]
    refine iff_of_true (fun c hc => by cases hc) fun pre c post hl hlt => ?_
    have hmem : c ∈ l := hl ▸ List.mem_append_right _ (List.mem_cons_self ..)
    exact absurd hlt (not_lt.mpr (hlimit c hmem))
  · rw [hbest]
    have hc' := hc
    obtain ⟨⟨pre, post, rfl, hpre, hpost⟩, hlt⟩ := hc'
    constructor
    · intro h pre' a post' hl _ hbad
      have hgood : good c := h c rfl
      -- the kept one stands before or behind the bad one
      rcases List.append_eq_append_iff.mp hl with ⟨m, rfl, hm⟩ | ⟨m, rfl, hm⟩
      · cases m with
        | nil =>
          obtain ⟨rfl, -⟩ := List.cons_eq_cons.mp hm
          exact absurd hgood hbad
        | cons b m =>
          obtain ⟨rfl, rfl⟩ := List.cons_eq_cons.mp hm
          exact .inl ⟨c, List.mem_append_right _ (List.mem_cons_self ..), hgood,
            hpost a (List.mem_append_right _ (List.mem_cons_self ..))⟩
      · cases m with
        | nil =>
          obtain ⟨rfl, -⟩ := List.cons_eq_cons.mp hm
          exact absurd hgood hbad
        | cons b m =>
          obtain ⟨rfl, rfl⟩ := List.cons_eq_cons.mp hm
          exact .inr ⟨c, List.mem_append_right _ (List.mem_cons_self ..), hgood,
            hpre a (List.mem_append_right _ (List.mem_cons_self ..))⟩
    · rintro h c' hc'
      obtain rfl := Option.some.inj hc'
      by_contra hbad
      rcases h pre c post rfl hlt hbad with ⟨a, ha, -, hle⟩ | ⟨a, ha, -, hless⟩
      · exact absurd (hpre a ha) (not_lt.mpr hle)
      · exact absurd hless (not_lt.mpr (hpost a ha))

/-! ### Several bests -/

/-- Updates of the elements of a list, each seen from its own place. -/
theorem getElem?_foldl_modify {β γ : Type} (index : γ → ℕ) (f : β → γ → β) (cs : List γ)
    (bs : List β) (p : ℕ) :
    (cs.foldl (fun bs c => bs.modify (index c) fun b => f b c) bs)[p]? =
      (bs[p]?).map fun b => (cs.filter fun c => index c = p).foldl f b := by
  induction cs generalizing bs with
  | nil => simp
  | cons c cs ih =>
    rw [List.foldl_cons, ih, List.getElem?_modify, List.filter_cons]
    by_cases hp : index c = p
    · cases bs[p]? <;> simp [hp]
    · cases bs[p]? <;> simp [hp]

end Best
