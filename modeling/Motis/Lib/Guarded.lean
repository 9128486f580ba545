import Mathlib.Logic.Function.Iterate
import Mathlib.Tactic.Common

/-! Recursive equations between predicates.

    An equation says what holds of `a` in terms of what holds elsewhere. When it only looks at what
    has a smaller measure, there is one predicate that solves it: going down ends.

        F a ↔ Φ F a        Φ F a  looks at  F b  for  μ b < μ a -/

namespace Guarded

variable {α : Type} {μ : α → ℕ} {Φ : (α → Prop) → α → Prop}

/-- Predicates that agree on what is smaller give the same at `a`. -/
def IsGuarded (μ : α → ℕ) (Φ : (α → Prop) → α → Prop) : Prop :=
  ∀ F G a, (∀ b, μ b < μ a → (F b ↔ G b)) → (Φ F a ↔ Φ G a)

def Solves (Φ : (α → Prop) → α → Prop) (F : α → Prop) : Prop := ∀ a, F a ↔ Φ F a

theorem agree (hΦ : IsGuarded μ Φ) {F G : α → Prop} (hF : Solves Φ F) (hG : Solves Φ G) (n : ℕ) :
    ∀ a, μ a < n → (F a ↔ G a) := by
  induction n with
  | zero => simp
  | succ n ih =>
    intro a ha
    rw [hF a, hG a]
    exact hΦ F G a fun b hb => ih b (by omega)

theorem unique (hΦ : IsGuarded μ Φ) {F G : α → Prop} (hF : Solves Φ F) (hG : Solves Φ G) (a : α) :
    F a ↔ G a :=
  agree hΦ hF hG (μ a + 1) a (by omega)

/-- The equation unfolded as often as the measure says. -/
def solution (μ : α → ℕ) (Φ : (α → Prop) → α → Prop) (a : α) : Prop :=
  Φ^[μ a + 1] (fun _ => False) a

/-- Unfolding once more changes nothing. -/
theorem iterate_stable (hΦ : IsGuarded μ Φ) (m n : ℕ) (a : α) (hm : μ a < m) (hn : μ a < n) :
    Φ^[m] (fun _ => False) a ↔ Φ^[n] (fun _ => False) a := by
  induction m generalizing n a with
  | zero => omega
  | succ m ih =>
    cases n with
    | zero => omega
    | succ n =>
      rw [Function.iterate_succ_apply', Function.iterate_succ_apply']
      exact hΦ _ _ a fun b hb => ih n b (by omega) (by omega)

theorem solution_solves (hΦ : IsGuarded μ Φ) : Solves Φ (solution μ Φ) := by
  intro a
  rw [solution, Function.iterate_succ_apply']
  exact hΦ _ _ a fun b hb => iterate_stable hΦ _ _ b hb (by omega)

end Guarded
