import Mathlib.Tactic.Common

/-! Runs of a guarded transition system.

    A run is a list of events, each of them enabled in the state it meets:

        s ──e₁──▶ s₁ ──e₂──▶ s₂ ──▶ …

    A property of states holds always in a run when it holds in `s`, `s₁`, `s₂`, …; a property of
    steps holds of each when it holds of `(s, e₁)`, `(s₁, e₂)`, …. -/

namespace Runs

structure System (σ ε : Type) where
  enabled : σ → ε → Prop
  step : σ → ε → σ

variable {σ ε : Type} (M : System σ ε)

/-- The state after the events. -/
def exec (s : σ) (es : List ε) : σ := es.foldl M.step s

/-- Every event is enabled in the state it meets. -/
def Feasible : σ → List ε → Prop
  | _, [] => True
  | s, e :: es => M.enabled s e ∧ Feasible (M.step s e) es

/-- `P` holds in every state of the run. -/
def Always (P : σ → Prop) : σ → List ε → Prop
  | s, [] => P s
  | s, e :: es => P s ∧ Always P (M.step s e) es

/-- `Q` holds of every step of the run. -/
def Each (Q : σ → ε → Prop) : σ → List ε → Prop
  | _, [] => True
  | s, e :: es => Q s e ∧ Each Q (M.step s e) es

instance Feasible.decidable [∀ s e, Decidable (M.enabled s e)] :
    (s : σ) → (es : List ε) → Decidable (Feasible M s es)
  | _, [] => .isTrue trivial
  | s, e :: es =>
    have := Feasible.decidable (M.step s e) es
    inferInstanceAs (Decidable (M.enabled s e ∧ Feasible M (M.step s e) es))

variable {M} {P I : σ → Prop} {Q : σ → ε → Prop} {s : σ} {es : List ε}

theorem Always.head (h : Always M P s es) : P s := by
  cases es with
  | nil => exact h
  | cons e es => exact h.1

theorem Always.last (h : Always M P s es) : P (exec M s es) := by
  induction es generalizing s with
  | nil => exact h
  | cons e es ih => exact ih h.2

/-- An invariant of the steps that satisfy `Q` holds always when they all do. -/
theorem always_of_invariant (hstep : ∀ s e, I s → M.enabled s e → Q s e → I (M.step s e))
    (hI : I s) (hrun : Feasible M s es) (hQ : Each M Q s es) : Always M I s es := by
  induction es generalizing s with
  | nil => exact hI
  | cons e es ih => exact ⟨hI, ih (hstep s e hI hrun.1 hQ.1) hrun.2 hQ.2⟩

theorem feasible_of_enabled (h : ∀ s e, M.enabled s e) : Feasible M s es := by
  induction es generalizing s with
  | nil => trivial
  | cons e es ih => exact ⟨h s e, ih⟩

theorem each_true : Each M (fun _ _ => True) s es := by
  induction es generalizing s with
  | nil => trivial
  | cons e es ih => exact ⟨trivial, ih⟩

/-- An invariant of all steps holds always. -/
theorem always_of_inductive (hstep : ∀ s e, I s → M.enabled s e → I (M.step s e)) (hI : I s)
    (hrun : Feasible M s es) : Always M I s es :=
  always_of_invariant (fun s e h henabled _ => hstep s e h henabled) hI hrun each_true

/-- A property the steps with `Q` have under an invariant is one of each step. -/
theorem each_of_invariant {R : σ → ε → Prop}
    (hstep : ∀ s e, I s → M.enabled s e → Q s e → I (M.step s e))
    (himp : ∀ s e, I s → M.enabled s e → Q s e → R s e)
    (hI : I s) (hrun : Feasible M s es) (hQ : Each M Q s es) : Each M R s es := by
  induction es generalizing s with
  | nil => trivial
  | cons e es ih =>
    exact ⟨himp s e hI hrun.1 hQ.1, ih (hstep s e hI hrun.1 hQ.1) hrun.2 hQ.2⟩

theorem Always.imp {P' : σ → Prop} (himp : ∀ s, P s → P' s) (h : Always M P s es) :
    Always M P' s es := by
  induction es generalizing s with
  | nil => exact himp s h
  | cons e es ih => exact ⟨himp s h.1, ih h.2⟩

/-- When the steps with `Q` keep an invariant that implies `P`, and satisfy `R`, and the others miss
    one of both, a run stays in `P` with steps of `R` if and only if all of its steps satisfy `Q`. -/
theorem always_and_each_iff {R : σ → ε → Prop}
    (hstep : ∀ s e, I s → M.enabled s e → Q s e → I (M.step s e)) (himp : ∀ s, I s → P s)
    (hR : ∀ s e, I s → M.enabled s e → Q s e → R s e)
    (hleave : ∀ s e, I s → M.enabled s e → P (M.step s e) → R s e → Q s e)
    (hI : I s) (hrun : Feasible M s es) : Always M P s es ∧ Each M R s es ↔ Each M Q s es := by
  constructor
  · rintro ⟨hP, heach⟩
    induction es generalizing s with
    | nil => trivial
    | cons e es ih =>
      have hQ : Q s e := hleave s e hI hrun.1 hP.2.head heach.1
      exact ⟨hQ, ih (hstep s e hI hrun.1 hQ) hrun.2 hP.2 heach.2⟩
  · intro hQ
    exact ⟨(always_of_invariant hstep hI hrun hQ).imp himp,
      each_of_invariant hstep hR hI hrun hQ⟩

/-- When the steps with `Q` keep an invariant that implies `P`, and the others end outside of `P`,
    a run stays in `P` if and only if all of its steps satisfy `Q`. -/
theorem always_iff_each (hstep : ∀ s e, I s → M.enabled s e → Q s e → I (M.step s e))
    (himp : ∀ s, I s → P s)
    (hleave : ∀ s e, I s → M.enabled s e → P (M.step s e) → Q s e)
    (hI : I s) (hrun : Feasible M s es) : Always M P s es ↔ Each M Q s es := by
  have hiff := always_and_each_iff hstep himp (fun _ _ _ _ _ => True.intro)
    (fun s e h henabled hP _ => hleave s e h henabled hP) hI hrun
  exact ⟨fun h => hiff.mp ⟨h, each_true⟩, fun h => (hiff.mpr h).1⟩

end Runs
