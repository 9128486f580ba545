import Mathlib.Algebra.BigOperators.Group.List.Basic
import Mathlib.Algebra.Order.Field.Rat

/-! Numbers of JavaScript, with exact arithmetic.

    A division by zero gives an infinity, or `NaN` when zero is divided; zero has no sign. -/

inductive JsNumber where
  | finite (x : ℚ)
  | infinity (negative : Bool)
  | nan
  deriving DecidableEq, Repr

namespace JsNumber

instance : Zero JsNumber := ⟨.finite 0⟩

def neg : JsNumber → JsNumber
  | finite x => finite (-x)
  | infinity negative => infinity !negative
  | nan => nan

def add : JsNumber → JsNumber → JsNumber
  | finite x, finite y => finite (x + y)
  | infinity a, infinity b => if a = b then infinity a else nan
  | infinity a, finite _ | finite _, infinity a => infinity a
  | nan, _ | _, nan => nan

instance : Add JsNumber := ⟨add⟩

instance : Sub JsNumber := ⟨fun x y => x + y.neg⟩

def mul : JsNumber → JsNumber → JsNumber
  | finite x, finite y => finite (x * y)
  | infinity a, infinity b => infinity (a ≠ b)
  | infinity a, finite x | finite x, infinity a =>
    if x = 0 then nan else infinity (a ≠ decide (x < 0))
  | nan, _ | _, nan => nan

instance : Mul JsNumber := ⟨mul⟩

def div : JsNumber → JsNumber → JsNumber
  | finite x, finite y =>
    if y ≠ 0 then finite (x / y)
    else if x = 0 then nan
    else infinity (x < 0)
  | infinity a, finite y => infinity (a ≠ decide (y < 0))
  | finite _, infinity _ => finite 0
  | infinity _, infinity _ | nan, _ | _, nan => nan

instance : Div JsNumber := ⟨div⟩

/-- `x >= y` -/
def ge : JsNumber → JsNumber → Bool
  | finite x, finite y => x ≥ y
  | infinity a, infinity b => a = b || b
  | infinity a, finite _ => !a
  | finite _, infinity b => b
  | nan, _ | _, nan => false

theorem finite_add (x y : ℚ) : finite x + finite y = finite (x + y) := rfl

theorem finite_sub (x y : ℚ) : finite x - finite y = finite (x - y) :=
  congrArg finite (sub_eq_add_neg x y).symm

theorem finite_mul (x y : ℚ) : finite x * finite y = finite (x * y) := rfl

theorem finite_div {y : ℚ} (h : y ≠ 0) (x : ℚ) : finite x / finite y = finite (x / y) :=
  if_pos h

theorem zero_div_zero : finite 0 / finite 0 = nan := rfl

/-- A share of nothing is infinite, or not a number. -/
theorem div_zero_mul {x y : ℚ} (hx : x ≠ 0) (hy : 0 < y) :
    finite x / finite 0 * finite y = infinity (x < 0) := by
  have hdiv : finite x / finite 0 = infinity (x < 0) := by
    change (if (0 : ℚ) ≠ 0 then finite (x / 0) else if x = 0 then nan else infinity (x < 0)) = _
    rw [if_neg (not_not.mpr rfl), if_neg hx]
  rw [hdiv]
  change (if y = 0 then nan else infinity (decide (x < 0) ≠ decide (y < 0))) = _
  rw [if_neg hy.ne', decide_eq_false (not_lt.mpr hy.le)]
  simp

theorem nan_mul (x : JsNumber) : nan * x = nan := by
  cases x <;> rfl

theorem sum_finite {α : Type} (f : α → ℚ) (l : List α) :
    (l.map fun a => finite (f a)).sum = finite (l.map f).sum := by
  induction l with
  | nil => rfl
  | cons a l ih => rw [List.map_cons, List.sum_cons, ih, List.map_cons, List.sum_cons, finite_add]

end JsNumber
