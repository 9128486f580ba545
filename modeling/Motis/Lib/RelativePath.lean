import Mathlib.Data.List.ModifyLast
import Mathlib.Tactic.Common

/-! Relative paths.

    A path is a list of names, and a relative one leads up from a directory and down again:

        from   out / a / b      to   out / c / T      relative   .. / .. / c / T -/

structure RelativePath (α : Type) where
  up : ℕ
  down : List α
  deriving DecidableEq, Repr

namespace RelativePath

variable {α : Type} [DecidableEq α]

def relative : List α → List α → RelativePath α
  | a :: source, b :: target =>
    if a = b then relative source target else ⟨source.length + 1, b :: target⟩
  | [], target => ⟨0, target⟩
  | source, [] => ⟨source.length, []⟩

def resolve {α : Type} (source : List α) (p : RelativePath α) : List α :=
  source.take (source.length - p.up) ++ p.down

theorem up_relative_le (source target : List α) : (relative source target).up ≤ source.length := by
  fun_induction relative source target with
  | case1 source b target ih => exact Nat.le_succ_of_le ih
  | case2 a source b target hne => exact Nat.le_refl _
  | case3 target => exact Nat.le_refl _
  | case4 source hne => exact Nat.le_refl _

/-- A relative path leads where it was computed for. -/
theorem resolve_relative (source target : List α) :
    resolve source (relative source target) = target := by
  fun_induction relative source target with
  | case1 source b target ih =>
    have hle := up_relative_le source target
    rw [resolve, List.length_cons, Nat.succ_sub hle, List.take_succ_cons, List.cons_append]
    exact congrArg (b :: ·) ih
  | case2 a source b target hne => simp [resolve]
  | case3 target => simp [resolve]
  | case4 source hne => simp [resolve]

theorem relative_append (dir source target : List α) :
    relative (dir ++ source) (dir ++ target) = relative source target := by
  induction dir with
  | nil => rfl
  | cons a dir ih => rw [List.cons_append, List.cons_append, relative, if_pos rfl, ih]

/-- The path ends with the file's name when no directory that is left has it. -/
theorem relative_concat (dir target : List α) {source : List α} {file : α} (h : file ∉ source) :
    ∃ down, (relative (dir ++ source) (dir ++ target ++ [file])).down = down ++ [file] := by
  rw [List.append_assoc, relative_append]
  induction source generalizing target with
  | nil => exact ⟨target, by cases target <;> rfl⟩
  | cons a source ih =>
    obtain ⟨hne, hsource⟩ := List.ne_and_not_mem_of_not_mem_cons h
    cases target with
    | nil =>
      rw [List.nil_append, relative, if_neg hne.symm]
      exact ⟨[], rfl⟩
    | cons b target =>
      rw [List.cons_append, relative]
      split_ifs with heq
      · exact ih _ hsource
      · exact ⟨b :: target, rfl⟩

/-- A change of the last name on the way is a change of the last name of the target. -/
theorem resolve_modifyLast {source target down : List α} {file : α} (f : α → α)
    (h : (relative source (target ++ [file])).down = down ++ [file]) :
    resolve source { relative source (target ++ [file]) with
      down := (relative source (target ++ [file])).down.modifyLast f } = target ++ [f file] := by
  have hresolve := resolve_relative source (target ++ [file])
  rw [resolve, h, ← List.append_assoc] at hresolve
  rw [resolve, h, List.modifyLast_concat, ← List.append_assoc]
  exact congrArg (· ++ [f file]) (List.append_inj_left' hresolve rfl)

end RelativePath
