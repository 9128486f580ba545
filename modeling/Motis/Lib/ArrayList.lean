import Mathlib.Data.Nat.Notation
import Mathlib.Tactic.Common

/-! Loops over a list that their body changes.

    A list counts its modifications. A loop ends when its position is the size of the list; before
    it takes the next element it compares the count with the one it began with:

        position = size ──▶ finished        otherwise, count changed ──▶ concurrent modification

    So a body that changes the list runs once, and the loop then stops or throws. -/

structure ArrayList (α : Type) where
  elements : List α := []
  modCount : ℕ := 0

namespace ArrayList

variable {α σ : Type}

def size (l : ArrayList α) : ℕ := l.elements.length

def add (l : ArrayList α) (x : α) : ArrayList α := ⟨l.elements ++ [x], l.modCount + 1⟩

/-- The first one that is equal, if any. -/
def remove [DecidableEq α] (l : ArrayList α) (x : α) : ArrayList α :=
  if x ∈ l.elements then ⟨l.elements.erase x, l.modCount + 1⟩ else l

def clear (l : ArrayList α) : ArrayList α := ⟨[], l.modCount + 1⟩

@[simp] theorem elements_add (l : ArrayList α) (x : α) :
    (l.add x).elements = l.elements ++ [x] := rfl

@[simp] theorem elements_clear (l : ArrayList α) : l.clear.elements = [] := rfl

@[simp] theorem elements_remove [DecidableEq α] (l : ArrayList α) (x : α) :
    (l.remove x).elements = l.elements.erase x := by
  rw [remove]
  split
  · rfl
  · rename_i hx
    exact (List.erase_of_not_mem hx).symm

theorem modCount_remove [DecidableEq α] {l : ArrayList α} {x : α} (h : x ∈ l.elements) :
    (l.remove x).modCount = l.modCount + 1 := by
  rw [remove, if_pos h]

/-! ### Loops -/

/-- How a loop ends, with the state it leaves. -/
inductive Loop (σ : Type) where
  | finished (s : σ)
  | concurrentModification (s : σ)

def Loop.state : Loop σ → σ
  | .finished s => s
  | .concurrentModification s => s

variable (list : σ → ArrayList α) (body : σ → α → σ)

/-- From the position `cursor` on; `rest` are the elements there as long as the list is the one
    that the loop began with. -/
def forEachFrom (expectedModCount : ℕ) : List α → ℕ → σ → Loop σ
  | [], cursor, s =>
    if cursor = (list s).size then .finished s else .concurrentModification s
  | x :: rest, cursor, s =>
    if cursor = (list s).size then .finished s
    else if (list s).modCount ≠ expectedModCount then .concurrentModification s
    else forEachFrom expectedModCount rest (cursor + 1) (body s x)

/-- `for (x : list) body` -/
def forEach (s : σ) : Loop σ :=
  forEachFrom list body (list s).modCount (list s).elements 0 s

variable {list body} {s : σ}

/-- A body that leaves the list alone, in the states that it meets, runs for every element. -/
theorem forEachFrom_eq_foldl {I : σ → Prop}
    (hkeep : ∀ s x, I s → I (body s x) ∧ list (body s x) = list s) :
    ∀ (rest : List α) (cursor : ℕ) (s : σ), I s → cursor + rest.length = (list s).size →
      forEachFrom list body (list s).modCount rest cursor s = .finished (rest.foldl body s)
  | [], cursor, s, _, hsize => by
    rw [forEachFrom, if_pos (by simpa using hsize), List.foldl_nil]
  | x :: rest, cursor, s, hI, hsize => by
    rw [List.length_cons] at hsize
    obtain ⟨hI', hlist⟩ := hkeep s x hI
    have hnext : cursor + 1 + rest.length = (list (body s x)).size := by
      rw [hlist]
      omega
    have ih := forEachFrom_eq_foldl hkeep rest (cursor + 1) (body s x) hI' hnext
    rw [hlist] at ih
    rw [forEachFrom, if_neg (by omega), if_neg (not_not.mpr rfl), ih, List.foldl_cons]

theorem forEach_eq_foldl {I : σ → Prop}
    (hkeep : ∀ s x, I s → I (body s x) ∧ list (body s x) = list s) (hI : I s) :
    forEach list body s = .finished ((list s).elements.foldl body s) :=
  forEachFrom_eq_foldl hkeep _ 0 s hI (Nat.zero_add _)

/-- A loop whose first elements change nothing goes on behind them. -/
theorem forEachFrom_append {before after : List α} (hkeep : ∀ x ∈ before, body s x = s)
    {cursor : ℕ} (hsize : cursor + (before ++ after).length = (list s).size) :
    forEachFrom list body (list s).modCount (before ++ after) cursor s =
      forEachFrom list body (list s).modCount after (cursor + before.length) s := by
  induction before generalizing cursor with
  | nil => rfl
  | cons x before ih =>
    rw [List.cons_append, List.length_cons] at hsize
    have hx : body s x = s := hkeep x (List.mem_cons_self ..)
    rw [List.cons_append, forEachFrom, if_neg (by omega), if_neg (not_not.mpr rfl), hx,
      ih (fun y hy => hkeep y (List.mem_cons_of_mem x hy)) (by omega), List.length_cons]
    congr 1
    omega

/-- A body that changes nothing. -/
theorem forEach_eq_self (hkeep : ∀ x ∈ (list s).elements, body s x = s) :
    forEach list body s = .finished s := by
  have hend : 0 + (list s).elements.length = (list s).size := Nat.zero_add _
  have hsize : 0 + ((list s).elements ++ []).length = (list s).size := by
    rw [List.append_nil, hend]
  have hrest : forEachFrom list body (list s).modCount ((list s).elements ++ []) 0 s =
      forEachFrom list body (list s).modCount [] (0 + (list s).elements.length) s :=
    forEachFrom_append hkeep hsize
  rw [List.append_nil] at hrest
  rw [forEach, hrest, forEachFrom, if_pos hend]

/-- The first element whose body modifies the list is the last one; the loop goes unnoticed to its
    end when that makes its position the size. -/
theorem forEach_eq_of_first {before after : List α} {x : α}
    (hlist : (list s).elements = before ++ x :: after) (hkeep : ∀ y ∈ before, body s y = s)
    (hmodified : (list (body s x)).modCount ≠ (list s).modCount) :
    forEach list body s =
      if before.length + 1 = (list (body s x)).size then .finished (body s x)
      else .concurrentModification (body s x) := by
  have hsize : 0 + (before ++ x :: after).length = (list s).size := by
    rw [ArrayList.size, hlist, Nat.zero_add]
  have hcursor : 0 + before.length ≠ (list s).size := by
    rw [← hsize, List.length_append, List.length_cons]
    omega
  rw [forEach, hlist, forEachFrom_append hkeep hsize, forEachFrom, if_neg hcursor,
    if_neg (not_not.mpr rfl), Nat.zero_add]
  cases after with
  | nil => rfl
  | cons y after => rw [forEachFrom, if_pos hmodified]

end ArrayList
