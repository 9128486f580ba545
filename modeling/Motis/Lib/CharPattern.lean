import Mathlib.Data.List.Forall2
import Mathlib.Tactic.Common

/-! Patterns of characters.

    A pattern is a sequence of classes, each for one character or for any number of them:

        one a   many x   one b        "a" ─ "…" ─ "b" -/

namespace CharPattern

inductive Item (α : Type) where
  | one (p : α → Bool)
  | many (p : α → Bool)

variable {α : Type}

/-- The word is made of the parts that the items stand for. -/
def Matches : List (Item α) → List α → Prop
  | [], s => s = []
  | .one p :: items, s => ∃ c s', s = c :: s' ∧ p c = true ∧ Matches items s'
  | .many p :: items, s => ∃ u v, s = u ++ v ∧ (∀ c ∈ u, p c = true) ∧ Matches items v

/-- Some characters of a class, and then the rest. -/
def matchMany (p : α → Bool) (rest : List α → Bool) : List α → Bool
  | [] => rest []
  | c :: s => rest (c :: s) || (p c && matchMany p rest s)

def run : List (Item α) → List α → Bool
  | [], s => s.isEmpty
  | .one _ :: _, [] => false
  | .one p :: items, c :: s => p c && run items s
  | .many p :: items, s => matchMany p (run items) s

theorem matchMany_iff (p : α → Bool) (rest : List α → Bool) (s : List α) :
    matchMany p rest s = true ↔
      ∃ u v, s = u ++ v ∧ (∀ c ∈ u, p c = true) ∧ rest v = true := by
  induction s with
  | nil =>
    rw [matchMany]
    constructor
    · exact fun h => ⟨[], [], rfl, nofun, h⟩
    · rintro ⟨u, v, heq, -, h⟩
      obtain ⟨rfl, rfl⟩ := List.append_eq_nil_iff.mp heq.symm
      exact h
  | cons c s ih =>
    rw [matchMany, Bool.or_eq_true, Bool.and_eq_true, ih]
    constructor
    · rintro (h | ⟨hc, u, v, rfl, hu, h⟩)
      · exact ⟨[], c :: s, rfl, nofun, h⟩
      · exact ⟨c :: u, v, rfl, List.forall_mem_cons.mpr ⟨hc, hu⟩, h⟩
    · rintro ⟨u, v, heq, hu, h⟩
      cases u with
      | nil =>
        rw [List.nil_append] at heq
        exact .inl (heq ▸ h)
      | cons d u =>
        obtain ⟨rfl, rfl⟩ := List.cons_eq_cons.mp heq
        obtain ⟨hc, hu⟩ := List.forall_mem_cons.mp hu
        exact .inr ⟨hc, u, v, rfl, hu, h⟩

theorem run_iff (items : List (Item α)) (s : List α) : run items s = true ↔ Matches items s := by
  induction items generalizing s with
  | nil => exact List.isEmpty_iff
  | cons item items ih =>
    cases item with
    | one p =>
      cases s with
      | nil => exact iff_of_false Bool.false_ne_true fun ⟨_, _, h, _⟩ => by cases h
      | cons c s =>
        rw [run, Bool.and_eq_true, ih]
        constructor
        · exact fun ⟨hc, h⟩ => ⟨c, s, rfl, hc, h⟩
        · rintro ⟨_, _, heq, hc, h⟩
          obtain ⟨rfl, rfl⟩ := List.cons_eq_cons.mp heq
          exact ⟨hc, h⟩
    | many p =>
      rw [run, matchMany_iff, Matches]
      simp only [ih]

theorem matches_append {a b : List (Item α)} {s : List α} :
    Matches (a ++ b) s ↔ ∃ u v, s = u ++ v ∧ Matches a u ∧ Matches b v := by
  induction a generalizing s with
  | nil =>
    constructor
    · exact fun h => ⟨[], s, rfl, rfl, h⟩
    · rintro ⟨u, v, rfl, hu, hv⟩
      obtain rfl : u = [] := hu
      exact hv
  | cons item a ih =>
    cases item with
    | one p =>
      rw [List.cons_append, Matches]
      constructor
      · rintro ⟨c, s', rfl, hc, h⟩
        obtain ⟨u, v, rfl, hu, hv⟩ := ih.mp h
        exact ⟨c :: u, v, rfl, ⟨c, u, rfl, hc, hu⟩, hv⟩
      · rintro ⟨_, v, rfl, ⟨c, u, rfl, hc, hu⟩, hv⟩
        exact ⟨c, u ++ v, rfl, hc, ih.mpr ⟨u, v, rfl, hu, hv⟩⟩
    | many p =>
      rw [List.cons_append, Matches]
      constructor
      · rintro ⟨w, s', rfl, hw, h⟩
        obtain ⟨u, v, rfl, hu, hv⟩ := ih.mp h
        exact ⟨w ++ u, v, (List.append_assoc ..).symm, ⟨w, u, rfl, hw, hu⟩, hv⟩
      · rintro ⟨_, v, rfl, ⟨w, u, rfl, hw, hu⟩, hv⟩
        exact ⟨w, u ++ v, List.append_assoc .., hw, ih.mpr ⟨u, v, rfl, hu, hv⟩⟩

/-- A class for one character has one in each word. -/
theorem exists_mem_of_one {items : List (Item α)} {s : List α} {p : α → Bool}
    (h : Matches items s) (hp : Item.one p ∈ items) : ∃ c ∈ s, p c = true := by
  obtain ⟨a, b, rfl⟩ := List.append_of_mem hp
  obtain ⟨u, v, rfl, -, c, v', rfl, hc, -⟩ := matches_append.mp h
  exact ⟨c, List.mem_append_right u List.mem_cons_self, hc⟩

/-- The same kind of item, with the same characters as long as they are `good`. -/
inductive Agree (good : α → Prop) : Item α → Item α → Prop where
  | one {p q : α → Bool} (h : ∀ c, good c → p c = q c) : Agree good (.one p) (.one q)
  | many {p q : α → Bool} (h : ∀ c, good c → p c = q c) : Agree good (.many p) (.many q)

theorem Agree.symm {good : α → Prop} {i j : Item α} (h : Agree good i j) : Agree good j i := by
  cases h with
  | one h => exact .one fun c hc => (h c hc).symm
  | many h => exact .many fun c hc => (h c hc).symm

theorem Agree.refl (good : α → Prop) (i : Item α) : Agree good i i := by
  cases i with
  | one p => exact .one fun _ _ => rfl
  | many p => exact .many fun _ _ => rfl

theorem Matches.of_agree {good : α → Prop} {items items' : List (Item α)}
    (hagree : List.Forall₂ (Agree good) items items') {s : List α} (hs : ∀ c ∈ s, good c)
    (h : Matches items s) : Matches items' s := by
  induction hagree generalizing s with
  | nil => exact h
  | cons hitem _ ih =>
    cases hitem with
    | one heq =>
      obtain ⟨c, s', rfl, hc, h⟩ := h
      obtain ⟨hgood, hs⟩ := List.forall_mem_cons.mp hs
      exact ⟨c, s', rfl, heq c hgood ▸ hc, ih hs h⟩
    | many heq =>
      obtain ⟨u, v, rfl, hu, h⟩ := h
      obtain ⟨hgood, hs⟩ := List.forall_mem_append.mp hs
      exact ⟨u, v, rfl, fun c hc => heq c (hgood c hc) ▸ hu c hc, ih hs h⟩

theorem matches_iff_of_agree {good : α → Prop} {items items' : List (Item α)}
    (hagree : List.Forall₂ (Agree good) items items') {s : List α} (hs : ∀ c ∈ s, good c) :
    Matches items s ↔ Matches items' s :=
  ⟨.of_agree hagree hs, .of_agree (List.Forall₂.flip (hagree.imp fun _ _ h => h.symm)) hs⟩

end CharPattern
