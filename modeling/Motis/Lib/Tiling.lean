import Mathlib.Data.List.Perm.Basic
import Mathlib.Tactic.Common

/-! Tilings of an initial segment `[0, n)` of the slots by half-open spans.

    A span is a pair `(start, length)`. A list of spans tiles `[0, n)` when every slot below `n` is
    covered exactly once and no slot from `n` on is covered at all. Counting the covering spans
    makes the notion invariant under permutation, so a storage manager that only hands spans over
    between its lists keeps the tiling for free; growing the last span or appending one are the two
    edits.

        [ b₀ )[ b₁      )[ b₂ )        ──▶ append (n, c) ──▶  [ b₀ )[ b₁      )[ b₂ )[ (n, c)  )
        0                      n                              0                             n + c -/

namespace Tiling

/-- A half-open span of slots: first slot and length. -/
abbrev Span := ℕ × ℕ

/-- Slot `x` lies in the span. -/
def covers (x : ℕ) (b : Span) : Bool := decide (b.1 ≤ x) && decide (x < b.1 + b.2)

/-- The spans cover every slot below `n` exactly once and no other slot. -/
def Tiles (l : List Span) (n : ℕ) : Prop :=
  ∀ x, l.countP (covers x) = if x < n then 1 else 0

/-- Two spans without a common slot. -/
def Apart (b c : Span) : Prop := ∀ x, ¬ (covers x b = true ∧ covers x c = true)

theorem covers_iff {x : ℕ} {b : Span} : covers x b = true ↔ b.1 ≤ x ∧ x < b.1 + b.2 := by
  simp [covers]

theorem Apart.symm {b c : Span} (h : Apart b c) : Apart c b := fun x hx => h x hx.symm

/-- Two nonempty spans without a common slot lie one after the other. -/
theorem Apart.le_or_le {b c : Span} (h : Apart b c) (hb : 0 < b.2) (hc : 0 < c.2) :
    b.1 + b.2 ≤ c.1 ∨ c.1 + c.2 ≤ b.1 := by
  by_contra hcon
  refine h (max b.1 c.1) ⟨covers_iff.mpr ?_, covers_iff.mpr ?_⟩ <;> omega

theorem Tiles.perm {l l' : List Span} {n : ℕ} (h : Tiles l n) (hp : l'.Perm l) : Tiles l' n := by
  intro x; rw [hp.countP_eq]; exact h x

theorem tiles_empty_cons {l : List Span} {n s : ℕ} : Tiles ((s, 0) :: l) n ↔ Tiles l n := by
  have hs : ∀ x, covers x (s, 0) = false := by intro x; simp [covers]
  simp [Tiles, hs]

/-- Empty spans anywhere in the list do not matter. -/
theorem Tiles.insert_empty {l₁ l₂ es : List Span} {n : ℕ} (hes : ∀ b ∈ es, b.2 = 0)
    (h : Tiles (l₁ ++ l₂) n) : Tiles (l₁ ++ es ++ l₂) n := by
  intro x
  have hzero : es.countP (covers x) = 0 := by
    rw [List.countP_eq_zero]
    intro b hb hx
    have := covers_iff.mp hx
    have := hes b hb
    omega
  have hx := h x
  rw [List.countP_append] at hx
  rw [List.countP_append, List.countP_append, hzero, Nat.add_zero]
  exact hx

/-- Appending a span that starts where the tiling ends. -/
theorem Tiles.append {l : List Span} {n : ℕ} (h : Tiles l n) (c : ℕ) :
    Tiles ((n, c) :: l) (n + c) := by
  intro x
  rw [List.countP_cons, h x]
  rcases Nat.lt_or_ge x n with hx | hx
  · have hc : covers x (n, c) = false := by simp [covers]; omega
    simp [hc, hx, Nat.lt_add_right c hx]
  · by_cases hxc : x < n + c
    · have hc : covers x (n, c) = true := covers_iff.mpr ⟨by simpa using hx, hxc⟩
      simp [hc, hx, hxc]
    · have hc : covers x (n, c) = false := by simp [covers]; omega
      simp [hc, hx, hxc]

/-- Growing the span at the end of the tiling. -/
theorem Tiles.extend {l : List Span} {n b c : ℕ} (h : Tiles ((b, c) :: l) n) (hend : b + c = n)
    (d : ℕ) : Tiles ((b, c + d) :: l) (n + d) := by
  intro x
  have hx := h x
  rw [List.countP_cons] at hx ⊢
  subst hend
  by_cases hd : b + c ≤ x ∧ x < b + c + d
  · have hold : covers x (b, c) = false := by simp [covers]; omega
    have hnew : covers x (b, c + d) = true := covers_iff.mpr ⟨by omega, by simp; omega⟩
    simp only [hold, hnew, if_neg (Nat.not_lt.mpr hd.1), if_pos hd.2] at hx ⊢
    simpa using hx
  · have hsame : covers x (b, c + d) = covers x (b, c) := by
      simp only [covers, Bool.and_eq_decide, decide_eq_true_eq]; congr 1; simp; omega
    have hlt : x < b + c + d ↔ x < b + c := by omega
    simp only [hsame, hlt]; exact hx

/-- A span of a tiling ends inside the tiled segment. -/
theorem Tiles.le {l : List Span} {n : ℕ} (h : Tiles l n) {b : Span} (hb : b ∈ l) (hpos : 0 < b.2) :
    b.1 + b.2 ≤ n := by
  have hlast : covers (b.1 + b.2 - 1) b = true := covers_iff.mpr ⟨by omega, by omega⟩
  have hcount := List.countP_pos_iff.mpr ⟨b, hb, hlast⟩
  rw [h] at hcount
  split at hcount <;> omega

/-- The tiled slots are the covered ones. -/
theorem Tiles.lt_iff {l : List Span} {n : ℕ} (h : Tiles l n) (x : ℕ) :
    x < n ↔ ∃ b ∈ l, covers x b = true := by
  rw [← List.countP_pos_iff, h x]
  split <;> simp_all

/-- The spans of a tiling are pairwise apart. -/
theorem Tiles.pairwise {l : List Span} {n : ℕ} (h : Tiles l n) : l.Pairwise Apart := by
  suffices H : ∀ l : List Span, (∀ x, l.countP (covers x) ≤ 1) → l.Pairwise Apart by
    exact H l fun x => by rw [h x]; split <;> omega
  intro l
  induction l with
  | nil => intro _; exact List.Pairwise.nil
  | cons a l ih =>
    intro hl
    refine List.pairwise_cons.mpr ⟨fun b hb x hx => ?_, ih fun x => ?_⟩
    · have hcount := hl x
      rw [List.countP_cons_of_pos hx.1] at hcount
      have := List.countP_pos_iff.mpr ⟨b, hb, hx.2⟩
      omega
    · exact Nat.le_trans ((List.sublist_cons_self a l).countP_le) (hl x)

/-! ### Chains -/

/-- The spans follow each other from `start` to `stop`, and none is empty. -/
def Follows (start : ℕ) : List Span → ℕ → Prop
  | [], stop => start = stop
  | b :: bs, stop => b.1 = start ∧ 0 < b.2 ∧ Follows (start + b.2) bs stop

/-- Sorted spans that cover each slot once follow each other. -/
theorem follows_of_sorted {l : List Span} {start stop : ℕ} (hle : start ≤ stop)
    (hpos : ∀ b ∈ l, 0 < b.2) (hsorted : l.Pairwise fun b c => b.1 ≤ c.1)
    (hcover : ∀ x, l.countP (covers x) = if start ≤ x ∧ x < stop then 1 else 0) :
    Follows start l stop := by
  induction l generalizing start with
  | nil =>
    by_contra hne
    have hstart := hcover start
    rw [if_pos ⟨Nat.le_refl _, Nat.lt_of_le_of_ne hle hne⟩] at hstart
    cases hstart
  | cons b l ih =>
    have hb := hpos b List.mem_cons_self
    obtain ⟨hbelow, hsorted⟩ := List.pairwise_cons.mp hsorted
    have hfirst : start ≤ b.1 ∧ b.1 < stop := by
      have hcount := hcover b.1
      rw [List.countP_cons_of_pos (covers_iff.mpr ⟨Nat.le_refl _, by omega⟩)] at hcount
      split_ifs at hcount with h
      · exact h
    -- the slot `start` is covered by a span that starts there, and `b` is the first one
    have hstart : b.1 = start := by
      have hpositive : 0 < (b :: l).countP (covers start) := by
        rw [hcover, if_pos ⟨Nat.le_refl _, by omega⟩]
        exact Nat.one_pos
      obtain ⟨c, hc, hcovers⟩ := List.countP_pos_iff.mp hpositive
      have hcstart := (covers_iff.mp hcovers).1
      rcases List.mem_cons.mp hc with rfl | hc
      · omega
      · have hle := hbelow c hc
        omega
    have hlast : b.1 + b.2 - 1 < stop := by
      have hcount := hcover (b.1 + b.2 - 1)
      rw [List.countP_cons_of_pos (covers_iff.mpr ⟨by omega, by omega⟩)] at hcount
      split_ifs at hcount with h
      · exact h.2
    refine ⟨hstart, hb, ih (by omega) (fun c hc => hpos c (List.mem_cons_of_mem _ hc)) hsorted ?_⟩
    intro x
    have hcount := hcover x
    by_cases hx : covers x b = true
    · obtain ⟨hge, hlt⟩ := covers_iff.mp hx
      rw [List.countP_cons_of_pos hx, if_pos ⟨by omega, by omega⟩] at hcount
      rw [if_neg (by omega)]
      omega
    · have hout : ¬ (b.1 ≤ x ∧ x < b.1 + b.2) := mt covers_iff.mpr hx
      rw [List.countP_cons_of_neg hx] at hcount
      rw [hcount]
      split_ifs <;> omega

end Tiling
