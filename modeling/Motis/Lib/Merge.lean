import Mathlib.Data.List.Forall2
import Mathlib.Data.List.Perm.Subperm
import Mathlib.Data.List.Sort
import Mathlib.Order.WithBot
import Mathlib.Tactic.Common

/-! Merging streams lazily.

    Each stream is read through a cursor that stands on its next element. The merge takes the
    element of the cursor whose element is earliest, moves this cursor on, and begins again:

        1 4 9 …
        2 3 …        ──▶   1 2 3 4 …
        7 …

    A cursor may not come back from moving on. -/

namespace Merge

variable {σ α β : Type}

/-- `min_element`: the first of the smallest elements, with what stands before and after it. -/
def minElement (lt : σ → σ → Bool) : List σ → Option (List σ × σ × List σ)
  | [] => none
  | s :: ss =>
    match minElement lt ss with
    | none => some ([], s, ss)
    | some (pre, m, post) => if lt m s then some (s :: pre, m, post) else some ([], s, ss)

theorem minElement_append {lt : σ → σ → Bool} {ss pre post : List σ} {m : σ}
    (h : minElement lt ss = some (pre, m, post)) : ss = pre ++ m :: post := by
  induction ss generalizing pre m post with
  | nil => cases h
  | cons s ss ih =>
    rw [minElement] at h
    split at h
    · simp only [Option.some.injEq, Prod.mk.injEq] at h
      obtain ⟨rfl, rfl, rfl⟩ := h
      rfl
    · next hmin =>
      split at h <;> simp only [Option.some.injEq, Prod.mk.injEq] at h <;>
        obtain ⟨rfl, rfl, rfl⟩ := h
      · rw [ih hmin, List.cons_append]
      · rfl

theorem minElement_eq_none {lt : σ → σ → Bool} {ss : List σ} :
    minElement lt ss = none ↔ ss = [] := by
  cases ss with
  | nil => simp [minElement]
  | cons s ss =>
    rw [minElement]
    split
    · simp
    · split <;> simp

/-- Nothing ranks below the smallest element. -/
theorem minElement_le [LinearOrder β] {lt : σ → σ → Bool} {rank : σ → β}
    (hlt : ∀ a b, lt a b = true ↔ rank a < rank b) {ss pre post : List σ} {m : σ}
    (h : minElement lt ss = some (pre, m, post)) : ∀ s ∈ ss, rank m ≤ rank s := by
  induction ss generalizing pre m post with
  | nil => cases h
  | cons s ss ih =>
    rw [minElement] at h
    split at h
    · next hnone =>
      simp only [Option.some.injEq, Prod.mk.injEq] at h
      obtain ⟨-, rfl, -⟩ := h
      simp [minElement_eq_none.mp hnone]
    · next hmin =>
      split at h <;> simp only [Option.some.injEq, Prod.mk.injEq] at h <;>
        obtain ⟨rfl, rfl, rfl⟩ := h
      · next hm => exact List.forall_mem_cons.mpr ⟨((hlt _ _).mp hm).le, ih hmin⟩
      · next hm =>
        have hle := not_lt.mp (mt (hlt _ _).mpr hm)
        exact List.forall_mem_cons.mpr ⟨le_rfl, fun a ha => hle.trans (ih hmin a ha)⟩

/-- Elements that correspond are picked alike. -/
theorem minElement_rel {τ : Type} {R : σ → τ → Prop} {lt : σ → σ → Bool} {lt' : τ → τ → Bool}
    (hlt : ∀ a b a' b', R a a' → R b b' → lt a b = lt' a' b') {ss : List σ} {ts : List τ}
    (h : List.Forall₂ R ss ts) {pre post : List σ} {m : σ}
    (hmin : minElement lt ss = some (pre, m, post)) :
    ∃ pre' m' post', minElement lt' ts = some (pre', m', post') ∧ List.Forall₂ R pre pre' ∧
      R m m' ∧ List.Forall₂ R post post' := by
  induction h generalizing pre m post with
  | nil => cases hmin
  | @cons s t ss ts hst hrest ih =>
    rw [minElement] at hmin
    split at hmin
    · next hnone =>
      simp only [Option.some.injEq, Prod.mk.injEq] at hmin
      obtain ⟨rfl, rfl, rfl⟩ := hmin
      obtain rfl := minElement_eq_none.mp hnone
      cases hrest
      exact ⟨[], t, [], rfl, .nil, hst, .nil⟩
    · next hfound =>
      obtain ⟨pre', m', post', hmin', hpre, hm, hpost⟩ := ih hfound
      have hsame := hlt _ _ _ _ hm hst
      split at hmin <;> simp only [Option.some.injEq, Prod.mk.injEq] at hmin <;>
        obtain ⟨rfl, rfl, rfl⟩ := hmin
      · next hlt₁ =>
        refine ⟨t :: pre', m', post', ?_, .cons hst hpre, hm, hpost⟩
        simp [minElement, hmin', ← hsame, hlt₁]
      · next hlt₁ =>
        refine ⟨[], t, ts, ?_, .nil, hst, hrest⟩
        simp [minElement, hmin', ← hsame, hlt₁]

/-! ### Cursors -/

/-- `none`: moving on does not return. -/
structure Cursor (σ α : Type) where
  finished : σ → Bool
  get : σ → α
  increment : σ → Option σ

/-- A cursor that is not finished comes first, then the one with the earlier element. -/
def before (c : Cursor σ α) (earlier : α → α → Bool) (a b : σ) : Bool :=
  if c.finished a || c.finished b then !c.finished a && c.finished b
  else earlier (c.get a) (c.get b)

/-- At most `n` elements. -/
def merge (c : Cursor σ α) (earlier : α → α → Bool) : ℕ → List σ → Option (List α)
  | 0, _ => some []
  | n + 1, ss =>
    if ss.all c.finished then some []
    else match minElement (before c earlier) ss with
      | none => some []
      | some (pre, s, post) => do
        let s' ← c.increment s
        let rest ← merge c earlier n (pre ++ s' :: post)
        return c.get s :: rest

/-- The elements a cursor goes through; `ends` is false when it does not come back from the last
    one. -/
inductive Unrolls (c : Cursor σ α) (ends : Prop) : σ → List α → Prop
  | finished {s : σ} : ends → c.finished s = true → Unrolls c ends s []
  | stuck {s : σ} : ¬ ends → c.finished s = false → c.increment s = none →
      Unrolls c ends s [c.get s]
  | next {s s' : σ} {l : List α} : c.finished s = false → c.increment s = some s' →
      Unrolls c ends s' l → Unrolls c ends s (c.get s :: l)

/-! ### Merging lists -/

def headBefore (earlier : α → α → Bool) : List α → List α → Bool
  | [], _ => false
  | _ :: _, [] => true
  | x :: _, y :: _ => earlier x y

/-- The merge of streams whose elements are known. -/
def mergeLists (earlier : α → α → Bool) : ℕ → List (List α) → List α
  | 0, _ => []
  | n + 1, ls =>
    match minElement (headBefore earlier) ls with
    | some (pre, x :: l, post) => x :: mergeLists earlier n (pre ++ l :: post)
    | _ => []

theorem mergeLists_take {earlier : α → α → Bool} {m n : ℕ} (hmn : m ≤ n) (ls : List (List α)) :
    mergeLists earlier m ls = (mergeLists earlier n ls).take m := by
  induction m generalizing n ls with
  | zero => simp [mergeLists]
  | succ m ih =>
    obtain ⟨n, rfl⟩ : ∃ k, n = k + 1 := ⟨n - 1, by omega⟩
    rw [mergeLists, mergeLists]
    split
    · rw [ih (by omega : m ≤ n), List.take_succ_cons]
    · rw [List.take_nil]

section Order
variable [LinearOrder β] {key : α → β} {earlier : α → α → Bool}
  (hearlier : ∀ a b, earlier a b = true ↔ key a < key b)

/-- The rank of a stream: its first element's, empty streams last. -/
def headRank (key : α → β) : List α → WithTop β
  | [] => ⊤
  | x :: _ => key x

include hearlier

theorem headBefore_iff (l l' : List α) :
    headBefore earlier l l' = true ↔ headRank key l < headRank key l' := by
  cases l <;> cases l' <;> simp [headBefore, headRank, hearlier]

/-- The first element of a merge is the earliest one. -/
theorem mergeLists_succ (n : ℕ) (ls : List (List α)) :
    ls.flatten = [] ∧ mergeLists earlier (n + 1) ls = [] ∨
      ∃ pre x l post, ls = pre ++ (x :: l) :: post ∧
        mergeLists earlier (n + 1) ls = x :: mergeLists earlier n (pre ++ l :: post) ∧
        ∀ y l', y :: l' ∈ ls → key x ≤ key y := by
  cases hmin : minElement (headBefore earlier) ls with
  | none =>
    obtain rfl := minElement_eq_none.mp hmin
    exact .inl ⟨rfl, rfl⟩
  | some found =>
    obtain ⟨pre, m, post⟩ := found
    have hle := minElement_le (headBefore_iff hearlier) hmin
    have hsplit := minElement_append hmin
    cases m with
    | nil =>
      refine .inl ⟨List.flatten_eq_nil_iff.mpr fun l hl => ?_, by simp [mergeLists, hmin]⟩
      cases l with
      | nil => rfl
      | cons x l => simpa [headRank] using hle _ hl
    | cons x l =>
      refine .inr ⟨pre, x, l, post, hsplit, by simp [mergeLists, hmin], fun y l' hy => ?_⟩
      simpa [headRank] using hle _ hy

theorem mergeLists_perm {n : ℕ} {ls : List (List α)} (hn : ls.flatten.length ≤ n) :
    (mergeLists earlier n ls).Perm ls.flatten := by
  induction n generalizing ls with
  | zero => simp [mergeLists, List.eq_nil_of_length_eq_zero (Nat.le_zero.mp hn)]
  | succ n ih =>
    rcases mergeLists_succ hearlier n ls with ⟨hnil, hmerge⟩ | ⟨pre, x, l, post, rfl, hmerge, -⟩
    · rw [hmerge, hnil]
    · rw [hmerge]
      have hlen : (pre ++ l :: post).flatten.length ≤ n := by
        simp at hn ⊢
        omega
      refine ((ih hlen).cons x).trans ?_
      simp only [List.flatten_append, List.flatten_cons, List.cons_append]
      exact List.perm_middle.symm

/-- The elements of every stream keep their order. -/
theorem sublist_mergeLists {n : ℕ} {ls : List (List α)} (hn : ls.flatten.length ≤ n) :
    ∀ l ∈ ls, l.Sublist (mergeLists earlier n ls) := by
  induction n generalizing ls with
  | zero =>
    intro l hl
    have hnil : ls.flatten = [] := List.eq_nil_of_length_eq_zero (Nat.le_zero.mp hn)
    rw [List.flatten_eq_nil_iff.mp hnil l hl]
    exact List.nil_sublist _
  | succ n ih =>
    rcases mergeLists_succ hearlier n ls with ⟨hnil, -⟩ | ⟨pre, x, l, post, rfl, hmerge, -⟩
    · intro l hl
      rw [List.flatten_eq_nil_iff.mp hnil l hl]
      exact List.nil_sublist _
    · rw [hmerge]
      have hlen : (pre ++ l :: post).flatten.length ≤ n := by
        simp at hn ⊢
        omega
      intro l' hl'
      rcases List.mem_append.mp hl' with hpre | hpost
      · exact (ih hlen l' (by simp [hpre])).cons x
      · rcases List.mem_cons.mp hpost with rfl | hpost
        · exact (ih hlen l (by simp)).cons_cons x
        · exact (ih hlen l' (by simp [hpost])).cons x

theorem mem_of_mem_mergeLists {n : ℕ} {ls : List (List α)} {y : α}
    (hy : y ∈ mergeLists earlier n ls) : y ∈ ls.flatten := by
  have htake := @mergeLists_take _ earlier _ _ (Nat.le_max_left n ls.flatten.length) ls
  rw [htake] at hy
  exact (mergeLists_perm hearlier (Nat.le_max_right _ _)).subset (List.mem_of_mem_take hy)

/-- Merging sorted streams gives a sorted one. -/
theorem mergeLists_sorted {n : ℕ} {ls : List (List α)}
    (hsorted : ∀ l ∈ ls, l.Pairwise fun a b => key a ≤ key b) :
    (mergeLists earlier n ls).Pairwise fun a b => key a ≤ key b := by
  induction n generalizing ls with
  | zero => exact .nil
  | succ n ih =>
    rcases mergeLists_succ hearlier n ls with ⟨-, hmerge⟩ | ⟨pre, x, l, post, hls, hmerge, hle⟩
    · rw [hmerge]
      exact .nil
    · rw [hmerge]
      have hx := List.pairwise_cons.mp (hsorted (x :: l) (by simp [hls]))
      have hrest : ∀ l' ∈ pre ++ l :: post, l' = l ∨ l' ∈ ls := by
        intro l' hl'
        rw [hls]
        simp only [List.mem_append, List.mem_cons] at hl' ⊢
        tauto
      refine List.pairwise_cons.mpr ⟨fun y hy => ?_, ih fun l' hl' => ?_⟩
      · obtain ⟨l', hl', hyl'⟩ := List.mem_flatten.mp (mem_of_mem_mergeLists hearlier hy)
        rcases hrest l' hl' with rfl | hmem
        · exact hx.1 y hyl'
        · cases l' with
          | nil => cases hyl'
          | cons z l' =>
            have hxz := hle z l' hmem
            rcases List.mem_cons.mp hyl' with rfl | hyl'
            · exact hxz
            · exact hxz.trans ((List.pairwise_cons.mp (hsorted _ hmem)).1 y hyl')
      · rcases hrest l' hl' with rfl | hmem
        · exact hx.2
        · exact hsorted l' hmem

/-- A merge of all elements holds those of the shorter ones. -/
theorem mergeLists_eq_take {ls : List (List α)} (n : ℕ) :
    mergeLists earlier n ls = (mergeLists earlier ls.flatten.length ls).take n := by
  rcases Nat.le_total n ls.flatten.length with hle | hle
  · exact mergeLists_take hle ls
  · have hall := @mergeLists_take _ earlier _ _ hle ls
    have hlen := (mergeLists_perm hearlier hle).length_eq
    have hlen' := (mergeLists_perm hearlier (le_refl ls.flatten.length)).length_eq
    rw [List.take_of_length_le (by omega)] at hall
    rw [List.take_of_length_le (by omega), hall]

/-! ### Merging cursors -/

variable {c : Cursor σ α}

/-- The rank of a cursor: its element's, finished ones last. -/
def cursorRank (c : Cursor σ α) (key : α → β) (s : σ) : WithTop β :=
  if c.finished s then ⊤ else key (c.get s)

theorem before_iff (a b : σ) :
    before c earlier a b = true ↔ cursorRank c key a < cursorRank c key b := by
  cases ha : c.finished a <;> cases hb : c.finished b <;>
    simp [before, cursorRank, ha, hb, hearlier]

theorem not_finished_of_minElement {ss pre post : List σ} {s : σ}
    (hmin : minElement (before c earlier) ss = some (pre, s, post))
    (hall : ss.all c.finished = false) : c.finished s = false := by
  by_contra hfin
  have hle := minElement_le (before_iff hearlier (c := c)) hmin
  obtain ⟨a, ha, hafin⟩ := List.all_eq_false.mp hall
  have hlea := hle a ha
  simp_all [cursorRank]

end Order

theorem Unrolls.head {c : Cursor σ α} {ends : Prop} {s : σ} {l : List α} (h : Unrolls c ends s l)
    (hfin : c.finished s = false) : ∃ l', l = c.get s :: l' := by
  cases h with
  | finished _ htrue => rw [hfin] at htrue; cases htrue
  | stuck => exact ⟨[], rfl⟩
  | next => exact ⟨_, rfl⟩

theorem Unrolls.nil_of_finished {c : Cursor σ α} {ends : Prop} {s : σ} {l : List α}
    (h : Unrolls c ends s l) (hfin : c.finished s = true) : l = [] := by
  cases h with
  | finished => rfl
  | stuck _ hfalse => rw [hfin] at hfalse; cases hfalse
  | next hfalse => rw [hfin] at hfalse; cases hfalse

theorem Unrolls.not_finished {c : Cursor σ α} {s : σ} {l : List α} (h : Unrolls c False s l) :
    c.finished s = false := by
  cases h with
  | finished hfalse => exact hfalse.elim
  | stuck _ hfin => exact hfin
  | next hfin => exact hfin

theorem Unrolls.of_increment {c : Cursor σ α} {s s' : σ} {l : List α} (h : Unrolls c False s l)
    (hinc : c.increment s = some s') : ∃ l', Unrolls c False s' l' := by
  cases h with
  | finished hfalse => exact hfalse.elim
  | stuck _ _ hnone => rw [hinc] at hnone; cases hnone
  | next _ hinc' hrest =>
    rw [hinc] at hinc'
    obtain rfl := Option.some.inj hinc'
    exact ⟨_, hrest⟩

theorem before_eq_headBefore {c : Cursor σ α} {ends ends' : Prop} {earlier : α → α → Bool}
    {a b : σ} {la lb : List α} (ha : Unrolls c ends a la) (hb : Unrolls c ends' b lb) :
    before c earlier a b = headBefore earlier la lb := by
  cases hfa : c.finished a <;> cases hfb : c.finished b
  · obtain ⟨la', rfl⟩ := ha.head hfa
    obtain ⟨lb', rfl⟩ := hb.head hfb
    simp [before, headBefore, hfa, hfb]
  · obtain ⟨la', rfl⟩ := ha.head hfa
    obtain rfl := hb.nil_of_finished hfb
    simp [before, headBefore, hfa, hfb]
  · obtain rfl := ha.nil_of_finished hfa
    simp [before, headBefore, hfa]
  · obtain rfl := ha.nil_of_finished hfa
    simp [before, headBefore, hfa, hfb]

theorem exists_of_mem_left {τ : Type} {R : σ → τ → Prop} {ss : List σ} {ts : List τ}
    (h : List.Forall₂ R ss ts) {s : σ} (hs : s ∈ ss) : ∃ t ∈ ts, R s t := by
  induction h with
  | nil => cases hs
  | @cons s' t ss ts hst _ ih =>
    rcases List.mem_cons.mp hs with rfl | hs
    · exact ⟨t, List.mem_cons_self, hst⟩
    · obtain ⟨t', ht', hR⟩ := ih hs
      exact ⟨t', List.mem_cons_of_mem _ ht', hR⟩

section Cursors
variable [LinearOrder β] {key : α → β} {earlier : α → α → Bool}
  (hearlier : ∀ a b, earlier a b = true ↔ key a < key b) {c : Cursor σ α}
include hearlier

/-- Cursors that end are merged as the lists they go through. -/
theorem merge_eq_mergeLists {n : ℕ} {ss : List σ} {ls : List (List α)}
    (h : List.Forall₂ (Unrolls c True) ss ls) :
    merge c earlier n ss = some (mergeLists earlier n ls) := by
  induction n generalizing ss ls with
  | zero => rfl
  | succ n ih =>
    rw [merge]
    cases hall : ss.all c.finished with
    | true =>
      rcases mergeLists_succ hearlier n ls with ⟨-, hmerge⟩ | ⟨pre, x, l, post, rfl, -⟩
      · rw [hmerge]
        rfl
      · obtain ⟨s, hs, hsl⟩ := exists_of_mem_left h.flip (List.mem_append_right pre
          (List.mem_cons_self (a := x :: l)))
        cases hsl.nil_of_finished (List.all_eq_true.mp hall s hs)
    | false =>
      cases hmin : minElement (before c earlier) ss with
      | none => simp [minElement_eq_none.mp hmin] at hall
      | some found =>
        obtain ⟨pre, s, post⟩ := found
        have hfin := not_finished_of_minElement hearlier hmin hall
        obtain ⟨pre', l, post', hmin', hpre, hs, hpost⟩ :=
          minElement_rel (fun _ _ _ _ => before_eq_headBefore) h hmin
        cases hs with
        | finished _ htrue => rw [hfin] at htrue; cases htrue
        | stuck hends => exact absurd trivial hends
        | next _ hinc hrest =>
          have hih := ih (List.rel_append hpre (.cons hrest hpost))
          simp [mergeLists, hmin', hinc, hih]

/-- A cursor that does not come back stops the merge in the end. -/
theorem merge_eq_none {ss : List σ} {ls : List (List α)} {n : ℕ}
    (h : List.Forall₂ (fun s l => ∃ ends, Unrolls c ends s l) ss ls)
    (hstuck : ∃ s ∈ ss, ∃ l, Unrolls c False s l) (hn : ls.flatten.length ≤ n) :
    merge c earlier n ss = none := by
  induction n generalizing ss ls with
  | zero =>
    obtain ⟨s, hs, l, hl⟩ := hstuck
    obtain ⟨l', hl', ends, hsl'⟩ := exists_of_mem_left h hs
    obtain ⟨l'', rfl⟩ := hsl'.head hl.not_finished
    have hnil := List.eq_nil_of_length_eq_zero (Nat.le_zero.mp hn)
    cases List.flatten_eq_nil_iff.mp hnil _ hl'
  | succ n ih =>
    obtain ⟨s₀, hs₀, l₀, hl₀⟩ := hstuck
    have hall : ss.all c.finished = false :=
      List.all_eq_false.mpr ⟨s₀, hs₀, by simp [hl₀.not_finished]⟩
    rw [merge, hall]
    cases hmin : minElement (before c earlier) ss with
    | none => simp [minElement_eq_none.mp hmin] at hall
    | some found =>
      obtain ⟨pre, s, post⟩ := found
      have hfin := not_finished_of_minElement hearlier hmin hall
      obtain ⟨pre', l, post', hmin', hpre, ⟨ends, hs⟩, hpost⟩ :=
        minElement_rel (fun _ _ _ _ ⟨_, ha⟩ ⟨_, hb⟩ => before_eq_headBefore ha hb) h hmin
      cases hs with
      | finished _ htrue => rw [hfin] at htrue; cases htrue
      | stuck _ _ hinc => simp [hinc]
      | @next _ s' l' _ hinc hrest =>
        have hlen : (pre' ++ l' :: post').flatten.length ≤ n := by
          rw [minElement_append hmin'] at hn
          simp at hn ⊢
          omega
        have hstuck' : ∃ s ∈ pre ++ s' :: post, ∃ l, Unrolls c False s l := by
          rw [minElement_append hmin, List.mem_append, List.mem_cons] at hs₀
          rcases hs₀ with hpre₀ | rfl | hpost₀
          · exact ⟨s₀, by simp [hpre₀], l₀, hl₀⟩
          · obtain ⟨l₁, hl₁⟩ := hl₀.of_increment hinc
            exact ⟨s', by simp, l₁, hl₁⟩
          · exact ⟨s₀, by simp [hpost₀], l₀, hl₀⟩
        have hih := ih (List.rel_append hpre (.cons ⟨ends, hrest⟩ hpost)) hstuck' hlen
        simp [hinc, hih]

end Cursors

/-! ### The first elements of a set -/

/-- `l` holds `n` elements of the set that come first in order, or all of them when there are less. -/
structure IsFirst [LE β] (S : α → Prop) (key : α → β) (n : ℕ) (l : List α) : Prop where
  length_le : l.length ≤ n
  nodup : l.Nodup
  mem : ∀ x ∈ l, S x
  sorted : l.Pairwise fun a b => key a ≤ key b
  first : ∀ x, S x → x ∈ l ∨ l.length = n ∧ ∀ y ∈ l, key y ≤ key x

/-- A list gives the first elements for every `n` when it is an ordered list of the set. -/
theorem isFirst_take_iff [Preorder β] {S : α → Prop} {key : α → β} {l : List α} :
    (∀ n, IsFirst S key n (l.take n)) ↔
      l.Nodup ∧ (∀ x, x ∈ l ↔ S x) ∧ l.Pairwise fun a b => key a ≤ key b := by
  constructor
  · intro h
    have hall := h (l.length + 1)
    rw [List.take_of_length_le (by omega)] at hall
    refine ⟨hall.nodup, fun x => ⟨hall.mem x, fun hx => ?_⟩, hall.sorted⟩
    rcases hall.first x hx with hmem | ⟨hlen, -⟩
    · exact hmem
    · omega
  · rintro ⟨hnodup, hmem, hsorted⟩ n
    refine ⟨List.length_take_le n l, hnodup.sublist (List.take_sublist n l),
      fun x hx => (hmem x).mp (List.mem_of_mem_take hx), hsorted.sublist (List.take_sublist n l),
      fun x hx => ?_⟩
    rcases List.mem_append.mp (List.take_append_drop n l ▸ (hmem x).mpr hx) with htake | hdrop
    · exact .inl htake
    · have hlen : n < l.length := by
        have hpos := List.length_pos_of_mem hdrop
        rw [List.length_drop] at hpos
        omega
      rw [← List.take_append_drop n l, List.pairwise_append] at hsorted
      exact .inr ⟨List.length_take_of_le hlen.le, fun y hy => hsorted.2.2 y hy x hdrop⟩

end Merge
