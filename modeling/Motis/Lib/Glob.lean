import Mathlib.Data.List.Count
import Motis.Lib.CharPattern

/-! Patterns with wildcards.

    A star stands for any characters except `.`, more stars for any characters at all:

        motis.*.Foo**      motis.ris.FooBar.baz -/

namespace Glob
open CharPattern

inductive Token where
  | char (c : Char)
  | star
  | doubleStar
  deriving DecidableEq, Repr

/-- A run of stars is one wildcard. -/
def tokens : List Char → List Token
  | [] => []
  | c :: cs =>
    if c = '*' then
      match tokens cs with
      | .star :: ts | .doubleStar :: ts => .doubleStar :: ts
      | ts => .star :: ts
    else .char c :: tokens cs

def Token.item : Token → Item Char
  | char c => .one (· == c)
  | star => .many (· != '.')
  | doubleStar => .many fun _ => true

def items (pattern : List Char) : List (Item Char) := (tokens pattern).map Token.item

/-- The name is one that the pattern stands for. -/
def Matches (pattern name : List Char) : Prop := CharPattern.Matches (items pattern) name

/-! ### Tokens -/

theorem tokens_char {c : Char} (h : c ≠ '*') (cs : List Char) :
    tokens (c :: cs) = .char c :: tokens cs := by
  rw [tokens, if_neg h]

/-- The wildcard of a run. -/
def wildcard (n : ℕ) : Token := if n = 1 then .star else .doubleStar

theorem tokens_of_head {cs : List Char} (h : cs.head? ≠ some '*') :
    (tokens cs).head? ≠ some .star ∧ (tokens cs).head? ≠ some .doubleStar := by
  cases cs with
  | nil => exact ⟨nofun, nofun⟩
  | cons c cs =>
    rw [tokens_char (fun hc => h (congrArg some hc))]
    exact ⟨nofun, nofun⟩

theorem tokens_run {n : ℕ} (hn : 0 < n) {cs : List Char} (h : cs.head? ≠ some '*') :
    tokens (List.replicate n '*' ++ cs) = wildcard n :: tokens cs := by
  obtain ⟨hstar, hdouble⟩ := tokens_of_head h
  induction n with
  | zero => cases hn
  | succ n ih =>
    rw [List.replicate_succ, List.cons_append, tokens, if_pos rfl]
    rcases Nat.eq_zero_or_pos n with rfl | hpos
    · rw [List.replicate_zero, List.nil_append]
      cases htokens : tokens cs with
      | nil => rfl
      | cons t ts =>
        rw [htokens] at hstar hdouble
        cases t with
        | char c => rfl
        | star => exact absurd rfl hstar
        | doubleStar => exact absurd rfl hdouble
    · have hne : n + 1 ≠ 1 := by omega
      rw [ih hpos, wildcard, wildcard, if_neg hne]
      by_cases hone : n = 1
      · rw [if_pos hone]
      · rw [if_neg hone]

theorem tokens_chars {l : List Char} (h : '*' ∉ l) (cs : List Char) :
    tokens (l ++ cs) = l.map .char ++ tokens cs := by
  induction l with
  | nil => rfl
  | cons c l ih =>
    rw [List.mem_cons, not_or] at h
    rw [List.cons_append, tokens_char (Ne.symm h.1), ih h.2]
    rfl

/-- A character that is no star separates the wildcards. -/
theorem tokens_append {l cs : List Char} (h : cs.head? ≠ some '*') :
    tokens (l ++ cs) = tokens l ++ tokens cs := by
  obtain ⟨hstar, hdouble⟩ := tokens_of_head h
  induction l with
  | nil => rfl
  | cons c l ih =>
    rw [List.cons_append, tokens, tokens, ih]
    split_ifs with hc
    · cases tokens l with
      | nil =>
        cases htokens : tokens cs with
        | nil => rfl
        | cons t ts =>
          rw [htokens] at hstar hdouble
          cases t with
          | char d => rfl
          | star => exact absurd rfl hstar
          | doubleStar => exact absurd rfl hdouble
      | cons t ts =>
        cases t with
        | char d => rfl
        | star => rfl
        | doubleStar => rfl
    · rfl

theorem mem_tokens {c : Char} {l : List Char} (hc : c ≠ '*') (h : c ∈ l) : .char c ∈ tokens l := by
  obtain ⟨a, b, rfl⟩ := List.append_of_mem h
  have hhead : (c :: b).head? ≠ some '*' := fun heq => hc (Option.some.inj heq)
  rw [tokens_append hhead, tokens_char hc]
  exact List.mem_append_right _ List.mem_cons_self

theorem count_tokens {c : Char} (hc : c ≠ '*') (l : List Char) :
    (tokens l).count (.char c) = l.count c := by
  induction l with
  | nil => rfl
  | cons d l ih =>
    rw [tokens]
    split_ifs with hd
    · rw [List.count_cons_of_ne (by rw [hd]; exact hc.symm), ← ih]
      cases tokens l with
      | nil => rfl
      | cons t ts => cases t <;> simp
    · rw [List.count_cons, List.count_cons, ih]
      simp

/-- Each character of a pattern is in the name. -/
theorem count_le {c : Char} (hc : c ≠ '*') {pattern name : List Char} (h : Matches pattern name) :
    pattern.count c ≤ name.count c := by
  rw [← count_tokens hc]
  rw [Matches, items] at h
  generalize tokens pattern = ts at h ⊢
  induction ts generalizing name with
  | nil => exact Nat.zero_le _
  | cons t ts ih =>
    cases t with
    | char d =>
      obtain ⟨e, s, rfl, hd, h⟩ := h
      obtain rfl : e = d := eq_of_beq hd
      have hle := ih h
      rw [List.count_cons, List.count_cons]
      by_cases heq : e = c
      · simpa [heq] using hle
      · simpa [heq] using hle
    | star =>
      obtain ⟨u, v, rfl, -, h⟩ := h
      have hskip : (Token.star :: ts).count (.char c) = ts.count (.char c) :=
        List.count_cons_of_ne fun heq => by cases heq
      rw [hskip, List.count_append]
      exact Nat.le_trans (ih h) (Nat.le_add_left _ _)
    | doubleStar =>
      obtain ⟨u, v, rfl, -, h⟩ := h
      have hskip : (Token.doubleStar :: ts).count (.char c) = ts.count (.char c) :=
        List.count_cons_of_ne fun heq => by cases heq
      rw [hskip, List.count_append]
      exact Nat.le_trans (ih h) (Nat.le_add_left _ _)

end Glob
