import Motis.Lib.CharPattern

/-! A part of the regular expressions of JavaScript.

    Characters, escaped ones, `.`, classes `[^x]`, the anchors and `*`:

        ^a[^.]*\.b$   ──▶  start, one a, many [^.], one ., one b, stop

    Other syntax has no meaning here, and a `*` without an atom before it is an error. -/

namespace JsRegExp
open CharPattern

inductive Token where
  | start
  | stop
  | star
  | atom (p : Char → Bool)

def isLineTerminator (c : Char) : Bool := c ∈ ['\n', '\r', '\u2028', '\u2029']

def isSyntaxCharacter (c : Char) : Bool :=
  c ∈ ['^', '$', '\\', '.', '*', '+', '?', '(', ')', '[', ']', '\x7b', '\x7d', '|']

def tokenise : List Char → Option (List Token)
  | [] => some []
  | c :: cs =>
    if c = '^' then (tokenise cs).map (.start :: ·)
    else if c = '$' then (tokenise cs).map (.stop :: ·)
    else if c = '*' then (tokenise cs).map (.star :: ·)
    else if c = '.' then (tokenise cs).map (.atom (!isLineTerminator ·) :: ·)
    else if c = '\\' then
      match cs with
      | d :: cs =>
        if isSyntaxCharacter d then (tokenise cs).map (.atom (· == d) :: ·) else none
      | [] => none
    else if c = '[' then
      match cs with
      | '^' :: d :: ']' :: cs => (tokenise cs).map (.atom (· != d) :: ·)
      | _ => none
    else if isSyntaxCharacter c then none
    else (tokenise cs).map (.atom (· == c) :: ·)

inductive Term where
  | start
  | stop
  | item (i : Item Char)

def terms : List Token → Option (List Term)
  | [] => some []
  | .star :: _ => none
  | .start :: ts => (terms ts).map (.start :: ·)
  | .stop :: ts => (terms ts).map (.stop :: ·)
  | .atom p :: .star :: ts => (terms ts).map (.item (.many p) :: ·)
  | .atom p :: ts => (terms ts).map (.item (.one p) :: ·)

/-- `new RegExp` -/
def compile (source : List Char) : Option (List Term) := (tokenise source).bind terms

def starFrom (p : Char → Bool) (rest : Bool → List Char → Bool) : Bool → List Char → Bool
  | atStart, [] => rest atStart []
  | atStart, c :: s => rest atStart (c :: s) || (p c && starFrom p rest false s)

/-- A match at the beginning of the characters. -/
def matchTerms : List Term → Bool → List Char → Bool
  | [], _, _ => true
  | .start :: ts, atStart, s => atStart && matchTerms ts atStart s
  | .stop :: ts, atStart, s => s.isEmpty && matchTerms ts atStart s
  | .item (.one _) :: _, _, [] => false
  | .item (.one p) :: ts, _, c :: s => p c && matchTerms ts false s
  | .item (.many p) :: ts, atStart, s => starFrom p (matchTerms ts) atStart s

def test (regExp : List Term) (s : List Char) : Bool :=
  matchTerms regExp true s || s.tails.tail.any (matchTerms regExp false)

/-! ### Anchored expressions -/

theorem starFrom_eq {rest : Bool → List Char → Bool} {rest' : List Char → Bool}
    (h : ∀ b s, rest b s = rest' s) (p : Char → Bool) (b : Bool) (s : List Char) :
    starFrom p rest b s = matchMany p rest' s := by
  induction s generalizing b with
  | nil => exact h b []
  | cons c s ih => rw [starFrom, matchMany, h, ih]

theorem matchTerms_items (items : List (Item Char)) (b : Bool) (s : List Char) :
    matchTerms (items.map .item ++ [.stop]) b s = run items s := by
  induction items generalizing b s with
  | nil => exact Bool.and_true _
  | cons item items ih =>
    cases item with
    | one p =>
      cases s with
      | nil => rfl
      | cons c s => exact congrArg (p c && ·) (ih false s)
    | many p => exact starFrom_eq ih p b s

/-- An expression between anchors is for the whole word. -/
theorem test_anchored (items : List (Item Char)) (s : List Char) :
    test (.start :: (items.map .item ++ [.stop])) s = run items s := by
  have hlater : s.tails.tail.any (matchTerms (.start :: (items.map .item ++ [.stop])) false) =
      false := by
    rw [List.any_eq_false]
    exact fun _ _ => Bool.false_ne_true
  rw [test, hlater, Bool.or_false, matchTerms, Bool.true_and, matchTerms_items]

/-! ### Parts of expressions -/

theorem tokenise_char {c : Char} (h : isSyntaxCharacter c = false) (cs : List Char) :
    tokenise (c :: cs) = (tokenise cs).map (.atom (· == c) :: ·) := by
  have hne : ∀ d, isSyntaxCharacter d = true → c ≠ d := by
    rintro d hd rfl
    exact Bool.false_ne_true (h.symm.trans hd)
  rw [tokenise.eq_def]
  dsimp only
  rw [if_neg (hne _ rfl), if_neg (hne _ rfl), if_neg (hne _ rfl), if_neg (hne _ rfl),
    if_neg (hne _ rfl), if_neg (hne _ rfl), if_neg (by rw [h]; exact Bool.false_ne_true)]

/-- Terms do not reach into what follows, unless it is a star. -/
theorem terms_append {l l' : List Token} (h : l'.head? ≠ some .star) :
    terms (l ++ l') = (terms l).bind fun ts => (terms l').map (ts ++ ·) := by
  induction l using terms.induct with
  | case1 => simp [terms]
  | case2 l => rfl
  | case3 l ih =>
    rw [List.cons_append, terms, terms, ih]
    cases terms l <;> cases terms l' <;> rfl
  | case4 l ih =>
    rw [List.cons_append, terms, terms, ih]
    cases terms l <;> cases terms l' <;> rfl
  | case5 p l ih =>
    rw [List.cons_append, List.cons_append, terms, terms, ih]
    cases terms l <;> cases terms l' <;> rfl
  | case6 p l hne ih =>
    have hne' : ∀ rest, l ++ l' = .star :: rest → False := by
      intro rest heq
      cases l with
      | nil => exact h (congrArg List.head? heq)
      | cons t l => exact hne l (by rw [(List.cons_eq_cons.mp heq).1])
    rw [List.cons_append, terms, terms, ih]
    · cases terms l <;> cases terms l' <;> rfl
    · exact hne
    · exact hne'

end JsRegExp
