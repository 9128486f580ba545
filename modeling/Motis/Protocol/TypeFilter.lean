import Mathlib.Data.List.Infix
import Mathlib.Data.List.TakeWhile
import Motis.Lib.JsRegExp

/-! Filters of types by name.

    A pattern becomes the text of a regular expression. In each part the first run of stars is
    replaced; a star after it stays, and repeats the character before it:

        motis.*Foo.b*r**    ──▶    ^motis\.[^.]*Foo\.b[^.]*r**$ -/

namespace Motis.Protocol.TypeFilter
open CharPattern JsRegExp

inductive FilterError where
  | invalidTypeFilter (pattern : List Char)
  | syntaxError (source : List Char)
  | notIterable
  deriving DecidableEq, Repr

def isAllowed (c : Char) : Bool := c = '-' || c = '_' || c = '*' || c.isAlphanum

def allowedPartCharacters (part : List Char) : Bool := !part.isEmpty && part.all isAllowed

/-- What stands before the first run of stars. -/
def beforeRun (part : List Char) : List Char := part.takeWhile (· != '*')

def firstRun (part : List Char) : List Char := (part.dropWhile (· != '*')).takeWhile (· == '*')

def afterRun (part : List Char) : List Char := (part.dropWhile (· != '*')).dropWhile (· == '*')

def replacement (run : List Char) : List Char :=
  if run.length = 1 then ['[', '^', '.', ']', '*'] else ['.', '*']

def partSource (part : List Char) : List Char :=
  if '*' ∈ part then beforeRun part ++ replacement (firstRun part) ++ afterRun part else part

def source (pattern : List Char) : List Char :=
  ['^'] ++ List.intercalate ['\\', '.'] ((pattern.splitOn '.').map partSource) ++ ['$']

abbrev RegExp := List Term

def parseTypePattern (pattern : List Char) : Except FilterError RegExp :=
  if (pattern.splitOn '.').all allowedPartCharacters then
    match compile (source pattern) with
    | some regExp => .ok regExp
    | none => .error (.syntaxError (source pattern))
  else .error (.invalidTypeFilter pattern)

inductive Entry where
  | string (pattern : List Char)
  | other
  deriving DecidableEq, Repr

/-- A value of the configuration. One that is no object, or `null`, is `other`. -/
inductive Value where
  | list (entries : List Entry)
  | mapping
  | other
  deriving DecidableEq, Repr

def Entry.pattern : Entry → Option (List Char)
  | .string pattern => some pattern
  | .other => none

def parseTypePatterns : Value → Except FilterError (List RegExp)
  | .list entries => (entries.filterMap Entry.pattern).mapM parseTypePattern
  | .mapping => .error .notIterable
  | .other => .ok []

structure Config where
  «include» : Value
  exclude : Value
  deriving DecidableEq, Repr

structure Filter where
  includes : List RegExp
  excludes : List RegExp

def parseTypeFilter (config : Config) : Except FilterError Filter := do
  let includes ← parseTypePatterns config.include
  let excludes ← parseTypePatterns config.exclude
  return { includes, excludes }

def typeMatches (patterns : List RegExp) (fqtn : List Char) : Bool := patterns.any (test · fqtn)

def includeType (filter : Filter) (fqtn : List Char) : Bool :=
  if 0 < filter.includes.length && !typeMatches filter.includes fqtn then false
  else !typeMatches filter.excludes fqtn

/-! ### The expression of a pattern -/

def charItem (c : Char) : Item Char := .one (· == c)

/-- What follows the first run; a character before a star may be repeated. -/
def repeated : List Char → List (Item Char)
  | [] => []
  | [c] => [charItem c]
  | c :: d :: cs =>
    if d = '*' then .many (· == c) :: repeated cs else charItem c :: repeated (d :: cs)

def runClass (run : List Char) : Char → Bool :=
  if run.length = 1 then (· != '.') else (!isLineTerminator ·)

def partItems (part : List Char) : List (Item Char) :=
  if '*' ∈ part then
    (beforeRun part).map charItem ++ .many (runClass (firstRun part)) :: repeated (afterRun part)
  else part.map charItem

/-- The parts of a pattern, each after a dot. -/
def dottedItems (parts : List (List Char)) : List (Item Char) :=
  parts.flatMap fun part => charItem '.' :: partItems part

def patternItems (pattern : List Char) : List (Item Char) :=
  (dottedItems (pattern.splitOn '.')).tail

/-- No character is repeated twice. -/
def Compiles (pattern : List Char) : Prop :=
  ∀ part ∈ pattern.splitOn '.', ¬ ['*', '*'] <:+: afterRun part

def Allowed (pattern : List Char) : Prop :=
  ∀ part ∈ pattern.splitOn '.', allowedPartCharacters part = true

theorem star_not_mem_beforeRun (part : List Char) : '*' ∉ beforeRun part := by
  intro h
  exact absurd (List.mem_takeWhile_imp h) (by decide)

/-- The first run of a part with stars has a star. -/
theorem firstRun_ne_nil {part : List Char} (h : '*' ∈ part) : firstRun part ≠ [] := by
  cases hrest : part.dropWhile (· != '*') with
  | nil =>
    have hne := List.dropWhile_eq_nil_iff.mp hrest _ h
    exact absurd hne (by decide)
  | cons c l =>
    have hhead := List.head?_dropWhile_not (· != '*') part
    rw [hrest] at hhead
    have hstar : c = '*' := by simpa using hhead
    rw [firstRun, hrest, hstar]
    exact List.cons_ne_nil _ _

theorem run_split {part : List Char} (h : '*' ∈ part) :
    ∃ n, part = beforeRun part ++ (List.replicate (n + 1) '*' ++ afterRun part) ∧
      firstRun part = List.replicate (n + 1) '*' := by
  have hrun : firstRun part = List.replicate (firstRun part).length '*' :=
    List.eq_replicate_iff.mpr ⟨rfl, fun c hc =>
      eq_of_beq (List.mem_takeWhile_imp (p := (· == '*')) hc)⟩
  have hsplit : part = beforeRun part ++ (firstRun part ++ afterRun part) := by
    rw [firstRun, afterRun, List.takeWhile_append_dropWhile, beforeRun,
      List.takeWhile_append_dropWhile]
  obtain ⟨n, hn⟩ := Nat.exists_eq_succ_of_ne_zero
    (mt List.length_eq_zero_iff.mp (firstRun_ne_nil h))
  rw [hn] at hrun
  exact ⟨n, hrun ▸ hsplit, hrun⟩

theorem head_afterRun (part : List Char) : (afterRun part).head? ≠ some '*' := by
  intro h
  have hfalse := List.head?_dropWhile_not (· == '*') (part.dropWhile (· != '*'))
  rw [← afterRun, h] at hfalse
  exact absurd hfalse (by decide)

theorem syntax_of_allowed {c : Char} (h : isAllowed c = true) (hc : c ≠ '*') :
    isSyntaxCharacter c = false := by
  rw [← Bool.not_eq_true]
  intro hsyntax
  simp only [isSyntaxCharacter, List.mem_cons, List.not_mem_nil, or_false, decide_eq_true_eq]
    at hsyntax
  rcases hsyntax with rfl | rfl | rfl | rfl | rfl | rfl | rfl | rfl | rfl | rfl | rfl | rfl | rfl |
    rfl
  all_goals first | exact hc rfl | exact absurd h (by decide)

/-- A character of a part, as a token. -/
def textToken (c : Char) : JsRegExp.Token := if c = '*' then .star else .atom (· == c)

theorem tokenise_star (cs : List Char) :
    tokenise ('*' :: cs) = (tokenise cs).map (.star :: ·) := by
  rw [tokenise.eq_def]
  rfl

theorem tokenise_text {l : List Char} (h : ∀ c ∈ l, isAllowed c = true) (cs : List Char) :
    tokenise (l ++ cs) = (tokenise cs).map (l.map textToken ++ ·) := by
  induction l with
  | nil =>
    cases htokens : tokenise cs with
    | none => simp [htokens]
    | some ts => simp [htokens]
  | cons c l ih =>
    obtain ⟨hc, h⟩ := List.forall_mem_cons.mp h
    have hcons : tokenise (c :: (l ++ cs)) = (tokenise (l ++ cs)).map (textToken c :: ·) := by
      by_cases hstar : c = '*'
      · rw [hstar, tokenise_star]
        rfl
      · rw [tokenise_char (syntax_of_allowed hc hstar), textToken, if_neg hstar]
    rw [List.cons_append, hcons, ih h, Option.map_map]
    rfl

def partTokens (part : List Char) : List JsRegExp.Token :=
  if '*' ∈ part then
    (beforeRun part).map textToken ++
      .atom (runClass (firstRun part)) :: .star :: (afterRun part).map textToken
  else part.map textToken

theorem tokenise_replacement (run cs : List Char) :
    tokenise (replacement run ++ cs) =
      (tokenise cs).map fun ts => .atom (runClass run) :: .star :: ts := by
  rw [replacement, runClass]
  split_ifs with hrun
  · rw [tokenise.eq_def]
    simp [tokenise_star]
    rfl
  · rw [tokenise.eq_def]
    simp [tokenise_star]
    rfl

theorem tokenise_part {part : List Char} (h : part.all isAllowed = true) (cs : List Char) :
    tokenise (partSource part ++ cs) = (tokenise cs).map (partTokens part ++ ·) := by
  rw [partSource, partTokens]
  split_ifs with hstar
  · have hbefore : ∀ c ∈ beforeRun part, isAllowed c = true :=
      fun c hc => List.all_eq_true.mp h c ((List.takeWhile_sublist _).subset hc)
    have hafter : ∀ c ∈ afterRun part, isAllowed c = true := fun c hc =>
      List.all_eq_true.mp h c ((List.dropWhile_sublist _).subset
        ((List.dropWhile_sublist _).subset hc))
    rw [List.append_assoc, List.append_assoc, tokenise_text hbefore, tokenise_replacement,
      tokenise_text hafter, Option.map_map, Option.map_map]
    congr 1
    funext ts
    simp
  · exact tokenise_text (List.all_eq_true.mp h) cs

theorem head_chars {l : List Char} (h : '*' ∉ l) :
    (l.map textToken).head? ≠ some .star := by
  cases l with
  | nil => exact nofun
  | cons c l =>
    rw [List.mem_cons, not_or] at h
    rw [List.map_cons, textToken, if_neg (Ne.symm h.1)]
    exact fun heq => by cases heq

theorem terms_chars {l : List Char} (h : '*' ∉ l) :
    terms (l.map textToken) = some ((l.map charItem).map .item) := by
  induction l with
  | nil => rfl
  | cons c l ih =>
    rw [List.mem_cons, not_or] at h
    have happend := terms_append (l := [textToken c]) (head_chars h.2)
    rw [textToken, if_neg (Ne.symm h.1)] at happend
    rw [List.map_cons, textToken, if_neg (Ne.symm h.1)]
    refine happend.trans ?_
    rw [ih h.2]
    rfl

/-- After the first run a star repeats the character before it, and no more than one may. -/
theorem terms_repeated {l : List Char} (h : l.head? ≠ some '*') :
    terms (l.map textToken) =
      if ['*', '*'] <:+: l then none else some ((repeated l).map .item) := by
  induction l using repeated.induct with
  | case1 => rfl
  | case2 c =>
    have hc : c ≠ '*' := fun heq => h (congrArg some heq)
    have hstars : ¬ ['*', '*'] <:+: [c] := fun hin => by
      have hle := hin.length_le
      simp at hle
    rw [if_neg hstars, List.map_cons, textToken, if_neg hc]
    rfl
  | case3 c cs ih =>
    have hc : c ≠ '*' := fun heq => h (congrArg some heq)
    have hterms : terms ((c :: '*' :: cs).map textToken) =
        (terms (cs.map textToken)).map (.item (.many (· == c)) :: ·) := by
      rw [List.map_cons, List.map_cons, textToken, if_neg hc]
      rfl
    rw [hterms, repeated, if_pos rfl]
    by_cases hhead : cs.head? = some '*'
    · obtain ⟨cs', rfl⟩ : ∃ cs', cs = '*' :: cs' := by
        cases cs with
        | nil => cases hhead
        | cons d cs' => exact ⟨cs', by rw [Option.some.inj hhead]⟩
      have hstars : ['*', '*'] <:+: c :: '*' :: '*' :: cs' := ⟨[c], cs', rfl⟩
      rw [if_pos hstars]
      rfl
    · have hstars : ['*', '*'] <:+: c :: '*' :: cs ↔ ['*', '*'] <:+: cs := by
        rw [List.infix_cons_iff, List.infix_cons_iff, List.cons_prefix_cons,
          List.cons_prefix_cons]
        have hnext : ¬ ['*'] <+: cs := by
          rintro ⟨cs', rfl⟩
          exact hhead rfl
        simp [Ne.symm hc, hnext]
      rw [ih hhead]
      by_cases hin : ['*', '*'] <:+: cs
      · rw [if_pos hin, if_pos (hstars.mpr hin)]
        rfl
      · rw [if_neg hin, if_neg (mt hstars.mp hin)]
        rfl
  | case4 c d cs hd ih =>
    have hc : c ≠ '*' := fun heq => h (congrArg some heq)
    have hhead : ((d :: cs).map textToken).head? ≠ some .star := by
      rw [List.map_cons, textToken, if_neg hd]
      exact fun heq => by cases heq
    have hstars : ['*', '*'] <:+: c :: d :: cs ↔ ['*', '*'] <:+: d :: cs := by
      rw [List.infix_cons_iff, List.cons_prefix_cons]
      simp [Ne.symm hc]
    have hterms : terms ((c :: d :: cs).map textToken) =
        (terms ((d :: cs).map textToken)).map (.item (charItem c) :: ·) := by
      have happend := terms_append (l := [textToken c]) hhead
      rw [textToken, if_neg hc] at happend
      rw [List.map_cons, textToken, if_neg hc]
      refine happend.trans ?_
      cases terms ((d :: cs).map textToken) <;> rfl
    rw [hterms, ih (fun heq => hd (Option.some.inj heq)), repeated, if_neg hd]
    by_cases hin : ['*', '*'] <:+: d :: cs
    · rw [if_pos hin, if_pos (hstars.mpr hin)]
      rfl
    · rw [if_neg hin, if_neg (mt hstars.mp hin)]
      rfl

theorem afterRun_of_not_mem {part : List Char} (h : '*' ∉ part) : afterRun part = [] := by
  have hnil : part.dropWhile (· != '*') = [] := List.dropWhile_eq_nil_iff.mpr fun c hc => by
    rw [bne_iff_ne]
    rintro rfl
    exact h hc
  rw [afterRun, hnil]
  rfl

theorem terms_part (part : List Char) :
    terms (partTokens part) =
      if ['*', '*'] <:+: afterRun part then none else some ((partItems part).map .item) := by
  rw [partTokens, partItems]
  by_cases hstar : '*' ∈ part
  · rw [if_pos hstar, if_pos hstar, terms_append (fun heq => by cases heq),
      terms_chars (star_not_mem_beforeRun part), terms, terms_repeated (head_afterRun part)]
    split_ifs with hin
    · rfl
    · simp
  · have hin : ¬ ['*', '*'] <:+: afterRun part := fun hin => by
      rw [afterRun_of_not_mem hstar] at hin
      cases List.infix_nil.mp hin
    rw [if_neg hstar, if_neg hstar, if_neg hin, terms_chars hstar]

theorem head_partTokens (part : List Char) : (partTokens part).head? ≠ some .star := by
  rw [partTokens]
  split_ifs with hstar
  · have hbefore := head_chars (star_not_mem_beforeRun part)
    cases htokens : (beforeRun part).map textToken with
    | nil => exact fun heq => by cases heq
    | cons t ts =>
      rw [htokens] at hbefore
      exact hbefore
  · exact head_chars hstar

theorem intercalate_cons {α : Type} (sep a : List α) (as : List (List α)) :
    sep.intercalate (a :: as) = a ++ as.flatMap (sep ++ ·) := by
  induction as generalizing a with
  | nil => simp
  | cons b as ih =>
    rw [List.intercalate_cons_cons, ih, List.flatMap_cons, List.append_assoc, List.append_assoc]

section Parts

variable {parts : List (List Char)}

def dottedTokens (parts : List (List Char)) : List JsRegExp.Token :=
  parts.flatMap fun part => .atom (· == '.') :: partTokens part

theorem tokenise_parts (h : ∀ part ∈ parts, allowedPartCharacters part = true) (cs : List Char) :
    tokenise ((parts.map partSource).flatMap (['\\', '.'] ++ ·) ++ cs) =
      (tokenise cs).map (dottedTokens parts ++ ·) := by
  induction parts with
  | nil =>
    cases htokens : tokenise cs with
    | none => simp [htokens]
    | some ts => simp [htokens, dottedTokens]
  | cons part parts ih =>
    obtain ⟨hpart, h⟩ := List.forall_mem_cons.mp h
    have hall : part.all isAllowed = true := (Bool.and_eq_true_iff.mp hpart).2
    have hdot : ∀ cs, tokenise ('\\' :: '.' :: cs) =
        (tokenise cs).map (.atom (· == '.') :: ·) := by
      intro cs
      rw [tokenise.eq_def]
      rfl
    rw [List.map_cons, List.flatMap_cons, List.append_assoc, List.append_assoc]
    refine (hdot (partSource part ++ _)).trans ?_
    rw [tokenise_part hall, ih h, Option.map_map, Option.map_map]
    congr 1
    funext ts
    simp [dottedTokens]

theorem head_dottedTokens (parts : List (List Char)) :
    (dottedTokens parts ++ [JsRegExp.Token.stop]).head? ≠ some .star := by
  cases parts with
  | nil => exact fun heq => by cases heq
  | cons part parts => exact fun heq => by cases heq

theorem terms_parts (parts : List (List Char)) :
    terms (dottedTokens parts ++ [JsRegExp.Token.stop]) =
      if ∃ part ∈ parts, ['*', '*'] <:+: afterRun part then none
      else some ((dottedItems parts).map .item ++ [.stop]) := by
  induction parts with
  | nil => rfl
  | cons part parts ih =>
    have hsplit : dottedTokens (part :: parts) ++ [JsRegExp.Token.stop] =
        [.atom (· == '.')] ++ partTokens part ++ (dottedTokens parts ++ [.stop]) := by
      simp [dottedTokens]
    rw [hsplit, terms_append (head_dottedTokens parts), terms_append (head_partTokens part),
      terms_part, ih]
    by_cases hpart : ['*', '*'] <:+: afterRun part
    · rw [if_pos hpart]
      exact (if_pos ⟨part, List.mem_cons_self, hpart⟩).symm
    · rw [if_neg hpart]
      by_cases hparts : ∃ part ∈ parts, ['*', '*'] <:+: afterRun part
      · rw [if_pos hparts, if_pos]
        · rfl
        · obtain ⟨part', hmem, hin⟩ := hparts
          exact ⟨part', List.mem_cons_of_mem _ hmem, hin⟩
      · rw [if_neg hparts, if_neg]
        · simp [dottedItems, terms, charItem]
        · rw [List.exists_mem_cons_iff]
          exact not_or.mpr ⟨hpart, hparts⟩

end Parts

/-- A pattern that compiles is the sequence of its items, and another one is an error. -/
theorem compile_source {pattern : List Char} (h : Allowed pattern) :
    (Compiles pattern → compile (source pattern) =
      some (.start :: ((patternItems pattern).map .item ++ [.stop]))) ∧
    (¬ Compiles pattern → compile (source pattern) = none) := by
  rw [Allowed] at h
  rw [Compiles, patternItems]
  obtain ⟨part, parts, hparts⟩ := List.exists_cons_of_ne_nil (List.splitOn_ne_nil '.' pattern)
  rw [hparts] at h ⊢
  obtain ⟨hpart, h⟩ := List.forall_mem_cons.mp h
  have hall : part.all isAllowed = true := (Bool.and_eq_true_iff.mp hpart).2
  have htokens : tokenise (source pattern) =
      some (.start :: (partTokens part ++ (dottedTokens parts ++ [.stop]))) := by
    have hsource : source pattern = '^' :: (partSource part ++
        ((parts.map partSource).flatMap (['\\', '.'] ++ ·) ++ ['$'])) := by
      rw [source, hparts, List.map_cons, intercalate_cons]
      simp
    have hstart : ∀ cs, tokenise ('^' :: cs) = (tokenise cs).map (.start :: ·) := by
      intro cs
      rw [tokenise.eq_def]
      rfl
    rw [hsource, hstart, tokenise_part hall, tokenise_parts h]
    rfl
  have hterms : terms (partTokens part ++ (dottedTokens parts ++ [.stop])) = _ :=
    terms_append (head_dottedTokens parts)
  rw [terms_part, terms_parts] at hterms
  rw [compile, htokens]
  change (_ → terms (.start :: _) = _) ∧ (_ → terms (.start :: _) = _)
  rw [terms, hterms]
  constructor
  · intro hcompiles
    obtain ⟨hfirst, hrest⟩ := List.forall_mem_cons.mp hcompiles
    have hnone : ¬∃ part ∈ parts, ['*', '*'] <:+: afterRun part := by
      rintro ⟨part', hmem, hin⟩
      exact hrest part' hmem hin
    rw [if_neg hfirst, if_neg hnone]
    simp [dottedItems]
  · intro hbroken
    by_cases hfirst : ['*', '*'] <:+: afterRun part
    · rw [if_pos hfirst]
      rfl
    · have hrest : ∃ part ∈ parts, ['*', '*'] <:+: afterRun part := by
        by_contra hnone
        push Not at hnone
        exact hbroken (List.forall_mem_cons.mpr ⟨hfirst, hnone⟩)
      rw [if_neg hfirst, if_pos hrest]
      rfl

theorem parseTypePattern_ok {pattern : List Char} (h : Allowed pattern) (hc : Compiles pattern) :
    ∃ regExp, parseTypePattern pattern = .ok regExp ∧
      ∀ s, test regExp s = true ↔ CharPattern.Matches (patternItems pattern) s := by
  refine ⟨.start :: ((patternItems pattern).map .item ++ [.stop]), ?_, fun s => ?_⟩
  · rw [parseTypePattern, if_pos (List.all_eq_true.mpr h), (compile_source h).1 hc]
  · rw [test_anchored, run_iff]

theorem compiles_of_ok {pattern : List Char} (h : Allowed pattern) {regExp : RegExp}
    (hok : parseTypePattern pattern = .ok regExp) : Compiles pattern := by
  by_contra hc
  rw [parseTypePattern, if_pos (List.all_eq_true.mpr h), (compile_source h).2 hc] at hok
  cases hok

end Motis.Protocol.TypeFilter
