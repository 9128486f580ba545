import Mathlib.Tactic.Common

/-! Parsers with ordered choice, and how they read a text.

    A parser reads a prefix of its input and leaves the rest, or fails. The first alternative that
    succeeds is taken, also when what it leaves cannot be read any more:

        choice ["in", "int"]   int;   ──▶   "in", leaving   t;

    `Reads` says what a parser makes of a text that was written for a value: it reads the text and
    returns the value, or the text is not good, and it fails, returns another value, or stops at a
    place where nothing can follow. -/

namespace Parsing

/-- What was read, and the rest of the input. -/
def Parser (α : Type) := List Char → Option (α × List Char)

variable {α β γ : Type}

namespace Parser

def map (p : Parser α) (f : α → β) : Parser β := fun s =>
  match p s with
  | none => none
  | some (a, r) => some (f a, r)

/-- The result is not used. -/
def void (p : Parser α) : Parser Unit := p.map fun _ => ()

/-- `sequenceOf`, of two parsers. -/
def seq (p : Parser α) (q : Parser β) : Parser (α × β) := fun s =>
  match p s with
  | none => none
  | some (a, r) =>
    match q r with
    | none => none
    | some (b, r') => some ((a, b), r')

def fail : Parser α := fun _ => none

/-- The first alternative that succeeds. -/
def choice : List (Parser α) → Parser α
  | [] => fail
  | p :: ps => fun s =>
    match p s with
    | none => choice ps s
    | some x => some x

def possibly (p : Parser α) : Parser (Option α) := fun s =>
  match p s with
  | none => some (none, s)
  | some (a, r) => some (some a, r)

/-- The loop of `many`: as long as the parser succeeds and reads something. -/
def manyLoop (p : Parser α) : ℕ → List Char → List α × List Char
  | 0, s => ([], s)
  | n + 1, s =>
    match p s with
    | none => ([], s)
    | some (a, r) =>
      if r.length < s.length then (a :: (manyLoop p n r).1, (manyLoop p n r).2) else ([a], r)

def many (p : Parser α) : Parser (List α) := fun s => some (manyLoop p (s.length + 1) s)

def many1 (p : Parser α) : Parser (List α) := fun s =>
  match many p s with
  | some ([], _) => none
  | x => x

/-- The loop of `sepBy1`: after a separator there is a value. -/
def sepByLoop (sep : Parser β) (p : Parser α) : ℕ → Parser (List α)
  | 0 => fail
  | n + 1 => fun s =>
    match p s with
    | none => none
    | some (a, r) =>
      match sep r with
      | none => some ([a], r)
      | some (_, r') => (sepByLoop sep p n).map (a :: ·) r'

def sepBy1 (sep : Parser β) (p : Parser α) : Parser (List α) := fun s =>
  sepByLoop sep p (s.length + 1) s

/-- `regex` with a single character. -/
def satisfy (f : Char → Bool) : Parser Char
  | [] => none
  | c :: r => if f c then some (c, r) else none

def char (c : Char) : Parser Unit
  | [] => none
  | d :: r => if d = c then some ((), r) else none

def chars : List Char → Parser Unit
  | [] => fun s => some ((), s)
  | c :: cs => fun s =>
    match char c s with
    | none => none
    | some (_, r) => chars cs r

def str (text : String) : Parser Unit := chars text.toList

/-- `regex` with a repeated class of characters, `[..]*`. -/
def takeWhile (f : Char → Bool) : Parser (List Char) := fun s => some (s.takeWhile f, s.dropWhile f)

/-- `regex` with a repeated class of characters, `[..]+`. -/
def takeWhile1 (f : Char → Bool) : Parser (List Char) := fun s =>
  if s.takeWhile f = [] then none else some (s.takeWhile f, s.dropWhile f)

def everyCharUntil (p : Parser α) : Parser (List Char)
  | [] =>
    match p [] with
    | none => none
    | some _ => some ([], [])
  | c :: r =>
    match p (c :: r) with
    | some _ => some ([], c :: r)
    | none =>
      match everyCharUntil p r with
      | none => none
      | some (cs, r') => some (c :: cs, r')

def endOfInput : Parser Unit
  | [] => some ((), [])
  | _ :: _ => none

end Parser

open Parsing.Parser

/-! ### Reading a text -/

/-- What happens to a text that is not good. -/
inductive Refused (p : Parser α) (s : List Char) (a : α) (r : List Char) (stuck : List Char → Prop) :
    Prop
  | fails : p s = none → Refused p s a r stuck
  | other (a' : α) : a' ≠ a → p s = some (a', r) → Refused p s a r stuck
  | stuck (a' : α) (g : List Char) : stuck g → p s = some (a', g) → Refused p s a r stuck

/-- `text` was written for `a`, and what may follow it satisfies `follow`. -/
structure Reads (p : Parser α) (text : List Char) (a : α) (good : Prop)
    (follow stuck : List Char → Prop) : Prop where
  accepts : good → ∀ r, follow r → p (text ++ r) = some (a, r)
  refuses : ¬ good → ∀ r, follow r → Refused p (text ++ r) a r stuck

/-- From a place where nothing can follow, a parser does not get anywhere else. -/
def Through (p : Parser α) (stuck stuck' : List Char → Prop) : Prop :=
  ∀ g, stuck g → p g = none ∨ ∃ a g', p g = some (a, g') ∧ stuck' g'

/-- Where nothing is ever stuck. -/
def Nowhere (_ : List Char) : Prop := False

section
variable {p : Parser α} {q : Parser β} {text text' : List Char} {a : α} {b : β} {good good' : Prop}
variable {follow follow' stuck stuck' : List Char → Prop}

theorem Reads.of_accepts (h : ∀ r, follow r → p (text ++ r) = some (a, r)) :
    Reads p text a True follow stuck :=
  ⟨fun _ => h, fun hgood => absurd trivial hgood⟩

theorem Reads.congr (h : Reads p text a good follow stuck) (hgood : good' ↔ good) :
    Reads p text a good' follow stuck :=
  ⟨fun hg => h.accepts (hgood.mp hg), fun hg => h.refuses (mt hgood.mpr hg)⟩

theorem Reads.restrict (h : Reads p text a good follow stuck) (hfollow : ∀ r, follow' r → follow r) :
    Reads p text a good follow' stuck :=
  ⟨fun hg r hr => h.accepts hg r (hfollow r hr), fun hg r hr => h.refuses hg r (hfollow r hr)⟩

theorem Refused.mono {s r : List Char} (h : Refused p s a r stuck) (hstuck : ∀ g, stuck g → stuck' g) :
    Refused p s a r stuck' := by
  cases h with
  | fails h => exact .fails h
  | other a' hne h => exact .other a' hne h
  | stuck a' g hg h => exact .stuck a' g (hstuck g hg) h

theorem Reads.mono (h : Reads p text a good follow stuck) (hstuck : ∀ g, stuck g → stuck' g) :
    Reads p text a good follow stuck' :=
  ⟨h.accepts, fun hg r hr => (h.refuses hg r hr).mono hstuck⟩

theorem Through.nowhere : Through p Nowhere stuck' := fun _ h => h.elim

theorem Reads.seq (h : Reads p text a good follow stuck)
    (h' : Reads q text' b good' follow' stuck') (hfollow : ∀ r, follow' r → follow (text' ++ r))
    (hthrough : Through q stuck stuck') :
    Reads (p.seq q) (text ++ text') (a, b) (good ∧ good') follow' stuck' := by
  constructor
  · rintro ⟨hg, hg'⟩ r hr
    simp only [Parser.seq, List.append_assoc, h.accepts hg _ (hfollow r hr), h'.accepts hg' r hr]
  · intro hgood r hr
    -- what the second parser makes of its own text, after any value of the first
    have hsecond : ∀ a', p (text ++ text' ++ r) = some (a', text' ++ r) → (good → a' ≠ a ∨ ¬ good') →
        (¬ good → a' ≠ a) → Refused (p.seq q) (text ++ text' ++ r) (a, b) r stuck' := by
      intro a' hp hne hne'
      by_cases hg' : good'
      · have hq := h'.accepts hg' r hr
        refine .other (a', b) (fun heq => ?_) (by simp only [Parser.seq, hp, hq])
        by_cases hg : good
        · exact (hne hg).elim (fun hne => hne (Prod.mk.inj heq).1) fun hng => hng hg'
        · exact hne' hg (Prod.mk.inj heq).1
      · cases h'.refuses hg' r hr with
        | fails hq => exact .fails (by simp only [Parser.seq, hp, hq])
        | other b' hb hq =>
          exact .other (a', b') (fun heq => hb (Prod.mk.inj heq).2) (by simp only [Parser.seq, hp, hq])
        | stuck b' g hg hq => exact .stuck (a', b') g hg (by simp only [Parser.seq, hp, hq])
    by_cases hg : good
    · have hp := h.accepts hg _ (hfollow r hr)
      rw [← List.append_assoc] at hp
      exact hsecond a hp (fun _ => .inr fun hg' => hgood ⟨hg, hg'⟩) fun hng => absurd hg hng
    · have hrefused := h.refuses hg _ (hfollow r hr)
      rw [← List.append_assoc] at hrefused
      cases hrefused with
      | fails hp => exact .fails (by simp only [Parser.seq, hp])
      | other a' hne hp => exact hsecond a' hp (fun _ => .inl hne) fun _ => hne
      | stuck a' g hstuck hp =>
        rcases hthrough g hstuck with hq | ⟨b', g', hq, hstuck'⟩
        · exact .fails (by simp only [Parser.seq, hp, hq])
        · exact .stuck (a', b') g' hstuck' (by simp only [Parser.seq, hp, hq])

/-- What the second parser returns is not used. -/
theorem Reads.seq_map (h : Reads p text a good follow stuck)
    (hq : ∀ r, follow' r → ∃ b, q (text' ++ r) = some (b, r))
    (hfollow : ∀ r, follow' r → follow (text' ++ r)) (hthrough : Through q stuck stuck')
    {f : α × β → γ} {c : γ} (hf : ∀ a' b, f (a', b) = c ↔ a' = a) :
    Reads ((p.seq q).map f) (text ++ text') c good follow' stuck' := by
  constructor
  · intro hg r hr
    obtain ⟨b, hb⟩ := hq r hr
    have hc := (hf a b).mpr rfl
    simp only [Parser.map, Parser.seq, List.append_assoc, h.accepts hg _ (hfollow r hr), hb, hc]
  · intro hg r hr
    obtain ⟨b, hb⟩ := hq r hr
    rw [List.append_assoc]
    cases h.refuses hg _ (hfollow r hr) with
    | fails hp => exact .fails (by simp only [Parser.map, Parser.seq, hp])
    | other a' hne hp =>
      exact .other (f (a', b)) (mt (hf a' b).mp hne) (by simp only [Parser.map, Parser.seq, hp, hb])
    | stuck a' g hstuck hp =>
      rcases hthrough g hstuck with hq' | ⟨b', g', hq', hstuck'⟩
      · exact .fails (by simp only [Parser.map, Parser.seq, hp, hq'])
      · exact .stuck (f (a', b')) g' hstuck' (by simp only [Parser.map, Parser.seq, hp, hq'])

theorem Reads.map (h : Reads p text a good follow stuck) (f : α → γ)
    (hf : ∀ a', f a' = f a → a' = a) : Reads (p.map f) text (f a) good follow stuck := by
  constructor
  · intro hg r hr
    simp only [Parser.map, h.accepts hg r hr]
  · intro hg r hr
    cases h.refuses hg r hr with
    | fails hp => exact .fails (by simp only [Parser.map, hp])
    | other a' hne hp => exact .other (f a') (fun heq => hne (hf a' heq)) (by simp only [Parser.map, hp])
    | stuck a' g hstuck hp => exact .stuck (f a') g hstuck (by simp only [Parser.map, hp])

/-- The result is a part of what was read, which determines the rest. -/
theorem Reads.map_to (h : Reads p text a good follow stuck) {f : α → γ} {c : γ} (hc : f a = c)
    (hgood : good' ↔ good) (hf : ∀ a', f a' = c → a' = a) :
    Reads (p.map f) text c good' follow stuck := by
  subst hc
  exact (h.map f hf).congr hgood

theorem Through.map (h : Through p stuck stuck') (f : α → γ) : Through (p.map f) stuck stuck' := by
  intro g hg
  rcases h g hg with hp | ⟨a, g', hp, hg'⟩
  · exact .inl (by simp only [Parser.map, hp])
  · exact .inr ⟨f a, g', by simp only [Parser.map, hp], hg'⟩

theorem Through.seq {q : Parser γ} {stuck'' : List Char → Prop} (h : Through p stuck stuck')
    (h' : Through q stuck' stuck'') : Through (p.seq q) stuck stuck'' := by
  intro g hg
  rcases h g hg with hp | ⟨a, g', hp, hg'⟩
  · exact .inl (by simp only [Parser.seq, hp])
  · rcases h' g' hg' with hq | ⟨c, g'', hq, hg''⟩
    · exact .inl (by simp only [Parser.seq, hp, hq])
    · exact .inr ⟨(a, c), g'', by simp only [Parser.seq, hp, hq], hg''⟩

theorem Through.mono (h : Through p stuck stuck') {stuck'' : List Char → Prop}
    (hstuck : ∀ g, stuck' g → stuck'' g) : Through p stuck stuck'' := by
  intro g hg
  rcases h g hg with hp | ⟨a, g', hp, hg'⟩
  · exact .inl hp
  · exact .inr ⟨a, g', hp, hstuck g' hg'⟩

theorem Through.of_none (h : ∀ g, stuck g → p g = none) : Through p stuck stuck' :=
  fun g hg => .inl (h g hg)

/-! ### Optional parts -/

/-- When the optional part cannot be read, its text is still there. -/
theorem Reads.possibly_some (h : Reads p text a good follow stuck) (hstuck : ∀ g, stuck g → stuck' g)
    (htext : ∀ r, follow r → stuck' (text ++ r)) :
    Reads (possibly p) text (some a) good follow stuck' := by
  constructor
  · intro hg r hr
    simp only [possibly, h.accepts hg r hr]
  · intro hg r hr
    cases h.refuses hg r hr with
    | fails hp => exact .stuck none _ (htext r hr) (by simp only [possibly, hp])
    | other a' hne hp => exact .other (some a') (by simpa using hne) (by simp only [possibly, hp])
    | stuck a' g hg hp => exact .stuck (some a') g (hstuck g hg) (by simp only [possibly, hp])

theorem Reads.possibly_none (h : ∀ r, follow r → p r = none) :
    Reads (possibly p) [] none True follow stuck :=
  .of_accepts fun r hr => by simp only [possibly, List.nil_append, h r hr]

theorem Through.possibly (h : ∀ g, stuck g → p g = none) : Through (possibly p) stuck stuck :=
  fun g hg => .inr ⟨none, g, by simp only [Parser.possibly, h g hg], hg⟩

/-! ### Alternatives -/

theorem choice_cons_none {ps : List (Parser α)} {s : List Char} (h : p s = none) :
    choice (p :: ps) s = choice ps s := by
  simp only [choice, h]

theorem choice_cons_some {ps : List (Parser α)} {s : List Char} {x : α × List Char}
    (h : p s = some x) : choice (p :: ps) s = some x := by
  simp only [choice, h]

/-- An alternative that fails on what is written for a later one. -/
theorem Reads.choice_tail {ps : List (Parser α)} (h : Reads (choice ps) text a good follow stuck)
    (hp : ∀ r, follow r → p (text ++ r) = none) :
    Reads (choice (p :: ps)) text a good follow stuck := by
  constructor
  · intro hg r hr
    rw [choice_cons_none (hp r hr), h.accepts hg r hr]
  · intro hg r hr
    have heq := @choice_cons_none _ p ps _ (hp r hr)
    cases h.refuses hg r hr with
    | fails h => exact .fails (by rw [heq, h])
    | other a' hne h => exact .other a' hne (by rw [heq, h])
    | stuck a' g hg h => exact .stuck a' g hg (by rw [heq, h])

theorem choice_append (ps qs : List (Parser α)) (s : List Char) :
    choice (ps ++ qs) s = choice [choice ps, choice qs] s := by
  induction ps with
  | nil =>
    cases hqs : choice qs s with
    | none => simp [choice, fail, hqs]
    | some x => simp [choice, fail, hqs]
  | cons p ps ih =>
    cases hp : p s with
    | none =>
      rw [List.cons_append, choice_cons_none hp, ih]
      simp only [choice, hp]
    | some x =>
      rw [List.cons_append, choice_cons_some hp]
      simp only [choice, hp]

/-- Where the first alternative fails on what is written for it, no later one reads it. -/
theorem Reads.choice_head {ps : List (Parser α)} (h : Reads p text a good follow stuck)
    (hps : ∀ r, follow r → p (text ++ r) = none → Parser.choice ps (text ++ r) = none) :
    Reads (choice (p :: ps)) text a good follow stuck := by
  constructor
  · intro hg r hr
    rw [choice_cons_some (h.accepts hg r hr)]
  · intro hg r hr
    cases h.refuses hg r hr with
    | fails hp => exact .fails (by rw [choice_cons_none hp, hps r hr hp])
    | other a' hne hp => exact .other a' hne (choice_cons_some hp)
    | stuck a' g hg hp => exact .stuck a' g hg (choice_cons_some hp)

/-! ### Repetition -/

theorem manyLoop_fuel {n m : ℕ} {s : List Char} (hn : s.length < n) (hm : s.length < m) :
    manyLoop p n s = manyLoop p m s := by
  induction n generalizing m s with
  | zero => omega
  | succ n ih =>
    cases m with
    | zero => omega
    | succ m =>
      rw [manyLoop, manyLoop]
      cases p s with
      | none => rfl
      | some x =>
        obtain ⟨a, r⟩ := x
        simp only
        split
        · rename_i hlt
          rw [@ih m r (by omega) (by omega)]
        · rfl

theorem many_none {s : List Char} (h : p s = none) : many p s = some ([], s) := by
  simp only [many, manyLoop, h]

theorem many_some {s r r' : List Char} {a : α} {as : List α} (h : p s = some (a, r))
    (hlt : r.length < s.length) (h' : many p r = some (as, r')) :
    many p s = some (a :: as, r') := by
  have hloop : manyLoop p (r.length + 1) r = (as, r') := Option.some.inj h'
  have hfuel : manyLoop p s.length r = (as, r') := by
    rw [manyLoop_fuel hlt (Nat.lt_succ_self _), hloop]
  simp only [many, manyLoop, h, hlt, if_true, hfuel]

/-- An element after which nothing can follow is the last one. -/
theorem many_last {s g : List Char} {a : α} (h : p s = some (a, g)) (hg : p g = none) :
    many p s = some ([a], g) := by
  by_cases hlt : g.length < s.length
  · exact many_some h hlt (many_none hg)
  · simp only [many, manyLoop, h, hlt, if_false]

theorem Reads.many_nil (h : ∀ r, follow r → p r = none) :
    Reads (many p) [] [] True follow stuck :=
  .of_accepts fun r hr => many_none (h r hr)

theorem Reads.many_cons {as : List α} (h : Reads p text a good follow stuck)
    (h' : Reads (many p) text' as good' follow' stuck') (htext : text ≠ [])
    (hfollow : ∀ r, follow' r → follow (text' ++ r))
    (hstuck : ∀ g, stuck g → p g = none ∧ stuck' g)
    (hfails : ∀ r, follow' r → p (text ++ text' ++ r) = none → stuck' (text ++ text' ++ r)) :
    Reads (many p) (text ++ text') (a :: as) (good ∧ good') follow' stuck' := by
  have hlt : ∀ r, (text' ++ r).length < (text ++ text' ++ r).length := by
    intro r
    have hpos := List.length_pos_iff.mpr htext
    simp only [List.length_append]
    omega
  constructor
  · rintro ⟨hg, hg'⟩ r hr
    have hp := h.accepts hg _ (hfollow r hr)
    rw [← List.append_assoc] at hp
    exact many_some hp (hlt r) (h'.accepts hg' r hr)
  · intro hgood r hr
    -- the elements that remain, after any first element
    have hrest : ∀ a', p (text ++ text' ++ r) = some (a', text' ++ r) → (a' = a → ¬ good') →
        Refused (many p) (text ++ text' ++ r) (a :: as) r stuck' := by
      intro a' hp hbad
      by_cases hg' : good'
      · refine .other (a' :: as) (fun heq => ?_) (many_some hp (hlt r) (h'.accepts hg' r hr))
        exact hbad (List.cons.inj heq).1 hg'
      · cases h'.refuses hg' r hr with
        | fails hq => cases hq
        | other as' hne hq =>
          exact .other (a' :: as') (fun heq => hne (List.cons.inj heq).2) (many_some hp (hlt r) hq)
        | stuck as' g hg hq => exact .stuck (a' :: as') g hg (many_some hp (hlt r) hq)
    by_cases hg : good
    · have hp := h.accepts hg _ (hfollow r hr)
      rw [← List.append_assoc] at hp
      exact hrest a hp fun _ hg' => hgood ⟨hg, hg'⟩
    · have hrefused := h.refuses hg _ (hfollow r hr)
      rw [← List.append_assoc] at hrefused
      cases hrefused with
      | fails hp => exact .stuck [] _ (hfails r hr hp) (many_none hp)
      | other a' hne hp => exact hrest a' hp fun heq => absurd heq hne
      | stuck a' g hstuck' hp =>
        obtain ⟨hnone, hg'⟩ := hstuck g hstuck'
        exact .stuck [a'] g hg' (many_last hp hnone)

theorem Through.many (h : ∀ g, stuck g → p g = none) : Through (many p) stuck stuck :=
  fun g hg => .inr ⟨[], g, many_none (h g hg), hg⟩

end

/-! ### Characters -/

/-- Anything may follow. -/
def Anything (_ : List Char) : Prop := True

/-- What does not depend on what follows. -/
theorem Reads.weaken {p : Parser α} {text : List Char} {a : α} {good : Prop}
    {follow stuck : List Char → Prop} (h : Reads p text a good Anything Nowhere) :
    Reads p text a good follow stuck :=
  (h.restrict fun _ _ => trivial).mono fun _ hg => hg.elim

theorem Reads.char (c : Char) {stuck : List Char → Prop} :
    Reads (char c) [c] () True Anything stuck :=
  .of_accepts fun r _ => by simp [Parser.char]

@[simp] theorem char_cons_self (c : Char) (r : List Char) : char c (c :: r) = some ((), r) := by
  simp [Parser.char]

theorem char_cons_ne {c d : Char} (h : d ≠ c) (r : List Char) : char c (d :: r) = none := by
  simp [Parser.char, h]

theorem chars_append (cs r : List Char) : chars cs (cs ++ r) = some ((), r) := by
  induction cs with
  | nil => rfl
  | cons c cs ih =>
    simpa [chars, Parser.char] using ih

theorem Reads.str (text : String) {stuck : List Char → Prop} :
    Reads (str text) text.toList () True Anything stuck :=
  .of_accepts fun r _ => chars_append text.toList r

theorem chars_eq_some {cs s r : List Char} : chars cs s = some ((), r) ↔ s = cs ++ r := by
  induction cs generalizing s with
  | nil => simp [chars]
  | cons c cs ih =>
    cases s with
    | nil => simp [chars, Parser.char]
    | cons d s =>
      by_cases hd : d = c
      · simp [chars, Parser.char, hd, ih]
      · simp [chars, Parser.char, hd]

theorem str_eq_none {text : String} {s : List Char} (h : ¬ text.toList <+: s) :
    str text s = none := by
  cases hs : str text s with
  | none => rfl
  | some x =>
    obtain ⟨⟨⟩, r⟩ := x
    exact absurd ⟨r, (chars_eq_some.mp hs).symm⟩ h

theorem str_append (text : String) (s : List Char) : str text (text.toList ++ s) = some ((), s) :=
  chars_append text.toList s

/-- A choice of words takes the first one that the text begins with. -/
theorem choice_words (name : α → String) (ts : List α) (s : List Char) :
    choice (ts.map fun t => (str (name t)).map fun _ => t) s =
      (ts.find? fun t => (name t).toList.isPrefixOf s).map fun t =>
        (t, s.drop (name t).toList.length) := by
  induction ts with
  | nil => rfl
  | cons t ts ih =>
    by_cases h : (name t).toList <+: s
    · obtain ⟨r, rfl⟩ := h
      have hbegins : (name t).toList.isPrefixOf ((name t).toList ++ r) = true :=
        List.isPrefixOf_iff_prefix.mpr (List.prefix_append _ r)
      have hfind : (t :: ts).find? (fun t' => (name t').toList.isPrefixOf ((name t).toList ++ r)) =
          some t := by
        simp only [List.find?_cons, hbegins]
      rw [hfind, Option.map_some, List.drop_left]
      exact choice_cons_some (by simp [Parser.map, str_append])
    · have hbegins : ¬ (name t).toList.isPrefixOf s = true :=
        fun h' => h (List.isPrefixOf_iff_prefix.mp h')
      have hfind : (t :: ts).find? (fun t' => (name t').toList.isPrefixOf s) =
          ts.find? fun t' => (name t').toList.isPrefixOf s := by
        simp only [List.find?_cons, eq_false_of_ne_true hbegins]
      rw [hfind, ← ih]
      exact choice_cons_none (by simp [Parser.map, str_eq_none h])

/-- A class of characters is read up to a character that is not in it. -/
theorem takeWhile_append {f : Char → Bool} {cs r : List Char} (hcs : cs.all f = true)
    (hr : ∀ c r', r = c :: r' → f c = false) :
    (cs ++ r).takeWhile f = cs ∧ (cs ++ r).dropWhile f = r := by
  have hnil : r.takeWhile f = [] ∧ r.dropWhile f = r := by
    cases r with
    | nil => exact ⟨rfl, rfl⟩
    | cons c r' => simp [hr c r' rfl]
  have hall : ∀ c ∈ cs, f c = true := List.all_eq_true.mp hcs
  rw [List.takeWhile_append_of_pos hall, List.dropWhile_append_of_pos hall, hnil.1, hnil.2]
  exact ⟨List.append_nil cs, rfl⟩

/-- The text up to the first place where a parser succeeds. -/
theorem everyCharUntil_append {α : Type} {p : Parser α} {cs r : List Char}
    (hcs : ∀ pre c post, cs = pre ++ c :: post → p (c :: post ++ r) = none) (hr : p r ≠ none) :
    everyCharUntil p (cs ++ r) = some (cs, r) := by
  induction cs with
  | nil =>
    obtain ⟨x, hx⟩ := Option.ne_none_iff_exists'.mp hr
    cases r with
    | nil => simp only [List.nil_append, everyCharUntil, hx]
    | cons c r => simp only [List.nil_append, everyCharUntil, hx]
  | cons c cs ih =>
    have hc : p (c :: (cs ++ r)) = none := hcs [] c cs rfl
    have hrest := ih fun pre d post heq => hcs (c :: pre) d post (by rw [heq, List.cons_append])
    simp only [List.cons_append, everyCharUntil, hc, hrest]

end Parsing
