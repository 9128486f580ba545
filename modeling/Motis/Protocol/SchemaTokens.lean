import Motis.Protocol.SchemaText

/-! The parser reads the tokens of a schema.

    A gap is skipped as a whole, so it does not matter how it is cut into pieces. A word or a number is
    read up to a character that cannot be part of it. What is left of a token that is not good begins
    with a character that no parser of the rest accepts:

        uint8 ;   ──▶   uint   leaves   8 ; -/

namespace Motis.Protocol.SchemaText
open Parsing Parsing.Parser SchemaParser

/-! ### What may follow -/

/-- No gap begins here. -/
def Solid : List Char → Prop
  | [] => True
  | c :: _ => isSpace c = false ∧ c ≠ '/'

/-- No word and no number goes on here. -/
def Break : List Char → Prop
  | [] => True
  | c :: _ => isIdentPart c = false ∧ c ≠ '.'

/-- After a gap, the rest of a word or a number, or one of the characters. -/
def Stuck (cs : List Char) (s : List Char) : Prop :=
  ∃ (gap : Gap) (c : Char) (r : List Char), s = gap.text ++ c :: r ∧ isSpace c = false ∧ c ≠ '/' ∧
    (isIdentPart c = true ∨ c = '.' ∨ c ∈ cs)

@[simp] theorem solid_nil : Solid [] := trivial

@[simp] theorem solid_cons {c : Char} {r : List Char} :
    Solid (c :: r) ↔ isSpace c = false ∧ c ≠ '/' := Iff.rfl

@[simp] theorem break_nil : Break [] := trivial

@[simp] theorem break_cons {c : Char} {r : List Char} :
    Break (c :: r) ↔ isIdentPart c = false ∧ c ≠ '.' := Iff.rfl

@[simp] theorem gap_text_nil : Gap.text [] = [] := rfl

@[simp] theorem gap_text_cons (p : Piece) (g : Gap) : Gap.text (p :: g) = p.text ++ Gap.text g := by
  simp [Gap.text]

/-- The letters of ASCII. -/
theorem isAlpha_iff (c : Char) :
    c.isAlpha = true ↔ (65 ≤ c.toNat ∧ c.toNat ≤ 90) ∨ (97 ≤ c.toNat ∧ c.toNat ≤ 122) := by
  change (decide (65 ≤ c.val ∧ c.val ≤ 90) || (decide (97 ≤ c.val) && decide (c.val ≤ 122))) =
    true ↔ _
  rw [Bool.or_eq_true, Bool.and_eq_true, decide_eq_true_iff, decide_eq_true_iff, decide_eq_true_iff]
  rfl

theorem isDigit_iff (c : Char) : c.isDigit = true ↔ 48 ≤ c.toNat ∧ c.toNat ≤ 57 := by
  change (decide (48 ≤ c.val) && decide (c.val ≤ 57)) = true ↔ _
  rw [Bool.and_eq_true, decide_eq_true_iff, decide_eq_true_iff]
  rfl

theorem not_space_of_identPart {c : Char} (h : isIdentPart c = true) :
    isSpace c = false ∧ c ≠ '/' ∧ c ≠ '.' := by
  simp only [isIdentPart, Char.isAlphanum, Bool.or_eq_true, isAlpha_iff, isDigit_iff, beq_iff_eq] at h
  have hrange : 48 ≤ c.toNat ∧ c.toNat ≤ 122 := by
    rcases h with h | rfl
    · omega
    · decide
  refine ⟨?_, ?_, ?_⟩
  · simp [isSpace]
    omega
  · rintro rfl
    exact absurd hrange (by decide)
  · rintro rfl
    exact absurd hrange (by decide)

theorem not_identPart_of_space {c : Char} (h : isSpace c = true) :
    isIdentPart c = false ∧ c ≠ '.' := by
  constructor
  · by_contra hpart
    rw [(not_space_of_identPart (eq_true_of_ne_false hpart)).1] at h
    exact Bool.false_ne_true h
  · rintro rfl
    exact absurd h (by decide)

theorem break_gap (g : Gap) {r : List Char} (hr : Break r) : Break (g.text ++ r) := by
  cases g with
  | nil => simpa using hr
  | cons p g =>
    cases p with
    | space c h => simpa [Piece.text] using not_identPart_of_space h
    | line body h => simp [Piece.text]; decide
    | block body h => simp [Piece.text]; decide

/-! ### Gaps -/

/-- The first alternative of `whitespaceOrComments` that reads something. -/
def blank : Parser Unit := choice [whitespace, lineComment, blockComment]

/-- What `optionalWhitespaceOrComments` leaves. -/
def skip (s : List Char) : List Char := (manyLoop blank (s.length + 1) s).2

theorem skip_none {s : List Char} (h : blank s = none) : skip s = s := by
  simp only [skip, manyLoop, h]

theorem skip_some {s r : List Char} (h : blank s = some ((), r)) (hlt : r.length < s.length) :
    skip s = skip r := by
  have hloop : manyLoop blank s.length r = manyLoop blank (r.length + 1) r :=
    manyLoop_fuel hlt (Nat.lt_succ_self _)
  simp only [skip, manyLoop, h, hlt, if_true, hloop]

theorem whitespaceOrComments_def : whitespaceOrComments = (many1 blank).void := rfl

theorem whitespaceOrComments_none {s : List Char} (h : blank s = none) :
    whitespaceOrComments s = none := by
  simp [whitespaceOrComments_def, Parser.void, Parser.map, many1, many_none h]

theorem whitespaceOrComments_some {s : List Char} (h : blank s ≠ none) :
    whitespaceOrComments s = some ((), skip s) := by
  obtain ⟨x, hx⟩ := Option.ne_none_iff_exists'.mp h
  have hmany : ∃ l, many blank s = some (() :: l, skip s) := by
    simp only [many, skip, manyLoop, hx]
    split
    · exact ⟨_, rfl⟩
    · exact ⟨[], rfl⟩
  obtain ⟨l, hmany⟩ := hmany
  simp [whitespaceOrComments_def, Parser.void, Parser.map, many1, hmany]

theorem optionalWhitespaceOrComments_eq (s : List Char) :
    optionalWhitespaceOrComments s = some ((), skip s) := by
  by_cases h : blank s = none
  · simp [optionalWhitespaceOrComments, Parser.void, Parser.map, possibly,
      whitespaceOrComments_none h, skip_none h]
  · simp [optionalWhitespaceOrComments, Parser.void, Parser.map, possibly,
      whitespaceOrComments_some h]

theorem blank_solid {s : List Char} (h : Solid s) : blank s = none := by
  cases s with
  | nil => rfl
  | cons c r =>
    obtain ⟨hspace, hslash⟩ := solid_cons.mp h
    simp [blank, choice, fail, whitespace, lineComment, blockComment, Parser.void, Parser.map,
      Parser.seq, takeWhile1, hspace, str, chars, Parser.char, hslash]

theorem blank_space {c : Char} (h : isSpace c = true) (s : List Char) :
    blank (c :: s) = some ((), s.dropWhile isSpace) := by
  simp [blank, choice, whitespace, Parser.void, Parser.map, takeWhile1, h]

/-- A comment that is opened by `//` goes to the end of the line, or of the text. -/
theorem blank_slashes {body s : List Char} (h : '\n' ∉ body)
    (hs : s = [] ∨ ∃ r, s = '\n' :: r) : blank (['/', '/'] ++ body ++ s) = some ((), s) := by
  have hbody : everyCharUntil (choice [char '\n', endOfInput]) (body ++ s) = some (body, s) := by
    refine everyCharUntil_append ?_ ?_
    · intro pre c post heq
      have hc : c ≠ '\n' := by
        rintro rfl
        exact h (by simp [heq])
      simp [choice, Parser.char, hc, endOfInput, fail]
    · rcases hs with rfl | ⟨r, rfl⟩
      · simp [choice, Parser.char, endOfInput]
      · simp [choice, Parser.char]
  have hspace : whitespace ('/' :: '/' :: (body ++ s)) = none := by
    simp [whitespace, Parser.void, Parser.map, takeWhile1, show isSpace '/' = false by decide]
  have hline : lineComment ('/' :: '/' :: (body ++ s)) = some ((), s) := by
    simp [lineComment, Parser.void, Parser.map, Parser.seq, str, chars, Parser.char, hbody]
  rw [List.append_assoc, List.cons_append, List.cons_append, List.nil_append, blank,
    choice_cons_none hspace, choice_cons_some hline]

theorem blank_block {body : List Char} (h : ¬ ['*', '/'] <:+: body) (s : List Char) :
    blank (['/', '*'] ++ body ++ ['*', '/'] ++ s) = some ((), s) := by
  have hbody : everyCharUntil (str "*/") (body ++ '*' :: '/' :: s) = some (body, '*' :: '/' :: s) := by
    refine everyCharUntil_append ?_ (by simp [str, chars, Parser.char])
    intro pre c post heq
    refine str_eq_none ?_
    rintro ⟨r, hr⟩
    -- the end of the comment would begin in its body
    cases post with
    | nil => simp at hr
    | cons d post =>
      rw [show "*/".toList = ['*', '/'] from rfl] at hr
      obtain ⟨hc, hr⟩ := List.cons.inj hr
      obtain ⟨hd, -⟩ := List.cons.inj hr
      exact h ⟨pre, post, by simp [heq, ← hc, ← hd]⟩
  have hspace : whitespace ('/' :: '*' :: (body ++ '*' :: '/' :: s)) = none := by
    simp [whitespace, Parser.void, Parser.map, takeWhile1, show isSpace '/' = false by decide]
  have hline : lineComment ('/' :: '*' :: (body ++ '*' :: '/' :: s)) = none := by
    simp [lineComment, Parser.void, Parser.map, Parser.seq, str, chars, Parser.char]
  have hblock : blockComment ('/' :: '*' :: (body ++ '*' :: '/' :: s)) = some ((), s) := by
    simp [blockComment, Parser.void, Parser.map, Parser.seq, str, chars, Parser.char] at hbody ⊢
    simp [hbody]
  rw [show ['/', '*'] ++ body ++ ['*', '/'] ++ s = '/' :: '*' :: (body ++ '*' :: '/' :: s) by simp,
    blank, choice_cons_none hspace, choice_cons_none hline, choice_cons_some hblock]

theorem skip_space {c : Char} (h : isSpace c = true) (s : List Char) : skip (c :: s) = skip s := by
  have hlt : (s.dropWhile isSpace).length < (c :: s).length :=
    Nat.lt_succ_of_le (List.dropWhile_sublist _).length_le
  rw [skip_some (blank_space h s) hlt]
  cases s with
  | nil => rfl
  | cons d s =>
    by_cases hd : isSpace d = true
    · have hlt' : (s.dropWhile isSpace).length < (d :: s).length :=
        Nat.lt_succ_of_le (List.dropWhile_sublist _).length_le
      rw [List.dropWhile_cons_of_pos hd, skip_some (blank_space hd s) hlt']
    · rw [List.dropWhile_cons_of_neg hd]

theorem skip_piece (p : Piece) (s : List Char) : skip (p.text ++ s) = skip s := by
  cases p with
  | space c h => exact skip_space h s
  | line body h =>
    have hblank := blank_slashes h (.inr ⟨s, rfl⟩)
    rw [show Piece.text (.line body h) ++ s = ['/', '/'] ++ body ++ '\n' :: s by simp [Piece.text],
      skip_some hblank (by simp; omega), skip_space (by decide)]
  | block body h =>
    rw [Piece.text, skip_some (blank_block h s) (by simp; omega)]

/-- How a gap is cut into pieces does not matter. -/
theorem skip_gap (g : Gap) (s : List Char) : skip (g.text ++ s) = skip s := by
  induction g with
  | nil => rfl
  | cons p g ih => rw [gap_text_cons, List.append_assoc, skip_piece, ih]

theorem skip_solid {s : List Char} (h : Solid s) : skip s = s := skip_none (blank_solid h)

theorem blank_gap {g : Gap} (h : g ≠ []) (s : List Char) : blank (g.text ++ s) ≠ none := by
  obtain ⟨p, g, rfl⟩ := List.exists_cons_of_ne_nil h
  rw [gap_text_cons, List.append_assoc]
  cases p with
  | space c hc => simp [Piece.text, blank_space hc]
  | line body hbody =>
    have hblank := blank_slashes hbody (.inr ⟨Gap.text g ++ s, rfl⟩)
    simp only [Piece.text, List.append_assoc, List.cons_append, List.nil_append] at hblank ⊢
    simp [hblank]
  | block body hbody =>
    have hblank := blank_block hbody (Gap.text g ++ s)
    simp only [Piece.text, List.append_assoc, List.cons_append, List.nil_append] at hblank ⊢
    simp [hblank]

variable {stuck : List Char → Prop}

theorem gap_reads (g : Gap) : Reads optionalWhitespaceOrComments g.text () True Solid stuck :=
  .of_accepts fun r hr => by
    rw [optionalWhitespaceOrComments_eq, skip_gap, skip_solid hr]

theorem gap1_reads (g : Gap) : Reads whitespaceOrComments g.text () (g ≠ []) Solid stuck := by
  constructor
  · intro hg r hr
    rw [whitespaceOrComments_some (blank_gap hg r), skip_gap, skip_solid hr]
  · intro hg r hr
    obtain rfl := not_not.mp hg
    exact .fails (whitespaceOrComments_none (blank_solid hr))

/-! ### Where a parser is stuck -/

/-- The character is not one that is left. -/
def closes (cs : List Char) (x : Char) : Bool :=
  !isSpace x && x != '/' && !isIdentPart x && x != '.' && !cs.contains x

theorem Stuck.of_cons {cs : List Char} {c : Char} (h : isIdentPart c = true ∨ c = '.')
    (r : List Char) : Stuck cs (c :: r) := by
  refine ⟨[], c, r, rfl, ?_⟩
  rcases h with h | rfl
  · exact ⟨(not_space_of_identPart h).1, (not_space_of_identPart h).2.1, .inl h⟩
  · exact ⟨by decide, by decide, .inr (.inl rfl)⟩

/-- A part that begins with one of the characters is still there. -/
theorem Stuck.of_gap {cs : List Char} {c : Char} (g : Gap) (r : List Char) (hspace : isSpace c = false)
    (hslash : c ≠ '/') (hc : c ∈ cs) : Stuck cs (g.text ++ c :: r) :=
  ⟨g, c, r, rfl, hspace, hslash, .inr (.inr hc)⟩

theorem Stuck.mono {cs cs' s : List Char} (h : Stuck cs s) (hsub : ∀ c ∈ cs, c ∈ cs') :
    Stuck cs' s := by
  obtain ⟨g, c, r, rfl, hspace, hslash, hc⟩ := h
  exact ⟨g, c, r, rfl, hspace, hslash, hc.imp_right (.imp_right (hsub c))⟩

theorem Stuck.skip {cs s : List Char} (h : Stuck cs s) : Stuck cs (skip s) := by
  obtain ⟨g, c, r, rfl, hspace, hslash, hc⟩ := h
  have hsolid : Solid (c :: r) := ⟨hspace, hslash⟩
  rw [skip_gap, skip_solid hsolid]
  exact ⟨[], c, r, rfl, hspace, hslash, hc⟩

theorem through_gap (cs : List Char) :
    Through optionalWhitespaceOrComments (Stuck cs) (Stuck cs) := by
  intro s hs
  exact .inr ⟨(), SchemaText.skip s, optionalWhitespaceOrComments_eq s, hs.skip⟩

theorem char_stuck {cs s : List Char} {x : Char} (hx : closes cs x = true) (hs : Stuck cs s) :
    char x s = none := by
  simp only [closes, Bool.and_eq_true, Bool.not_eq_true', bne_iff_ne, ne_eq] at hx
  obtain ⟨⟨⟨⟨hspace, hslash⟩, hpart⟩, hdot⟩, hcs⟩ := hx
  obtain ⟨g, c, r, rfl, -, -, hc⟩ := hs
  cases g with
  | nil =>
    refine char_cons_ne (fun heq => ?_) r
    subst heq
    rcases hc with hc | hc | hc
    · simp [hpart] at hc
    · exact hdot hc
    · simp [hc] at hcs
  | cons p g =>
    cases p with
    | space d hd =>
      refine char_cons_ne (fun heq => ?_) _
      simp [heq, hspace] at hd
    | line body hbody => exact char_cons_ne (Ne.symm hslash) _
    | block body hbody => exact char_cons_ne (Ne.symm hslash) _

theorem through_char {cs : List Char} {x : Char} (hx : closes cs x = true)
    {stuck' : List Char → Prop} : Through (char x) (Stuck cs) stuck' :=
  .of_none fun _ hs => char_stuck hx hs

theorem gap_char_stuck {cs s : List Char} {x : Char} (hx : closes cs x = true) (hs : Stuck cs s) :
    (optionalWhitespaceOrComments.seq (char x)) s = none := by
  simp only [Parser.seq, optionalWhitespaceOrComments_eq, char_stuck hx hs.skip]

/-! ### Words -/

theorem identPart_of_identStart {c : Char} (h : isIdentStart c = true) : isIdentPart c = true := by
  simp only [isIdentStart, isIdentPart, Char.isAlphanum, Bool.or_eq_true] at h ⊢
  rcases h with h | h
  · exact .inl (.inl h)
  · exact .inr h

theorem ident_cons (id : Ident) :
    ∃ c cs, id.text = c :: cs ∧ isIdentStart c = true ∧ cs.all isIdentPart = true := by
  have h := id.property
  rw [isIdent] at h
  cases hid : id.val.toList with
  | nil => simp [hid] at h
  | cons c cs =>
    simp only [hid, Bool.and_eq_true] at h
    exact ⟨c, cs, hid, h.1, h.2⟩

theorem ident_none {c : Char} (h : isIdentStart c = false) (r : List Char) :
    ident (c :: r) = none := by
  simp [ident, Parser.map, Parser.seq, satisfy, h]

theorem dotted_cons (first second : Ident) (rest : List Ident) :
    (joinDots ((first :: second :: rest).map (·.val))).toList =
      first.text ++ '.' :: (joinDots ((second :: rest).map (·.val))).toList := by
  simp [joinDots, Ident.text]

/-- An identifier ends before any character that is not a part of it. -/
theorem ident_append (id : Ident) {r : List Char} (hr : ∀ d r', r = d :: r' → isIdentPart d = false) :
    ident (id.text ++ r) = some (id.val, r) := by
  obtain ⟨c, cs, htext, hc, hcs⟩ := ident_cons id
  obtain ⟨htake, hdrop⟩ := takeWhile_append hcs hr
  have hval : String.ofList (c :: cs) = id.val := by
    rw [← htext, Ident.text, String.ofList_toList]
  simp [htext, ident, Parser.map, Parser.seq, satisfy, hc, takeWhile, htake, hdrop, hval]

theorem Break.not_part {r : List Char} (hr : Break r) :
    ∀ d r', r = d :: r' → isIdentPart d = false := by
  rintro d r' rfl
  exact hr.1

theorem ident_reads (id : Ident) : Reads ident id.text id.val True Break stuck :=
  .of_accepts fun _ hr => ident_append id hr.not_part

theorem dotted_loop (rest : List Ident) (first : Ident) {n : ℕ} (hn : rest.length < n)
    {r : List Char} (hr : Break r) :
    sepByLoop (char '.') ident n ((joinDots ((first :: rest).map (·.val))).toList ++ r) =
      some ((first :: rest).map (·.val), r) := by
  induction rest generalizing first n with
  | nil =>
    obtain ⟨n, rfl⟩ := Nat.exists_eq_succ_of_ne_zero (Nat.ne_of_gt hn)
    have hident := ident_append first hr.not_part
    have hdot : char '.' r = none := by
      cases r with
      | nil => rfl
      | cons c r => exact char_cons_ne hr.2 r
    simp only [Ident.text] at hident
    simp [joinDots, sepByLoop, hident, hdot]
  | cons second rest ih =>
    obtain ⟨n, rfl⟩ := Nat.exists_eq_succ_of_ne_zero (Nat.ne_of_gt (Nat.zero_lt_of_lt hn))
    have hrest := ih second (Nat.lt_of_succ_lt_succ hn)
    have hident : ∀ s, ident (first.text ++ '.' :: s) = some (first.val, '.' :: s) := by
      intro s
      refine ident_append first ?_
      intro d r' heq
      obtain ⟨rfl, -⟩ := List.cons.inj heq
      decide
    rw [dotted_cons, List.append_assoc, List.cons_append]
    simp only [List.map_cons] at hrest ⊢
    simp only [sepByLoop, hident, Parser.char, if_true, Parser.map, hrest]

theorem length_le_dotted (rest : List Ident) (first : Ident) :
    rest.length ≤ (joinDots ((first :: rest).map (·.val))).toList.length := by
  induction rest generalizing first with
  | nil => exact Nat.zero_le _
  | cons second rest ih =>
    have hrest := ih second
    rw [dotted_cons, List.length_append, List.length_cons, List.length_cons]
    omega

theorem dotted_none {c : Char} (h : isIdentStart c = false) (r : List Char) :
    identWithOptionalNamespace (c :: r) = none := by
  simp only [identWithOptionalNamespace, Parser.map, sepBy1, sepByLoop, ident_none h]

theorem dotted_reads (id : DottedIdent) :
    Reads identWithOptionalNamespace id.text id.value True Break stuck := by
  refine .of_accepts fun r hr => ?_
  have hlen := length_le_dotted id.rest id.first
  have hfuel : id.rest.length < (id.text ++ r).length + 1 := by
    rw [List.length_append, DottedIdent.text, DottedIdent.value]
    omega
  have hloop := dotted_loop id.rest id.first hfuel hr
  simp only [identWithOptionalNamespace, Parser.map, sepBy1, DottedIdent.text, DottedIdent.value]
    at hloop ⊢
  rw [hloop]

theorem ident_parts (id : Ident) : ∀ d ∈ id.text, isIdentPart d = true := by
  obtain ⟨c, cs, htext, hc, hcs⟩ := ident_cons id
  rw [htext]
  exact List.forall_mem_cons.mpr ⟨identPart_of_identStart hc, List.all_eq_true.mp hcs⟩

theorem dotted_parts (rest : List Ident) (first : Ident) :
    ∀ d ∈ (joinDots ((first :: rest).map (·.val))).toList, isIdentPart d = true ∨ d = '.' := by
  induction rest generalizing first with
  | nil =>
    intro d hd
    have hd' : d ∈ first.text := by simpa [joinDots, Ident.text] using hd
    exact .inl (ident_parts first d hd')
  | cons second rest ih =>
    intro d hd
    rw [dotted_cons, List.mem_append, List.mem_cons] at hd
    rcases hd with hd | rfl | hd
    · exact .inl (ident_parts first d hd)
    · exact .inr rfl
    · exact ih second d hd

theorem dotted_text (id : DottedIdent) : ∃ c cs, id.text = c :: cs ∧ isIdentStart c = true := by
  obtain ⟨c, cs, htext, hc, -⟩ := ident_cons id.first
  obtain ⟨first, rest⟩ := id
  cases rest with
  | nil =>
    refine ⟨c, cs, ?_, hc⟩
    rw [← htext]
    simp [DottedIdent.text, DottedIdent.value, joinDots, Ident.text]
  | cons second rest =>
    refine ⟨c, cs ++ '.' :: (joinDots ((second :: rest).map (·.val))).toList, ?_, hc⟩
    rw [DottedIdent.text, DottedIdent.value, dotted_cons, htext, List.cons_append]

/-- What is written is longer than the word that is read. -/
theorem text_of_isPrefix {word text : List Char} (h : word <+: text)
    (hparts : ∀ d ∈ text, isIdentPart d = true ∨ d = '.') :
    text = word ∨ ∃ s, text = word ++ s ∧ ∀ cs r, Stuck cs (s ++ r) := by
  obtain ⟨s, rfl⟩ := h
  cases s with
  | nil => exact .inl (List.append_nil word)
  | cons c s =>
    have hc := hparts c (by simp)
    exact .inr ⟨c :: s, rfl, fun cs r => Stuck.of_cons hc (s ++ r)⟩

/-- A word that a text does not begin with is not read from it, whatever follows. -/
theorem not_isPrefix_append {word text r : List Char} (h : ¬ word <+: text)
    (hword : ∀ d ∈ word, isIdentPart d = true) (hr : Break r) : ¬ word <+: text ++ r := by
  intro hword'
  rcases List.prefix_or_prefix_of_prefix hword' (List.prefix_append text r) with h' | ⟨s, rfl⟩
  · exact h h'
  · rw [List.prefix_append_right_inj] at hword'
    obtain ⟨r', rfl⟩ := hword'
    cases s with
    | nil => exact h (by simp)
    | cons d s =>
      have hpart := hword d (by simp)
      rw [hr.1] at hpart
      exact Bool.false_ne_true hpart

/-! ### Numbers -/

/-- No number goes on here. -/
def NumberEnd : List Char → Prop
  | [] => True
  | c :: _ => c.isDigit = false ∧ c ≠ '.'

theorem Break.numberEnd {r : List Char} (hr : Break r) : NumberEnd r := by
  cases r with
  | nil => trivial
  | cons c r =>
    have hc := hr.1
    simp only [isIdentPart, Char.isAlphanum, Bool.or_eq_false_iff] at hc
    exact ⟨hc.1.2, hr.2⟩

theorem NumberEnd.not_digit {r : List Char} (hr : NumberEnd r) :
    ∀ c r', r = c :: r' → c.isDigit = false := by
  rintro c r' rfl
  exact hr.1

theorem digits_ne {d x : Char} (h : d.isDigit = true) (hx : x.isDigit = false) : d ≠ x := by
  rintro rfl
  simp [hx] at h

theorem digits_cons (ds : Digits) : ∃ d ds', ds.val = d :: ds' ∧ d.isDigit = true := by
  obtain ⟨ds, hne, hall⟩ := ds
  obtain ⟨d, ds', rfl⟩ := List.exists_cons_of_ne_nil hne
  exact ⟨d, ds', rfl, List.all_eq_true.mp hall d List.mem_cons_self⟩

theorem digits1_append (ds : Digits) {r : List Char} (hr : ∀ c r', r = c :: r' → c.isDigit = false) :
    digits1 (ds.val ++ r) = some (ds.val, r) := by
  obtain ⟨htake, hdrop⟩ := takeWhile_append ds.property.2 hr
  simp only [digits1, takeWhile1, htake, hdrop, if_neg ds.property.1]

theorem sign_append (s : Sign) {r : List Char} (hr : ∀ c r', r = c :: r' → c ≠ '-' ∧ c ≠ '+') :
    sign (s.text ++ r) = some (s.text, r) := by
  cases s with
  | none =>
    cases r with
    | nil => rfl
    | cons c r =>
      obtain ⟨hminus, hplus⟩ := hr c r rfl
      simp [Sign.text, sign, Parser.map, possibly, satisfy, hminus, hplus]
  | plus => rfl
  | minus => rfl

theorem mantissa_append (m : Mantissa) {r : List Char} (hr : NumberEnd r) :
    mantissa (m.text ++ r) = some (m.text, r) := by
  cases m with
  | fraction ds =>
    have hdigits := digits1_append ds hr.not_digit
    simp [Mantissa.text, mantissa, choice, Parser.map, Parser.seq, hdigits]
  | point ds fs =>
    obtain ⟨d, ds', hds, hd⟩ := digits_cons ds
    have hdot : ∀ c r', '.' :: (fs.val ++ r) = c :: r' → c.isDigit = false := by
      intro c r' heq
      obtain ⟨rfl, -⟩ := List.cons.inj heq
      decide
    have hdigits := digits1_append ds hdot
    obtain ⟨htake, hdrop⟩ := takeWhile_append fs.property hr.not_digit
    have hfirst : char '.' (ds.val ++ '.' :: (fs.val ++ r)) = none := by
      rw [hds]
      exact char_cons_ne (digits_ne hd (by decide)) _
    simp [Mantissa.text, mantissa, choice, Parser.map, Parser.seq, hfirst, hdigits, takeWhile, htake,
      hdrop]
  | integer ds =>
    obtain ⟨d, ds', hds, hd⟩ := digits_cons ds
    have hdigits := digits1_append ds hr.not_digit
    have hfirst : char '.' (ds.val ++ r) = none := by
      rw [hds]
      exact char_cons_ne (digits_ne hd (by decide)) _
    have hsecond : char '.' r = none := by
      cases r with
      | nil => rfl
      | cons c r => exact char_cons_ne hr.2 r
    simp [Mantissa.text, mantissa, choice, Parser.map, Parser.seq, hfirst, hdigits, hsecond]

theorem digits_not_sign (ds : Digits) (r : List Char) :
    ∀ c r', ds.val ++ r = c :: r' → c ≠ '-' ∧ c ≠ '+' := by
  intro c r' heq
  obtain ⟨d, ds', hds, hd⟩ := digits_cons ds
  rw [hds] at heq
  obtain ⟨rfl, -⟩ := List.cons.inj heq
  exact ⟨digits_ne hd (by decide), digits_ne hd (by decide)⟩

theorem exponent_append (e : Option Exponent) {r : List Char} (hr : NumberEnd r)
    (he : ∀ c r', r = c :: r' → c ≠ 'e' ∧ c ≠ 'E') :
    exponent ((e.map Exponent.text).getD [] ++ r) = some ((e.map Exponent.text).getD [], r) := by
  cases e with
  | none =>
    cases r with
    | nil => rfl
    | cons c r =>
      obtain ⟨hlower, hupper⟩ := he c r rfl
      simp [exponent, Parser.map, Parser.seq, possibly, satisfy, hlower, hupper]
  | some e =>
    obtain ⟨⟨c, hc⟩, sg, ds⟩ := e
    have hsign := sign_append sg (digits_not_sign ds r)
    have hdigits := digits1_append ds hr.not_digit
    simp [Exponent.text, exponent, Parser.map, Parser.seq, possibly, satisfy, hc, hsign, hdigits]

theorem Break.not_exponent {r : List Char} (hr : Break r) :
    ∀ c r', r = c :: r' → c ≠ 'e' ∧ c ≠ 'E' := by
  rintro c r' rfl
  constructor
  · rintro rfl
    exact absurd hr.1 (by decide)
  · rintro rfl
    exact absurd hr.1 (by decide)

theorem mantissa_not_sign (m : Mantissa) (r : List Char) :
    ∀ c r', m.text ++ r = c :: r' → c ≠ '-' ∧ c ≠ '+' := by
  intro c r' heq
  cases m with
  | fraction ds =>
    obtain ⟨rfl, -⟩ := List.cons.inj heq
    decide
  | point ds fs =>
    rw [Mantissa.text, List.append_assoc] at heq
    exact digits_not_sign ds _ c r' heq
  | integer ds => exact digits_not_sign ds r c r' heq

theorem exponent_numberEnd (e : Option Exponent) {r : List Char} (hr : NumberEnd r) :
    NumberEnd ((e.map Exponent.text).getD [] ++ r) := by
  cases e with
  | none => exact hr
  | some e =>
    obtain ⟨⟨c, hc⟩, sg, ds⟩ := e
    have hend : c.isDigit = false ∧ c ≠ '.' := by
      rcases hc with rfl | rfl
      · decide
      · decide
    exact hend

variable {js : NumberFunctions}

theorem decFloat_append (sg : Sign) (m : Mantissa) (e : Option Exponent) {r : List Char}
    (hr : NumberEnd r) (he : ∀ c r', r = c :: r' → c ≠ 'e' ∧ c ≠ 'E') :
    decFloatConstant js (NumberText.text (.decimal sg m e) ++ r) =
      some (NumberText.value js (.decimal sg m e), r) := by
  have hexponent := exponent_append e hr he
  have hmantissa := mantissa_append m (exponent_numberEnd e hr)
  have hsign := sign_append sg (mantissa_not_sign m ((e.map Exponent.text).getD [] ++ r))
  simp [NumberText.value, NumberText.text, decFloatConstant, Parser.map, Parser.seq, hsign,
    hmantissa, hexponent]

theorem sign_letter (sg : Sign) {c : Char} (hc : c = 'n' ∨ c = 'i') (r : List Char) :
    sign (sg.text ++ c :: r) = some (sg.text, c :: r) := by
  refine sign_append sg ?_
  intro d r' heq
  obtain ⟨rfl, -⟩ := List.cons.inj heq
  rcases hc with rfl | rfl
  · decide
  · decide

/-- No number begins with the letter of a special constant. -/
theorem decFloat_none (sg : Sign) {c : Char} (hc : c = 'n' ∨ c = 'i') (r : List Char) :
    decFloatConstant js (sg.text ++ c :: r) = none := by
  have hsign := sign_letter sg hc r
  have hmantissa : mantissa (c :: r) = none := by
    rcases hc with rfl | rfl
    · rfl
    · rfl
  simp [decFloatConstant, Parser.map, Parser.seq, hsign, hmantissa]

theorem numeric_of_float {s : List Char} {x : Number × List Char} (h : floatConstant js s = some x) :
    numericConstant js s = some x :=
  choice_cons_some h

/-- The words of `specialFloatConstant`. -/
def special : Parser Bool :=
  choice [(str "nan").map fun _ => true, (str "inf").map fun _ => false,
    (str "infinity").map fun _ => false]

theorem special_nan (r : List Char) : special ('n' :: 'a' :: 'n' :: r) = some (true, r) := by
  simp [special, choice, str, chars, Parser.map]

theorem special_inf (r : List Char) : special ('i' :: 'n' :: 'f' :: r) = some (false, r) := by
  simp [special, choice, str, chars, Parser.map, char_cons_ne]

theorem special_append (sg : Sign) {c : Char} (hc : c = 'n' ∨ c = 'i') {r r' : List Char} {b : Bool}
    (hword : special (c :: r) = some (b, r')) :
    numericConstant js (sg.text ++ c :: r) =
      some (if b then SchemaParser.nan else SchemaParser.infinity (sg == .minus), r') := by
  have hsign := sign_letter sg hc r
  have hspecial : specialFloatConstant (sg.text ++ c :: r) =
      some (if b then SchemaParser.nan else SchemaParser.infinity (sg == .minus), r') := by
    rw [special] at hword
    simp only [specialFloatConstant, Parser.map, Parser.seq, hsign, hword]
    cases sg with
    | none => rfl
    | plus => rfl
    | minus => rfl
  have hfloat : floatConstant js (sg.text ++ c :: r) = _ :=
    (choice_cons_none (decFloat_none sg hc r)).trans (choice_cons_some hspecial)
  exact numeric_of_float hfloat

theorem hex_letter (x : {c : Char // c = 'x' ∨ c = 'X'}) (r : List Char) :
    NumberEnd (x.val :: r) ∧ isIdentPart x.val = true ∧
      ∀ c r', x.val :: r = c :: r' → c ≠ 'e' ∧ c ≠ 'E' := by
  have hx : x.val.isDigit = false ∧ x.val ≠ '.' ∧ isIdentPart x.val = true ∧ x.val ≠ 'e' ∧
      x.val ≠ 'E' := by
    rcases x.property with h | h
    · rw [h]
      decide
    · rw [h]
      decide
  refine ⟨⟨hx.1, hx.2.1⟩, hx.2.2.1, ?_⟩
  intro c r' heq
  obtain ⟨rfl, -⟩ := List.cons.inj heq
  exact hx.2.2.2

/-- What is read of a number that is not good. -/
theorem number_left {n : NumberText} (h : ¬ n.Good) (r : List Char) :
    ∃ x s, numericConstant js (n.text ++ r) = some (x, s) ∧ Stuck [] s := by
  cases n with
  | decimal sg m e => exact absurd trivial h
  | hex sg x ds =>
    -- `0` is read as a decimal constant
    obtain ⟨hend, hpart, hexp⟩ := hex_letter x (ds.val ++ r)
    have hdec := @decFloat_append js sg (.integer ⟨['0'], by decide⟩) none _ hend hexp
    have htext : NumberText.text (.hex sg x ds) ++ r =
        NumberText.text (.decimal sg (.integer ⟨['0'], by decide⟩) none) ++
          x.val :: (ds.val ++ r) := by
      simp [NumberText.text, Mantissa.text]
    rw [htext]
    exact ⟨_, _, numeric_of_float (choice_cons_some hdec), Stuck.of_cons (.inl hpart) _⟩
  | nan sg => exact absurd trivial h
  | inf sg => exact absurd trivial h
  | infinity sg =>
    -- `inf` is read
    rw [NumberText.text, List.append_assoc]
    have hword := @special_append js sg _ (.inr rfl) _ _ _ (special_inf ("inity".toList ++ r))
    exact ⟨_, _, hword, Stuck.of_cons (.inl (by decide)) _⟩

theorem number_reads (n : NumberText) :
    Reads (numericConstant js) n.text (n.value js) n.Good Break (Stuck []) := by
  constructor
  · intro hgood r hr
    cases n with
    | decimal sg m e =>
      have hdec := @decFloat_append js sg m e r hr.numberEnd hr.not_exponent
      exact numeric_of_float (choice_cons_some hdec)
    | hex sg x ds => exact hgood.elim
    | nan sg =>
      rw [NumberText.text, List.append_assoc]
      exact special_append sg (.inl rfl) (special_nan r)
    | inf sg =>
      rw [NumberText.text, List.append_assoc]
      exact special_append sg (.inr rfl) (special_inf r)
    | infinity sg => exact hgood.elim
  · intro hgood r _
    obtain ⟨x, s, hread, hstuck⟩ := @number_left js n hgood r
    exact .stuck x s hstuck hread

theorem number_ne_none (n : NumberText) {r : List Char} (hr : Break r) :
    numericConstant js (n.text ++ r) ≠ none := by
  by_cases hgood : n.Good
  · rw [(number_reads n).accepts hgood r hr]
    exact Option.some_ne_none _
  · obtain ⟨x, s, hread, -⟩ := @number_left js n hgood r
    rw [hread]
    exact Option.some_ne_none _

/-! ### Literals -/

/-- The characters that a number begins with. -/
def numberStart (c : Char) : Bool :=
  c.isDigit || c == '-' || c == '+' || c == '.' || c == 'n' || c == 'i'

theorem signed_cons (sg : Sign) {c : Char} (hc : numberStart c = true) (s : List Char) :
    ∃ d s', sg.text ++ c :: s = d :: s' ∧ numberStart d = true := by
  cases sg with
  | none => exact ⟨c, s, rfl, hc⟩
  | plus => exact ⟨'+', c :: s, rfl, by decide⟩
  | minus => exact ⟨'-', c :: s, rfl, by decide⟩

theorem number_cons (n : NumberText) : ∃ c s, n.text = c :: s ∧ numberStart c = true := by
  cases n with
  | decimal sg m e =>
    rw [NumberText.text, List.append_assoc]
    have hdigits : ∀ (ds : Digits) s, ∃ c s', ds.val ++ s = c :: s' ∧ numberStart c = true := by
      intro ds s
      obtain ⟨d, ds', hds, hd⟩ := digits_cons ds
      exact ⟨d, ds' ++ s, by rw [hds, List.cons_append], by simp [numberStart, hd]⟩
    have hm : ∃ c s', m.text ++ (e.map Exponent.text).getD [] = c :: s' ∧ numberStart c = true := by
      cases m with
      | fraction ds => exact ⟨'.', _, rfl, by decide⟩
      | point ds fs =>
        rw [Mantissa.text, List.append_assoc]
        exact hdigits ds _
      | integer ds => exact hdigits ds _
    obtain ⟨c, s', hs, hc⟩ := hm
    rw [hs]
    exact signed_cons sg hc s'
  | hex sg x ds => exact signed_cons sg (by decide) _
  | nan sg => exact signed_cons sg (by decide) _
  | inf sg => exact signed_cons sg (by decide) _
  | infinity sg => exact signed_cons sg (by decide) _

theorem numberStart_ne {c x : Char} (h : numberStart c = true) (hx : numberStart x = false) :
    c ≠ x := by
  rintro rfl
  simp [hx] at h

theorem boolean_reads (b : Bool) :
    Reads booleanLiteral (ScalarText.boolean b).text b True Break stuck := by
  refine .of_accepts fun r _ => ?_
  cases b with
  | false =>
    unfold ScalarText.text
    simp [booleanLiteral, choice, Parser.map, str, chars, char_cons_ne]
  | true =>
    unfold ScalarText.text
    simp [booleanLiteral, choice, Parser.map, str, chars]

theorem boolean_none {c : Char} (ht : c ≠ 't') (hf : c ≠ 'f') (r : List Char) :
    booleanLiteral (c :: r) = none := by
  simp [booleanLiteral, choice, fail, Parser.map, str, chars, char_cons_ne, ht, hf]

theorem not_digit_of_identStart {c : Char} (h : isIdentStart c = true) : c.isDigit = false := by
  simp only [isIdentStart, Bool.or_eq_true, isAlpha_iff, beq_iff_eq] at h
  rw [Bool.eq_false_iff]
  intro hdigit
  rw [isDigit_iff] at hdigit
  rcases h with h | rfl
  · omega
  · exact absurd hdigit (by decide)

/-- The words that scalars begin with. -/
def scalarWords : List String := ["true", "false", "nan", "inf"]

theorem numeric_none {c : Char} {r : List Char} (hc : isIdentStart c = true ∨ c = '"')
    (hnan : ¬ "nan".toList <+: c :: r) (hinf : ¬ "inf".toList <+: c :: r) :
    numericConstant js (c :: r) = none := by
  have hne : ∀ x, isIdentStart x = false → x ≠ '"' → c ≠ x := by
    rintro x hx hquote rfl
    rcases hc with hc | hc
    · simp [hx] at hc
    · exact hquote hc
  have hminus := hne '-' (by decide) (by decide)
  have hplus := hne '+' (by decide) (by decide)
  have hdot := hne '.' (by decide) (by decide)
  have hzero := hne '0' (by decide) (by decide)
  have hdigit : c.isDigit = false := by
    rcases hc with hc | rfl
    · exact not_digit_of_identStart hc
    · decide
  have hsign : sign (c :: r) = some ([], c :: r) := by
    simp [sign, Parser.map, possibly, satisfy, hminus, hplus]
  have hdigits : digits1 (c :: r) = none := by
    simp [digits1, takeWhile1, hdigit]
  have hmantissa : mantissa (c :: r) = none := by
    simp [mantissa, choice, fail, Parser.map, Parser.seq, char_cons_ne hdot, hdigits]
  have hinfinity : ¬ "infinity".toList <+: c :: r := fun h => hinf (List.IsPrefix.trans (by decide) h)
  have hdec : decFloatConstant js (c :: r) = none := by
    simp [decFloatConstant, Parser.map, Parser.seq, hsign, hmantissa]
  have hspecial : specialFloatConstant (c :: r) = none := by
    simp [specialFloatConstant, choice, fail, Parser.map, Parser.seq, hsign, str_eq_none hnan,
      str_eq_none hinf, str_eq_none hinfinity]
  have hhex : hexIntegerConstant js (c :: r) = none := by
    simp [hexIntegerConstant, Parser.map, Parser.seq, hsign, char_cons_ne hzero]
  have hint : decIntegerConstant js (c :: r) = none := by
    simp [decIntegerConstant, Parser.map, Parser.seq, hsign, hdigits]
  simp [numericConstant, floatConstant, integerConstant, choice, fail, hdec, hspecial, hhex, hint]

theorem scalar_none {c : Char} {r : List Char} (hc : isIdentStart c = true ∨ c = '"')
    (hwords : ∀ word ∈ scalarWords, ¬ word.toList <+: c :: r) : scalar js (c :: r) = none := by
  have htrue := str_eq_none (hwords "true" (by decide))
  have hfalse := str_eq_none (hwords "false" (by decide))
  have hnumeric := @numeric_none js c r hc (hwords "nan" (by decide)) (hwords "inf" (by decide))
  simp [scalar, numericLiteral, booleanLiteral, choice, fail, Parser.map, htrue, hfalse, hnumeric]

theorem number_not_boolean (n : NumberText) (r : List Char) :
    booleanLiteral (n.text ++ r) = none := by
  obtain ⟨c, s, htext, hc⟩ := number_cons n
  rw [htext, List.cons_append]
  exact boolean_none (numberStart_ne hc (by decide)) (numberStart_ne hc (by decide)) _

theorem scalar_reads (x : ScalarText) :
    Reads (scalar js) x.text (x.value js) x.Good Break (Stuck []) := by
  cases x with
  | boolean b =>
    refine Reads.congr (.of_accepts fun r hr => ?_) (by simp [ScalarText.Good])
    have hbool := (@boolean_reads Nowhere b).accepts trivial r hr
    refine choice_cons_some ?_
    simp only [Parser.map, hbool, ScalarText.value]
  | number n =>
    have hmap := (@number_reads js n).map AstScalarLiteral.numeric (by simp)
    refine Reads.choice_tail (hmap.choice_head fun _ _ _ => rfl) fun r _ => ?_
    unfold ScalarText.text
    simp only [Parser.map, number_not_boolean]

theorem scalar_ne_none (x : ScalarText) {r : List Char} (hr : Break r) :
    scalar js (x.text ++ r) ≠ none := by
  cases x with
  | boolean b =>
    rw [(scalar_reads (.boolean b)).accepts trivial r hr]
    exact Option.some_ne_none _
  | number n =>
    obtain ⟨y, hy⟩ := Option.ne_none_iff_exists'.mp (@number_ne_none js n r hr)
    unfold ScalarText.text
    simp [scalar, numericLiteral, choice, Parser.map, number_not_boolean, hy]

theorem string_reads (x : StringText) :
    Reads stringConstant x.text x.value True Anything stuck := by
  refine .of_accepts fun r _ => ?_
  have hbody : everyCharUntil (char '"') (x.val ++ '"' :: r) = some (x.val, '"' :: r) := by
    refine everyCharUntil_append ?_ (by simp)
    intro pre c post heq
    refine char_cons_ne ?_ _
    rintro rfl
    exact x.property (by simp [heq])
  simp [StringText.text, StringText.value, stringConstant, Parser.map, Parser.seq, hbody]

theorem literal_reads (x : LiteralText) :
    Reads (literal js) x.text (x.value js) x.Good Break (Stuck []) := by
  cases x with
  | scalar x =>
    refine Reads.choice_head ((scalar_reads x).map AstLiteral.scalar (by simp)) fun r hr hnone => ?_
    obtain ⟨y, hy⟩ := Option.ne_none_iff_exists'.mp (@scalar_ne_none js x r hr)
    simp [LiteralText.text, Parser.map, hy] at hnone
  | string x =>
    have hstring := Reads.map (@string_reads (Stuck []) x) AstLiteral.string (by simp)
    refine Reads.choice_tail ((hstring.restrict fun _ _ => trivial).choice_head fun _ _ _ => rfl) ?_
    intro r _
    have hwords : ∀ word ∈ scalarWords, ¬ word.toList <+: '"' :: (x.val ++ '"' :: r) := by
      simp [scalarWords]
    have hscalar := @scalar_none js '"' _ (.inr rfl) hwords
    simp [LiteralText.text, StringText.text, Parser.map, hscalar]

theorem special_word {c : Char} {r s : List Char} {b : Bool} (hc : c = 'n' ∨ c = 'i')
    (hword : special (c :: r) = some (b, s)) :
    scalar js (c :: r) =
      some (.numeric (if b then SchemaParser.nan else SchemaParser.infinity false), s) := by
  have hbool : booleanLiteral (c :: r) = none := by
    rcases hc with rfl | rfl
    · exact boolean_none (by decide) (by decide) r
    · exact boolean_none (by decide) (by decide) r
  have hnumeric : numericConstant js (c :: r) =
      some (if b then SchemaParser.nan else SchemaParser.infinity false, s) :=
    @special_append js .none c hc r s b hword
  simp [scalar, numericLiteral, choice, Parser.map, hbool, hnumeric]

theorem scalar_word {word : String} (h : word ∈ scalarWords) :
    ∃ v, ∀ s, scalar js (word.toList ++ s) = some (v, s) := by
  simp only [scalarWords, List.mem_cons, List.not_mem_nil, or_false] at h
  rcases h with rfl | rfl | rfl | rfl
  · exact ⟨.boolean true, fun s => by simp [scalar, booleanLiteral, choice, Parser.map, str, chars]⟩
  · refine ⟨.boolean false, fun s => ?_⟩
    simp [scalar, booleanLiteral, choice, Parser.map, str, chars, char_cons_ne]
  · exact ⟨_, fun s => special_word (.inl rfl) (special_nan s)⟩
  · exact ⟨_, fun s => special_word (.inr rfl) (special_inf s)⟩

theorem scalarWords_parts {word : String} (h : word ∈ scalarWords) :
    ∀ d ∈ word.toList, isIdentPart d = true := by
  have hall : (scalarWords.all fun word => word.toList.all isIdentPart) = true := by decide
  exact List.all_eq_true.mp (List.all_eq_true.mp hall word h)

theorem default_reads (x : DefaultText) :
    Reads (scalarOrRefLiteral js) x.text (x.value js) x.Good Break (Stuck []) := by
  cases x with
  | scalar x =>
    refine Reads.choice_head ((scalar_reads x).map AstDefault.scalar (by simp)) fun r hr hnone => ?_
    obtain ⟨y, hy⟩ := Option.ne_none_iff_exists'.mp (@scalar_ne_none js x r hr)
    simp [DefaultText.text, Parser.map, hy] at hnone
  | ref id =>
    constructor
    · intro hgood r hr
      obtain ⟨c, cs, htext, hc, -⟩ := ident_cons id
      have hwords : ∀ word ∈ scalarWords, ¬ word.toList <+: id.text ++ r := fun word hword =>
        not_isPrefix_append (hgood word hword) (scalarWords_parts hword) hr
      have hscalar : scalar js (id.text ++ r) = none := by
        rw [htext] at hwords ⊢
        exact scalar_none (.inl hc) hwords
      have hident := ident_append id hr.not_part
      simp only [DefaultText.text, DefaultText.value, scalarOrRefLiteral, choice, Parser.map, hscalar,
        hident]
    · intro hbad r _
      have hword : ∃ word ∈ scalarWords, word.toList <+: id.text := by
        by_contra hnone
        exact hbad fun word hmem hword => hnone ⟨word, hmem, hword⟩
      obtain ⟨word, hmem, hword⟩ := hword
      obtain ⟨v, hv⟩ := @scalar_word js word hmem
      have hdefault : ∀ s, scalarOrRefLiteral js (word.toList ++ s) = some (.scalar v, s) := by
        intro s
        simp only [scalarOrRefLiteral, choice, Parser.map, hv]
      rcases text_of_isPrefix hword fun d hd => .inl (ident_parts id d hd) with heq | ⟨s, heq, hs⟩
      · refine .other (.scalar v) (by simp [DefaultText.value]) ?_
        rw [DefaultText.text, heq, hdefault]
      · refine .stuck (.scalar v) (s ++ r) (hs [] r) ?_
        rw [DefaultText.text, heq, List.append_assoc, hdefault]

/-! ### Types -/

/-- The basic types in the order in which they are tried. -/
def basicTypes : List BasicType :=
  [BasicType.bool, BasicType.string] ++ intTypes.map .int ++ floatTypes.map .float

theorem basicType_eq (s : List Char) :
    basicType s = (basicTypes.find? fun t => t.name.toList.isPrefixOf s).map fun t =>
      (t, s.drop t.name.toList.length) := by
  have hwords : (basicTypes.map fun t => (str t.name).map fun _ => t) =
      boolType :: stringType :: ((intTypes.map fun x => (str x.name).map fun _ => BasicType.int x) ++
        floatTypes.map fun x => (str x.name).map fun _ => BasicType.float x) := rfl
  rw [← choice_words, hwords, basicType]
  cases hbool : boolType s with
  | some x => rw [choice_cons_some hbool, choice_cons_some hbool]
  | none =>
    cases hstring : stringType s with
    | some x =>
      rw [choice_cons_none hbool, choice_cons_none hbool, choice_cons_some hstring,
        choice_cons_some hstring]
    | none =>
      rw [choice_cons_none hbool, choice_cons_none hbool, choice_cons_none hstring,
        choice_cons_none hstring, choice_append]
      rfl

/-- No readable name begins another one. -/
theorem readable_unique : ∀ type ∈ readableTypes, ∀ type' ∈ readableTypes,
    type.name.toList <+: type'.name.toList → type = type' := by
  decide

/-- No name begins one that is tried before it. -/
theorem basicTypes_pairwise :
    basicTypes.Pairwise fun type type' => ¬ type'.name.toList <+: type.name.toList := by
  decide

theorem readable_mem : ∀ type ∈ readableTypes, type ∈ basicTypes := by
  decide

theorem readable_parts : ∀ type ∈ readableTypes, ∀ d ∈ type.name.toList, isIdentPart d = true := by
  intro type h
  have hall : (readableTypes.all fun type => type.name.toList.all isIdentPart) = true := by decide
  exact List.all_eq_true.mp (List.all_eq_true.mp hall type h)

/-- A longer name begins with a readable one. -/
theorem exists_readable (type : BasicType) : ∃ type' ∈ readableTypes,
    type'.name.toList <+: type.name.toList := by
  cases type with
  | bool => exact ⟨.bool, by decide, List.prefix_rfl⟩
  | string => exact ⟨.string, by decide, List.prefix_rfl⟩
  | int type => cases type <;> decide
  | float type => cases type <;> decide

theorem readable_of_isPrefix {type type' : BasicType} {s : List Char} (h : type ∈ readableTypes)
    (h' : type' ∈ readableTypes) (hs : type.name.toList <+: s) (hs' : type'.name.toList <+: s) :
    type = type' := by
  rcases List.prefix_or_prefix_of_prefix hs hs' with hbegins | hbegins
  · exact readable_unique type h type' h' hbegins
  · exact (readable_unique type' h' type h hbegins).symm

theorem basicType_readable {type : BasicType} (h : type ∈ readableTypes) (r : List Char) :
    basicType (type.name.toList ++ r) = some (type, r) := by
  have hbegins : type.name.toList <+: type.name.toList ++ r := List.prefix_append _ r
  have hfind : (basicTypes.find? fun t => t.name.toList.isPrefixOf (type.name.toList ++ r)) =
      some type := by
    cases hfound : basicTypes.find? fun t => t.name.toList.isPrefixOf (type.name.toList ++ r) with
    | none =>
      have hnone := List.find?_eq_none.mp hfound type (readable_mem type h)
      exact absurd (List.isPrefixOf_iff_prefix.mpr hbegins) hnone
    | some first =>
      obtain ⟨hfirst, before, after, hsplit, hbefore⟩ := List.find?_eq_some_iff_append.mp hfound
      rw [List.isPrefixOf_iff_prefix] at hfirst
      -- the readable name that the first one begins with is the one that is written
      obtain ⟨type', h', hlonger⟩ := exists_readable first
      obtain rfl := readable_of_isPrefix h' h (hlonger.trans hfirst) hbegins
      have hmem := readable_mem type' h
      rw [hsplit, List.mem_append, List.mem_cons] at hmem
      rcases hmem with hmem | rfl | hmem
      · have hno := hbefore type' hmem
        rw [List.isPrefixOf_iff_prefix.mpr hbegins] at hno
        exact absurd hno (by decide)
      · rfl
      · have hpairwise := basicTypes_pairwise
        rw [hsplit] at hpairwise
        have hrel := (List.pairwise_cons.mp (List.pairwise_append.mp hpairwise).2.1).1 type' hmem
        exact absurd hlonger hrel
  rw [basicType_eq, hfind, Option.map_some, List.drop_left]

theorem basicType_none {s : List Char} (h : ∀ type ∈ readableTypes, ¬ type.name.toList <+: s) :
    basicType s = none := by
  have hfind : (basicTypes.find? fun t => t.name.toList.isPrefixOf s) = none := by
    refine List.find?_eq_none.mpr fun type _ hbegins => ?_
    obtain ⟨type', h', hlonger⟩ := exists_readable type
    exact h type' h' (hlonger.trans (List.isPrefixOf_iff_prefix.mp hbegins))
  rw [basicType_eq, hfind, Option.map_none]

/-- Between two brackets and gaps. -/
theorem between_reads {α : Type} {p : Parser α} {text : List Char} {a : α} {good : Prop}
    {follow : List Char → Prop} {cs : List Char} {left right : Char} (before after : Gap)
    (h : Reads p text a good follow (Stuck cs)) (hright : closes cs right = true)
    (htext : ∀ r, Solid (text ++ (after.text ++ right :: r)))
    (hfollow : ∀ r, follow (after.text ++ right :: r)) :
    Reads (betweenWithOptionalWhitespace left right p)
      ([left] ++ before.text ++ text ++ (after.text ++ [right])) a good Anything Nowhere := by
  have hsolid : Solid [right] := by
    simp only [closes, Bool.and_eq_true, Bool.not_eq_true', bne_iff_ne, ne_eq] at hright
    exact ⟨hright.1.1.1.1, hright.1.1.1.2⟩
  have hopen := (@Reads.char left Nowhere).seq (@gap_reads Nowhere before) (fun _ _ => trivial) .nowhere
  have hp : Reads p text a good (fun r => ∃ r', r = after.text ++ right :: r') (Stuck cs) :=
    h.restrict fun r ⟨r', hr⟩ => hr ▸ hfollow r'
  have hinner := hopen.seq hp (fun r ⟨r', hr⟩ => hr ▸ htext r') .nowhere
  have hclose := (@gap_reads Nowhere after).seq (@Reads.char right Nowhere) (fun _ _ => hsolid) .nowhere
  have hall := hinner.seq hclose (fun r _ => ⟨r, by simp⟩) ((through_gap cs).seq (through_char hright))
  refine hall.map_to rfl (by simp) ?_
  rintro ⟨⟨⟨⟨⟩, ⟨⟩⟩, x⟩, ⟨⟨⟩, ⟨⟩⟩⟩ rfl
  rfl

theorem name_cons (type : BasicType) : ∃ c s, type.name.toList = c :: s ∧
    isIdentStart c = true ∧ ∀ d ∈ type.name.toList, isIdentPart d = true := by
  have hname : isIdent type.name = true := by
    cases type with
    | bool => decide
    | string => decide
    | int type => cases type <;> decide
    | float type => cases type <;> decide
  obtain ⟨c, cs, htext, hc, -⟩ := ident_cons ⟨type.name, hname⟩
  exact ⟨c, cs, htext, hc, ident_parts ⟨type.name, hname⟩⟩

theorem basicType_none_of_head {c : Char} (hc : isIdentPart c = false) (r : List Char) :
    basicType (c :: r) = none := by
  refine basicType_none fun type _ hbegins => ?_
  obtain ⟨d, s, hname, hd, -⟩ := name_cons type
  rw [hname, List.cons_prefix_cons] at hbegins
  rw [hbegins.1] at hd
  rw [identPart_of_identStart hd] at hc
  exact absurd hc (by decide)

theorem type_cons (t : TypeText) : ∃ c s, t.text = c :: s ∧ (isIdentStart c = true ∨ c = '[') := by
  cases t with
  | basic type =>
    obtain ⟨c, s, htext, hc, -⟩ := name_cons type
    exact ⟨c, s, htext, .inl hc⟩
  | vector before type after =>
    refine ⟨'[', before.text ++ (type.text ++ (after.text ++ [']'])), ?_, .inr rfl⟩
    simp [TypeText.text]
  | custom id =>
    obtain ⟨c, cs, htext, hc⟩ := dotted_text id
    exact ⟨c, cs, htext, .inl hc⟩

theorem Solid.of_identStart {c : Char} (h : isIdentStart c = true) (r : List Char) : Solid (c :: r) :=
  have hc := not_space_of_identPart (identPart_of_identStart h)
  ⟨hc.1, hc.2.1⟩

theorem type_solid (t : TypeText) (r : List Char) : Solid (t.text ++ r) := by
  obtain ⟨c, s, htext, hc⟩ := type_cons t
  rw [htext, List.cons_append]
  rcases hc with hc | rfl
  · exact Solid.of_identStart hc _
  · exact ⟨by decide, by decide⟩

/-- The name of a basic type is read from what begins with it. -/
theorem typeLoop_basic {type : BasicType} (h : type ∈ readableTypes) (n : ℕ) (r : List Char) :
    typeLoop (n + 1) (type.name.toList ++ r) = some (.basic type, r) :=
  choice_cons_some (by simp only [Parser.map, basicType_readable h])

theorem type_left {text : List Char} (n : ℕ) {type : BasicType} (h : type ∈ readableTypes)
    (hbegins : type.name.toList <+: text) (hparts : ∀ d ∈ text, isIdentPart d = true ∨ d = '.')
    {value : AstFieldType} (hvalue : value ≠ .basic type) (r : List Char) :
    Refused (typeLoop (n + 1)) (text ++ r) value r (Stuck []) := by
  rcases text_of_isPrefix hbegins hparts with rfl | ⟨s, rfl, hs⟩
  · exact .other (.basic type) (Ne.symm hvalue) (typeLoop_basic h n r)
  · refine .stuck (.basic type) (s ++ r) (hs [] r) ?_
    rw [List.append_assoc, typeLoop_basic h]

theorem type_reads (t : TypeText) (n : ℕ) (hn : t.text.length < n) :
    Reads (typeLoop n) t.text t.value t.Good Break (Stuck []) := by
  induction t generalizing n with
  | basic type =>
    obtain ⟨n, rfl⟩ := Nat.exists_eq_succ_of_ne_zero (Nat.ne_of_gt (Nat.zero_lt_of_lt hn))
    constructor
    · intro hgood r _
      exact typeLoop_basic hgood n r
    · intro hbad r _
      obtain ⟨type', h', hbegins⟩ := exists_readable type
      obtain ⟨-, -, -, -, hparts⟩ := name_cons type
      refine type_left n h' hbegins (fun d hd => .inl (hparts d hd)) ?_ r
      intro heq
      obtain rfl := AstFieldType.basic.inj heq
      exact hbad h'
  | vector before t after ih =>
    obtain ⟨n, rfl⟩ := Nat.exists_eq_succ_of_ne_zero (Nat.ne_of_gt (Nat.zero_lt_of_lt hn))
    have hlt : t.text.length < n := by
      simp only [TypeText.text, List.length_append, List.length_cons, List.length_nil] at hn
      omega
    have hbreak : ∀ r, Break (after.text ++ ']' :: r) := fun r => break_gap after ⟨by decide, by decide⟩
    have hbetween : Reads (betweenBrackets (typeLoop n)) _ _ _ Anything Nowhere :=
      between_reads before after (ih n hlt) (by decide) (fun r => type_solid t _) hbreak
    have hvector := hbetween.map AstFieldType.vector (by simp)
    have hopen : ∀ r, TypeText.text (.vector before t after) ++ r =
        '[' :: (before.text ++ (t.text ++ (after.text ++ ']' :: r))) := by
      intro r
      simp [TypeText.text]
    refine Reads.choice_tail (Reads.choice_head hvector.weaken ?_) ?_
    · intro r _ _
      rw [hopen]
      have hnone := dotted_none (show isIdentStart '[' = false by decide)
        (before.text ++ (t.text ++ (after.text ++ ']' :: r)))
      simp only [choice, customType, Parser.map, hnone, fail]
    · intro r _
      rw [hopen, Parser.map, basicType_none_of_head (by decide)]
  | custom id =>
    obtain ⟨n, rfl⟩ := Nat.exists_eq_succ_of_ne_zero (Nat.ne_of_gt (Nat.zero_lt_of_lt hn))
    obtain ⟨c, cs, htext, hc⟩ := dotted_text id
    have hparts := dotted_parts id.rest id.first
    constructor
    · intro hgood r hr
      have hbasic : basicType (id.text ++ r) = none := by
        refine basicType_none fun type hmem => ?_
        exact not_isPrefix_append (hgood type hmem) (readable_parts type hmem) hr
      have hvector : betweenBrackets (typeLoop n) (id.text ++ r) = none := by
        have hne : c ≠ '[' := by
          rintro rfl
          exact absurd hc (by decide)
        simp only [htext, List.cons_append, betweenBrackets, betweenWithOptionalWhitespace, Parser.map,
          Parser.seq, char_cons_ne hne]
      have hdotted := (@dotted_reads Nowhere id).accepts trivial r hr
      simp only [TypeText.text, TypeText.value, typeLoop, choice, customType, Parser.map, hbasic,
        hvector, hdotted]
    · intro hbad r _
      have hword : ∃ type ∈ readableTypes, type.name.toList <+: id.text := by
        by_contra hnone
        exact hbad fun type hmem hbegins => hnone ⟨type, hmem, hbegins⟩
      obtain ⟨type, hmem, hbegins⟩ := hword
      exact type_left n hmem hbegins hparts (by simp [TypeText.value]) r

theorem typeText_reads (t : TypeText) :
    Reads type t.text t.value t.Good Break (Stuck []) := by
  have hloop : ∀ r, Reads (typeLoop ((t.text ++ r).length + 1)) t.text t.value t.Good Break (Stuck []) :=
    fun r => type_reads t _ (by rw [List.length_append]; omega)
  constructor
  · intro hgood r hr
    exact (hloop r).accepts hgood r hr
  · intro hbad r hr
    cases (hloop r).refuses hbad r hr with
    | fails h => exact .fails h
    | other a' hne h => exact .other a' hne h
    | stuck a' g hg h => exact .stuck a' g hg h

end Motis.Protocol.SchemaText
