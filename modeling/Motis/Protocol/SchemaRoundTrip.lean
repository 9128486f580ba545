import Motis.Protocol.SchemaTokens

/-! The parser reads the schemas that are written.

    Each part of a declaration has a lemma that says what its parser makes of its text: it reads the
    text back, or the text is not good and what is left cannot be read by any parser that follows:

        a : uint8 = 5 ;   ──▶   a : uint   leaves   8 = 5 ;   ──▶   the field is not read

    The declarations of a file are read as long as they are good, and the end of the file is reached
    only after the last one. -/

namespace Motis.Protocol.SchemaText
open Parsing Parsing.Parser SchemaParser

/-! ### What comes next -/

/-- The text goes on with the character. -/
def Begins (c : Char) (r : List Char) : Prop := ∃ r', r = c :: r'

/-- After a gap comes one of the characters. -/
def Next (cs : List Char) (r : List Char) : Prop :=
  ∃ (gap : Gap) (c : Char) (r' : List Char), r = gap.text ++ c :: r' ∧ c ∈ cs ∧ closes [] c = true

theorem closes_solid {cs : List Char} {c : Char} (h : closes cs c = true) :
    (isSpace c = false ∧ c ≠ '/') ∧ isIdentPart c = false ∧ c ≠ '.' := by
  simp only [closes, Bool.and_eq_true, Bool.not_eq_true', bne_iff_ne, ne_eq] at h
  exact ⟨⟨h.1.1.1.1, h.1.1.1.2⟩, h.1.1.2, h.1.2⟩

theorem closes_nil {cs : List Char} {c : Char} (h : closes cs c = true) : closes [] c = true := by
  simp only [closes, Bool.and_eq_true] at h ⊢
  exact ⟨h.1, rfl⟩

theorem Begins.solid {c : Char} {r : List Char} (h : Begins c r) (hc : closes [] c = true) :
    Solid r := by
  obtain ⟨r', rfl⟩ := h
  exact (closes_solid hc).1

theorem Begins.next {c : Char} {cs r : List Char} (h : Begins c r) (hc : closes [] c = true)
    (hmem : c ∈ cs) (gap : Gap) : Next cs (gap.text ++ r) := by
  obtain ⟨r', rfl⟩ := h
  exact ⟨gap, c, r', rfl, hmem, hc⟩

theorem Next.isBreak {cs r : List Char} (h : Next cs r) : Break r := by
  obtain ⟨gap, c, r', rfl, -, hc⟩ := h
  have hbreak : Break (c :: r') := (closes_solid hc).2
  exact break_gap gap hbreak

theorem Next.mono {cs cs' r : List Char} (h : Next cs r) (hsub : ∀ c ∈ cs, c ∈ cs') : Next cs' r := by
  obtain ⟨gap, c, r', hr, hmem, hc⟩ := h
  exact ⟨gap, c, r', hr, hsub c hmem, hc⟩

/-- Another character does not come next. -/
theorem Next.gap_char {cs r : List Char} {x : Char} (h : Next cs r) (hx : x ∉ cs) :
    (optionalWhitespaceOrComments.seq (char x)) r = none := by
  obtain ⟨gap, c, r', rfl, hmem, hc⟩ := h
  have hsolid : Solid (c :: r') := (closes_solid hc).1
  have hne : c ≠ x := fun heq => hx (heq ▸ hmem)
  simp only [Parser.seq, optionalWhitespaceOrComments_eq, skip_gap, skip_solid hsolid,
    char_cons_ne hne]

theorem between_none {α : Type} {p : Parser α} {left right : Char} {s : List Char}
    (h : char left s = none) : betweenWithOptionalWhitespace left right p s = none := by
  simp only [betweenWithOptionalWhitespace, Parser.map, Parser.seq, h]

theorem gap_between_none {α : Type} {p : Parser α} {left right : Char} {s : List Char}
    (h : (optionalWhitespaceOrComments.seq (char left)) s = none) :
    (optionalWhitespaceOrComments.seq (betweenWithOptionalWhitespace left right p)) s = none := by
  have hchar : char left (skip s) = none := by
    cases hc : char left (skip s) with
    | none => rfl
    | some x => simp [Parser.seq, optionalWhitespaceOrComments_eq, hc] at h
  simp only [Parser.seq, optionalWhitespaceOrComments_eq, between_none hchar]

theorem gap_before (g : Gap) {c : Char} (hc : closes [] c = true) {stuck : List Char → Prop} :
    Reads optionalWhitespaceOrComments g.text () True (Begins c) stuck :=
  (gap_reads g).restrict fun _ hr => hr.solid hc

/-! ### Assigned values -/

section
variable {α : Type} {p : Parser α} {text : List Char} {a : α} {good : Prop}

/-- `x`, and a value. -/
def assigned (x : Char) (p : Parser α) : Parser α :=
  (((optionalWhitespaceOrComments.seq (char x)).seq optionalWhitespaceOrComments).seq p).map
    fun (_, y) => y

theorem assigned_reads (x : Char) (hx : closes [] x = true) (before after : Gap)
    (h : Reads p text a good Break (Stuck [])) (hsolid : ∀ r, Solid (text ++ r)) :
    Reads (possibly (assigned x p)) (before.text ++ [x] ++ after.text ++ text) (some a) good Break
      (Stuck [x]) := by
  have h1 := (@gap_before before x hx Nowhere).seq (@Reads.char x Nowhere) (fun r _ => ⟨r, rfl⟩) .nowhere
  have h2 := h1.seq (@gap_reads Nowhere after) (fun _ _ => trivial) .nowhere
  have h3 := h2.seq h (fun r _ => hsolid r) .nowhere
  have h4 : Reads (assigned x p) (before.text ++ [x] ++ after.text ++ text) a good Break (Stuck []) := by
    refine h3.map_to rfl (by simp) ?_
    rintro ⟨⟨⟨⟨⟩, ⟨⟩⟩, ⟨⟩⟩, y⟩ rfl
    rfl
  refine h4.possibly_some (fun g hg => hg.mono (by simp)) fun r _ => ?_
  have hc := (closes_solid hx).1
  have hstuck := @Stuck.of_gap [x] x before (after.text ++ text ++ r) hc.1 hc.2 (by simp)
  simpa using hstuck

theorem assigned_none {x : Char} {cs r : List Char} (h : Next cs r) (hx : x ∉ cs) :
    assigned x p r = none := by
  rw [assigned, Parser.map, Parser.seq, Parser.seq, h.gap_char hx]

variable {β : Type} {f : β → List Char} {value : β → α} {goodValue : β → Prop}

def assignedText (x : Char) (f : β → List Char) (e : Option (Gap × Gap × β)) : List Char :=
  (e.map fun (before, after, y) => before.text ++ [x] ++ after.text ++ f y).getD []

/-- The value may be left out where something else comes next. -/
theorem optAssigned_reads (x : Char) (hx : closes [] x = true) (cs : List Char) (hcs : x ∉ cs)
    (h : ∀ y, Reads p (f y) (value y) (goodValue y) Break (Stuck []))
    (hsolid : ∀ y r, Solid (f y ++ r)) (e : Option (Gap × Gap × β)) :
    Reads (possibly (assigned x p)) (assignedText x f e) (e.map fun (_, _, y) => value y)
      (∀ y ∈ e, goodValue y.2.2) (Next cs) (Stuck [x]) := by
  cases e with
  | none =>
    have hnone : Reads (possibly (assigned x p)) [] none True (Next cs) (Stuck [x]) :=
      Reads.possibly_none fun r hr => assigned_none hr hcs
    exact hnone.congr (by simp)
  | some e =>
    obtain ⟨before, after, y⟩ := e
    have hsome := assigned_reads x hx before after (h y) (hsolid y)
    refine (hsome.restrict fun r hr => hr.isBreak).congr ?_
    simp

theorem assigned_break (x : Char) (hx : closes [] x = true) (f : β → List Char)
    (e : Option (Gap × Gap × β)) {r : List Char} (hr : Break r) : Break (assignedText x f e ++ r) := by
  cases e with
  | none => exact hr
  | some e =>
    obtain ⟨before, after, y⟩ := e
    have hbreak : Break (x :: (after.text ++ f y ++ r)) := (closes_solid hx).2
    simpa [assignedText] using break_gap before hbreak

end

/-! ### Lists -/

theorem comma_reads (before after : Gap) {stuck : List Char → Prop} :
    Reads comma (before.text ++ [','] ++ after.text) () True Solid stuck := by
  have h1 := (@gap_before before ',' (by decide) Nowhere).seq (@Reads.char ',' Nowhere)
    (fun r _ => ⟨r, rfl⟩) .nowhere
  have h2 := h1.seq (@gap_reads Nowhere after) (fun _ _ => trivial) .nowhere
  have h3 : Reads comma (before.text ++ [','] ++ after.text) () True Solid Nowhere :=
    h2.map_to rfl (by simp) (by simp)
  exact h3.mono fun _ hg => hg.elim

theorem comma_none {s : List Char} (h : (optionalWhitespaceOrComments.seq (char ',')) s = none) :
    comma s = none := by
  simp only [comma, whitespaceSurrounded, Parser.map, Parser.seq] at h ⊢
  simp only [h]

section
variable {ι α : Type}

/-- What the elements of a list have to do with its parser: each one begins with a word and ends
    before a comma or the bracket. -/
structure Elements (p : Parser α) (f : ι → List Char) (value : ι → α) (good : ι → Prop) (close : Char)
    (cs : List Char) : Prop where
  reads : ∀ x, Reads p (f x) (value x) (good x) (Next [',', close]) (Stuck cs)
  total : ∀ x r, Next [',', close] r → p (f x ++ r) ≠ none
  word : ∀ x, ∃ c s, f x = c :: s ∧ isIdentStart c = true
  ends : ∀ r, p (close :: r) = none
  commaCloses : closes cs ',' = true
  bracketCloses : closes cs close = true
  bracket : close ≠ ','

namespace Elements
variable {p : Parser α} {f : ι → List Char} {value : ι → α} {good : ι → Prop} {close : Char}
variable {cs : List Char}

theorem text_solid (h : Elements p f value good close cs) (x : ι) (r : List Char) :
    Solid (f x ++ r) := by
  obtain ⟨c, s, htext, hc⟩ := h.word x
  rw [htext]
  exact Solid.of_identStart hc _

/-- The elements that are read end here. -/
def ListEnd (p : Parser α) (close : Char) (r : List Char) : Prop :=
  Next [',', close] r ∧ ((comma.seq p).map fun (_, x) => x) r = none

theorem next_rest (rest : List (Gap × Gap × ι)) {r : List Char} (hr : Next [',', close] r) :
    Next [',', close] (CommaText.restText f rest ++ r) := by
  cases rest with
  | nil => exact hr
  | cons e rest =>
    obtain ⟨before, after, x⟩ := e
    have hnext : Next [',', close]
        (before.text ++ ([','] ++ (after.text ++ f x ++ CommaText.restText f rest ++ r))) :=
      Begins.next ⟨_, rfl⟩ (by decide) (by simp) before
    simpa [CommaText.restText] using hnext

theorem item_reads (h : Elements p f value good close cs) (before after : Gap) (x : ι) :
    Reads ((comma.seq p).map fun (_, x) => x) (before.text ++ [','] ++ after.text ++ f x) (value x)
      (good x) (Next [',', close]) (Stuck cs) := by
  have hseq := (@comma_reads before after Nowhere).seq (h.reads x) (fun r _ => h.text_solid x r) .nowhere
  refine hseq.map_to rfl (by simp) ?_
  rintro ⟨⟨⟩, y⟩ rfl
  rfl

theorem rest_reads (h : Elements p f value good close cs) (rest : List (Gap × Gap × ι)) :
    Reads (many ((comma.seq p).map fun (_, x) => x)) (CommaText.restText f rest)
      (rest.map fun e => value e.2.2) (∀ e ∈ rest, good e.2.2) (ListEnd p close) (Stuck cs) := by
  induction rest with
  | nil => exact (Reads.many_nil fun r hr => hr.2).congr (by simp)
  | cons e rest ih =>
    obtain ⟨before, after, x⟩ := e
    have hcons := (h.item_reads before after x).many_cons ih (by simp) ?_ ?_ ?_
    · refine Reads.congr hcons ?_
      simp
    · intro r hr
      exact next_rest rest hr.1
    · intro g hg
      have hnone := comma_none (gap_char_stuck h.commaCloses hg)
      exact ⟨by simp only [Parser.map, Parser.seq, hnone], hg⟩
    · intro r hr hnone
      have hread := (@comma_reads before after Nowhere).accepts trivial
        (f x ++ (CommaText.restText f rest ++ r)) (h.text_solid x _)
      have hnext : Next [',', close] (CommaText.restText f rest ++ r) := next_rest rest hr.1
      obtain ⟨⟨y, s⟩, hy⟩ := Option.ne_none_iff_exists'.mp (h.total x _ hnext)
      have hsome : ((comma.seq p).map fun (_, x) => x) (before.text ++ [','] ++ after.text ++
          (f x ++ (CommaText.restText f rest ++ r))) = some (y, s) := by
        simp only [Parser.map, Parser.seq, hread, hy]
      simp only [List.append_assoc] at hnone hsome
      rw [hsome] at hnone
      exact absurd hnone (Option.some_ne_none _)

/-- The comma after the last element, if there is one. -/
def sepText (sep : Option (Gap × Gap)) : List Char :=
  (sep.map fun (before, after) => before.text ++ [','] ++ after.text).getD []

/-- Before the bracket there is a gap only where no comma has skipped it. -/
def SepEnd (close : Char) (sep : Option (Gap × Gap)) (r : List Char) : Prop :=
  Next [close] r ∧ (sep ≠ none → Begins close r)

theorem comma_end (h : Elements p f value good close cs) {r : List Char} (hr : Next [close] r) :
    comma r = none :=
  comma_none (hr.gap_char (by simpa using Ne.symm h.bracket))

theorem sep_reads (h : Elements p f value good close cs) (sep : Option (Gap × Gap)) {r : List Char}
    (hr : SepEnd close sep r) : ∃ b, possibly comma (sepText sep ++ r) = some (b, r) := by
  cases sep with
  | none => exact ⟨none, by simp [sepText, possibly, h.comma_end hr.1]⟩
  | some gaps =>
    have hsolid := (hr.2 (by simp)).solid (closes_nil h.bracketCloses)
    have hread := (@comma_reads gaps.1 gaps.2 Nowhere).accepts trivial r hsolid
    exact ⟨some (), by simp only [sepText, Option.map_some, Option.getD_some, possibly, hread]⟩

theorem sep_listEnd (h : Elements p f value good close cs) (sep : Option (Gap × Gap)) {r : List Char}
    (hr : SepEnd close sep r) : ListEnd p close (sepText sep ++ r) := by
  cases sep with
  | none =>
    refine ⟨hr.1.mono (by simp), ?_⟩
    simp only [sepText, Option.map_none, Option.getD_none, List.nil_append, Parser.map, Parser.seq,
      h.comma_end hr.1]
  | some gaps =>
    have hbegins := hr.2 (by simp)
    have hsolid := hbegins.solid (closes_nil h.bracketCloses)
    have hread := (@comma_reads gaps.1 gaps.2 Nowhere).accepts trivial r hsolid
    obtain ⟨r', rfl⟩ := hbegins
    constructor
    · have hnext : Next [',', close] (gaps.1.text ++ ([','] ++ (gaps.2.text ++ close :: r'))) :=
        Begins.next ⟨_, rfl⟩ (by decide) (by simp) gaps.1
      simpa [sepText] using hnext
    · simp only [sepText, Option.map_some, Option.getD_some, Parser.map, Parser.seq, hread, h.ends]

theorem list_reads (h : Elements p f value good close cs) (first : ι) (rest : List (Gap × Gap × ι))
    (sep : Option (Gap × Gap)) :
    Reads (commaSeparated p) (f first ++ CommaText.restText f rest ++ sepText sep)
      ((first :: rest.map (·.2.2)).map value) (∀ x ∈ first :: rest.map (·.2.2), good x)
      (SepEnd close sep) (Stuck cs) := by
  have hcomma : ∀ g, Stuck cs g → comma g = none := fun g hg =>
    comma_none (gap_char_stuck h.commaCloses hg)
  have h1 := (h.reads first).seq (h.rest_reads rest) (fun r hr => next_rest rest hr.1)
    (Through.many fun g hg => by simp only [Parser.map, Parser.seq, hcomma g hg])
  have h2 : Reads (((p.seq (many ((comma.seq p).map Prod.snd))).seq (possibly comma)).map
      fun x => x.1.1 :: x.1.2) (f first ++ CommaText.restText f rest ++ sepText sep)
      (value first :: rest.map fun e => value e.2.2) (good first ∧ ∀ e ∈ rest, good e.2.2)
      (SepEnd close sep) (Stuck cs) := by
    refine h1.seq_map (fun r hr => h.sep_reads sep hr) (fun r hr => h.sep_listEnd sep hr)
      (Through.possibly hcomma) ?_
    rintro ⟨y, ys⟩ b
    simp
  have htext : ∀ r, SepEnd close sep r →
      Stuck cs (f first ++ CommaText.restText f rest ++ sepText sep ++ r) := by
    intro r _
    obtain ⟨c, s, htext, hc⟩ := h.word first
    rw [htext]
    exact Stuck.of_cons (.inl (identPart_of_identStart hc)) _
  have hvalues : (first :: rest.map (·.2.2)).map value =
      value first :: rest.map fun e => value e.2.2 := by
    rw [List.map_cons, List.map_map]
    rfl
  rw [hvalues]
  have hgood : (∀ x ∈ first :: rest.map (·.2.2), good x) ↔ good first ∧ ∀ e ∈ rest, good e.2.2 := by
    rw [List.forall_mem_cons, List.forall_mem_map]
  refine (h2.possibly_some (fun g hg => hg) htext).map_to rfl hgood ?_
  rintro (_ | ys) hys
  · exact absurd hys (List.cons_ne_nil _ _).symm
  · exact congrArg some hys

/-- The elements between two brackets. -/
theorem brackets_reads (h : Elements p f value good close cs) {left : Char} (m : CommaText ι) :
    Reads (betweenWithOptionalWhitespace left close (commaSeparated p)) (m.text left close f)
      (m.items.map value) (∀ x ∈ m.items, good x) Anything Nowhere := by
  have hclose := closes_nil h.bracketCloses
  have hnext : ∀ (g : Gap) r, Next [close] (g.text ++ close :: r) := fun g r =>
    Begins.next ⟨r, rfl⟩ hclose (by simp) g
  cases m with
  | empty gap =>
    have hlist : Reads (commaSeparated p) [] [] True (Begins close) (Stuck cs) := by
      refine .of_accepts fun r hr => ?_
      obtain ⟨r', rfl⟩ := hr
      simp [commaSeparated, Parser.map, possibly, Parser.seq, h.ends]
    have hbetween := @between_reads _ _ _ _ _ _ _ left _ gap [] hlist h.bracketCloses
      (fun r => (closes_solid hclose).1) fun r => ⟨r, rfl⟩
    simpa [CommaText.text, CommaText.items] using hbetween
  | elements before first rest comma after =>
    cases comma with
    | none =>
      have hlist := h.list_reads first rest none
      have hbetween := @between_reads _ _ _ _ _ _ _ left _ before after hlist h.bracketCloses
        (fun r => by simpa using h.text_solid first _) fun r => ⟨hnext after r, by simp⟩
      simpa [CommaText.text, CommaText.items, CommaText.endText, sepText] using hbetween
    | some gap =>
      have hlist := h.list_reads first rest (some (gap, after))
      have hbetween := @between_reads _ _ _ _ _ _ _ left _ before [] hlist h.bracketCloses
        (fun r => by simpa using h.text_solid first _) fun r => ⟨hnext [] r, fun _ => ⟨r, rfl⟩⟩
      simpa [CommaText.text, CommaText.items, CommaText.endText, sepText] using hbetween

end Elements

end

/-! ### Metadata -/

variable {js : NumberFunctions}

theorem possibly_ne_none {α : Type} (p : Parser α) (s : List Char) : possibly p s ≠ none := by
  rw [possibly]
  split
  · exact Option.some_ne_none _
  · exact Option.some_ne_none _

theorem identStart_solid {c : Char} {text s : List Char} (htext : text = c :: s)
    (hc : isIdentStart c = true) (r : List Char) : Solid (text ++ r) := by
  rw [htext]
  exact Solid.of_identStart hc _

theorem scalar_cons (x : ScalarText) : ∃ c s, x.text = c :: s ∧ isSpace c = false ∧ c ≠ '/' := by
  cases x with
  | boolean b =>
    cases b with
    | false => exact ⟨'f', "alse".toList, by decide, by decide, by decide⟩
    | true => exact ⟨'t', "rue".toList, by decide, by decide, by decide⟩
  | number n =>
    obtain ⟨c, s, htext, hc⟩ := number_cons n
    refine ⟨c, s, htext, ?_, numberStart_ne hc (by decide)⟩
    simp only [numberStart, Bool.or_eq_true, beq_iff_eq] at hc
    rcases hc with ((((hc | rfl) | rfl) | rfl) | rfl) | rfl
    · refine (not_space_of_identPart ?_).1
      simp [isIdentPart, Char.isAlphanum, hc]
    all_goals decide

theorem number_solid (n : NumberText) (r : List Char) : Solid (n.text ++ r) := by
  obtain ⟨c, s, htext, hc⟩ := scalar_cons (.number n)
  change n.text = c :: s at htext
  rw [htext]
  exact hc

theorem literal_solid (x : LiteralText) (r : List Char) : Solid (x.text ++ r) := by
  cases x with
  | scalar x =>
    obtain ⟨c, s, htext, hc⟩ := scalar_cons x
    rw [LiteralText.text, htext]
    exact hc
  | string x => exact ⟨by decide, by decide⟩

theorem default_solid (x : DefaultText) (r : List Char) : Solid (x.text ++ r) := by
  cases x with
  | scalar x =>
    obtain ⟨c, s, htext, hc⟩ := scalar_cons x
    rw [DefaultText.text, htext]
    exact hc
  | ref id =>
    obtain ⟨c, cs, htext, hc, -⟩ := ident_cons id
    exact identStart_solid htext hc r

/-- An optional part that is read after a name never fails. -/
theorem seq_possibly_ne_none {α β : Type} {p : Parser α} {q : Parser β} {s r : List Char} {a : α}
    (h : p s = some (a, r)) : (p.seq (possibly q)) s ≠ none := by
  obtain ⟨⟨b, r'⟩, hq⟩ := Option.ne_none_iff_exists'.mp (possibly_ne_none q r)
  simp [Parser.seq, h, hq]

theorem map_ne_none {α β : Type} {p : Parser α} {f : α → β} {s : List Char} (h : p s ≠ none) :
    p.map f s ≠ none := by
  obtain ⟨⟨a, r⟩, hp⟩ := Option.ne_none_iff_exists'.mp h
  simp [Parser.map, hp]

theorem metadataValue_reads (a : MetadataValueText) :
    Reads (metadataValue js) a.text (a.ast js) a.Good (Next [',', ')']) (Stuck [':']) := by
  have hvalue := optAssigned_reads ':' (by decide) [',', ')'] (by decide) (@literal_reads js)
    literal_solid a.value
  have hseq := (@dotted_reads Nowhere a.id).seq hvalue
    (fun r hr => assigned_break ':' (by decide) _ a.value hr.isBreak) .nowhere
  refine hseq.map_to rfl (by simp [MetadataValueText.Good]) ?_
  rintro ⟨id, value⟩ h
  simp only [MetadataValueText.ast, AstAttribute.mk.injEq] at h
  rw [h.1, h.2]

theorem metadataValue_elements :
    Elements (metadataValue js) MetadataValueText.text (MetadataValueText.ast js)
      MetadataValueText.Good ')' [':'] where
  reads := metadataValue_reads
  total a r hr := by
    have hbreak := assigned_break ':' (by decide) LiteralText.text a.value hr.isBreak
    have hid := (@dotted_reads Nowhere a.id).accepts trivial _ hbreak
    rw [← List.append_assoc] at hid
    exact map_ne_none (seq_possibly_ne_none hid)
  word a := by
    obtain ⟨c, s, htext, hc⟩ := dotted_text a.id
    exact ⟨c, _, by rw [MetadataValueText.text, htext]; rfl, hc⟩
  ends r := by
    have hnone := dotted_none (show isIdentStart ')' = false by decide) r
    simp only [metadataValue, Parser.map, Parser.seq, hnone]
  commaCloses := by decide
  bracketCloses := by decide
  bracket := by decide

theorem metadata_begins (m : MetadataText) : ∃ s, MetadataText.text m = '(' :: s := by
  cases m with
  | empty gap => exact ⟨_, rfl⟩
  | elements before first rest comma after => exact ⟨_, rfl⟩

theorem metadata_next (m : OptMetadata) {cs : List Char} {r : List Char} (hr : Next cs r) :
    Next ('(' :: cs) (OptMetadata.text m ++ r) := by
  cases m with
  | none => exact hr.mono fun c hc => List.mem_cons_of_mem _ hc
  | some m =>
    obtain ⟨gap, m⟩ := m
    obtain ⟨s, hs⟩ := metadata_begins m
    have hnext : Next ('(' :: cs) (gap.text ++ ('(' :: s ++ r)) :=
      Begins.next ⟨_, rfl⟩ (by decide) List.mem_cons_self gap
    simpa [OptMetadata.text, hs] using hnext

theorem metadata_reads (m : OptMetadata) {cs : List Char} (hcs : '(' ∉ cs) :
    Reads (metadata js) (OptMetadata.text m) (OptMetadata.ast js m) (OptMetadata.Good m) (Next cs)
      (Stuck ['(']) := by
  cases m with
  | none =>
    refine Reads.congr (Reads.possibly_none fun r hr => ?_) (by simp [OptMetadata.Good])
    rw [Parser.map, betweenParens, gap_between_none (hr.gap_char hcs)]
  | some m =>
    obtain ⟨gap, m⟩ := m
    have hparens : Reads (betweenParens (commaSeparated (metadataValue js))) (MetadataText.text m)
        (MetadataText.ast js m) (MetadataText.Good m) Anything Nowhere :=
      (@metadataValue_elements js).brackets_reads m
    obtain ⟨s, hs⟩ := metadata_begins m
    have hseq := (@gap_before gap '(' (by decide) Nowhere).seq hparens
      (fun r _ => ⟨s ++ r, by rw [hs, List.cons_append]⟩) .nowhere
    have hmap : Reads ((optionalWhitespaceOrComments.seq (betweenParens (commaSeparated
        (metadataValue js)))).map Prod.snd) (gap.text ++ MetadataText.text m)
        (MetadataText.ast js m) (MetadataText.Good m) Anything Nowhere := by
      refine hseq.map_to rfl (by simp) ?_
      rintro ⟨⟨⟩, y⟩ rfl
      rfl
    have hstuck : ∀ r, Next cs r → Stuck ['('] (gap.text ++ MetadataText.text m ++ r) := by
      intro r _
      have hstuck := @Stuck.of_gap ['('] '(' gap (s ++ r) (by decide) (by decide) (by simp)
      simpa [hs] using hstuck
    refine Reads.congr (hmap.weaken.possibly_some (fun g hg => hg) hstuck) ?_
    simp [OptMetadata.Good]

theorem through_metadata {cs : List Char} (hcs : closes cs '(' = true) :
    Through (metadata js) (Stuck cs) (Stuck cs) :=
  Through.possibly fun g hg => by
    rw [Parser.map, betweenParens, gap_between_none (gap_char_stuck hcs hg)]

/-! ### Values of enums and unions -/

theorem valDecl_reads {ν : Type} {id : Parser String} {f : ν → String} (v : ValText ν)
    (h : Reads id (f v.name).toList (f v.name) True Break Nowhere) :
    Reads (valDecl js id) (v.text f) (v.ast js f) v.Good (Next [',', '}']) (Stuck ['=', '(']) := by
  have hvalue := optAssigned_reads '=' (by decide) ['(', ',', '}'] (by decide) (@number_reads js)
    number_solid v.value
  have h1 := h.seq hvalue (fun r hr => assigned_break '=' (by decide) _ v.value hr.isBreak) .nowhere
  have hmetadata : Reads (metadata js) (OptMetadata.text v.metadata) (OptMetadata.ast js v.metadata)
      (OptMetadata.Good v.metadata) (Next [',', '}']) (Stuck ['=', '(']) :=
    (metadata_reads v.metadata (by decide)).mono fun g hg => hg.mono (by simp)
  have hthrough : Through (metadata js) (Stuck ['=']) (Stuck ['=', '(']) :=
    (through_metadata (by decide)).mono fun g hg => hg.mono (by simp)
  have h2 := h1.seq hmetadata (fun r hr => metadata_next v.metadata hr) hthrough
  refine h2.map_to rfl (by simp [ValText.Good]) ?_
  rintro ⟨⟨id, value⟩, metadata⟩ h
  simp only [ValText.ast, AstEnumVal.mk.injEq] at h
  rw [h.1, h.2.1, h.2.2]

/-- The values of enums have plain names, and those of unions names with namespaces. -/
theorem valDecl_elements {ν : Type} {id : Parser String} {f : ν → String}
    (h : ∀ x, Reads id (f x).toList (f x) True Break Nowhere)
    (hword : ∀ x, ∃ c s, (f x).toList = c :: s ∧ isIdentStart c = true)
    (hends : ∀ r, id ('}' :: r) = none) :
    Elements (valDecl js id) (ValText.text f) (ValText.ast js f) ValText.Good '}' ['=', '('] where
  reads v := valDecl_reads v (h v.name)
  total v r hr := by
    have hnext := metadata_next v.metadata hr
    have hbreak := assigned_break '=' (by decide) NumberText.text v.value hnext.isBreak
    have hid := (h v.name).accepts trivial _ hbreak
    obtain ⟨⟨a, r'⟩, hp⟩ := Option.ne_none_iff_exists'.mp
      (@seq_possibly_ne_none _ _ _ (assigned '=' (numericLiteral js)) _ _ _ hid)
    have htext : v.text f ++ r = (f v.name).toList ++ (assignedText '=' NumberText.text v.value ++
        (OptMetadata.text v.metadata ++ r)) := by
      simp [ValText.text, assignedText]
    rw [htext]
    exact map_ne_none (seq_possibly_ne_none hp)
  word v := by
    obtain ⟨c, s, htext, hc⟩ := hword v.name
    exact ⟨c, _, by rw [ValText.text, htext]; rfl, hc⟩
  ends r := by simp only [valDecl, Parser.map, Parser.seq, hends]
  commaCloses := by decide
  bracketCloses := by decide
  bracket := by decide

theorem enumVals_reads (m : CommaText (ValText Ident)) :
    Reads (betweenBraces (commaSeparated (enumValDecl js))) (m.text '{' '}' (ValText.text (·.val)))
      (m.items.map (ValText.ast js (·.val))) (∀ v ∈ m.items, v.Good) Anything Nowhere := by
  refine (valDecl_elements ident_reads ?_ (ident_none (by decide))).brackets_reads m
  intro id
  obtain ⟨c, s, htext, hc, -⟩ := ident_cons id
  exact ⟨c, s, htext, hc⟩

theorem unionVals_reads (m : CommaText (ValText DottedIdent)) :
    Reads (betweenBraces (commaSeparated (unionValDecl js)))
      (m.text '{' '}' (ValText.text DottedIdent.value))
      (m.items.map (ValText.ast js DottedIdent.value)) (∀ v ∈ m.items, v.Good) Anything Nowhere :=
  (valDecl_elements dotted_reads dotted_text (dotted_none (by decide))).brackets_reads m

theorem vals_begin {ν : Type} (f : ν → String) (m : CommaText (ValText ν)) :
    ∃ s, m.text '{' '}' (ValText.text f) = '{' :: s := by
  cases m with
  | empty gap => exact ⟨_, rfl⟩
  | elements before first rest comma after => exact ⟨_, rfl⟩

/-! ### Fields -/

/-- What comes after a default value. -/
def FieldRest (r : List Char) : Prop := Begins '(' r ∨ Begins ';' r

theorem FieldRest.solid {r : List Char} (h : FieldRest r) : Solid r :=
  h.elim (fun h => h.solid (by decide)) fun h => h.solid (by decide)

theorem FieldRest.isBreak {r : List Char} (h : FieldRest r) : Break r := by
  rcases h with ⟨r', rfl⟩ | ⟨r', rfl⟩
  · exact ⟨by decide, by decide⟩
  · exact ⟨by decide, by decide⟩

theorem FieldRest.not_default {r : List Char} (h : FieldRest r) : defaultValue js r = none := by
  rcases h with ⟨r', rfl⟩ | ⟨r', rfl⟩
  · simp only [defaultValue, Parser.map, Parser.seq, char_cons_ne (show '(' ≠ '=' by decide)]
  · simp only [defaultValue, Parser.map, Parser.seq, char_cons_ne (show ';' ≠ '=' by decide)]

theorem default_stuck {g : List Char} (hg : Stuck [] g) : defaultValue js g = none := by
  simp only [defaultValue, Parser.map, Parser.seq, char_stuck (x := '=') (by decide) hg]

theorem defaultValue_reads (f : FieldText) :
    Reads (possibly (defaultValue js)) f.defaultText (f.ast js).defaultValue
      (∀ v ∈ f.defaultValue, v.2.1.Good) FieldRest (Stuck ['=']) := by
  rw [FieldText.defaultText, FieldText.ast]
  cases f.defaultValue with
  | none => exact (Reads.possibly_none fun r hr => hr.not_default).congr (by simp)
  | some e =>
    obtain ⟨before, v, after⟩ := e
    have h1 := (@Reads.char '=' Nowhere).seq (@gap_reads Nowhere before) (fun _ _ => trivial) .nowhere
    have h2 := h1.seq (@default_reads js v) (fun r _ => default_solid v r) .nowhere
    have hafter : Reads optionalWhitespaceOrComments after.text () True FieldRest (Stuck []) :=
      (gap_reads after).restrict fun r hr => hr.solid
    have h3 := h2.seq hafter (fun r hr => break_gap after hr.isBreak) (through_gap [])
    have h4 : Reads (defaultValue js) (['='] ++ before.text ++ v.text ++ after.text) (v.value js) v.Good
        FieldRest (Stuck []) := by
      refine h3.map_to rfl (by simp) ?_
      rintro ⟨⟨⟨⟨⟩, ⟨⟩⟩, y⟩, ⟨⟩⟩ rfl
      rfl
    have hstuck : ∀ r, FieldRest r → Stuck ['='] (['='] ++ before.text ++ v.text ++ after.text ++ r) := by
      intro r _
      have hstuck := @Stuck.of_gap ['='] '=' [] (before.text ++ v.text ++ after.text ++ r) (by decide)
        (by decide) (by simp)
      simpa using hstuck
    refine Reads.congr (h4.possibly_some (fun g hg => hg.mono (by simp)) hstuck) ?_
    simp

/-- The semicolon is not looked for behind a gap. -/
theorem semicolon_reads (g : Gap) :
    Reads (char ';') (g.text ++ [';']) () (g = []) Anything Nowhere := by
  constructor
  · rintro rfl r _
    exact char_cons_self ';' r
  · intro hg r _
    obtain ⟨p, g, rfl⟩ := List.exists_cons_of_ne_nil hg
    refine .fails ?_
    rw [gap_text_cons, List.append_assoc, List.append_assoc]
    cases p with
    | space c hc =>
      have hne : c ≠ ';' := by
        rintro rfl
        exact absurd hc (by decide)
      exact char_cons_ne hne _
    | line body hbody => exact char_cons_ne (by decide) _
    | block body hbody => exact char_cons_ne (by decide) _

theorem fieldDecl_reads (f : FieldText) :
    Reads (fieldDecl js) f.text (f.ast js) f.Good Anything Nowhere := by
  have h1 := (@ident_reads Nowhere f.name).seq (@gap_before f.beforeColon ':' (by decide) Nowhere)
    (fun r ⟨r', hr⟩ => hr ▸ break_gap f.beforeColon ⟨by decide, by decide⟩) .nowhere
  have h2 := h1.seq (@Reads.char ':' Nowhere) (fun r _ => ⟨r, rfl⟩) .nowhere
  have h3 := h2.seq (@gap_reads Nowhere f.afterColon) (fun _ _ => trivial) .nowhere
  have h4 := h3.seq (typeText_reads f.type) (fun r _ => type_solid f.type r) .nowhere
  have hafter : Reads optionalWhitespaceOrComments f.afterType.text () True
      (fun r => Solid r ∧ Break r) (Stuck []) := (gap_reads f.afterType).restrict fun r hr => hr.1
  have h5 := h4.seq hafter (fun r hr => break_gap f.afterType hr.2) (through_gap [])
  have hdefault : ∀ r, FieldRest r → Solid (f.defaultText ++ r) ∧ Break (f.defaultText ++ r) := by
    intro r hr
    rw [FieldText.defaultText]
    cases f.defaultValue with
    | none => exact ⟨hr.solid, hr.isBreak⟩
    | some e => exact ⟨⟨by decide, by decide⟩, ⟨by decide, by decide⟩⟩
  have hthrough : Through (possibly (defaultValue js)) (Stuck []) (Stuck ['=']) :=
    (Through.possibly fun g hg => default_stuck hg).mono fun g hg => hg.mono (by simp)
  have h6 := h5.seq (defaultValue_reads f) hdefault hthrough
  have hmetadata : Reads (metadata js) (OptMetadata.text f.optMetadata)
      (OptMetadata.ast js f.optMetadata) (OptMetadata.Good f.optMetadata)
      (fun r => Next [';'] r ∧ (f.metadata = none → Begins ';' r)) (Stuck ['=', '(']) :=
    ((metadata_reads f.optMetadata (by decide)).mono fun g hg => hg.mono (by simp)).restrict
      fun r hr => hr.1
  have hrest : ∀ r, Next [';'] r ∧ (f.metadata = none → Begins ';' r) →
      FieldRest (OptMetadata.text f.optMetadata ++ r) := by
    intro r hr
    rw [FieldText.optMetadata]
    cases hm : f.metadata with
    | none => exact .inr (hr.2 hm)
    | some e =>
      obtain ⟨m, gap⟩ := e
      obtain ⟨s, hs⟩ := metadata_begins m
      refine .inl ⟨s ++ r, ?_⟩
      simp [OptMetadata.text, hs]
  have h7 := h6.seq hmetadata hrest
    ((through_metadata (by decide)).mono fun g hg => hg.mono (by simp))
  have hend : ∀ r, Anything r → Next [';'] (f.beforeSemicolon.text ++ [';'] ++ r) ∧
      (f.metadata = none → Begins ';' (f.beforeSemicolon.text ++ [';'] ++ r)) := by
    intro r _
    constructor
    · rw [List.append_assoc]
      exact Begins.next ⟨r, rfl⟩ (by decide) (by simp) f.beforeSemicolon
    · intro hm
      exact ⟨r, by simp [FieldText.beforeSemicolon, hm]⟩
  have h8 := h7.seq (semicolon_reads f.beforeSemicolon) hend (through_char (by decide))
  refine h8.map_to rfl (by simp [FieldText.Good, and_assoc]) ?_
  rintro ⟨⟨⟨⟨⟨⟨⟨⟨name, ⟨⟩⟩, ⟨⟩⟩, ⟨⟩⟩, type⟩, ⟨⟩⟩, defaultValue⟩, metadata⟩, ⟨⟩⟩ h
  simp only [FieldText.ast, AstField.mk.injEq] at h
  rw [h.1, h.2.1, h.2.2.1, h.2.2.2]
  rfl

theorem surrounded_reads {α : Type} {p : Parser α} {text : List Char} {a : α} {good : Prop}
    (before after : Gap) (h : Reads p text a good Anything Nowhere) (hsolid : ∀ r, Solid (text ++ r)) :
    Reads (whitespaceSurrounded p) (before.text ++ text ++ after.text) a good Solid Nowhere := by
  have h1 := (@gap_reads Nowhere before).seq h (fun r _ => hsolid r) .nowhere
  have h2 := h1.seq (@gap_reads Nowhere after) (fun _ _ => trivial) .nowhere
  refine h2.map_to rfl (by simp) ?_
  rintro ⟨⟨⟨⟩, x⟩, ⟨⟩⟩ rfl
  rfl

theorem field_cons (f : FieldText) : ∃ c s, f.text = c :: s ∧ isIdentStart c = true := by
  obtain ⟨c, s, htext, hc, -⟩ := ident_cons f.name
  exact ⟨c, _, by rw [FieldText.text, htext]; rfl, hc⟩

theorem field_solid (f : FieldText) (r : List Char) : Solid (f.text ++ r) := by
  have hcons := field_cons f
  generalize f.text = text at hcons ⊢
  obtain ⟨c, s, htext, hc⟩ := hcons
  exact identStart_solid htext hc r

theorem fieldsText_cons (f : FieldText) (after : Gap) (fields : List (FieldText × Gap)) :
    DeclText.fieldsText ((f, after) :: fields) =
      Gap.text [] ++ f.text ++ after.text ++ DeclText.fieldsText fields := by
  simp [DeclText.fieldsText]

theorem fields_solid (fields : List (FieldText × Gap)) {r : List Char} (hr : Begins '}' r) :
    Solid (DeclText.fieldsText fields ++ r) := by
  cases fields with
  | nil => exact hr.solid (by decide)
  | cons e fields =>
    rw [fieldsText_cons, gap_text_nil, List.nil_append, List.append_assoc, List.append_assoc]
    exact field_solid e.1 _

theorem fields_reads (fields : List (FieldText × Gap)) :
    Reads (many (whitespaceSurrounded (fieldDecl js))) (DeclText.fieldsText fields)
      (fields.map fun (f, _) => f.ast js) (∀ f ∈ fields, f.1.Good) (Begins '}') (Stuck []) := by
  induction fields with
  | nil =>
    refine Reads.congr (Reads.many_nil ?_) (by simp)
    rintro r ⟨r', rfl⟩
    have hsolid : Solid ('}' :: r') := ⟨by decide, by decide⟩
    have hident := ident_none (show isIdentStart '}' = false by decide) r'
    simp only [whitespaceSurrounded, fieldDecl, Parser.map, Parser.seq, optionalWhitespaceOrComments_eq,
      skip_solid hsolid, hident]
  | cons e fields ih =>
    obtain ⟨f, after⟩ := e
    obtain ⟨c, s, htext, hc⟩ := field_cons f
    have hfield := surrounded_reads [] after (@fieldDecl_reads js f) (field_solid f)
    have hcons := hfield.many_cons ih ?_ (fun r hr => fields_solid fields hr) (fun g hg => hg.elim) ?_
    · rw [fieldsText_cons, List.map_cons]
      exact hcons.congr (by simp)
    · rw [htext]
      simp
    · intro r _ _
      rw [htext]
      exact Stuck.of_cons (.inl (identPart_of_identStart hc)) _

/-! ### Declarations -/

theorem keyword_reads (word : String) (gap : Gap) :
    Reads ((str word).seq whitespaceOrComments) (word.toList ++ gap.text) ((), ()) (gap ≠ []) Solid
      Nowhere :=
  ((Reads.str word).seq (gap1_reads gap) (fun _ _ => trivial) .nowhere).congr (by simp)

theorem string_solid (x : StringText) (r : List Char) : Solid (x.text ++ r) := ⟨by decide, by decide⟩

theorem ident_solid (id : Ident) (r : List Char) : Solid (id.text ++ r) := by
  obtain ⟨c, s, htext, hc, -⟩ := ident_cons id
  exact identStart_solid htext hc r

theorem dotted_solid (id : DottedIdent) (r : List Char) : Solid (id.text ++ r) := by
  obtain ⟨c, s, htext, hc⟩ := dotted_text id
  exact identStart_solid htext hc r

/-- A keyword, a value and a semicolon. -/
theorem statement_reads {α : Type} {p : Parser α} {text : List Char} {a : α} (word : String)
    (gap last : Gap) (h : Reads p text a True Break Nowhere) (hsolid : ∀ r, Solid (text ++ r))
    (f : α → AstTopLevel) (hf : ∀ a', f a' = f a → a' = a) :
    Reads ((((((str word).seq whitespaceOrComments).seq p).seq optionalWhitespaceOrComments).seq
      (char ';')).map fun (((_, x), _), _) => f x) (word.toList ++ gap.text ++ text ++ last.text ++ [';'])
      (f a) (gap ≠ []) Anything Nowhere := by
  have h1 := (keyword_reads word gap).seq h (fun r _ => hsolid r) .nowhere
  have h2 := h1.seq (@gap_before last ';' (by decide) Nowhere)
    (fun r ⟨r', hr⟩ => hr ▸ break_gap last ⟨by decide, by decide⟩) .nowhere
  have h3 := h2.seq (@Reads.char ';' Nowhere) (fun r _ => ⟨r, rfl⟩) .nowhere
  refine h3.map_to rfl (by simp) ?_
  rintro ⟨⟨⟨⟨⟨⟩, ⟨⟩⟩, x⟩, ⟨⟩⟩, ⟨⟩⟩ hx
  rw [hf x hx]

theorem enumDecl_reads (gap : Gap1) (name : Ident) (m : OptMetadata) (beforeColon afterColon : Gap)
    (baseType : TypeText) (last : Gap) (values : CommaText (ValText Ident)) :
    Reads (enumDecl js) (DeclText.text (.enum gap name m beforeColon afterColon baseType last values))
      (DeclText.ast js (.enum gap name m beforeColon afterColon baseType last values))
      (DeclText.Good (.enum gap name m beforeColon afterColon baseType last values)) Anything
      Nowhere := by
  obtain ⟨s, hs⟩ := vals_begin (·.val) values
  have h1 := (keyword_reads "enum" gap.val).seq (@ident_reads Nowhere name)
    (fun r _ => ident_solid name r) .nowhere
  have h2 := h1.seq (@metadata_reads js m [':'] (by decide))
    (fun r hr => (metadata_next m hr).isBreak) .nowhere
  have h3 := h2.seq (@gap_before beforeColon ':' (by decide) (Stuck ['(']))
    (fun r hr => hr.next (by decide) (by simp) beforeColon) (through_gap ['('])
  have h4 := h3.seq (@Reads.char ':' Nowhere) (fun r _ => ⟨r, rfl⟩) (through_char (by decide))
  have h5 := h4.seq (@gap_reads Nowhere afterColon) (fun _ _ => trivial) .nowhere
  have h6 := h5.seq (typeText_reads baseType) (fun r _ => type_solid baseType r) .nowhere
  have h7 := h6.seq (@gap_before last '{' (by decide) (Stuck []))
    (fun r ⟨r', hr⟩ => hr ▸ break_gap last ⟨by decide, by decide⟩) (through_gap [])
  have h8 := h7.seq (@enumVals_reads js values) (fun r _ => ⟨s ++ r, by rw [hs, List.cons_append]⟩)
    (.of_none fun g hg => between_none (char_stuck (by decide) hg))
  refine h8.map_to rfl (by simp [DeclText.Good, gap.property, and_assoc]) ?_
  rintro ⟨⟨⟨⟨⟨⟨⟨⟨⟨⟨⟩, ⟨⟩⟩, name⟩, metadata⟩, ⟨⟩⟩, ⟨⟩⟩, ⟨⟩⟩, baseType⟩, ⟨⟩⟩, values⟩ h
  simp only [DeclText.ast, AstTopLevel.enum.injEq] at h
  rw [h.1, h.2.1, h.2.2.1, h.2.2.2]

theorem unionDecl_reads (gap : Gap1) (name : Ident) (m : OptMetadata) (last : Gap)
    (values : CommaText (ValText DottedIdent)) :
    Reads (unionDecl js) (DeclText.text (.union gap name m last values))
      (DeclText.ast js (.union gap name m last values))
      (DeclText.Good (.union gap name m last values)) Anything Nowhere := by
  obtain ⟨s, hs⟩ := vals_begin DottedIdent.value values
  have h1 := (keyword_reads "union" gap.val).seq (@ident_reads Nowhere name)
    (fun r _ => ident_solid name r) .nowhere
  have h2 := h1.seq (@metadata_reads js m ['{'] (by decide))
    (fun r hr => (metadata_next m hr).isBreak) .nowhere
  have h3 := h2.seq (@gap_before last '{' (by decide) (Stuck ['(']))
    (fun r hr => hr.next (by decide) (by simp) last) (through_gap ['('])
  have h4 := h3.seq (@unionVals_reads js values) (fun r _ => ⟨s ++ r, by rw [hs, List.cons_append]⟩)
    (.of_none fun g hg => between_none (char_stuck (by decide) hg))
  refine h4.map_to rfl (by simp [DeclText.Good, gap.property]) ?_
  rintro ⟨⟨⟨⟨⟨⟨⟩, ⟨⟩⟩, name⟩, metadata⟩, ⟨⟩⟩, values⟩ h
  simp only [DeclText.ast, AstTopLevel.union.injEq] at h
  rw [h.1, h.2.1, h.2.2]

theorem tableWord_reads (isStruct : Bool) :
    Reads (choice [(str "table").map fun _ => false, (str "struct").map fun _ => true])
      (DeclText.keyword isStruct).toList isStruct True Anything Nowhere := by
  refine .of_accepts fun r _ => ?_
  cases isStruct with
  | false => simp [DeclText.keyword, choice, Parser.map, str, chars]
  | true => simp [DeclText.keyword, choice, Parser.map, str, chars, char_cons_ne]

theorem typeDecl_reads (isStruct : Bool) (gap : Gap1) (name : Ident) (m : OptMetadata) (last before : Gap)
    (fields : List (FieldText × Gap)) :
    Reads (typeDecl js) (DeclText.text (.table isStruct gap name m last before fields))
      (DeclText.ast js (.table isStruct gap name m last before fields))
      (DeclText.Good (.table isStruct gap name m last before fields)) Anything Nowhere := by
  have h1 := (tableWord_reads isStruct).seq (@gap1_reads Nowhere gap.val) (fun _ _ => trivial) .nowhere
  have h2 := h1.seq (@ident_reads Nowhere name) (fun r _ => ident_solid name r) .nowhere
  have h3 := h2.seq (@metadata_reads js m ['{'] (by decide))
    (fun r hr => (metadata_next m hr).isBreak) .nowhere
  have h4 := h3.seq (@gap_before last '{' (by decide) (Stuck ['(']))
    (fun r hr => hr.next (by decide) (by simp) last) (through_gap ['('])
  have hbraces : Reads (betweenBraces (many (whitespaceSurrounded (fieldDecl js))))
      (['{'] ++ before.text ++ DeclText.fieldsText fields ++ (Gap.text [] ++ ['}']))
      (fields.map fun (f, _) => f.ast js) (∀ f ∈ fields, f.1.Good) Anything Nowhere :=
    between_reads before [] (@fields_reads js fields) (by decide)
      (fun r => fields_solid fields ⟨r, rfl⟩) fun r => ⟨r, rfl⟩
  have h5 := h4.seq hbraces (fun r _ => ⟨_, rfl⟩)
    (.of_none fun g hg => between_none (char_stuck (by decide) hg))
  refine h5.map_to rfl (by simp [DeclText.Good, gap.property]) ?_
  rintro ⟨⟨⟨⟨⟨isStruct, ⟨⟩⟩, name⟩, metadata⟩, ⟨⟩⟩, fields⟩ h
  simp only [DeclText.ast, AstTopLevel.table.injEq] at h
  rw [h.1, h.2.1, h.2.2.1, h.2.2.2]

/-! ### The whole file -/

/-- A word is not read from a text that begins with another letter. -/
theorem str_none (word : String) {c d : Char} {s : List Char} (hword : word.toList = d :: s)
    (hc : c ≠ d) (r : List Char) : str word (c :: r) = none := by
  simp only [str, hword, chars, char_cons_ne hc]

theorem include_none {c : Char} (hc : c ≠ 'i') (r : List Char) : «include» (c :: r) = none := by
  have hword := str_none "include" rfl hc r
  simp only [«include», Parser.map, Parser.seq, hword]

theorem namespace_none {c : Char} (hc : c ≠ 'n') (r : List Char) : namespaceDecl (c :: r) = none := by
  have hword := str_none "namespace" rfl hc r
  simp only [namespaceDecl, Parser.map, Parser.seq, hword]

theorem enum_none {c : Char} (hc : c ≠ 'e') (r : List Char) : enumDecl js (c :: r) = none := by
  have hword := str_none "enum" rfl hc r
  simp only [enumDecl, Parser.map, Parser.seq, hword]

theorem union_none {c : Char} (hc : c ≠ 'u') (r : List Char) : unionDecl js (c :: r) = none := by
  have hword := str_none "union" rfl hc r
  simp only [unionDecl, Parser.map, Parser.seq, hword]

theorem type_none {c : Char} (ht : c ≠ 't') (hs : c ≠ 's') (r : List Char) :
    typeDecl js (c :: r) = none := by
  have htable := str_none "table" rfl ht r
  have hstruct := str_none "struct" rfl hs r
  simp only [typeDecl, Parser.map, Parser.seq, choice, fail, htable, hstruct]

theorem rootType_none {c : Char} (hc : c ≠ 'r') (r : List Char) : rootTypeDecl (c :: r) = none := by
  have hword := str_none "root_type" rfl hc r
  simp only [rootTypeDecl, Parser.map, Parser.seq, hword]

theorem attribute_none {c : Char} (hc : c ≠ 'a') (r : List Char) : attributeDecl (c :: r) = none := by
  have hword := str_none "attribute" rfl hc r
  simp only [attributeDecl, Parser.map, Parser.seq, hword]

theorem include_reads (gap : Gap) (value : StringText) (last : Gap) :
    Reads «include» (DeclText.text (.include gap value last)) (DeclText.ast js (.include gap value last))
      (DeclText.Good (.include gap value last)) Anything Nowhere := by
  have hvalue : Reads stringConstant value.text value.value True Break Nowhere :=
    (string_reads value).restrict fun _ _ => trivial
  exact statement_reads "include" gap last hvalue (string_solid value) AstTopLevel.include (by simp)

theorem namespaceDecl_reads (gap : Gap1) (value : DottedIdent) (last : Gap) :
    Reads namespaceDecl (DeclText.text (.namespace gap value last))
      (DeclText.ast js (.namespace gap value last)) (DeclText.Good (.namespace gap value last)) Anything
      Nowhere := by
  have h := statement_reads "namespace" gap.val last (dotted_reads value) (dotted_solid value)
    AstTopLevel.namespace (by simp)
  exact h.congr (by simp [DeclText.Good, gap.property])

theorem rootTypeDecl_reads (gap : Gap1) (type : DottedIdent) (last : Gap) :
    Reads rootTypeDecl (DeclText.text (.rootType gap type last))
      (DeclText.ast js (.rootType gap type last)) (DeclText.Good (.rootType gap type last)) Anything
      Nowhere := by
  have h := statement_reads "root_type" gap.val last (dotted_reads type) (dotted_solid type)
    AstTopLevel.rootType (by simp)
  exact h.congr (by simp [DeclText.Good, gap.property])

theorem attributeDecl_reads (gap : Gap1) (id : Ident) (last : Gap) :
    Reads attributeDecl (DeclText.text (.attribute gap id last))
      (DeclText.ast js (.attribute gap id last)) (DeclText.Good (.attribute gap id last)) Anything
      Nowhere := by
  have hid : Reads (choice [ident, stringConstant]) id.text id.val True Break Nowhere :=
    .of_accepts fun r hr => choice_cons_some (ident_append id hr.not_part)
  have h := statement_reads "attribute" gap.val last hid (ident_solid id) AstTopLevel.attribute (by simp)
  exact h.congr (by simp [DeclText.Good, gap.property])

theorem attributeDecl_reads_string (gap : Gap) (id : StringText) (last : Gap) :
    Reads attributeDecl (DeclText.text (.attributeString gap id last))
      (DeclText.ast js (.attributeString gap id last)) (DeclText.Good (.attributeString gap id last))
      Anything Nowhere := by
  have hid : Reads (choice [ident, stringConstant]) id.text id.value True Break Nowhere := by
    refine .of_accepts fun r _ => ?_
    have hstring := (@string_reads Nowhere id).accepts trivial r trivial
    have hident : ident (id.text ++ r) = none := ident_none (by decide) _
    rw [choice_cons_none hident, choice_cons_some hstring]
  exact statement_reads "attribute" gap last hid (string_solid id) AstTopLevel.attribute (by simp)

theorem attribute_last {text : List Char} {a : AstTopLevel} {good : Prop}
    (h : Reads attributeDecl text a good Anything Nowhere) (hs : ∃ s, text = 'a' :: s) :
    Reads (topLevel js) text a good Anything Nowhere := by
  obtain ⟨s, rfl⟩ := hs
  exact ((h.choice_head fun _ _ _ => rfl).choice_tail fun _ _ => rootType_none (by decide) _)
    |>.choice_tail (fun _ _ => type_none (by decide) (by decide) _)
    |>.choice_tail (fun _ _ => union_none (by decide) _)
    |>.choice_tail (fun _ _ => enum_none (by decide) _)
    |>.choice_tail (fun _ _ => namespace_none (by decide) _)
    |>.choice_tail fun _ _ => include_none (by decide) _

theorem decl_ne_nil (d : DeclText) : d.text ≠ [] := by
  cases d with
  | table isStruct gap name m last before fields =>
    cases isStruct with
    | false => exact List.cons_ne_nil _ _
    | true => exact List.cons_ne_nil _ _
  | _ => exact List.cons_ne_nil _ _

theorem decl_solid (d : DeclText) (r : List Char) : Solid (d.text ++ r) := by
  cases d with
  | table isStruct gap name m last before fields =>
    cases isStruct with
    | false => exact ⟨by decide, by decide⟩
    | true => exact ⟨by decide, by decide⟩
  | _ => exact ⟨by decide, by decide⟩

/-- Every declaration begins with a letter that no other one begins with. -/
theorem topLevel_reads (d : DeclText) :
    Reads (topLevel js) d.text (d.ast js) d.Good Anything Nowhere := by
  cases d with
  | «include» gap value last =>
    have h := @include_reads js gap value last
    obtain ⟨s, hs⟩ : ∃ s, DeclText.text (.include gap value last) = 'i' :: s := ⟨_, rfl⟩
    rw [hs] at h ⊢
    refine h.choice_head fun r _ _ => ?_
    simp [choice, fail, namespace_none, enum_none, union_none, type_none, rootType_none, attribute_none]
  | «namespace» gap value last =>
    have h := @namespaceDecl_reads js gap value last
    obtain ⟨s, hs⟩ : ∃ s, DeclText.text (.namespace gap value last) = 'n' :: s := ⟨_, rfl⟩
    rw [hs] at h ⊢
    refine (h.choice_head fun r _ _ => ?_).choice_tail fun _ _ => include_none (by decide) _
    simp [choice, fail, enum_none, union_none, type_none, rootType_none, attribute_none]
  | «enum» gap name m beforeColon afterColon baseType last values =>
    have h := @enumDecl_reads js gap name m beforeColon afterColon baseType last values
    obtain ⟨s, hs⟩ : ∃ s, DeclText.text (.enum gap name m beforeColon afterColon baseType last
        values) = 'e' :: s := ⟨_, rfl⟩
    rw [hs] at h ⊢
    refine ((h.choice_head fun r _ _ => ?_).choice_tail fun _ _ => namespace_none (by decide) _)
      |>.choice_tail fun _ _ => include_none (by decide) _
    simp [choice, fail, union_none, type_none, rootType_none, attribute_none]
  | union gap name m last values =>
    have h := @unionDecl_reads js gap name m last values
    obtain ⟨s, hs⟩ : ∃ s, DeclText.text (.union gap name m last values) = 'u' :: s := ⟨_, rfl⟩
    rw [hs] at h ⊢
    refine ((h.choice_head fun r _ _ => ?_).choice_tail fun _ _ => enum_none (by decide) _)
      |>.choice_tail (fun _ _ => namespace_none (by decide) _)
      |>.choice_tail fun _ _ => include_none (by decide) _
    simp [choice, fail, type_none, rootType_none, attribute_none]
  | table isStruct gap name m last before fields =>
    have h := @typeDecl_reads js isStruct gap name m last before fields
    obtain ⟨c, s, hc, hs⟩ : ∃ c s, (c = 't' ∨ c = 's') ∧
        DeclText.text (.table isStruct gap name m last before fields) = c :: s := by
      cases isStruct with
      | false => exact ⟨'t', _, .inl rfl, rfl⟩
      | true => exact ⟨'s', _, .inr rfl, rfl⟩
    rw [hs] at h ⊢
    have hne : ∀ x, x ≠ 't' → x ≠ 's' → c ≠ x := by
      rintro x ht hs rfl
      exact hc.elim ht hs
    refine ((h.choice_head fun r _ _ => ?_).choice_tail
        fun _ _ => union_none (hne 'u' (by decide) (by decide)) _)
      |>.choice_tail (fun _ _ => enum_none (hne 'e' (by decide) (by decide)) _)
      |>.choice_tail (fun _ _ => namespace_none (hne 'n' (by decide) (by decide)) _)
      |>.choice_tail fun _ _ => include_none (hne 'i' (by decide) (by decide)) _
    have hroot := rootType_none (hne 'r' (by decide) (by decide)) (s ++ r)
    have hattribute := attribute_none (hne 'a' (by decide) (by decide)) (s ++ r)
    simp [choice, fail, hroot, hattribute]
  | rootType gap type last =>
    have h := @rootTypeDecl_reads js gap type last
    obtain ⟨s, hs⟩ : ∃ s, DeclText.text (.rootType gap type last) = 'r' :: s := ⟨_, rfl⟩
    rw [hs] at h ⊢
    refine ((h.choice_head fun r _ _ => ?_).choice_tail fun _ _ => type_none (by decide) (by decide) _)
      |>.choice_tail (fun _ _ => union_none (by decide) _)
      |>.choice_tail (fun _ _ => enum_none (by decide) _)
      |>.choice_tail (fun _ _ => namespace_none (by decide) _)
      |>.choice_tail fun _ _ => include_none (by decide) _
    simp [choice, fail, attribute_none]
  | «attribute» gap id last =>
    exact attribute_last (@attributeDecl_reads js gap id last) ⟨_, rfl⟩
  | attributeString gap id last =>
    exact attribute_last (@attributeDecl_reads_string js gap id last) ⟨_, rfl⟩

/-- What is read after the last declaration: a gap and the last line. -/
theorem skip_lastLine (gap : Gap) (lastLine : Option {body : List Char // '\n' ∉ body}) :
    skip (gap.text ++ File.lastLineText lastLine) = [] := by
  rw [skip_gap]
  cases lastLine with
  | none => rfl
  | some body =>
    have hblank := blank_slashes body.property (.inl rfl)
    rw [List.append_nil] at hblank
    exact (skip_some hblank (by simp)).trans rfl

/-- At the end of the text. -/
def AtEnd (r : List Char) : Prop := r = []

theorem declaration_reads (before : Gap) (d : DeclText) {rest : List Char} {follow : List Char → Prop}
    (hrest : ∀ r, follow r → skip (rest ++ r) = r) :
    Reads (whitespaceSurrounded (topLevel js)) (before.text ++ d.text ++ rest) (d.ast js) d.Good follow
      Nowhere := by
  have hafter : Reads optionalWhitespaceOrComments rest () True follow Nowhere :=
    .of_accepts fun r hr => by rw [optionalWhitespaceOrComments_eq, hrest r hr]
  have h1 := (@gap_reads Nowhere before).seq (@topLevel_reads js d) (fun r _ => decl_solid d r) .nowhere
  have h2 := h1.seq hafter (fun _ _ => trivial) .nowhere
  refine h2.map_to rfl (by simp) ?_
  rintro ⟨⟨⟨⟩, x⟩, ⟨⟩⟩ rfl
  rfl

theorem decls_reads (before : Gap) (d : DeclText) (after : Gap) (decls : List (DeclText × Gap))
    (lastLine : Option {body : List Char // '\n' ∉ body}) :
    Reads (many (whitespaceSurrounded (topLevel js)))
      (before.text ++ File.declsText ((d, after) :: decls) ++ File.lastLineText lastLine)
      (((d, after) :: decls).map fun (d, _) => d.ast js) (∀ e ∈ (d, after) :: decls, e.1.Good) AtEnd
      (· ≠ []) := by
  have hnil : Reads (many (whitespaceSurrounded (topLevel js))) [] [] True AtEnd (· ≠ []) :=
    Reads.many_nil fun r (hr : r = []) => by subst hr; rfl
  induction decls generalizing before d after with
  | nil =>
    have hitem := @declaration_reads js before d (after.text ++ File.lastLineText lastLine) AtEnd
      fun r (hr : r = []) => by rw [hr, List.append_nil, skip_lastLine]
    have hcons := hitem.many_cons hnil (by simp [decl_ne_nil]) (fun r hr => hr) (fun g hg => hg.elim)
      fun r _ _ => by simp [decl_ne_nil]
    simpa [File.declsText] using hcons
  | cons e decls ih =>
    obtain ⟨d', after'⟩ := e
    have hitem := @declaration_reads js before d after.text Solid fun r hr => by
      rw [skip_gap, skip_solid hr]
    have hsolid : ∀ r, AtEnd r → Solid (Gap.text [] ++ File.declsText ((d', after') :: decls) ++
        File.lastLineText lastLine ++ r) := by
      intro r _
      simpa [File.declsText] using decl_solid d' _
    have hcons := hitem.many_cons (ih [] d' after') (by simp [decl_ne_nil]) hsolid
      (fun g hg => hg.elim) fun r _ _ => by simp [decl_ne_nil]
    simpa [File.declsText] using hcons

theorem file_reads (file : File) (hne : file.decls ≠ []) :
    Reads (schema js) file.text (file.ast js) (∀ d ∈ file.decls, d.1.Good) AtEnd Nowhere := by
  obtain ⟨before, decls, lastLine⟩ := file
  obtain ⟨⟨d, after⟩, decls, rfl⟩ := List.exists_cons_of_ne_nil hne
  have hend : Reads endOfInput [] () True AtEnd Nowhere :=
    .of_accepts fun r (hr : r = []) => by subst hr; rfl
  have hthrough : Through endOfInput (· ≠ []) Nowhere := .of_none fun g hg => by
    obtain ⟨c, r, rfl⟩ := List.exists_cons_of_ne_nil hg
    rfl
  have hseq := (@decls_reads js before d after decls lastLine).seq hend (fun r hr => hr) hthrough
  rw [List.append_nil] at hseq
  refine hseq.map_to rfl (by simp) ?_
  rintro ⟨x, ⟨⟩⟩ rfl
  rfl

theorem parse_decls_iff (js : NumberFunctions) (file : File) (hne : file.decls ≠ []) :
    parseSchema js (String.ofList file.text) = some (file.ast js) ↔ ∀ d ∈ file.decls, d.1.Good := by
  have hreads := @file_reads js file hne
  rw [parseSchema, String.toList_ofList]
  constructor
  · intro hparse
    by_contra hbad
    have hrefused := hreads.refuses hbad [] rfl
    rw [List.append_nil] at hrefused
    cases hrefused with
    | fails h => simp [h] at hparse
    | other a hne h => simp [h, hne] at hparse
    | stuck a g hg h => exact hg
  · intro hall
    have haccepts := hreads.accepts hall [] rfl
    rw [List.append_nil] at haccepts
    rw [haccepts, Option.map_some]

/-- Only a declaration takes the gaps around it away. -/
theorem parse_blank {s : List Char} (h : skip s = []) :
    (schema js s).map (·.1) = if s = [] then some [] else none := by
  have hitem : whitespaceSurrounded (topLevel js) s = none := by
    have hnone : topLevel js [] = none := rfl
    simp only [whitespaceSurrounded, Parser.map, Parser.seq, optionalWhitespaceOrComments_eq, h, hnone]
  cases s with
  | nil => simp [schema, Parser.map, Parser.seq, many_none hitem, endOfInput]
  | cons c s => simp [schema, Parser.map, Parser.seq, many_none hitem, endOfInput]

/-- A file is read back exactly when it is good. -/
theorem parse_text_iff (js : NumberFunctions) (file : File) :
    parseSchema js (String.ofList file.text) = some (file.ast js) ↔ file.Good := by
  by_cases hne : file.decls = []
  · have htext : file.text = file.before.text ++ File.lastLineText file.lastLine := by
      simp [File.text, File.declsText, hne]
    have hblank := @parse_blank js file.text (by rw [htext, skip_lastLine])
    rw [parseSchema, String.toList_ofList, hblank]
    by_cases hempty : file.text = []
    · simp [hempty, File.ast, File.Good, hne]
    · simp [hempty, File.Good, hne]
  · rw [parse_decls_iff js file hne]
    simp [File.Good, hne]

/-- `table T{a:int8;}`. -/
def int8Table : File where
  before := []
  decls := [(.table false ⟨[.space ' ' (by decide)], by decide⟩ ⟨"T", by decide⟩ none [] []
    [({ name := ⟨"a", by decide⟩, beforeColon := [], afterColon := [], type := .basic (.int .int8)
        afterType := [], defaultValue := none, metadata := none }, [])], [])]
  lastLine := none

/-- `int` is read, and not `int8`. -/
theorem int8_not_read : ¬ ∀ (js : NumberFunctions) (file : File),
    parseSchema js (String.ofList file.text) = some (file.ast js) := by
  intro hall
  have hparse := hall ⟨fun _ => 0, fun _ => 0⟩ int8Table
  have hgood := (parse_decls_iff _ int8Table (List.cons_ne_nil _ _)).mp hparse
  have hfield := (hgood _ List.mem_cons_self).2 _ List.mem_cons_self
  have hreadable : BasicType.int .int8 ∈ readableTypes := hfield.1
  exact absurd hreadable (by decide)

end Motis.Protocol.SchemaText
