import Motis.Lib.Glob
import Motis.Protocol.SchemaTokens
import Motis.Protocol.TypeFilter

/-! Which filters are exact.

    A pattern stands for names as its wildcards say. Its expression matches just these when no part
    has a second run of stars, or when no name can match at all:

        a*.b*c     safe       a[^.]*\.b[^.]*c
        a*b*       unsafe     a[^.]*b*          matches a
        -a*b*      safe       -a[^.]*b*         no name starts with a dash
        a*b**      unsafe     a[^.]*b**         is an error -/

namespace Motis.Protocol.TypeFilter
open CharPattern JsRegExp SchemaText

/-! ### Names -/

theorem dotted_splitOn (pattern : List Char) :
    '.' :: pattern = (pattern.splitOn '.').flatMap ('.' :: ·) := by
  obtain ⟨part, parts, hparts⟩ := List.exists_cons_of_ne_nil (List.splitOn_ne_nil '.' pattern)
  have hjoin : ['.'].intercalate (pattern.splitOn '.') = pattern :=
    List.intercalate_splitOn '.'
  rw [hparts, intercalate_cons] at hjoin
  rw [hparts, List.flatMap_cons, ← hjoin]
  rfl

/-- The names of an identifier, each after a dot. -/
theorem dotted_text (name : DottedIdent) :
    '.' :: name.text = (name.first :: name.rest).flatMap fun id => '.' :: id.text := by
  rw [DottedIdent.text, DottedIdent.value, joinDots, String.toList_intercalate, List.map_map,
    List.map_cons]
  have hdot : ".".toList = ['.'] := by decide
  rw [hdot, intercalate_cons, List.flatMap_map]
  rfl

theorem dotted_iff {items : List (Item Char)} {s : List Char} :
    CharPattern.Matches (charItem '.' :: items) ('.' :: s) ↔ CharPattern.Matches items s := by
  constructor
  · rintro ⟨c, s', heq, -, h⟩
    obtain ⟨-, rfl⟩ := List.cons_eq_cons.mp heq
    exact h
  · exact fun h => ⟨'.', s, rfl, beq_self_eq_true _, h⟩

def globItems (parts : List (List Char)) : List (Item Char) :=
  parts.flatMap fun part => charItem '.' :: Glob.items part

theorem items_dotted (parts : List (List Char)) :
    Glob.items (parts.flatMap ('.' :: ·)) = globItems parts := by
  induction parts with
  | nil => rfl
  | cons part parts ih =>
    have hhead : (parts.flatMap ('.' :: ·)).head? ≠ some '*' := by
      cases parts with
      | nil => exact nofun
      | cons part' parts => exact fun heq => by cases heq
    rw [Glob.items] at ih
    rw [Glob.items, List.flatMap_cons, Glob.tokens_append hhead, Glob.tokens_char (by decide),
      List.map_append, ih]
    rfl

/-- The meaning of a pattern, part by part. -/
theorem glob_iff (pattern s : List Char) : Glob.Matches pattern s ↔
    CharPattern.Matches (globItems (pattern.splitOn '.')) ('.' :: s) := by
  rw [← items_dotted, ← dotted_splitOn, Glob.items, Glob.tokens_char (by decide)]
  exact dotted_iff.symm

theorem patternItems_iff (pattern s : List Char) :
    CharPattern.Matches (patternItems pattern) s ↔
      CharPattern.Matches (dottedItems (pattern.splitOn '.')) ('.' :: s) := by
  obtain ⟨part, parts, hparts⟩ := List.exists_cons_of_ne_nil (List.splitOn_ne_nil '.' pattern)
  rw [patternItems, hparts]
  exact dotted_iff.symm

theorem mem_name {name : DottedIdent} {c : Char} (h : c ∈ '.' :: name.text) :
    c = '.' ∨ isIdentPart c = true := by
  rw [dotted_text] at h
  obtain ⟨id, -, hc⟩ := List.mem_flatMap.mp h
  rcases List.mem_cons.mp hc with rfl | hc
  · exact .inl rfl
  · obtain ⟨d, ds, htext, hd, hds⟩ := ident_cons id
    rw [htext] at hc
    rcases List.mem_cons.mp hc with rfl | hc
    · exact .inr (identPart_of_identStart hd)
    · exact .inr (List.all_eq_true.mp hds c hc)

theorem dot_not_mem (id : Ident) : '.' ∉ id.text := by
  obtain ⟨d, ds, htext, hd, hds⟩ := ident_cons id
  rw [htext]
  intro hdot
  rcases List.mem_cons.mp hdot with rfl | hdot
  · exact absurd hd (by decide)
  · exact absurd (List.all_eq_true.mp hds _ hdot) (by decide)

/-- After a dot an identifier starts. -/
theorem start_after_dot {ids : List Ident} {u v : List Char} {c : Char}
    (h : (ids.flatMap fun id => '.' :: id.text) = u ++ '.' :: c :: v) : isIdentStart c = true := by
  induction ids generalizing u with
  | nil => simp at h
  | cons id ids ih =>
    rw [List.flatMap_cons, List.cons_append] at h
    cases u with
    | nil =>
      obtain ⟨d, ds, htext, hd, -⟩ := ident_cons id
      rw [htext] at h
      obtain ⟨-, h⟩ := List.cons_eq_cons.mp h
      obtain ⟨rfl, -⟩ := List.cons_eq_cons.mp h
      exact hd
    | cons e u =>
      obtain ⟨-, h⟩ := List.cons_eq_cons.mp h
      rcases List.append_eq_append_iff.mp h with ⟨a, rfl, hrest⟩ | ⟨a, htext, hrest⟩
      · exact ih hrest
      · cases a with
        | nil => exact ih (u := []) hrest.symm
        | cons f a =>
          obtain ⟨rfl, -⟩ := List.cons_eq_cons.mp hrest
          refine absurd ?_ (dot_not_mem id)
          rw [htext]
          exact List.mem_append_right _ List.mem_cons_self

/-! ### Parts with one run of stars -/

/-- Names have no line terminators. -/
def good (c : Char) : Prop := isLineTerminator c = false

theorem good_of_identPart {c : Char} (h : isIdentPart c = true) : good c := by
  rw [good, ← Bool.not_eq_true]
  intro hline
  simp only [isLineTerminator, List.mem_cons, List.not_mem_nil, or_false, decide_eq_true_eq]
    at hline
  rcases hline with rfl | rfl | rfl | rfl <;> exact absurd h (by decide)

theorem good_of_mem_name {name : DottedIdent} {c : Char} (h : c ∈ '.' :: name.text) : good c := by
  rcases mem_name h with rfl | hpart
  · rfl
  · exact good_of_identPart hpart

theorem agree_refl (items : List (Item Char)) : List.Forall₂ (Agree good) items items :=
  List.forall₂_same.mpr fun i _ => Agree.refl good i

/-- A wildcard that the expression has stands for the same characters of names. -/
theorem agree_run {part : List Char} {n : ℕ} (h : firstRun part = List.replicate (n + 1) '*') :
    Agree good (.many (runClass (firstRun part))) (Glob.wildcard (n + 1)).item := by
  rw [runClass, Glob.wildcard, h, List.length_replicate]
  split_ifs
  · exact .many fun _ _ => rfl
  · exact .many fun c hc => by rw [hc]; rfl

theorem items_chars {l : List Char} (h : '*' ∉ l) : Glob.items l = l.map charItem := by
  have htokens := Glob.tokens_chars h []
  rw [List.append_nil] at htokens
  rw [Glob.items, htokens, List.map_append, List.map_map]
  exact List.append_nil _

/-- The meaning of a part, around its first run. -/
theorem items_run {part : List Char} {n : ℕ}
    (hpart : part = beforeRun part ++ (List.replicate (n + 1) '*' ++ afterRun part)) :
    Glob.items part = (beforeRun part).map charItem ++
      (Glob.wildcard (n + 1)).item :: Glob.items (afterRun part) := by
  rw [Glob.items, Glob.items]
  conv_lhs => rw [hpart]
  rw [Glob.tokens_chars (star_not_mem_beforeRun part), Glob.tokens_run (Nat.succ_pos n)
    (head_afterRun part), List.map_append, List.map_map]
  rfl

theorem repeated_of_not_mem {l : List Char} (h : '*' ∉ l) : repeated l = l.map charItem := by
  induction l using repeated.induct with
  | case1 => rfl
  | case2 c => rfl
  | case3 c cs ih => simp at h
  | case4 c d cs hd ih =>
    rw [repeated, if_neg hd, ih fun hmem => h (List.mem_cons_of_mem _ hmem)]
    rfl

theorem agree_part {part : List Char} (h : '*' ∉ afterRun part) :
    List.Forall₂ (Agree good) (partItems part) (Glob.items part) := by
  rw [partItems]
  split_ifs with hstar
  · obtain ⟨n, hpart, hrun⟩ := run_split hstar
    rw [items_run hpart, repeated_of_not_mem h, items_chars h]
    exact List.rel_append (agree_refl _) (.cons (agree_run hrun) (agree_refl _))
  · rw [items_chars hstar]
    exact agree_refl _

theorem agree_parts {parts : List (List Char)} (h : ∀ part ∈ parts, '*' ∉ afterRun part) :
    List.Forall₂ (Agree good) (dottedItems parts) (globItems parts) := by
  induction parts with
  | nil => exact .nil
  | cons part parts ih =>
    obtain ⟨hpart, h⟩ := List.forall_mem_cons.mp h
    rw [dottedItems, globItems, List.flatMap_cons, List.flatMap_cons]
    exact List.rel_append (.cons (Agree.refl _ _) (agree_part hpart)) (ih h)

/-! ### Other parts -/

/-- The characters that no star follows. -/
def unrepeated : List Char → List Char
  | [] => []
  | [c] => [c]
  | c :: d :: cs => if d = '*' then unrepeated cs else c :: unrepeated (d :: cs)

/-- What a part requires can be in an identifier. -/
def Nameable (part : List Char) : Prop :=
  (∀ c ∈ beforeRun part ++ unrepeated (afterRun part), isIdentPart c = true) ∧
    ∀ c, part.head? = some c → c ≠ '*' → isIdentStart c = true

theorem mem_repeated {l : List Char} {c : Char} (h : c ∈ unrepeated l) :
    charItem c ∈ repeated l := by
  induction l using repeated.induct with
  | case1 => cases h
  | case2 d => rw [List.mem_singleton.mp h]; exact List.mem_singleton_self _
  | case3 d cs ih =>
    rw [unrepeated, if_pos rfl] at h
    rw [repeated, if_pos rfl]
    exact List.mem_cons_of_mem _ (ih h)
  | case4 d e cs he ih =>
    rw [unrepeated, if_neg he] at h
    rw [repeated, if_neg he]
    rcases List.mem_cons.mp h with rfl | h
    · exact List.mem_cons_self
    · exact List.mem_cons_of_mem _ (ih h)

theorem unrepeated_sublist (l : List Char) : (unrepeated l).Sublist l := by
  induction l using unrepeated.induct with
  | case1 => exact .slnil
  | case2 c => exact List.Sublist.refl _
  | case3 c cs ih =>
    rw [unrepeated, if_pos rfl]
    exact (ih.cons _).cons _
  | case4 c d cs hd ih =>
    rw [unrepeated, if_neg hd]
    exact ih.cons_cons _

theorem beforeRun_of_not_mem {part : List Char} (h : '*' ∉ part) : beforeRun part = part :=
  List.takeWhile_eq_self_iff.mpr fun c hc => by
    rw [bne_iff_ne]
    rintro rfl
    exact h hc

/-- A required character is in both meanings of a part. -/
theorem mem_items {part : List Char} {c : Char}
    (h : c ∈ beforeRun part ++ unrepeated (afterRun part)) (hc : c ≠ '*') :
    charItem c ∈ partItems part ∧ charItem c ∈ Glob.items part := by
  constructor
  · rw [partItems]
    split_ifs with hstar
    · rcases List.mem_append.mp h with h | h
      · exact List.mem_append_left _ (List.mem_map_of_mem h)
      · exact List.mem_append_right _ (List.mem_cons_of_mem _ (mem_repeated h))
    · rw [beforeRun_of_not_mem hstar, afterRun_of_not_mem hstar] at h
      exact List.mem_map_of_mem (by simpa [unrepeated] using h)
  · have hpart : c ∈ part := by
      rcases List.mem_append.mp h with h | h
      · exact (List.takeWhile_sublist _).subset h
      · exact (List.dropWhile_sublist _).subset ((List.dropWhile_sublist _).subset
          ((unrepeated_sublist _).subset h))
    exact List.mem_map_of_mem (f := Glob.Token.item) (Glob.mem_tokens hc hpart)

/-- Both meanings of a part start with its first character. -/
theorem head_items {c : Char} (hc : c ≠ '*') (cs : List Char) :
    (∃ items, partItems (c :: cs) = charItem c :: items) ∧
      ∃ items, Glob.items (c :: cs) = charItem c :: items := by
  constructor
  · rw [partItems]
    split_ifs
    · have hbefore : beforeRun (c :: cs) = c :: beforeRun cs :=
        List.takeWhile_cons_of_pos (bne_iff_ne.mpr hc)
      rw [hbefore]
      exact ⟨_, rfl⟩
    · exact ⟨_, rfl⟩
  · rw [Glob.items, Glob.tokens_char hc]
    exact ⟨_, rfl⟩

theorem star_not_mem_unrepeated {l : List Char} (hhead : l.head? ≠ some '*')
    (hin : ¬ ['*', '*'] <:+: l) : '*' ∉ unrepeated l := by
  induction l using unrepeated.induct with
  | case1 => exact List.not_mem_nil
  | case2 c =>
    intro h
    exact hhead (congrArg some (List.mem_singleton.mp h).symm)
  | case3 c cs ih =>
    rw [unrepeated, if_pos rfl]
    refine ih (fun hstar => hin ?_) fun hcs => hin (hcs.trans ?_)
    · obtain ⟨cs', rfl⟩ := List.head?_eq_some_iff.mp hstar
      exact ⟨[c], cs', rfl⟩
    · exact (List.suffix_append [c, '*'] cs).isInfix
  | case4 c d cs hd ih =>
    rw [unrepeated, if_neg hd]
    intro h
    rcases List.mem_cons.mp h with rfl | h
    · exact hhead rfl
    · exact ih (fun heq => hd (Option.some.inj heq))
        (fun hcs => hin (hcs.trans (List.suffix_cons c _).isInfix)) h

/-- A pattern with a part that is not nameable stands for no names, and its expression matches
    none. -/
theorem not_matches_of_not_nameable {pattern part : List Char} (hcompiles : Compiles pattern)
    (hmem : part ∈ pattern.splitOn '.') (hname : ¬ Nameable part) (hallowed : Allowed pattern)
    (name : DottedIdent) :
    ¬ CharPattern.Matches (patternItems pattern) name.text ∧ ¬ Glob.Matches pattern name.text := by
  rw [patternItems_iff, glob_iff]
  obtain ⟨before, after, hparts⟩ := List.append_of_mem hmem
  rw [Nameable, not_and_or] at hname
  rcases hname with hname | hname
  -- a character that no name has
  · push Not at hname
    obtain ⟨c, hc, hpart⟩ := hname
    have hstar : c ≠ '*' := by
      rintro rfl
      rcases List.mem_append.mp hc with hc | hc
      · exact star_not_mem_beforeRun part hc
      · exact star_not_mem_unrepeated (head_afterRun part) (hcompiles part hmem) hc
    have hdot : c ≠ '.' := by
      rintro rfl
      have hin : '.' ∈ part := by
        rcases List.mem_append.mp hc with hc | hc
        · exact (List.takeWhile_sublist _).subset hc
        · exact (List.dropWhile_sublist _).subset ((List.dropWhile_sublist _).subset
            ((unrepeated_sublist _).subset hc))
      have hall := (Bool.and_eq_true_iff.mp (hallowed part hmem)).2
      exact absurd (List.all_eq_true.mp hall _ hin) (by decide)
    have hnone : ∀ items : List (Item Char), charItem c ∈ items →
        ¬ CharPattern.Matches items ('.' :: name.text) := by
      intro items hitem hmatches
      obtain ⟨d, hd, heq⟩ := exists_mem_of_one hmatches hitem
      obtain rfl : d = c := eq_of_beq heq
      rcases mem_name hd with hd | hd
      · exact hdot hd
      · exact hpart hd
    obtain ⟨hcode, hglob⟩ := mem_items hc hstar
    exact ⟨hnone _ (List.mem_flatMap.mpr ⟨part, hmem, List.mem_cons_of_mem _ hcode⟩),
      hnone _ (List.mem_flatMap.mpr ⟨part, hmem, List.mem_cons_of_mem _ hglob⟩)⟩
  -- a first character that no identifier has
  · push Not at hname
    obtain ⟨c, hhead, hstar, hstart⟩ := hname
    obtain ⟨cs, rfl⟩ := List.head?_eq_some_iff.mp hhead
    have hnone : ∀ a items b : List (Item Char),
        ¬ CharPattern.Matches (a ++ (charItem '.' :: charItem c :: items) ++ b)
          ('.' :: name.text) := by
      intro a items b hmatches
      rw [List.append_assoc] at hmatches
      obtain ⟨u, v, heq, -, d, v', rfl, hd, e, v'', rfl, he, -⟩ := matches_append.mp hmatches
      obtain rfl : d = '.' := eq_of_beq hd
      obtain rfl : e = c := eq_of_beq he
      rw [dotted_text] at heq
      exact hstart (start_after_dot heq)
    obtain ⟨⟨items, hcode⟩, items', hglob⟩ := head_items hstar cs
    rw [hparts, dottedItems, globItems, List.flatMap_append, List.flatMap_append,
      List.flatMap_cons, List.flatMap_cons, hcode, hglob, ← List.append_assoc, ← List.append_assoc]
    exact ⟨hnone _ _ _, hnone _ _ _⟩

/-! ### A name that is matched by mistake -/

section Skeleton

variable (f : Char)

/-- The first run as one character, and nothing repeated. -/
def skeleton (part : List Char) : List Char :=
  beforeRun part ++ (if '*' ∈ part then [f] else []) ++ unrepeated (afterRun part)

variable {f}

theorem matches_chars (l : List Char) : CharPattern.Matches (l.map charItem) l := by
  induction l with
  | nil => rfl
  | cons c l ih => exact ⟨c, l, rfl, beq_self_eq_true c, ih⟩

theorem matches_repeated (l : List Char) : CharPattern.Matches (repeated l) (unrepeated l) := by
  induction l using unrepeated.induct with
  | case1 => rfl
  | case2 c => exact matches_chars [c]
  | case3 c cs ih =>
    rw [repeated, if_pos rfl, unrepeated, if_pos rfl]
    exact ⟨[], _, rfl, List.forall_mem_nil _, ih⟩
  | case4 c d cs hd ih =>
    rw [repeated, if_neg hd, unrepeated, if_neg hd]
    exact ⟨c, _, rfl, beq_self_eq_true c, ih⟩

theorem matches_skeleton (hf : isIdentStart f = true) (part : List Char) :
    CharPattern.Matches (partItems part) (skeleton f part) := by
  rw [partItems, skeleton]
  split_ifs with hstar
  · have hclass : ∀ c ∈ [f], runClass (firstRun part) c = true := by
      intro c hc
      rw [List.mem_singleton.mp hc, runClass]
      split_ifs
      · rw [bne_iff_ne]
        rintro rfl
        exact absurd hf (by decide)
      · exact congrArg (!·) (good_of_identPart (identPart_of_identStart hf))
    rw [List.append_assoc]
    exact matches_append.mpr ⟨_, _, rfl, matches_chars _, [f], _, rfl, hclass, matches_repeated _⟩
  · rw [beforeRun_of_not_mem hstar, afterRun_of_not_mem hstar, unrepeated, List.append_nil,
      List.append_nil]
    exact matches_chars part

theorem matches_skeletons (hf : isIdentStart f = true) (parts : List (List Char)) :
    CharPattern.Matches (dottedItems parts) (parts.flatMap fun part => '.' :: skeleton f part) := by
  induction parts with
  | nil => rfl
  | cons part parts ih =>
    rw [dottedItems, List.flatMap_cons, List.flatMap_cons]
    exact matches_append.mpr ⟨_, _, rfl,
      ⟨'.', _, rfl, beq_self_eq_true _, matches_skeleton hf part⟩, ih⟩

theorem ident_skeleton (hf : isIdentStart f = true) {part : List Char} (hne : part ≠ [])
    (h : Nameable part) : isIdent (String.ofList (skeleton f part)) = true := by
  obtain ⟨hpart, hstart⟩ := h
  obtain ⟨hbefore, hafter⟩ := List.forall_mem_append.mp hpart
  have hletters : ∀ c ∈ skeleton f part, isIdentPart c = true := by
    rw [skeleton]
    refine List.forall_mem_append.mpr ⟨List.forall_mem_append.mpr ⟨hbefore, ?_⟩, hafter⟩
    split_ifs
    · exact List.forall_mem_singleton.mpr (identPart_of_identStart hf)
    · exact nofun
  have hfirst : ∃ c cs, skeleton f part = c :: cs ∧ isIdentStart c = true := by
    obtain ⟨d, ds, rfl⟩ := List.exists_cons_of_ne_nil hne
    rw [skeleton]
    by_cases hd : d = '*'
    · have hnone : beforeRun (d :: ds) = [] := by
        rw [beforeRun, hd]
        rfl
      rw [hnone, hd, if_pos List.mem_cons_self]
      exact ⟨f, _, rfl, hf⟩
    · have hsome : beforeRun (d :: ds) = d :: beforeRun ds :=
        List.takeWhile_cons_of_pos (bne_iff_ne.mpr hd)
      rw [hsome]
      exact ⟨d, _, rfl, hstart d rfl hd⟩
  obtain ⟨c, cs, heq, hc⟩ := hfirst
  rw [heq] at hletters
  rw [isIdent, String.toList_ofList, heq]
  exact Bool.and_eq_true_iff.mpr
    ⟨hc, List.all_eq_true.mpr fun d hd => hletters d (List.mem_cons_of_mem _ hd)⟩

/-- A repeated character is missing. -/
theorem exists_count_lt {l : List Char} (hhead : l.head? ≠ some '*') (hstar : '*' ∈ l) :
    ∃ c, c ≠ '*' ∧ (unrepeated l).count c < l.count c := by
  induction l using unrepeated.induct with
  | case1 => cases hstar
  | case2 c => exact absurd (congrArg some (List.mem_singleton.mp hstar).symm) hhead
  | case3 c cs ih =>
    have hc : c ≠ '*' := fun heq => hhead (congrArg some heq)
    refine ⟨c, hc, ?_⟩
    have hle := (unrepeated_sublist cs).count_le c
    rw [unrepeated, if_pos rfl, List.count_cons_self, List.count_cons_of_ne (Ne.symm hc)]
    omega
  | case4 c d cs hd ih =>
    have hc : c ≠ '*' := fun heq => hhead (congrArg some heq)
    have hmem : '*' ∈ d :: cs := (List.mem_cons.mp hstar).resolve_left (Ne.symm hc)
    obtain ⟨x, hx, hlt⟩ := ih (fun heq => hd (Option.some.inj heq)) hmem
    refine ⟨x, hx, ?_⟩
    rw [unrepeated, if_neg hd, List.count_cons, List.count_cons (a := x) (b := c)]
    omega

theorem count_skeleton_le {c : Char} (hc : c ≠ f) (part : List Char) :
    (skeleton f part).count c + (afterRun part).count c ≤
      part.count c + (unrepeated (afterRun part)).count c := by
  rw [skeleton, List.count_append, List.count_append]
  by_cases hstar : '*' ∈ part
  · obtain ⟨n, hpart, -⟩ := run_split hstar
    have hcount := congrArg (List.count c) hpart
    rw [List.count_append, List.count_append] at hcount
    rw [if_pos hstar, List.count_cons_of_ne (Ne.symm hc), List.count_nil]
    omega
  · rw [if_neg hstar, beforeRun_of_not_mem hstar, afterRun_of_not_mem hstar]
    exact le_rfl

variable {parts : List (List Char)}

theorem count_skeletons_le {c : Char} (hc : c ≠ f) (parts : List (List Char)) :
    (parts.flatMap fun part => '.' :: skeleton f part).count c ≤
      (parts.flatMap ('.' :: ·)).count c := by
  induction parts with
  | nil => exact le_rfl
  | cons part parts ih =>
    have hle := count_skeleton_le hc part
    have hsub := (unrepeated_sublist (afterRun part)).count_le c
    rw [List.flatMap_cons, List.flatMap_cons, List.count_append, List.count_append,
      List.count_cons, List.count_cons]
    omega

theorem count_skeletons_lt {c : Char} (hc : c ≠ f) {part : List Char} (hmem : part ∈ parts)
    (hlt : (unrepeated (afterRun part)).count c < (afterRun part).count c) :
    (parts.flatMap fun part => '.' :: skeleton f part).count c <
      (parts.flatMap ('.' :: ·)).count c := by
  obtain ⟨before, after, rfl⟩ := List.append_of_mem hmem
  have hbefore := count_skeletons_le hc before
  have hafter := count_skeletons_le hc after
  have hle := count_skeleton_le hc part
  rw [List.flatMap_append, List.flatMap_append, List.flatMap_cons, List.flatMap_cons,
    List.count_append, List.count_append, List.count_append, List.count_append, List.count_cons,
    List.count_cons]
  omega

/-- The parts without what is repeated are a name. -/
theorem exists_name (hf : isIdentStart f = true) (hparts : parts ≠ [])
    (h : ∀ part ∈ parts, part ≠ [] ∧ Nameable part) :
    ∃ name : DottedIdent, '.' :: name.text = parts.flatMap fun part => '.' :: skeleton f part := by
  have hids : ∃ ids : List Ident, ids.map Ident.text = parts.map (skeleton f) := by
    clear hparts
    induction parts with
    | nil => exact ⟨[], rfl⟩
    | cons part parts ih =>
      obtain ⟨⟨hne, hname⟩, h⟩ := List.forall_mem_cons.mp h
      obtain ⟨ids, hids⟩ := ih h
      refine ⟨⟨String.ofList (skeleton f part), ident_skeleton hf hne hname⟩ :: ids, ?_⟩
      rw [List.map_cons, List.map_cons, hids, Ident.text, String.toList_ofList]
  obtain ⟨ids, hids⟩ := hids
  have hne : ids ≠ [] := by
    rintro rfl
    exact hparts (List.map_eq_nil_iff.mp hids.symm)
  obtain ⟨id, ids, rfl⟩ := List.exists_cons_of_ne_nil hne
  refine ⟨⟨id, ids⟩, ?_⟩
  rw [dotted_text]
  have hflat := congrArg (List.flatMap ('.' :: ·)) hids
  rw [List.flatMap_map, List.flatMap_map] at hflat
  exact hflat

end Skeleton

/-! ### Exactness -/

/-- The pattern has an expression, and that matches the names that the pattern stands for. -/
def ExactPattern (pattern : List Char) : Prop :=
  ∃ regExp, parseTypePattern pattern = .ok regExp ∧
    ∀ name : DottedIdent, test regExp name.text = true ↔ Glob.Matches pattern name.text

/-- Each part has one run of stars at most, or the pattern compiles but is for no name. -/
def Safe (pattern : List Char) : Prop :=
  (∀ part ∈ pattern.splitOn '.', '*' ∉ afterRun part) ∨
    Compiles pattern ∧ ∃ part ∈ pattern.splitOn '.', ¬ Nameable part

theorem exactPattern_iff {pattern : List Char} (h : Allowed pattern) :
    ExactPattern pattern ↔ Safe pattern := by
  constructor
  · rintro ⟨regExp, hok, hexact⟩
    have hcompiles := compiles_of_ok h hok
    by_contra hunsafe
    rw [Safe, not_or, not_and] at hunsafe
    obtain ⟨hruns, hnameable⟩ := hunsafe
    have hnameable := hnameable hcompiles
    push Not at hruns hnameable
    obtain ⟨part, hmem, hstar⟩ := hruns
    obtain ⟨c, hc, hlt⟩ := exists_count_lt (head_afterRun part) hstar
    obtain ⟨f, hf, hcf⟩ : ∃ f, isIdentStart f = true ∧ c ≠ f := by
      by_cases ha : c = 'a'
      · exact ⟨'b', by decide, by rw [ha]; decide⟩
      · exact ⟨'a', by decide, ha⟩
    obtain ⟨name, hname⟩ := exists_name hf (List.splitOn_ne_nil '.' pattern) fun part' hmem' =>
      ⟨fun hnil => by
        have hallowed := h part' hmem'
        rw [hnil] at hallowed
        exact absurd hallowed (by decide), hnameable part' hmem'⟩
    have hglob : Glob.Matches pattern name.text := by
      obtain ⟨regExp', hok', htest⟩ := parseTypePattern_ok h hcompiles
      obtain rfl : regExp = regExp' := Except.ok.inj (hok.symm.trans hok')
      rw [← hexact, htest, patternItems_iff, hname]
      exact matches_skeletons hf _
    have hle := Glob.count_le hc hglob
    have hless := count_skeletons_lt hcf hmem hlt
    rw [← hname, ← dotted_splitOn, List.count_cons, List.count_cons] at hless
    omega
  · rintro (hruns | ⟨hcompiles, part, hmem, hname⟩)
    · have hcompiles : Compiles pattern := fun part hmem hin =>
        hruns part hmem (hin.subset List.mem_cons_self)
      obtain ⟨regExp, hok, htest⟩ := parseTypePattern_ok h hcompiles
      refine ⟨regExp, hok, fun name => ?_⟩
      rw [htest, patternItems_iff, glob_iff]
      exact matches_iff_of_agree (agree_parts hruns) fun c hc => good_of_mem_name hc
    · obtain ⟨regExp, hok, htest⟩ := parseTypePattern_ok h hcompiles
      refine ⟨regExp, hok, fun name => ?_⟩
      rw [htest]
      obtain ⟨hcode, hglob⟩ := not_matches_of_not_nameable hcompiles hmem hname h name
      exact iff_of_false hcode hglob

/-! ### Filters -/

def Value.patterns : Value → List (List Char)
  | .list entries => entries.filterMap Entry.pattern
  | .mapping | .other => []

def Config.patterns (config : Config) : List (List Char) :=
  config.include.patterns ++ config.exclude.patterns

/-- The filters are lists, or not there. -/
def Config.WellFormed (config : Config) : Prop :=
  config.include ≠ .mapping ∧ config.exclude ≠ .mapping

/-- What the documentation says about a name. -/
def Included (config : Config) (name : List Char) : Prop :=
  (config.include.patterns = [] ∨ ∃ p ∈ config.include.patterns, Glob.Matches p name) ∧
    ¬ ∃ p ∈ config.exclude.patterns, Glob.Matches p name

def Exact (config : Config) : Prop :=
  ∃ filter, parseTypeFilter config = .ok filter ∧
    ∀ name : DottedIdent, includeType filter name.text = true ↔ Included config name.text

theorem includeType_iff (filter : Filter) (fqtn : List Char) :
    includeType filter fqtn = true ↔
      (filter.includes.length = 0 ∨ typeMatches filter.includes fqtn = true) ∧
        ¬ typeMatches filter.excludes fqtn = true := by
  rw [includeType]
  split_ifs with hskip
  · rw [Bool.and_eq_true, decide_eq_true_eq, Bool.not_eq_true'] at hskip
    refine iff_of_false (fun heq => heq) fun ⟨hin, _⟩ => ?_
    rcases hin with hin | hin
    · omega
    · exact Bool.false_ne_true (hskip.2.symm.trans hin)
  · rw [Bool.and_eq_true, decide_eq_true_eq, Bool.not_eq_true', not_and_or, Bool.not_eq_false,
      Nat.not_lt, Nat.le_zero] at hskip
    rw [Bool.not_eq_true', ← Bool.not_eq_true]
    exact (and_iff_right hskip).symm

theorem mapM_exact {patterns : List (List Char)} (h : ∀ p ∈ patterns, ExactPattern p) :
    ∃ regExps, patterns.mapM parseTypePattern = .ok regExps ∧
      regExps.length = patterns.length ∧
      ∀ name : DottedIdent, typeMatches regExps name.text = true ↔
        ∃ p ∈ patterns, Glob.Matches p name.text := by
  induction patterns with
  | nil => exact ⟨[], rfl, rfl, fun name => by simp [typeMatches]⟩
  | cons p patterns ih =>
    obtain ⟨⟨regExp, hok, hexact⟩, h⟩ := List.forall_mem_cons.mp h
    obtain ⟨regExps, hoks, hlength, hmatches⟩ := ih h
    refine ⟨regExp :: regExps, ?_, congrArg Nat.succ hlength, fun name => ?_⟩
    · rw [List.mapM_cons, hok, hoks]
      rfl
    · rw [List.exists_mem_cons_iff, ← hexact name, ← hmatches name]
      exact Bool.or_eq_true_iff

theorem parseTypePatterns_exact {value : Value} (hvalue : value ≠ .mapping)
    (h : ∀ p ∈ value.patterns, ExactPattern p) :
    ∃ regExps, parseTypePatterns value = .ok regExps ∧
      regExps.length = value.patterns.length ∧
      ∀ name : DottedIdent, typeMatches regExps name.text = true ↔
        ∃ p ∈ value.patterns, Glob.Matches p name.text := by
  cases value with
  | list entries => exact mapM_exact h
  | mapping => exact absurd rfl hvalue
  | other => exact mapM_exact h

theorem exact_of_patterns {config : Config} (hconfig : config.WellFormed)
    (h : ∀ p ∈ config.patterns, ExactPattern p) : Exact config := by
  obtain ⟨hinclude, hexclude⟩ := List.forall_mem_append.mp h
  obtain ⟨includes, hincludes, hlength, hin⟩ := parseTypePatterns_exact hconfig.1 hinclude
  obtain ⟨excludes, hexcludes, -, hout⟩ := parseTypePatterns_exact hconfig.2 hexclude
  refine ⟨⟨includes, excludes⟩, ?_, fun name => ?_⟩
  · rw [parseTypeFilter, hincludes, hexcludes]
    rfl
  · rw [includeType_iff, Included, ← hin, ← hout, ← List.length_eq_zero_iff, ← hlength]

/-- A filter of one pattern is as exact as the pattern. -/
theorem exactPattern_of_exact {pattern : List Char}
    (h : Exact ⟨.list [.string pattern], .other⟩) : ExactPattern pattern := by
  obtain ⟨filter, hok, hexact⟩ := h
  cases hpattern : parseTypePattern pattern with
  | error e =>
    have herror : parseTypeFilter ⟨.list [.string pattern], .other⟩ = .error e := by
      change (do
        let includes ← [pattern].mapM parseTypePattern
        let excludes ← parseTypePatterns .other
        return Filter.mk includes excludes) = _
      rw [List.mapM_cons, hpattern]
      rfl
    cases herror.symm.trans hok
  | ok regExp =>
    have hfilter : parseTypeFilter ⟨.list [.string pattern], .other⟩ = .ok ⟨[regExp], []⟩ := by
      change (do
        let includes ← [pattern].mapM parseTypePattern
        let excludes ← parseTypePatterns .other
        return Filter.mk includes excludes) = _
      rw [List.mapM_cons, hpattern]
      rfl
    obtain rfl := Except.ok.inj (hfilter.symm.trans hok)
    refine ⟨regExp, hpattern, fun name => ?_⟩
    have hname := hexact name
    rw [includeType_iff, Included] at hname
    simpa [typeMatches, Value.patterns, Entry.pattern] using hname

/-- All filters made of the patterns are exact if and only if each pattern is safe. -/
theorem filters_exact_iff (patterns : List (List Char)) (h : ∀ p ∈ patterns, Allowed p) :
    (∀ config : Config, config.WellFormed → (∀ p ∈ config.patterns, p ∈ patterns) →
      Exact config) ↔ ∀ p ∈ patterns, Safe p := by
  constructor
  · intro hexact p hp
    rw [← exactPattern_iff (h p hp)]
    refine exactPattern_of_exact (hexact _ ⟨nofun, nofun⟩ fun q hq => ?_)
    obtain rfl : q = p := List.mem_singleton.mp hq
    exact hp
  · intro hsafe config hconfig hpatterns
    refine exact_of_patterns hconfig fun p hp => ?_
    exact (exactPattern_iff (h p (hpatterns p hp))).mpr (hsafe p (hpatterns p hp))

theorem filters_exact_iff_lookup :
    Exact ⟨.list [.string "motis.lookup.*".toList], .list [.string "**Request".toList]⟩ := by
  have hallowed : ∀ p ∈ ["motis.lookup.*".toList, "**Request".toList], Allowed p := by
    simp only [Allowed]
    decide
  have hsafe : ∀ p ∈ ["motis.lookup.*".toList, "**Request".toList], Safe p := by
    have hruns : ∀ p ∈ ["motis.lookup.*".toList, "**Request".toList],
        ∀ part ∈ p.splitOn '.', '*' ∉ afterRun part := by decide
    exact fun p hp => .inl (hruns p hp)
  exact (filters_exact_iff _ hallowed).mpr hsafe _ ⟨by rintro ⟨⟩, by rintro ⟨⟩⟩ fun p hp => hp

/-- The second star repeats the `b`, so a type named `a` is included. -/
theorem not_exact_twoRuns : ¬ Exact ⟨.list [.string "a*b*".toList], .other⟩ := by
  intro h
  obtain ⟨regExp, hok, hexact⟩ := exactPattern_of_exact h
  have hallowed : Allowed "a*b*".toList := by
    simp only [Allowed]
    decide
  obtain ⟨regExp', hok', htest⟩ := parseTypePattern_ok hallowed (compiles_of_ok hallowed hok)
  obtain rfl : regExp = regExp' := Except.ok.inj (hok.symm.trans hok')
  let name : DottedIdent := ⟨⟨"a", by decide⟩, []⟩
  have hcode : test regExp name.text = true := by
    rw [htest, ← run_iff]
    decide
  have hle := Glob.count_le (c := 'b') (by decide) ((hexact name).mp hcode)
  exact absurd hle (by decide)

end Motis.Protocol.TypeFilter
