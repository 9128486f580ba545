import Motis.Protocol.ResolveSchema

/-! Resolved schemas, as the outputs see them.

    A type is stored under its namespace and its name, joined with dots, and a reference is bound to
    such a list of names. No name has a dot, so the joined names can be split again:

        [a, b, T]   ──join──▶   a.b.T   ──split──▶   [a, b, T] -/

namespace Motis.Protocol

def SchemaType.base : SchemaType → TypeBase
  | .enum base _ => base
  | .union base _ => base
  | .table t => t.toTypeBase

/-- The full name of a type. -/
def SchemaType.fqtn (t : SchemaType) : List String := t.base.ns ++ [t.base.name]

/-- What the outputs rely on: full names are made of identifiers, every reference is bound to a
    type, and the tables know where they are used. -/
structure SchemaTypes.IsResolved (schema : SchemaTypes) : Prop where
  nodup : schema.types.names.Nodup
  key : ∀ entry ∈ schema.types, entry.1 = joinDots entry.2.fqtn
  ident : ∀ entry ∈ schema.types, ∀ id ∈ entry.2.fqtn, isIdent id = true
  bound : ∀ ref ∈ schema.refs, ∃ entry ∈ schema.types, ref.resolvedFqtn = entry.2.fqtn
  usedInTable : ∀ key t, (key, SchemaType.table t) ∈ schema.types → (t.usedInTable = true ↔
    (∃ entry ∈ schema.types, ∃ ref ∈ entry.2.tableRefs, ref.key = key) ∨
      ∃ ref, schema.rootType = some ref ∧ ref.key = key)
  usedInUnion : ∀ key t, (key, SchemaType.table t) ∈ schema.types → (t.usedInUnion = true ↔
    ∃ entry ∈ schema.types, ∃ ref ∈ entry.2.unionRefs, ref.key = key)

/-- A table knows where it is used. -/
def SchemaTypes.KnowsUses (schema : SchemaTypes) (key : String) : SchemaType → Prop
  | .table t => (t.usedInTable = true ↔
      (∃ entry ∈ schema.types, ∃ ref ∈ entry.2.tableRefs, ref.key = key) ∨
        ∃ ref, schema.rootType = some ref ∧ ref.key = key) ∧
    (t.usedInUnion = true ↔ ∃ entry ∈ schema.types, ∃ ref ∈ entry.2.unionRefs, ref.key = key)
  | _ => True

instance (schema : SchemaTypes) (key : String) (t : SchemaType) :
    Decidable (schema.KnowsUses key t) :=
  match t with
  | .enum .. => inferInstanceAs (Decidable True)
  | .union .. => inferInstanceAs (Decidable True)
  | .table _ => inferInstanceAs (Decidable (_ ∧ _))

/-- A schema is resolved when its parts pass the checks. -/
theorem SchemaTypes.IsResolved.of_checks {schema : SchemaTypes} (nodup : schema.types.names.Nodup)
    (key : ∀ entry ∈ schema.types, entry.1 = joinDots entry.2.fqtn)
    (ident : ∀ entry ∈ schema.types, ∀ id ∈ entry.2.fqtn, isIdent id = true)
    (bound : ∀ ref ∈ schema.refs, ∃ entry ∈ schema.types, ref.resolvedFqtn = entry.2.fqtn)
    (uses : ∀ entry ∈ schema.types, schema.KnowsUses entry.1 entry.2) : schema.IsResolved where
  nodup := nodup
  key := key
  ident := ident
  bound := bound
  usedInTable _ _ h := (uses _ h).1
  usedInUnion _ _ h := (uses _ h).2

/-- A reference is bound to an entry. -/
theorem bound_entry {schema : SchemaTypes} (hresolved : schema.IsResolved) {ref : TypeRef}
    (h : ref ∈ schema.refs) :
    ∃ entry ∈ schema.types, ref.resolvedFqtn = entry.2.fqtn ∧ ref.key = entry.1 := by
  obtain ⟨entry, hentry, hfqtn⟩ := hresolved.bound ref h
  refine ⟨entry, hentry, hfqtn, ?_⟩
  rw [TypeRef.key, hfqtn, hresolved.key entry hentry]

/-! ### Names without a separator -/

/-- No name has the character. -/
def Free (c : Char) (l : List String) : Prop := ∀ s ∈ l, c ∉ s.toList

@[simp] theorem free_nil (c : Char) : Free c [] := by simp [Free]

theorem free_append {c : Char} {l l' : List String} : Free c (l ++ l') ↔ Free c l ∧ Free c l' := by
  simp [Free, or_imp, forall_and]

theorem not_mem_of_isIdent {s : String} {c : Char} (h : isIdent s = true)
    (hc : isIdentPart c = false) : c ∉ s.toList := by
  rw [isIdent] at h
  intro hmem
  cases hs : s.toList with
  | nil => simp [hs] at hmem
  | cons d ds =>
    rw [hs] at h hmem
    simp only [Bool.and_eq_true, List.all_eq_true] at h
    rcases List.mem_cons.mp hmem with rfl | hmem
    · simp only [isIdentStart, Bool.or_eq_true] at h
      simp only [isIdentPart, Char.isAlphanum, Bool.or_eq_false_iff] at hc
      rcases h.1 with halpha | hunderscore
      · simp [halpha] at hc
      · simp [hunderscore] at hc
    · simp [h.2 c hmem] at hc

theorem not_mem_of_mem_splitOn {c : Char} {l piece : List Char} (h : piece ∈ l.splitOn c) :
    c ∉ piece := by
  induction l generalizing piece with
  | nil =>
    rw [List.splitOn_nil, List.mem_singleton] at h
    simp [h]
  | cons d l ih =>
    rw [List.splitOn_cons_eq_if_modifyHead] at h
    split at h
    · rcases List.mem_cons.mp h with rfl | h
      · simp
      · exact ih h
    · rename_i hd
      cases hl : l.splitOn c with
      | nil => simp [hl] at h
      | cons first rest =>
        rw [hl, List.modifyHead_cons, List.mem_cons] at h
        rcases h with rfl | h
        · have hfirst : c ∉ first := ih (by rw [hl]; exact List.mem_cons_self)
          have hne : c ≠ d := by
            rintro rfl
            simp at hd
          simp [hne, hfirst]
        · exact ih (by rw [hl]; exact List.mem_cons_of_mem _ h)

theorem free_splitDots (id : String) : Free '.' (splitDots id) := by
  intro s hs
  obtain ⟨piece, hpiece, rfl⟩ := List.mem_map.mp hs
  simpa using not_mem_of_mem_splitOn hpiece

theorem splitDots_ne_nil (id : String) : splitDots id ≠ [] := by
  simp [splitDots]

theorem splitOn_intercalate {c : Char} {l : List String} (hl : l ≠ []) (hfree : Free c l) :
    ((String.singleton c).intercalate l).toList.splitOn c = l.map String.toList := by
  rw [String.toList_intercalate, String.toList_singleton, List.splitOn_intercalate]
  · intro piece hpiece
    obtain ⟨s, hs, rfl⟩ := List.mem_map.mp hpiece
    exact hfree s hs
  · simpa using hl

theorem splitDots_joinDots {l : List String} (hl : l ≠ []) (hfree : Free '.' l) :
    splitDots (joinDots l) = l := by
  have hsplit := splitOn_intercalate hl hfree
  rw [splitDots, joinDots]
  change (((String.singleton '.').intercalate l).toList.splitOn '.').map String.ofList = l
  rw [hsplit]
  simp

theorem joinDots_splitDots (id : String) : joinDots (splitDots id) = id := by
  rw [← String.toList_inj, joinDots, String.toList_intercalate, splitDots]
  have hsep : ".".toList = ['.'] := by decide
  rw [hsep, List.map_map]
  have hmap : String.toList ∘ String.ofList = fun l => l := by
    funext l
    simp
  rw [hmap, List.map_id', List.intercalate_splitOn]

theorem splitDots_of_free {s : String} (h : '.' ∉ s.toList) : splitDots s = [s] := by
  have hjoin : joinDots [s] = s := by simp [joinDots]
  rw [← hjoin, splitDots_joinDots (by simp) (by simpa [Free] using h), hjoin]

/-- Lists of names without a character are the same when they are the same joined with it. -/
theorem intercalate_inj {c : Char} {l l' : List String} (hl : l ≠ []) (hl' : l' ≠ [])
    (hfree : Free c l) (hfree' : Free c l')
    (h : (String.singleton c).intercalate l = (String.singleton c).intercalate l') : l = l' := by
  have hsplit := splitOn_intercalate hl hfree
  rw [h, splitOn_intercalate hl' hfree'] at hsplit
  exact (List.map_injective_iff.mpr fun _ _ => String.toList_inj.mp) hsplit.symm

theorem intercalate_append_last (sep : String) (l : List String) (name suffix : String) :
    sep.intercalate (l ++ [name ++ suffix]) = sep.intercalate (l ++ [name]) ++ suffix := by
  cases l with
  | nil => simp
  | cons first rest =>
    rw [String.intercalate_append_of_ne_nil (by simp) (by simp),
      String.intercalate_append_of_ne_nil (by simp) (by simp), String.intercalate_singleton,
      String.intercalate_singleton]
    simp only [String.append_assoc]

theorem joinDots_append_singleton {ns : List String} (h : ns ≠ []) (name : String) :
    joinDots (ns ++ [name]) = joinDots ns ++ "." ++ name := by
  induction ns with
  | nil => exact absurd rfl h
  | cons a ns ih =>
    cases ns with
    | nil => simp [joinDots]
    | cons b ns =>
      have hrest := ih (List.cons_ne_nil b ns)
      simp only [joinDots] at hrest ⊢
      rw [List.cons_append, List.cons_append, String.intercalate_cons_cons,
        String.intercalate_cons_cons, ← List.cons_append, hrest]
      simp only [String.append_assoc]

theorem joinDots_ne_empty {ns : List String} (h : ns ≠ []) (hident : ∀ id ∈ ns, isIdent id = true) :
    joinDots ns ≠ "" := by
  obtain ⟨a, ns, rfl⟩ := List.exists_cons_of_ne_nil h
  have ha := hident a List.mem_cons_self
  intro hempty
  have hnil : a = "" := by
    cases ns with
    | nil => simpa [joinDots] using hempty
    | cons b ns =>
      rw [joinDots, String.intercalate_cons_cons] at hempty
      simp at hempty
  rw [hnil] at ha
  exact absurd ha (by decide)

/-! ### Schemas of files -/

/-- The names that a declaration introduces are identifiers. -/
def AstTopLevel.Legal : AstTopLevel → Prop
  | .namespace value => ∀ id ∈ splitDots value, isIdent id = true
  | .enum name .. => isIdent name = true
  | .union name .. => isIdent name = true
  | .table _ name .. => isIdent name = true
  | _ => True

/-- A type that is declared in a namespace around its references. -/
structure Declared (entry : String × SchemaType) : Prop where
  key : entry.1 = joinDots entry.2.fqtn
  ident : ∀ id ∈ entry.2.fqtn, isIdent id = true
  refs : ∀ ref ∈ entry.2.refs, Free '.' ref.currentNamespace

theorem free_of_ident {l : List String} (h : ∀ id ∈ l, isIdent id = true) : Free '.' l :=
  fun s hs => not_mem_of_isIdent (h s hs) (by decide)

theorem declared_of_base {ns : Namespace} {t : SchemaType}
    (hns : ∀ id ∈ ns, isIdent id = true) (hname : isIdent t.base.name = true)
    (hbase : t.base.ns = ns) (hrefs : ∀ ref ∈ t.refs, ref.currentNamespace = ns) :
    Declared (joinDots (namespaced ns t.base.name), t) := by
  constructor
  · have hsplit := splitDots_of_free (not_mem_of_isIdent hname (c := '.') (by decide))
    simp only [namespaced, hsplit, SchemaType.fqtn, hbase]
  · intro id hid
    simp only [SchemaType.fqtn, hbase, List.mem_append, List.mem_singleton] at hid
    rcases hid with hid | rfl
    · exact hns id hid
    · exact hname
  · intro ref href
    rw [hrefs ref href]
    exact free_of_ident hns

theorem refs_extractFieldType {ns : Namespace} {ft : AstFieldType} {ref : TypeRef}
    (h : ref ∈ (extractFieldType ns ft).refs) : ref.currentNamespace = ns := by
  induction ft with
  | basic type => cases h
  | vector type ih => exact ih h
  | custom type =>
    obtain rfl := List.mem_singleton.mp h
    rfl

theorem declared_of_declaration {fbsFile relativeFbsFile : String} {ns : Namespace}
    {elm : AstTopLevel} {entry : String × SchemaType} (hns : ∀ id ∈ ns, isIdent id = true)
    (hlegal : elm.Legal) (h : declaration fbsFile relativeFbsFile ns elm = some entry) :
    Declared entry := by
  cases elm with
  | enum name baseType metadata values =>
    obtain rfl := Option.some.inj h
    have hname : isIdent name = true := hlegal
    refine declared_of_base (t := .enum ⟨name, ns, fbsFile, relativeFbsFile, metadata⟩ values) hns
      hname rfl fun ref href => ?_
    simp [SchemaType.refs, SchemaType.tableRefs, SchemaType.unionRefs] at href
  | union name metadata values =>
    obtain rfl := Option.some.inj h
    have hname : isIdent name = true := hlegal
    refine declared_of_base
      (t := unionType ⟨name, ns, fbsFile, relativeFbsFile, metadata⟩ values) hns hname rfl
      fun ref href => ?_
    simp only [SchemaType.refs, SchemaType.tableRefs, SchemaType.unionRefs, unionType,
      List.nil_append, List.mem_map, exists_exists_and_eq_and] at href
    obtain ⟨value, -, rfl⟩ := href
    rfl
  | table isStruct name metadata fields =>
    obtain rfl := Option.some.inj h
    have hname : isIdent name = true := hlegal
    refine declared_of_base
      (t := tableType ⟨name, ns, fbsFile, relativeFbsFile, metadata⟩ isStruct fields) hns hname rfl
      fun ref href => ?_
    simp only [SchemaType.refs, SchemaType.tableRefs, SchemaType.unionRefs, tableType,
      List.append_nil, List.mem_flatMap, List.mem_map, exists_exists_and_eq_and] at href
    obtain ⟨field, -, href⟩ := href
    exact refs_extractFieldType href
  | «namespace» value => cases h
  | «include» value => cases h
  | rootType type => cases h
  | «attribute» id => cases h

theorem nextNamespace_ident {ns : Namespace} {elm : AstTopLevel}
    (hns : ∀ id ∈ ns, isIdent id = true) (hlegal : elm.Legal) :
    ∀ id ∈ nextNamespace ns elm, isIdent id = true := by
  cases elm with
  | «namespace» value => exact hlegal
  | enum name baseType metadata values => exact hns
  | union name metadata values => exact hns
  | table isStruct name metadata fields => exact hns
  | «include» value => exact hns
  | rootType type => exact hns
  | «attribute» id => exact hns

theorem declared_of_mem_declaredFrom {fbsFile relativeFbsFile : String} {ns : Namespace}
    {ast : List AstTopLevel} {entry : String × SchemaType} (hns : ∀ id ∈ ns, isIdent id = true)
    (hlegal : ∀ elm ∈ ast, elm.Legal) (h : entry ∈ declaredFrom fbsFile relativeFbsFile ns ast) :
    Declared entry := by
  induction ast generalizing ns with
  | nil => cases h
  | cons elm rest ih =>
    obtain ⟨helm, hrest⟩ := List.forall_mem_cons.mp hlegal
    rcases List.mem_append.mp h with h | h
    · exact declared_of_declaration hns helm (Option.mem_toList.mp h)
    · exact ih (nextNamespace_ident hns helm) hrest h

theorem free_of_mem_rootTypesFrom {ns : Namespace} {ast : List AstTopLevel} {ref : TypeRef}
    (hns : ∀ id ∈ ns, isIdent id = true) (hlegal : ∀ elm ∈ ast, elm.Legal)
    (h : ref.unresolved ∈ rootTypesFrom ns ast) : Free '.' ref.currentNamespace := by
  induction ast generalizing ns with
  | nil => cases h
  | cons elm rest ih =>
    obtain ⟨helm, hrest⟩ := List.forall_mem_cons.mp hlegal
    rcases List.mem_append.mp h with h | h
    · have hroot := Option.mem_toList.mp h
      have hns' : ref.currentNamespace = ns := by
        cases elm <;> simp only [rootTypeOf, reduceCtorEq, Option.some.injEq] at hroot
        exact (congrArg TypeRef.currentNamespace hroot).symm
      rw [hns']
      exact free_of_ident hns
    · exact ih (nextNamespace_ident hns helm) hrest h

@[simp] theorem base_unresolved (t : SchemaType) : t.unresolved.base = t.base := by
  cases t <;> rfl

@[simp] theorem fqtn_unresolved (t : SchemaType) : t.unresolved.fqtn = t.fqtn := by
  rw [SchemaType.fqtn, base_unresolved, SchemaType.fqtn]

theorem refs_unresolved (t : SchemaType) :
    t.unresolved.refs = t.refs.map TypeRef.unresolved := by
  rw [← SchemaType.refs_mapRefs]
  cases t <;> rfl

theorem BoundTo.free {names : List String} {ref : TypeRef} {fqtn : List String}
    (h : BoundTo names ref fqtn) (hns : Free '.' ref.currentNamespace) :
    fqtn ≠ [] ∧ Free '.' fqtn := by
  obtain ⟨-, ns, hsub, rfl, -⟩ := h
  have hfree : Free '.' ns := fun s hs => hns s (hsub.subset hs)
  exact ⟨by simp [splitDots_ne_nil], free_append.mpr ⟨hfree, free_splitDots _⟩⟩

/-- What the resolver returns is resolved, when the files have identifiers for names. -/
theorem Resolved.isResolved {fs : FileSystem} {files : List String} {schema : SchemaTypes}
    (h : Resolved fs files schema) (hlegal : ∀ file ∈ files, ∀ elm ∈ fs.ast file, elm.Legal) :
    schema.IsResolved := by
  have hdeclared : ∀ entry ∈ schema.types, Declared (entry.1, entry.2.unresolved) := by
    intro entry hentry
    have hmem := List.mem_map_of_mem (f := fun entry : String × SchemaType =>
      (entry.1, entry.2.unresolved)) hentry
    rw [h.entries] at hmem
    obtain ⟨file, hfile, hmem⟩ := List.mem_flatMap.mp hmem
    exact declared_of_mem_declaredFrom (by simp) (hlegal file hfile) hmem
  have hkey : ∀ entry ∈ schema.types, entry.1 = joinDots entry.2.fqtn := fun entry hentry => by
    simpa using (hdeclared entry hentry).key
  have hident : ∀ entry ∈ schema.types, ∀ id ∈ entry.2.fqtn, isIdent id = true :=
    fun entry hentry => by simpa using (hdeclared entry hentry).ident
  have hfree : ∀ ref ∈ schema.refs, Free '.' ref.currentNamespace := by
    intro ref href
    rcases List.mem_append.mp href with href | href
    · obtain ⟨entry, hentry, href⟩ := List.mem_flatMap.mp href
      refine (hdeclared entry hentry).refs ref.unresolved ?_
      rw [refs_unresolved]
      exact List.mem_map_of_mem href
    · have hroot := h.rootType
      rw [Option.mem_toList.mp href] at hroot
      obtain ⟨file, hfile, hmem⟩ := List.mem_flatMap.mp (List.mem_of_getLast? hroot.symm)
      exact @free_of_mem_rootTypesFrom [] _ _ (by simp) (hlegal file hfile) hmem
  refine ⟨h.nodup, hkey, hident, fun ref href => ?_, h.usedInTable, h.usedInUnion⟩
  have hbound := h.bound ref href
  obtain ⟨hne, hdots⟩ := hbound.free (hfree ref href)
  obtain ⟨entry, hentry, heq⟩ := List.mem_map.mp hbound.mem
  refine ⟨entry, hentry, ?_⟩
  rw [hkey entry hentry] at heq
  exact (intercalate_inj (c := '.') (by simp [SchemaType.fqtn]) hne
    (free_of_ident (hident entry hentry)) hdots heq).symm

end Motis.Protocol
