import Motis.Protocol.TypeScriptNames

/-! Imports of TypeScript modules.

    The names of a type of another namespace are added to the import of this namespace:

        refs   b.T, c.S, b.U      ──▶      b ↦ [T, U, UType], c ↦ [S] -/

namespace Motis.Protocol.TypeScript

/-- The names of a type, as they are imported. -/
def importNames (target : String × SchemaType) : List String := (namesOf target).map (·.name)

/-- A type is referred to. -/
def RefersTo (refs : List TypeRef) (target : String × SchemaType) : Prop :=
  ∃ ref ∈ refs, ref.key = target.1

theorem mem_foldl_addName {names types : List String} {name : String} :
    name ∈ names.foldl addName types ↔ name ∈ types ∨ name ∈ names := by
  induction names generalizing types with
  | nil => simp
  | cons first names ih =>
    rw [List.foldl_cons, ih, List.mem_cons, ← or_assoc]
    refine or_congr_left ?_
    rw [addName]
    split_ifs with hmem
    · exact ⟨.inl, fun h => h.elim id fun heq => heq ▸ hmem⟩
    · rw [List.mem_append, List.mem_singleton]

theorem nodup_foldl_addName {names types : List String} (h : types.Nodup) :
    (names.foldl addName types).Nodup := by
  induction names generalizing types with
  | nil => exact h
  | cons first names ih =>
    refine ih ?_
    rw [addName]
    split_ifs with hmem
    · exact h
    · exact List.nodup_append.mpr ⟨h, List.nodup_singleton _, by
        rintro a ha b hb rfl
        exact hmem (List.mem_singleton.mp hb ▸ ha)⟩

section Includes

variable {ctx : TSContext} (hresolved : ctx.schema.IsResolved)
  (hall : ctx.types = ctx.schema.types.names) {file : TSFile}

theorem handleFieldType_eq (includes : TSIncludes) (type : FieldType) :
    handleFieldType ctx file includes type = type.refs.foldlM (handleTypeRef ctx file) includes := by
  induction type with
  | basic type => rfl
  | vector type ih => exact ih
  | custom ref =>
    rw [FieldType.refs, List.foldlM_cons]
    exact (bind_pure _).symm

include hresolved

include hall in
theorem handleTypeRef_eq (includes : TSIncludes) {ref : TypeRef} {target : String × SchemaType}
    (htarget : target ∈ ctx.schema.types) (hfqtn : ref.resolvedFqtn = target.2.fqtn)
    (hkey : ref.key = target.1) :
    handleTypeRef ctx file includes ref = .ok (
      if joinDots target.2.base.ns = file.namespace then includes
      else
        let i := (includes.lookup (joinDots target.2.base.ns)).getD
          ⟨getFilename ctx.outputDir target.2.base.ns, []⟩
        InsertionMap.set includes (joinDots target.2.base.ns)
          { i with types := (importNames target).foldl addName i.types }) := by
  have hns : ref.resolvedFqtn.dropLast = target.2.base.ns := by
    rw [hfqtn, SchemaType.fqtn, List.dropLast_concat]
  have hname : lastName ref.resolvedFqtn = target.2.base.name :=
    congrArg TSName.name (typeName_eq hfqtn hkey)
  have hget : ctx.schema.types.get (joinDots ref.resolvedFqtn) = some target.2 := by
    rw [← TypeRef.key, hkey]
    exact get_of_mem hresolved htarget
  have hmem : joinDots ref.resolvedFqtn ∈ ctx.types := by
    rw [hall, ← TypeRef.key, hkey]
    exact List.mem_map_of_mem htarget
  rw [handleTypeRef, hns, hname, hget]
  by_cases hfile : joinDots target.2.base.ns = file.namespace
  · rw [if_pos (.inl hfile), if_pos hfile]
  · rw [if_neg (not_or.mpr ⟨hfile, not_not.mpr hmem⟩), if_neg hfile]
    obtain ⟨key, t⟩ := target
    cases t <;> rfl

/-- What is included for some references: the names of what they refer to in other namespaces. -/
structure Collected (ctx : TSContext) (file : TSFile) (refs : List TypeRef) (includes : TSIncludes) :
    Prop where
  nodup : (includes.map (·.1)).Nodup
  entry : ∀ ns i, includes.lookup ns = some i → i.types.Nodup ∧
    ∃ target ∈ ctx.schema.types, joinDots target.2.base.ns = ns ∧
      i.filename = getFilename ctx.outputDir target.2.base.ns
  mem : ∀ ns name, (∃ i, includes.lookup ns = some i ∧ name ∈ i.types) ↔ ns ≠ file.namespace ∧
    ∃ target ∈ ctx.schema.types, RefersTo refs target ∧ joinDots target.2.base.ns = ns ∧
      name ∈ importNames target

theorem refersTo_concat {refs : List TypeRef} {ref : TypeRef} {target : String × SchemaType}
    (htarget : target ∈ ctx.schema.types) (hkey : ref.key = target.1) (P : String × SchemaType → Prop) :
    (∃ target' ∈ ctx.schema.types, RefersTo (refs ++ [ref]) target' ∧ P target') ↔
      (∃ target' ∈ ctx.schema.types, RefersTo refs target' ∧ P target') ∨ P target := by
  constructor
  · rintro ⟨target', htarget', ⟨ref', href', hkey'⟩, hP⟩
    rcases List.mem_append.mp href' with hmem | hmem
    · exact .inl ⟨target', htarget', ⟨ref', hmem, hkey'⟩, hP⟩
    · obtain rfl := List.mem_singleton.mp hmem
      rw [entry_unique hresolved htarget htarget' (hkey.symm.trans hkey')]
      exact .inr hP
  · rintro (⟨target', htarget', ⟨ref', href', hkey'⟩, hP⟩ | hP)
    · exact ⟨target', htarget', ⟨ref', List.mem_append_left _ href', hkey'⟩, hP⟩
    · exact ⟨target, htarget, ⟨ref, List.mem_append_right _ List.mem_cons_self, hkey⟩, hP⟩

include hall in
/-- One more reference. -/
theorem Collected.concat {refs : List TypeRef} {includes : TSIncludes}
    (h : Collected ctx file refs includes) {ref : TypeRef} (href : ref ∈ ctx.schema.refs) :
    ∃ includes', handleTypeRef ctx file includes ref = .ok includes' ∧
      Collected ctx file (refs ++ [ref]) includes' := by
  obtain ⟨target, htarget, hfqtn, hkey⟩ := bound_entry hresolved href
  refine ⟨_, handleTypeRef_eq hresolved hall includes htarget hfqtn hkey, ?_⟩
  generalize hns : joinDots target.2.base.ns = ns
  have hmem : ∀ ns' name, (∃ target' ∈ ctx.schema.types, RefersTo (refs ++ [ref]) target' ∧
      joinDots target'.2.base.ns = ns' ∧ name ∈ importNames target') ↔
        (∃ target' ∈ ctx.schema.types, RefersTo refs target' ∧
          joinDots target'.2.base.ns = ns' ∧ name ∈ importNames target') ∨
            ns = ns' ∧ name ∈ importNames target := by
    intro ns' name
    rw [← hns]
    exact refersTo_concat hresolved htarget hkey _
  split_ifs with hfile
  · refine ⟨h.nodup, h.entry, fun ns' name => ?_⟩
    rw [h.mem, hmem]
    refine and_congr_right fun hne => (or_iff_left fun hself => ?_).symm
    exact hne (hself.1.symm.trans hfile)
  · generalize hi : (includes.lookup ns).getD ⟨getFilename ctx.outputDir target.2.base.ns, []⟩ = i
    have hold : i.types.Nodup ∧ (∃ target ∈ ctx.schema.types, joinDots target.2.base.ns = ns ∧
        i.filename = getFilename ctx.outputDir target.2.base.ns) ∧
          ∀ name, name ∈ i.types ↔ ∃ i', includes.lookup ns = some i' ∧ name ∈ i'.types := by
      cases hlookup : includes.lookup ns with
      | none =>
        rw [hlookup, Option.getD_none] at hi
        rw [← hi]
        exact ⟨List.nodup_nil, ⟨target, htarget, hns, rfl⟩, fun name => by simp⟩
      | some i' =>
        rw [hlookup, Option.getD_some] at hi
        obtain ⟨hnodup, hfilename⟩ := h.entry ns i' hlookup
        rw [← hi]
        exact ⟨hnodup, hfilename, fun name => by simp⟩
    obtain ⟨hnodup, hfilename, hnames⟩ := hold
    refine ⟨InsertionMap.nodup_set h.nodup _ _, fun ns' i' hlookup => ?_, fun ns' name => ?_⟩
    · by_cases heq : ns' = ns
      · rw [heq, InsertionMap.lookup_set_self] at hlookup
        obtain rfl := Option.some.inj hlookup
        rw [heq]
        exact ⟨nodup_foldl_addName hnodup, hfilename⟩
      · rw [InsertionMap.lookup_set_of_ne heq] at hlookup
        exact h.entry ns' i' hlookup
    · rw [hmem]
      by_cases heq : ns' = ns
      · rw [heq, InsertionMap.lookup_set_self]
        simp only [Option.some.injEq, exists_eq_left', mem_foldl_addName, hnames, h.mem, true_and]
        rw [and_iff_right hfile, and_iff_right hfile]
      · rw [InsertionMap.lookup_set_of_ne heq, h.mem]
        refine and_congr_right fun _ => (or_iff_left fun hself => ?_).symm
        exact heq hself.1.symm

include hall in
theorem Collected.append {refs refs' : List TypeRef} {includes : TSIncludes}
    (h : Collected ctx file refs includes) (hrefs : ∀ ref ∈ refs', ref ∈ ctx.schema.refs) :
    ∃ includes', refs'.foldlM (handleTypeRef ctx file) includes = .ok includes' ∧
      Collected ctx file (refs ++ refs') includes' := by
  induction refs' generalizing refs includes with
  | nil => exact ⟨includes, rfl, by rwa [List.append_nil]⟩
  | cons ref refs' ih =>
    obtain ⟨href, hrest⟩ := List.forall_mem_cons.mp hrefs
    obtain ⟨includes', hfirst, h'⟩ := h.concat hresolved hall href
    obtain ⟨includes'', hrun, h''⟩ := ih h' hrest
    rw [List.append_assoc] at h''
    exact ⟨includes'', by rw [List.foldlM_cons, hfirst]; exact hrun, h''⟩

theorem handleType_eq (includes : TSIncludes) {entry : String × SchemaType}
    (h : entry ∈ ctx.schema.types) :
    handleType ctx file includes entry.1 =
      entry.2.refs.foldlM (handleTypeRef ctx file) includes := by
  rw [handleType, get_of_mem hresolved h]
  obtain ⟨key, t⟩ := entry
  cases t with
  | enum base values => rfl
  | union base values => exact List.foldlM_map.symm
  | table t =>
    simp only [handleFieldType_eq, SchemaType.refs, SchemaType.tableRefs, SchemaType.unionRefs,
      List.append_nil, Fallible.foldlM_flatMap]

include hall in
/-- The types of a file are handled one after the other. -/
theorem collectIncludes_spec {entries : TypeMap} (hentries : ∀ entry ∈ entries, entry ∈ ctx.schema.types)
    (htypes : file.types = entries.map (·.1)) :
    ∃ includes, collectIncludes ctx file = .ok includes ∧
      Collected ctx file (entries.flatMap fun entry => entry.2.refs) includes := by
  have hnil : Collected ctx file [] [] :=
    ⟨List.nodup_nil, nofun, fun ns name => by simp [RefersTo]⟩
  have hrefs : ∀ ref ∈ entries.flatMap fun entry => entry.2.refs, ref ∈ ctx.schema.refs := by
    intro ref href
    obtain ⟨entry, hentry, href⟩ := List.mem_flatMap.mp href
    exact mem_refs (hentries entry hentry) href
  obtain ⟨includes, hrun, hcollected⟩ := hnil.append hresolved hall hrefs
  refine ⟨includes, ?_, hcollected⟩
  rw [← hrun, collectIncludes, htypes, List.foldlM_map, Fallible.foldlM_flatMap]
  exact Fallible.foldlM_congr (fun entry hentry includes =>
    handleType_eq hresolved includes (hentries entry hentry)) []

end Includes

end Motis.Protocol.TypeScript
