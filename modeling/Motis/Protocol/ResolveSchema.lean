import Mathlib.Data.Set.Finite.Basic
import Motis.Protocol.Resolution

/-! What `resolveSchemaTypes` computes, whatever the include graph is.

    Every file that can be reached is read once, also in a cycle. Either two declarations have the
    same name, or a reference has no declaration, or the schema has one entry for each declaration.
    The order of include lines is the order of the entries, and decides between root types:

        root: include a; include b;      a: root_type A;      b: root_type B;      ──▶   B -/

namespace Motis.Protocol
open Traversal

/-- The reachable files, in the order their types are registered. -/
structure FilesOf (fs : FileSystem) (rootFile : String) (files : List String) : Prop where
  nodup : files.Nodup
  mem_iff : ∀ file, file ∈ files ↔ Reachable fs.succ rootFile file
  last : files.getLast? = some rootFile

/-- Each reachable file is read once. -/
def ReadOnce (fs : FileSystem) (rootFile : String) (reads : List String) : Prop :=
  reads.Nodup ∧ ∀ file, file ∈ reads ↔ Reachable fs.succ rootFile file

/-- The schema that is declared in files, before its references are bound. -/
def FileSystem.schema (fs : FileSystem) (files : List String) : SchemaTypes where
  types := files.flatMap fs.declared
  rootType := (files.flatMap fs.rootTypes).getLast?

def TypeRef.unresolved (ref : TypeRef) : TypeRef := { ref with resolvedFqtn := [] }

/-- A type as it was declared. -/
def SchemaType.unresolved (t : SchemaType) : SchemaType :=
  (t.mapRefs TypeRef.unresolved).onTable fun t =>
    { t with usedInUnion := false, usedInTable := false }

/-- The entries are the declarations of the files, every reference is bound, and the tables that
    references are bound to are marked. -/
structure Resolved (fs : FileSystem) (files : List String) (schema : SchemaTypes) : Prop where
  nodup : schema.types.names.Nodup
  entries : schema.types.map (fun entry => (entry.1, entry.2.unresolved)) =
    files.flatMap fs.declared
  rootType : schema.rootType.map TypeRef.unresolved = (files.flatMap fs.rootTypes).getLast?
  bound : ∀ ref ∈ schema.refs, BoundTo schema.types.names ref ref.resolvedFqtn
  usedInTable : ∀ key t, (key, SchemaType.table t) ∈ schema.types → (t.usedInTable = true ↔
    (∃ entry ∈ schema.types, ∃ ref ∈ entry.2.tableRefs, ref.key = key) ∨
      ∃ ref, schema.rootType = some ref ∧ ref.key = key)
  usedInUnion : ∀ key t, (key, SchemaType.table t) ∈ schema.types → (t.usedInUnion = true ↔
    ∃ entry ∈ schema.types, ∃ ref ∈ entry.2.unionRefs, ref.key = key)

/-- The schema, or what is thrown: one of two declarations with the same name, or a reference without
    a declaration. -/
def Correct (fs : FileSystem) (rootFile : String) :
    EStateM.Result ResolveError ResolverContext SchemaTypes → Prop
  | .ok schema ctx => ReadOnce fs rootFile ctx.reads ∧
      ∃ files, FilesOf fs rootFile files ∧ Resolved fs files schema
  | .error (.typeAlreadyDefined key) ctx =>
      (ctx.reads.Nodup ∧ ∀ file ∈ ctx.reads, Reachable fs.succ rootFile file) ∧
      ∃ files, FilesOf fs rootFile files ∧ Twice key (files.flatMap fs.declared)
  | .error (.unknownType input _) ctx => ReadOnce fs rootFile ctx.reads ∧
      ∃ files, FilesOf fs rootFile files ∧ (fs.schema files).types.names.Nodup ∧
        ∃ ref ∈ (fs.schema files).refs, ref.input = input ∧
          Unbound (fs.schema files).types.names ref
  | .error _ _ => False

/-! ### The run -/

/-- How a run ends, by the schema that is declared. -/
inductive Ends (schema : SchemaTypes) (entered : List String)
    (r : EStateM.Result ResolveError ResolverContext SchemaTypes) : Prop
  | twice (key : String) (ctx : ResolverContext) : Twice key schema.types →
      ctx.reads <+: entered → r = .error (.typeAlreadyDefined key) ctx → Ends schema entered r
  | unknown (ref : TypeRef) (file : String) (ctx : ResolverContext) : schema.types.names.Nodup →
      ref ∈ schema.refs → Unbound schema.types.names ref → ctx.reads = entered →
      r = .error (.unknownType ref.input file) ctx → Ends schema entered r
  | bound (ctx : ResolverContext) : schema.types.names.Nodup →
      (∀ ref ∈ schema.refs, ¬ Unbound schema.types.names ref) → ctx.reads = entered →
      r = .ok schema.bound ctx → Ends schema entered r

theorem resolveSchemaTypes_run {fs : FileSystem} {fuel : ℕ} {rootFile : String}
    {events : List (Event String)} (hread : fs.Readable rootFile)
    (hvisit : visit fs.succ fuel [] rootFile = some events) :
    Ends (fs.schema (left events)) (entered events) (resolveSchemaTypes fs fuel rootFile) := by
  have hfile := @resolveFile_run fs fuel rootFile events { currentFile := rootFile } hread
    List.nodup_nil hvisit
  have hran := @runEvents fs events { currentFile := rootFile } List.nodup_nil
  rw [resolveSchemaTypes, run_bind, hfile]
  rcases hran with ⟨currentFile, hnodup, hrun⟩ | ⟨key, ctx', htwice, hreads, hrun⟩
  · rw [hrun]
    set ctx : ResolverContext :=
      { schema := SchemaTypes.register {} ((left events).flatMap fs.declared)
          ((left events).flatMap fs.rootTypes)
        files := [] ++ entered events
        currentFile := currentFile
        reads := [] ++ entered events } with hctx
    have hschema : ctx.schema = fs.schema (left events) := by
      simp [hctx, SchemaTypes.register, FileSystem.schema]
    have hreads : ctx.reads = entered events := rfl
    have htypes := resolveTypes_run ctx (by rw [hschema]; exact hnodup)
    rw [hschema] at htypes
    rcases htypes with ⟨hbound, hrun⟩ | ⟨ref, ctx', hmem, hunbound, hctx', hrun⟩
    · refine .bound { ctx with schema := (fs.schema (left events)).bound } hnodup hbound hreads ?_
      simp only [run_bind, hrun, run_get, run_pure]
    · refine .unknown ref ctx.currentFile ctx' hnodup hmem hunbound (hctx'.trans hreads) ?_
      simp only [run_bind, hrun]
  · rw [hrun]
    exact .twice key ctx' htwice hreads rfl

/-! ### The schema is right -/

@[simp] theorem unresolved_bindRef (types : TypeMap) (ref : TypeRef) :
    (bindRef types ref).unresolved = ref.unresolved := rfl

theorem FieldType.mapRefs_mapRefs (f g : TypeRef → TypeRef) (ft : FieldType) :
    (ft.mapRefs f).mapRefs g = ft.mapRefs (g ∘ f) := by
  induction ft with
  | basic type => rfl
  | vector type ih => simp [mapRefs, ih]
  | custom ref => rfl

theorem SchemaType.mapRefs_mapRefs (f g : TypeRef → TypeRef) (t : SchemaType) :
    (t.mapRefs f).mapRefs g = t.mapRefs (g ∘ f) := by
  cases t <;> simp [mapRefs, FieldType.mapRefs_mapRefs]

theorem FieldType.refs_mapRefs (f : TypeRef → TypeRef) (ft : FieldType) :
    (ft.mapRefs f).refs = ft.refs.map f := by
  induction ft with
  | basic type => rfl
  | vector type ih => simp [mapRefs, refs, ih]
  | custom ref => rfl

theorem SchemaType.tableRefs_mapRefs (f : TypeRef → TypeRef) (t : SchemaType) :
    (t.mapRefs f).tableRefs = t.tableRefs.map f := by
  cases t with
  | table t => simp [mapRefs, tableRefs, FieldType.refs_mapRefs, List.map_flatMap, List.flatMap_map]
  | enum base values => rfl
  | union base values => rfl

theorem SchemaType.unionRefs_mapRefs (f : TypeRef → TypeRef) (t : SchemaType) :
    (t.mapRefs f).unionRefs = t.unionRefs.map f := by
  cases t <;> simp [mapRefs, unionRefs]

theorem SchemaType.refs_mapRefs (f : TypeRef → TypeRef) (t : SchemaType) :
    (t.mapRefs f).refs = t.refs.map f := by
  rw [refs, refs, tableRefs_mapRefs, unionRefs_mapRefs, List.map_append]

@[simp] theorem tableRefs_markType (marks : List Mark) (key : String) (t : SchemaType) :
    (markType marks key t).tableRefs = t.tableRefs := by
  cases t <;> rfl

@[simp] theorem unionRefs_markType (marks : List Mark) (key : String) (t : SchemaType) :
    (markType marks key t).unionRefs = t.unionRefs := by
  cases t <;> rfl

@[simp] theorem refs_markType (marks : List Mark) (key : String) (t : SchemaType) :
    (markType marks key t).refs = t.refs := by
  cases t <;> rfl

@[simp] theorem unresolved_markType (marks : List Mark) (key : String) (t : SchemaType) :
    (markType marks key t).unresolved = t.unresolved := by
  cases t <;> rfl

theorem unresolved_mapRefs_bindRef (types : TypeMap) (t : SchemaType) :
    (t.mapRefs (bindRef types)).unresolved = t.unresolved := by
  rw [SchemaType.unresolved, SchemaType.mapRefs_mapRefs]
  rfl

/-- What is extracted from a file is as it was declared. -/
theorem unresolved_of_declaration {fbsFile relativeFbsFile : String} {ns : Namespace}
    {elm : AstTopLevel} {entry : String × SchemaType}
    (h : declaration fbsFile relativeFbsFile ns elm = some entry) :
    entry.2.unresolved = entry.2 := by
  have hfield : ∀ ft : AstFieldType, (extractFieldType ns ft).mapRefs TypeRef.unresolved =
      extractFieldType ns ft := by
    intro ft
    induction ft with
    | basic type => rfl
    | vector type ih => simp [extractFieldType, FieldType.mapRefs, ih]
    | custom type => rfl
  cases elm with
  | enum name baseType metadata values =>
    obtain rfl := Option.some.inj h
    rfl
  | union name metadata values =>
    obtain rfl := Option.some.inj h
    simp [SchemaType.unresolved, unionType, SchemaType.mapRefs, SchemaType.onTable, extractType,
      TypeRef.unresolved]
  | table isStruct name metadata fields =>
    obtain rfl := Option.some.inj h
    simp [SchemaType.unresolved, tableType, SchemaType.mapRefs, SchemaType.onTable, hfield]
  | «namespace» value => cases h
  | «include» value => cases h
  | rootType type => cases h
  | «attribute» id => cases h

theorem unresolved_of_mem_declaredFrom {fbsFile relativeFbsFile : String} {ns : Namespace}
    {ast : List AstTopLevel} {entry : String × SchemaType}
    (h : entry ∈ declaredFrom fbsFile relativeFbsFile ns ast) : entry.2.unresolved = entry.2 := by
  induction ast generalizing ns with
  | nil => cases h
  | cons elm rest ih =>
    rcases List.mem_append.mp h with h | h
    · exact unresolved_of_declaration (Option.mem_toList.mp h)
    · exact ih h

theorem unresolved_of_mem_rootTypesFrom {ns : Namespace} {ast : List AstTopLevel} {ref : TypeRef}
    (h : ref ∈ rootTypesFrom ns ast) : ref.unresolved = ref := by
  induction ast generalizing ns with
  | nil => cases h
  | cons elm rest ih =>
    rcases List.mem_append.mp h with h | h
    · cases elm with
      | rootType type =>
        obtain rfl := Option.some.inj (Option.mem_toList.mp h)
        rfl
      | enum name baseType metadata values => cases h
      | union name metadata values => cases h
      | table isStruct name metadata fields => cases h
      | «namespace» value => cases h
      | «include» value => cases h
      | «attribute» id => cases h
    · exact ih h

theorem unresolved_of_mem_schema {fs : FileSystem} {files : List String}
    {entry : String × SchemaType} (h : entry ∈ (fs.schema files).types) :
    entry.2.unresolved = entry.2 := by
  obtain ⟨file, -, hmem⟩ := List.mem_flatMap.mp h
  exact unresolved_of_mem_declaredFrom hmem

theorem mem_bound_types {schema : SchemaTypes} {entry : String × SchemaType} :
    entry ∈ schema.bound.types ↔ ∃ entry' ∈ schema.types, entry = (entry'.1,
      markType ((schema.types.map (boundType schema.types)).flatMap (fun entry => entry.2.marks) ++
        (schema.rootType.map (bindRef schema.types)).toList.map fun ref => .table ref.key) entry'.1
        (entry'.2.mapRefs (bindRef schema.types))) := by
  simp only [SchemaTypes.bound, markTypes, List.mem_map, exists_exists_and_eq_and, boundType]
  constructor <;> rintro ⟨entry', hmem, h⟩ <;> exact ⟨entry', hmem, h.symm⟩

theorem names_bound (schema : SchemaTypes) : schema.bound.types.names = schema.types.names := by
  simp [SchemaTypes.bound]

theorem mem_refs_bound {schema : SchemaTypes} {ref : TypeRef} :
    ref ∈ schema.bound.refs ↔ ∃ ref' ∈ schema.refs, ref = bindRef schema.types ref' := by
  simp only [SchemaTypes.refs, List.mem_append, List.mem_flatMap, mem_bound_types, Option.mem_toList]
  constructor
  · rintro (⟨_, ⟨entry, hentry, rfl⟩, href⟩ | hroot)
    · rw [refs_markType, SchemaType.refs_mapRefs] at href
      obtain ⟨ref', href', rfl⟩ := List.mem_map.mp href
      exact ⟨ref', .inl ⟨entry, hentry, href'⟩, rfl⟩
    · obtain ⟨ref', href', rfl⟩ := Option.map_eq_some_iff.mp hroot
      exact ⟨ref', .inr href', rfl⟩
  · rintro ⟨ref', ⟨entry, hentry, href'⟩ | hroot, rfl⟩
    · refine .inl ⟨_, ⟨entry, hentry, rfl⟩, ?_⟩
      rw [refs_markType, SchemaType.refs_mapRefs]
      exact List.mem_map_of_mem href'
    · exact .inr (Option.map_eq_some_iff.mpr ⟨ref', hroot, rfl⟩)

/-- The marks that name a table are those of the references that are bound to it. -/
theorem table_mem_marks {schema : SchemaTypes} {key : String} :
    Mark.table key ∈ (schema.types.map (boundType schema.types)).flatMap (fun entry => entry.2.marks) ++
        (schema.rootType.map (bindRef schema.types)).toList.map (fun ref => .table ref.key) ↔
      (∃ entry ∈ schema.bound.types, ∃ ref ∈ entry.2.tableRefs, ref.key = key) ∨
        ∃ ref, schema.bound.rootType = some ref ∧ ref.key = key := by
  rw [List.mem_append]
  refine or_congr ?_ ?_
  · simp only [List.mem_flatMap, List.mem_map, exists_exists_and_eq_and, mem_bound_types]
    constructor
    · rintro ⟨entry, hentry, hmark⟩
      refine ⟨_, ⟨entry, hentry, rfl⟩, ?_⟩
      simpa [SchemaType.marks, boundType] using hmark
    · rintro ⟨_, ⟨entry, hentry, rfl⟩, href⟩
      refine ⟨entry, hentry, ?_⟩
      simpa [SchemaType.marks, boundType] using href
  · simp [SchemaTypes.bound]

theorem union_mem_marks {schema : SchemaTypes} {key : String} :
    Mark.union key ∈ (schema.types.map (boundType schema.types)).flatMap (fun entry => entry.2.marks) ++
        (schema.rootType.map (bindRef schema.types)).toList.map (fun ref => .table ref.key) ↔
      ∃ entry ∈ schema.bound.types, ∃ ref ∈ entry.2.unionRefs, ref.key = key := by
  rw [List.mem_append]
  constructor
  · rintro (hmark | hmark)
    · simp only [List.mem_flatMap, List.mem_map, exists_exists_and_eq_and] at hmark
      obtain ⟨entry, hentry, hmark⟩ := hmark
      refine ⟨_, mem_bound_types.mpr ⟨entry, hentry, rfl⟩, ?_⟩
      simpa [SchemaType.marks, boundType] using hmark
    · simp at hmark
  · rintro ⟨_, hmem, href⟩
    obtain ⟨entry, hentry, rfl⟩ := mem_bound_types.mp hmem
    refine .inl (List.mem_flatMap.mpr ⟨_, List.mem_map_of_mem hentry, ?_⟩)
    simpa [SchemaType.marks, boundType] using href

/-- When no reference is unknown, the bound schema is resolved. -/
theorem resolved_bound {fs : FileSystem} {files : List String}
    (hnodup : (fs.schema files).types.names.Nodup)
    (hbound : ∀ ref ∈ (fs.schema files).refs, ¬ Unbound (fs.schema files).types.names ref) :
    Resolved fs files (fs.schema files).bound := by
  have hflags : ∀ key t, (key, SchemaType.table t) ∈ (fs.schema files).types →
      t.usedInTable = false ∧ t.usedInUnion = false := by
    intro key t hmem
    have hunresolved := unresolved_of_mem_schema hmem
    simp only [SchemaType.unresolved, SchemaType.mapRefs, SchemaType.onTable,
      SchemaType.table.injEq] at hunresolved
    rw [← hunresolved]
    exact ⟨rfl, rfl⟩
  constructor
  · rwa [names_bound]
  · have hentries : (fs.schema files).types = files.flatMap fs.declared := rfl
    rw [← hentries, SchemaTypes.bound, markTypes, List.map_map, List.map_map]
    refine (List.map_congr_left fun entry hmem => ?_).trans (List.map_id _)
    simp [boundType, unresolved_mapRefs_bindRef, unresolved_of_mem_schema hmem]
  · have hroot : (fs.schema files).rootType = (files.flatMap fs.rootTypes).getLast? := rfl
    rw [SchemaTypes.bound, hroot]
    cases hlast : (files.flatMap fs.rootTypes).getLast? with
    | none => rfl
    | some ref =>
      obtain ⟨file, -, hmem⟩ := List.mem_flatMap.mp (List.mem_of_getLast? hlast)
      simp [unresolved_of_mem_rootTypesFrom hmem]
  · intro ref href
    obtain ⟨ref', href', rfl⟩ := mem_refs_bound.mp href
    rw [names_bound]
    rcases lookupType_bound (fs.schema files).types ref' with ⟨hun, -⟩ | ⟨⟨hmem, hinner⟩, -⟩
    · exact absurd hun (hbound ref' href')
    · exact ⟨hmem, hinner⟩
  · intro key t hmem
    obtain ⟨entry, hentry, heq⟩ := mem_bound_types.mp hmem
    obtain ⟨key', t'⟩ := entry
    rw [Prod.mk.injEq] at heq
    obtain ⟨rfl, ht⟩ := heq
    rw [← table_mem_marks]
    cases t' with
    | table t' =>
      simp only [SchemaType.mapRefs, markType, SchemaType.onTable, SchemaType.table.injEq] at ht
      rw [ht]
      simp [(hflags _ _ hentry).1]
    | enum base values => cases ht
    | union base values => cases ht
  · intro key t hmem
    obtain ⟨entry, hentry, heq⟩ := mem_bound_types.mp hmem
    obtain ⟨key', t'⟩ := entry
    rw [Prod.mk.injEq] at heq
    obtain ⟨rfl, ht⟩ := heq
    rw [← union_mem_marks]
    cases t' with
    | table t' =>
      simp only [SchemaType.mapRefs, markType, SchemaType.onTable, SchemaType.table.injEq] at ht
      rw [ht]
      simp [(hflags _ _ hentry).2]
    | enum base values => cases ht
    | union base values => cases ht

theorem filesOf_left {fs : FileSystem} {fuel : ℕ} {rootFile : String} {events : List (Event String)}
    (hvisit : visit fs.succ fuel [] rootFile = some events) :
    FilesOf fs rootFile (left events) ∧ ReadOnce fs rootFile (entered events) := by
  obtain ⟨hnodup, hmem, hperm, hlast⟩ := visit_reaches hvisit
  exact ⟨⟨hperm.nodup_iff.mpr hnodup, fun file => hperm.mem_iff.trans (hmem file), hlast⟩,
    hnodup, hmem⟩

theorem Ends.correct {fs : FileSystem} {rootFile : String} {events : List (Event String)}
    {r : EStateM.Result ResolveError ResolverContext SchemaTypes}
    (hfiles : FilesOf fs rootFile (left events)) (hreads : ReadOnce fs rootFile (entered events))
    (h : Ends (fs.schema (left events)) (entered events) r) : Correct fs rootFile r := by
  cases h with
  | twice key ctx htwice hsub hrun =>
    rw [hrun]
    refine ⟨⟨hsub.sublist.nodup hreads.1, fun file hfile => ?_⟩, left events, hfiles, htwice⟩
    exact (hreads.2 file).mp (hsub.subset hfile)
  | unknown ref file ctx hnodup href hunbound hctx hrun =>
    rw [hrun]
    exact ⟨hctx ▸ hreads, left events, hfiles, hnodup, ref, href, rfl, hunbound⟩
  | bound ctx hnodup hbound hctx hrun =>
    rw [hrun]
    exact ⟨hctx ▸ hreads, left events, hfiles, resolved_bound hnodup hbound⟩

/-! ### The order of include lines -/

def AstTopLevel.isInclude : AstTopLevel → Bool
  | .include _ => true
  | _ => false

/-- The include lines are in another order, or at other places; the rest is the same. -/
structure AstReordered (ast ast' : List AstTopLevel) : Prop where
  includes : (ast.filter AstTopLevel.isInclude).Perm (ast'.filter AstTopLevel.isInclude)
  rest : (ast.filter fun elm => !elm.isInclude) = ast'.filter fun elm => !elm.isInclude

structure Reordered (fs fs' : FileSystem) : Prop where
  existsSync : fs'.existsSync = fs.existsSync
  resolve : fs'.resolve = fs.resolve
  relative : fs'.relative = fs.relative
  parse : ∀ file, Option.Rel AstReordered (fs.parse file) (fs'.parse file)

/-- The root file declares a root type, or only one of the reachable files does. -/
def RootTypeFixed (fs : FileSystem) (rootFile : String) : Prop :=
  fs.rootTypes rootFile ≠ [] ∨
    ∀ file file', Reachable fs.succ rootFile file → Reachable fs.succ rootFile file' →
      fs.rootTypes file ≠ [] → fs.rootTypes file' ≠ [] → file = file'

/-- The same schema up to the order of its entries, or an error of the same kind. -/
def SameResult : EStateM.Result ResolveError ResolverContext SchemaTypes →
    EStateM.Result ResolveError ResolverContext SchemaTypes → Prop
  | .ok schema _, .ok schema' _ =>
      schema.types.Perm schema'.types ∧ schema.rootType = schema'.rootType
  | .error (.typeAlreadyDefined _) _, .error (.typeAlreadyDefined _) _ => True
  | .error (.unknownType _ _) _, .error (.unknownType _ _) _ => True
  | _, _ => False

theorem declaredFrom_filter (fbsFile relativeFbsFile : String) (ns : Namespace)
    (ast : List AstTopLevel) : declaredFrom fbsFile relativeFbsFile ns ast =
      declaredFrom fbsFile relativeFbsFile ns (ast.filter fun elm => !elm.isInclude) := by
  induction ast generalizing ns with
  | nil => rfl
  | cons elm rest ih =>
    cases elm <;>
      simp [declaredFrom, AstTopLevel.isInclude, declaration, nextNamespace, ih]

theorem rootTypesFrom_filter (ns : Namespace) (ast : List AstTopLevel) :
    rootTypesFrom ns ast = rootTypesFrom ns (ast.filter fun elm => !elm.isInclude) := by
  induction ast generalizing ns with
  | nil => rfl
  | cons elm rest ih =>
    cases elm <;> simp [rootTypesFrom, AstTopLevel.isInclude, rootTypeOf, nextNamespace, ih]

theorem includes_filter (fs : FileSystem) (ast : List AstTopLevel) :
    fs.includes ast = fs.includes (ast.filter AstTopLevel.isInclude) := by
  induction ast with
  | nil => rfl
  | cons elm rest ih =>
    simp only [FileSystem.includes] at ih ⊢
    cases elm <;> simp [List.filter_cons, AstTopLevel.isInclude, ih]

namespace Reordered
variable {fs fs' : FileSystem} (h : Reordered fs fs')
include h

theorem ast (file : String) : AstReordered (fs.ast file) (fs'.ast file) := by
  have hparse := h.parse file
  rw [FileSystem.ast, FileSystem.ast]
  cases hfs : fs.parse file with
  | none =>
    rw [hfs] at hparse
    cases hfs' : fs'.parse file with
    | none => exact ⟨.nil, rfl⟩
    | some ast' =>
      rw [hfs'] at hparse
      cases hparse
  | some ast =>
    rw [hfs] at hparse
    cases hfs' : fs'.parse file with
    | none =>
      rw [hfs'] at hparse
      cases hparse
    | some ast' =>
      rw [hfs'] at hparse
      cases hparse with
      | some hast => exact hast

theorem declared (file : String) : fs'.declared file = fs.declared file := by
  rw [FileSystem.declared, FileSystem.declared, declaredFrom_filter,
    declaredFrom_filter _ _ _ (fs.ast file), (h.ast file).rest, h.relative]

theorem rootTypes (file : String) : fs'.rootTypes file = fs.rootTypes file := by
  rw [FileSystem.rootTypes, FileSystem.rootTypes, rootTypesFrom_filter,
    rootTypesFrom_filter _ (fs.ast file), (h.ast file).rest]

theorem succ (file : String) : (fs.succ file).Perm (fs'.succ file) := by
  rw [FileSystem.succ, FileSystem.succ, includes_filter, includes_filter fs']
  have hincludes : ∀ ast, fs'.includes ast = fs.includes ast := fun ast => by
    rw [FileSystem.includes, FileSystem.includes, h.resolve]
  rw [hincludes]
  exact (h.ast file).includes.filterMap _

theorem reachable_iff {file file' : String} :
    Reachable fs'.succ file file' ↔ Reachable fs.succ file file' := by
  have hedge : Edge fs'.succ = Edge fs.succ := by
    funext x y
    rw [Edge, Edge, (h.succ x).mem_iff]
  rw [Reachable, hedge]

theorem readable {rootFile : String} (hread : fs.Readable rootFile) : fs'.Readable rootFile := by
  intro file hfile
  obtain ⟨hexists, hparse⟩ := hread file (h.reachable_iff.mp hfile)
  refine ⟨by rwa [h.existsSync], ?_⟩
  have hrel := h.parse file
  rw [hparse] at hrel
  rw [FileSystem.ast]
  cases hfs' : fs'.parse file with
  | none =>
    rw [hfs'] at hrel
    cases hrel
  | some ast' => rfl

end Reordered

/-- Of files of which one declares root types, these are the root types. -/
theorem flatMap_rootTypes {fs : FileSystem} {files : List String} {file : String}
    (hnodup : files.Nodup) (hmem : file ∈ files)
    (honly : ∀ file' ∈ files, fs.rootTypes file' ≠ [] → file' = file) :
    files.flatMap fs.rootTypes = fs.rootTypes file := by
  obtain ⟨before, behind, rfl⟩ := List.append_of_mem hmem
  have hnot := List.nodup_middle.mp hnodup
  rw [List.nodup_cons] at hnot
  have hnone : ∀ file' ∈ before ++ behind, fs.rootTypes file' = [] := by
    intro file' hfile'
    by_contra hne
    have hmid : file' ∈ before ++ file :: behind := by
      rw [List.mem_append, List.mem_cons]
      exact (List.mem_append.mp hfile').imp_right .inr
    rw [honly file' hmid hne] at hfile'
    exact hnot.1 hfile'
  have hbefore : before.flatMap fs.rootTypes = [] :=
    List.flatMap_eq_nil_iff.mpr fun file' h => hnone file' (List.mem_append_left _ h)
  have hbehind : behind.flatMap fs.rootTypes = [] :=
    List.flatMap_eq_nil_iff.mpr fun file' h => hnone file' (List.mem_append_right _ h)
  rw [List.flatMap_append, List.flatMap_cons, hbefore, hbehind, List.nil_append, List.append_nil]

/-- The root type that counts is the same in every order of the files. -/
theorem rootType_of_fixed {fs : FileSystem} {rootFile : String} {files files' : List String}
    (h : FilesOf fs rootFile files) (h' : FilesOf fs rootFile files')
    (hfixed : RootTypeFixed fs rootFile) :
    (files.flatMap fs.rootTypes).getLast? = (files'.flatMap fs.rootTypes).getLast? := by
  rcases hfixed with hroot | honly
  · have hlast : ∀ files : List String, files.getLast? = some rootFile →
        (files.flatMap fs.rootTypes).getLast? = (fs.rootTypes rootFile).getLast? := by
      intro files hlast
      obtain ⟨before, rfl⟩ := List.getLast?_eq_some_iff.mp hlast
      rw [List.flatMap_append, List.flatMap_singleton, List.getLast?_append_of_ne_nil _ hroot]
    rw [hlast files h.last, hlast files' h'.last]
  · by_cases hsome : ∃ file ∈ files, fs.rootTypes file ≠ []
    · obtain ⟨file, hmem, hne⟩ := hsome
      have hreach := (h.mem_iff file).mp hmem
      rw [flatMap_rootTypes h.nodup hmem fun file' hmem' hne' =>
          honly file' file ((h.mem_iff file').mp hmem') hreach hne' hne,
        flatMap_rootTypes h'.nodup ((h'.mem_iff file).mpr hreach) fun file' hmem' hne' =>
          honly file' file ((h'.mem_iff file').mp hmem') hreach hne' hne]
    · push Not at hsome
      rw [List.flatMap_eq_nil_iff.mpr hsome, List.flatMap_eq_nil_iff.mpr fun file hmem =>
        hsome file ((h.mem_iff file).mpr ((h'.mem_iff file).mp hmem))]

theorem markType_congr {marks marks' : List Mark} (h : ∀ m, m ∈ marks ↔ m ∈ marks') :
    markType marks = markType marks' := by
  funext key t
  simp [markType, h]

theorem SchemaTypes.bound_perm {schema schema' : SchemaTypes} (h : schema.types.Perm schema'.types)
    (hroot : schema.rootType = schema'.rootType) :
    schema.bound.types.Perm schema'.bound.types ∧ schema.bound.rootType = schema'.bound.rootType := by
  have hbind : bindRef schema.types = bindRef schema'.types :=
    bindRef_congr fun key => (h.map _).mem_iff
  have htype : boundType schema.types = boundType schema'.types := by
    funext entry
    rw [boundType, boundType, hbind]
  have hperm := h.map (boundType schema.types)
  rw [SchemaTypes.bound, SchemaTypes.bound, ← htype, ← hbind, ← hroot]
  refine ⟨?_, rfl⟩
  have hmarks := markType_congr fun m =>
    ((hperm.flatMap_right fun entry => entry.2.marks).append_right
      ((schema.rootType.map (bindRef schema.types)).toList.map fun ref => .table ref.key)).mem_iff
        (a := m)
  simp only [markTypes, hmarks]
  exact hperm.map _

theorem Ends.sameResult {schema schema' : SchemaTypes} {entered entered' : List String}
    {r r' : EStateM.Result ResolveError ResolverContext SchemaTypes}
    (h : Ends schema entered r) (h' : Ends schema' entered' r')
    (hperm : schema.types.Perm schema'.types) (hroot : schema.rootType = schema'.rootType) :
    SameResult r r' := by
  have hnames : schema.types.names.Perm schema'.types.names := hperm.map _
  have hrefs : ∀ ref, ref ∈ schema.refs ↔ ref ∈ schema'.refs := fun ref => by
    rw [SchemaTypes.refs, SchemaTypes.refs, hroot]
    exact ((hperm.flatMap_right _).append_right _).mem_iff
  have hunbound : ∀ ref, Unbound schema.types.names ref ↔ Unbound schema'.types.names ref :=
    fun ref => by simp only [Unbound, hnames.mem_iff]
  cases h with
  | twice key ctx htwice hsub hrun =>
    cases h' with
    | twice key' ctx' htwice' hsub' hrun' => rw [hrun, hrun']; trivial
    | unknown ref' file' ctx' hnodup' href' hun' hctx' hrun' =>
      exact absurd (hnames.nodup_iff.mpr hnodup') htwice.not_nodup
    | bound ctx' hnodup' hbound' hctx' hrun' =>
      exact absurd (hnames.nodup_iff.mpr hnodup') htwice.not_nodup
  | unknown ref file ctx hnodup href hun hctx hrun =>
    cases h' with
    | twice key' ctx' htwice' hsub' hrun' =>
      exact absurd (hnames.nodup_iff.mp hnodup) htwice'.not_nodup
    | unknown ref' file' ctx' hnodup' href' hun' hctx' hrun' => rw [hrun, hrun']; trivial
    | bound ctx' hnodup' hbound' hctx' hrun' =>
      exact absurd ((hunbound ref).mp hun) (hbound' ref ((hrefs ref).mp href))
  | bound ctx hnodup hbound hctx hrun =>
    cases h' with
    | twice key' ctx' htwice' hsub' hrun' =>
      exact absurd (hnames.nodup_iff.mp hnodup) htwice'.not_nodup
    | unknown ref' file' ctx' hnodup' href' hun' hctx' hrun' =>
      exact absurd ((hunbound ref').mpr hun') (hbound ref' ((hrefs ref').mpr href'))
    | bound ctx' hnodup' hbound' hctx' hrun' =>
      rw [hrun, hrun']
      exact SchemaTypes.bound_perm hperm hroot

/-- CORRECT: with enough fuel for the files, the result is `Correct`, and it is the same in every order
    of the include lines when the root type does not depend on it. -/
theorem resolveSchemaTypes_correct {fs : FileSystem} {rootFile : String}
    (hread : fs.Readable rootFile) (hfinite : {file | Reachable fs.succ rootFile file}.Finite) :
    ∃ bound, ∀ fuel, bound ≤ fuel → Correct fs rootFile (resolveSchemaTypes fs fuel rootFile) ∧
      ∀ fs', Reordered fs fs' → RootTypeFixed fs rootFile →
        SameResult (resolveSchemaTypes fs fuel rootFile) (resolveSchemaTypes fs' fuel rootFile) := by
  have hmem : ∀ file, file ∈ hfinite.toFinset ↔ Reachable fs.succ rootFile file := fun file => by
    simp
  have hexists : ∀ fs', Reordered fs fs' → ∀ fuel, hfinite.toFinset.card < fuel →
      ∃ events, visit fs'.succ fuel [] rootFile = some events := by
    intro fs' hfs' fuel hfuel
    refine @exists_visit _ fs'.succ _ hfinite.toFinset (fun y hy z hz => ?_) fuel [] rootFile
      ((hmem rootFile).mpr .refl) (by simpa using hfuel)
    exact (hmem z).mpr (((hmem y).mp hy).tail ((hfs'.succ y).mem_iff.mpr hz))
  refine ⟨hfinite.toFinset.card + 1, fun fuel hfuel => ?_⟩
  have hself : Reordered fs fs := by
    refine ⟨rfl, rfl, rfl, fun file => ?_⟩
    cases fs.parse file with
    | none => exact .none
    | some ast => exact .some ⟨.refl _, rfl⟩
  obtain ⟨events, hvisit⟩ := hexists fs hself fuel hfuel
  obtain ⟨hfiles, hreads⟩ := filesOf_left hvisit
  have hends := resolveSchemaTypes_run hread hvisit
  refine ⟨hends.correct hfiles hreads, fun fs' hfs' hfixed => ?_⟩
  obtain ⟨events', hvisit'⟩ := hexists fs' hfs' fuel hfuel
  obtain ⟨hfiles', -⟩ := filesOf_left hvisit'
  have hfiles'' : FilesOf fs rootFile (left events') :=
    ⟨hfiles'.nodup, fun file => (hfiles'.mem_iff file).trans hfs'.reachable_iff, hfiles'.last⟩
  have hperm : (left events).Perm (left events') :=
    (List.perm_ext_iff_of_nodup hfiles.nodup hfiles'.nodup).mpr fun file =>
      (hfiles.mem_iff file).trans (hfiles''.mem_iff file).symm
  refine hends.sameResult (resolveSchemaTypes_run (hfs'.readable hread) hvisit') ?_ ?_
  · have hdeclared : fs'.declared = fs.declared := funext hfs'.declared
    rw [FileSystem.schema, FileSystem.schema, hdeclared]
    exact hperm.flatMap_right _
  · have hrootTypes : fs'.rootTypes = fs.rootTypes := funext hfs'.rootTypes
    rw [FileSystem.schema, FileSystem.schema, hrootTypes]
    exact rootType_of_fixed hfiles hfiles'' hfixed

/-! ### Small schemas -/

def FileSystem.ofList (files : List (String × List AstTopLevel)) : FileSystem where
  existsSync file := (files.lookup file).isSome
  parse file := files.lookup file
  resolve := id
  relative := id

/-- Files that include each other can be read. -/
theorem readable_ofList {files : List (String × List AstTopLevel)} {rootFile : String}
    (hclosed : ∀ file ∈ rootFile :: files.map (·.1),
      ((files.lookup file).isSome = true ∧
        ∀ file' ∈ (FileSystem.ofList files).succ file, file' ∈ files.map (·.1))) :
    (FileSystem.ofList files).Readable rootFile ∧
      {file | Reachable (FileSystem.ofList files).succ rootFile file}.Finite := by
  have hmem : ∀ file, Reachable (FileSystem.ofList files).succ rootFile file →
      file ∈ rootFile :: files.map (·.1) := by
    intro file hreach
    induction hreach with
    | refl => exact List.mem_cons_self
    | tail _ hedge ih => exact List.mem_cons_of_mem _ ((hclosed _ ih).2 _ hedge)
  constructor
  · intro file hreach
    obtain ⟨hsome, -⟩ := hclosed file (hmem file hreach)
    obtain ⟨ast, hast⟩ := Option.isSome_iff_exists.mp hsome
    refine ⟨hsome, ?_⟩
    rw [FileSystem.ast]
    simp only [FileSystem.ofList, hast, Option.getD_some]
  · have hfinite : {file | file ∈ rootFile :: files.map (·.1)}.Finite := List.finite_toSet _
    exact hfinite.subset fun file hreach => hmem file hreach

/-- Two files that include each other. -/
def cycle : FileSystem :=
  .ofList [("r", [.include "a", .rootType "A"]), ("a", [.include "r", .table false "A" none []])]

theorem resolveSchemaTypes_correct_cycle : ∃ bound, ∀ fuel, bound ≤ fuel →
    Correct cycle "r" (resolveSchemaTypes cycle fuel "r") ∧
      ∀ fs', Reordered cycle fs' → RootTypeFixed cycle "r" →
        SameResult (resolveSchemaTypes cycle fuel "r") (resolveSchemaTypes fs' fuel "r") := by
  have hfiles := @readable_ofList [("r", [.include "a", .rootType "A"]),
    ("a", [.include "r", .table false "A" none []])] "r" (by decide)
  exact resolveSchemaTypes_correct hfiles.1 hfiles.2

/-- Two files with a root type. -/
def twoRootTypes (includes : List AstTopLevel) : FileSystem :=
  .ofList [("r", includes), ("a", [.table false "A" none [], .rootType "A"]),
    ("b", [.table false "B" none [], .rootType "B"])]

def rootTypeInput : EStateM.Result ResolveError ResolverContext SchemaTypes → Option String
  | .ok schema _ => schema.rootType.map (·.input)
  | .error _ _ => none

theorem rootType_twoRootTypes (n : ℕ) :
    rootTypeInput (resolveSchemaTypes (twoRootTypes [.include "a", .include "b"]) (n + 3) "r") =
      some "B" ∧
    rootTypeInput (resolveSchemaTypes (twoRootTypes [.include "b", .include "a"]) (n + 3) "r") =
      some "A" := by
  constructor
  · rfl
  · rfl

theorem readable_twoRootTypes :
    (twoRootTypes [.include "a", .include "b"]).Readable "r" ∧
      {file | Reachable (twoRootTypes [.include "a", .include "b"]).succ "r" file}.Finite :=
  readable_ofList (by decide)

theorem reordered_twoRootTypes : Reordered (twoRootTypes [.include "a", .include "b"])
    (twoRootTypes [.include "b", .include "a"]) := by
  have hlookup : ∀ (includes : List AstTopLevel) (file : String),
      (twoRootTypes includes).parse file =
        if file = "r" then some includes else (twoRootTypes []).parse file := by
    intro includes file
    by_cases hr : file = "r"
    · simp [twoRootTypes, FileSystem.ofList, hr]
    · have hne : (file == "r") = false := by simpa using hr
      simp [twoRootTypes, FileSystem.ofList, List.lookup_cons, hr, hne]
  have hexists : ∀ (includes : List AstTopLevel) (file : String),
      (twoRootTypes includes).existsSync file = ((twoRootTypes includes).parse file).isSome :=
    fun _ _ => rfl
  refine ⟨?_, rfl, rfl, fun file => ?_⟩
  · funext file
    rw [hexists, hexists, hlookup, hlookup [.include "a", .include "b"]]
    split_ifs <;> rfl
  · rw [hlookup, hlookup [.include "b", .include "a"]]
    split_ifs with hr
    · exact .some ⟨.swap .., rfl⟩
    · cases (twoRootTypes []).parse file with
      | none => exact .none
      | some ast => exact .some ⟨.refl _, rfl⟩

/-- The include that comes last gives the root type. -/
theorem resolveSchemaTypes_order_matters : ¬ ∀ (fs fs' : FileSystem) (rootFile : String),
    fs.Readable rootFile → {file | Reachable fs.succ rootFile file}.Finite → Reordered fs fs' →
    ∃ bound, ∀ fuel, bound ≤ fuel → Correct fs rootFile (resolveSchemaTypes fs fuel rootFile) ∧
      SameResult (resolveSchemaTypes fs fuel rootFile) (resolveSchemaTypes fs' fuel rootFile) := by
  intro h
  obtain ⟨bound, hbound⟩ := h _ _ "r" readable_twoRootTypes.1 readable_twoRootTypes.2
    reordered_twoRootTypes
  obtain ⟨-, hsame⟩ := hbound (bound + 3) (by omega)
  obtain ⟨hB, hA⟩ := rootType_twoRootTypes bound
  generalize resolveSchemaTypes (twoRootTypes [.include "a", .include "b"]) (bound + 3) "r" = r
    at hsame hB
  generalize resolveSchemaTypes (twoRootTypes [.include "b", .include "a"]) (bound + 3) "r" = r'
    at hsame hA
  cases r with
  | error e ctx => cases hB
  | ok schema ctx =>
    cases r' with
    | error e ctx => cases hA
    | ok schema' ctx' =>
      have hroot : schema.rootType = schema'.rootType := hsame.2
      have hinput : schema.rootType.map (·.input) = some "B" := hB
      have hinput' : schema'.rootType.map (·.input) = some "A" := hA
      rw [hroot, hinput'] at hinput
      exact absurd hinput (by decide)

end Motis.Protocol
