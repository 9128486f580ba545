import Motis.Protocol.TypeScript

/-! Names in TypeScript modules.

    A type of the schema has a name in the module of its namespace, and a union has a second one for
    its tag. Types without a value are not written. -/

namespace Motis.Protocol.TypeScript

/-! ### Names of a module -/

def TSType.names : TSType → List TSName
  | .array type => type.names
  | .name n => [n]
  | _ => []

def TSValue.names : TSValue → List TSName
  | .literal _ => []
  | .name n => [n]

def TSDeclaration.declared : TSDeclaration → TSName
  | .type name _ => name
  | .interface name _ => name

def TSDeclaration.used : TSDeclaration → List TSName
  | .type _ values => values.flatMap (·.names)
  | .interface _ fields => fields.flatMap (·.type.names)

/-- The file that an import path leads to. The import base stands for the output directory. -/
def ImportPath.target (outputDir : Directory) (source : List String) : ImportPath → List String
  | .base _ path => (RelativePath.resolve outputDir.path path).modifyLast (· ++ ".ts")
  | .relative path => (RelativePath.resolve source.dropLast path).modifyLast (· ++ ".ts")

namespace TSModule

def declared (m : TSModule) : List TSName := m.declarations.map (·.declared)

def used (m : TSModule) : List TSName := m.declarations.flatMap (·.used)

/-- The imported names, with the files they are imported from. -/
def imported (outputDir : Directory) (m : TSModule) : List (String × List String) :=
  m.imports.flatMap fun i => i.types.map fun name =>
    (name, i.importPath.target outputDir m.path)

end TSModule

/-! ### Names of a schema -/

/-- The names of a type: its own, and the one of the tag of a union. -/
def namesOf : String × SchemaType → List TSName
  | (fqtn, .union base _) => [⟨base.name, fqtn⟩, ⟨getUnionTagTypeName base.name, fqtn⟩]
  | (fqtn, t) => [⟨t.base.name, fqtn⟩]

/-- An enum or a union without values is not written. -/
def isWritten : SchemaType → Bool
  | .enum _ values => !values.isEmpty
  | .union _ values => !values.isEmpty
  | .table _ => true

/-- A type uses the name of another one, and a field that is a union the one of its tag. -/
inductive Uses (schema : SchemaTypes) : SchemaType → TSName → Prop
  | type {user : SchemaType} {ref : TypeRef} : ref ∈ user.refs → Uses schema user (typeName ref)
  | tag {t : TableType} {field : TableField} {ref : TypeRef} {base : TypeBase}
      {values : List UnionValue} : field ∈ t.fields → field.type = .custom ref →
      schema.types.get ref.key = some (.union base values) →
      Uses schema (.table t) ⟨getUnionTagTypeName base.name, ref.key⟩

/-! ### Bound references -/

section Bound

variable {schema : SchemaTypes}

theorem get_of_mem (hresolved : schema.IsResolved) {entry : String × SchemaType}
    (h : entry ∈ schema.types) : schema.types.get entry.1 = some entry.2 :=
  (InsertionMap.lookup_eq_some hresolved.nodup).mpr h

theorem entry_unique (hresolved : schema.IsResolved) {entry entry' : String × SchemaType}
    (h : entry ∈ schema.types) (h' : entry' ∈ schema.types) (hkey : entry.1 = entry'.1) :
    entry = entry' :=
  List.inj_on_of_nodup_map hresolved.nodup h h' hkey

theorem fqtn_of_mem_namesOf {entry : String × SchemaType} {u : TSName} (h : u ∈ namesOf entry) :
    u.fqtn = entry.1 := by
  obtain ⟨key, t⟩ := entry
  cases t <;> simp [namesOf] at h
  case enum base values => rw [h]
  case union base values => rcases h with rfl | rfl <;> rfl
  case table t => rw [h]

theorem mem_refs {entry : String × SchemaType} (h : entry ∈ schema.types) {ref : TypeRef}
    (href : ref ∈ entry.2.refs) : ref ∈ schema.refs :=
  List.mem_append_left _ (List.mem_flatMap.mpr ⟨entry, h, href⟩)

theorem typeName_eq {ref : TypeRef} {entry : String × SchemaType}
    (hfqtn : ref.resolvedFqtn = entry.2.fqtn) (hkey : ref.key = entry.1) :
    typeName ref = ⟨entry.2.base.name, entry.1⟩ := by
  rw [typeName, hkey, hfqtn, lastName, SchemaType.fqtn, List.getLastD_concat]

theorem base_mem_namesOf (entry : String × SchemaType) :
    ⟨entry.2.base.name, entry.1⟩ ∈ namesOf entry := by
  obtain ⟨key, t⟩ := entry
  cases t <;> exact List.mem_cons_self

/-- A name that is used belongs to a type that is referred to. -/
theorem Uses.owner (hresolved : schema.IsResolved) {user : String × SchemaType}
    (huser : user ∈ schema.types) {u : TSName} (h : Uses schema user.2 u) :
    ∃ target ∈ schema.types, u ∈ namesOf target ∧ ∃ ref ∈ user.2.refs, ref.key = target.1 := by
  obtain ⟨key, t⟩ := user
  cases h with
  | @type _ ref href =>
    obtain ⟨target, htarget, hfqtn, hkey⟩ := bound_entry hresolved (mem_refs huser href)
    rw [typeName_eq hfqtn hkey]
    exact ⟨target, htarget, base_mem_namesOf target, ref, href, hkey⟩
  | @tag t field ref base values hfield htype hget =>
    have href : ref ∈ (SchemaType.table t).refs := by
      refine List.mem_append_left _ (List.mem_flatMap.mpr ⟨field, hfield, ?_⟩)
      rw [htype]
      exact List.mem_singleton_self ref
    have htarget := (InsertionMap.lookup_eq_some hresolved.nodup).mp hget
    exact ⟨_, htarget, List.mem_cons_of_mem _ List.mem_cons_self, ref, href, rfl⟩

theorem isIdent_ne_empty {s : String} (h : isIdent s = true) : s ≠ "" := by
  rintro rfl
  exact absurd h (by decide)

theorem typeName_ne_empty (hresolved : schema.IsResolved) {ref : TypeRef} (h : ref ∈ schema.refs) :
    (typeName ref).name ≠ "" := by
  obtain ⟨target, htarget, hfqtn, hkey⟩ := bound_entry hresolved h
  rw [typeName_eq hfqtn hkey]
  refine isIdent_ne_empty (hresolved.ident target htarget _ ?_)
  rw [SchemaType.fqtn]
  exact List.mem_append_right _ List.mem_cons_self

end Bound

/-! ### What is written -/

theorem names_getTSTypeName (type : FieldType) :
    (getTSTypeName type).names = type.refs.map typeName := by
  induction type with
  | basic type => cases type <;> rfl
  | vector type ih => exact ih
  | custom ref => rfl

/-- A name is declared when there are values, and the names among these are used. -/
theorem writeEnum_spec {α : Type} (name : TSName) (values : List α)
    {valueFormatter : α → Option TSValue} {g : α → TSValue} (h : ∀ value ∈ values,
      valueFormatter value = some (g value) ∧ (g value).isNonempty = true) :
    (writeEnum name values valueFormatter).map (·.declared) =
        (if !values.isEmpty then [name] else []) ∧
      (writeEnum name values valueFormatter).flatMap (·.used) =
        values.flatMap fun value => (g value).names := by
  have hmap : values.filterMap valueFormatter = values.map g := by
    rw [← List.filterMap_eq_map]
    exact List.filterMap_congr fun value hvalue => (h value hvalue).1
  have hfilter : (values.map g).filter (·.isNonempty) = values.map g := by
    refine List.filter_eq_self.mpr fun w hw => ?_
    obtain ⟨value, hvalue, rfl⟩ := List.mem_map.mp hw
    exact (h value hvalue).2
  simp only [writeEnum, hmap, hfilter]
  cases values with
  | nil => exact ⟨rfl, rfl⟩
  | cons value values =>
    rw [List.map_cons, if_neg (List.cons_ne_nil _ _)]
    refine ⟨rfl, ?_⟩
    rw [List.flatMap_singleton, TSDeclaration.used, ← List.map_cons, List.flatMap_map]

/-- The name of the tag of a field that is a union. -/
def tagName (schema : SchemaTypes) : FieldType → Option TSName
  | .custom ref =>
    match schema.types.get ref.key with
    | some (.union base _) => some ⟨getUnionTagTypeName base.name, ref.key⟩
    | _ => none
  | _ => none

/-- The fields that are written for one. -/
def fieldsFor (schema : SchemaTypes) (f : TableField) : List TSField :=
  (tagName schema f.type).toList.map
    (fun tag => ⟨f.name ++ "_type", !isRequired f.metadata, .name tag⟩) ++
      [⟨f.name, !isRequired f.metadata, getTSTypeName f.type⟩]

theorem mem_names_fieldsFor {schema : SchemaTypes} {f : TableField} {u : TSName} :
    u ∈ (fieldsFor schema f).flatMap (·.type.names) ↔
      tagName schema f.type = some u ∨ ∃ ref ∈ f.type.refs, typeName ref = u := by
  rw [fieldsFor, List.flatMap_append, List.mem_append, List.flatMap_singleton, names_getTSTypeName,
    List.mem_map]
  cases tagName schema f.type with
  | none => simp
  | some tag => simp [TSType.names, eq_comm]

theorem tagName_eq_some {schema : SchemaTypes} {type : FieldType} {u : TSName} :
    tagName schema type = some u ↔ ∃ ref base values, type = .custom ref ∧
      schema.types.get ref.key = some (.union base values) ∧
        u = ⟨getUnionTagTypeName base.name, ref.key⟩ := by
  constructor
  · intro h
    cases type with
    | basic type => cases h
    | vector type => cases h
    | custom ref =>
      rw [tagName] at h
      split at h
      · next base values hget => exact ⟨ref, base, values, rfl, hget, (Option.some.inj h).symm⟩
      · cases h
  · rintro ⟨ref, base, values, rfl, hget, rfl⟩
    rw [tagName, hget]

theorem uses_table_iff {schema : SchemaTypes} {t : TableType} {u : TSName} :
    Uses schema (.table t) u ↔ ∃ field ∈ t.fields,
      tagName schema field.type = some u ∨ ∃ ref ∈ field.type.refs, typeName ref = u := by
  constructor
  · intro h
    cases h with
    | @type _ ref href =>
      obtain ⟨field, hfield, href⟩ := List.mem_flatMap.mp
        (List.mem_append.mp href |>.resolve_right List.not_mem_nil)
      exact ⟨field, hfield, .inr ⟨ref, href, rfl⟩⟩
    | @tag _ field ref base values hfield htype hget =>
      exact ⟨field, hfield, .inl (tagName_eq_some.mpr ⟨ref, base, values, htype, hget, rfl⟩)⟩
  · rintro ⟨field, hfield, htag | ⟨ref, href, rfl⟩⟩
    · obtain ⟨ref, base, values, htype, hget, rfl⟩ := tagName_eq_some.mp htag
      exact .tag hfield htype hget
    · exact .type (List.mem_append_left _ (List.mem_flatMap.mpr ⟨field, hfield, href⟩))

theorem uses_union_iff {schema : SchemaTypes} {base : TypeBase} {values : List UnionValue}
    {u : TSName} :
    Uses schema (.union base values) u ↔ ∃ value ∈ values, typeName value.typeRef = u := by
  constructor
  · intro h
    cases h with
    | type href =>
      obtain ⟨value, hvalue, rfl⟩ := List.mem_map.mp href
      exact ⟨value, hvalue, rfl⟩
  · rintro ⟨value, hvalue, rfl⟩
    exact .type (List.mem_map_of_mem hvalue)

section Written

variable {ctx : TSContext} (hresolved : ctx.schema.IsResolved)
  (hall : ctx.types = ctx.schema.types.names)

include hresolved

theorem key_mem_types (hall : ctx.types = ctx.schema.types.names) {ref : TypeRef}
    (h : ref ∈ ctx.schema.refs) : joinDots ref.resolvedFqtn ∈ ctx.types := by
  obtain ⟨target, htarget, -, hkey⟩ := bound_entry hresolved h
  rw [hall, ← TypeRef.key, hkey]
  exact List.mem_map_of_mem htarget

theorem writeField_eq {key : String} {t : TableType}
    (h : (key, SchemaType.table t) ∈ ctx.schema.types) {f : TableField} (hf : f ∈ t.fields) :
    writeField ctx f = .ok (fieldsFor ctx.schema f) := by
  cases htype : f.type with
  | basic type => rw [writeField, fieldsFor, htype]; rfl
  | vector type => rw [writeField, fieldsFor, htype]; rfl
  | custom ref =>
    have href : ref ∈ (SchemaType.table t).refs := by
      refine List.mem_append_left _ (List.mem_flatMap.mpr ⟨f, hf, ?_⟩)
      rw [htype]
      exact List.mem_singleton_self ref
    obtain ⟨target, htarget, -, hkey⟩ := bound_entry hresolved (mem_refs h href)
    have hget : ctx.schema.types.get (joinDots ref.resolvedFqtn) = some target.2 := by
      rw [← TypeRef.key, hkey]
      exact get_of_mem hresolved htarget
    rw [fieldsFor, htype, tagName, TypeRef.key, hget]
    simp only [writeField, htype, hget]
    cases target.2 <;> rfl

/-- What is written for a type: its names, and names that it uses. -/
structure WrittenFor (schema : SchemaTypes) (entry : String × SchemaType)
    (decls : List TSDeclaration) : Prop where
  declared : decls.map (·.declared) = if isWritten entry.2 then namesOf entry else []
  used : ∀ u, u ∈ decls.flatMap (·.used) ↔ Uses schema entry.2 u

theorem writeTable_spec {key : String} {t : TableType}
    (h : (key, SchemaType.table t) ∈ ctx.schema.types) :
    ∃ decls, writeType ctx key = .ok decls ∧ WrittenFor ctx.schema (key, .table t) decls := by
  have hfields := Fallible.mapM_eq_ok fun f (hf : f ∈ t.fields) => writeField_eq hresolved h hf
  refine ⟨[.interface ⟨t.name, key⟩ (t.fields.map (fieldsFor ctx.schema)).flatten], ?_, rfl,
    fun u => ?_⟩
  · rw [writeType, get_of_mem hresolved h]
    change (t.fields.mapM (writeField ctx)).bind _ = _
    rw [hfields]
    rfl
  · rw [uses_table_iff, List.flatMap_singleton, TSDeclaration.used, ← List.flatMap_def,
      List.flatMap_assoc, List.mem_flatMap]
    simp only [mem_names_fieldsFor]

theorem writeEnumType_spec {key : String} {base : TypeBase} {values : List AstEnumVal}
    (h : (key, SchemaType.enum base values) ∈ ctx.schema.types) :
    ∃ decls, writeType ctx key = .ok decls ∧ WrittenFor ctx.schema (key, .enum base values) decls := by
  obtain ⟨hdeclared, hused⟩ := writeEnum_spec ⟨base.name, key⟩ values
    (g := fun value => .literal value.id) fun value _ => ⟨rfl, rfl⟩
  refine ⟨_, by rw [writeType, get_of_mem hresolved h], hdeclared, fun u => ?_⟩
  rw [hused]
  refine iff_of_false (by simp [TSValue.names]) fun huses => ?_
  cases huses with
  | type href => cases href

theorem writeUnion_spec (hall : ctx.types = ctx.schema.types.names) {key : String}
    {base : TypeBase} {values : List UnionValue}
    (h : (key, SchemaType.union base values) ∈ ctx.schema.types) :
    ∃ decls, writeType ctx key = .ok decls ∧ WrittenFor ctx.schema (key, .union base values) decls := by
  have hrefs : ∀ value ∈ values, value.typeRef ∈ ctx.schema.refs := fun value hvalue =>
    mem_refs h (List.mem_append_right _ (List.mem_map_of_mem hvalue))
  have hvalue : ∀ value ∈ values, unionValueFormatter ctx value = some (typeName value.typeRef) :=
    fun value hvalue => if_pos (key_mem_types hresolved hall (hrefs value hvalue))
  have hname : ∀ value ∈ values, (typeName value.typeRef).name ≠ "" := fun value hvalue =>
    typeName_ne_empty hresolved (hrefs value hvalue)
  have hvalues : ∀ value ∈ values, (unionValueFormatter ctx value).map TSValue.name =
      some (.name (typeName value.typeRef)) ∧
        (TSValue.name (typeName value.typeRef)).isNonempty = true := by
    intro value hmem
    rw [hvalue value hmem]
    exact ⟨rfl, decide_eq_true (hname value hmem)⟩
  have htags : ∀ value ∈ values, unionTagValueFormatter ctx value =
      some (.literal (typeName value.typeRef).name) ∧
        (TSValue.literal (typeName value.typeRef).name).isNonempty = true := by
    intro value hmem
    rw [unionTagValueFormatter, hvalue value hmem]
    exact ⟨if_pos (hname value hmem), rfl⟩
  obtain ⟨hdeclared, hused⟩ := writeEnum_spec ⟨base.name, key⟩ values hvalues
  obtain ⟨hdeclared', hused'⟩ := writeEnum_spec ⟨getUnionTagTypeName base.name, key⟩ values htags
  refine ⟨_, by rw [writeType, get_of_mem hresolved h], ?_, fun u => ?_⟩
  · rw [List.map_append, hdeclared, hdeclared', isWritten]
    split_ifs <;> rfl
  · rw [uses_union_iff, List.flatMap_append, hused, hused']
    simp [TSValue.names, eq_comm]

theorem writeType_spec (hall : ctx.types = ctx.schema.types.names) {entry : String × SchemaType}
    (h : entry ∈ ctx.schema.types) :
    ∃ decls, writeType ctx entry.1 = .ok decls ∧ WrittenFor ctx.schema entry decls := by
  obtain ⟨key, t⟩ := entry
  cases t with
  | enum base values => exact writeEnumType_spec hresolved h
  | union base values => exact writeUnion_spec hresolved hall h
  | table t => exact writeTable_spec hresolved h

end Written

end Motis.Protocol.TypeScript
