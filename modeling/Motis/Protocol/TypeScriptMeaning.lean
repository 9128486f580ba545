import Motis.Protocol.SchemaExactness
import Motis.Protocol.TypeScriptModules

/-! The generated TypeScript types say which documents a schema has.

    A type alias is one of its values, an interface an object with its fields. In TypeScript every
    number is an integer, and the type of a union is a field of its own beside the union:

        W T j   ↔   j fits T, with loose unions and any numbers for integers

    So the types admit what the loose JSON Schema admits, and all default documents. -/

namespace Motis.Protocol.TypeScript

/-! ### Types -/

section
variable (W : TSName → JsonValue → Prop)

def TSType.Holds : TSType → JsonValue → Prop
  | .boolean, j => ∃ b, j = .bool b
  | .number, j => ∃ q, j = .number q
  | .string, j => ∃ s, j = .string s
  | .array type, j => ∃ elements, j = .array elements ∧ ∀ x ∈ elements, type.Holds x
  | .name n, j => W n j

def TSValue.Holds : TSValue → JsonValue → Prop
  | .literal value, j => j = .string value
  | .name n, j => W n j

structure TSField.Holds (field : TSField) (members : List (String × JsonValue)) : Prop where
  required : field.optional = false → (members.lookup field.name).isSome = true
  type : ∀ v, members.lookup field.name = some v → field.type.Holds W v

def TSDeclaration.Holds : TSDeclaration → JsonValue → Prop
  | .type _ values, j => ∃ value ∈ values, value.Holds W j
  | .interface _ fields, j => ∃ members, j = .object members ∧ ∀ field ∈ fields,
      field.Holds W members

/-- The names stand for what is declared for them. -/
def Interprets (modules : List TSModule) : Prop :=
  ∀ m ∈ modules, ∀ d ∈ m.declarations, ∀ j, W d.declared j ↔ d.Holds W j

end

/-! ### What is declared for a type -/

variable {schema : SchemaTypes}

def enumDeclaration (name : TSName) (values : List TSValue) : List TSDeclaration :=
  if values = [] then [] else [.type name values]

def declarationsFor (schema : SchemaTypes) : String × SchemaType → List TSDeclaration
  | (key, .enum base values) => enumDeclaration ⟨base.name, key⟩ (values.map (.literal ·.id))
  | (key, .union base values) =>
    enumDeclaration ⟨base.name, key⟩ (values.map fun value => .name (typeName value.typeRef)) ++
      enumDeclaration ⟨getUnionTagTypeName base.name, key⟩ (values.map fun value =>
        .literal value.tag)
  | (key, .table t) => [.interface ⟨t.name, key⟩ (t.fields.flatMap (fieldsFor schema))]

theorem writeEnum_eq {α : Type} (name : TSName) (values : List α)
    {valueFormatter : α → Option TSValue} {g : α → TSValue} (h : ∀ value ∈ values,
      valueFormatter value = some (g value) ∧ (g value).isNonempty = true) :
    writeEnum name values valueFormatter = enumDeclaration name (values.map g) := by
  have hmap : values.filterMap valueFormatter = values.map g := by
    rw [← List.filterMap_eq_map]
    exact List.filterMap_congr fun value hvalue => (h value hvalue).1
  have hfilter : (values.map g).filter (·.isNonempty) = values.map g := by
    refine List.filter_eq_self.mpr fun w hw => ?_
    obtain ⟨value, hvalue, rfl⟩ := List.mem_map.mp hw
    exact (h value hvalue).2
  rw [writeEnum, enumDeclaration]
  simp only [hmap, hfilter]

section
variable {ctx : TSContext} (hresolved : ctx.schema.IsResolved)
  (hall : ctx.types = ctx.schema.types.names)
include hresolved hall

theorem writeType_eq {entry : String × SchemaType} (h : entry ∈ ctx.schema.types) :
    writeType ctx entry.1 = .ok (declarationsFor ctx.schema entry) := by
  obtain ⟨key, t⟩ := entry
  rw [writeType, get_of_mem hresolved h]
  cases t with
  | enum base values =>
    have henum := writeEnum_eq ⟨base.name, key⟩ values
      (g := fun value => .literal value.id) fun value _ => ⟨rfl, rfl⟩
    exact congrArg Except.ok henum
  | union base values =>
    have hrefs : ∀ value ∈ values, value.typeRef ∈ ctx.schema.refs := fun value hvalue =>
      mem_refs h (List.mem_append_right _ (List.mem_map_of_mem hvalue))
    have hvalue : ∀ value ∈ values, unionValueFormatter ctx value = some (typeName value.typeRef) :=
      fun value hvalue => if_pos (key_mem_types hresolved hall (hrefs value hvalue))
    have hname : ∀ value ∈ values, (typeName value.typeRef).name ≠ "" := fun value hvalue =>
      typeName_ne_empty hresolved (hrefs value hvalue)
    have hvalues : ∀ value ∈ values, (unionValueFormatter ctx value).map TSValue.name =
        some (.name (typeName value.typeRef)) ∧
          (TSValue.name (typeName value.typeRef)).isNonempty = true := by
      intro value hmem
      rw [hvalue value hmem]
      exact ⟨rfl, decide_eq_true (hname value hmem)⟩
    have htags : ∀ value ∈ values, unionTagValueFormatter ctx value = some (.literal value.tag) ∧
        (TSValue.literal value.tag).isNonempty = true := by
      intro value hmem
      rw [unionTagValueFormatter, hvalue value hmem]
      exact ⟨if_pos (hname value hmem), rfl⟩
    simp only [declarationsFor]
    rw [writeEnum_eq _ _ hvalues, writeEnum_eq _ _ htags]
  | table t =>
    have hfields := Fallible.mapM_eq_ok fun f (hf : f ∈ t.fields) => writeField_eq hresolved h hf
    change (t.fields.mapM (writeField ctx)).bind _ = _
    rw [hfields, declarationsFor, List.flatMap_def]
    rfl

end

/-- The declarations of the modules are those for the types. -/
theorem mem_declarations (hresolved : schema.IsResolved) {outputDir : Directory}
    {importBase : Option String} {modules : List TSModule}
    (h : writeTypeScriptOutput schema ⟨[], []⟩ outputDir importBase = .ok modules)
    (d : TSDeclaration) : (∃ m ∈ modules, d ∈ m.declarations) ↔
      ∃ entry ∈ schema.types, d ∈ declarationsFor schema entry := by
  have hincluded : (schema.types.filter fun entry =>
      TypeFilter.includeType ⟨[], []⟩ entry.1.toList) = schema.types :=
    List.filter_eq_self.mpr fun _ _ => rfl
  rw [writeTypeScriptOutput, hincluded] at h
  generalize hctx : (⟨schema, schema.types.map (·.1), outputDir, importBase⟩ : TSContext) = ctx at h
  have hschema : ctx.schema = schema := by rw [← hctx]
  have hall : ctx.types = ctx.schema.types.names := by
    rw [← hctx]
    rfl
  have hfiles := mem_files hresolved outputDir
  have hwritten : ∀ {ns : Namespace} {m : TSModule}, (∀ id ∈ ns, isIdent id = true) →
      writeFile ctx (fileOf schema outputDir ns) = .ok m →
      m.declarations = (entriesIn schema ns).flatMap (declarationsFor schema) := by
    intro ns m hns hm
    rw [writeFile] at hm
    obtain ⟨includes, -, hm⟩ := Fallible.bind_ok hm
    obtain ⟨declarations, hdecls, hm⟩ := Fallible.bind_ok hm
    obtain rfl := Except.ok.inj hm
    have hok : ((entriesIn schema ns).map (·.1)).mapM (writeType ctx) =
        .ok ((entriesIn schema ns).map (declarationsFor schema)) := by
      rw [List.mapM_map]
      refine Fallible.mapM_eq_ok fun entry hentry => ?_
      have hmem := ((mem_entriesIn hresolved hns).mp hentry).1
      rw [← hschema] at hmem ⊢
      exact writeType_eq (hschema ▸ hresolved) hall hmem
    obtain rfl := Except.ok.inj (hdecls.symm.trans hok)
    exact (List.flatMap_def ..).symm
  constructor
  · rintro ⟨m, hm, hd⟩
    obtain ⟨e, he, hfile⟩ := (Fallible.mem_mapM_ok h).mp hm
    obtain ⟨entry, hentry, -, hsame⟩ := (hfiles e).mp he
    rw [← hsame] at hfile
    rw [hwritten (ident_ns hresolved hentry) hfile] at hd
    obtain ⟨entry', hentry', hd⟩ := List.mem_flatMap.mp hd
    exact ⟨entry', ((mem_entriesIn hresolved (ident_ns hresolved hentry)).mp hentry').1, hd⟩
  · rintro ⟨entry, hentry, hd⟩
    have he := (hfiles (joinDots entry.2.base.ns, _)).mpr ⟨entry, hentry, rfl, rfl⟩
    obtain ⟨m, hm, hfile⟩ := Fallible.exists_of_mapM_ok h he
    refine ⟨m, hm, ?_⟩
    rw [hwritten (ident_ns hresolved hentry) hfile]
    exact List.mem_flatMap.mpr
      ⟨entry, (mem_entriesIn hresolved (ident_ns hresolved hentry)).mpr ⟨hentry, rfl⟩, hd⟩

/-! ### What the types stand for -/

/-- What TypeScript sees of a document. -/
def typeScriptFormat : DocumentFormat := ⟨.loose, .number⟩

/-- No enum or union is empty. -/
def Written (schema : SchemaTypes) : Prop := ∀ entry ∈ schema.types, isWritten entry.2 = true

theorem tagName_none {field : TableField} (h : schema.siblingUnion false field = none) :
    tagName schema field.type = none := by
  cases htag : tagName schema field.type with
  | none => rfl
  | some u =>
    obtain ⟨ref, base, values, htype, hget, -⟩ := tagName_eq_some.mp htag
    simp [SchemaTypes.siblingUnion, SchemaTypes.unionOf, htype, hget] at h

section
variable (hresolved : schema.IsResolved) (hunions : schema.UnionsOfTables)
  (hwritten : Written schema)
variable {modules : List TSModule} {W : TSName → JsonValue → Prop}
variable (hdecls : ∀ entry ∈ schema.types, ∀ d ∈ declarationsFor schema entry,
  ∀ j, W d.declared j ↔ d.Holds W j)
include hwritten hdecls

theorem holds_enum {key : String} {base : TypeBase} {values : List AstEnumVal}
    (h : (key, SchemaType.enum base values) ∈ schema.types) (j : JsonValue) :
    W ⟨base.name, key⟩ j ↔ ∃ value ∈ values, j = .string value.id := by
  have hne : values ≠ [] := by simpa [isWritten] using hwritten _ h
  have hdecl := hdecls _ h (.type ⟨base.name, key⟩ (values.map (.literal ·.id))) (by
    simp [declarationsFor, enumDeclaration, hne]) j
  rw [TSDeclaration.declared] at hdecl
  rw [hdecl]
  simp [TSDeclaration.Holds, TSValue.Holds]

theorem holds_tags {key : String} {base : TypeBase} {values : List UnionValue}
    (h : (key, SchemaType.union base values) ∈ schema.types) (j : JsonValue) :
    W ⟨getUnionTagTypeName base.name, key⟩ j ↔ ∃ member ∈ values, j = .string member.tag := by
  have hne : values ≠ [] := by simpa [isWritten] using hwritten _ h
  have hdecl := hdecls _ h (.type ⟨getUnionTagTypeName base.name, key⟩
    (values.map fun value => .literal value.tag)) (by
      simp [declarationsFor, enumDeclaration, hne]) j
  rw [TSDeclaration.declared] at hdecl
  rw [hdecl]
  simp [TSDeclaration.Holds, TSValue.Holds]

theorem holds_union {key : String} {base : TypeBase} {values : List UnionValue}
    (h : (key, SchemaType.union base values) ∈ schema.types) (j : JsonValue) :
    W ⟨base.name, key⟩ j ↔ ∃ member ∈ values, W (typeName member.typeRef) j := by
  have hne : values ≠ [] := by simpa [isWritten] using hwritten _ h
  have hdecl := hdecls _ h (.type ⟨base.name, key⟩
    (values.map fun value => .name (typeName value.typeRef))) (by
      simp [declarationsFor, enumDeclaration, hne]) j
  rw [TSDeclaration.declared] at hdecl
  rw [hdecl]
  simp [TSDeclaration.Holds, TSValue.Holds]

include hresolved

/-- What is declared for a field is what a document has for it. -/
theorem holds_field {field : TableField} {members : List (String × JsonValue)}
    (hvalue : ∀ v, members.lookup field.name = some v → ((getTSTypeName field.type).Holds W v ↔
      Fits schema typeScriptFormat (.value field.type) v)) :
    (∀ f ∈ fieldsFor schema field, f.Holds W members) ↔
      (isRequired field.metadata = true → (members.lookup field.name).isSome = true ∧
        ((schema.siblingUnion false field).isSome = true →
          (members.lookup field.tagName).isSome = true)) ∧
      (∀ v, members.lookup field.name = some v →
        Fits schema typeScriptFormat (.value field.type) v) ∧
      ∀ ref values, schema.siblingUnion false field = some (ref, values) →
        ∀ tag, members.lookup field.tagName = some tag →
          ∃ member ∈ values, tag = .string member.tag := by
  have hown : TSField.Holds W ⟨field.name, !isRequired field.metadata, getTSTypeName field.type⟩
      members ↔ (isRequired field.metadata = true → (members.lookup field.name).isSome = true) ∧
        ∀ v, members.lookup field.name = some v →
          Fits schema typeScriptFormat (.value field.type) v := by
    constructor
    · rintro ⟨hrequired, htype⟩
      exact ⟨fun hreq => hrequired (by simp [hreq]), fun v hv => (hvalue v hv).mp (htype v hv)⟩
    · rintro ⟨hrequired, htype⟩
      exact ⟨fun hreq => hrequired (by simpa using hreq),
        fun v hv => (hvalue v hv).mpr (htype v hv)⟩
  cases hunion : schema.siblingUnion false field with
  | none =>
    simp only [fieldsFor, tagName_none hunion, Option.toList_none, List.map_nil, List.nil_append,
      List.mem_singleton, forall_eq, hown]
    simp
  | some union =>
    obtain ⟨ref, values⟩ := union
    obtain ⟨-, htype, base, hget⟩ := siblingUnion_some hunion
    have htag := tagName_eq_some.mpr ⟨ref, base, values, htype, hget, rfl⟩
    have htags := holds_tags hwritten hdecls ((InsertionMap.lookup_eq_some hresolved.nodup).mp hget)
    simp only [fieldsFor, htag, Option.toList_some, List.map_cons, List.map_nil,
      List.singleton_append, List.mem_cons, List.not_mem_nil, or_false, forall_eq_or_imp, forall_eq,
      hown]
    constructor
    · rintro ⟨⟨hrequired, htype⟩, hreq, hfits⟩
      refine ⟨fun h => ⟨hreq h, fun _ => hrequired (by simp [h])⟩, hfits, ?_⟩
      intro ref' values' heq tag hget
      cases heq
      exact (htags tag).mp (htype tag hget)
    · rintro ⟨hreq, hfits, hnamed⟩
      refine ⟨⟨fun h => (hreq (by simpa using h)).2 rfl, ?_⟩, fun h => (hreq h).1, hfits⟩
      intro tag hget
      exact (htags tag).mpr (hnamed ref values rfl tag hget)

include hunions

/-- The type of a field, when the tables agree up to the size of the value. -/
theorem holds_value {n : ℕ} (htables : ∀ key t, (key, SchemaType.table t) ∈ schema.types → ∀ j,
      sizeOf j < n → (W ⟨t.name, key⟩ j ↔ Fits schema typeScriptFormat (.table key false) j))
    {type : FieldType} (hrefs : ∀ ref ∈ type.refs, ref ∈ schema.refs) (j : JsonValue)
    (hj : sizeOf j < n) :
    (getTSTypeName type).Holds W j ↔ Fits schema typeScriptFormat (.value type) j := by
  induction type generalizing j with
  | basic type =>
    have hbasic : (getTSTypeName (.basic type)).Holds W j ↔
        type.Fits typeScriptFormat.ints j := by
      cases type <;> exact Iff.rfl
    rw [hbasic]
    constructor
    · exact fun h => .basic h
    · intro h
      cases h with
      | basic h => exact h
  | vector type ih =>
    constructor
    · rintro ⟨elements, rfl, hall⟩
      refine .vector fun x hx => (ih hrefs x ?_).mp (hall x hx)
      have hsize := JsonValue.sizeOf_mem hx
      omega
    · intro h
      cases h with
      | @vector _ elements hall =>
        refine ⟨elements, rfl, fun x hx => (ih hrefs x ?_).mpr (hall x hx)⟩
        have hsize := JsonValue.sizeOf_mem hx
        omega
  | custom ref =>
    obtain ⟨⟨key, t⟩, hentry, hfqtn, hkey⟩ :=
      bound_entry hresolved (hrefs ref (List.mem_singleton_self ref))
    obtain rfl : ref.key = key := hkey
    have hget : schema.types.get ref.key = some t := get_of_mem hresolved hentry
    have hname : typeName ref = ⟨t.base.name, ref.key⟩ := typeName_eq hfqtn rfl
    rw [← formFits_untagged hget]
    change W (typeName ref) j ↔ _
    rw [hname]
    cases t with
    | enum base values => exact holds_enum hwritten hdecls hentry j
    | table t => exact htables ref.key t hentry j hj
    | union base values =>
      refine (holds_union hwritten hdecls hentry j).trans ?_
      refine exists_congr fun member => and_congr_right fun hmember => ?_
      obtain ⟨t, ht⟩ := hunions _ base values hentry member hmember
      have hmem : member.typeRef ∈ schema.refs :=
        mem_refs hentry (List.mem_append_right _ (List.mem_map_of_mem hmember))
      obtain ⟨entry, hentry', hfqtn', hkey'⟩ := bound_entry hresolved hmem
      obtain rfl := entry_unique hresolved hentry' ht hkey'.symm
      have hname' : typeName member.typeRef = ⟨t.name, member.typeRef.key⟩ := typeName_eq hfqtn' rfl
      rw [hname']
      exact htables _ t ht j hj

/-- An interface stands for the objects with the fields of its table. -/
theorem holds_table (n : ℕ) : ∀ key t, (key, SchemaType.table t) ∈ schema.types → ∀ j,
    sizeOf j < n → (W ⟨t.name, key⟩ j ↔ Fits schema typeScriptFormat (.table key false) j) := by
  induction n with
  | zero => simp
  | succ n ih =>
    intro key t hmem j hj
    have hget : schema.types.get key = some (.table t) := get_of_mem hresolved hmem
    -- the values of the fields are smaller
    have hvalue : ∀ field ∈ t.fields, ∀ v, j.get? field.name = some v →
        ((getTSTypeName field.type).Holds W v ↔
          Fits schema typeScriptFormat (.value field.type) v) := by
      intro field hfield v hv
      refine holds_value hresolved hunions hwritten hdecls ih ?_ v ?_
      · exact fun ref href => mem_refs hmem (List.mem_append_left _
          (List.mem_flatMap.mpr ⟨field, hfield, href⟩))
      · have hsize := JsonValue.sizeOf_get? hv
        omega
    refine (hdecls _ hmem _ (List.mem_singleton_self _) j).trans ?_
    constructor
    · rintro ⟨members, rfl, hall⟩
      have hfits := fun field hfield => (holds_field hresolved hwritten hdecls
        (hvalue field hfield)).mp fun f hf => hall f (List.mem_flatMap.mpr ⟨field, hfield, hf⟩)
      refine .object hget (by simp) (fun field h => (hfits field h).1)
        (fun field h _ => (hfits field h).2.1) ?_ ?_
      · intro field h ref values hunion
        exact ⟨by simp [typeScriptFormat, UnionFormat.paired],
          fun _ => (hfits field h).2.2 ref values hunion⟩
      · simp [typeScriptFormat, UnionFormat.cased]
    · intro h
      cases h with
      | @object _ _ _ members hget' _ hrequired hvalues hsiblings _ =>
        cases hget.symm.trans hget'
        refine ⟨members, rfl, fun f hf => ?_⟩
        obtain ⟨field, hfield, hf⟩ := List.mem_flatMap.mp hf
        refine (holds_field hresolved hwritten hdecls (hvalue field hfield)).mpr
          ⟨hrequired field hfield, ?_, ?_⟩ f hf
        · exact hvalues field hfield (.inl rfl)
        · exact fun ref values hunion => (hsiblings field hfield ref values hunion).2 rfl

end

/-- What the names of the small schema stand for. -/
def messageTypes (name : TSName) (j : JsonValue) : Prop :=
  if name.name = "ContentType" then j = .string "Request"
  else ∃ members, j = .object members ∧ (name.name = "Message" →
    members.lookup "content_type" = some (.string "Request") ∧
      ∃ content, members.lookup "content" = some (.object content))

theorem written_messages : Written messages := by
  intro entry hentry
  simp only [messages, List.mem_cons, List.not_mem_nil, or_false] at hentry
  rcases hentry with rfl | rfl | rfl <;> rfl

theorem interprets_messages {outputDir : Directory} {modules : List TSModule}
    (h : writeTypeScriptOutput messages ⟨[], []⟩ outputDir none = .ok modules) :
    Interprets messageTypes modules := by
  intro m hm d hd j
  obtain ⟨entry, hentry, hd⟩ := (mem_declarations isResolved_messages h d).mp ⟨m, hm, hd⟩
  have hall : messages.types.flatMap (declarationsFor messages) =
      [.interface ⟨"Request", "Request"⟩ [],
        .type ⟨"Content", "Content"⟩ [.name ⟨"Request", "Request"⟩],
        .type ⟨"ContentType", "Content"⟩ [.literal "Request"], .interface ⟨"Message", "Message"⟩
          [⟨"content_type", false, .name ⟨"ContentType", "Content"⟩⟩,
            ⟨"content", false, .name ⟨"Content", "Content"⟩⟩]] := by
    decide
  have hmem : d ∈ messages.types.flatMap (declarationsFor messages) :=
    List.mem_flatMap.mpr ⟨entry, hentry, hd⟩
  rw [hall] at hmem
  simp only [List.mem_cons, List.not_mem_nil, or_false] at hmem
  rcases hmem with rfl | rfl | rfl | rfl
  · simp [TSDeclaration.declared, messageTypes, TSDeclaration.Holds]
  · simp [TSDeclaration.declared, messageTypes, TSDeclaration.Holds, TSValue.Holds]
  · simp [TSDeclaration.declared, messageTypes, TSDeclaration.Holds, TSValue.Holds]
  · have hmessage : messageTypes ⟨"Message", "Message"⟩ j ↔ ∃ members, j = .object members ∧
        members.lookup "content_type" = some (.string "Request") ∧
          ∃ content, members.lookup "content" = some (.object content) := by
      simp [messageTypes]
    refine hmessage.trans (exists_congr fun members => and_congr_right fun _ => ?_)
    constructor
    · rintro ⟨htag, content, hcontent⟩ f hf
      rcases List.mem_pair.mp hf with rfl | rfl
      · exact ⟨fun _ => by simp [htag], fun v hv => by simpa [htag, TSType.Holds, messageTypes,
          eq_comm] using hv⟩
      · refine ⟨fun _ => by simp [hcontent], fun v hv => ?_⟩
        obtain rfl := Option.some.inj (hcontent.symm.trans hv)
        simp [TSType.Holds, messageTypes]
    · intro hall
      obtain ⟨htag, htagType⟩ := hall _ List.mem_cons_self
      obtain ⟨hcontent, hcontentType⟩ := hall _ (List.mem_cons_of_mem _ List.mem_cons_self)
      obtain ⟨tag, hget⟩ := Option.isSome_iff_exists.mp (htag rfl)
      obtain ⟨content, hget'⟩ := Option.isSome_iff_exists.mp (hcontent rfl)
      have hvalue := htagType tag hget
      have hobject := hcontentType content hget'
      simp only [TSType.Holds, messageTypes, if_true] at hvalue
      simp [TSType.Holds, messageTypes] at hobject
      obtain ⟨members', rfl⟩ := hobject
      exact ⟨by rw [hget, hvalue], members', hget'⟩

theorem within_typeScript (ints : IntFormat) :
    DocumentFormat.Within ⟨.loose, ints⟩ typeScriptFormat where
  tagged := by simp [typeScriptFormat]
  paired := id
  named := id
  cased := id
  typed := id
  ints _ _ h := IntTypeName.fits_number h

/-- The default format is within what is generated for it. -/
theorem sibling_within (config : JsonSchemaConfig) (htypes : config.typesInUnions = false) :
    DocumentFormat.Within ⟨.sibling, .bounded⟩ config.format := by
  have hints : ∀ (type : IntTypeName) (j : JsonValue), type.Fits .bounded j →
      type.Fits (if config.strictIntTypes then .bounded else .integer) j := by
    intro type j h
    cases config.strictIntTypes with
    | true => exact h
    | false =>
      obtain ⟨n, rfl, hunsigned, -⟩ := h
      exact ⟨n, rfl, hunsigned⟩
  rw [JsonSchemaConfig.format, htypes]
  cases config.strictUnions with
  | true => exact ⟨by simp, by simp [UnionFormat.paired], by simp [UnionFormat.named],
      by simp [UnionFormat.cased], by simp [UnionFormat.typed], hints⟩
  | false => exact ⟨by simp, by simp [UnionFormat.paired], by simp [UnionFormat.named],
      by simp [UnionFormat.cased], by simp [UnionFormat.typed], hints⟩

theorem propertiesApart_messages_sibling : messages.PropertiesApart false := by
  intro key t h
  simp [messages] at h
  rcases h with ⟨rfl, rfl⟩ | ⟨rfl, rfl⟩
  · decide
  · decide

/-- The schema with tags beside unions, and without strict ones. -/
def looseConfig : JsonSchemaConfig :=
  { baseUri := exampleUri, typesInUnions := false, strictUnions := false }

/-- `{ "content_type": "Request", "content": {} }`. -/
def requestMessage : JsonValue :=
  .object [("content_type", .string "Request"), ("content", .object [])]

theorem fits_requestMessage : Fits messages ⟨.sibling, .bounded⟩
    (.value (.custom ⟨"Message", [], ["Message"]⟩)) requestMessage := by
  have hrequest : messages.types.get "Request" = some (.table
      ⟨⟨"Request", [], "m", "m", none⟩, false, [], true, false⟩) := rfl
  have hcontent : messages.types.get "Content" = some (.union ⟨"Content", [], "m", "m", none⟩
      [⟨⟨"Request", [], ["Request"]⟩, none, none⟩]) := rfl
  have hmessage : messages.types.get "Message" = some (.table
    ⟨⟨"Message", [], "m", "m", none⟩, false,
      [⟨"content", .custom ⟨"Content", [], ["Content"]⟩, none, none⟩], false, true⟩) := rfl
  have hvalue : Fits messages ⟨.sibling, .bounded⟩ (.table "Request" false) (.object []) :=
    .object hrequest (by simp) (by simp) (by simp) (by simp) (by simp)
  have hunion : DocumentFormat.sibling ⟨.sibling, .bounded⟩ messages
      ⟨"content", .custom ⟨"Content", [], ["Content"]⟩, none, none⟩ =
        some (⟨"Content", [], ["Content"]⟩, [⟨⟨"Request", [], ["Request"]⟩, none, none⟩]) := rfl
  refine .custom hmessage (.object hmessage (by simp) ?_ ?_ ?_ ?_)
  · intro field hfield _
    obtain rfl := List.mem_singleton.mp hfield
    exact ⟨rfl, fun _ => rfl⟩
  · intro field hfield _ v hv
    obtain rfl := List.mem_singleton.mp hfield
    obtain rfl : _ = v := Option.some.inj hv
    exact .union hcontent List.mem_cons_self hvalue
  · intro field hfield ref values hsibling
    obtain rfl := List.mem_singleton.mp hfield
    cases hunion.symm.trans hsibling
    refine ⟨fun _ => rfl, fun _ tag htag => ⟨_, List.mem_cons_self, ?_⟩⟩
    exact (Option.some.inj htag).symm
  · intro field hfield ref values hsibling _ member hmember _ v hv
    obtain rfl := List.mem_singleton.mp hfield
    cases hunion.symm.trans hsibling
    obtain rfl := List.mem_singleton.mp hmember
    obtain rfl : _ = v := Option.some.inj hv
    exact hvalue

end Motis.Protocol.TypeScript
