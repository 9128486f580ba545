import Motis.Protocol.Documents

/-! What the URLs of the definitions are meant to stand for.

    A URL names the definition for a form of a type, and stands for what fits it. With that, the
    definition of a table says of each field what a document has for it. -/

namespace Motis.Protocol

/-- The documents that are described. -/
def JSContext.format (ctx : JSContext) : DocumentFormat where
  unions := if ctx.typesInUnions then .tagged else if ctx.strictUnions then .strict else .loose
  ints := ctx.ints

/-- What the URLs of the definitions are meant to stand for. -/
def JSContext.Meaning (ctx : JSContext) (url : String) (j : JsonValue) : Prop :=
  ∃ entry ∈ ctx.schema.types, ∃ form ∈ entry.2.forms ctx,
    url = ctx.url ⟨entry.2.fqtn, form⟩ ∧ FormFits ctx.schema ctx.format entry form j

/-- What a schema and its context are expected to be. -/
structure JSContext.Sound (ctx : JSContext) (suffix : String) : Prop extends ctx.Plain suffix where
  resolved : ctx.schema.IsResolved
  unions : ctx.schema.UnionsOfTables
  suffixes : ctx.schema.NamesApart suffix
  tags : ctx.schema.NamesApart "Type"
  proto : ctx.schema.NoPrototype suffix
  properties : ctx.schema.PropertiesApart ctx.typesInUnions

/-- The type of a field, or of the root. -/
def SchemaTypes.IsTableRef (schema : SchemaTypes) (ref : TypeRef) : Prop :=
  (∃ entry ∈ schema.types, ref ∈ entry.2.tableRefs) ∨ schema.rootType = some ref

variable {ctx : JSContext} {suffix : String}

theorem tagged_iff : ctx.format.unions = .tagged ↔ ctx.typesInUnions = true := by
  rw [JSContext.format]
  split
  · simp [*]
  · split <;> simp [*]

@[simp] theorem decide_tagged : decide (ctx.format.unions = .tagged) = ctx.typesInUnions := by
  rw [Bool.eq_iff_iff, decide_eq_true_eq, tagged_iff]

@[simp] theorem sibling_eq (field : TableField) : ctx.format.sibling ctx.schema field =
    ctx.schema.siblingUnion ctx.typesInUnions field := by
  rw [DocumentFormat.sibling, decide_tagged]

/-! ### References -/

theorem isTableRef_field {key : String} {t : TableType} {field : TableField}
    (hmem : (key, SchemaType.table t) ∈ ctx.schema.types) (hfield : field ∈ t.fields) :
    ∀ ref ∈ field.type.refs, ctx.schema.IsTableRef ref :=
  fun _ href => .inl ⟨_, hmem, (mem_refs_of_field hmem hfield href).1⟩

section
variable (hctx : ctx.Sound suffix)
include hctx

theorem url_eq (t : SchemaType) (form : Form) :
    ctx.url ⟨t.fqtn, form⟩ = ctx.baseUri.pathname ++ formName ctx '/' t form := by
  rw [JSContext.url, hctx.refUrl]
  rfl

/-- A URL names one definition. -/
theorem resolves_url_iff {entry : String × SchemaType} {form : Form}
    (hentry : entry ∈ ctx.schema.types) (hform : form ∈ entry.2.forms ctx)
    (e : String × TypeSchema) : (e ∈ schemaDefinitions ctx ∧
        ctx.baseUri.resolves (ctx.url ⟨entry.2.fqtn, form⟩) e) ↔
      e = (formKey ctx entry.2 form, definition ctx entry.2 form) := by
  rw [← id_eq_iff hctx.tagged hctx.resolved hctx.suffixes hctx.tags hentry hform e,
    BaseUri.resolves, url_eq hctx, BaseUri.href, String.append_assoc]

theorem meaning_url {entry : String × SchemaType} {form : Form} (hentry : entry ∈ ctx.schema.types)
    (hform : form ∈ entry.2.forms ctx) (j : JsonValue) :
    ctx.Meaning (ctx.url ⟨entry.2.fqtn, form⟩) j ↔ FormFits ctx.schema ctx.format entry form j := by
  constructor
  · rintro ⟨entry', hentry', form', hform', hurl, hfits⟩
    rw [url_eq hctx, url_eq hctx, String.append_right_inj] at hurl
    obtain ⟨rfl, rfl⟩ := formName_inj hctx.tagged hctx.resolved hctx.suffixes hctx.tags (c := '/')
      (by simp) hentry hentry' hform hform' hurl
    exact hfits
  · exact fun hfits => ⟨entry, hentry, form, hform, rfl, hfits⟩

/-- It is generated without a tag. -/
theorem table_ref_entry {ref : TypeRef} (href : ctx.schema.IsTableRef ref) :
    ∃ t, (ref.key, t) ∈ ctx.schema.types ∧ .untagged ∈ t.forms ctx ∧ ref.resolvedFqtn = t.fqtn := by
  have hmem : ref ∈ ctx.schema.refs := by
    rcases href with ⟨entry, hentry, href⟩ | hroot
    · exact List.mem_append_left _ (List.mem_flatMap.mpr ⟨entry, hentry,
        List.mem_append_left _ href⟩)
    · exact List.mem_append_right _ (Option.mem_toList.mpr hroot)
  obtain ⟨⟨key, t⟩, hentry, hfqtn, hkey⟩ := bound_entry hctx.resolved hmem
  obtain rfl : ref.key = key := hkey
  refine ⟨t, hentry, ?_, hfqtn⟩
  refine untagged_of_used hctx.resolved hentry ?_
  rcases href with ⟨entry, hentry', href⟩ | hroot
  · exact .inl ⟨entry, hentry', ref, href, rfl⟩
  · exact .inr ⟨ref, hroot, rfl⟩

/-- The URL of the type of a field stands for the values of the type. -/
theorem meaning_ref {ref : TypeRef} (href : ctx.schema.IsTableRef ref)
    (j : JsonValue) : ctx.Meaning (ctx.getRefUrl ref.resolvedFqtn) j ↔
      Fits ctx.schema ctx.format (.value (.custom ref)) j := by
  obtain ⟨t, hentry, hform, hfqtn⟩ := table_ref_entry hctx href
  rw [← formFits_untagged ((get_eq_some hctx.resolved).mpr hentry),
    ← meaning_url hctx hentry hform, hfqtn]
  rfl

/-- The URL of a member of a union stands for the table, with its tag or without. -/
theorem meaning_member {key : String} {base : TypeBase} {values : List UnionValue}
    {member : UnionValue} (h : (key, SchemaType.union base values) ∈ ctx.schema.types)
    (hmember : member ∈ values) (j : JsonValue) :
    ctx.Meaning (ctx.url ⟨member.typeRef.resolvedFqtn, ctx.memberForm⟩) j ↔
      Fits ctx.schema ctx.format (.table member.typeRef.key ctx.typesInUnions) j := by
  obtain ⟨entry, hentry, hfqtn, hform⟩ := member_entry hctx.resolved hctx.unions h hmember
  obtain ⟨t, ht⟩ := hctx.unions key base values h member hmember
  have hkey : entry.1 = member.typeRef.key := by
    rw [hctx.resolved.key entry hentry, TypeRef.key, hfqtn]
  obtain rfl := entry_unique hctx.resolved hentry ht hkey
  have htagged : decide (ctx.memberForm = .tagged) = ctx.typesInUnions := by
    cases htypes : ctx.typesInUnions <;> simp [JSContext.memberForm, htypes]
  rw [hfqtn, meaning_url hctx hentry hform, formFits_table, htagged]

theorem fieldTypeToJS_holds {type : FieldType}
    (href : ∀ ref ∈ type.refs, ctx.schema.IsTableRef ref)
    (j : JsonValue) : (fieldTypeToJS ctx type).Holds ctx.Meaning j ↔
      Fits ctx.schema ctx.format (.value type) j := by
  induction type generalizing j with
  | basic type =>
    rw [fieldTypeToJS, basicTypeToJS_holds]
    constructor
    · exact fun h => .basic h
    · intro h
      cases h with
      | basic h => exact h
  | vector type ih =>
    rw [fieldTypeToJS, JSONSchema.Holds]
    constructor
    · rintro ⟨elements, rfl, hall⟩
      exact .vector fun x hx => (ih href x).mp (hall x hx)
    · intro h
      cases h with
      | vector hall => exact ⟨_, rfl, fun x hx => (ih href x).mpr (hall x hx)⟩
  | custom ref => exact meaning_ref hctx (href ref (List.mem_singleton_self ref)) j

end

/-! ### The definitions as equations -/

theorem table_memberRefs {key : String} {t : TableType} {form : Form}
    (hresolved : ctx.schema.IsResolved) (hmem : (key, SchemaType.table t) ∈ ctx.schema.types) :
    (definition ctx (.table t) form).memberRefs = [] := by
  have hadd : ∀ {js js' : TypeSchema} {tagged : Bool}, js.anyOf = none → js.oneOf = none →
      addTableProperties ctx t js tagged = .ok js' → js'.memberRefs = [] := by
    intro js js' tagged hany hone h
    rw [addTableProperties] at h
    obtain ⟨acc, -, h⟩ := Fallible.bind_ok h
    obtain rfl := Except.ok.inj h
    simp [TypeSchema.memberRefs, hany, hone]
  have hok := generate_ok hresolved hmem form
  cases form with
  | tagged => exact hadd rfl rfl hok
  | untagged => exact hadd rfl rfl hok
  | tags => exact hadd rfl rfl hok

section
variable (hctx : ctx.Sound suffix) {bundle : JsonSchemaBundle}
variable (hdefs : bundle.defs.entries = schemaDefinitions ctx)
include hctx hdefs

/-- An entry of the bundle has one URL. -/
theorem entry_of_resolves {e : String × TypeSchema} (he : e ∈ bundle.defs.entries) {url : String}
    (hurl : ctx.baseUri.resolves url e) : ∃ entry ∈ ctx.schema.types, ∃ form ∈ entry.2.forms ctx,
      e = (formKey ctx entry.2 form, definition ctx entry.2 form) ∧
      url = ctx.url ⟨entry.2.fqtn, form⟩ := by
  rw [hdefs] at he
  obtain ⟨entry, hentry, form, hform, rfl⟩ := mem_schemaDefinitions.mp he
  refine ⟨entry, hentry, form, hform, rfl, ?_⟩
  rw [BaseUri.resolves, Generated.id (generated_of_mem_forms hctx.resolved hentry hform),
    Option.some.injEq, BaseUri.href, String.append_assoc, String.append_right_inj] at hurl
  rw [url_eq hctx, hurl]

theorem bundle_flat : bundle.Flat ctx.baseUri := by
  refine ⟨?_, ?_, ?_⟩
  · intro e he e' he' url hurl hurl'
    obtain ⟨entry, hentry, form, hform, rfl, rfl⟩ := entry_of_resolves hctx hdefs he hurl
    rw [hdefs] at he'
    exact ((resolves_url_iff hctx hentry hform e').mp ⟨he', hurl'⟩).symm
  · intro e he p url hmem
    rw [hdefs] at he ⊢
    obtain ⟨entry, hentry, form, hform, rfl⟩ := mem_schemaDefinitions.mp he
    obtain ⟨⟨fqtn, form'⟩, hrefers, rfl⟩ :=
      Generated.refs (generated_of_mem_forms hctx.resolved hentry hform) p url hmem
    obtain ⟨entry', hentry', hfqtn, hform'⟩ :=
      refers_entry hctx.resolved hctx.unions hentry hrefers
    obtain rfl : fqtn = entry'.2.fqtn := hfqtn
    exact ⟨_, (resolves_url_iff hctx hentry' hform' _).mpr rfl⟩
  · intro e he url hmem e' he' hurl'
    rw [hdefs] at he he'
    obtain ⟨⟨key, t⟩, hentry, form, hform, rfl⟩ := mem_schemaDefinitions.mp he
    obtain ⟨p, hp⟩ := mem_refs_of_memberRefs hmem
    have hgenerated := generated_of_mem_forms hctx.resolved hentry hform
    cases t with
    | table t => simp [table_memberRefs hctx.resolved hentry] at hmem
    | enum base values => simp [definition, generate, enumToJS, getBaseJSProps,
        TypeSchema.memberRefs] at hmem
    | union base values =>
      obtain ⟨⟨fqtn, form'⟩, hrefers, rfl⟩ := Generated.refs hgenerated p url hp
      cases hrefers with
      | @member _ _ i value hget =>
        have hvalue := List.mem_of_getElem? hget
        obtain ⟨entry', hentry', hfqtn, hform'⟩ :=
          member_entry hctx.resolved hctx.unions hentry hvalue
        obtain ⟨t, ht⟩ := hctx.unions key base values hentry value hvalue
        have hkey : entry'.1 = value.typeRef.key := by
          rw [hctx.resolved.key entry' hentry', TypeRef.key, hfqtn]
        obtain rfl := entry_unique hctx.resolved hentry' ht hkey
        rw [hfqtn] at hurl'
        rw [(resolves_url_iff hctx hentry' hform' e').mp ⟨he', hurl'⟩]
        exact table_memberRefs hctx.resolved ht

/-- The URL of a form stands for its definition. -/
theorem interprets_url {V : String → JsonValue → Prop} (hV : bundle.Interprets ctx.baseUri V)
    {entry : String × SchemaType} {form : Form} (hentry : entry ∈ ctx.schema.types)
    (hform : form ∈ entry.2.forms ctx) (j : JsonValue) :
    V (ctx.url ⟨entry.2.fqtn, form⟩) j ↔ (definition ctx entry.2 form).Holds V j := by
  obtain ⟨he, hurl⟩ := (resolves_url_iff hctx hentry hform _).mpr rfl
  rw [← hdefs] at he
  exact hV _ he _ hurl j

end

theorem getConstString_holds (V : String → JsonValue → Prop) (value : String) (j : JsonValue) :
    (getConstString ctx value).Holds V j ↔ j = .string value := by
  rw [getConstString]
  split <;> simp [JSONSchema.Holds]

/-! ### Tables -/

/-- The union of a field. -/
theorem siblingUnion_some {schema : SchemaTypes} {typesInUnions : Bool} {field : TableField}
    {ref : TypeRef} {values : List UnionValue}
    (h : schema.siblingUnion typesInUnions field = some (ref, values)) :
    typesInUnions = false ∧ field.type = .custom ref ∧
      ∃ base, schema.types.get ref.key = some (.union base values) := by
  cases typesInUnions with
  | true => simp [SchemaTypes.siblingUnion] at h
  | false =>
    simp only [SchemaTypes.siblingUnion, Bool.false_eq_true, if_false, SchemaTypes.unionOf] at h
    split at h
    · rename_i ref' htype
      split at h
      · rename_i base values' hget
        cases h
        exact ⟨rfl, htype, base, hget⟩
      · cases h
    · cases h

section
variable (hctx : ctx.Sound suffix)
include hctx

/-- What fits the form of a type with tags: the names of the members. -/
theorem meaning_tags {ref : TypeRef} {base : TypeBase} {values : List UnionValue}
    (htypes : ctx.typesInUnions = false)
    (hget : ctx.schema.types.get ref.key = some (.union base values))
    (href : ctx.schema.IsTableRef ref) (j : JsonValue) :
    ctx.Meaning (ctx.url ⟨ref.resolvedFqtn, .tags⟩) j ↔
      ∃ member ∈ values, j = .string member.tag := by
  obtain ⟨t, hentry, -, hfqtn⟩ := table_ref_entry hctx href
  cases hget.symm.trans ((get_eq_some hctx.resolved).mpr hentry)
  have hform : .tags ∈ (SchemaType.union base values).forms ctx := by
    simp [SchemaType.forms, htypes]
  rw [hfqtn]
  exact meaning_url hctx hentry hform j

/-- What a document has for a field. -/
structure FieldFits (ctx : JSContext) (members : List (String × JsonValue)) (field : TableField) :
    Prop where
  required : isRequired field.metadata = true → (members.lookup field.name).isSome = true ∧
    ((ctx.format.sibling ctx.schema field).isSome = true →
      (members.lookup field.tagName).isSome = true)
  value : ctx.format.unions.typed = true ∨ ctx.format.sibling ctx.schema field = none →
    ∀ v, members.lookup field.name = some v → Fits ctx.schema ctx.format (.value field.type) v
  tag : ∀ ref values, ctx.format.sibling ctx.schema field = some (ref, values) →
    (ctx.format.unions.paired = true →
      (members.lookup field.tagName).isSome = (members.lookup field.name).isSome) ∧
    (ctx.format.unions.named = true → ∀ tag, members.lookup field.tagName = some tag →
      ∃ member ∈ values, tag = .string member.tag)
  case : ∀ ref values, ctx.format.sibling ctx.schema field = some (ref, values) →
    ctx.format.unions.cased = true → ∀ member ∈ values,
    (∀ tag, members.lookup field.tagName = some tag → tag = .string member.tag) →
    ∀ v, members.lookup field.name = some v →
      Fits ctx.schema ctx.format (.table member.typeRef.key false) v

/-- What the definition of a table says about a field. -/
def FieldHolds (ctx : JSContext) (j : JsonValue) (field : TableField) : Prop :=
  (∀ e ∈ fieldProps ctx field, PropertyHolds ctx.Meaning e.1 e.2 j) ∧
    (∀ c ∈ fieldCases ctx field, c.Holds ctx.Meaning j) ∧
    ∀ name ∈ fieldRequired ctx field, (j.get? name).isSome = true

/-- A field that is not a union, or is one with its type in it. -/
theorem field_step_plain {field : TableField} {members : List (String × JsonValue)}
    (hrefs : ∀ ref ∈ field.type.refs, ctx.schema.IsTableRef ref)
    (hnone : ctx.schema.siblingUnion ctx.typesInUnions field = none) :
    FieldHolds ctx (.object members) field ↔ FieldFits ctx members field := by
  simp only [FieldHolds, fieldProps, fieldCases, fieldRequired, SchemaTypes.fieldNames, hnone,
    List.mem_singleton, forall_eq]
  constructor
  · rintro ⟨hvalue, -, hrequired⟩
    refine ⟨fun hreq => ⟨hrequired _ (by simp [hreq]), by simp [hnone]⟩, ?_, by simp [hnone],
      by simp [hnone]⟩
    intro _ v hv
    exact (fieldTypeToJS_holds hctx hrefs v).mp (hvalue v hv)
  · intro h
    refine ⟨?_, by simp, ?_⟩
    · intro v hv
      exact (fieldTypeToJS_holds hctx hrefs v).mpr (h.value (.inr (by simp [hnone])) v hv)
    · intro name hname
      split at hname
      · rename_i hreq
        obtain rfl := List.mem_singleton.mp hname
        exact (h.required hreq).1
      · cases hname

/-- In the strict schema, a union is only in the cases. -/
theorem field_step_strict {field : TableField} {ref : TypeRef} {values : List UnionValue}
    {members : List (String × JsonValue)}
    (hunion : ctx.schema.siblingUnion ctx.typesInUnions field = some (ref, values))
    (hstrict : ctx.strictUnions = true) :
    FieldHolds ctx (.object members) field ↔ FieldFits ctx members field := by
  obtain ⟨htypes, htype, base, hget⟩ := siblingUnion_some hunion
  have hentry := (get_eq_some hctx.resolved).mp hget
  have hformat : ctx.format.unions = .strict := by simp [JSContext.format, htypes, hstrict]
  have hcase : ∀ member ∈ values, ∀ v, (JSONSchema.ref (ctx.getRefUrl
      member.typeRef.resolvedFqtn)).Holds ctx.Meaning v ↔
        Fits ctx.schema ctx.format (.table member.typeRef.key false) v := by
    intro member hmember v
    have hmeaning := meaning_member hctx hentry hmember v
    rw [JSContext.memberForm, htypes] at hmeaning
    exact hmeaning
  simp only [FieldHolds, fieldProps, fieldCases, fieldRequired, SchemaTypes.fieldNames, hunion,
    hstrict, if_true]
  constructor
  · rintro ⟨-, hcases, hrequired⟩
    refine ⟨fun hreq => ⟨?_, fun _ => ?_⟩, ?_, ?_, ?_⟩
    · exact hrequired field.name (by simp [hreq])
    · exact hrequired field.tagName (by simp [hreq])
    · simp [hformat, UnionFormat.typed, hunion]
    · simp [hformat, UnionFormat.paired, UnionFormat.named]
    · intro ref' values' hunion' _ member hmember htag v hv
      rw [sibling_eq, hunion] at hunion'
      cases hunion'
      refine (hcase member hmember v).mp (hcases _ (List.mem_map_of_mem hmember) ?_ v hv)
      intro tag hget
      rw [getConstString_holds]
      exact htag tag hget
  · intro h
    refine ⟨by simp, ?_, ?_⟩
    · intro c hc htag v hv
      obtain ⟨member, hmember, rfl⟩ := List.mem_map.mp hc
      refine (hcase member hmember v).mpr (h.case ref values (by rw [sibling_eq, hunion])
        (by rw [hformat]; rfl) member hmember ?_ v hv)
      intro tag hget
      rw [← @getConstString_holds ctx ctx.Meaning]
      exact htag tag hget
    · intro name hname
      split at hname
      · rename_i hreq
        rcases List.mem_pair.mp hname with rfl | rfl
        · exact (h.required hreq).2 (by simp [hunion])
        · exact (h.required hreq).1
      · cases hname

/-- In the loose schema, the type is one of the names and the value one of the members. -/
theorem field_step_loose {key : String} {t : TableType} {field : TableField} {ref : TypeRef}
    {values : List UnionValue} {members : List (String × JsonValue)}
    (hmem : (key, SchemaType.table t) ∈ ctx.schema.types) (hfield : field ∈ t.fields)
    (hunion : ctx.schema.siblingUnion ctx.typesInUnions field = some (ref, values))
    (hstrict : ctx.strictUnions = false) :
    FieldHolds ctx (.object members) field ↔ FieldFits ctx members field := by
  obtain ⟨htypes, htype, base, hget⟩ := siblingUnion_some hunion
  have hformat : ctx.format.unions = .loose := by simp [JSContext.format, htypes, hstrict]
  have hrefs := isTableRef_field hmem hfield
  have htags : ∀ tag, (JSONSchema.ref (ctx.url ⟨ref.resolvedFqtn, .tags⟩)).Holds ctx.Meaning tag ↔
      ∃ member ∈ values, tag = .string member.tag :=
    meaning_tags hctx htypes hget (hrefs ref (by rw [htype]; exact List.mem_singleton_self ref))
  simp only [FieldHolds, fieldProps, fieldCases, fieldRequired, SchemaTypes.fieldNames, hunion,
    hstrict, Bool.false_eq_true, if_false]
  constructor
  · rintro ⟨hprops, -, hrequired⟩
    refine ⟨fun hreq => ⟨?_, fun _ => ?_⟩, ?_, ?_, ?_⟩
    · exact hrequired field.name (by simp [hreq])
    · exact hrequired field.tagName (by simp [hreq])
    · intro _ v hv
      exact (fieldTypeToJS_holds hctx hrefs v).mp (hprops (field.name, _) (by simp) v hv)
    · intro ref' values' hunion'
      rw [sibling_eq, hunion] at hunion'
      cases hunion'
      refine ⟨by simp [hformat, UnionFormat.paired], fun _ tag htag => ?_⟩
      exact (htags tag).mp (hprops (field.tagName, _) (by simp) tag htag)
    · simp [hformat, UnionFormat.cased]
  · intro h
    refine ⟨?_, by simp, ?_⟩
    · intro e he v hv
      rcases List.mem_pair.mp he with rfl | rfl
      · refine (htags v).mpr ((h.tag ref values (by rw [sibling_eq, hunion])).2 ?_ v hv)
        rw [hformat]
        rfl
      · exact (fieldTypeToJS_holds hctx hrefs v).mpr (h.value (.inl (by rw [hformat]; rfl)) v hv)
    · intro name hname
      split at hname
      · rename_i hreq
        rcases List.mem_pair.mp hname with rfl | rfl
        · exact (h.required hreq).2 (by simp [hunion])
        · exact (h.required hreq).1
      · cases hname

theorem field_step {key : String} {t : TableType} {field : TableField}
    {members : List (String × JsonValue)} (hmem : (key, SchemaType.table t) ∈ ctx.schema.types)
    (hfield : field ∈ t.fields) :
    FieldHolds ctx (.object members) field ↔ FieldFits ctx members field := by
  cases hunion : ctx.schema.siblingUnion ctx.typesInUnions field with
  | none => exact field_step_plain hctx (isTableRef_field hmem hfield) hunion
  | some union =>
    obtain ⟨ref, values⟩ := union
    cases hstrict : ctx.strictUnions with
    | true => exact field_step_strict hctx hunion hstrict
    | false => exact field_step_loose hctx hmem hfield hunion hstrict

/-- The definition of a table holds of the objects with its fields. -/
theorem table_step {key : String} {t : TableType} {form : Form}
    (hmem : (key, SchemaType.table t) ∈ ctx.schema.types) (j : JsonValue) :
    (definition ctx (.table t) form).Holds ctx.Meaning j ↔
      FormFits ctx.schema ctx.format (key, .table t) form j := by
  rw [table_holds_iff hctx.toPlain hctx.resolved hctx.properties hctx.proto hmem, hctx.typeKey]
  have hget := (get_eq_some hctx.resolved).mpr hmem
  constructor
  · rintro ⟨⟨members, rfl⟩, htag, htagRequired, hfields⟩
    have hfits := fun field hfield => (field_step hctx hmem hfield).mp (hfields field hfield)
    refine .object hget ?_ (fun field hfield => (hfits field hfield).required)
      (fun field hfield => (hfits field hfield).value)
      (fun field hfield => (hfits field hfield).tag)
      (fun field hfield => (hfits field hfield).case)
    intro htagged
    rw [decide_eq_true_eq] at htagged
    obtain ⟨v, hv⟩ := Option.isSome_iff_exists.mp (htagRequired htagged)
    have hmemTag : ("_type", getConstString ctx t.name) ∈ tagProps ctx t (form = .tagged) := by
      simp [tagProps, htagged, hctx.typeKey]
    have hconst := htag _ hmemTag v hv
    rw [getConstString_holds] at hconst
    rw [← hconst]
    exact hv
  · intro h
    cases h with
    | object hget' htag hrequired hvalues hsiblings hcases =>
      cases hget.symm.trans hget'
      refine ⟨⟨_, rfl⟩, ?_, ?_, fun field hfield => (field_step hctx hmem hfield).mpr ?_⟩
      · intro e he v hv
        rw [tagProps] at he
        split at he
        · rename_i htagged
          obtain rfl := List.mem_singleton.mp he
          rw [getConstString_holds]
          rw [hctx.typeKey] at hv
          exact Option.some.inj (hv.symm.trans (htag htagged))
        · cases he
      · intro htagged
        rw [JsonValue.get?_object, htag (by simp [htagged])]
        rfl
      · exact ⟨hrequired field hfield, hvalues field hfield, hsiblings field hfield,
          hcases field hfield⟩

end

end Motis.Protocol
