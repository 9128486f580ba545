import Motis.Protocol.GeneratedDefinitions

/-! The references of a document are closed.

    Every `$ref` of the definitions, and that of the root, names the definition of what it refers to.
    So do the bodies of an OpenAPI document, when they are the content of a message alone. A body
    that is the whole message refers to the untagged form of its content, which is only generated
    when the content is used in a table, or unions do not carry their types. -/

namespace Motis.Protocol

/-- The members of unions are tables. -/
def SchemaTypes.UnionsOfTables (schema : SchemaTypes) : Prop :=
  ∀ key base values, (key, SchemaType.union base values) ∈ schema.types → ∀ value ∈ values,
    ∃ t, (value.typeRef.key, SchemaType.table t) ∈ schema.types

/-! ### Closed documents -/

/-- A URL names the definition of what it refers to, and no other one: `resolves` says which entries
    of a document it stands for, `writes` how a definition is written into the document. -/
def Names (ctx : JSContext) (resolves : String → String × TypeSchema → Prop)
    (writes : String → TypeSchema → TypeSchema → Prop) (defs : Definitions) (url : String)
    (r : Reference) : Prop :=
  ∃ key t js written, (key, t) ∈ ctx.schema.types ∧ r.fqtn = t.fqtn ∧ ctx.Generated t r.form js ∧
    writes (joinDots (ctx.formFqtn r)) js written ∧
    ∀ entry, entry ∈ defs ∧ resolves url entry ↔ entry = (joinDots (ctx.formFqtn r), written)

/-- Every definition is that of a type, and every `$ref` in it names what the type refers to there. -/
def DefinitionsClosed (ctx : JSContext) (resolves : String → String × TypeSchema → Prop)
    (writes : String → TypeSchema → TypeSchema → Prop) (defs : Definitions) : Prop :=
  ∀ entry ∈ defs, ∃ key t form js, (key, t) ∈ ctx.schema.types ∧ ctx.Generated t form js ∧
    writes entry.1 js entry.2 ∧ entry.1 = joinDots (ctx.formFqtn ⟨t.fqtn, form⟩) ∧
    ∀ p url, (p, url) ∈ entry.2.refs → ∃ r, ctx.Refers t p r ∧
      Names ctx resolves writes defs url r

/-- A path on the server of the base URI. -/
def BaseUri.resolves (baseUri : BaseUri) (url : String) (entry : String × TypeSchema) : Prop :=
  entry.2.id = some (baseUri.origin ++ url)

structure JsonSchemaBundle.Closed (ctx : JSContext) (bundle : JsonSchemaBundle) : Prop where
  defs : DefinitionsClosed ctx ctx.baseUri.resolves (fun _ js written => written = js)
    bundle.defs.entries
  root : ∀ url, bundle.ref = some url → ∃ rootType, ctx.schema.rootType = some rootType ∧
    Names ctx (fun url entry => entry.2.id = some url) (fun _ js written => written = js)
      bundle.defs.entries url ⟨rootType.resolvedFqtn, .untagged⟩

namespace OpenApi

def resolves (url : String) (entry : String × TypeSchema) : Prop :=
  url = "#/components/schemas/" ++ entry.1

def writes (includeIds : Bool) (fqtn : String) (js written : TypeSchema) : Prop :=
  writeSchema includeIds fqtn js = .ok written

end OpenApi

def BodySchema.ref : BodySchema → String
  | .content ref => ref
  | .message _ _ _ ref => ref

/-- The content alone needs a `_type`; a message has a `content_type`. -/
def BodySchema.form : BodySchema → Form
  | .content _ => .tagged
  | .message .. => .untagged

/-- The types of the bodies of a path, the request first. -/
def DocPath.bodyTypes (path : DocPath) : List String :=
  path.request.toList ++ [path.okType, "motis.MotisError"]

def Operation.bodies (operation : Operation) : List BodySchema :=
  operation.requestBody.toList ++ operation.responses.map (·.schema)

structure OpenApi.Closed (ctx : JSContext) (includeIds : Bool) (doc : Documentation)
    (openApi : OpenApi) : Prop where
  schemas : DefinitionsClosed ctx OpenApi.resolves (OpenApi.writes includeIds) openApi.schemas
  bodies : List.Forall₂ (fun (path : DocPath) (operation : Operation) =>
      List.Forall₂ (fun fqtn (body : BodySchema) =>
        Names ctx OpenApi.resolves (OpenApi.writes includeIds) openApi.schemas body.ref
          ⟨splitDots fqtn, body.form⟩) path.bodyTypes operation.bodies)
    doc.paths openApi.paths

/-- The documents that are written are closed. -/
def ReferencesClosed (schema : SchemaTypes) (json : JsonSchemaConfig) (openApi : OpenApiConfig)
    (doc : Documentation) : Prop :=
  (∀ bundle, writeJsonSchemaOutput schema json = .ok bundle → bundle.Closed (json.context schema)) ∧
  ∀ document, writeOpenAPIOutput schema doc openApi = .ok document →
    document.Closed (openApi.context schema) openApi.ids doc

/-- The untagged form of a type is generated. -/
def SchemaTypes.hasUntagged (schema : SchemaTypes) (typesInUnions : Bool) (fqtn : String) : Bool :=
  match schema.types.get fqtn with
  | none => false
  | some (.table t) => !typesInUnions || t.usedInTable
  | some _ => true

/-! ### What a type refers to is generated -/

variable {ctx : JSContext}

theorem mem_refs_of_field {key : String} {t : TableType} {field : TableField} {ref : TypeRef}
    (h : (key, SchemaType.table t) ∈ ctx.schema.types) (hfield : field ∈ t.fields)
    (href : ref ∈ field.type.refs) :
    ref ∈ (SchemaType.table t).tableRefs ∧ ref ∈ ctx.schema.refs := by
  have htable : ref ∈ (SchemaType.table t).tableRefs := List.mem_flatMap.mpr ⟨field, hfield, href⟩
  refine ⟨htable, List.mem_append_left _ (List.mem_flatMap.mpr ⟨_, h, ?_⟩)⟩
  exact List.mem_append_left _ htable

theorem mem_refs_of_union {key : String} {base : TypeBase} {values : List UnionValue}
    {value : UnionValue} (h : (key, SchemaType.union base values) ∈ ctx.schema.types)
    (hvalue : value ∈ values) :
    value.typeRef ∈ (SchemaType.union base values).unionRefs ∧ value.typeRef ∈ ctx.schema.refs := by
  have hunion : value.typeRef ∈ (SchemaType.union base values).unionRefs :=
    List.mem_map_of_mem hvalue
  refine ⟨hunion, List.mem_append_left _ (List.mem_flatMap.mpr ⟨_, h, ?_⟩)⟩
  exact List.mem_append_right _ hunion

/-- A type that is used in a table is generated without a tag. -/
theorem untagged_of_used (hresolved : ctx.schema.IsResolved) {entry : String × SchemaType}
    (hentry : entry ∈ ctx.schema.types)
    (hused : (∃ entry' ∈ ctx.schema.types, ∃ ref ∈ entry'.2.tableRefs, ref.key = entry.1) ∨
      ∃ ref, ctx.schema.rootType = some ref ∧ ref.key = entry.1) :
    .untagged ∈ entry.2.forms ctx := by
  refine untagged_mem_forms fun table htable => .inr ?_
  obtain ⟨key, t⟩ := entry
  obtain rfl : t = .table table := htable
  exact (hresolved.usedInTable key table hentry).mpr hused

/-- A member of a union is generated in the form the union refers to. -/
theorem member_entry (hresolved : ctx.schema.IsResolved) (hunions : ctx.schema.UnionsOfTables)
    {key : String} {base : TypeBase} {values : List UnionValue} {value : UnionValue}
    (h : (key, SchemaType.union base values) ∈ ctx.schema.types)
    (hvalue : value ∈ values) : ∃ entry ∈ ctx.schema.types,
      value.typeRef.resolvedFqtn = entry.2.fqtn ∧ ctx.memberForm ∈ entry.2.forms ctx := by
  obtain ⟨hunion, href⟩ := mem_refs_of_union h hvalue
  obtain ⟨⟨key', t'⟩, hentry, hfqtn, hkey⟩ := bound_entry hresolved href
  refine ⟨_, hentry, hfqtn, ?_⟩
  obtain ⟨t, ht⟩ := hunions key base values h value hvalue
  have heq := entry_unique hresolved hentry ht hkey.symm
  cases heq
  cases htypes : ctx.typesInUnions with
  | true =>
    have hused : t.usedInUnion = true :=
      (hresolved.usedInUnion _ t ht).mpr ⟨_, h, value.typeRef, hunion, rfl⟩
    simp [JSContext.memberForm, SchemaType.forms, htypes, hused]
  | false => simp [JSContext.memberForm, SchemaType.forms, htypes]

theorem refers_entry (hresolved : ctx.schema.IsResolved) (hunions : ctx.schema.UnionsOfTables)
    {key : String} {t : SchemaType} {p : Place} {r : Reference}
    (hmem : (key, t) ∈ ctx.schema.types) (h : ctx.Refers t p r) :
    ∃ entry ∈ ctx.schema.types, r.fqtn = entry.2.fqtn ∧ r.form ∈ entry.2.forms ctx := by
  cases h with
  | member hget => exact member_entry hresolved hunions hmem (List.mem_of_getElem? hget)
  | property hfield href =>
    obtain ⟨htable, href⟩ := mem_refs_of_field hmem hfield href
    obtain ⟨entry, hentry, hfqtn, hkey⟩ := bound_entry hresolved href
    refine ⟨entry, hentry, hfqtn, untagged_of_used hresolved hentry (.inl ?_)⟩
    exact ⟨_, hmem, _, htable, hkey⟩
  | unionTag htypes hfield htype hget =>
    obtain ⟨-, href⟩ := mem_refs_of_field hmem hfield
      (by rw [htype]; exact List.mem_singleton_self _)
    obtain ⟨entry, hentry, hfqtn, hkey⟩ := bound_entry hresolved href
    have heq := entry_unique hresolved hentry ((get_eq_some hresolved).mp hget) hkey.symm
    refine ⟨entry, hentry, hfqtn, ?_⟩
    simp [heq, SchemaType.forms, htypes]
  | case htypes hfield htype hget hvalue =>
    have hmember := member_entry hresolved hunions ((get_eq_some hresolved).mp hget) hvalue
    rwa [JSContext.memberForm, htypes] at hmember

/-! ### JSON Schema -/

theorem Generated.id {t : SchemaType} {form : Form} {js : TypeSchema}
    (h : ctx.Generated t form js) :
    js.id = some (ctx.baseUri.href ++ formName ctx '/' t form) := by
  cases h with
  | enum base values => rfl
  | union base values =>
    rw [unionToJS]
    split <;> rfl
  | unionTags base values htypes =>
    rw [formName, JSContext.formFqtn, appendToLast_fqtn]
    rfl
  | untagged hused hjs => exact (refs_addTableProperties hjs).1
  | tagged htypes hused hjs => exact (refs_addTableProperties hjs).1

section
variable {suffix : String} (hsuffix : ∀ fqtn, ctx.getTaggedType fqtn = appendToLast fqtn suffix)
variable (hresolved : ctx.schema.IsResolved) (hsuffixes : ctx.schema.NamesApart suffix)
variable (htype : ctx.schema.NamesApart "Type")
include hsuffix hresolved hsuffixes htype

/-- The `$id` of a definition is its own. -/
theorem id_eq_iff {entry : String × SchemaType} {form : Form} (hentry : entry ∈ ctx.schema.types)
    (hform : form ∈ entry.2.forms ctx) (e : String × TypeSchema) :
    (e ∈ schemaDefinitions ctx ∧
        e.2.id = some (ctx.baseUri.href ++ formName ctx '/' entry.2 form)) ↔
      e = (formKey ctx entry.2 form, definition ctx entry.2 form) := by
  constructor
  · rintro ⟨he, hid⟩
    obtain ⟨entry', hentry', form', hform', rfl⟩ := mem_schemaDefinitions.mp he
    have hgenerated := generated_of_mem_forms hresolved hentry' hform'
    rw [Generated.id hgenerated, Option.some.injEq, String.append_right_inj] at hid
    obtain ⟨rfl, rfl⟩ := formName_inj hsuffix hresolved hsuffixes htype (c := '/') (by simp) hentry'
      hentry hform' hform hid
    rfl
  · rintro rfl
    exact ⟨mem_schemaDefinitions.mpr ⟨entry, hentry, form, hform, rfl⟩,
      Generated.id (generated_of_mem_forms hresolved hentry hform)⟩

theorem names_of_id {resolves : String → String × TypeSchema → Prop} {url : String} {r : Reference}
    (hr : ∃ entry ∈ ctx.schema.types, r.fqtn = entry.2.fqtn ∧ r.form ∈ entry.2.forms ctx)
    (hurl : ∀ e, resolves url e ↔
      e.2.id = some (ctx.baseUri.href ++ joinSlashes (ctx.formFqtn r))) :
    Names ctx resolves (fun _ js written => written = js) (schemaDefinitions ctx) url r := by
  obtain ⟨entry, hentry, hfqtn, hform⟩ := hr
  obtain ⟨fqtn, form⟩ := r
  obtain rfl : fqtn = entry.2.fqtn := hfqtn
  refine ⟨entry.1, entry.2, _, _, hentry, rfl, generated_of_mem_forms hresolved hentry hform, rfl,
    fun e => ?_⟩
  rw [hurl]
  exact id_eq_iff hsuffix hresolved hsuffixes htype hentry hform e

end

theorem jsonSchema_closed {schema : SchemaTypes} {json : JsonSchemaConfig}
    {bundle : JsonSchemaBundle} (hresolved : schema.IsResolved) (hunions : schema.UnionsOfTables)
    (hsuffixes : schema.NamesApart json.suffix) (htype : schema.NamesApart "Type")
    (hproto : schema.NoPrototype json.suffix)
    (h : writeJsonSchemaOutput schema json = .ok bundle) : bundle.Closed (json.context schema) := by
  have hsuffix : ∀ fqtn, (json.context schema).getTaggedType fqtn =
      appendToLast fqtn json.suffix := fun _ => rfl
  obtain ⟨r, hrun, htypes, -⟩ := @getJSONSchemaTypes_run (json.context schema) _ hsuffix hresolved
    hsuffixes htype hproto
  rw [writeJsonSchemaOutput] at h
  simp only [hrun] at h
  obtain rfl := Except.ok.inj h
  simp only [htypes]
  constructor
  · intro e he
    obtain ⟨entry, hentry, form, hform, rfl⟩ := mem_schemaDefinitions.mp he
    have hgenerated := generated_of_mem_forms hresolved hentry hform
    refine ⟨entry.1, entry.2, form, _, hentry, hgenerated, rfl, rfl, fun p url hmem => ?_⟩
    obtain ⟨r, hrefers, rfl⟩ := Generated.refs hgenerated p url hmem
    refine ⟨r, hrefers, names_of_id hsuffix hresolved hsuffixes htype
      (refers_entry hresolved hunions hentry hrefers) fun e => ?_⟩
    simp only [BaseUri.resolves, JSContext.url, JsonSchemaConfig.context, getDefaultRefUrl,
      BaseUri.href, String.append_assoc, Bool.false_eq_true, if_false]
  · intro url hurl
    obtain ⟨rootType, hroot, rfl⟩ := Option.map_eq_some_iff.mp hurl
    refine ⟨rootType, hroot, names_of_id hsuffix hresolved hsuffixes htype ?_ fun e => ?_⟩
    · have href : rootType ∈ schema.refs :=
        List.mem_append_right _ (Option.mem_toList.mpr hroot)
      obtain ⟨entry, hentry, hfqtn, hkey⟩ := @bound_entry schema hresolved _ href
      exact ⟨entry, hentry, hfqtn, untagged_of_used hresolved hentry (.inr ⟨rootType, hroot, hkey⟩)⟩
    · simp [getDefaultRefUrl, JSContext.formFqtn]

/-! ### OpenAPI components -/

theorem JsObject.prototype_set {α : Type} (o : JsObject α) {key : String} (h : key ≠ "__proto__")
    (value : α) : (o.set key value).prototype = o.prototype := by
  rw [JsObject.set, if_neg h]

theorem prototype_foldlM {t : TableType} {fields : List TableField} {acc acc' : TableProperties}
    (hacc : acc.props.prototype = none) (hfields : ∀ field ∈ fields, field.name ≠ "__proto__")
    (h : fields.foldlM (addField ctx t) acc = .ok acc') : acc'.props.prototype = none := by
  refine Fallible.foldlM_inv (fun acc => acc.props.prototype = none) ?_ hacc h
  intro field hmem acc acc' hacc hstep
  have hfield := hfields field hmem
  have htag : field.name ++ "_type" ≠ "__proto__" := append_ne_proto (by decide) _
  rcases (addField_cases hstep).2 with
    ⟨hprops, -⟩ | ⟨ref, base, values, -, -, -, ⟨hprops, -⟩ | ⟨hprops, -⟩⟩
  · rw [hprops, JsObject.prototype_set _ hfield, hacc]
  · rw [hprops, hacc]
  · rw [hprops, JsObject.prototype_set _ hfield, JsObject.prototype_set _ htag, hacc]

theorem prototype_addTableProperties {t : TableType} {js js' : TypeSchema} {tagged : Bool}
    (hkey : ctx.typeKey ≠ "__proto__") (hfields : ∀ field ∈ t.fields, field.name ≠ "__proto__")
    (h : addTableProperties ctx t js tagged = .ok js') {o : JsObject JSONSchema}
    (ho : js'.properties = some o) : o.prototype = none := by
  rw [addTableProperties] at h
  obtain ⟨acc, hloop, h⟩ := Fallible.bind_ok h
  obtain rfl := Except.ok.inj h
  have hinit : (if tagged then
      (({} : TableProperties).setProp ctx.typeKey (getConstString ctx t.name)).require true
        ctx.typeKey
      else {}).props.prototype = none := by
    cases tagged with
    | false => rfl
    | true => exact JsObject.prototype_set _ hkey _
  have hacc := prototype_foldlM hinit hfields hloop
  simp only at ho
  split at ho
  · cases ho
  · obtain rfl := Option.some.inj ho
    exact hacc

theorem prototype_generated {t : SchemaType} {form : Form} {js : TypeSchema}
    (hkey : ctx.typeKey ≠ "__proto__")
    (hfields : ∀ table, t = .table table → ∀ field ∈ table.fields, field.name ≠ "__proto__")
    (h : ctx.Generated t form js) {o : JsObject JSONSchema} (ho : js.properties = some o) :
    o.prototype = none := by
  cases h with
  | enum base values => cases ho
  | union base values =>
    rw [unionToJS] at ho
    split at ho <;> cases ho
  | unionTags base values htypes => cases ho
  | untagged hused hjs => exact prototype_addTableProperties hkey (hfields _ rfl) hjs ho
  | tagged htypes hused hjs => exact prototype_addTableProperties hkey (hfields _ rfl) hjs ho

theorem writePropertySchema_eq (js : JSONSchema) : writePropertySchema js = js := by
  induction js with
  | array items ih => rw [writePropertySchema, ih]
  | basic type format minimum maximum => rfl
  | const value => rfl
  | enum values => rfl
  | ref url => rfl

/-- A definition as a component. -/
def component (includeIds : Bool) (fqtn : String) (js : TypeSchema) : TypeSchema :=
  { js with
    id := if includeIds then js.id else none
    title := if fqtn = "" then none else some fqtn }

theorem writeSchema_eq {js : TypeSchema} (h : ∀ o, js.properties = some o → o.prototype = none)
    (includeIds : Bool) (fqtn : String) :
    writeSchema includeIds fqtn js = .ok (component includeIds fqtn js) := by
  have hproperties : js.properties.mapM writeProperties = .ok js.properties := by
    cases hjs : js.properties with
    | none => rfl
    | some o =>
      have hwrite : writeProperties o = .ok o := by
        simp only [writeProperties, h o hjs, writePropertySchema_eq]
        have heq : (⟨o.entries.map fun e => (e.1, e.2), none⟩ : JsObject JSONSchema) = o := by
          rw [← h o hjs]
          simp
        exact congrArg Except.ok heq
      rw [Option.mapM_some, hwrite]
      rfl
  rw [writeSchema, hproperties]
  rfl

theorem OpenApi.resolves_getRefUrl {fqtn : List String} {e : String × TypeSchema} :
    OpenApi.resolves (OpenApi.getRefUrl fqtn) e ↔ e.1 = joinDots fqtn := by
  have hiff : OpenApi.resolves (OpenApi.getRefUrl fqtn) e ↔ joinDots fqtn = e.1 :=
    String.append_right_inj "#/components/schemas/"
  rw [hiff, eq_comm]

section
variable {includeIds : Bool} (hsuffix : ∀ fqtn, ctx.getTaggedType fqtn = appendToLast fqtn "T")
variable (hkey : ctx.typeKey ≠ "__proto__")
variable (hresolved : ctx.schema.IsResolved) (hsuffixes : ctx.schema.NamesApart "T")
variable (htype : ctx.schema.NamesApart "Type") (hproto : ctx.schema.NoPrototype "T")

/-- The components of a document. -/
def components (ctx : JSContext) (includeIds : Bool) : Definitions :=
  (schemaDefinitions ctx).map fun e => (e.1, component includeIds e.1 e.2)

include hkey hresolved hproto

theorem writes_definition {entry : String × SchemaType} {form : Form}
    (hentry : entry ∈ ctx.schema.types) (hform : form ∈ entry.2.forms ctx) (fqtn : String) :
    OpenApi.writes includeIds fqtn (definition ctx entry.2 form)
      (component includeIds fqtn (definition ctx entry.2 form)) := by
  refine writeSchema_eq (fun o ho => ?_) includeIds fqtn
  refine prototype_generated hkey (fun table htable => ?_)
    (generated_of_mem_forms hresolved hentry hform) ho
  exact hproto.fields entry.1 table (htable ▸ hentry)

include hsuffix hsuffixes htype

theorem names_component {url : String} {r : Reference}
    (hr : ∃ entry ∈ ctx.schema.types, r.fqtn = entry.2.fqtn ∧ r.form ∈ entry.2.forms ctx)
    (hr' : url = OpenApi.getRefUrl (ctx.formFqtn r)) :
    Names ctx OpenApi.resolves (OpenApi.writes includeIds) (components ctx includeIds) url r := by
  obtain ⟨entry, hentry, hfqtn, hform⟩ := hr
  obtain ⟨fqtn, form⟩ := r
  obtain rfl : fqtn = entry.2.fqtn := hfqtn
  have hmem : (formKey ctx entry.2 form, definition ctx entry.2 form) ∈ schemaDefinitions ctx :=
    mem_schemaDefinitions.mpr ⟨entry, hentry, form, hform, rfl⟩
  refine ⟨entry.1, entry.2, _, _, hentry, rfl, generated_of_mem_forms hresolved hentry hform,
    writes_definition hkey hresolved hproto hentry hform _, fun e => ?_⟩
  rw [hr', OpenApi.resolves_getRefUrl]
  constructor
  · rintro ⟨he, hname⟩
    obtain ⟨⟨key, js⟩, hjs, rfl⟩ := List.mem_map.mp he
    obtain rfl : key = formKey ctx entry.2 form := hname
    have hnodup := nodup_schemaDefinitions hsuffix hresolved hsuffixes htype
    rw [InsertionMap.value_unique hnodup hjs hmem]
    rfl
  · rintro rfl
    exact ⟨List.mem_map_of_mem hmem, rfl⟩

theorem components_closed (hunions : ctx.schema.UnionsOfTables)
    (hurl : ∀ fqtn, ctx.getRefUrl fqtn = OpenApi.getRefUrl fqtn) :
    DefinitionsClosed ctx OpenApi.resolves (OpenApi.writes includeIds)
      (components ctx includeIds) := by
  intro e he
  obtain ⟨e', he', rfl⟩ := List.mem_map.mp he
  obtain ⟨entry, hentry, form, hform, rfl⟩ := mem_schemaDefinitions.mp he'
  have hgenerated := generated_of_mem_forms hresolved hentry hform
  refine ⟨entry.1, entry.2, form, _, hentry, hgenerated,
    writes_definition hkey hresolved hproto hentry hform _, rfl, fun p url hmem => ?_⟩
  obtain ⟨r, hrefers, rfl⟩ := Generated.refs hgenerated p url hmem
  exact ⟨r, hrefers, names_component hsuffix hkey hresolved hsuffixes htype hproto
    (refers_entry hresolved hunions hentry hrefers) (hurl _)⟩

/-! ### Bodies -/

/-- The untagged form of a type is named when it is generated. -/
theorem names_untagged_iff {fqtn : String} :
    Names ctx OpenApi.resolves (OpenApi.writes includeIds) (components ctx includeIds)
      (OpenApi.getRefUrl (splitDots fqtn)) ⟨splitDots fqtn, .untagged⟩ ↔
    ctx.schema.hasUntagged ctx.typesInUnions fqtn = true := by
  constructor
  · rintro ⟨key, t, js, written, hmem, hfqtn, hgenerated, -⟩
    have hkey := hresolved.key _ hmem
    simp only at hkey hfqtn
    rw [← hfqtn, joinDots_splitDots] at hkey
    obtain rfl := hkey
    rw [SchemaTypes.hasUntagged, (get_eq_some hresolved).mpr hmem]
    cases hgenerated with
    | enum base values => rfl
    | union base values => rfl
    | untagged hused hjs => simpa using hused
  · intro huntagged
    rw [SchemaTypes.hasUntagged] at huntagged
    cases hget : ctx.schema.types.get fqtn with
    | none => simp [hget] at huntagged
    | some t =>
      have hmem := (get_eq_some hresolved).mp hget
      refine names_component hsuffix hkey hresolved hsuffixes htype hproto
        ⟨_, hmem, splitDots_key hresolved hmem, untagged_mem_forms fun table htable => ?_⟩ rfl
      obtain rfl : t = .table table := htable
      simpa [hget] using huntagged

/-- The tagged form of a type is named when it has a tagged name. -/
theorem names_tagged {fqtn taggedType : String}
    (h : (fqtn, taggedType) ∈ ctx.schema.types.flatMap (taggedNames ctx)) :
    Names ctx OpenApi.resolves (OpenApi.writes includeIds) (components ctx includeIds)
      (OpenApi.getRefUrl (splitDots taggedType)) ⟨splitDots fqtn, .tagged⟩ := by
  obtain ⟨entry, hentry, hmem⟩ := List.mem_flatMap.mp h
  rw [taggedNames] at hmem
  split at hmem
  · rename_i hform
    obtain ⟨rfl, rfl⟩ := Prod.mk.inj (List.mem_singleton.mp hmem)
    have hsplit := @splitDots_key ctx entry.1 entry.2 hresolved hentry
    have hjoin : joinDots (splitDots (formKey ctx entry.2 .tagged)) =
        joinDots (ctx.formFqtn ⟨splitDots entry.1, .tagged⟩) := by
      rw [joinDots_splitDots, hsplit, formKey]
    exact names_component hsuffix hkey hresolved hsuffixes htype hproto
      ⟨entry, hentry, hsplit, hform⟩ (congrArg ("#/components/schemas/" ++ ·) hjoin)
  · cases hmem

end

theorem forall₂_mem {α β : Type} {R S : α → β → Prop} {l : List α} {l' : List β} {a : α}
    (h : List.Forall₂ R l l') (h' : List.Forall₂ S l l') (ha : a ∈ l) : ∃ b, R a b ∧ S a b := by
  induction h with
  | nil => cases ha
  | cons hR hrest ih =>
    obtain ⟨hS, hrest'⟩ := List.forall₂_cons.mp h'
    rcases List.mem_cons.mp ha with rfl | ha
    · exact ⟨_, hR, hS⟩
    · exact ih hrest' ha

theorem forall₂_imp_mem {α β : Type} {R S : α → β → Prop} {l : List α} {l' : List β}
    (h : List.Forall₂ R l l') (himp : ∀ a ∈ l, ∀ b, R a b → S a b) : List.Forall₂ S l l' := by
  induction h with
  | nil => exact .nil
  | cons hR hrest ih =>
    obtain ⟨ha, hl⟩ := List.forall_mem_cons.mp himp
    exact .cons (ha _ hR) (ih hl)

/-- What is written as a body with a type. -/
inductive WritesBody (octx : OpenApiContext) (fqtn : String) (body : BodySchema) : Prop
  | content : octx.msgContentOnly = true → taggedContent octx fqtn = .ok body →
      WritesBody octx fqtn body
  | message : octx.msgContentOnly = false → body.form = .untagged →
      body.ref = OpenApi.getRefUrl (splitDots fqtn) → WritesBody octx fqtn body

theorem writeRequest_ok {octx : OpenApiContext} {path : DocPath} {fqtn : String}
    {body : BodySchema} (h : writeRequest octx path fqtn = .ok body) : WritesBody octx fqtn body := by
  rw [writeRequest] at h
  split at h
  · rename_i hcontent
    exact .content hcontent h
  · rename_i hcontent
    obtain rfl := Except.ok.inj h
    exact .message (by simpa using hcontent) rfl rfl

theorem writeResponse_ok {octx : OpenApiContext} {code fqtn description : String}
    {response : Response} (h : writeResponse octx code fqtn description = .ok response) :
    WritesBody octx fqtn response.schema := by
  rw [writeResponse] at h
  split at h
  · rename_i hcontent
    obtain ⟨body, hbody, h⟩ := Fallible.bind_ok h
    obtain rfl := Except.ok.inj h
    exact .content hcontent hbody
  · rename_i hcontent
    obtain rfl := Except.ok.inj h
    exact .message (by simpa using hcontent) rfl rfl

theorem writePath_ok {octx : OpenApiContext} {path : DocPath} {operation : Operation}
    (h : writePath octx path = .ok operation) :
    List.Forall₂ (WritesBody octx) path.bodyTypes operation.bodies := by
  rw [writePath] at h
  obtain ⟨request, hrequest, h⟩ := Fallible.bind_ok h
  obtain ⟨ok, hok, h⟩ := Fallible.bind_ok h
  obtain ⟨error, herror, h⟩ := Fallible.bind_ok h
  obtain rfl := Except.ok.inj h
  have hresponses : List.Forall₂ (WritesBody octx) [path.okType, "motis.MotisError"]
      ([ok, error].map (·.schema)) :=
    .cons (writeResponse_ok hok) (.cons (writeResponse_ok herror) .nil)
  rw [DocPath.bodyTypes, Operation.bodies]
  cases hpath : path.request with
  | none =>
    rw [hpath] at hrequest
    obtain rfl := Except.ok.inj hrequest
    exact hresponses
  | some fqtn =>
    rw [hpath, Option.mapM_some] at hrequest
    obtain ⟨body, hbody, hrequest⟩ := Fallible.bind_ok hrequest
    obtain rfl := Except.ok.inj hrequest
    exact .cons (writeRequest_ok hbody) hresponses

/-- Messages around their contents can be written for every path. -/
theorem writePaths_message {octx : OpenApiContext} (h : octx.msgContentOnly = false) :
    ∃ paths, writePaths octx = .ok paths := by
  have hpath : ∀ path, ∃ operation, writePath octx path = .ok operation := by
    intro path
    simp only [writePath, writeResponse, h, Bool.false_eq_true, if_false]
    cases path.request with
    | none => exact ⟨_, rfl⟩
    | some fqtn =>
      have hrequest : ∃ body, writeRequest octx path fqtn = .ok body := by
        rw [writeRequest, h]
        exact ⟨_, rfl⟩
      obtain ⟨body, hbody⟩ := hrequest
      rw [Option.mapM_some, hbody]
      exact ⟨_, rfl⟩
  choose operation hoperation using hpath
  exact ⟨_, Fallible.mapM_eq_ok fun path _ => hoperation path⟩

/-! ### All documents -/

/-- Messages are written without the objects around their contents. -/
def OpenApiConfig.contentOnly (config : OpenApiConfig) : Bool :=
  config.typesInUnions && config.msgContentOnly

theorem typeKey_ne_proto {schema : SchemaTypes} {config : OpenApiConfig} :
    (config.context schema).typeKey ≠ "__proto__" := by
  change "_type" ≠ "__proto__"
  decide

theorem openApi_spec {schema : SchemaTypes} {config : OpenApiConfig} (hresolved : schema.IsResolved)
    (hsuffixes : schema.NamesApart "T") (htype : schema.NamesApart "Type")
    (hproto : schema.NoPrototype "T") (doc : Documentation) :
    ∃ octx : OpenApiContext, octx.msgContentOnly = config.contentOnly ∧ octx.doc = doc ∧
      octx.jsonSchema.untaggedToTaggedType =
        schema.types.flatMap (taggedNames (config.context schema)) ∧
      writeOpenAPIOutput schema doc config = (writePaths octx).map fun paths =>
        { paths := paths, schemas := components (config.context schema) config.ids } := by
  have hsuffix : ∀ fqtn, (config.context schema).getTaggedType fqtn = appendToLast fqtn "T" :=
    fun _ => rfl
  obtain ⟨r, hrun, htypes, htagged⟩ := @getJSONSchemaTypes_run (config.context schema) _ hsuffix
    hresolved hsuffixes htype hproto
  refine ⟨⟨r, doc, config.ids, config.contentOnly⟩, rfl, rfl, htagged, ?_⟩
  have hschemas : writeSchemas ⟨r, doc, config.ids, config.contentOnly⟩ =
      .ok (components (config.context schema) config.ids) := by
    rw [writeSchemas, htypes]
    refine Fallible.mapM_eq_ok fun e he => ?_
    obtain ⟨entry, hentry, form, hform, rfl⟩ := mem_schemaDefinitions.mp he
    have hwrite := @writes_definition (config.context schema) config.ids typeKey_ne_proto hresolved hproto entry
      form hentry hform (formKey (config.context schema) entry.2 form)
    rw [OpenApi.writes] at hwrite
    simp only [hwrite]
    rfl
  rw [writeOpenAPIOutput, hrun]
  change (writePaths ⟨r, doc, config.ids, config.contentOnly⟩ >>= fun paths =>
    writeSchemas ⟨r, doc, config.ids, config.contentOnly⟩ >>= fun schemas =>
      pure (⟨paths, schemas⟩ : OpenApi)) = _
  rw [hschemas]
  cases writePaths ⟨r, doc, config.ids, config.contentOnly⟩ with
  | error e => rfl
  | ok paths => rfl

/-- The reserved names do not depend on a suffix that ends otherwise. -/
theorem noPrototype_T {schema : SchemaTypes} {suffix : String} (h : schema.NoPrototype suffix) :
    schema.NoPrototype "T" :=
  ⟨h.types, fun key _ => append_ne_proto (by decide) key, h.fields⟩

section
variable {schema : SchemaTypes} {json : JsonSchemaConfig} {openApi : OpenApiConfig}
variable {doc : Documentation}

/-- The names of the components of an OpenAPI document, for the untagged forms. -/
theorem names_openApi_iff (hresolved : schema.IsResolved) (hopenApi : schema.NamesApart "T")
    (htype : schema.NamesApart "Type") (hproto : schema.NoPrototype "T") (fqtn : String) :
    Names (openApi.context schema) OpenApi.resolves (OpenApi.writes openApi.ids)
      (components (openApi.context schema) openApi.ids) (OpenApi.getRefUrl (splitDots fqtn))
      ⟨splitDots fqtn, .untagged⟩ ↔ schema.hasUntagged openApi.typesInUnions fqtn = true :=
  @names_untagged_iff (openApi.context schema) openApi.ids (fun _ => rfl) typeKey_ne_proto hresolved
    hopenApi htype hproto fqtn

/-- A whole message refers to the untagged form of its content. -/
theorem hasUntagged_of_closed (hresolved : schema.IsResolved) (hopenApi : schema.NamesApart "T")
    (htype : schema.NamesApart "Type") (hproto : schema.NoPrototype "T")
    (hclosed : ReferencesClosed schema json openApi doc) (hmessage : openApi.contentOnly = false)
    {path : DocPath} (hpath : path ∈ doc.paths) {fqtn : String} (hfqtn : fqtn ∈ path.bodyTypes) :
    schema.hasUntagged openApi.typesInUnions fqtn = true := by
  obtain ⟨octx, hcontent, hdoc, -, hwrite⟩ :=
    @openApi_spec schema openApi hresolved hopenApi htype hproto doc
  obtain ⟨paths, hpaths⟩ := writePaths_message (hcontent.trans hmessage)
  rw [hpaths] at hwrite
  have hbodies := (hclosed.2 _ hwrite).bodies
  have hwritten := Fallible.mapM_ok hpaths
  rw [hdoc] at hwritten
  obtain ⟨operation, hnames, hoperation⟩ := forall₂_mem hbodies hwritten hpath
  obtain ⟨body, hbody, hwrites⟩ := forall₂_mem hnames (writePath_ok hoperation) hfqtn
  cases hwrites with
  | content htrue hok => simp [hcontent, hmessage] at htrue
  | message hfalse hform href =>
    rw [hform, href] at hbody
    exact (names_openApi_iff hresolved hopenApi htype hproto fqtn).mp hbody

theorem openApi_closed (hresolved : schema.IsResolved) (hunions : schema.UnionsOfTables)
    (hopenApi : schema.NamesApart "T") (htype : schema.NamesApart "Type")
    (hproto : schema.NoPrototype "T")
    (huntagged : openApi.contentOnly = false → ∀ path ∈ doc.paths, ∀ fqtn ∈ path.bodyTypes,
      schema.hasUntagged openApi.typesInUnions fqtn = true)
    {document : OpenApi} (h : writeOpenAPIOutput schema doc openApi = .ok document) :
    document.Closed (openApi.context schema) openApi.ids doc := by
  have hsuffix : ∀ fqtn, (openApi.context schema).getTaggedType fqtn = appendToLast fqtn "T" :=
    fun _ => rfl
  obtain ⟨octx, hcontent, hdoc, htagged, hwrite⟩ :=
    @openApi_spec schema openApi hresolved hopenApi htype hproto doc
  rw [hwrite] at h
  cases hpaths : writePaths octx with
  | error e => simp [hpaths, Except.map] at h
  | ok paths =>
    rw [hpaths] at h
    obtain rfl := Except.ok.inj h
    refine ⟨components_closed hsuffix typeKey_ne_proto hresolved hopenApi htype hproto hunions
      fun _ => rfl, ?_⟩
    have hwritten := Fallible.mapM_ok hpaths
    rw [hdoc] at hwritten
    refine forall₂_imp_mem hwritten fun path hpath operation hoperation => ?_
    refine forall₂_imp_mem (writePath_ok hoperation) fun fqtn hfqtn body hbody => ?_
    cases hbody with
    | content htrue hok =>
      rw [taggedContent] at hok
      split at hok
      · cases hok
      · rename_i taggedType hlookup
        obtain rfl := Except.ok.inj hok
        rw [htagged] at hlookup
        have hmem := (InsertionMap.lookup_eq_some
          (@nodup_taggedNames (openApi.context schema) hresolved)).mp hlookup
        exact names_tagged hsuffix typeKey_ne_proto hresolved hopenApi htype hproto hmem
    | message hfalse hform href =>
      rw [hform, href]
      exact (names_openApi_iff hresolved hopenApi htype hproto fqtn).mpr
        (huntagged (hcontent.symm.trans hfalse) path hpath fqtn hfqtn)

/-- CORRECT: all references are closed when each body that is a whole message has a type of which the
    untagged form is generated, and only then. -/
theorem references_closed_iff (hresolved : schema.IsResolved)
    (hunions : schema.UnionsOfTables) (hjson : schema.NamesApart json.suffix)
    (hopenApi : schema.NamesApart "T") (htype : schema.NamesApart "Type")
    (hproto : schema.NoPrototype json.suffix) :
    ReferencesClosed schema json openApi doc ↔ (openApi.contentOnly = false →
      ∀ path ∈ doc.paths, ∀ fqtn ∈ path.bodyTypes,
        schema.hasUntagged openApi.typesInUnions fqtn = true) := by
  have hproto' := noPrototype_T hproto
  constructor
  · intro hclosed hmessage path hpath fqtn hfqtn
    exact hasUntagged_of_closed hresolved hopenApi htype hproto' hclosed hmessage hpath hfqtn
  · intro huntagged
    exact ⟨fun bundle h => jsonSchema_closed hresolved hunions hjson htype hproto h,
      fun document h => openApi_closed hresolved hunions hopenApi htype hproto' huntagged h⟩

end

/-! ### A small schema -/

/-- A request in a message, and the union of what a message contains. -/
def messages : SchemaTypes where
  types :=
    let base (name : String) : TypeBase := ⟨name, [], "m", "m", none⟩
    let ref (name : String) : TypeRef := ⟨name, [], [name]⟩
    [("Request", .table ⟨base "Request", false, [], true, false⟩),
     ("Content", .union (base "Content") [⟨ref "Request", none, none⟩]),
     ("Message", .table ⟨base "Message", false, [⟨"content", .custom (ref "Content"), none, none⟩],
        false, true⟩)]
  rootType := some ⟨"Message", [], ["Message"]⟩

theorem isResolved_messages : messages.IsResolved :=
  .of_checks (by decide) (by decide) (by decide) (by decide) (by decide)

theorem namesApart_messages : messages.NamesApart "T" ∧ messages.NamesApart "Type" := by
  have hall : ∀ suffix ∈ ["T", "Type"], ∀ entry ∈ messages.types, ∀ entry' ∈ messages.types,
      (['.', '/'].all fun c => decide ((String.singleton c).intercalate entry.2.fqtn ≠
        (String.singleton c).intercalate entry'.2.fqtn ++ suffix)) = true := by
    decide
  have happart : ∀ suffix ∈ ["T", "Type"], messages.NamesApart suffix := by
    intro suffix hsuffix entry h entry' h' c hc
    exact of_decide_eq_true (List.all_eq_true.mp (hall suffix hsuffix entry h entry' h') c hc)
  exact ⟨happart "T" (by simp), happart "Type" (by simp)⟩

theorem unionsOfTables_messages : messages.UnionsOfTables := by
  intro key base values h value hvalue
  simp only [messages, List.mem_cons, Prod.mk.injEq, reduceCtorEq, and_false, SchemaType.union.injEq,
    List.not_mem_nil, or_false, false_or] at h
  obtain ⟨-, -, rfl⟩ := h
  obtain rfl := List.mem_singleton.mp hvalue
  exact ⟨_, List.mem_cons_self⟩

theorem noPrototype_messages : messages.NoPrototype "T" := by
  refine ⟨by decide, by decide, ?_⟩
  intro key t h
  simp [messages] at h
  rcases h with ⟨rfl, rfl⟩ | ⟨rfl, rfl⟩
  · decide
  · decide

def exampleUri : BaseUri := ⟨"https://motis-project.de", "/schemas/"⟩

/-- The documentation of one path, with a request. -/
def requestPath : Documentation := ⟨[{ path := "/request", input := some "Request" }]⟩

theorem references_closed_iff_messages :
    ReferencesClosed messages { baseUri := exampleUri } { baseUri := exampleUri } requestPath ↔
      (({ baseUri := exampleUri } : OpenApiConfig).contentOnly = false →
        ∀ path ∈ requestPath.paths, ∀ fqtn ∈ path.bodyTypes,
          messages.hasUntagged true fqtn = true) :=
  references_closed_iff isResolved_messages unionsOfTables_messages namesApart_messages.1
    namesApart_messages.1 namesApart_messages.2 noPrototype_messages

/-- A request that is only used in a union has no untagged form, and a whole message refers to it. -/
theorem references_not_closed : ¬ ∀ (schema : SchemaTypes) (json : JsonSchemaConfig)
    (openApi : OpenApiConfig) (doc : Documentation), schema.IsResolved → schema.UnionsOfTables →
      schema.NamesApart json.suffix → schema.NamesApart "T" → schema.NamesApart "Type" →
      ReferencesClosed schema json openApi doc := by
  intro hall
  have hclosed := hall messages { baseUri := exampleUri }
    { baseUri := exampleUri, msgContentOnly := false } requestPath isResolved_messages
    unionsOfTables_messages namesApart_messages.1 namesApart_messages.1 namesApart_messages.2
  have huntagged := hasUntagged_of_closed isResolved_messages namesApart_messages.1
    namesApart_messages.2 noPrototype_messages hclosed rfl List.mem_cons_self
    (List.mem_cons_self : "Request" ∈ ["Request", "motis.MotisSuccess", "motis.MotisError"])
  exact absurd huntagged (by decide)

end Motis.Protocol
