import Motis.Lib.Fallible
import Motis.Protocol.OpenApi
import Motis.Protocol.ResolvedSchema

/-! What a definition refers to.

    A `$ref` stands at a place of a definition, and what it refers to follows from the type the
    definition was generated for: a type, and one of the forms in which types are generated. The
    tagged form is referred to where a `_type` tells the members of a union apart. -/

namespace Motis.Protocol

/-- `tags` is the definition that lists the names of the members of a union. -/
inductive Form where
  | untagged | tagged | tags
  deriving DecidableEq, Repr

structure Reference where
  fqtn : List String
  form : Form
  deriving DecidableEq, Repr

/-- Where a `$ref` stands: in `oneOf` or `anyOf`, in a property, or in the case of a tag. -/
inductive Place where
  | member (index : ℕ)
  | property (name : String)
  | case (tag : JSONSchema) (name : String)
  deriving DecidableEq, Repr

def JSONSchema.refs : JSONSchema → List String
  | .array items => items.refs
  | .ref url => [url]
  | _ => []

def memberRefs (members : List JSONSchema) : List (Place × String) :=
  members.zipIdx.flatMap fun (js, index) => js.refs.map fun url => (.member index, url)

/-- The values of all `$ref`. -/
def TypeSchema.refs (js : TypeSchema) : List (Place × String) :=
  memberRefs (js.anyOf.getD []) ++ memberRefs (js.oneOf.getD []) ++
  ((js.properties.getD {}).entries.flatMap fun (name, js) =>
    js.refs.map fun url => (.property name, url)) ++
  js.allOf.flatMap fun c => (c.tag.refs ++ c.value.refs).map fun url => (.case c.tag c.name, url)

namespace JSContext
variable (ctx : JSContext)

/-- The full name of a form of a type. -/
def formFqtn (r : Reference) : List String :=
  match r.form with
  | .untagged => r.fqtn
  | .tagged => ctx.getTaggedType r.fqtn
  | .tags => appendToLast r.fqtn "Type"

def url (r : Reference) : String := ctx.getRefUrl (ctx.formFqtn r)

/-- The form a union refers to its members in. -/
def memberForm : Form := if ctx.typesInUnions then .tagged else .untagged

/-- A type refers to another one at a place. -/
inductive Refers : SchemaType → Place → Reference → Prop
  | member {base : TypeBase} {values : List UnionValue} {i : ℕ} {value : UnionValue} :
      values[i]? = some value →
      Refers (.union base values) (.member i) ⟨value.typeRef.resolvedFqtn, ctx.memberForm⟩
  | property {t : TableType} {field : TableField} {ref : TypeRef} : field ∈ t.fields →
      ref ∈ field.type.refs →
      Refers (.table t) (.property field.name) ⟨ref.resolvedFqtn, .untagged⟩
  | unionTag {t : TableType} {field : TableField} {ref : TypeRef} {base : TypeBase}
      {values : List UnionValue} : ctx.typesInUnions = false → field ∈ t.fields →
      field.type = .custom ref → ctx.schema.types.get ref.key = some (.union base values) →
      Refers (.table t) (.property (field.name ++ "_type")) ⟨ref.resolvedFqtn, .tags⟩
  | case {t : TableType} {field : TableField} {ref : TypeRef} {base : TypeBase}
      {values : List UnionValue} {value : UnionValue} : ctx.typesInUnions = false →
      field ∈ t.fields → field.type = .custom ref →
      ctx.schema.types.get ref.key = some (.union base values) → value ∈ values →
      Refers (.table t)
        (.case (getConstString ctx (lastName value.typeRef.resolvedFqtn)) field.name)
        ⟨value.typeRef.resolvedFqtn, .untagged⟩

/-- A definition is generated for a form of a type. -/
inductive Generated : SchemaType → Form → TypeSchema → Prop
  | enum (base : TypeBase) (values : List AstEnumVal) :
      Generated (.enum base values) .untagged (enumToJS ctx base values)
  | union (base : TypeBase) (values : List UnionValue) :
      Generated (.union base values) .untagged (unionToJS ctx base values)
  | unionTags (base : TypeBase) (values : List UnionValue) : ctx.typesInUnions = false →
      Generated (.union base values) .tags (unionTagsToJS ctx base values)
  | untagged {t : TableType} {js : TypeSchema} : ctx.typesInUnions = false ∨ t.usedInTable = true →
      untaggedTableToJS ctx t = .ok js → Generated (.table t) .untagged js
  | tagged {t : TableType} {js : TypeSchema} : ctx.typesInUnions = true → t.usedInUnion = true →
      taggedTableToJS ctx t = .ok js → Generated (.table t) .tagged js

end JSContext

variable {ctx : JSContext}

/-! ### Places in a definition -/

theorem mem_memberRefs {members : List JSONSchema} {p : Place} {url : String} :
    (p, url) ∈ memberRefs members ↔
      ∃ i js, members[i]? = some js ∧ url ∈ js.refs ∧ p = .member i := by
  simp only [memberRefs, List.mem_flatMap, List.mem_map, Prod.mk.injEq, Prod.exists]
  constructor
  · rintro ⟨js, i, hmem, url', hurl, rfl, rfl⟩
    exact ⟨i, js, List.mem_zipIdx_iff_getElem?.mp hmem, hurl, rfl⟩
  · rintro ⟨i, js, hget, hurl, rfl⟩
    exact ⟨js, i, List.mem_zipIdx_iff_getElem?.mpr hget, url, hurl, rfl, rfl⟩

@[simp] theorem memberRefs_nil : memberRefs [] = [] := rfl

/-- The `$ref`s of a union stand for its members, in their order. -/
theorem mem_memberRefs_map {values : List UnionValue} {f : List String → String} {p : Place}
    {url : String}
    (h : (p, url) ∈
      memberRefs ((values.map (·.typeRef.resolvedFqtn)).map fun fqtn => .ref (f fqtn))) :
    ∃ (i : ℕ) (value : UnionValue), values[i]? = some value ∧ p = .member i ∧
      url = f value.typeRef.resolvedFqtn := by
  obtain ⟨i, js, hget, hurl, rfl⟩ := mem_memberRefs.mp h
  rw [List.getElem?_map, List.getElem?_map, Option.map_map, Option.map_eq_some_iff] at hget
  obtain ⟨value, hvalue, rfl⟩ := hget
  exact ⟨i, value, hvalue, rfl, by simpa [JSONSchema.refs] using hurl⟩

@[simp] theorem refs_getConstString (value : String) : (getConstString ctx value).refs = [] := by
  rw [getConstString]
  split <;> rfl

@[simp] theorem refs_basicTypeToJS (type : BasicType) : (basicTypeToJS ctx type).refs = [] := by
  cases type <;> rfl

theorem refs_fieldTypeToJS (type : FieldType) :
    (fieldTypeToJS ctx type).refs = type.refs.map fun ref => ctx.getRefUrl ref.resolvedFqtn := by
  induction type with
  | basic type => simp [fieldTypeToJS, FieldType.refs]
  | vector type ih => simpa [fieldTypeToJS, FieldType.refs, JSONSchema.refs] using ih
  | custom ref => simp [fieldTypeToJS, FieldType.refs, JSONSchema.refs]

/-! ### Fields -/

theorem fieldUnion_some {t : TableType} {field : TableField} {ref : TypeRef}
    {values : List UnionValue} (h : fieldUnion ctx t field = .ok (some (ref, values))) :
    field.type = .custom ref ∧ ∃ base, ctx.schema.types.get ref.key = some (.union base values) := by
  rw [fieldUnion] at h
  split at h
  · rename_i ref' htype
    split at h
    · cases h
    · rename_i base values' hget
      cases h
      exact ⟨htype, base, hget⟩
    · cases h
  · cases h

/-- What the loop does for a field: a property of its own, with a property for the tag of a union
    before it, or a case for each member of a union. -/
theorem addField_cases {t : TableType} {acc acc' : TableProperties} {field : TableField}
    (h : addField ctx t acc field = .ok acc') : acc.required <+: acc'.required ∧
    ((acc'.props = acc.props.set field.name (fieldTypeToJS ctx field.type) ∧
      acc'.unionCases = acc.unionCases) ∨
    ∃ ref base values, ctx.typesInUnions = false ∧ field.type = .custom ref ∧
      ctx.schema.types.get ref.key = some (.union base values) ∧
      ((acc'.props = acc.props ∧
        acc'.unionCases = acc.unionCases ++ unionCases ctx field values) ∨
       (acc'.props = (acc.props.set (field.name ++ "_type")
          (.ref (ctx.url ⟨ref.resolvedFqtn, .tags⟩))).set field.name (fieldTypeToJS ctx field.type) ∧
        acc'.unionCases = acc.unionCases))) := by
  have hsub : ∀ (acc : TableProperties) (b : Bool) (name : String),
      acc.required <+: (acc.require b name).required := by
    intro acc b name
    cases b with
    | false => exact List.prefix_rfl
    | true => exact List.prefix_append _ _
  have hrequire : ∀ (acc : TableProperties) (b : Bool) (name : String),
      (acc.require b name).props = acc.props ∧
        (acc.require b name).unionCases = acc.unionCases := by
    intro acc b name
    cases b <;> exact ⟨rfl, rfl⟩
  rw [addField] at h
  obtain ⟨union, hunion, h⟩ := Fallible.bind_ok h
  cases union with
  | none =>
    obtain rfl := Except.ok.inj h
    exact ⟨hsub (acc.setProp _ _) _ _, .inl (by simp [hrequire, TableProperties.setProp])⟩
  | some union =>
    obtain ⟨ref, values⟩ := union
    obtain ⟨htype, base, hget⟩ := fieldUnion_some hunion
    cases htypes : ctx.typesInUnions with
    | true =>
      simp only [htypes, if_true] at h
      obtain rfl := Except.ok.inj h
      exact ⟨hsub (acc.setProp _ _) _ _, .inl (by simp [hrequire, TableProperties.setProp])⟩
    | false =>
      cases hstrict : ctx.strictUnions with
      | true =>
        simp only [htypes, hstrict, if_true, Bool.false_eq_true, if_false] at h
        obtain rfl := Except.ok.inj h
        refine ⟨(hsub _ _ _).trans (hsub _ _ _), .inr ⟨ref, base, values, rfl, htype, hget, ?_⟩⟩
        exact .inl (by simp [hrequire])
      | false =>
        simp only [htypes, hstrict, Bool.false_eq_true, if_false] at h
        obtain rfl := Except.ok.inj h
        refine ⟨(hsub _ _ _).trans (hsub ((TableProperties.setProp _ _ _).setProp _ _) _ _),
          .inr ⟨ref, base, values, rfl, htype, hget, ?_⟩⟩
        exact .inr (by
          simp [hrequire, TableProperties.setProp, getUnionTagRefUrl, JSContext.url,
            JSContext.formFqtn])

/-- Every `$ref` that is collected stands for a reference of the table. -/
structure Collected (ctx : JSContext) (t : TableType) (acc : TableProperties) : Prop where
  props : ∀ name js, (name, js) ∈ acc.props.entries → ∀ url ∈ js.refs,
    ∃ r, ctx.Refers (.table t) (.property name) r ∧ url = ctx.url r
  cases : ∀ c ∈ acc.unionCases, ∀ url ∈ c.tag.refs ++ c.value.refs,
    ∃ r, ctx.Refers (.table t) (.case c.tag c.name) r ∧ url = ctx.url r

theorem JsObject.mem_set {α : Type} {o : JsObject α} {key : String} {value : α}
    {e : String × α} (h : e ∈ (o.set key value).entries) : e = (key, value) ∨ e ∈ o.entries := by
  rw [JsObject.set] at h
  split at h
  · exact .inr h
  · exact InsertionMap.mem_set h

theorem Collected.addField {t : TableType} {acc acc' : TableProperties} {field : TableField}
    (hacc : Collected ctx t acc) (hfield : field ∈ t.fields)
    (h : addField ctx t acc field = .ok acc') : Collected ctx t acc' := by
  have hown : ∀ url ∈ (fieldTypeToJS ctx field.type).refs,
      ∃ r, ctx.Refers (.table t) (.property field.name) r ∧ url = ctx.url r := by
    intro url hurl
    rw [refs_fieldTypeToJS] at hurl
    obtain ⟨ref, href, rfl⟩ := List.mem_map.mp hurl
    exact ⟨_, .property hfield href, rfl⟩
  rcases (addField_cases h).2 with ⟨hprops, hcases⟩ | ⟨ref, base, values, htypes, htype, hget, h⟩
  · refine ⟨fun name js hmem url hurl => ?_, by rw [hcases]; exact hacc.cases⟩
    rw [hprops] at hmem
    rcases JsObject.mem_set hmem with heq | hmem
    · cases heq
      exact hown url hurl
    · exact hacc.props name js hmem url hurl
  · rcases h with ⟨hprops, hcases⟩ | ⟨hprops, hcases⟩
    · refine ⟨by rw [hprops]; exact hacc.props, fun c hc url hurl => ?_⟩
      rw [hcases] at hc
      rcases List.mem_append.mp hc with hc | hc
      · exact hacc.cases c hc url hurl
      · obtain ⟨value, hvalue, rfl⟩ := List.mem_map.mp hc
        simp only [refs_getConstString, List.nil_append, JSONSchema.refs,
          List.mem_singleton] at hurl
        exact ⟨_, .case htypes hfield htype hget hvalue, hurl⟩
    · refine ⟨fun name js hmem url hurl => ?_, by rw [hcases]; exact hacc.cases⟩
      rw [hprops] at hmem
      rcases JsObject.mem_set hmem with heq | hmem
      · cases heq
        exact hown url hurl
      rcases JsObject.mem_set hmem with heq | hmem
      · cases heq
        rw [JSONSchema.refs, List.mem_singleton] at hurl
        exact ⟨_, .unionTag htypes hfield htype hget, hurl⟩
      · exact hacc.props name js hmem url hurl

theorem Collected.foldlM {t : TableType} {fields : List TableField} {acc acc' : TableProperties}
    (hacc : Collected ctx t acc) (hfields : ∀ field ∈ fields, field ∈ t.fields)
    (h : fields.foldlM (Motis.Protocol.addField ctx t) acc = .ok acc') : Collected ctx t acc' :=
  Fallible.foldlM_inv (Collected ctx t)
    (fun field hmem _ _ hacc hstep => hacc.addField (hfields field hmem) hstep) hacc h

/-! ### Definitions -/

theorem refs_addTableProperties {t : TableType} {id : Option String} {tagged : Bool}
    {js : TypeSchema}
    (h : addTableProperties ctx t { id := id, type := some .object } tagged = .ok js) :
    js.id = id ∧ ∀ p url, (p, url) ∈ js.refs → ∃ r, ctx.Refers (.table t) p r ∧ url = ctx.url r := by
  rw [addTableProperties] at h
  obtain ⟨acc, hloop, h⟩ := Fallible.bind_ok h
  obtain rfl := Except.ok.inj h
  refine ⟨rfl, fun p url hmem => ?_⟩
  have hinit : Collected ctx t (if tagged then
      (({} : TableProperties).setProp ctx.typeKey (getConstString ctx t.name)).require true
        ctx.typeKey
      else {}) := by
    cases tagged with
    | false => constructor <;> simp
    | true =>
      refine ⟨fun name js hmem url hurl => ?_, by simp [TableProperties.require,
        TableProperties.setProp]⟩
      rcases JsObject.mem_set hmem with heq | hmem
      · cases heq
        simp at hurl
      · cases hmem
  have hacc := hinit.foldlM (fun _ hfield => hfield) hloop
  have hentries : (((if acc.props.entries.isEmpty then none else some acc.props) :
      Option (JsObject JSONSchema)).getD {}).entries = acc.props.entries := by
    split
    · rename_i hempty
      exact (List.isEmpty_iff.mp hempty).symm
    · rfl
  simp only [TypeSchema.refs, Option.getD_none, memberRefs_nil, List.nil_append, hentries,
    List.mem_append, List.mem_flatMap, List.mem_map, Prod.exists, Prod.mk.injEq] at hmem
  rcases hmem with ⟨name, js, hentry, url', hurl, rfl, rfl⟩ | ⟨c, hc, url', hurl, rfl, rfl⟩
  · exact hacc.props name js hentry url' hurl
  · exact hacc.cases c hc url' (List.mem_append.mpr hurl)

theorem Generated.refs {t : SchemaType} {form : Form} {js : TypeSchema}
    (h : ctx.Generated t form js) (p : Place) (url : String) (hmem : (p, url) ∈ js.refs) :
    ∃ r, ctx.Refers t p r ∧ url = ctx.url r := by
  cases h with
  | enum base values => simp [TypeSchema.refs, enumToJS, getBaseJSProps] at hmem
  | unionTags base values htypes => simp [TypeSchema.refs, unionTagsToJS] at hmem
  | untagged hform hjs => exact (refs_addTableProperties hjs).2 p url hmem
  | tagged htypes hused hjs => exact (refs_addTableProperties hjs).2 p url hmem
  | union base values =>
    rw [unionToJS] at hmem
    cases htypes : ctx.typesInUnions with
    | true =>
      simp only [htypes, if_true, TypeSchema.refs, getBaseJSProps, Option.getD_none,
        Option.getD_some, memberRefs_nil, List.nil_append, List.flatMap_nil,
        List.append_nil] at hmem
      obtain ⟨i, value, hget, rfl, rfl⟩ := mem_memberRefs_map hmem
      refine ⟨_, .member hget, ?_⟩
      simp [JSContext.url, JSContext.formFqtn, JSContext.memberForm, htypes]
    | false =>
      simp only [htypes, Bool.false_eq_true, if_false, TypeSchema.refs, getBaseJSProps,
        Option.getD_none, Option.getD_some, memberRefs_nil, List.flatMap_nil,
        List.append_nil] at hmem
      obtain ⟨i, value, hget, rfl, rfl⟩ := mem_memberRefs_map hmem
      refine ⟨_, .member hget, ?_⟩
      simp [JSContext.url, JSContext.formFqtn, JSContext.memberForm, htypes]

/-- The tagged form of a table requires the tag. -/
theorem typeKey_mem_required {t : SchemaType} {js : TypeSchema}
    (h : ctx.Generated t .tagged js) : ctx.typeKey ∈ js.required := by
  have hloop : ∀ {t : TableType} {fields : List TableField} {acc acc' : TableProperties},
      fields.foldlM (addField ctx t) acc = .ok acc' → acc.required <+: acc'.required := by
    intro t fields acc acc' h
    refine Fallible.foldlM_inv (fun acc' => acc.required <+: acc'.required) ?_ List.prefix_rfl h
    exact fun field _ _ _ hprefix hstep => hprefix.trans (addField_cases hstep).1
  cases h with
  | tagged htypes hused hjs =>
    rw [taggedTableToJS, addTableProperties] at hjs
    obtain ⟨acc, hrun, hjs⟩ := Fallible.bind_ok hjs
    obtain rfl := Except.ok.inj hjs
    exact (hloop hrun).subset (List.mem_singleton_self _)

end Motis.Protocol
