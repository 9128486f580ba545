import Motis.Protocol.DefinitionMeaning

/-! The generated JSON Schema says which documents a schema has.

    The predicates that say which documents fit the types solve the equations of the definitions,
    and there is one solution only:

        V (url of T) j   ↔   j fits T

    When unions carry their types, a member of a union is told apart from the others by its name, so
    that no two of them hold and `oneOf` finds the one. -/

namespace Motis.Protocol

/-- The members of a union have different names. -/
def SchemaTypes.MembersApart (schema : SchemaTypes) : Prop :=
  ∀ key base values, (key, SchemaType.union base values) ∈ schema.types →
    (values.map UnionValue.tag).Nodup

variable {ctx : JSContext} {suffix : String}

/-! ### Unions that carry their types -/

section
variable (hctx : ctx.Sound suffix) (htypes : ctx.typesInUnions = true)
include hctx htypes

omit htypes in
/-- A tagged table tells its name. -/
theorem tag_of_fits {key : String} {base : TypeBase} {values : List UnionValue}
    {member : UnionValue}
    (h : (key, SchemaType.union base values) ∈ ctx.schema.types) (hmember : member ∈ values)
    {j : JsonValue} (hfits : Fits ctx.schema ctx.format (.table member.typeRef.key true) j) :
    j.get? "_type" = some (.string member.tag) := by
  obtain ⟨t, ht⟩ := hctx.unions key base values h member hmember
  obtain ⟨-, href⟩ := mem_refs_of_union h hmember
  obtain ⟨entry, hentry, hfqtn, hkey⟩ := bound_entry hctx.resolved href
  obtain rfl := entry_unique hctx.resolved hentry ht hkey.symm
  have hname : member.tag = t.name := by
    rw [UnionValue.tag, hfqtn]
    simp [SchemaType.fqtn, SchemaType.base, lastName]
  cases hfits with
  | object hget htag _ _ _ _ =>
    cases ((get_eq_some hctx.resolved).mpr ht).symm.trans hget
    rw [hname]
    exact htag rfl

/-- `oneOf` holds of the values of one member. -/
theorem oneOf_step (hmembers : ctx.schema.MembersApart) {key : String} {base : TypeBase}
    {values : List UnionValue} (h : (key, SchemaType.union base values) ∈ ctx.schema.types)
    (j : JsonValue) :
    OneOf ctx.Meaning (values.map fun member =>
        .ref (ctx.getRefUrl (ctx.getTaggedType member.typeRef.resolvedFqtn))) j ↔
      ∃ member ∈ values, Fits ctx.schema ctx.format (.table member.typeRef.key true) j := by
  have hurl : ∀ member ∈ values,
      ctx.Meaning (ctx.getRefUrl (ctx.getTaggedType member.typeRef.resolvedFqtn)) j ↔
        Fits ctx.schema ctx.format (.table member.typeRef.key true) j := by
    intro member hmember
    have hmeaning := meaning_member hctx h hmember j
    simpa [JSContext.memberForm, htypes, JSContext.url, JSContext.formFqtn] using hmeaning
  have hindex : ∀ i : ℕ, (∃ js : JSONSchema, (values.map fun member => JSONSchema.ref (ctx.getRefUrl
        (ctx.getTaggedType member.typeRef.resolvedFqtn)))[i]? = some js ∧ js.Holds ctx.Meaning j) ↔
      ∃ member, values[i]? = some member ∧
        Fits ctx.schema ctx.format (.table member.typeRef.key true) j := by
    intro i
    rw [List.getElem?_map]
    constructor
    · rintro ⟨js, hjs, hholds⟩
      obtain ⟨member, hget, rfl⟩ := Option.map_eq_some_iff.mp hjs
      exact ⟨member, hget, (hurl member (List.mem_of_getElem? hget)).mp hholds⟩
    · rintro ⟨member, hget, hfits⟩
      refine ⟨.ref (ctx.getRefUrl (ctx.getTaggedType member.typeRef.resolvedFqtn)), ?_, ?_⟩
      · rw [hget]
        rfl
      · exact (hurl member (List.mem_of_getElem? hget)).mpr hfits
  rw [OneOf, existsUnique_congr hindex]
  constructor
  · rintro ⟨i, ⟨member, hget, hfits⟩, -⟩
    exact ⟨member, List.mem_of_getElem? hget, hfits⟩
  · rintro ⟨member, hmember, hfits⟩
    obtain ⟨i, hget⟩ := List.mem_iff_getElem?.mp hmember
    refine ⟨i, ⟨member, hget, hfits⟩, ?_⟩
    rintro i' ⟨member', hget', hfits'⟩
    -- the tag of the value is the name of both
    have htag := tag_of_fits hctx h hmember hfits
    have htag' := tag_of_fits hctx h (List.mem_of_getElem? hget') hfits'
    have heq : member.tag = member'.tag := by simpa using htag.symm.trans htag'
    have hlt : i' < (values.map UnionValue.tag).length := by
      simpa using (List.getElem?_eq_some_iff.mp hget').1
    refine (List.getElem?_inj hlt (hmembers key base values h)).mp ?_
    rw [List.getElem?_map, List.getElem?_map, hget, hget', Option.map_some, Option.map_some, heq]

end

/-! ### All definitions -/

section
variable (hctx : ctx.Sound suffix) (hmembers : ctx.schema.MembersApart)
include hctx

/-- Without types in unions, `anyOf` holds of the values of each member. -/
theorem anyOf_step (htypes : ctx.typesInUnions = false) {key : String} {base : TypeBase}
    {values : List UnionValue} (h : (key, SchemaType.union base values) ∈ ctx.schema.types)
    (j : JsonValue) :
    (∃ js ∈ values.map fun member => JSONSchema.ref (ctx.getRefUrl member.typeRef.resolvedFqtn),
        js.Holds ctx.Meaning j) ↔
      ∃ member ∈ values, Fits ctx.schema ctx.format (.table member.typeRef.key false) j := by
  have hurl : ∀ member ∈ values, ctx.Meaning (ctx.getRefUrl member.typeRef.resolvedFqtn) j ↔
      Fits ctx.schema ctx.format (.table member.typeRef.key false) j := by
    intro member hmember
    have hmeaning := meaning_member hctx h hmember j
    simpa [JSContext.memberForm, htypes, JSContext.url, JSContext.formFqtn] using hmeaning
  constructor
  · rintro ⟨js, hjs, hholds⟩
    obtain ⟨member, hmember, rfl⟩ := List.mem_map.mp hjs
    exact ⟨member, hmember, (hurl member hmember).mp hholds⟩
  · rintro ⟨member, hmember, hfits⟩
    exact ⟨_, List.mem_map_of_mem hmember, (hurl member hmember).mpr hfits⟩

include hmembers

theorem union_step {key : String} {base : TypeBase} {values : List UnionValue}
    (h : (key, SchemaType.union base values) ∈ ctx.schema.types) (j : JsonValue) :
    (unionToJS ctx base values).Holds ctx.Meaning j ↔ ∃ member ∈ values,
      Fits ctx.schema ctx.format (.table member.typeRef.key ctx.typesInUnions) j := by
  cases htypes : ctx.typesInUnions with
  | true =>
    have hstep := oneOf_step hctx htypes hmembers h j
    rw [unionToJS, htypes]
    simp only [if_true, List.map_map]
    constructor
    · exact fun hholds => hstep.mp (hholds.oneOf _ rfl)
    · intro hfits
      have hone := hstep.mpr hfits
      constructor <;> simp [getBaseJSProps]
      exact hone
  | false =>
    have hstep := anyOf_step hctx htypes h j
    rw [unionToJS, htypes]
    simp only [Bool.false_eq_true, if_false, List.map_map]
    constructor
    · exact fun hholds => hstep.mp (hholds.anyOf _ rfl)
    · intro hfits
      obtain ⟨js, hjs, hholds⟩ := hstep.mpr hfits
      constructor <;> simp [getBaseJSProps]
      obtain ⟨member, hmember, rfl⟩ := List.mem_map.mp hjs
      exact ⟨member, hmember, hholds⟩

/-- A definition holds of what fits its type. -/
theorem definition_step {entry : String × SchemaType} {form : Form}
    (hentry : entry ∈ ctx.schema.types) (hform : form ∈ entry.2.forms ctx)
    (j : JsonValue) : (definition ctx entry.2 form).Holds ctx.Meaning j ↔
      FormFits ctx.schema ctx.format entry form j := by
  obtain ⟨key, t⟩ := entry
  have hunion : ∀ base values, (key, SchemaType.union base values) ∈ ctx.schema.types →
      ((unionToJS ctx base values).Holds ctx.Meaning j ↔
        FormFits ctx.schema ctx.format (key, .union base values) .untagged j) := by
    intro base values hentry
    rw [union_step hctx hmembers hentry, ← decide_tagged]
    rfl
  cases t with
  | enum base values =>
    constructor
    · intro h
      obtain ⟨s, hs, rfl⟩ := h.enum _ rfl
      obtain ⟨value, hvalue, rfl⟩ := List.mem_map.mp hs
      exact ⟨value, hvalue, rfl⟩
    · rintro ⟨value, hvalue, rfl⟩
      constructor <;>
        simp [definition, generate, enumToJS, getBaseJSProps, JSONSchemaType.Holds,
          JsonValue.isObject]
      exact ⟨value, hvalue, rfl⟩
  | union base values =>
    cases form with
    | tags =>
      constructor
      · intro h
        obtain ⟨s, hs, rfl⟩ := h.enum _ rfl
        obtain ⟨member, hmember, rfl⟩ := List.mem_map.mp hs
        exact ⟨member, hmember, rfl⟩
      · rintro ⟨member, hmember, rfl⟩
        constructor <;>
          simp [definition, generate, unionTagsToJS, JSONSchemaType.Holds, JsonValue.isObject]
        exact ⟨member, hmember, rfl⟩
    | untagged => exact hunion base values hentry
    | tagged => exact hunion base values hentry
  | table t => exact table_step hctx hentry j

/-- The equations say what is meant. -/
theorem interprets_eq_meaning {bundle : JsonSchemaBundle}
    (hdefs : bundle.defs.entries = schemaDefinitions ctx) {V : String → JsonValue → Prop}
    (hV : bundle.Interprets ctx.baseUri V) {entry : String × SchemaType} {form : Form}
    (hentry : entry ∈ ctx.schema.types) (hform : form ∈ entry.2.forms ctx) (j : JsonValue) :
    V (ctx.url ⟨entry.2.fqtn, form⟩) j ↔ FormFits ctx.schema ctx.format entry form j := by
  have hmeaning : bundle.Interprets ctx.baseUri ctx.Meaning := by
    intro e he url hurl j
    obtain ⟨entry, hentry, form, hform, rfl, rfl⟩ := entry_of_resolves hctx hdefs he hurl
    rw [meaning_url hctx hentry hform, definition_step hctx hmembers hentry hform]
  obtain ⟨he, hurl⟩ := (resolves_url_iff hctx hentry hform _).mpr rfl
  rw [← meaning_url hctx hentry hform]
  exact JsonSchemaBundle.interprets_unique (bundle_flat hctx hdefs) hV hmeaning (hdefs ▸ he) hurl j

end

/-! ### The output -/

section
variable {schema : SchemaTypes} {config : JsonSchemaConfig} {bundle : JsonSchemaBundle}

/-- The bundle consists of all definitions, and refers to that of the root type. -/
theorem writeJsonSchemaOutput_eq (hctx : (config.context schema).Sound config.suffix)
    (h : writeJsonSchemaOutput schema config = .ok bundle) :
    bundle.defs.entries = schemaDefinitions (config.context schema) ∧
      bundle.ref = schema.rootType.map fun rootType =>
        getDefaultRefUrl config.baseUri.directory rootType.resolvedFqtn true := by
  obtain ⟨r, hrun, htypes, -⟩ := getJSONSchemaTypes_run hctx.tagged hctx.resolved hctx.suffixes
    hctx.tags hctx.proto
  rw [writeJsonSchemaOutput] at h
  simp only [hrun] at h
  obtain rfl := Except.ok.inj h
  exact ⟨by simp only [htypes], rfl⟩

theorem writeJsonSchemaOutput_ok (hctx : (config.context schema).Sound config.suffix) :
    ∃ bundle, writeJsonSchemaOutput schema config = .ok bundle := by
  obtain ⟨r, hrun, -, -⟩ := getJSONSchemaTypes_run hctx.tagged hctx.resolved hctx.suffixes
    hctx.tags hctx.proto
  rw [writeJsonSchemaOutput]
  simp only [hrun]
  exact ⟨_, rfl⟩

theorem JsonSchemaConfig.sound (hresolved : schema.IsResolved) (hunions : schema.UnionsOfTables)
    (hsuffixes : schema.NamesApart config.suffix) (htags : schema.NamesApart "Type")
    (hproto : schema.NoPrototype config.suffix)
    (hproperties : schema.PropertiesApart config.typesInUnions) :
    (config.context schema).Sound config.suffix where
  toPlain := config.plain schema
  resolved := hresolved
  unions := hunions
  suffixes := hsuffixes
  tags := htags
  proto := hproto
  properties := hproperties

/-- A document is valid when the definition of the root type holds of it. -/
theorem validates_iff (hctx : (config.context schema).Sound config.suffix)
    (h : writeJsonSchemaOutput schema config = .ok bundle) {V : String → JsonValue → Prop}
    (hV : bundle.Interprets config.baseUri.directory V) {root : TypeRef}
    (hroot : schema.rootType = some root) : ∃ t, (root.key, t) ∈ schema.types ∧
      .untagged ∈ t.forms (config.context schema) ∧ root.resolvedFqtn = t.fqtn ∧
      ∀ j, bundle.Validates V j ↔ V ((config.context schema).url ⟨t.fqtn, .untagged⟩) j := by
  obtain ⟨hdefs, href⟩ := writeJsonSchemaOutput_eq hctx h
  obtain ⟨t, hentry, hform, hfqtn⟩ := table_ref_entry hctx (.inr hroot)
  refine ⟨t, hentry, hform, hfqtn, fun j => ?_⟩
  rw [interprets_url hctx hdefs hV hentry hform, JsonSchemaBundle.Validates, href, hroot]
  -- the absolute URL is the `$id` of the definition
  have hid : ∀ e, (e ∈ bundle.defs.entries ∧
      e.2.id = some (getDefaultRefUrl config.baseUri.directory root.resolvedFqtn true)) ↔
        e = (formKey (config.context schema) t .untagged,
          definition (config.context schema) t .untagged) := by
    intro e
    rw [hdefs, hfqtn]
    exact id_eq_iff hctx.tagged hctx.resolved hctx.suffixes hctx.tags hentry hform e
  constructor
  · intro hvalid
    obtain ⟨e, he, hurl, hholds⟩ := hvalid _ rfl
    rw [(hid e).mp ⟨he, hurl⟩] at hholds
    exact hholds
  · rintro hholds url heq
    obtain rfl := Option.some.inj heq
    obtain ⟨he, hurl⟩ := (hid _).mpr rfl
    exact ⟨_, he, hurl, hholds⟩

/-- What the documents of a configuration look like. -/
def JsonSchemaConfig.format (config : JsonSchemaConfig) : DocumentFormat where
  unions :=
    if config.typesInUnions then .tagged else if config.strictUnions then .strict else .loose
  ints := if config.strictIntTypes then .bounded else .integer

end

/-! ### The small schema -/

theorem propertiesApart_messages : messages.PropertiesApart true := by
  intro key t h
  simp [messages] at h
  rcases h with ⟨rfl, rfl⟩ | ⟨rfl, rfl⟩
  · decide
  · decide

theorem membersApart_messages : messages.MembersApart := by
  intro key base values h
  simp [messages] at h
  obtain ⟨-, -, rfl⟩ := h
  decide

/-- `{ "content": { "_type": tag } }`. -/
def messageWith (tag : String) : JsonValue :=
  .object [("content", .object [("_type", .string tag)])]

/-- A request is a message, and nothing else is. -/
theorem fits_messageWith (tag : String) :
    Fits messages ⟨.tagged, .integer⟩ (.value (.custom ⟨"Message", [], ["Message"]⟩))
      (messageWith tag) ↔
      tag = "Request" := by
  have hrequest : messages.types.get "Request" = some (.table
      ⟨⟨"Request", [], "m", "m", none⟩, false, [], true, false⟩) := rfl
  have hcontent : messages.types.get "Content" = some (.union ⟨"Content", [], "m", "m", none⟩
      [⟨⟨"Request", [], ["Request"]⟩, none, none⟩]) := rfl
  have hmessage : messages.types.get "Message" = some (.table
    ⟨⟨"Message", [], "m", "m", none⟩, false,
      [⟨"content", .custom ⟨"Content", [], ["Content"]⟩, none, none⟩], false, true⟩) := rfl
  constructor
  · intro h
    cases h with
    | union hget => exact absurd (hmessage.symm.trans hget) (by simp)
    | custom hget h =>
      cases h with
      | object hget' _ _ hfields _ _ =>
        cases hmessage.symm.trans hget'
        cases hfields _ List.mem_cons_self (.inl rfl) _ rfl with
        | union hget hmember h =>
          cases hcontent.symm.trans hget
          obtain rfl := List.mem_singleton.mp hmember
          cases h with
          | object hget htag _ _ _ _ =>
            cases hrequest.symm.trans hget
            simpa using htag rfl
        | custom hget => exact absurd (hcontent.symm.trans hget) (by simp)
  · rintro rfl
    have hnone : ∀ field, DocumentFormat.sibling ⟨.tagged, .integer⟩ messages field = none := by
      simp [DocumentFormat.sibling, SchemaTypes.siblingUnion]
    refine .custom hmessage (.object hmessage (by simp) ?_ ?_ ?_ ?_)
    · simp [hnone]
    · intro field hfield _ v hv
      obtain rfl := List.mem_singleton.mp hfield
      obtain rfl : _ = v := Option.some.inj hv
      refine .union hcontent List.mem_cons_self (.object hrequest ?_ ?_ ?_ ?_ ?_)
      · intro _
        rfl
      all_goals simp
    · simp [hnone]
    · simp [hnone]

end Motis.Protocol
