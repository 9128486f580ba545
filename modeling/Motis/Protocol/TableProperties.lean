import Motis.Protocol.SchemaMeaning

/-! The properties of a table.

    The loop over the fields only appends when no property is named twice. A union field has a
    second property for its type when unions do not carry their types:

        typesInUnions                x ↦ U
        ¬ typesInUnions, loose       x_type ↦ UType, x ↦ U
        ¬ typesInUnions, strict      for each member M:  if x_type = "M" then x ↦ M -/

namespace Motis.Protocol

/-- The union that is the type of a field. -/
def SchemaTypes.unionOf (schema : SchemaTypes) : FieldType → Option (TypeRef × List UnionValue)
  | .custom ref =>
    match schema.types.get ref.key with
    | some (.union _ values) => some (ref, values)
    | _ => none
  | _ => none

/-- The union of a field that has its type beside it. -/
def SchemaTypes.siblingUnion (schema : SchemaTypes) (typesInUnions : Bool) (field : TableField) :
    Option (TypeRef × List UnionValue) :=
  if typesInUnions then none else schema.unionOf field.type

/-- The property for the type of a union. -/
def TableField.tagName (field : TableField) : String := field.name ++ "_type"

def SchemaTypes.fieldNames (schema : SchemaTypes) (typesInUnions : Bool) (field : TableField) :
    List String :=
  match schema.siblingUnion typesInUnions field with
  | some _ => [field.tagName, field.name]
  | none => [field.name]

/-- No property of a table is named twice. The name for the type of a member of a union is not free
    either. -/
def SchemaTypes.PropertiesApart (schema : SchemaTypes) (typesInUnions : Bool) : Prop :=
  ∀ key t, (key, SchemaType.table t) ∈ schema.types →
    ("_type" :: t.fields.flatMap (schema.fieldNames typesInUnions)).Nodup

section
variable (ctx : JSContext)

def fieldProps (field : TableField) : List (String × JSONSchema) :=
  match ctx.schema.siblingUnion ctx.typesInUnions field with
  | some (ref, _) =>
    if ctx.strictUnions then []
    else [(field.tagName, .ref (ctx.url ⟨ref.resolvedFqtn, .tags⟩)),
      (field.name, fieldTypeToJS ctx field.type)]
  | none => [(field.name, fieldTypeToJS ctx field.type)]

def fieldCases (field : TableField) : List UnionCase :=
  match ctx.schema.siblingUnion ctx.typesInUnions field with
  | some (_, values) => if ctx.strictUnions then unionCases ctx field values else []
  | none => []

def fieldRequired (field : TableField) : List String :=
  if isRequired field.metadata then ctx.schema.fieldNames ctx.typesInUnions field else []

/-- The property that a member of a union carries its name in. -/
def tagProps (t : TableType) (tagged : Bool) : List (String × JSONSchema) :=
  if tagged then [(ctx.typeKey, getConstString ctx t.name)] else []

end

variable {ctx : JSContext}

/-! ### One field -/

theorem fieldUnion_eq {t : TableType} {field : TableField}
    {union : Option (TypeRef × List UnionValue)} (h : fieldUnion ctx t field = .ok union) :
    union = ctx.schema.unionOf field.type := by
  rw [fieldUnion] at h
  cases htype : field.type with
  | basic type =>
    rw [htype] at h
    obtain rfl := Except.ok.inj h
    rfl
  | vector type =>
    rw [htype] at h
    obtain rfl := Except.ok.inj h
    rfl
  | custom ref =>
    rw [htype] at h
    simp only at h
    rw [SchemaTypes.unionOf, TypeRef.key]
    split at h
    · cases h
    · rename_i base values hget
      obtain rfl := Except.ok.inj h
      simp [hget]
    · rename_i type hunion hget
      obtain rfl := Except.ok.inj h
      cases type with
      | enum base values => simp [hget]
      | union base values => exact absurd rfl (hunion base values)
      | table t => simp [hget]

theorem TableProperties.require_eq (acc : TableProperties) (requiredField : Bool) (name : String) :
    acc.require requiredField name =
      { acc with required := acc.required ++ if requiredField then [name] else [] } := by
  cases requiredField with
  | true => rfl
  | false => simp [TableProperties.require]

/-- What the body of the loop adds for a field. -/
theorem addField_eq {t : TableType} {acc acc' : TableProperties} {field : TableField}
    (h : addField ctx t acc field = .ok acc') :
    acc'.props = (fieldProps ctx field).foldl (fun o e => o.set e.1 e.2) acc.props ∧
      acc'.unionCases = acc.unionCases ++ fieldCases ctx field ∧
      acc'.required = acc.required ++ fieldRequired ctx field := by
  rw [addField] at h
  obtain ⟨union, hunion, h⟩ := Fallible.bind_ok h
  have hof := fieldUnion_eq hunion
  cases union with
  | none =>
    obtain rfl := Except.ok.inj h
    have hnone : ctx.schema.siblingUnion ctx.typesInUnions field = none := by
      simp [SchemaTypes.siblingUnion, ← hof]
    simp [fieldProps, fieldCases, fieldRequired, SchemaTypes.fieldNames, hnone,
      TableProperties.require_eq, TableProperties.setProp]
  | some union =>
    obtain ⟨ref, values⟩ := union
    cases htypes : ctx.typesInUnions with
    | true =>
      simp only [htypes, if_true] at h
      obtain rfl := Except.ok.inj h
      simp [fieldProps, fieldCases, fieldRequired, SchemaTypes.fieldNames, SchemaTypes.siblingUnion,
        htypes, TableProperties.require_eq, TableProperties.setProp]
    | false =>
      have hsome : ctx.schema.siblingUnion ctx.typesInUnions field = some (ref, values) := by
        simp [SchemaTypes.siblingUnion, htypes, ← hof]
      rw [htypes] at hsome
      cases hstrict : ctx.strictUnions with
      | true =>
        simp only [htypes, hstrict, if_true, Bool.false_eq_true, if_false] at h
        obtain rfl := Except.ok.inj h
        cases hrequired : isRequired field.metadata <;>
          simp [fieldProps, fieldCases, fieldRequired, SchemaTypes.fieldNames, hsome, htypes,
            hstrict, hrequired, TableProperties.require_eq, TableField.tagName]
      | false =>
        simp only [htypes, hstrict, Bool.false_eq_true, if_false] at h
        obtain rfl := Except.ok.inj h
        cases hrequired : isRequired field.metadata <;>
          simp [fieldProps, fieldCases, fieldRequired, SchemaTypes.fieldNames, hsome, htypes,
            hstrict, hrequired, TableProperties.require_eq, TableProperties.setProp,
            TableField.tagName, getUnionTagRefUrl, JSContext.url, JSContext.formFqtn]

/-! ### All fields -/

theorem foldlM_addField_eq {t : TableType} {fields : List TableField} {acc acc' : TableProperties}
    (h : fields.foldlM (addField ctx t) acc = .ok acc') :
    acc'.props = (fields.flatMap (fieldProps ctx)).foldl (fun o e => o.set e.1 e.2) acc.props ∧
      acc'.unionCases = acc.unionCases ++ fields.flatMap (fieldCases ctx) ∧
      acc'.required = acc.required ++ fields.flatMap (fieldRequired ctx) := by
  induction fields generalizing acc with
  | nil =>
    obtain rfl := Except.ok.inj h
    simp
  | cons field fields ih =>
    rw [List.foldlM_cons] at h
    obtain ⟨acc₁, hstep, h⟩ := Fallible.bind_ok h
    obtain ⟨hprops, hcases, hrequired⟩ := addField_eq hstep
    obtain ⟨hprops', hcases', hrequired'⟩ := ih h
    refine ⟨?_, ?_, ?_⟩
    · rw [hprops', hprops, List.flatMap_cons, List.foldl_append]
    · rw [hcases', hcases, List.flatMap_cons, List.append_assoc]
    · rw [hrequired', hrequired, List.flatMap_cons, List.append_assoc]

theorem fieldProps_names (field : TableField) :
    ((fieldProps ctx field).map (·.1)).Sublist (ctx.schema.fieldNames ctx.typesInUnions field) := by
  rw [fieldProps, SchemaTypes.fieldNames]
  cases ctx.schema.siblingUnion ctx.typesInUnions field with
  | none => simp
  | some union =>
    obtain ⟨ref, values⟩ := union
    simp only
    split <;> simp

theorem flatMap_fieldProps_names (fields : List TableField) :
    ((fields.flatMap (fieldProps ctx)).map (·.1)).Sublist
      (fields.flatMap (ctx.schema.fieldNames ctx.typesInUnions)) := by
  induction fields with
  | nil => simp
  | cons field fields ih =>
    rw [List.flatMap_cons, List.flatMap_cons, List.map_append]
    exact (fieldProps_names field).append ih

theorem mem_fieldNames {field : TableField} {typesInUnions : Bool} {name : String}
    (h : name ∈ ctx.schema.fieldNames typesInUnions field) :
    name = field.tagName ∨ name = field.name := by
  rw [SchemaTypes.fieldNames] at h
  split at h
  · simpa using h
  · exact .inr (by simpa using h)

/-- What a context has in common with the default one. -/
structure JSContext.Plain (ctx : JSContext) (suffix : String) : Prop where
  tagged : ∀ fqtn, ctx.getTaggedType fqtn = appendToLast fqtn suffix
  typeKey : ctx.typeKey = "_type"
  refUrl : ∀ fqtn, ctx.getRefUrl fqtn = getDefaultRefUrl ctx.baseUri fqtn

theorem JsonSchemaConfig.plain (config : JsonSchemaConfig) (schema : SchemaTypes) :
    (config.context schema).Plain config.suffix :=
  ⟨fun _ => rfl, rfl, fun _ => rfl⟩

/-- The properties of a definition, when no two have one name. -/
theorem addTableProperties_eq {key : String} {t : TableType} {js js' : TypeSchema} {tagged : Bool}
    {suffix : String} (hplain : ctx.Plain suffix)
    (hapart : ctx.schema.PropertiesApart ctx.typesInUnions) (hproto : ctx.schema.NoPrototype suffix)
    (hmem : (key, SchemaType.table t) ∈ ctx.schema.types)
    (h : addTableProperties ctx t js tagged = .ok js') :
    ((js'.properties.getD {}).entries =
        tagProps ctx t tagged ++ t.fields.flatMap (fieldProps ctx)) ∧
      js' = { js with
        properties := js'.properties
        allOf := t.fields.flatMap (fieldCases ctx)
        required := (if tagged then [ctx.typeKey] else []) ++ t.fields.flatMap (fieldRequired ctx)
        additionalProperties := if ctx.explicitAdditionalProperties then some true else none } := by
  rw [addTableProperties] at h
  obtain ⟨acc, hloop, h⟩ := Fallible.bind_ok h
  obtain rfl := Except.ok.inj h
  obtain ⟨hprops, hcases, hrequired⟩ := foldlM_addField_eq hloop
  have hnodup := hapart key t hmem
  have hkeys : ∀ e ∈ t.fields.flatMap (fieldProps ctx), e.1 ≠ "__proto__" := by
    intro e he
    have hname := (flatMap_fieldProps_names t.fields).subset (List.mem_map_of_mem (f := (·.1)) he)
    obtain ⟨field, hfield, hname⟩ := List.mem_flatMap.mp hname
    rcases mem_fieldNames hname with heq | heq
    · rw [heq]
      exact append_ne_proto (by decide) field.name
    · rw [heq]
      exact hproto.fields key t hmem field hfield
  have hsub := @flatMap_fieldProps_names ctx t.fields
  obtain ⟨hnew, hfields⟩ := List.nodup_cons.mp hnodup
  rw [JsObject.foldl_set hkeys] at hprops
  cases tagged with
  | false =>
    simp only [Bool.false_eq_true, if_false, List.nil_append] at hprops hcases hrequired
    rw [InsertionMap.foldl_set (by simpa using hfields.sublist hsub)] at hprops
    refine ⟨?_, by simp [hcases, hrequired]⟩
    simp only [tagProps, Bool.false_eq_true, if_false, List.nil_append, hprops]
    split
    · rename_i hempty
      simpa using (List.isEmpty_iff.mp hempty).symm
    · simp
  | true =>
    have htag : ctx.typeKey ≠ "__proto__" := by
      rw [hplain.typeKey]
      decide
    simp only [if_true, TableProperties.require, TableProperties.setProp, JsObject.set, if_neg htag]
      at hprops hcases hrequired
    rw [InsertionMap.set_of_notMem (by simp), List.nil_append, InsertionMap.foldl_set] at hprops
    · refine ⟨?_, by simp [hcases, hrequired]⟩
      simp [tagProps, hprops]
    · rw [List.map_append, List.map_cons, List.map_nil, List.singleton_append, List.nodup_cons,
        hplain.typeKey]
      exact ⟨fun hmem => hnew (hsub.subset hmem), hfields.sublist hsub⟩

/-- What the definition of a table says about a value. -/
theorem table_holds_iff {key : String} {t : TableType} {form : Form} {suffix : String}
    (hplain : ctx.Plain suffix) (hresolved : ctx.schema.IsResolved)
    (hapart : ctx.schema.PropertiesApart ctx.typesInUnions) (hproto : ctx.schema.NoPrototype suffix)
    (hmem : (key, SchemaType.table t) ∈ ctx.schema.types) (V : String → JsonValue → Prop)
    (j : JsonValue) : (definition ctx (.table t) form).Holds V j ↔
      (∃ members, j = .object members) ∧
      (∀ e ∈ tagProps ctx t (form = .tagged), PropertyHolds V e.1 e.2 j) ∧
      (form = .tagged → (j.get? ctx.typeKey).isSome = true) ∧
      ∀ field ∈ t.fields, (∀ e ∈ fieldProps ctx field, PropertyHolds V e.1 e.2 j) ∧
        (∀ c ∈ fieldCases ctx field, c.Holds V j) ∧
        ∀ name ∈ fieldRequired ctx field, (j.get? name).isSome = true := by
  have hjs : ∃ js, js.type = some .object ∧ js.enum = none ∧ js.anyOf = none ∧ js.oneOf = none ∧
      addTableProperties ctx t js (form = .tagged) = .ok (definition ctx (.table t) form) := by
    have hok := generate_ok hresolved hmem form
    cases form with
    | tagged => exact ⟨_, rfl, rfl, rfl, rfl, hok⟩
    | untagged => exact ⟨_, rfl, rfl, rfl, rfl, hok⟩
    | tags => exact ⟨_, rfl, rfl, rfl, rfl, hok⟩
  obtain ⟨js, htype, henum, hany, hone, hadd⟩ := hjs
  obtain ⟨hentries, heq⟩ := addTableProperties_eq hplain hapart hproto hmem hadd
  generalize definition ctx (.table t) form = js' at *
  have hrequired : js'.required = (if form = .tagged then [ctx.typeKey] else []) ++
      t.fields.flatMap (fieldRequired ctx) := by
    rw [heq]
    simp
  have hcases : js'.allOf = t.fields.flatMap (fieldCases ctx) := by rw [heq]
  constructor
  · intro h
    obtain ⟨members, rfl⟩ := h.type _ (by rw [heq]; exact htype)
    have hall : ∀ e ∈ tagProps ctx t (form = .tagged) ++ t.fields.flatMap (fieldProps ctx),
        PropertyHolds V e.1 e.2 (.object members) := by
      intro e he
      rw [← hentries] at he
      cases hprops : js'.properties with
      | none => simp [hprops] at he
      | some props =>
        rw [hprops] at he
        exact h.properties props hprops e he
    have hreq := h.required rfl
    rw [hrequired] at hreq
    refine ⟨⟨members, rfl⟩, fun e he => hall e (List.mem_append_left _ he), ?_, ?_⟩
    · intro htagged
      exact hreq _ (List.mem_append_left _ (by simp [htagged]))
    · intro field hfield
      refine ⟨?_, ?_, ?_⟩
      · intro e he
        exact hall e (List.mem_append_right _ (List.mem_flatMap.mpr ⟨field, hfield, he⟩))
      · intro c hc
        exact h.allOf c (by rw [hcases]; exact List.mem_flatMap.mpr ⟨field, hfield, hc⟩)
      · intro name hname
        exact hreq name (List.mem_append_right _ (List.mem_flatMap.mpr ⟨field, hfield, hname⟩))
  · rintro ⟨hobject, htag, htagRequired, hfields⟩
    constructor
    · intro type hsome
      rw [heq] at hsome
      obtain rfl := Option.some.inj (htype.symm.trans hsome)
      exact hobject
    · intro values hsome
      rw [heq] at hsome
      simp [henum] at hsome
    · intro schemas hsome
      rw [heq] at hsome
      simp [hany] at hsome
    · intro schemas hsome
      rw [heq] at hsome
      simp [hone] at hsome
    · intro props hprops e he
      rw [hprops, Option.getD_some] at hentries
      rw [hentries] at he
      rcases List.mem_append.mp he with he | he
      · exact htag e he
      · obtain ⟨field, hfield, he⟩ := List.mem_flatMap.mp he
        exact (hfields field hfield).1 e he
    · intro c hc
      rw [hcases] at hc
      obtain ⟨field, hfield, hc⟩ := List.mem_flatMap.mp hc
      exact (hfields field hfield).2.1 c hc
    · intro _ name hname
      rw [hrequired] at hname
      rcases List.mem_append.mp hname with hname | hname
      · split at hname
        · rename_i htagged
          obtain rfl := List.mem_singleton.mp hname
          exact htagRequired htagged
        · cases hname
      · obtain ⟨field, hfield, hname⟩ := List.mem_flatMap.mp hname
        exact (hfields field hfield).2.2 name hname
    · intro hfalse
      rw [heq] at hfalse
      simp only at hfalse
      split at hfalse <;> simp at hfalse

end Motis.Protocol
