import Motis.Protocol.References

/-! Which definitions are generated, and under which names.

    The loop over the types of a resolved schema throws nothing. When no full name is another one with
    a suffix, no definition takes the place of another, and the definitions are those of all forms of
    all types:

        forms   enum       untagged
                union      untagged,  tags (¬ typesInUnions)
                table      untagged (¬ typesInUnions or used in a table),
                           tagged (typesInUnions and used in a union) -/

namespace Motis.Protocol

/-- No full name is another one with the suffix, joined with dots or as a path. -/
def SchemaTypes.NamesApart (schema : SchemaTypes) (suffix : String) : Prop :=
  ∀ entry ∈ schema.types, ∀ entry' ∈ schema.types, ∀ c ∈ ['.', '/'],
    (String.singleton c).intercalate entry.2.fqtn ≠
      (String.singleton c).intercalate entry'.2.fqtn ++ suffix

/-- No definition and no field has the name that objects reserve. -/
structure SchemaTypes.NoPrototype (schema : SchemaTypes) (suffix : String) : Prop where
  types : "__proto__" ∉ schema.types.names
  tagged : ∀ key ∈ schema.types.names, key ++ suffix ≠ "__proto__"
  fields : ∀ key t, (key, SchemaType.table t) ∈ schema.types →
    ∀ field ∈ t.fields, field.name ≠ "__proto__"

variable {ctx : JSContext}

/-- The forms in which a type is generated. -/
def SchemaType.forms (ctx : JSContext) : SchemaType → List Form
  | .enum .. => [.untagged]
  | .union .. => .untagged :: if ctx.typesInUnions then [] else [.tags]
  | .table t =>
    (if !ctx.typesInUnions || t.usedInTable then [.untagged] else []) ++
      if ctx.typesInUnions && t.usedInUnion then [.tagged] else []

theorem untagged_mem_forms {t : SchemaType}
    (h : ∀ table, t = .table table → ctx.typesInUnions = false ∨ table.usedInTable = true) :
    .untagged ∈ t.forms ctx := by
  cases t with
  | enum base values => simp [SchemaType.forms]
  | union base values => simp [SchemaType.forms]
  | table t =>
    rcases h t rfl with h | h
    · simp [SchemaType.forms, h]
    · simp [SchemaType.forms, h]

theorem entry_unique (hresolved : ctx.schema.IsResolved) {entry entry' : String × SchemaType}
    (h : entry ∈ ctx.schema.types) (h' : entry' ∈ ctx.schema.types) (hkey : entry.1 = entry'.1) : entry = entry' :=
  List.inj_on_of_nodup_map hresolved.nodup h h' hkey

theorem get_eq_some (hresolved : ctx.schema.IsResolved) {key : String} {t : SchemaType} :
    ctx.schema.types.get key = some t ↔ (key, t) ∈ ctx.schema.types :=
  InsertionMap.lookup_eq_some hresolved.nodup

/-! ### The definitions of a type -/

/-- The definition for a form that a type is generated in. -/
def generate (ctx : JSContext) : SchemaType → Form → Except OutputError TypeSchema
  | .enum base values, _ => .ok (enumToJS ctx base values)
  | .union base values, .tags => .ok (unionTagsToJS ctx base values)
  | .union base values, _ => .ok (unionToJS ctx base values)
  | .table t, .tagged => taggedTableToJS ctx t
  | .table t, _ => untaggedTableToJS ctx t

def definition (ctx : JSContext) (t : SchemaType) (form : Form) : TypeSchema :=
  match generate ctx t form with
  | .ok js => js
  | .error _ => {}

def formKey (ctx : JSContext) (t : SchemaType) (form : Form) : String :=
  joinDots (ctx.formFqtn ⟨t.fqtn, form⟩)

def definitions (ctx : JSContext) (entry : String × SchemaType) : Definitions :=
  (entry.2.forms ctx).map fun form => (formKey ctx entry.2 form, definition ctx entry.2 form)

/-- The tagged name of a type, when it has one. -/
def taggedNames (ctx : JSContext) (entry : String × SchemaType) : List (String × String) :=
  if .tagged ∈ entry.2.forms ctx then [(entry.1, formKey ctx entry.2 .tagged)] else []

theorem fieldUnion_ok {key : String} {t : TableType} {field : TableField}
    (hresolved : ctx.schema.IsResolved) (hmem : (key, SchemaType.table t) ∈ ctx.schema.types)
    (hfield : field ∈ t.fields) : ∃ union, fieldUnion ctx t field = .ok union := by
  rw [fieldUnion]
  cases htype : field.type with
  | basic type => exact ⟨none, rfl⟩
  | vector type => exact ⟨none, rfl⟩
  | custom ref =>
    have href : ref ∈ ctx.schema.refs := by
      refine List.mem_append_left _ (List.mem_flatMap.mpr ⟨_, hmem, List.mem_append_left _ ?_⟩)
      exact List.mem_flatMap.mpr ⟨field, hfield, by simp [htype, FieldType.refs]⟩
    obtain ⟨entry, hentry, hfqtn⟩ := hresolved.bound ref href
    have hget : ctx.schema.types.get (joinDots ref.resolvedFqtn) = some entry.2 := by
      rw [get_eq_some hresolved, hfqtn, ← hresolved.key entry hentry]
      exact hentry
    simp only [hget]
    cases entry.2 with
    | enum base values => exact ⟨none, rfl⟩
    | union base values => exact ⟨some (ref, values), rfl⟩
    | table t => exact ⟨none, rfl⟩

theorem addField_ok {key : String} {t : TableType} {field : TableField}
    (hresolved : ctx.schema.IsResolved) (hmem : (key, SchemaType.table t) ∈ ctx.schema.types)
    (hfield : field ∈ t.fields) (acc : TableProperties) :
    ∃ acc', addField ctx t acc field = .ok acc' := by
  obtain ⟨union, hunion⟩ := fieldUnion_ok hresolved hmem hfield
  rw [addField, hunion]
  cases union with
  | none => exact ⟨_, rfl⟩
  | some union =>
    obtain ⟨ref, values⟩ := union
    cases htypes : ctx.typesInUnions with
    | true => exact ⟨_, rfl⟩
    | false =>
      cases hstrict : ctx.strictUnions with
      | true => exact ⟨_, rfl⟩
      | false => exact ⟨_, rfl⟩

theorem foldlM_addField_ok {key : String} {t : TableType} (hresolved : ctx.schema.IsResolved)
    (hmem : (key, SchemaType.table t) ∈ ctx.schema.types) {fields : List TableField}
    (hfields : ∀ field ∈ fields, field ∈ t.fields) (acc : TableProperties) :
    ∃ acc', fields.foldlM (addField ctx t) acc = .ok acc' := by
  induction fields generalizing acc with
  | nil => exact ⟨acc, rfl⟩
  | cons field fields ih =>
    obtain ⟨hfield, hfields⟩ := List.forall_mem_cons.mp hfields
    obtain ⟨acc', hstep⟩ := addField_ok hresolved hmem hfield acc
    obtain ⟨acc'', hloop⟩ := ih hfields acc'
    refine ⟨acc'', ?_⟩
    rw [List.foldlM_cons, hstep]
    exact hloop

theorem addTableProperties_ok {key : String} {t : TableType} (hresolved : ctx.schema.IsResolved)
    (hmem : (key, SchemaType.table t) ∈ ctx.schema.types) (js : TypeSchema) (tagged : Bool) :
    ∃ js', addTableProperties ctx t js tagged = .ok js' := by
  rw [addTableProperties]
  obtain ⟨acc, hloop⟩ := foldlM_addField_ok hresolved hmem (fun _ h => h) (if tagged then
    (({} : TableProperties).setProp ctx.typeKey (getConstString ctx t.name)).require true ctx.typeKey
    else {})
  simp only [hloop]
  exact ⟨_, rfl⟩

theorem generate_ok {key : String} {t : SchemaType} (hresolved : ctx.schema.IsResolved)
    (hmem : (key, t) ∈ ctx.schema.types) (form : Form) :
    generate ctx t form = .ok (definition ctx t form) := by
  have hok : ∃ js, generate ctx t form = .ok js := by
    cases t with
    | enum base values => exact ⟨_, rfl⟩
    | union base values => cases form <;> exact ⟨_, rfl⟩
    | table t => cases form <;> exact addTableProperties_ok hresolved hmem _ _
  obtain ⟨js, hjs⟩ := hok
  rw [definition, hjs]

/-- The definition for a form of a type is generated. -/
theorem generated_of_mem_forms {key : String} {t : SchemaType} {form : Form}
    (hresolved : ctx.schema.IsResolved) (hmem : (key, t) ∈ ctx.schema.types)
    (hform : form ∈ t.forms ctx) : ctx.Generated t form (definition ctx t form) := by
  have hok := generate_ok hresolved hmem form
  cases t with
  | enum base values =>
    obtain rfl := List.mem_singleton.mp hform
    exact .enum base values
  | union base values =>
    rcases List.mem_cons.mp hform with rfl | hform
    · exact .union base values
    · cases htypes : ctx.typesInUnions with
      | true => simp [htypes] at hform
      | false =>
        obtain rfl : form = .tags := by simpa [htypes] using hform
        exact .unionTags base values htypes
  | table t =>
    rcases List.mem_append.mp hform with hform | hform
    · obtain ⟨hused, rfl⟩ : (ctx.typesInUnions = false ∨ t.usedInTable = true) ∧
          form = .untagged := by
        split at hform
        · rename_i hused
          exact ⟨by simpa using hused, List.mem_singleton.mp hform⟩
        · cases hform
      exact .untagged hused hok
    · obtain ⟨⟨htypes, hused⟩, rfl⟩ : (ctx.typesInUnions = true ∧ t.usedInUnion = true) ∧
          form = .tagged := by
        split at hform
        · rename_i hused
          exact ⟨by simpa using hused, List.mem_singleton.mp hform⟩
        · cases hform
      exact .tagged htypes hused hok

theorem mem_forms_of_generated {t : SchemaType} {form : Form} {js : TypeSchema}
    (h : ctx.Generated t form js) : form ∈ t.forms ctx := by
  cases h with
  | enum base values => simp [SchemaType.forms]
  | union base values => simp [SchemaType.forms]
  | unionTags base values htypes => simp [SchemaType.forms, htypes]
  | untagged hused hjs => exact untagged_mem_forms fun table htable => by cases htable; exact hused
  | tagged htypes hused hjs => simp [SchemaType.forms, htypes, hused]

/-! ### The loop over the types -/

section
variable {suffix : String} (hsuffix : ∀ fqtn, ctx.getTaggedType fqtn = appendToLast fqtn suffix)

theorem appendToLast_fqtn (t : SchemaType) (suffix : String) :
    appendToLast t.fqtn suffix = t.base.ns ++ [t.base.name ++ suffix] := by
  cases h : t.fqtn with
  | nil => simp [SchemaType.fqtn] at h
  | cons first rest =>
    rw [appendToLast, ← h]
    simp [SchemaType.fqtn, lastName, List.getLastD_eq_getLast?]

theorem intercalate_appendToLast (sep : String) (t : SchemaType) (suffix : String) :
    sep.intercalate (appendToLast t.fqtn suffix) = sep.intercalate t.fqtn ++ suffix := by
  rw [appendToLast_fqtn, intercalate_append_last, SchemaType.fqtn]

theorem splitDots_key {key : String} {t : SchemaType} (hresolved : ctx.schema.IsResolved)
    (hmem : (key, t) ∈ ctx.schema.types) : splitDots key = t.fqtn := by
  have hkey := hresolved.key _ hmem
  simp only at hkey
  rw [hkey]
  exact splitDots_joinDots (by simp [SchemaType.fqtn]) (free_of_ident (hresolved.ident _ hmem))

/-- One type adds its definitions and its tagged name. -/
theorem convertSchemaType_run (hresolved : ctx.schema.IsResolved) {entry : String × SchemaType}
    (hmem : entry ∈ ctx.schema.types) (maps : JSMaps) :
    ∃ maps', convertSchemaType ctx maps entry = .ok maps' ∧
      maps'.jsonSchema =
        (definitions ctx entry).foldl (fun m e => InsertionMap.set m e.1 e.2) maps.jsonSchema ∧
      maps'.untaggedToTaggedType = (taggedNames ctx entry).foldl
        (fun m e => InsertionMap.set m e.1 e.2) maps.untaggedToTaggedType := by
  obtain ⟨key, t⟩ := entry
  have hkey : joinDots t.fqtn = key := (hresolved.key _ hmem).symm
  have hsplit := splitDots_key hresolved hmem
  cases t with
  | enum base values =>
    refine ⟨_, rfl, ?_, ?_⟩
    · simp [definitions, SchemaType.forms, formKey, JSContext.formFqtn, hkey, definition, generate,
        JSMaps.setSchema]
    · simp [taggedNames, SchemaType.forms, JSMaps.setSchema]
  | union base values =>
    cases htypes : ctx.typesInUnions with
    | true =>
      refine ⟨maps.setSchema key (unionToJS ctx base values), ?_, ?_, ?_⟩
      · simp only [convertSchemaType, htypes, if_true]
        rfl
      · simp [definitions, SchemaType.forms, formKey, JSContext.formFqtn, hkey, definition, generate,
          JSMaps.setSchema, htypes]
      · simp [taggedNames, SchemaType.forms, JSMaps.setSchema, htypes]
    | false =>
      have htags : joinDots (appendToLast (SchemaType.union base values).fqtn "Type") =
          key ++ "Type" := by
        rw [joinDots, intercalate_appendToLast]
        exact congrArg (· ++ "Type") hkey
      refine ⟨(maps.setSchema key (unionToJS ctx base values)).setSchema (key ++ "Type")
        (unionTagsToJS ctx base values), ?_, ?_, ?_⟩
      · simp only [convertSchemaType, htypes, Bool.false_eq_true, if_false]
        rfl
      · simp [definitions, SchemaType.forms, formKey, JSContext.formFqtn, hkey, htags, definition,
          generate, JSMaps.setSchema, htypes]
      · simp [taggedNames, SchemaType.forms, JSMaps.setSchema, htypes]
  | table t =>
    have huntagged : untaggedTableToJS ctx t = .ok (definition ctx (.table t) .untagged) :=
      generate_ok hresolved hmem .untagged
    have htagged : taggedTableToJS ctx t = .ok (definition ctx (.table t) .tagged) :=
      generate_ok hresolved hmem .tagged
    cases hu : !ctx.typesInUnions || t.usedInTable with
    | true =>
      cases ht : ctx.typesInUnions && t.usedInUnion with
      | true =>
        simp only [convertSchemaType, hu, ht, huntagged, htagged, if_true, hsplit]
        refine ⟨_, rfl, ?_, ?_⟩
        · simp [definitions, SchemaType.forms, formKey, JSContext.formFqtn, hkey, hu, ht,
            JSMaps.setSchema]
        · simp [taggedNames, SchemaType.forms, formKey, JSContext.formFqtn, hu, ht,
            JSMaps.setSchema]
      | false =>
        simp only [convertSchemaType, hu, ht, huntagged, if_true, Bool.false_eq_true, if_false]
        refine ⟨_, rfl, ?_, ?_⟩
        · simp [definitions, SchemaType.forms, formKey, JSContext.formFqtn, hkey, hu, ht,
            JSMaps.setSchema]
        · simp [taggedNames, SchemaType.forms, hu, ht, JSMaps.setSchema]
    | false =>
      cases ht : ctx.typesInUnions && t.usedInUnion with
      | true =>
        simp only [convertSchemaType, hu, ht, htagged, if_true, Bool.false_eq_true, if_false, hsplit]
        refine ⟨_, rfl, ?_, ?_⟩
        · simp [definitions, SchemaType.forms, formKey, JSContext.formFqtn, hu, ht,
            JSMaps.setSchema]
        · simp [taggedNames, SchemaType.forms, formKey, JSContext.formFqtn, hu, ht,
            JSMaps.setSchema]
      | false =>
        simp only [convertSchemaType, hu, ht, Bool.false_eq_true, if_false]
        refine ⟨_, rfl, ?_, ?_⟩
        · simp [definitions, SchemaType.forms, hu, ht]
        · simp [taggedNames, SchemaType.forms, hu, ht]

theorem foldlM_convertSchemaType_run (hresolved : ctx.schema.IsResolved) {types : TypeMap}
    (htypes : ∀ entry ∈ types, entry ∈ ctx.schema.types) (maps : JSMaps) :
    ∃ maps', types.foldlM (convertSchemaType ctx) maps = .ok maps' ∧
      maps'.jsonSchema = (types.flatMap (definitions ctx)).foldl
        (fun m e => InsertionMap.set m e.1 e.2) maps.jsonSchema ∧
      maps'.untaggedToTaggedType = (types.flatMap (taggedNames ctx)).foldl
        (fun m e => InsertionMap.set m e.1 e.2) maps.untaggedToTaggedType := by
  induction types generalizing maps with
  | nil => exact ⟨maps, rfl, rfl, rfl⟩
  | cons entry types ih =>
    obtain ⟨hentry, htypes⟩ := List.forall_mem_cons.mp htypes
    obtain ⟨maps', hstep, hschema, htagged⟩ := convertSchemaType_run hresolved hentry maps
    obtain ⟨maps'', hloop, hschema', htagged'⟩ := ih htypes maps'
    refine ⟨maps'', ?_, ?_, ?_⟩
    · rw [List.foldlM_cons, hstep]
      exact hloop
    · rw [hschema', hschema, List.flatMap_cons, List.foldl_append]
    · rw [htagged', htagged, List.flatMap_cons, List.foldl_append]

/-- The name of a form of a type, joined with a character. -/
def formName (ctx : JSContext) (c : Char) (t : SchemaType) (form : Form) : String :=
  (String.singleton c).intercalate (ctx.formFqtn ⟨t.fqtn, form⟩)

include hsuffix

theorem formName_eq (c : Char) (t : SchemaType) (form : Form) :
    formName ctx c t form = (String.singleton c).intercalate t.fqtn ++
      match form with
      | .untagged => ""
      | .tagged => suffix
      | .tags => "Type" := by
  cases form with
  | untagged => simp [formName, JSContext.formFqtn]
  | tagged => simp only [formName, JSContext.formFqtn, hsuffix, intercalate_appendToLast]
  | tags => simp only [formName, JSContext.formFqtn, intercalate_appendToLast]

/-- Two forms of types have different names. -/
theorem formName_inj (hresolved : ctx.schema.IsResolved) (hsuffixes : ctx.schema.NamesApart suffix)
    (htype : ctx.schema.NamesApart "Type") {c : Char} (hc : c ∈ ['.', '/'])
    {entry entry' : String × SchemaType} {form form' : Form} (hentry : entry ∈ ctx.schema.types)
    (hentry' : entry' ∈ ctx.schema.types) (hform : form ∈ entry.2.forms ctx)
    (hform' : form' ∈ entry'.2.forms ctx)
    (h : formName ctx c entry.2 form = formName ctx c entry'.2 form') :
    entry = entry' ∧ form = form' := by
  have hfree : ∀ entry ∈ ctx.schema.types, Free c entry.2.fqtn := by
    intro entry hentry s hs
    refine not_mem_of_isIdent (hresolved.ident entry hentry s hs) ?_
    rcases List.mem_pair.mp hc with rfl | rfl <;> decide
  have hentries : (String.singleton c).intercalate entry.2.fqtn =
      (String.singleton c).intercalate entry'.2.fqtn → entry = entry' := by
    intro heq
    have hfqtn := intercalate_inj (by simp [SchemaType.fqtn]) (by simp [SchemaType.fqtn])
      (hfree entry hentry) (hfree entry' hentry') heq
    refine entry_unique hresolved hentry hentry' ?_
    rw [hresolved.key entry hentry, hresolved.key entry' hentry', hfqtn]
  -- the tagged form and the tags are not generated by one context
  have hforms : ∀ t : SchemaType, ∀ form ∈ t.forms ctx,
      (form = .tagged → ctx.typesInUnions = true) ∧
        (form = .tags → ctx.typesInUnions = false) := by
    intro t form hform
    cases t with
    | enum base values => simp_all [SchemaType.forms]
    | union base values =>
      cases htypes : ctx.typesInUnions <;> simp [SchemaType.forms, htypes] at hform <;>
        grind
    | table t =>
      cases htypes : ctx.typesInUnions <;> simp [SchemaType.forms, htypes] at hform <;>
        grind
  rw [formName_eq hsuffix, formName_eq hsuffix] at h
  have hneq := hsuffixes entry hentry entry' hentry' c hc
  have hneq' := hsuffixes entry' hentry' entry hentry c hc
  have hneqType := htype entry hentry entry' hentry' c hc
  have hneqType' := htype entry' hentry' entry hentry c hc
  cases form <;> cases form' <;> simp only [String.append_empty] at h
  case untagged.untagged => exact ⟨hentries h, rfl⟩
  case untagged.tagged => exact absurd h hneq
  case untagged.tags => exact absurd h hneqType
  case tagged.untagged => exact absurd h.symm hneq'
  case tags.untagged => exact absurd h.symm hneqType'
  case tagged.tagged => exact ⟨hentries (String.append_left_inj _ |>.mp h), rfl⟩
  case tags.tags => exact ⟨hentries (String.append_left_inj _ |>.mp h), rfl⟩
  case tagged.tags =>
    have htrue := (hforms _ _ hform).1 rfl
    have hfalse := (hforms _ _ hform').2 rfl
    simp [htrue] at hfalse
  case tags.tagged =>
    have htrue := (hforms _ _ hform').1 rfl
    have hfalse := (hforms _ _ hform).2 rfl
    simp [htrue] at hfalse

end

/-! ### All definitions -/

def schemaDefinitions (ctx : JSContext) : Definitions := ctx.schema.types.flatMap (definitions ctx)

theorem mem_schemaDefinitions {e : String × TypeSchema} : e ∈ schemaDefinitions ctx ↔
    ∃ entry ∈ ctx.schema.types, ∃ form ∈ entry.2.forms ctx,
      e = (formKey ctx entry.2 form, definition ctx entry.2 form) := by
  simp only [schemaDefinitions, definitions, List.mem_flatMap, List.mem_map]
  constructor
  · rintro ⟨entry, hentry, form, hform, rfl⟩
    exact ⟨entry, hentry, form, hform, rfl⟩
  · rintro ⟨entry, hentry, form, hform, rfl⟩
    exact ⟨entry, hentry, form, hform, rfl⟩

theorem JsObject.foldl_set {α : Type} {l : List (String × α)} (h : ∀ e ∈ l, e.1 ≠ "__proto__")
    (o : JsObject α) : l.foldl (fun o e => o.set e.1 e.2) o =
      { o with entries := l.foldl (fun m e => InsertionMap.set m e.1 e.2) o.entries } := by
  induction l generalizing o with
  | nil => rfl
  | cons e l ih =>
    obtain ⟨he, hl⟩ := List.forall_mem_cons.mp h
    rw [List.foldl_cons, ih hl, JsObject.set, if_neg he]
    rfl

/-- The reserved name ends with an underscore. -/
theorem append_ne_proto {suffix : String} (h : suffix.toList.getLast?.any (· ≠ '_') = true)
    (name : String) : name ++ suffix ≠ "__proto__" := by
  intro heq
  have hlast := congrArg (fun s => s.toList.getLast?) heq
  have hright : "__proto__".toList.getLast? = some '_' := by decide
  obtain ⟨c, hc, hne⟩ := (Option.any_eq_true _ _).mp h
  rw [String.toList_append, List.getLast?_append, hc, Option.some_or, hright] at hlast
  simp [Option.some.inj hlast] at hne

theorem nodup_forms (t : SchemaType) : (t.forms ctx).Nodup := by
  cases t with
  | enum base values => simp [SchemaType.forms]
  | union base values =>
    rw [SchemaType.forms]
    split <;> simp
  | table t =>
    rw [SchemaType.forms]
    split <;> split <;> simp

theorem nodup_taggedNames (hresolved : ctx.schema.IsResolved) :
    ((ctx.schema.types.flatMap (taggedNames ctx)).map (·.1)).Nodup := by
  have hsub : ∀ types : TypeMap,
      ((types.flatMap (taggedNames ctx)).map (·.1)).Sublist (types.map (·.1)) := by
    intro types
    induction types with
    | nil => simp
    | cons entry types ih =>
      rw [List.flatMap_cons, List.map_append, List.map_cons, taggedNames]
      split
      · exact ih.cons_cons _
      · exact ih.cons _
  exact hresolved.nodup.sublist (hsub _)

section
variable {suffix : String} (hsuffix : ∀ fqtn, ctx.getTaggedType fqtn = appendToLast fqtn suffix)
include hsuffix

theorem nodup_schemaDefinitions (hresolved : ctx.schema.IsResolved)
    (hsuffixes : ctx.schema.NamesApart suffix) (htype : ctx.schema.NamesApart "Type") :
    ((schemaDefinitions ctx).map (·.1)).Nodup := by
  have hinj : ∀ entry ∈ ctx.schema.types, ∀ form ∈ entry.2.forms ctx,
      ∀ entry' ∈ ctx.schema.types, ∀ form' ∈ entry'.2.forms ctx,
      formKey ctx entry.2 form = formKey ctx entry'.2 form' → entry = entry' ∧ form = form' :=
    fun entry hentry form hform entry' hentry' form' hform' =>
      formName_inj hsuffix hresolved hsuffixes htype (c := '.') (by simp) hentry hentry' hform hform'
  rw [schemaDefinitions, List.map_flatMap, List.nodup_flatMap]
  constructor
  · intro entry hentry
    rw [definitions, List.map_map]
    refine (nodup_forms entry.2).map_on fun form hform form' hform' heq => ?_
    exact (hinj entry hentry form hform entry hentry form' hform' heq).2
  · refine hresolved.nodup.of_map.pairwise_of_forall_ne fun entry hentry entry' hentry' hne => ?_
    intro key hkey hkey'
    simp only [definitions, List.map_map, List.mem_map, Function.comp_apply] at hkey hkey'
    obtain ⟨form, hform, rfl⟩ := hkey
    obtain ⟨form', hform', heq⟩ := hkey'
    exact hne (hinj entry hentry form hform entry' hentry' form' hform' heq.symm).1

theorem formKey_ne_proto (hresolved : ctx.schema.IsResolved)
    (hproto : ctx.schema.NoPrototype suffix) {entry : String × SchemaType}
    (hentry : entry ∈ ctx.schema.types) (form : Form) :
    formKey ctx entry.2 form ≠ "__proto__" := by
  have hname : entry.1 ∈ ctx.schema.types.names := List.mem_map_of_mem hentry
  have hkey : (String.singleton '.').intercalate entry.2.fqtn = entry.1 :=
    (hresolved.key entry hentry).symm
  change formName ctx '.' entry.2 form ≠ _
  rw [formName_eq hsuffix, hkey]
  cases form with
  | untagged =>
    intro heq
    rw [String.append_empty] at heq
    exact hproto.types (heq ▸ hname)
  | tagged => exact hproto.tagged entry.1 hname
  | tags => exact @append_ne_proto "Type" (by decide) entry.1

/-- The loop over the types of a resolved schema generates all forms of all types. -/
theorem getJSONSchemaTypes_run (hresolved : ctx.schema.IsResolved)
    (hsuffixes : ctx.schema.NamesApart suffix) (htype : ctx.schema.NamesApart "Type")
    (hproto : ctx.schema.NoPrototype suffix) :
    ∃ r, getJSONSchemaTypes ctx = .ok r ∧ r.types = { entries := schemaDefinitions ctx } ∧
      r.untaggedToTaggedType = ctx.schema.types.flatMap (taggedNames ctx) := by
  obtain ⟨maps, hloop, hschema, htagged⟩ :=
    foldlM_convertSchemaType_run hresolved (fun _ h => h) {}
  have hnodup := nodup_schemaDefinitions hsuffix hresolved hsuffixes htype
  have hdefs : maps.jsonSchema = schemaDefinitions ctx := by
    rw [hschema, InsertionMap.foldl_set]
    · rfl
    · exact hnodup
  refine ⟨_, by rw [getJSONSchemaTypes, hloop]; rfl, ?_, ?_⟩
  · have hkeys : ∀ e ∈ schemaDefinitions ctx, e.1 ≠ "__proto__" := by
      intro e he
      obtain ⟨entry, hentry, form, -, rfl⟩ := mem_schemaDefinitions.mp he
      exact formKey_ne_proto hsuffix hresolved hproto hentry form
    simp only [hdefs, bundleDefs, JsObject.foldl_set hkeys]
    rw [InsertionMap.foldl_set hnodup]
    rfl
  · simp only [htagged]
    rw [InsertionMap.foldl_set]
    · rfl
    · exact nodup_taggedNames hresolved

end

end Motis.Protocol
