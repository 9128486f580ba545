import Mathlib.Algebra.Ring.Int.Defs
import Motis.Lib.InsertionMap
import Motis.Protocol.Resolver

/-! JSON Schema output.

    Every type of the schema becomes one definition or more. A table that is a member of a union has a
    tagged form, with the name of the table in the key `_type`, when unions carry their types:

        typesInUnions       table T  ──▶  T (used in a table),  TT (used in a union)
                            union U  ──▶  U: oneOf [TT, ..]
        ¬ typesInUnions     table T  ──▶  T
                            union U  ──▶  U: anyOf [T, ..],  UType: the names of its members

    There is no type filter, and the texts of the documentation are not part of a definition. -/

namespace Motis.Protocol

/-- `Record<string, α>`. What is assigned to `__proto__` is the prototype of the object and no key of
    its own. -/
structure JsObject (α : Type) where
  entries : List (String × α) := []
  prototype : Option α := none
  deriving DecidableEq, Repr

def JsObject.set {α : Type} (o : JsObject α) (key : String) (value : α) : JsObject α :=
  if key = "__proto__" then { o with prototype := some value }
  else { o with entries := InsertionMap.set o.entries key value }

/-! ### Schemas -/

inductive JSONSchemaType where
  | boolean | object | array | number | string | integer
  deriving DecidableEq, Repr

/-- The schema of a property. -/
inductive JSONSchema where
  | basic (type : JSONSchemaType) (format : Option String := none)
      (minimum maximum : Option ℤ := none)
  /-- `{ type: "string", const: value }`. -/
  | const (value : String)
  /-- `{ type: "string", enum: values }`. -/
  | enum (values : List String)
  /-- `{ type: "array", items: items }`. -/
  | array (items : JSONSchema)
  /-- `{ $ref: url }`. -/
  | ref (url : String)
  deriving DecidableEq, Repr

/-- `{ if: { properties: { [tagName]: tag } }, then: { properties: { [name]: value } } }`. -/
structure UnionCase where
  tagName : String
  tag : JSONSchema
  name : String
  value : JSONSchema
  deriving DecidableEq, Repr

structure JSONDiscriminator where
  propertyName : String
  mapping : JsObject String
  deriving DecidableEq, Repr

/-- The schema of a type. An empty list stands for a key that is not set, with the exception of the
    lists in an `Option`. -/
structure TypeSchema where
  id : Option String := none
  title : Option String := none
  type : Option JSONSchemaType := none
  enum : Option (List String) := none
  anyOf : Option (List JSONSchema) := none
  oneOf : Option (List JSONSchema) := none
  discriminator : Option JSONDiscriminator := none
  properties : Option (JsObject JSONSchema) := none
  allOf : List UnionCase := []
  required : List String := []
  additionalProperties : Option Bool := none
  deriving DecidableEq, Repr

/-- The definitions, by full name. -/
abbrev Definitions := List (String × TypeSchema)

/-! ### Context -/

/-- A URL without query and fragment. -/
structure BaseUri where
  origin : String
  pathname : String
  deriving DecidableEq, Repr

def BaseUri.href (baseUri : BaseUri) : String := baseUri.origin ++ baseUri.pathname

/-- `if (!baseUri.pathname.endsWith("/")) baseUri.pathname += "/"`. -/
def BaseUri.directory (baseUri : BaseUri) : BaseUri :=
  if baseUri.pathname.toList.getLast? = some '/' then baseUri
  else { baseUri with pathname := baseUri.pathname ++ "/" }

structure JSContext where
  schema : SchemaTypes
  baseUri : BaseUri
  strictIntTypes : Bool
  numberFormats : Bool
  strictUnions : Bool
  typesInUnions : Bool
  getRefUrl : List String → String
  getTaggedType : List String → List String
  typeKey : String
  includeOpenApiDiscriminators : Bool
  constAsEnum : Bool
  explicitAdditionalProperties : Bool

/-- The maps that are filled: the definitions, and the tagged name of a type and back. -/
structure JSMaps where
  jsonSchema : Definitions := []
  taggedToUntaggedType : List (String × String) := []
  untaggedToTaggedType : List (String × String) := []

inductive OutputError where
  | unknownType (fqtn : String) (table : String) (field : String)
  | noTaggedType (fqtn : String)
  /-- `"$ref" in jsonSchema` for a string. -/
  | typeError
  deriving DecidableEq, Repr

/-- `join("/")`. -/
def joinSlashes (fqtn : List String) : String := "/".intercalate fqtn

/-- `fqtn[fqtn.length - 1]`. -/
def lastName (fqtn : List String) : String := fqtn.getLastD ""

/-- `fqtn[fqtn.length - 1] += suffix`. -/
def appendToLast (fqtn : List String) (suffix : String) : List String :=
  match fqtn with
  | [] => []
  | _ :: _ => fqtn.dropLast ++ [lastName fqtn ++ suffix]

def getDefaultRefUrl (baseUri : BaseUri) (fqtn : List String) (absolute : Bool := false) : String :=
  (if absolute then baseUri.href else baseUri.pathname) ++ joinSlashes fqtn

def getDefaultTaggedType (baseFqtn : List String) (taggedTypeSuffix : String) : List String :=
  appendToLast baseFqtn taggedTypeSuffix

section
variable (ctx : JSContext)

def getUnionTagRefUrl (baseFqtn : List String) : String := ctx.getRefUrl (appendToLast baseFqtn "Type")

def getConstString (value : String) : JSONSchema :=
  if ctx.constAsEnum then .enum [value] else .const value

def getBaseJSProps (type : TypeBase) : TypeSchema :=
  { id := some (ctx.baseUri.href ++ joinSlashes (type.ns ++ [type.name])) }

def getTaggedBaseJSProps (type : TypeBase) : TypeSchema :=
  { id := some (ctx.baseUri.href ++ joinSlashes (ctx.getTaggedType (type.ns ++ [type.name]))) }

/-! ### Fields -/

/-- `INT_TYPE_PROPERTIES`. -/
def IntTypeName.bits : IntTypeName → ℕ
  | .byte | .int8 | .ubyte | .uint8 => 8
  | .short | .int16 | .ushort | .uint16 => 16
  | .int | .int32 | .uint | .uint32 => 32
  | .long | .int64 | .ulong | .uint64 => 64

def IntTypeName.unsigned : IntTypeName → Bool
  | .ubyte | .uint8 | .ushort | .uint16 | .uint | .uint32 | .ulong | .uint64 => true
  | _ => false

/-- `FLOAT_TYPE_PROPERTIES`. -/
def FloatTypeName.bits : FloatTypeName → ℕ
  | .float | .float32 => 32
  | .double | .float64 => 64

def intFormat (type : IntTypeName) : Option String :=
  if type.unsigned || !ctx.numberFormats then none
  else if type.bits = 32 then some "int32"
  else if type.bits = 64 then some "int64"
  else none

def basicTypeToJS : BasicType → JSONSchema
  | .bool => .basic .boolean
  | .int type =>
    let strict := ctx.strictIntTypes && type.bits < 64
    let minimum : Option ℤ :=
      if type.unsigned then some 0
      else if strict then some ((-2) ^ (type.bits - 1))
      else none
    let maximum : Option ℤ :=
      if !strict then none
      else if type.unsigned then some (2 ^ type.bits - 1)
      else some (2 ^ (type.bits - 1) - 1)
    .basic .integer (intFormat ctx type) minimum maximum
  | .float type =>
    .basic .number
      (if ctx.numberFormats then some (if type.bits = 32 then "float" else "double") else none)
  | .string => .basic .string

def fieldTypeToJS : FieldType → JSONSchema
  | .basic type => basicTypeToJS ctx type
  | .vector type => .array (fieldTypeToJS type)
  | .custom type => .ref (ctx.getRefUrl type.resolvedFqtn)

/-- `util/required`: the first of the two attributes decides. -/
def isRequired (metadata : AstMetadata) : Bool :=
  match (metadata.getD []).find? fun attr => attr.id == "optional" || attr.id == "required" with
  | some attr => attr.id == "required"
  | none => true

/-- What `addTableProperties` collects. -/
structure TableProperties where
  props : JsObject JSONSchema := {}
  unionCases : List UnionCase := []
  required : List String := []

/-- `if (requiredField) required.push(name)`. -/
def TableProperties.require (acc : TableProperties) (requiredField : Bool) (name : String) :
    TableProperties :=
  if requiredField then { acc with required := acc.required ++ [name] } else acc

def TableProperties.setProp (acc : TableProperties) (name : String) (js : JSONSchema) :
    TableProperties :=
  { acc with props := acc.props.set name js }

def unionCases (field : TableField) (values : List UnionValue) : List UnionCase :=
  values.map fun value =>
    let fqtn := value.typeRef.resolvedFqtn
    { tagName := field.name ++ "_type", tag := getConstString ctx (lastName fqtn)
      name := field.name, value := .ref (ctx.getRefUrl fqtn) }

/-- The union a field has as its type. -/
def fieldUnion (type : TableType) (field : TableField) :
    Except OutputError (Option (TypeRef × List UnionValue)) :=
  match field.type with
  | .custom ref =>
    match ctx.schema.types.get (joinDots ref.resolvedFqtn) with
    | none => throw (.unknownType (joinDots ref.resolvedFqtn) (joinDots (type.ns ++ [type.name]))
        field.name)
    | some (.union _ values) => return some (ref, values)
    | some _ => return none
  | _ => return none

/-- The body of the loop over the fields. -/
def addField (type : TableType) (acc : TableProperties) (field : TableField) :
    Except OutputError TableProperties := do
  let requiredField := isRequired field.metadata
  let fieldProp (acc : TableProperties) : TableProperties :=
    (acc.setProp field.name (fieldTypeToJS ctx field.type)).require requiredField field.name
  match ← fieldUnion ctx type field with
  | none => return fieldProp acc
  | some (ref, values) =>
    if ctx.typesInUnions then return fieldProp acc
    let tagName := field.name ++ "_type"
    let acc := acc.require requiredField tagName
    if ctx.strictUnions then
      -- the field itself is only in the cases
      let acc := acc.require requiredField field.name
      return { acc with unionCases := acc.unionCases ++ unionCases ctx field values }
    else
      return fieldProp (acc.setProp tagName (.ref (getUnionTagRefUrl ctx ref.resolvedFqtn)))

def addTableProperties (type : TableType) (js : TypeSchema) (tagged : Bool) :
    Except OutputError TypeSchema := do
  let init : TableProperties :=
    if tagged then
      (({} : TableProperties).setProp ctx.typeKey (getConstString ctx type.name)).require true
        ctx.typeKey
    else {}
  let acc ← type.fields.foldlM (addField ctx type) init
  return { js with
    properties := if acc.props.entries.isEmpty then none else some acc.props
    allOf := acc.unionCases
    required := acc.required
    additionalProperties := if ctx.explicitAdditionalProperties then some true else none }

/-! ### Types -/

def enumToJS (base : TypeBase) (values : List AstEnumVal) : TypeSchema :=
  { getBaseJSProps ctx base with type := some .string, enum := some (values.map (·.id)) }

def unionToJS (base : TypeBase) (values : List UnionValue) : TypeSchema :=
  let fqtns := values.map (·.typeRef.resolvedFqtn)
  if ctx.typesInUnions then
    let url (fqtn : List String) := ctx.getRefUrl (ctx.getTaggedType fqtn)
    let mapping : JsObject String := fqtns.foldl (fun m fqtn => m.set (lastName fqtn) (url fqtn)) {}
    { getBaseJSProps ctx base with
      oneOf := some (fqtns.map fun fqtn => .ref (url fqtn))
      discriminator :=
        if ctx.includeOpenApiDiscriminators then some ⟨ctx.typeKey, mapping⟩ else none }
  else
    { getBaseJSProps ctx base with
      anyOf := some (fqtns.map fun fqtn => .ref (ctx.getRefUrl fqtn)) }

def unionTagsToJS (base : TypeBase) (values : List UnionValue) : TypeSchema :=
  { id := some (ctx.baseUri.href ++ joinSlashes (base.ns ++ [base.name ++ "Type"]))
    type := some .string
    enum := some (values.map fun value => lastName value.typeRef.resolvedFqtn) }

def untaggedTableToJS (type : TableType) : Except OutputError TypeSchema :=
  addTableProperties ctx type { getBaseJSProps ctx type.toTypeBase with type := some .object } false

def taggedTableToJS (type : TableType) : Except OutputError TypeSchema :=
  addTableProperties ctx type { getTaggedBaseJSProps ctx type.toTypeBase with type := some .object }
    true

def JSMaps.setSchema (maps : JSMaps) (key : String) (js : TypeSchema) : JSMaps :=
  { maps with jsonSchema := InsertionMap.set maps.jsonSchema key js }

def convertSchemaType (maps : JSMaps) (entry : String × SchemaType) :
    Except OutputError JSMaps := do
  let (fqtn, type) := entry
  match type with
  | .enum base values => return maps.setSchema fqtn (enumToJS ctx base values)
  | .union base values =>
    let maps := maps.setSchema fqtn (unionToJS ctx base values)
    if ctx.typesInUnions then return maps
    return maps.setSchema (fqtn ++ "Type") (unionTagsToJS ctx base values)
  | .table type =>
    let untagged := !ctx.typesInUnions || type.usedInTable
    let tagged := ctx.typesInUnions && type.usedInUnion
    let mut maps := maps
    if untagged then
      maps := maps.setSchema fqtn (← untaggedTableToJS ctx type)
    if tagged then
      let taggedTypeStr := joinDots (ctx.getTaggedType (splitDots fqtn))
      maps := maps.setSchema taggedTypeStr (← taggedTableToJS ctx type)
      maps := { maps with
        taggedToUntaggedType := InsertionMap.set maps.taggedToUntaggedType taggedTypeStr fqtn
        untaggedToTaggedType := InsertionMap.set maps.untaggedToTaggedType fqtn taggedTypeStr }
    return maps

def bundleDefs (jsonSchema : Definitions) : JsObject TypeSchema :=
  jsonSchema.foldl (fun defs e => defs.set e.1 e.2) {}

structure JSONSchemaTypes where
  types : JsObject TypeSchema
  taggedToUntaggedType : List (String × String)
  untaggedToTaggedType : List (String × String)

def getJSONSchemaTypes : Except OutputError JSONSchemaTypes := do
  let maps ← ctx.schema.types.foldlM (convertSchemaType ctx) {}
  return {
    types := bundleDefs maps.jsonSchema
    taggedToUntaggedType := maps.taggedToUntaggedType
    untaggedToTaggedType := maps.untaggedToTaggedType }

end

/-! ### Output -/

structure JsonSchemaConfig where
  baseUri : BaseUri
  strictIntTypes : Bool := false
  numberFormats : Bool := false
  strictUnions : Bool := true
  typesInUnions : Bool := true
  explicitAdditionalProperties : Bool := false
  /-- `config["tagged-type-suffix"]`. -/
  taggedTypeSuffix : String := ""

/-- `config["tagged-type-suffix"] || "T"`. -/
def JsonSchemaConfig.suffix (config : JsonSchemaConfig) : String :=
  if config.taggedTypeSuffix = "" then "T" else config.taggedTypeSuffix

def JsonSchemaConfig.context (config : JsonSchemaConfig) (schema : SchemaTypes) : JSContext where
  schema := schema
  baseUri := config.baseUri.directory
  strictIntTypes := config.strictIntTypes
  numberFormats := config.numberFormats
  strictUnions := config.strictUnions
  typesInUnions := config.typesInUnions
  getRefUrl fqtn := getDefaultRefUrl config.baseUri.directory fqtn
  getTaggedType fqtn := getDefaultTaggedType fqtn config.suffix
  typeKey := "_type"
  includeOpenApiDiscriminators := false
  constAsEnum := false
  explicitAdditionalProperties := config.explicitAdditionalProperties

/-- `{ $schema, $defs: defs, $ref: ref }`. -/
structure JsonSchemaBundle where
  defs : JsObject TypeSchema
  ref : Option String

def writeJsonSchemaOutput (schema : SchemaTypes) (config : JsonSchemaConfig) :
    Except OutputError JsonSchemaBundle := do
  let ctx := config.context schema
  let { types := defs, .. } ← getJSONSchemaTypes ctx
  return {
    defs := defs
    ref := schema.rootType.map fun rootType =>
      getDefaultRefUrl ctx.baseUri rootType.resolvedFqtn true }

end Motis.Protocol
