import Motis.Protocol.JsonSchema

/-! OpenAPI output.

    The definitions of the JSON Schema are the components of the document, and every documented path
    has a request body and response bodies. A body is the content of a message alone, in its tagged
    form, or the whole message around the content:

        msgContentOnly      { $ref: content }
        ¬ msgContentOnly    { destination, content_type, content: { $ref: content }, id }

    Texts of the documentation and the order of the components are left out. -/

namespace Motis.Protocol

/-! ### Documentation -/

structure DocResponse where
  type : String
  description : String
  deriving DecidableEq, Repr

structure DocPath where
  path : String
  input : Option String := none
  output : Option DocResponse := none
  deriving DecidableEq, Repr

/-- The paths of the documentation; no path is in it twice. -/
structure Documentation where
  paths : List DocPath
  deriving DecidableEq, Repr

/-- `if (path.input)`. -/
def DocPath.request (path : DocPath) : Option String := path.input.filter (· ≠ "")

/-! ### Document -/

/-- The schema of a body. `message` is an object with the properties `destination`, `content_type`,
    `content` and `id`. -/
inductive BodySchema where
  /-- `{ $ref: ref }`. -/
  | content (ref : String)
  /-- `target` and `contentType` are the only values of `destination.target` and `content_type`,
      and `{ $ref: ref }` is `content`. -/
  | message (required : List String) (target : String) (contentType : String) (ref : String)
  deriving DecidableEq, Repr

structure Response where
  code : String
  description : String
  schema : BodySchema
  deriving DecidableEq, Repr

structure Operation where
  path : String
  post : Bool
  requestBody : Option BodySchema
  responses : List Response
  deriving DecidableEq, Repr

/-- `schemas` are the components of the document. -/
structure OpenApi where
  paths : List Operation
  schemas : Definitions
  deriving DecidableEq, Repr

structure OpenApiConfig where
  baseUri : BaseUri
  ids : Bool := true
  typesInUnions : Bool := true
  /-- `config["msg-content-only"] !== false`. -/
  msgContentOnly : Bool := true
  explicitAdditionalProperties : Bool := true

def OpenApi.getRefUrl (fqtn : List String) : String := "#/components/schemas/" ++ joinDots fqtn

def OpenApiConfig.context (config : OpenApiConfig) (schema : SchemaTypes) : JSContext where
  schema := schema
  baseUri := config.baseUri.directory
  strictIntTypes := false
  numberFormats := true
  strictUnions := false
  typesInUnions := config.typesInUnions
  getRefUrl := OpenApi.getRefUrl
  getTaggedType fqtn := getDefaultTaggedType fqtn "T"
  typeKey := "_type"
  includeOpenApiDiscriminators := config.typesInUnions
  constAsEnum := true
  explicitAdditionalProperties := config.explicitAdditionalProperties

structure OpenApiContext where
  jsonSchema : JSONSchemaTypes
  doc : Documentation
  includeIds : Bool
  msgContentOnly : Bool

section
variable (ctx : OpenApiContext)

/-! ### Paths -/

/-- The tagged form of the type of a body. -/
def taggedContent (fqtn : String) : Except OutputError BodySchema :=
  match ctx.jsonSchema.untaggedToTaggedType.lookup fqtn with
  | none => throw (.noTaggedType fqtn)
  | some taggedType => return .content (OpenApi.getRefUrl (splitDots taggedType))

def writeRequest (path : DocPath) (reqFqtn : String) : Except OutputError BodySchema :=
  if ctx.msgContentOnly then taggedContent ctx reqFqtn
  else
    let reqType := splitDots reqFqtn
    return .message ["destination", "content_type", "content"] path.path (lastName reqType)
      (OpenApi.getRefUrl reqType)

def writeResponse (code fqtn description : String) : Except OutputError Response := do
  let resType := splitDots fqtn
  let schema ←
    if ctx.msgContentOnly then taggedContent ctx fqtn
    else pure (.message ["content_type", "content"] "" (lastName resType)
      (OpenApi.getRefUrl resType))
  return { code := code, description := description, schema := schema }

def DocPath.okType (path : DocPath) : String :=
  (path.output.map (·.type)).getD "motis.MotisSuccess"

def DocPath.okDescription (path : DocPath) : String :=
  (path.output.map (·.description)).getD "Empty response"

def writePath (path : DocPath) : Except OutputError Operation := do
  let requestBody ← path.request.mapM (writeRequest ctx path)
  let ok ← writeResponse ctx "200" path.okType path.okDescription
  let error ← writeResponse ctx "500" "motis.MotisError" "Error"
  return {
    path := path.path
    post := path.request.isSome
    requestBody := requestBody
    responses := [ok, error] }

def writePaths : Except OutputError (List Operation) := ctx.doc.paths.mapM (writePath ctx)

/-! ### Components -/

/-- `writeSchema` for the schema of a property, which is copied key by key. -/
def writePropertySchema : JSONSchema → JSONSchema
  | .array items => .array (writePropertySchema items)
  | js => js

/-- The loop over the keys of `properties`, which includes those of its prototype: their values are
    strings, and no schemas. -/
def writeProperties (props : JsObject JSONSchema) : Except OutputError (JsObject JSONSchema) :=
  match props.prototype with
  | some _ => throw .typeError
  | none => return { entries := props.entries.map fun (key, js) => (key, writePropertySchema js) }

def writeSchema (includeIds : Bool) (fqtn : String) (jsonSchema : TypeSchema) :
    Except OutputError TypeSchema := do
  let properties ← jsonSchema.properties.mapM writeProperties
  return { jsonSchema with
    id := if includeIds then jsonSchema.id else none
    title := if fqtn = "" then none else some fqtn
    properties := properties }

def writeSchemas : Except OutputError Definitions :=
  ctx.jsonSchema.types.entries.mapM fun (fqtn, js) => do
    return (fqtn, ← writeSchema ctx.includeIds fqtn js)

end

def writeOpenAPIOutput (schema : SchemaTypes) (doc : Documentation) (config : OpenApiConfig) :
    Except OutputError OpenApi := do
  let jsonSchema ← getJSONSchemaTypes (config.context schema)
  let ctx : OpenApiContext :=
    { jsonSchema := jsonSchema
      doc := doc
      includeIds := config.ids
      msgContentOnly := config.typesInUnions && config.msgContentOnly }
  let paths ← writePaths ctx
  let schemas ← writeSchemas ctx
  return { paths := paths, schemas := schemas }

end Motis.Protocol
