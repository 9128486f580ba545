import Motis.Lib.Traversal
import Motis.Protocol.Ast

/-! Resolving a schema.

    The root file and the files it includes are read depth first, and the types of a file are
    registered after those of its includes. Then every reference is bound to the type in the innermost
    namespace around it that has the name, and the types it refers to are marked:

        namespace a.b;  table T { x: c.D; }      looked up as   a.b.c.D   a.c.D   c.D -/

namespace Motis.Protocol

/-! ### Schema types -/

abbrev Namespace := List String

structure TypeRef where
  input : String
  currentNamespace : Namespace
  resolvedFqtn : List String
  deriving DecidableEq, Repr

inductive FieldType where
  | basic (type : BasicType)
  | vector (type : FieldType)
  | custom (type : TypeRef)
  deriving DecidableEq, Repr

structure TypeBase where
  name : String
  ns : Namespace
  fbsFile : String
  relativeFbsFile : String
  metadata : AstMetadata
  deriving DecidableEq, Repr

structure UnionValue where
  typeRef : TypeRef
  value : Option Number
  metadata : AstMetadata
  deriving DecidableEq, Repr

structure TableField where
  name : String
  type : FieldType
  defaultValue : Option AstDefault
  metadata : AstMetadata
  deriving DecidableEq, Repr

structure TableType extends TypeBase where
  isStruct : Bool
  fields : List TableField
  usedInUnion : Bool
  usedInTable : Bool
  deriving DecidableEq, Repr

inductive SchemaType where
  | enum (base : TypeBase) (values : List AstEnumVal)
  | union (base : TypeBase) (values : List UnionValue)
  | table (t : TableType)
  deriving DecidableEq, Repr

/-- `Map<string, SchemaType>`, in the order of insertion. -/
abbrev TypeMap := List (String × SchemaType)

structure SchemaTypes where
  types : TypeMap := []
  rootType : Option TypeRef := none
  deriving DecidableEq, Repr

/-! ### Reading files -/

inductive ResolveError where
  | fileNotFound (file : String)
  | failedToParse (file : String)
  | typeAlreadyDefined (type : String)
  | unknownType (input : String) (referencedIn : String)
  | outOfFuel
  deriving DecidableEq, Repr

/-- The schema files, and what `path` says about file names. `parse` is `schema.run` on the text of a
    file. -/
structure FileSystem where
  existsSync : String → Bool
  parse : String → Option (List AstTopLevel)
  /-- `path.resolve(rootDir, ..)`. -/
  resolve : String → String
  /-- `getRelativeFbsFile`. -/
  relative : String → String

/-- `reads` are the calls of `readFileSync`. -/
structure ResolverContext where
  schema : SchemaTypes := {}
  files : List String := []
  currentFile : String
  reads : List String := []
  deriving DecidableEq, Repr

abbrev ResolverM := EStateM ResolveError ResolverContext

/-- `join(".")`. -/
def joinDots (fqtn : List String) : String := ".".intercalate fqtn

/-- `split(".")`. -/
def splitDots (id : String) : List String := (id.toList.splitOn '.').map String.ofList

def namespaced (ns : Namespace) (id : String) : List String := ns ++ splitDots id

namespace TypeMap

def has (types : TypeMap) (key : String) : Bool := types.any (·.1 == key)

def get (types : TypeMap) (key : String) : Option SchemaType := types.lookup key

def set (types : TypeMap) (key : String) (t : SchemaType) : TypeMap :=
  if types.has key then types.map fun (k, u) => (k, if k == key then t else u)
  else types ++ [(key, t)]

/-- An assignment to the object that is stored under `key`. -/
def update (types : TypeMap) (key : String) (f : SchemaType → SchemaType) : TypeMap :=
  types.map fun (k, t) => (k, if k == key then f t else t)

end TypeMap

def verifyNewType (fqtn : List String) : ResolverM Unit := do
  let s := joinDots fqtn
  if (← get).schema.types.has s then throw (.typeAlreadyDefined s)

def extractType (currentNamespace : Namespace) (id : String) : TypeRef :=
  { input := id, currentNamespace := currentNamespace, resolvedFqtn := [] }

def extractFieldType (currentNamespace : Namespace) : AstFieldType → FieldType
  | .basic type => .basic type
  | .vector type => .vector (extractFieldType currentNamespace type)
  | .custom type => .custom (extractType currentNamespace type)

def unionType (base : TypeBase) (values : List AstEnumVal) : SchemaType :=
  .union base <| values.map fun a =>
    { typeRef := extractType base.ns a.id, value := a.value, metadata := a.metadata }

def tableType (base : TypeBase) (isStruct : Bool) (fields : List AstField) : SchemaType :=
  .table
    { base with
      isStruct := isStruct
      fields := fields.map fun a =>
        { name := a.name, type := extractFieldType base.ns a.type
          defaultValue := a.defaultValue, metadata := a.metadata }
      usedInUnion := false
      usedInTable := false }

/-- A declaration of a type enters the schema under its full name. -/
def setNewType (currentNamespace : Namespace) (name : String) (t : SchemaType) :
    ResolverM Unit := do
  let fqtn := namespaced currentNamespace name
  verifyNewType fqtn
  modify fun ctx => { ctx with
    schema := { ctx.schema with types := ctx.schema.types.set (joinDots fqtn) t } }

/-- The body of the loop over the declarations of a file; the result is the namespace of the next
    one. -/
def extractDeclaration (fbsFile relativeFbsFile : String) (currentNamespace : Namespace)
    (elm : AstTopLevel) : ResolverM Namespace := do
  let base (name : String) (metadata : AstMetadata) : TypeBase :=
    { name := name, ns := currentNamespace, fbsFile := fbsFile, relativeFbsFile := relativeFbsFile
      metadata := metadata }
  match elm with
  | .namespace value => return splitDots value
  | .enum name _ metadata values =>
    setNewType currentNamespace name (.enum (base name metadata) values)
    return currentNamespace
  | .union name metadata values =>
    setNewType currentNamespace name (unionType (base name metadata) values)
    return currentNamespace
  | .table isStruct name metadata fields =>
    setNewType currentNamespace name (tableType (base name metadata) isStruct fields)
    return currentNamespace
  | .attribute _ => return currentNamespace
  | .rootType type =>
    modify fun ctx => { ctx with
      schema := { ctx.schema with rootType := some (extractType currentNamespace type) } }
    return currentNamespace
  | .include _ => return currentNamespace

def extractTypes (fs : FileSystem) (fbsFile : String) (ast : List AstTopLevel) :
    ResolverM Unit := do
  modify fun ctx => { ctx with currentFile := fbsFile }
  let _ ← ast.foldlM (extractDeclaration fbsFile (fs.relative fbsFile)) []

/-- What a file includes. -/
def FileSystem.includes (fs : FileSystem) (ast : List AstTopLevel) : List String :=
  ast.filterMap fun
    | .include value => some (fs.resolve value)
    | _ => none

def resolveFile (fs : FileSystem) : ℕ → String → ResolverM Unit
  | 0, _ => throw .outOfFuel
  | fuel + 1, file => do
    if (← get).files.contains file then return
    if !fs.existsSync file then throw (.fileNotFound file)
    modify fun ctx => { ctx with
      currentFile := file
      files := ctx.files ++ [file]
      reads := ctx.reads ++ [file] }
    match fs.parse file with
    | none => throw (.failedToParse file)
    | some ast =>
      (fs.includes ast).forM fun includeFile => resolveFile fs fuel includeFile
      extractTypes fs file ast

/-! ### Binding references -/

/-- The loop of `resolveType`, over the namespaces around a reference, innermost first. -/
def lookupType (types : TypeMap) (input : List String) : List String → Option (List String)
  | [] => if types.has (joinDots input) then some input else none
  | ns :: outer =>
    let fqtn := (ns :: outer).reverse ++ input
    if types.has (joinDots fqtn) then some fqtn else lookupType types input outer

def resolveType (ref : TypeRef) : ResolverM TypeRef := do
  let ctx ← get
  match lookupType ctx.schema.types (splitDots ref.input) ref.currentNamespace.reverse with
  | some fqtn => return { ref with resolvedFqtn := fqtn }
  | none => throw (.unknownType ref.input ctx.currentFile)

/-- Tables only. -/
def SchemaType.onTable (f : TableType → TableType) : SchemaType → SchemaType
  | .table t => .table (f t)
  | t => t

def markResolvedType (ref : TypeRef) (fn : TableType → TableType) : ResolverM Unit :=
  modify fun ctx => { ctx with
    schema := { ctx.schema with
      types := ctx.schema.types.update (joinDots ref.resolvedFqtn) (.onTable fn) } }

def resolveFieldType : FieldType → ResolverM FieldType
  | .basic type => return .basic type
  | .vector type => return .vector (← resolveFieldType type)
  | .custom type => do
    let ref ← resolveType type
    markResolvedType ref fun resolved => { resolved with usedInTable := true }
    return .custom ref

/-- The references of a type are objects of their own: what is assigned to them is in the type when
    all of them are resolved. -/
def resolveSchemaType (key : String) (t : SchemaType) : ResolverM Unit := do
  match t with
  | .enum .. => return
  | .union base values =>
    let values ← values.mapM fun uv => do
      let ref ← resolveType uv.typeRef
      markResolvedType ref fun resolved => { resolved with usedInUnion := true }
      return { uv with typeRef := ref }
    modify fun ctx => { ctx with
      schema := { ctx.schema with types := ctx.schema.types.update key fun _ => .union base values } }
  | .table t =>
    let fields ← t.fields.mapM fun f => return { f with type := ← resolveFieldType f.type }
    modify fun ctx => { ctx with
      schema := { ctx.schema with
        types := ctx.schema.types.update key (.onTable fun t => { t with fields := fields }) } }

def resolveTypes : ResolverM Unit := do
  (← get).schema.types.forM fun (key, t) => resolveSchemaType key t
  match (← get).schema.rootType with
  | none => return
  | some rootType =>
    let ref ← resolveType rootType
    modify fun ctx => { ctx with schema := { ctx.schema with rootType := some ref } }
    markResolvedType ref fun resolved => { resolved with usedInTable := true }

/-- The schema, or what is thrown, and the state that is left. -/
def resolveSchemaTypes (fs : FileSystem) (fuel : ℕ) (rootFile : String) :
    EStateM.Result ResolveError ResolverContext SchemaTypes :=
  let run : ResolverM SchemaTypes := do
    resolveFile fs fuel rootFile
    resolveTypes
    return (← get).schema
  run { currentFile := rootFile }

end Motis.Protocol
