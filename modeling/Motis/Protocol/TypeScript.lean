import Motis.Lib.Fallible
import Motis.Lib.KeyedUpdates
import Motis.Lib.RelativePath
import Motis.Protocol.JsonSchema
import Motis.Protocol.ResolvedSchema
import Motis.Protocol.TypeFilter

/-! TypeScript modules for a schema.

    There is a module for each namespace, and a type is written and used under its short name there:

        a/b.ts   export interface T { .. }       c.ts   import { T } from "./a/b"
                                                        export interface S { x: T }

    The comments of a module are left out. -/

namespace Motis.Protocol.TypeScript

/-! ### Modules -/

/-- A name in a module, and the type that it is written for. -/
structure TSName where
  name : String
  fqtn : String
  deriving DecidableEq, Repr

inductive TSType where
  | boolean | number | string
  | array (type : TSType)
  | name (name : TSName)
  deriving DecidableEq, Repr

structure TSField where
  name : String
  optional : Bool
  type : TSType
  deriving DecidableEq, Repr

inductive TSValue where
  | literal (value : String)
  | name (name : TSName)
  deriving DecidableEq, Repr

/-- `export type` and `export interface`. -/
inductive TSDeclaration where
  | type (name : TSName) (values : List TSValue)
  | interface (name : TSName) (fields : List TSField)
  deriving DecidableEq, Repr

/-- A path that does not lead up is written with `./`. -/
inductive ImportPath where
  | base (importBase : String) (path : RelativePath String)
  | relative (path : RelativePath String)
  deriving DecidableEq, Repr

structure TSImport where
  types : List String
  importPath : ImportPath
  deriving DecidableEq, Repr

structure TSModule where
  path : List String
  imports : List TSImport
  declarations : List TSDeclaration
  deriving DecidableEq, Repr

/-! ### Context -/

structure TSFile where
  path : List String
  «namespace» : String
  types : List String
  deriving DecidableEq, Repr

/-- A directory that is not the root of the file system. -/
structure Directory where
  parent : List String
  name : String

def Directory.path (dir : Directory) : List String := dir.parent ++ [dir.name]

structure TSContext where
  schema : SchemaTypes
  types : List String
  outputDir : Directory
  importBase : Option String

def getFilename (outputDir : Directory) (ns : Namespace) : List String :=
  (outputDir.path ++ ns).modifyLast (· ++ ".ts")

def getUnionTagTypeName (typeName : String) : String := typeName ++ "Type"

/-! ### Includes -/

structure TSInclude where
  filename : List String
  types : List String
  deriving DecidableEq, Repr

/-- `Map<string, TSInclude>`. -/
abbrev TSIncludes := List (String × TSInclude)

/-- `types.add(name)`. -/
def addName (types : List String) (name : String) : List String :=
  if name ∈ types then types else types ++ [name]

section Includes

variable (ctx : TSContext) (file : TSFile)

def handleTypeRef (includes : TSIncludes) (ref : TypeRef) : Except String TSIncludes :=
  let refFqtn := joinDots ref.resolvedFqtn
  let refNamespace := ref.resolvedFqtn.dropLast
  let refNamespaceStr := joinDots refNamespace
  if refNamespaceStr = file.namespace ∨ refFqtn ∉ ctx.types then .ok includes
  else
    match ctx.schema.types.get refFqtn with
    | none => .error s!"unknown type {refFqtn}"
    | some resolvedType =>
      let «include» := (includes.lookup refNamespaceStr).getD
        { filename := getFilename ctx.outputDir refNamespace, types := [] }
      let refName := lastName ref.resolvedFqtn
      let types := addName «include».types refName
      let types := match resolvedType with
        | .union .. => addName types (getUnionTagTypeName refName)
        | _ => types
      .ok (InsertionMap.set includes refNamespaceStr { «include» with types })

def handleFieldType (includes : TSIncludes) : FieldType → Except String TSIncludes
  | .basic _ => .ok includes
  | .vector type => handleFieldType includes type
  | .custom ref => handleTypeRef ctx file includes ref

/-- The body of the loop over the types of a file. -/
def handleType (includes : TSIncludes) (currentTypeName : String) : Except String TSIncludes :=
  match ctx.schema.types.get currentTypeName with
  | none => .error s!"undefined type {currentTypeName}"
  | some (.enum ..) => .ok includes
  | some (.union _ values) =>
    values.foldlM (fun includes v => handleTypeRef ctx file includes v.typeRef) includes
  | some (.table t) =>
    t.fields.foldlM (fun includes f => handleFieldType ctx file includes f.type) includes

def collectIncludes : Except String TSIncludes := file.types.foldlM (handleType ctx file) []

end Includes

/-! ### Import paths -/

/-- `replace(/\.ts$/, "")`. -/
def removeExtension (s : String) : String :=
  if ".ts".toList <:+ s.toList then String.ofList (s.toList.take (s.toList.length - 3)) else s

def importPathTo (source filename : List String) : RelativePath String :=
  let p := RelativePath.relative source filename
  { p with down := p.down.modifyLast removeExtension }

def getImportPath (ctx : TSContext) (file : TSFile) («include» : TSInclude) : ImportPath :=
  match ctx.importBase.filter (· ≠ "") with
  | some importBase => .base importBase (importPathTo ctx.outputDir.path «include».filename)
  | none => .relative (importPathTo file.path.dropLast «include».filename)

/-! ### Types -/

/-- The last name of the type a reference is bound to. -/
def typeName (ref : TypeRef) : TSName := ⟨lastName ref.resolvedFqtn, ref.key⟩

def getTSTypeName : FieldType → TSType
  | .basic .bool => .boolean
  | .basic (.int _) => .number
  | .basic (.float _) => .number
  | .basic .string => .string
  | .vector type => .array (getTSTypeName type)
  | .custom ref => .name (typeName ref)

/-- `filter(Boolean)` keeps what is not an empty text. -/
def TSValue.isNonempty : TSValue → Bool
  | .literal _ => true
  | .name n => n.name ≠ ""

/-- Nothing is written without a value. -/
def writeEnum {α : Type} (name : TSName) (values : List α) (valueFormatter : α → Option TSValue) :
    List TSDeclaration :=
  let formattedValues := (values.filterMap valueFormatter).filter (·.isNonempty)
  if formattedValues = [] then [] else [.type name formattedValues]

section WriteType

variable (ctx : TSContext)

def unionValueFormatter (value : UnionValue) : Option TSName :=
  if joinDots value.typeRef.resolvedFqtn ∈ ctx.types then some (typeName value.typeRef) else none

def unionTagValueFormatter (value : UnionValue) : Option TSValue :=
  match unionValueFormatter ctx value with
  | some name => if name.name ≠ "" then some (.literal name.name) else none
  | none => none

/-- The field, and the one for its tag if it is a union. -/
def writeField (f : TableField) : Except String (List TSField) :=
  let optional := !isRequired f.metadata
  let field : TSField := { name := f.name, optional, type := getTSTypeName f.type }
  match f.type with
  | .custom ref =>
    let fqtn := joinDots ref.resolvedFqtn
    match ctx.schema.types.get fqtn with
    | none => .error s!"unknown type {fqtn}"
    | some (.union base _) =>
      let tag : TSName := ⟨getUnionTagTypeName base.name, fqtn⟩
      .ok [{ name := f.name ++ "_type", optional, type := .name tag }, field]
    | some _ => .ok [field]
  | _ => .ok [field]

def writeType (fqtn : String) : Except String (List TSDeclaration) :=
  match ctx.schema.types.get fqtn with
  | none => .error s!"undefined type {fqtn}"
  | some (.enum base values) =>
    .ok (writeEnum ⟨base.name, fqtn⟩ values fun value => some (.literal value.id))
  | some (.union base values) =>
    .ok (writeEnum ⟨base.name, fqtn⟩ values (fun value => (unionValueFormatter ctx value).map .name) ++
      writeEnum ⟨getUnionTagTypeName base.name, fqtn⟩ values (unionTagValueFormatter ctx))
  | some (.table t) => do
    let fields ← t.fields.mapM (writeField ctx)
    return [.interface ⟨t.name, fqtn⟩ fields.flatten]

end WriteType

/-! ### Files -/

def writeFile (ctx : TSContext) (file : TSFile) : Except String TSModule := do
  let includes ← collectIncludes ctx file
  let declarations ← file.types.mapM (writeType ctx)
  return {
    path := file.path
    imports := includes.map fun e =>
      { types := e.2.types, importPath := getImportPath ctx file e.2 }
    declarations := declarations.flatten }

def addToFile (outputDir : Directory) (files : List (String × TSFile))
    (entry : String × SchemaType) : List (String × TSFile) :=
  let ns := joinDots entry.2.base.ns
  let file := (files.lookup ns).getD
    { path := getFilename outputDir entry.2.base.ns, «namespace» := ns, types := [] }
  InsertionMap.set files ns { file with types := file.types ++ [entry.1] }

def writeTypeScriptOutput (schema : SchemaTypes) (typeFilter : TypeFilter.Filter)
    (outputDir : Directory) (importBase : Option String) : Except String (List TSModule) :=
  let included := schema.types.filter fun entry =>
    TypeFilter.includeType typeFilter entry.1.toList
  let files := included.foldl (addToFile outputDir) []
  let ctx : TSContext := { schema, types := included.map (·.1), outputDir, importBase }
  files.mapM fun e => writeFile ctx e.2

end Motis.Protocol.TypeScript
