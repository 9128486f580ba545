import Motis.Protocol.SchemaParser

/-! The ways to write a schema.

    A file is a sequence of declarations, made of tokens, with gaps of whitespace and comments between
    them. It has a text, and it stands for a syntax tree; `Good` says that the parser reads the text
    back. An identifier with namespaces is one token.

        table T { a : int = 5 ; }
             ▲   ▲ ▲ ▲ ▲   ▲ ▲ ▲    gaps -/

namespace Motis.Protocol

def BasicType.name : BasicType → String
  | .bool => "bool"
  | .int type => type.name
  | .float type => type.name
  | .string => "string"

namespace SchemaText
open SchemaParser

/-! ### Gaps -/

/-- A line comment is written with the end of its line. -/
inductive Piece where
  | space (c : Char) (h : isSpace c = true)
  | line (body : List Char) (h : '\n' ∉ body)
  | block (body : List Char) (h : ¬ ['*', '/'] <:+: body)

def Piece.text : Piece → List Char
  | .space c _ => [c]
  | .line body _ => ['/', '/'] ++ body ++ ['\n']
  | .block body _ => ['/', '*'] ++ body ++ ['*', '/']

abbrev Gap := List Piece

def Gap.text (g : Gap) : List Char := g.flatMap Piece.text

/-- A gap that keeps two words apart. -/
abbrev Gap1 := {g : Gap // g ≠ []}

/-! ### Tokens -/

abbrev Ident := {s : String // isIdent s = true}

def Ident.text (id : Ident) : List Char := id.val.toList

structure DottedIdent where
  first : Ident
  rest : List Ident

def DottedIdent.value (id : DottedIdent) : String :=
  joinDots ((id.first :: id.rest).map (·.val))

def DottedIdent.text (id : DottedIdent) : List Char := id.value.toList

/-- A string literal has no escapes. -/
abbrev StringText := {s : List Char // '"' ∉ s}

def StringText.value (s : StringText) : String := String.ofList s.val

def StringText.text (s : StringText) : List Char := ['"'] ++ s.val ++ ['"']

inductive Sign where
  | none | plus | minus
  deriving DecidableEq

def Sign.text : Sign → List Char
  | .none => []
  | .plus => ['+']
  | .minus => ['-']

abbrev Digits := {ds : List Char // ds ≠ [] ∧ ds.all Char.isDigit = true}

inductive Mantissa where
  | fraction (ds : Digits)
  | point (ds : Digits) (fs : {fs : List Char // fs.all Char.isDigit = true})
  | integer (ds : Digits)

def Mantissa.text : Mantissa → List Char
  | .fraction ds => '.' :: ds.val
  | .point ds fs => ds.val ++ '.' :: fs.val
  | .integer ds => ds.val

structure Exponent where
  e : {c : Char // c = 'e' ∨ c = 'E'}
  sign : Sign
  digits : Digits

def Exponent.text (e : Exponent) : List Char := e.e.val :: (e.sign.text ++ e.digits.val)

/-- `infinity` is a spelling of `inf`. -/
inductive NumberText where
  | decimal (sign : Sign) (mantissa : Mantissa) (exponent : Option Exponent)
  | hex (sign : Sign) (x : {c : Char // c = 'x' ∨ c = 'X'})
      (ds : {ds : List Char // ds ≠ [] ∧ ds.all isHexDigit = true})
  | nan (sign : Sign)
  | inf (sign : Sign)
  | infinity (sign : Sign)

namespace NumberText

def text : NumberText → List Char
  | .decimal sign mantissa exponent =>
    sign.text ++ mantissa.text ++ (exponent.map Exponent.text).getD []
  | .hex sign x ds => sign.text ++ '0' :: x.val :: ds.val
  | .nan sign => sign.text ++ "nan".toList
  | .inf sign => sign.text ++ "inf".toList
  | .infinity sign => sign.text ++ "infinity".toList

/-- The number that is written. -/
def value (js : NumberFunctions) (n : NumberText) : Number :=
  match n with
  | .decimal .. => js.parseFloat (String.ofList n.text)
  | .hex .. => js.parseInt (String.ofList n.text)
  | .nan _ => SchemaParser.nan
  | .inf sign => SchemaParser.infinity (sign == .minus)
  | .infinity sign => SchemaParser.infinity (sign == .minus)

/-- The decimal constant `0` is read first, and `inf` before `infinity`. -/
def Good : NumberText → Prop
  | .hex .. => False
  | .infinity _ => False
  | _ => True

end NumberText

inductive ScalarText where
  | boolean (value : Bool)
  | number (n : NumberText)

namespace ScalarText

def text : ScalarText → List Char
  | .boolean true => "true".toList
  | .boolean false => "false".toList
  | .number n => n.text

def value (js : NumberFunctions) : ScalarText → AstScalarLiteral
  | .boolean b => .boolean b
  | .number n => .numeric (n.value js)

def Good : ScalarText → Prop
  | .boolean _ => True
  | .number n => n.Good

end ScalarText

inductive LiteralText where
  | scalar (s : ScalarText)
  | string (s : StringText)

namespace LiteralText

def text : LiteralText → List Char
  | .scalar s => s.text
  | .string s => s.text

def value (js : NumberFunctions) : LiteralText → AstLiteral
  | .scalar s => .scalar (s.value js)
  | .string s => .string s.value

def Good : LiteralText → Prop
  | .scalar s => s.Good
  | .string _ => True

end LiteralText

inductive DefaultText where
  | scalar (s : ScalarText)
  | ref (id : Ident)

namespace DefaultText

def text : DefaultText → List Char
  | .scalar s => s.text
  | .ref id => id.text

def value (js : NumberFunctions) : DefaultText → AstDefault
  | .scalar s => .scalar (s.value js)
  | .ref id => .ref id.val

/-- The words of scalars are read before identifiers. -/
def Good : DefaultText → Prop
  | .scalar s => s.Good
  | .ref id => ∀ word ∈ ["true", "false", "nan", "inf"], ¬ word.toList <+: id.text

end DefaultText

/-! ### Types -/

/-- The names of basic types that are read. -/
def readableTypes : List BasicType :=
  [.bool, .string, .int .byte, .int .ubyte, .int .short, .int .ushort, .int .int, .int .uint,
   .int .long, .int .ulong, .float .float, .float .double]

inductive TypeText where
  | basic (type : BasicType)
  | vector (before : Gap) (type : TypeText) (after : Gap)
  | custom (id : DottedIdent)

namespace TypeText

def text : TypeText → List Char
  | .basic type => type.name.toList
  | .vector before type after => ['['] ++ before.text ++ type.text ++ (after.text ++ [']'])
  | .custom id => id.text

def value : TypeText → AstFieldType
  | .basic type => .basic type
  | .vector _ type _ => .vector type.value
  | .custom id => .custom id.value

/-- A shorter name of a type is read before a longer one, and before an identifier. -/
def Good : TypeText → Prop
  | .basic type => type ∈ readableTypes
  | .vector _ type _ => type.Good
  | .custom id => ∀ type ∈ readableTypes, ¬ type.name.toList <+: id.text

end TypeText

/-! ### Lists -/

/-- The elements between two brackets. The last gap may have a comma in it. -/
inductive CommaText (ι : Type) where
  | empty (gap : Gap)
  | elements (before : Gap) (first : ι) (rest : List (Gap × Gap × ι)) (comma : Option Gap)
      (after : Gap)

namespace CommaText
variable {ι α : Type}

def items : CommaText ι → List ι
  | .empty _ => []
  | .elements _ first rest _ _ => first :: rest.map (·.2.2)

def restText (f : ι → List Char) (rest : List (Gap × Gap × ι)) : List Char :=
  rest.flatMap fun (before, after, x) => (before.text ++ [','] ++ after.text) ++ f x

/-- What is written between the last element and the bracket. -/
def endText (comma : Option Gap) (after : Gap) : List Char :=
  match comma with
  | none => after.text
  | some before => before.text ++ [','] ++ after.text

def text (left right : Char) (f : ι → List Char) : CommaText ι → List Char
  | .empty gap => [left] ++ gap.text ++ [right]
  | .elements before first rest comma after =>
    [left] ++ before.text ++ (f first ++ restText f rest ++ endText comma after) ++ [right]

end CommaText

structure MetadataValueText where
  id : DottedIdent
  /-- The gaps around the colon, and the value. -/
  value : Option (Gap × Gap × LiteralText)

namespace MetadataValueText

def text (a : MetadataValueText) : List Char :=
  a.id.text ++ (a.value.map fun (before, after, v) =>
    before.text ++ [':'] ++ after.text ++ v.text).getD []

def ast (js : NumberFunctions) (a : MetadataValueText) : AstAttribute :=
  { id := a.id.value, value := a.value.map fun (_, _, v) => v.value js }

def Good (a : MetadataValueText) : Prop := ∀ v ∈ a.value, v.2.2.Good

end MetadataValueText

abbrev MetadataText := CommaText MetadataValueText

namespace MetadataText

def text (m : MetadataText) : List Char := CommaText.text '(' ')' MetadataValueText.text m

def ast (js : NumberFunctions) (m : MetadataText) : List AstAttribute :=
  m.items.map (MetadataValueText.ast js)

def Good (m : MetadataText) : Prop := ∀ a ∈ m.items, a.Good

end MetadataText

/-- Metadata after a gap, or none. -/
abbrev OptMetadata := Option (Gap × MetadataText)

namespace OptMetadata

def text (m : OptMetadata) : List Char :=
  (m.map fun (gap, m) => gap.text ++ MetadataText.text m).getD []

def ast (js : NumberFunctions) (m : OptMetadata) : AstMetadata :=
  m.map fun (_, m) => MetadataText.ast js m

def Good (m : OptMetadata) : Prop := ∀ x ∈ m, MetadataText.Good x.2

end OptMetadata

/-! ### Declarations -/

/-- A value of an enum or a union. -/
structure ValText (ν : Type) where
  name : ν
  /-- The gaps around the equals sign, and the number. -/
  value : Option (Gap × Gap × NumberText)
  metadata : OptMetadata

namespace ValText
variable {ν : Type}

def text (f : ν → String) (v : ValText ν) : List Char :=
  (f v.name).toList ++ ((v.value.map fun (before, after, n) =>
    before.text ++ ['='] ++ after.text ++ n.text).getD []) ++ OptMetadata.text v.metadata

def ast (js : NumberFunctions) (f : ν → String) (v : ValText ν) : AstEnumVal :=
  { id := f v.name, value := v.value.map fun (_, _, n) => n.value js
    metadata := OptMetadata.ast js v.metadata }

def Good (v : ValText ν) : Prop := (∀ n ∈ v.value, n.2.2.Good) ∧ OptMetadata.Good v.metadata

end ValText

structure FieldText where
  name : Ident
  beforeColon : Gap
  afterColon : Gap
  type : TypeText
  afterType : Gap
  /-- After the equals sign a gap, the value and a gap. -/
  defaultValue : Option (Gap × DefaultText × Gap)
  /-- The metadata, and the gap before the semicolon. -/
  metadata : Option (MetadataText × Gap)

namespace FieldText

def defaultText (f : FieldText) : List Char :=
  (f.defaultValue.map fun (before, v, after) =>
    ['='] ++ before.text ++ v.text ++ after.text).getD []

/-- The gap before the semicolon belongs to the type or the default value when there is no metadata. -/
def beforeSemicolon (f : FieldText) : Gap := (f.metadata.map (·.2)).getD []

def optMetadata (f : FieldText) : OptMetadata := f.metadata.map fun (m, _) => ([], m)

def text (f : FieldText) : List Char :=
  f.name.text ++ f.beforeColon.text ++ [':'] ++ f.afterColon.text ++ f.type.text ++
    f.afterType.text ++ f.defaultText ++ OptMetadata.text f.optMetadata ++
    (f.beforeSemicolon.text ++ [';'])

def ast (js : NumberFunctions) (f : FieldText) : AstField :=
  { name := f.name.val, type := f.type.value
    defaultValue := f.defaultValue.map fun (_, v, _) => v.value js
    metadata := OptMetadata.ast js f.optMetadata }

/-- The semicolon stands directly after the metadata. -/
def Good (f : FieldText) : Prop :=
  f.type.Good ∧ (∀ v ∈ f.defaultValue, v.2.1.Good) ∧ OptMetadata.Good f.optMetadata ∧
    f.beforeSemicolon = []

end FieldText

inductive DeclText where
  | include (gap : Gap) (value : StringText) (last : Gap)
  | namespace (gap : Gap1) (value : DottedIdent) (last : Gap)
  | enum (gap : Gap1) (name : Ident) (metadata : OptMetadata) (beforeColon afterColon : Gap)
      (baseType : TypeText) (last : Gap) (values : CommaText (ValText Ident))
  | union (gap : Gap1) (name : Ident) (metadata : OptMetadata) (last : Gap)
      (values : CommaText (ValText DottedIdent))
  | table (isStruct : Bool) (gap : Gap1) (name : Ident) (metadata : OptMetadata) (last : Gap)
      (before : Gap) (fields : List (FieldText × Gap))
  | rootType (gap : Gap1) (type : DottedIdent) (last : Gap)
  | attribute (gap : Gap1) (id : Ident) (last : Gap)
  | attributeString (gap : Gap) (id : StringText) (last : Gap)

namespace DeclText

def fieldsText (fields : List (FieldText × Gap)) : List Char :=
  fields.flatMap fun (f, after) => f.text ++ after.text

def keyword (isStruct : Bool) : String := if isStruct then "struct" else "table"

def text : DeclText → List Char
  | .include gap value last => "include".toList ++ gap.text ++ value.text ++ last.text ++ [';']
  | .namespace gap value last =>
    "namespace".toList ++ Gap.text gap.val ++ value.text ++ last.text ++ [';']
  | .enum gap name metadata beforeColon afterColon baseType last values =>
    "enum".toList ++ Gap.text gap.val ++ name.text ++ OptMetadata.text metadata ++
      beforeColon.text ++ [':'] ++ afterColon.text ++ baseType.text ++ last.text ++
      values.text '{' '}' (ValText.text (·.val))
  | .union gap name metadata last values =>
    "union".toList ++ Gap.text gap.val ++ name.text ++ OptMetadata.text metadata ++ last.text ++
      values.text '{' '}' (ValText.text DottedIdent.value)
  | .table isStruct gap name metadata last before fields =>
    (keyword isStruct).toList ++ Gap.text gap.val ++ name.text ++ OptMetadata.text metadata ++
      last.text ++ (['{'] ++ before.text ++ fieldsText fields ++ ['}'])
  | .rootType gap type last =>
    "root_type".toList ++ Gap.text gap.val ++ type.text ++ last.text ++ [';']
  | .attribute gap id last =>
    "attribute".toList ++ Gap.text gap.val ++ id.text ++ last.text ++ [';']
  | .attributeString gap id last =>
    "attribute".toList ++ gap.text ++ id.text ++ last.text ++ [';']

def ast (js : NumberFunctions) : DeclText → AstTopLevel
  | .include _ value _ => .include value.value
  | .namespace _ value _ => .namespace value.value
  | .enum _ name metadata _ _ baseType _ values =>
    .enum name.val baseType.value (OptMetadata.ast js metadata)
      (values.items.map (ValText.ast js (·.val)))
  | .union _ name metadata _ values =>
    .union name.val (OptMetadata.ast js metadata)
      (values.items.map (ValText.ast js DottedIdent.value))
  | .table isStruct _ name metadata _ _ fields =>
    .table isStruct name.val (OptMetadata.ast js metadata)
      (fields.map fun (f, _) => f.ast js)
  | .rootType _ type _ => .rootType type.value
  | .attribute _ id _ => .attribute id.val
  | .attributeString _ id _ => .attribute id.value

/-- A keyword is followed by a gap, also before a string. -/
def Good : DeclText → Prop
  | .include gap _ _ => gap ≠ []
  | .enum _ _ metadata _ _ baseType _ values =>
    OptMetadata.Good metadata ∧ baseType.Good ∧ ∀ v ∈ values.items, v.Good
  | .union _ _ metadata _ values => OptMetadata.Good metadata ∧ ∀ v ∈ values.items, v.Good
  | .table _ _ _ metadata _ _ fields => OptMetadata.Good metadata ∧ ∀ f ∈ fields, f.1.Good
  | .attributeString gap _ _ => gap ≠ []
  | _ => True

end DeclText

/-- A whole file. The last line may be a comment without an end of line. -/
structure File where
  before : Gap
  decls : List (DeclText × Gap)
  lastLine : Option {body : List Char // '\n' ∉ body}

namespace File

def declsText (decls : List (DeclText × Gap)) : List Char :=
  decls.flatMap fun (d, after) => d.text ++ after.text

def lastLineText (lastLine : Option {body : List Char // '\n' ∉ body}) : List Char :=
  (lastLine.map fun body => ['/', '/'] ++ body.val).getD []

def text (file : File) : List Char :=
  file.before.text ++ declsText file.decls ++ lastLineText file.lastLine

def ast (js : NumberFunctions) (file : File) : List AstTopLevel :=
  file.decls.map fun (d, _) => d.ast js

/-- A file without declarations is empty. -/
def Good (file : File) : Prop :=
  (∀ d ∈ file.decls, d.1.Good) ∧ (file.decls = [] → file.text = [])

end File

end SchemaText

end Motis.Protocol
