import Motis.Lib.Parsing
import Motis.Protocol.Resolver

/-! The parser of schema files.

    A regular expression is the parser of what it matches at the start of the input; its alternatives
    stand in its own order. The result of a parser whose result is not used is `()`. -/

namespace Motis.Protocol

def IntTypeName.name : IntTypeName → String
  | .byte => "byte" | .ubyte => "ubyte" | .short => "short" | .ushort => "ushort"
  | .int => "int" | .uint => "uint" | .long => "long" | .ulong => "ulong"
  | .int8 => "int8" | .uint8 => "uint8" | .int16 => "int16" | .uint16 => "uint16"
  | .int32 => "int32" | .uint32 => "uint32" | .int64 => "int64" | .uint64 => "uint64"

def FloatTypeName.name : FloatTypeName → String
  | .float => "float" | .double => "double" | .float32 => "float32" | .float64 => "float64"

namespace SchemaParser
open Parsing Parsing.Parser

/-- `Number.parseFloat` and `Number.parseInt`. -/
structure NumberFunctions where
  parseFloat : String → Number
  parseInt : String → Number

/-! ### Whitespace and comments -/

/-- `\s`. -/
def isSpace (c : Char) : Bool :=
  (9 ≤ c.toNat && c.toNat ≤ 13) || (0x2000 ≤ c.toNat && c.toNat ≤ 0x200a) ||
    [0x20, 0xa0, 0x1680, 0x2028, 0x2029, 0x202f, 0x205f, 0x3000, 0xfeff].contains c.toNat

def whitespace : Parser Unit := (takeWhile1 isSpace).void

def lineComment : Parser Unit :=
  ((str "//").seq (everyCharUntil (choice [char '\n', endOfInput]))).void

def blockComment : Parser Unit :=
  (((str "/*").seq (everyCharUntil (str "*/"))).seq (str "*/")).void

def whitespaceOrComments : Parser Unit :=
  (many1 (choice [whitespace, lineComment, blockComment])).void

def optionalWhitespaceOrComments : Parser Unit := (possibly whitespaceOrComments).void

section
variable {α : Type}

def whitespaceSurrounded (p : Parser α) : Parser α :=
  ((optionalWhitespaceOrComments.seq p).seq optionalWhitespaceOrComments).map fun ((_, x), _) => x

def comma : Parser Unit := whitespaceSurrounded (char ',')

def commaSeparated (valueParser : Parser α) : Parser (List α) :=
  (possibly (((valueParser.seq (many ((comma.seq valueParser).map fun (_, x) => x))).seq
    (possibly comma)).map fun ((head, rest), _) => head :: rest)).map fun x => x.getD []

def betweenWithOptionalWhitespace (left right : Char) (p : Parser α) : Parser α :=
  ((((char left).seq optionalWhitespaceOrComments).seq p).seq
    (optionalWhitespaceOrComments.seq (char right))).map fun ((_, x), _) => x

def betweenBraces (p : Parser α) : Parser α := betweenWithOptionalWhitespace '{' '}' p
def betweenBrackets (p : Parser α) : Parser α := betweenWithOptionalWhitespace '[' ']' p
def betweenParens (p : Parser α) : Parser α := betweenWithOptionalWhitespace '(' ')' p

end

/-! ### Constants -/

def ident : Parser String :=
  ((satisfy isIdentStart).seq (takeWhile isIdentPart)).map fun (c, cs) => String.ofList (c :: cs)

def identWithOptionalNamespace : Parser String := (sepBy1 (char '.') ident).map joinDots

def booleanLiteral : Parser Bool :=
  choice [(str "true").map fun _ => true, (str "false").map fun _ => false]

/-- `/^[-+]?/`. -/
def sign : Parser (List Char) :=
  (possibly (satisfy fun c => c == '-' || c == '+')).map Option.toList

def digits1 : Parser (List Char) := takeWhile1 Char.isDigit

/-- `(\.\d+)|(\d+\.\d*)|(\d+)`. -/
def mantissa : Parser (List Char) :=
  choice [
    ((char '.').seq digits1).map fun (_, ds) => '.' :: ds,
    ((digits1.seq (char '.')).seq (takeWhile Char.isDigit)).map fun ((ds, _), fs) => ds ++ '.' :: fs,
    digits1]

/-- `([eE][-+]?\d+)?`. -/
def exponent : Parser (List Char) :=
  (possibly ((((satisfy fun c => c == 'e' || c == 'E').seq sign).seq digits1).map
    fun ((e, sg), ds) => e :: (sg ++ ds))).map fun x => x.getD []

def isHexDigit (c : Char) : Bool :=
  c.isDigit || ('a' ≤ c && c ≤ 'f') || ('A' ≤ c && c ≤ 'F')

section
variable (js : NumberFunctions)

def decIntegerConstant : Parser Number :=
  (sign.seq digits1).map fun (sg, ds) => js.parseInt (String.ofList (sg ++ ds))

/-- `/^[-+]?0[xX][0-9a-fA-F]+/`. -/
def hexIntegerConstant : Parser Number :=
  (((sign.seq (char '0')).seq (satisfy fun c => c == 'x' || c == 'X')).seq
    (takeWhile1 isHexDigit)).map fun (((sg, _), x), ds) =>
      js.parseInt (String.ofList (sg ++ '0' :: x :: ds))

def decFloatConstant : Parser Number :=
  ((sign.seq mantissa).seq exponent).map fun ((sg, m), e) =>
    js.parseFloat (String.ofList (sg ++ m ++ e))

/-- `NaN`. -/
def nan : Number := 0x7ff8000000000000

/-- `POSITIVE_INFINITY`, or `NEGATIVE_INFINITY`. -/
def infinity (negative : Bool) : Number := if negative then 0xfff0000000000000 else 0x7ff0000000000000

def specialFloatConstant : Parser Number :=
  (sign.seq (choice [
    (str "nan").map fun _ => true,
    (str "inf").map fun _ => false,
    (str "infinity").map fun _ => false])).map fun (s, isNaN) =>
      if isNaN then nan else infinity (s == ['-'])

def integerConstant : Parser Number := choice [hexIntegerConstant js, decIntegerConstant js]
def floatConstant : Parser Number := choice [decFloatConstant js, specialFloatConstant]
def numericConstant : Parser Number := choice [floatConstant js, integerConstant js]
def numericLiteral : Parser Number := numericConstant js

def scalar : Parser AstScalarLiteral :=
  choice [booleanLiteral.map .boolean, (numericLiteral js).map .numeric]

def scalarOrRefLiteral : Parser AstDefault :=
  choice [(scalar js).map .scalar, ident.map .ref]

def stringConstant : Parser String :=
  (((char '"').seq (everyCharUntil (char '"'))).seq (char '"')).map fun ((_, x), _) => String.ofList x

def literal : Parser AstLiteral := choice [(scalar js).map .scalar, stringConstant.map .string]

/-! ### Types -/

/-- `INT_TYPES`. -/
def intTypes : List IntTypeName :=
  [.byte, .ubyte, .short, .ushort, .int, .uint, .long, .ulong,
   .int8, .uint8, .int16, .uint16, .int32, .uint32, .int64, .uint64]

/-- `FLOAT_TYPES`. -/
def floatTypes : List FloatTypeName := [.float, .double, .float32, .float64]

def boolType : Parser BasicType := (str "bool").map fun _ => .bool
def stringType : Parser BasicType := (str "string").map fun _ => .string
def intType : Parser BasicType := choice (intTypes.map fun x => (str x.name).map fun _ => .int x)
def floatType : Parser BasicType :=
  choice (floatTypes.map fun x => (str x.name).map fun _ => .float x)

def basicType : Parser BasicType := choice [boolType, stringType, intType, floatType]

def customType : Parser String := identWithOptionalNamespace

/-- `recursiveParser`, up to a depth. -/
def typeLoop : ℕ → Parser AstFieldType
  | 0 => fail
  | n + 1 => choice [
      basicType.map .basic, (betweenBrackets (typeLoop n)).map .vector, customType.map .custom]

def type : Parser AstFieldType := fun s => typeLoop (s.length + 1) s

/-! ### Declarations -/

/-- An element of the metadata. -/
def metadataValue : Parser AstAttribute :=
  (identWithOptionalNamespace.seq (possibly ((((optionalWhitespaceOrComments.seq (char ':')).seq
    optionalWhitespaceOrComments).seq (literal js)).map fun (_, x) => x))).map
      fun (id, value) => { id := id, value := value }

def metadata : Parser AstMetadata :=
  possibly ((optionalWhitespaceOrComments.seq (betweenParens (commaSeparated (metadataValue js)))).map
    fun (_, x) => x)

def «include» : Parser AstTopLevel :=
  (((((str "include").seq whitespaceOrComments).seq stringConstant).seq
    optionalWhitespaceOrComments).seq (char ';')).map fun (((_, x), _), _) => .include x

def namespaceDecl : Parser AstTopLevel :=
  (((((str "namespace").seq whitespaceOrComments).seq identWithOptionalNamespace).seq
    optionalWhitespaceOrComments).seq (char ';')).map fun (((_, x), _), _) => .namespace x

def enumOrUnionValueAssignment : Parser Number :=
  (((optionalWhitespaceOrComments.seq (char '=')).seq optionalWhitespaceOrComments).seq
    (numericLiteral js)).map fun (_, x) => x

/-- `enumValDecl` and `unionValDecl`, which differ in what an id is. -/
def valDecl (id : Parser String) : Parser AstEnumVal :=
  ((id.seq (possibly (enumOrUnionValueAssignment js))).seq (metadata js)).map
    fun ((id, value), metadata) => { id := id, value := value, metadata := metadata }

def enumValDecl : Parser AstEnumVal := valDecl js ident
def unionValDecl : Parser AstEnumVal := valDecl js identWithOptionalNamespace

def enumDecl : Parser AstTopLevel :=
  ((((((((((str "enum").seq whitespaceOrComments).seq ident).seq (metadata js)).seq
    optionalWhitespaceOrComments).seq (char ':')).seq optionalWhitespaceOrComments).seq type).seq
    optionalWhitespaceOrComments).seq (betweenBraces (commaSeparated (enumValDecl js)))).map
      fun (((((((((_, _), name), metadata), _), _), _), baseType), _), values) =>
        .enum name baseType metadata values

def unionDecl : Parser AstTopLevel :=
  ((((((str "union").seq whitespaceOrComments).seq ident).seq (metadata js)).seq
    optionalWhitespaceOrComments).seq (betweenBraces (commaSeparated (unionValDecl js)))).map
      fun (((((_, _), name), metadata), _), values) => .union name metadata values

def defaultValue : Parser AstDefault :=
  ((((char '=').seq optionalWhitespaceOrComments).seq (scalarOrRefLiteral js)).seq
    optionalWhitespaceOrComments).map fun ((_, x), _) => x

def fieldDecl : Parser AstField :=
  ((((((((ident.seq optionalWhitespaceOrComments).seq (char ':')).seq
    optionalWhitespaceOrComments).seq type).seq optionalWhitespaceOrComments).seq
    (possibly (defaultValue js))).seq (metadata js)).seq (char ';')).map
      fun ((((((((name, _), _), _), type), _), defaultValue), metadata), _) =>
        { name := name, type := type, defaultValue := defaultValue, metadata := metadata }

def typeDecl : Parser AstTopLevel :=
  (((((((choice [(str "table").map fun _ => false, (str "struct").map fun _ => true]).seq
    whitespaceOrComments).seq ident).seq (metadata js)).seq optionalWhitespaceOrComments)).seq
    (betweenBraces (many (whitespaceSurrounded (fieldDecl js))))).map
      fun (((((isStruct, _), name), metadata), _), fields) => .table isStruct name metadata fields

def rootTypeDecl : Parser AstTopLevel :=
  (((((str "root_type").seq whitespaceOrComments).seq customType).seq
    optionalWhitespaceOrComments).seq (char ';')).map fun (((_, x), _), _) => .rootType x

def attributeDecl : Parser AstTopLevel :=
  (((((str "attribute").seq whitespaceOrComments).seq (choice [ident, stringConstant])).seq
    optionalWhitespaceOrComments).seq (char ';')).map fun (((_, x), _), _) => .attribute x

/-- The alternatives of `schema`. -/
def topLevel : Parser AstTopLevel :=
  choice [«include», namespaceDecl, enumDecl js, unionDecl js, typeDecl js, rootTypeDecl, attributeDecl]

def schema : Parser (List AstTopLevel) :=
  ((many (whitespaceSurrounded (topLevel js))).seq endOfInput).map fun (x, _) => x

/-- `schema.run`. -/
def parseSchema (text : String) : Option (List AstTopLevel) := (schema js text.toList).map (·.1)

end

end SchemaParser

end Motis.Protocol
