import Mathlib.Data.Nat.Notation
import Motis.Core.Journey.Journey

/-! The syntax tree of a schema file. -/

namespace Motis.Protocol

def isIdentStart (c : Char) : Bool := c.isAlpha || c == '_'

def isIdentPart (c : Char) : Bool := c.isAlphanum || c == '_'

/-- `/^[a-zA-Z_][a-zA-Z0-9_]*/`. -/
def isIdent (s : String) : Bool :=
  match s.toList with
  | [] => false
  | c :: cs => isIdentStart c && cs.all isIdentPart

inductive IntTypeName where
  | byte | ubyte | short | ushort | int | uint | long | ulong
  | int8 | uint8 | int16 | uint16 | int32 | uint32 | int64 | uint64
  deriving DecidableEq, Repr

inductive FloatTypeName where
  | float | double | float32 | float64
  deriving DecidableEq, Repr

/-- The width and sign of a basic type follow from its name. -/
inductive BasicType where
  | bool
  | int (type : IntTypeName)
  | float (type : FloatTypeName)
  | string
  deriving DecidableEq, Repr

inductive AstFieldType where
  | basic (type : BasicType)
  | vector (type : AstFieldType)
  | custom (type : String)
  deriving DecidableEq, Repr

/-- A number of the schema. -/
abbrev Number := Double

inductive AstScalarLiteral where
  | boolean (value : Bool)
  | numeric (value : Number)
  deriving DecidableEq, Repr

inductive AstLiteral where
  | scalar (value : AstScalarLiteral)
  | string (value : String)
  deriving DecidableEq, Repr

/-- `AstScalarLiteral | AstRefLiteral`. -/
inductive AstDefault where
  | scalar (value : AstScalarLiteral)
  | ref (value : String)
  deriving DecidableEq, Repr

structure AstAttribute where
  id : String
  value : Option AstLiteral
  deriving DecidableEq, Repr

abbrev AstMetadata := Option (List AstAttribute)

structure AstEnumVal where
  id : String
  value : Option Number
  metadata : AstMetadata
  deriving DecidableEq, Repr

structure AstField where
  name : String
  type : AstFieldType
  defaultValue : Option AstDefault
  metadata : AstMetadata
  deriving DecidableEq, Repr

inductive AstTopLevel where
  | include (value : String)
  | namespace (value : String)
  | enum (name : String) (baseType : AstFieldType) (metadata : AstMetadata)
      (values : List AstEnumVal)
  | union (name : String) (metadata : AstMetadata) (values : List AstEnumVal)
  | table (isStruct : Bool) (name : String) (metadata : AstMetadata) (fields : List AstField)
  | rootType (type : String)
  | attribute (id : String)
  deriving DecidableEq, Repr

end Motis.Protocol
