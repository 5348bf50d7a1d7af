/-!
# Built-in types and containers

The types that every universe knows by name.  A built-in has a full name, which
is its key, and a short alias for references.  A container is an open generic
definition with a meaning of its own: a list, a dictionary, or a value that may
be absent.  References name it by its short or its full name.
-/

namespace TypeExport

/-- A built-in type. -/
inductive Builtin where
  | bool
  | byte
  | sbyte
  | int16
  | uint16
  | int32
  | uint32
  | int64
  | uint64
  | single
  | double
  | decimal
  | char
  | string
  | guid
  | dateTime
  | dateTimeOffset
  | timeSpan
  | object
  | void
  deriving DecidableEq, Repr

namespace Builtin

/-- Every built-in type. -/
def all : List Builtin :=
  [.bool, .byte, .sbyte, .int16, .uint16, .int32, .uint32, .int64, .uint64, .single, .double,
   .decimal, .char, .string, .guid, .dateTime, .dateTimeOffset, .timeSpan, .object, .void]

/-- The full name, the key under which the type is interned. -/
def fullName : Builtin → String
  | bool => "System.Boolean"
  | byte => "System.Byte"
  | sbyte => "System.SByte"
  | int16 => "System.Int16"
  | uint16 => "System.UInt16"
  | int32 => "System.Int32"
  | uint32 => "System.UInt32"
  | int64 => "System.Int64"
  | uint64 => "System.UInt64"
  | single => "System.Single"
  | double => "System.Double"
  | decimal => "System.Decimal"
  | char => "System.Char"
  | string => "System.String"
  | guid => "System.Guid"
  | dateTime => "System.DateTime"
  | dateTimeOffset => "System.DateTimeOffset"
  | timeSpan => "System.TimeSpan"
  | object => "System.Object"
  | void => "System.Void"

/-- The short name used in references. -/
def shortName : Builtin → String
  | bool => "bool"
  | byte => "byte"
  | sbyte => "sbyte"
  | int16 => "short"
  | uint16 => "ushort"
  | int32 => "int"
  | uint32 => "uint"
  | int64 => "long"
  | uint64 => "ulong"
  | single => "float"
  | double => "double"
  | decimal => "decimal"
  | char => "char"
  | string => "string"
  | guid => "Guid"
  | dateTime => "DateTime"
  | dateTimeOffset => "DateTimeOffset"
  | timeSpan => "TimeSpan"
  | object => "object"
  | void => "void"

/-- The built-in type of that alias or full name. -/
def ofName? (name : String) : Option Builtin :=
  all.find? fun b => b.shortName = name || b.fullName = name

/-- Whether a value is never null.  Texts and arbitrary values may be. -/
def isValueType : Builtin → Bool
  | string | object => false
  | _ => true

end Builtin

/-- A generic definition that stands for a structure of its own. -/
inductive Container where
  | list
  | dictionary
  /-- A value that may be absent. -/
  | nullable
  deriving DecidableEq, Repr

namespace Container

/-- Every container. -/
def all : List Container := [.list, .dictionary, .nullable]

/-- The full name, the key under which the open definition is interned. -/
def fullName : Container → String
  | list => "System.Collections.Generic.List`1"
  | dictionary => "System.Collections.Generic.Dictionary`2"
  | nullable => "System.Nullable`1"

/-- The short name used in references. -/
def name : Container → String
  | list => "List"
  | dictionary => "Dictionary"
  | nullable => "Nullable"

/-- The number of type arguments. -/
def arity : Container → Nat
  | list | nullable => 1
  | dictionary => 2

/-- The container of that short or full name. -/
def ofName? (name : String) : Option Container :=
  all.find? fun c => c.name = name || c.fullName = name

end Container

end TypeExport
