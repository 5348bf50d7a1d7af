import TypeExport.Declaration.Basic
import TypeExport.Universe.Builtin

/-!
# Primitive types

What the built-in types become in the output.  Numbers that a double cannot
hold travel as texts, and so do byte arrays.  Dates and durations have two
forms.
-/

namespace TypeExport

/-- The type a built-in becomes. -/
def Builtin.target : Builtin → TypeExpr
  | .bool => .reference "boolean"
  | .byte | .sbyte | .int16 | .uint16 | .int32 | .uint32 | .single | .double | .decimal =>
    .reference "number"
  | .int64 | .uint64 | .char | .string | .guid => .reference "string"
  | .dateTime | .dateTimeOffset => .union [.reference "Date", .reference "string"]
  | .timeSpan => .union [.reference "number", .reference "string"]
  | .object => .reference "any"
  | .void => .reference "void"

/-- The type a byte array becomes. -/
def byteArrayTarget : TypeExpr := .reference "string"

end TypeExport
