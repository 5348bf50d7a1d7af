/-!
# Type references

A type reference names a type in a document: `int`, `Acme.Models.User`, `T`,
`List<T>`, `Acme.Page<Acme.User>`, `int?[]`.  It is a name with arguments, or
one of the two suffixes around a shorter reference.  Suffixes apply from left
to right, so `int?[]` is an array of nullable numbers.

`TypeRef.tokens` is the canonical spelling of a reference as tokens, which
`TypeRef.parse` reads back.
-/

namespace TypeExport

/-- A token of the reference notation. -/
inductive Token where
  | leftAngle
  | rightAngle
  | comma
  /-- `[]`. -/
  | brackets
  /-- `?`. -/
  | question
  /-- Identifiers joined by dots. -/
  | path (name : String)
  deriving DecidableEq, Repr

/-- A parsed type reference, not yet resolved. -/
inductive TypeRef where
  /-- A name, with arguments when it is a closed generic. -/
  | named (name : String) (arguments : List TypeRef)
  /-- `T[]`. -/
  | array (element : TypeRef)
  /-- `T?`. -/
  | nullable (underlying : TypeRef)
  deriving Repr

namespace TypeRef

mutual

/-- The canonical tokens of a reference. -/
def tokens : TypeRef → List Token
  | .named name [] => [.path name]
  | .named name (a :: as) => .path name :: .leftAngle :: (a.tokens ++ tailTokens as)
  | .array element => element.tokens ++ [.brackets]
  | .nullable underlying => underlying.tokens ++ [.question]

/-- The tokens after the first argument of a closed generic. -/
def tailTokens : List TypeRef → List Token
  | [] => [.rightAngle]
  | a :: as => .comma :: (a.tokens ++ tailTokens as)

end

end TypeRef

end TypeExport
