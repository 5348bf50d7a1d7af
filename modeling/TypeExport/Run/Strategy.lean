import TypeExport.Output.Unit
import TypeExport.Universe.Basic

/-!
# Strategies

How a type is declared and referred to.  Three strategies declare the type in
an output unit, and of these an object is declared before its members are
known.  The others declare nothing: their references are built from the parts
of the type, or import a name from outside.
-/

namespace TypeExport

/-- How a type is declared and referred to. -/
inductive Strategy where
  | builtin
  /-- An array or a list. -/
  | array
  | dictionary
  /-- A native enumeration, declared in a unit. -/
  | nativeEnum (unit : UnitId) (name : String)
  /-- A union of texts with a lookup constant, declared in a unit. -/
  | fixedStrings (unit : UnitId) (name : String)
  /-- A type whose values may be absent, nullable wherever it is used. -/
  | nullable
  /-- A type whose values may be absent, treated as its underlying type. -/
  | unwrapped (underlying : TypeId)
  /-- A generic definition closed over arguments. -/
  | genericInstance
  | genericParameter
  /-- An object type, declared at a position of a unit. -/
  | object (unit : UnitId) (name : String) (position : Nat)
  /-- A type declared outside, imported by name. -/
  | redirect (name location : String)
  /-- A type with a behaviour of the caller's. -/
  | custom
  deriving DecidableEq, Repr

namespace Strategy

/-- The name of a strategy. -/
def name : Strategy → String
  | builtin => "builtin"
  | array => "array"
  | dictionary => "dictionary"
  | nativeEnum .. => "native-enum"
  | fixedStrings .. => "fixed-strings"
  | nullable => "nullable"
  | unwrapped _ => "unwrapped-nullable"
  | genericInstance => "generic-instance"
  | genericParameter => "generic-parameter"
  | object .. => "object"
  | redirect .. => "redirect"
  | custom => "custom"

/-- The unit that holds the declaration. -/
def unit? : Strategy → Option UnitId
  | nativeEnum unit _ | fixedStrings unit _ | object unit .. => some unit
  | _ => none

/-- Whether a context is incomplete when it is created. -/
def startsIncomplete : Strategy → Bool
  | object .. | custom => true
  | _ => false

/-- The name of a unit in events. -/
def describeUnit (id : UnitId) : String := "UnitId(" ++ toString id.index ++ ")"

/-- The name of a strategy with the unit that holds the declaration. -/
def describe (s : Strategy) : String :=
  match s.unit? with
  | some id => s.name ++ "(" ++ describeUnit id ++ ")"
  | none => s.name

end Strategy

end TypeExport
