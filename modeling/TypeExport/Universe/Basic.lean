import TypeExport.Universe.Annotation
import TypeExport.Universe.Builtin

/-!
# The universe of types

A universe holds descriptors of types, one for each key, in the order in which
they were interned.  A `TypeId` is the position of a descriptor.  Descriptors
refer to one another by ids, so a type may contain itself directly or through a
cycle.  Interning a known key gives its id and changes nothing.
-/

namespace TypeExport

/-- The position of a type in its universe.  Positions are unbounded here, so nothing
is said of a universe with more than `2 ^ 32` types, whose ids repeat when they are
kept in 32 bits. -/
structure TypeId where
  index : Nat
  deriving DecidableEq, Repr

/-- A value of an enumeration. -/
structure EnumValue where
  name : String
  value : Int
  deriving DecidableEq, Repr

/-- The structure of a type. -/
inductive TypeKind where
  | builtin (type : Builtin)
  | container (container : Container)
  | array (element : TypeId)
  /-- A generic definition closed over arguments. -/
  | closed (definition : TypeId) (arguments : List TypeId)
  /-- A type parameter of a generic definition. -/
  | parameter (owner : TypeId) (position : Nat)
  | enumeration (values : List EnumValue)
  /-- A class or a struct.  With parameters it is a generic definition. -/
  | object (parameters : List TypeId)
  deriving DecidableEq, Repr

/-- A declared member of a type. -/
structure Member where
  name : String
  type : TypeId
  annotations : Annotations := {}
  deriving DecidableEq, Repr

/-- A type as it is stored. -/
structure Descriptor where
  /-- The key that identifies the type. -/
  key : String
  /-- The simple name, without the namespace and the number of parameters. -/
  name : String
  space : String
  kind : TypeKind
  /-- Whether values are never null. -/
  isValueType : Bool
  /-- The members, in declaration order. -/
  members : List Member := []
  /-- The default nullability flag of the members. -/
  context : Option UInt8 := none
  deriving DecidableEq, Repr

/-- The types, in the order in which they were interned. -/
structure Universe where
  /-- The descriptors, at the positions of their ids. -/
  types : Array Descriptor := #[]
  deriving DecidableEq, Repr

namespace Universe

/-- The number of types. -/
def size (u : Universe) : Nat := u.types.size

/-- The descriptor of an id, if the universe issued it. -/
def get? (u : Universe) (id : TypeId) : Option Descriptor := u.types[id.index]?

/-- The id of a key. -/
def lookup? (u : Universe) (key : String) : Option TypeId :=
  (u.types.findIdx? (·.key = key)).map TypeId.mk

/-- The id of a descriptor's key, with the descriptor added when the key is
new. -/
def intern (u : Universe) (d : Descriptor) : TypeId × Universe :=
  match u.lookup? d.key with
  | some id => (id, u)
  | none => (⟨u.types.size⟩, ⟨u.types.push d⟩)

/-- The universe with one descriptor changed. -/
def modify (u : Universe) (id : TypeId) (f : Descriptor → Descriptor) : Universe :=
  ⟨u.types.modify id.index f⟩

end Universe

/-! ## Full names -/

/-- The text before the last dot and the text behind it. -/
def splitLastDot : List Char → Option (List Char × List Char)
  | [] => none
  | c :: cs =>
    match splitLastDot cs with
    | some (before, behind) => some (c :: before, behind)
    | none => if c = '.' then some ([], cs) else none

/-- The namespace and the simple name of a full name, the namespace empty when
there is no dot.  What follows a grave accent is the number of parameters, and
belongs to neither. -/
def splitFullName (fullName : String) : String × String :=
  let base := fullName.toList.takeWhile (· ≠ '\x60')
  match splitLastDot base with
  | some (space, name) => (String.ofList space, String.ofList name)
  | none => ("", String.ofList base)

/-- A descriptor without members whose name and namespace are those of a full
name. -/
def Descriptor.ofFullName (fullName key : String) (kind : TypeKind) (isValueType : Bool) :
    Descriptor :=
  let (space, name) := splitFullName fullName
  { key, name, space, kind, isValueType }

end TypeExport
