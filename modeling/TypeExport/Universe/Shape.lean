import TypeExport.Universe.Basic

/-!
# The shape of types

Questions about the structure of a type that follow ids: what container it is
an instance of, what its arguments and its element are.  An id that the
universe did not issue is a `Fault`, which a caller that keeps to issued ids
never meets.  A chain of definitions longer than the universe has types runs in
a circle, and is a fault as well.

A `ShapeError` is about a type that exists and has not the structure that the
question needs.
-/

namespace TypeExport

/-- A type that has not the structure it is used with. -/
inductive ShapeError where
  /-- The type has neither an element nor a single argument. -/
  | noElementType (key : String)
  /-- A generic definition was given the wrong number of arguments. -/
  | argumentCount (key : String) (expected actual : Nat)
  /-- The type takes no arguments. -/
  | notGeneric (key : String)
  /-- An open container stands where a declaration is needed. -/
  | openContainer (key : String)
  deriving DecidableEq, Repr

/-- The wording of a shape error. -/
def ShapeError.message : ShapeError → String
  | .noElementType key =>
    "type `" ++ key ++ "` has no element type (neither an array nor a single-argument generic)"
  | .argumentCount key expected actual =>
    "type `" ++ key ++ "` takes " ++ toString expected ++ " generic argument(s), got "
      ++ toString actual
  | .notGeneric key => "type `" ++ key ++ "` is not a generic type definition"
  | .openContainer key => "open container `" ++ key ++ "` cannot be declared"

/-- A broken promise of the caller. -/
inductive Fault where
  /-- The universe did not issue this id. -/
  | foreignType (id : TypeId)
  /-- The key of a container belongs to something else, so it has no instance. -/
  | unclosedContainer (cause : ShapeError)
  /-- The structure of a type runs in a circle. -/
  | endless
  /-- No entry stands at this position of a list of that size. -/
  | outOfBounds (position size : Nat)
  deriving DecidableEq, Repr

/-- The wording of a fault. -/
def Fault.message : Fault → String
  | .foreignType id =>
    "TypeUniverse: type id " ++ toString id.index
      ++ " not found (ids must come from the universe that issued them)"
  | .unclosedContainer cause =>
    "TypeUniverse: container instantiation failed: " ++ cause.message
  | .endless => "TypeUniverse: the structure of a type runs in a circle"
  | .outOfBounds position size =>
    "index out of bounds: the len is " ++ toString size ++ " but the index is "
      ++ toString position

/-! ## Structure without ids -/

namespace TypeKind

/-- Whether the type is an open generic definition. -/
def isDefinition : TypeKind → Bool
  | .container _ => true
  | .object parameters => !parameters.isEmpty
  | _ => false

/-- Whether the type is a generic definition, open or closed. -/
def isGeneric (k : TypeKind) : Bool :=
  match k with
  | .closed .. => true
  | _ => k.isDefinition

/-- Whether the type is an array. -/
def isArray : TypeKind → Bool
  | .array _ => true
  | _ => false

/-- Whether the type is an enumeration. -/
def isEnum : TypeKind → Bool
  | .enumeration _ => true
  | _ => false

/-- Whether the type is a type parameter. -/
def isParameter : TypeKind → Bool
  | .parameter .. => true
  | _ => false

/-- The built-in type it is. -/
def builtin? : TypeKind → Option Builtin
  | .builtin b => some b
  | _ => none

/-- The values of an enumeration. -/
def enumValues : TypeKind → List EnumValue
  | .enumeration values => values
  | _ => []

/-- The arguments of a closed generic, or the parameters of an open one. -/
def arguments : TypeKind → List TypeId
  | .closed _ arguments => arguments
  | .object parameters => parameters
  | _ => []

/-- The element of an array, or the argument of a generic closed over one. -/
def element? : TypeKind → Option TypeId
  | .array element => some element
  | .closed _ [argument] => some argument
  | _ => none

end TypeKind

/-! ## Structure behind ids -/

namespace Universe

/-- The descriptor of an id that the universe has to have issued. -/
def view (u : Universe) (id : TypeId) : Except Fault Descriptor :=
  match u.get? id with
  | some d => .ok d
  | none => .error (.foreignType id)

/-- The descriptors of several ids. -/
def viewAll (u : Universe) : List TypeId → Except Fault (List Descriptor)
  | [] => .ok []
  | id :: ids => do
    let d ← u.view id
    let ds ← u.viewAll ids
    return d :: ds

/-- The container behind a chain of at most `fuel` definitions. -/
def containerWithin (u : Universe) : Nat → TypeKind → Except Fault (Option Container)
  | _, .container c => .ok (some c)
  | fuel, .closed definition _ => do
    let d ← u.view definition
    match fuel with
    | 0 => .error .endless
    | fuel + 1 => u.containerWithin fuel d.kind
  | _, _ => .ok none

/-- The container that a type is or is an instance of. -/
def container? (u : Universe) (d : Descriptor) : Except Fault (Option Container) :=
  u.containerWithin u.size d.kind

/-- Whether a type is a closed instance of a container. -/
def isInstanceOf (u : Universe) (d : Descriptor) (c : Container) : Except Fault Bool :=
  match d.kind with
  | .closed .. => do return (← u.container? d) = some c
  | _ => .ok false

/-- The open definition of a generic type, which is its own definition when it
is open. -/
def definition? (u : Universe) (id : TypeId) (d : Descriptor) :
    Except Fault (Option (TypeId × Descriptor)) :=
  match d.kind with
  | .closed definition _ => do return some (definition, ← u.view definition)
  | kind => .ok (if kind.isDefinition then some (id, d) else none)

/-- The underlying type of a closed `Nullable`. -/
def underlying? (u : Universe) (d : Descriptor) : Except Fault (Option TypeId) := do
  if ← u.isInstanceOf d .nullable then
    match d.kind.element? with
    | some id =>
      let _ ← u.view id
      return some id
    | none => return none
  else return none

end Universe

end TypeExport
