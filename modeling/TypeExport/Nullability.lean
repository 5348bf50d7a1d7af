import TypeExport.Declaration.Basic
import TypeExport.Options
import TypeExport.Universe.Shape

/-!
# Nullability

Whether a use site may be null, by the mode of the run, the type at the site
and the annotations in effect there.  A value type is never null, only a closed
`Nullable` is.  In the mode of nullable reference types the flags of a member
lie in a fixed layout: one for each position of its type in preorder, where
neither a value type that is a leaf nor a `Nullable` has a position.
`Universe.flagCount` is the number of positions of a type, and tells where the
flags of the next argument start.
-/

namespace TypeExport

/-- The annotations in effect at a use site. -/
structure Attributes where
  annotations : Annotations
  /-- The type that declares the annotated member. -/
  owner : Option Descriptor := none
  deriving DecidableEq, Repr

namespace Attributes

/-- The annotations of a member. -/
def ofMember (owner : Descriptor) (m : Member) : Attributes := ⟨m.annotations, some owner⟩

/-- Whether a marker is in effect. -/
def has (a : Attributes) (m : Marker) : Bool := a.annotations.has m

/-- The flag for every position when there are no flags: the member's, else its
owner's, else the flag that says nothing. -/
def contextFlag (a : Attributes) : UInt8 :=
  (a.annotations.context.or (a.owner.bind (·.context))).getD 0

/-- The flags in effect. -/
def flags (a : Attributes) : List UInt8 := a.annotations.flags.getD [a.contextFlag]

end Attributes

/-- The flag that says nullable. -/
def nullableFlag : UInt8 := 2

/-- Whether the flag at a position says that a type may be null.  A single flag
holds for every position. -/
def flaggedNullable (a : Attributes) (d : Descriptor) (position : Nat) : Bool :=
  (a.flags = [nullableFlag] || a.flags[position]? = some nullableFlag) && !d.isValueType

/-- Whether the mode makes a reference type at a member nullable. -/
def annotatedNullable (mode : NullabilityMode) (a : Attributes) (d : Descriptor) : Bool :=
  match mode with
  | .none => false
  | .pessimistic => !a.has .notNull && !a.has .required
  | .optIn => a.has .canBeNull
  | .nullableReference => flaggedNullable a d 0

/-- Whether an item of a list or a value of a dictionary may be null, its flags
starting at a position. -/
def itemNullable (mode : NullabilityMode) (attributes : Option Attributes) (d : Descriptor)
    (position : Nat) : Bool :=
  match attributes with
  | none => false
  | some a =>
    if d.isValueType || d.kind.isEnum then false
    else
      match mode with
      | .nullableReference => flaggedNullable a d position
      | .pessimistic => !a.has .itemNotNull
      | .optIn | .none => a.has .itemCanBeNull

/-- Whether an element of an array or a list may be null. -/
def elementNullable (mode : NullabilityMode) (attributes : Option Attributes) (d : Descriptor) :
    Bool :=
  itemNullable mode attributes d 1

namespace Universe

/-- The sum of a number over several types. -/
def sumOf (count : TypeId → Except Fault Nat) : List TypeId → Except Fault Nat
  | [] => .ok 0
  | id :: ids => do
    let n ← count id
    let m ← sumOf count ids
    return n + m

/-- The number of flag positions of a type whose structure is at most `fuel`
deep. -/
def flagCountWithin (u : Universe) : Nat → TypeId → Except Fault Nat
  | 0, _ => .error .endless
  | fuel + 1, id => do
    let d ← u.view id
    match d.kind with
    | .array element => return 1 + (← u.flagCountWithin fuel element)
    | kind =>
      if ← u.isInstanceOf d .nullable then return 0
      else if kind.isGeneric then
        let _ ← u.viewAll kind.arguments
        return 1 + (← sumOf (u.flagCountWithin fuel) kind.arguments)
      else return if d.isValueType then 0 else 1

/-- The number of flag positions of a type. -/
def flagCount (u : Universe) (id : TypeId) : Except Fault Nat :=
  u.flagCountWithin (u.size + 1) id

/-- Whether a value of a dictionary may be null.  Its flags follow those of the
key. -/
def valueNullable (u : Universe) (mode : NullabilityMode) (attributes : Option Attributes)
    (key : TypeId) (value : Descriptor) : Except Fault Bool := do
  return itemNullable mode attributes value (1 + (← u.flagCount key))

/-- Whether an argument of a generic type may be null, given the arguments in
front of it.  Only flags reach arguments. -/
def argumentNullable (u : Universe) (mode : NullabilityMode) (attributes : Option Attributes)
    (before : List TypeId) (argument : Descriptor) : Except Fault Bool :=
  match attributes with
  | none => .ok false
  | some a =>
    if mode ≠ .nullableReference || argument.kind.isEnum then .ok false
    else do return flaggedNullable a argument (1 + (← sumOf u.flagCount before))

/-- Splits the type at a use site into whether it may be null and the type to
be written.  A closed `Nullable` gives its underlying type, and any other type
itself. -/
def splitNullable (u : Universe) (mode : NullabilityMode) (attributes : Option Attributes)
    (id : TypeId) : Except Fault (Bool × TypeId) := do
  let d ← u.view id
  match ← u.underlying? d with
  | some underlying => return (mode ≠ .none, underlying)
  | none =>
    match attributes with
    | none => return (false, id)
    | some a => return (!d.isValueType && annotatedNullable mode a d, id)

end Universe

/-- An expression that may be null, if the run has nullable types and the
expression does not say so already. -/
def TypeExpr.orNullable (e : TypeExpr) (isNullable : Bool) (o : Options) : TypeExpr :=
  if !isNullable || e.isWrapper || o.nullability = .none then e
  else if o.globalNullable then .nullable e
  else .orNull e

/-- Whether a member may be left out. -/
def Options.isOptional (o : Options) (isNullable : Bool) : Bool :=
  isNullable && o.optionalProperties

end TypeExport
