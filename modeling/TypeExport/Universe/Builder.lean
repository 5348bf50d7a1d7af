import TypeExport.Reference.Token
import TypeExport.Universe.Shape

/-!
# Building a universe

Operations that intern types.  Each runs on a universe and leaves it changed
also when it fails: what was interned before the failure stays.

The keys are structural.  An array has its element's key followed by `[]`, a
closed generic its definition's key followed by the keys of its arguments in
angle brackets, a generic definition its full name with the number of
parameters, and a type parameter its owner's key and its name.
-/

namespace TypeExport

/-- Why building a universe fails. -/
inductive BuildError where
  /-- The text of a document is not one. -/
  | malformed
  /-- A reference in a document cannot be read. -/
  | badReference (reference : String) (cause : ParseError)
  /-- A reference names no type. -/
  | unknownType (name : String)
  /-- A document declares a type that exists. -/
  | duplicateType (name : String)
  /-- A type has not the structure it is used with. -/
  | shape (cause : ShapeError)
  /-- A promise of the caller is broken. -/
  | fault (cause : Fault)
  deriving DecidableEq, Repr

/-- The wording of an error, if it has one of its own. -/
def BuildError.message? : BuildError → Option String
  | .malformed => none
  | .badReference reference cause =>
    some ("invalid type reference `" ++ reference ++ "`: " ++ cause.message)
  | .unknownType name => some ("unknown type `" ++ name ++ "`")
  | .duplicateType name => some ("type `" ++ name ++ "` is declared more than once")
  | .shape cause => some cause.message
  | .fault cause => some cause.message

/-- A step that changes a universe and may fail. -/
abbrev Builder := EStateM BuildError Universe

namespace Builder

/-- A question about the universe. -/
def ask {α : Type} (question : Universe → Except BuildError α) : Builder α := fun u =>
  match question u with
  | .ok a => .ok a u
  | .error e => .error e u

/-- The descriptor of an id that the universe has to have issued. -/
def view (id : TypeId) : Builder Descriptor := ask fun u => (u.view id).mapError .fault

/-- Interns a descriptor. -/
def intern (d : Descriptor) : Builder TypeId := fun u =>
  let (id, u) := u.intern d
  .ok id u

/-- Changes the descriptor of an issued id. -/
def modify (id : TypeId) (f : Descriptor → Descriptor) : Builder Unit := do
  let _ ← view id
  MonadState.modifyGet fun u => ((), u.modify id f)

/-! ## Known types -/

/-- Interns a built-in type. -/
def builtin (b : Builtin) : Builder TypeId :=
  intern (.ofFullName b.fullName b.fullName (.builtin b) b.isValueType)

/-- Interns an open container. -/
def container (c : Container) : Builder TypeId :=
  intern { Descriptor.ofFullName c.fullName c.fullName (.container c) (c = .nullable) with
    name := c.name }

/-! ## Composed types -/

/-- Interns the array of an element type. -/
def arrayOf (element : TypeId) : Builder TypeId := do
  let d ← view element
  intern {
    key := d.key ++ "[]"
    name := d.name ++ "[]"
    space := d.space
    kind := .array element
    isValueType := false }

/-- The number of arguments a generic definition takes, and whether its
instances are value types. -/
def arity? (d : Descriptor) : Option (Nat × Bool) :=
  match d.kind with
  | .container c => some (c.arity, c = .nullable)
  | .object [] => none
  | .object parameters => some (parameters.length, d.isValueType)
  | _ => none

/-- The descriptor of a generic definition closed over arguments. -/
def instanceOf (definition : TypeId) (arguments : List TypeId) (u : Universe) :
    Except BuildError Descriptor := do
  let d ← (u.view definition).mapError .fault
  match arity? d with
  | none => .error (.shape (.notGeneric d.key))
  | some (expected, isValueType) =>
    if arguments.length = expected then
      let ds ← (u.viewAll arguments).mapError .fault
      return {
        key := d.key ++ "<" ++ ", ".intercalate (ds.map (·.key)) ++ ">"
        name := d.name
        space := d.space
        kind := .closed definition arguments
        isValueType }
    else .error (.shape (.argumentCount d.key expected arguments.length))

/-- Interns a generic definition closed over arguments. -/
def close (definition : TypeId) (arguments : List TypeId) : Builder TypeId := do
  intern (← ask (instanceOf definition arguments))

/-- A container has no instance over the right number of arguments only when
its key belongs to something else, which is a fault and no shape error. -/
def unclosed : BuildError → BuildError
  | .shape cause => .fault (.unclosedContainer cause)
  | e => e

/-- Interns a container closed over as many arguments as it takes. -/
def closeContainer (c : Container) (arguments : List TypeId) : Builder TypeId := do
  let definition ← container c
  intern (← ask fun u => (instanceOf definition arguments u).mapError unclosed)

/-- Interns the list of an element type. -/
def listOf (element : TypeId) : Builder TypeId := closeContainer .list [element]

/-- Interns the dictionary of a key type and a value type. -/
def dictionaryOf (key value : TypeId) : Builder TypeId := closeContainer .dictionary [key, value]

/-- Interns a type whose values may be absent. -/
def nullableOf (underlying : TypeId) : Builder TypeId := closeContainer .nullable [underlying]

/-! ## Declared types -/

/-- Interns a class without parameters. -/
def object (fullName : String) : Builder TypeId :=
  intern (.ofFullName fullName fullName (.object []) false)

/-- Interns a struct. -/
def valueObject (fullName : String) : Builder TypeId :=
  intern (.ofFullName fullName fullName (.object []) true)

/-- The key of a generic definition. -/
def genericKey (fullName : String) (arity : Nat) : String :=
  fullName ++ "`" ++ toString arity

/-- Interns the type parameters of a generic definition, from a position on. -/
def internParameters (owner : TypeId) (key space : String) (position : Nat) :
    List String → Builder (List TypeId)
  | [] => return []
  | name :: names => do
    let id ← intern {
      key := key ++ ":" ++ name
      name, space
      kind := .parameter owner position
      isValueType := false }
    let ids ← internParameters owner key space (position + 1) names
    return id :: ids

/-- Interns a generic definition with the names of its type parameters.  One
that exists is left as it is. -/
def genericObject (fullName : String) (parameters : List String) : Builder TypeId := do
  let key := genericKey fullName parameters.length
  match (← get).lookup? key with
  | some id => return id
  | none =>
    let d := Descriptor.ofFullName fullName key (.object []) false
    let owner ← intern d
    let ids ← internParameters owner key d.space 0 parameters
    modify owner ({ · with kind := .object ids })
    return owner

/-- Interns an enumeration whose values are numbered from zero. -/
def enumeration (fullName : String) (values : List String) : Builder TypeId :=
  intern (.ofFullName fullName fullName
    (.enumeration (values.mapIdx fun i name => ⟨name, i⟩)) true)

/-- Adds a member behind the members of a type. -/
def addMember (owner : TypeId) (member : Member) : Builder Unit :=
  modify owner fun d => { d with members := d.members ++ [member] }

/-- Sets the default nullability flag of the members of a type. -/
def setContext (owner : TypeId) (flag : UInt8) : Builder Unit :=
  modify owner ({ · with context := some flag })

end Builder

end TypeExport
