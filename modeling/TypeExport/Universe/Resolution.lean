import TypeExport.Reference.Parser
import TypeExport.Universe.Builder

/-!
# Resolving references

The type that a reference means in a universe.  Resolving interns the composed
types on the way, and what was interned before a failure stays.
-/

namespace TypeExport

namespace Builder

/-- The id of a declared type of that name and number of parameters. -/
def declared? (u : Universe) (name : String) (arity : Nat) : Option TypeId :=
  u.lookup? (if arity = 0 then name else genericKey name arity)

/-- The id of a declared type, which has to exist. -/
def declared (name : String) (arity : Nat) : Builder TypeId := do
  match declared? (← get) name arity with
  | some id => return id
  | none => throw (.unknownType name)

/-- The type parameter of that name. -/
def inScope? (u : Universe) (scope : List TypeId) (name : String) : Option TypeId :=
  scope.find? fun id => (u.get? id).any (·.name = name)

mutual

/-- Interns the type that a reference means where the type parameters of
`scope` are visible.  A name without arguments is a parameter, else a built-in
type, else a declared type.  A name with arguments is a container, else a
declared generic definition. -/
def resolve (scope : List TypeId) : TypeRef → Builder TypeId
  | .array element => do arrayOf (← resolve scope element)
  | .nullable underlying => do nullableOf (← resolve scope underlying)
  | .named name [] => do
    match inScope? (← get) scope name with
    | some id => return id
    | none =>
      match Builtin.ofName? name with
      | some b => builtin b
      | none => declared name 0
  | .named name (a :: as) => do
    let definition ←
      match Container.ofName? name with
      | some c => container c
      | none => declared name (as.length + 1)
    let argument ← resolve scope a
    let arguments ← resolveAll scope as
    close definition (argument :: arguments)

/-- Interns the types that several references mean. -/
def resolveAll (scope : List TypeId) : List TypeRef → Builder (List TypeId)
  | [] => return []
  | r :: rs => do
    let id ← resolve scope r
    let ids ← resolveAll scope rs
    return id :: ids

end

/-- Interns the type that the text of a reference means. -/
def resolveText (scope : List TypeId) (reference : String) : Builder TypeId :=
  match TypeRef.parse reference with
  | .ok ref => resolve scope ref
  | .error cause => throw (.badReference reference cause)

end Builder

end TypeExport
