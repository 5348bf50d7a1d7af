import TypeExport.Document.Decode
import TypeExport.Universe.Resolution

/-!
# Loading documents

The types of a document are declared first, in order, so that members may refer
to later ones.  Then the members are resolved type by type, each added as soon
as its type is known, and last the roots.  The first failure ends the load, and
what was interned before it stays.
-/

namespace TypeExport

namespace Builder

/-- Declares a type without its members.  The name must be new. -/
def declareEntry (t : TypeEntry) : Builder TypeId := do
  match declared? (← get) t.name t.arity with
  | some _ => throw (.duplicateType t.name)
  | none =>
    match t with
    | .object name [] .. => object name
    | .object name parameters .. => genericObject name parameters
    | .struct name .. => valueObject name
    | .enumeration name values => enumeration name values

/-- Declares several types. -/
def declareEntries : List TypeEntry → Builder (List TypeId)
  | [] => return []
  | t :: ts => do
    let id ← declareEntry t
    let ids ← declareEntries ts
    return id :: ids

/-- Resolves and adds the members of a type, whose parameters are visible. -/
def addMembers (owner : TypeId) (scope : List TypeId) : List MemberEntry → Builder Unit
  | [] => return ()
  | m :: ms => do
    let type ← resolveText scope m.reference
    addMember owner ⟨m.name, type, m.annotations⟩
    addMembers owner scope ms

/-- The type parameters of a generic definition, none for any other type. -/
def parametersOf (owner : TypeId) : Builder (List TypeId) := do
  match (← view owner).kind with
  | .object parameters => return parameters
  | _ => return []

/-- Completes a declared type. -/
def completeEntry (t : TypeEntry) (owner : TypeId) : Builder Unit := do
  match t with
  | .enumeration .. => return ()
  | _ =>
    addMembers owner (← parametersOf owner) t.members
    match t.context with
    | some flag => setContext owner flag
    | none => return ()

/-- Completes several declared types. -/
def completeEntries : List (TypeEntry × TypeId) → Builder Unit
  | [] => return ()
  | (t, owner) :: rest => do
    completeEntry t owner
    completeEntries rest

/-- Resolves the references to the roots. -/
def resolveRoots : List String → Builder (List TypeId)
  | [] => return []
  | r :: rs => do
    let id ← resolveText [] r
    let ids ← resolveRoots rs
    return id :: ids

/-- Adds a document, and gives its roots. -/
def load (d : Document) : Builder (List TypeId) := do
  let owners ← declareEntries d.types
  completeEntries (d.types.zip owners)
  resolveRoots d.roots

/-- Adds the document that a text spells, and gives its roots. -/
def loadText (s : String) : Builder (List TypeId) :=
  match Document.ofText? s with
  | some d => load d
  | none => throw .malformed

end Builder

end TypeExport
