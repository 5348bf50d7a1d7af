import TypeExport.Universe.Annotation

/-!
# Documents

A document lists declared types and the references a run starts from.  The
types of members and the roots are still text here.
-/

namespace TypeExport

/-- A member as a document declares it. -/
structure MemberEntry where
  name : String
  /-- The reference to its type. -/
  reference : String
  annotations : Annotations := {}
  deriving DecidableEq, Repr

/-- A type as a document declares it. -/
inductive TypeEntry where
  /-- A class, generic when it has parameters. -/
  | object (name : String) (parameters : List String) (members : List MemberEntry)
      (context : Option UInt8)
  | struct (name : String) (members : List MemberEntry) (context : Option UInt8)
  | enumeration (name : String) (values : List String)
  deriving DecidableEq, Repr

/-- A document. -/
structure Document where
  /-- The declared types. -/
  types : List TypeEntry := []
  /-- The references to the roots. -/
  roots : List String := []
  deriving DecidableEq, Repr

namespace TypeEntry

/-- The declared full name. -/
def name : TypeEntry → String
  | object name .. | struct name .. | enumeration name .. => name

/-- The number of type parameters. -/
def arity : TypeEntry → Nat
  | object _ parameters .. => parameters.length
  | _ => 0

/-- The declared members. -/
def members : TypeEntry → List MemberEntry
  | object _ _ members _ | struct _ members _ => members
  | enumeration .. => []

/-- The default nullability flag of the members. -/
def context : TypeEntry → Option UInt8
  | object _ _ _ context | struct _ _ context => context
  | enumeration .. => none

end TypeEntry

end TypeExport
