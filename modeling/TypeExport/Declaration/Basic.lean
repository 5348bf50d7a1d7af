/-!
# Declarations

What a run produces, independent of the dialect it is written in: expressions
that stand for types at their use sites, and the declarations that hold them.
-/

namespace TypeExport

/-- A type at a use site. -/
inductive TypeExpr where
  /-- A primitive, a declared type or a type parameter, by name. -/
  | reference (name : String)
  /-- A generic type with arguments. -/
  | generic (base : TypeExpr) (arguments : List TypeExpr)
  | array (element : TypeExpr)
  /-- A type or `null`. -/
  | orNull (inner : TypeExpr)
  /-- The global nullable type. -/
  | nullable (inner : TypeExpr)
  /-- An index signature. -/
  | dictionary (key value : TypeExpr)
  /-- One of several types. -/
  | union (items : List TypeExpr)
  /-- A text. -/
  | literal (value : String)
  deriving Repr, Inhabited

namespace TypeExpr

/-- Whether the expression already says that the value may be null. -/
def isWrapper : TypeExpr → Bool
  | orNull _ | nullable _ => true
  | _ => false

end TypeExpr

/-- A member of an object declaration. -/
structure MemberDeclaration where
  name : String
  /-- Whether it may be left out. -/
  optional : Bool
  type : TypeExpr
  deriving Repr, Inhabited

/-- A named declaration. -/
inductive Declaration where
  /-- An object type with its type parameters and members. -/
  | object (name : String) (parameters : List String) (members : List MemberDeclaration)
  /-- A native enumeration. -/
  | enumeration (name : String) (values : List String)
  /-- A union of texts, with a constant that maps each of them to itself. -/
  | fixedStrings (name : String) (values : List String) (lookup : String)
  deriving Repr, Inhabited

namespace Declaration

/-- The declared name. -/
def name : Declaration → String
  | object name .. | enumeration name _ | fixedStrings name .. => name

/-- The declaration with other members.  Only an object has members. -/
def withMembers (members : List MemberDeclaration) : Declaration → Declaration
  | object name parameters _ => object name parameters members
  | d => d

@[simp] theorem name_withMembers (members : List MemberDeclaration) (d : Declaration) :
    (d.withMembers members).name = d.name := by
  cases d <;> rfl

end Declaration

end TypeExport
