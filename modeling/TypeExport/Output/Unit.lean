import TypeExport.Declaration.Basic

/-!
# Output units

An output unit is a file of declarations with the imports they need.  The units
of a run are kept in the order in which their locations were first asked for,
one for each location, and a `UnitId` is the position of a unit.

In a unit a name stands for one thing.  A declaration whose name is declared or
imported already is refused, and so is an import whose name is declared or
imported from elsewhere.  A refused operation changes nothing.
-/

namespace TypeExport

/-- The position of a unit.  Like that of a type it is unbounded, so nothing is said of
more than `2 ^ 32` units. -/
structure UnitId where
  index : Nat
  deriving DecidableEq, Repr

/-- Where an imported name comes from. -/
inductive ImportSource where
  | unit (id : UnitId)
  /-- A module from outside.  One that starts with `./` or `../` is relative to
  the root of the output, any other is the name of a package. -/
  | external (specifier : String)
  deriving DecidableEq, Repr

/-- An imported name. -/
structure Import where
  name : String
  /-- Where it comes from. -/
  source : ImportSource
  deriving DecidableEq, Repr

/-- A file of declarations. -/
structure OutputUnit where
  /-- The location, a path without an extension. -/
  location : String
  /-- The imports, in the order in which they were added. -/
  imports : Array Import := #[]
  /-- The declarations, in the order in which they were added. -/
  declarations : Array Declaration := #[]
  deriving Repr

namespace OutputUnit

/-- The path without an extension.  The empty location is the index. -/
def stem (unit : OutputUnit) : String :=
  if unit.location = "" then "index" else unit.location

/-- Whether the unit declares a name. -/
def declares (unit : OutputUnit) (name : String) : Bool :=
  unit.declarations.any (·.name = name)

/-- Whether the unit imports a name. -/
def importsName (unit : OutputUnit) (name : String) : Bool :=
  unit.imports.any (·.name = name)

/-- Whether the unit imports a name from elsewhere than a source. -/
def importsElsewhere (unit : OutputUnit) (i : Import) : Bool :=
  unit.imports.any fun other => other.name = i.name && other.source ≠ i.source

end OutputUnit

/-- Why a unit refuses a name. -/
inductive UnitError where
  /-- The name stands for something else in the unit of that stem. -/
  | nameTaken (stem name : String)
  /-- The registry did not issue this id. -/
  | foreignUnit (id : UnitId)
  deriving DecidableEq, Repr

/-- The wording of a refusal. -/
def UnitError.message : UnitError → String
  | .nameTaken stem name => "unit `" ++ stem ++ "` already declares or imports `" ++ name ++ "`"
  | .foreignUnit id =>
    "TypeUnits: unit id " ++ toString id.index
      ++ " not found (ids must come from the registry that issued them)"

/-- The units of a run. -/
structure Units where
  /-- The units, at the positions of their ids. -/
  all : Array OutputUnit := #[]
  deriving Repr

namespace Units

/-- The number of units. -/
def size (us : Units) : Nat := us.all.size

/-- The unit of an id, if it was issued. -/
def get? (us : Units) (id : UnitId) : Option OutputUnit := us.all[id.index]?

/-- The id of a location. -/
def find? (us : Units) (location : String) : Option UnitId :=
  (us.all.findIdx? (·.location = location)).map UnitId.mk

/-- The id of a location, with an empty unit added when the location is new. -/
def ensure (us : Units) (location : String) : UnitId × Units :=
  match us.find? location with
  | some id => (id, us)
  | none => (⟨us.all.size⟩, ⟨us.all.push { location }⟩)

/-- The units with one of them changed. -/
def modify (us : Units) (id : UnitId) (f : OutputUnit → OutputUnit) : Units :=
  ⟨us.all.modify id.index f⟩

/-- The unit of an id that has to be issued. -/
def view (us : Units) (id : UnitId) : Except UnitError OutputUnit :=
  match us.get? id with
  | some unit => .ok unit
  | none => .error (.foreignUnit id)

/-- Imports a name into a unit.  An import that is there already, and an import
of a unit from itself, change nothing. -/
def addImport (us : Units) (into : UnitId) (i : Import) : Except UnitError Units :=
  if i.source = .unit into then .ok us
  else do
    let unit ← us.view into
    if unit.declares i.name || unit.importsElsewhere i then
      .error (.nameTaken unit.stem i.name)
    else if i ∈ unit.imports then return us
    else return us.modify into fun unit => { unit with imports := unit.imports.push i }

/-- Adds a declaration to a unit, and gives its position there. -/
def declare (us : Units) (into : UnitId) (d : Declaration) : Except UnitError (Nat × Units) := do
  let unit ← us.view into
  if unit.declares d.name || unit.importsName d.name then
    .error (.nameTaken unit.stem d.name)
  else
    return (unit.declarations.size,
      us.modify into fun unit => { unit with declarations := unit.declarations.push d })

/-- Sets the members of a declared object. -/
def setMembers (us : Units) (id : UnitId) (position : Nat) (members : List MemberDeclaration) :
    Units :=
  us.modify id fun unit =>
    { unit with declarations := unit.declarations.modify position (·.withMembers members) }

/-- The path of a unit without an extension, the index when the id was never
issued. -/
def stemOf (us : Units) (id : UnitId) : String :=
  match us.get? id with
  | some unit => unit.stem
  | none => "index"

end Units

end TypeExport
