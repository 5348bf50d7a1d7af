import TypeExport.Run.Error
import TypeExport.Run.Event

/-!
# The state of a run

A run gives each type that it meets one *context*, which says by what strategy
the type is declared and referred to, and whether its declaration is complete.
Contexts are kept in the order of their creation, beside the output units and
the events of the run.  The state outlives a failure: what was reached before
it stays.
-/

namespace TypeExport

/-- What a run knows about a type. -/
structure Context where
  type : TypeId
  strategy : Strategy
  /-- Whether its declaration is complete. -/
  built : Bool
  deriving DecidableEq, Repr

namespace Context

/-- A context as it is created. -/
def create (type : TypeId) (strategy : Strategy) : Context :=
  ⟨type, strategy, !strategy.startsIncomplete⟩

end Context

/-- The state of a run. -/
structure State where
  /-- The contexts, in the order of their creation. -/
  contexts : Array Context := #[]
  units : Units := {}
  /-- The events, in order. -/
  events : Array Event := #[]
  deriving Repr

/-- The context of a type. -/
def State.context? (s : State) (type : TypeId) : Option Context :=
  s.contexts.find? (·.type = type)

/-- Whether a type has a context whose declaration is complete. -/
def State.isBuilt (s : State) (type : TypeId) : Bool :=
  s.contexts.any fun c => c.type = type && c.built

/-- The contexts whose declarations are incomplete. -/
def State.incomplete (s : State) : List Context := s.contexts.toList.filter (!·.built)

/-- A step of a run. -/
abbrev Run := EStateM RunError State

namespace Run

/-- An answer about types, which may be a fault. -/
def ask {α : Type} (answer : Except Fault α) : Run α :=
  match answer with
  | .ok a => pure a
  | .error e => throw (.fault e)

/-- An answer that may be an error of the run. -/
def ofExcept {α : Type} (answer : Except RunError α) : Run α :=
  match answer with
  | .ok a => pure a
  | .error e => throw e

/-- Records an event. -/
def log (e : Event) : Run Unit := modify fun s => { s with events := s.events.push e }

/-- Adds a context. -/
def addContext (c : Context) : Run Unit :=
  modify fun s => { s with contexts := s.contexts.push c }

/-- Marks the context of a type as complete.  The type has to have one. -/
def markBuilt (type : TypeId) : Run Unit := do
  let contexts := (← get).contexts
  if contexts.any (·.type = type) then
    modify fun s =>
      { s with contexts := s.contexts.map fun c => if c.type = type then { c with built := true }
        else c }
  else throw (.fault (.outOfBounds contexts.size contexts.size))

/-- The unit at a location, created when there is none. -/
def unitAt (location : String) : Run UnitId :=
  modifyGet fun s =>
    let (id, units) := s.units.ensure location
    (id, { s with units })

/-- Imports a name into a unit. -/
def addImport (into : UnitId) (i : Import) : Run Unit := do
  match (← get).units.addImport into i with
  | .ok units => modify fun s => { s with units }
  | .error e => throw (.unit e)

/-- Adds a declaration to a unit, and gives its position there. -/
def declare (into : UnitId) (d : Declaration) : Run Nat := do
  match (← get).units.declare into d with
  | .ok (position, units) =>
    modify fun s => { s with units }
    return position
  | .error e => throw (.unit e)

/-- Sets the members of a declared object.  There has to be a declaration at
the position of the unit. -/
def setMembers (unit : UnitId) (position : Nat) (members : List MemberDeclaration) :
    Run Unit := do
  match (← get).units.view unit with
  | .error e => throw (.unit e)
  | .ok u =>
    if position < u.declarations.size then
      modify fun s => { s with units := s.units.setMembers unit position members }
    else throw (.fault (.outOfBounds position u.declarations.size))

end Run

end TypeExport
