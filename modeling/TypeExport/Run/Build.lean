import TypeExport.Output.Render
import TypeExport.Run.Reference

/-!
# Running

A run validates the options, resolves the roots, and completes the contexts in
passes.  A pass completes the contexts that were incomplete when it began, in
the order of their creation, and completing one may create others for a later
pass.  The run ends when no context is incomplete.  A hook may build in the
middle of a pass, so a pass leaves out what is complete when its turn comes.

Steps are answered by steps one level down, and the depth of the descent is
bounded.  `Setup.depth` is more than any run needs whose types do not contain
themselves structurally, because each nested step meets a type that has no
context yet or goes one level down in the structure of a type.  Hooks may nest
steps as they like, so they get the depth that `Setup.slack` adds.
-/

namespace TypeExport

namespace Setup

/-! ## Members -/

/-- The declaration of a member in a unit, unless the member is left out. -/
def memberStep (s : Setup) (below : Toolkit) (unit : UnitId) (owner : Descriptor) (m : Member) :
    Run (Option MemberDeclaration) := do
  match ← (s.hooks.member unit owner m).run below with
  | some declaration =>
    Run.log (.memberOverridden owner.key m.name)
    return some declaration
  | none =>
    if m.annotations.has .ignore then return none
    else
      let attributes := Attributes.ofMember owner m
      let (isNullable, inner) ←
        Run.ask (s.types.splitNullable s.options.nullability (some attributes) m.type)
      let e ← below.importType unit (some attributes) inner
      return some {
        name := lowerCamel m.name
        optional := s.options.isOptional isNullable
        type := e.orNullable isNullable s.options }

/-- The declarations of the members of a type, behind the declarations `done`.
No two have one name. -/
def resolveMembers (below : Toolkit) (unit : UnitId) (owner : Descriptor)
    (done : List MemberDeclaration) : List Member → Run (List MemberDeclaration)
  | [] => return done
  | m :: ms => do
    match ← below.resolveMember unit owner m with
    | none => resolveMembers below unit owner done ms
    | some d =>
      if done.any (·.name = d.name) then throw (.duplicateMember owner.key d.name)
      else resolveMembers below unit owner (done ++ [d]) ms

/-! ## Passes -/

/-- Completes the declaration of a type, as its strategy asks. -/
def completeDeclaration (s : Setup) (below : Toolkit) (type : TypeId) : Strategy → Run Unit
  | .object unit _ position => do
    let d ← Run.ask (s.types.view type)
    let members ← resolveMembers below unit d [] d.members
    Run.setMembers unit position members
  | .custom => do
    let d ← Run.ask (s.types.view type)
    ((s.hooks.behaviour d).complete type).run below
  | _ => return ()

/-- Completes a context. -/
def completeContext (s : Setup) (below : Toolkit) (c : Context) : Run Unit := do
  s.completeDeclaration below c.type c.strategy
  Run.markBuilt c.type

/-- Completes contexts in order, apart from those that are complete when their
turn comes, and counts them. -/
def completeAll (s : Setup) (below : Toolkit) : List Context → Run Nat
  | [] => return 0
  | c :: cs => do
    if (← get).isBuilt c.type then s.completeAll below cs
    else
      s.completeContext below c
      return (← s.completeAll below cs) + 1

/-- Passes from a number on, until no context is incomplete.  As many may begin
as the first argument of these says. -/
def passes (s : Setup) (below : Toolkit) : Nat → Nat → Run Unit
  | 0, _ => do if (← get).incomplete.isEmpty then return () else throw (.fault .endless)
  | allowed + 1, number => do
    let state ← get
    match state.incomplete with
    | [] => return ()
    | pending =>
      let built ← s.completeAll below pending
      Run.log (.passed number state.contexts.size built)
      s.passes below allowed (number + 1)

/-- Builds everything that the roots need, in at most as many passes as there
are types. -/
def buildStep (s : Setup) (below : Toolkit) : Run Unit := do
  Run.ofExcept (s.options.validate.mapError .misconfigured)
  resolveAll below s.roots
  s.passes below s.types.size 1

/-! ## Toolkits -/

/-- The toolkit whose steps nest at most `fuel` deep. -/
def toolkit (s : Setup) : Nat → Toolkit
  | 0 =>
    { types := s.types
      options := s.options
      resolve := fun _ => throw (.fault .endless)
      reference := fun _ _ _ => throw (.fault .endless)
      resolveMember := fun _ _ _ => throw (.fault .endless)
      build := throw (.fault .endless) }
  | fuel + 1 =>
    { types := s.types
      options := s.options
      resolve := fun type => s.resolveStep (s.toolkit fuel) type
      reference := fun unit attributes type =>
        s.referenceStep (s.toolkit fuel) unit attributes type
      resolveMember := fun unit owner m => s.memberStep (s.toolkit fuel) unit owner m
      build := s.buildStep (s.toolkit fuel) }

/-- The depth to which the steps below a member may nest. -/
def depth (s : Setup) : Nat := s.slack + (5 * s.types.size + 16)

/-- The toolkit of a run. -/
def tools (s : Setup) : Toolkit := s.toolkit (s.depth + 1)

/-- The strategy of a type, which gets a context when it has none. -/
def resolve (s : Setup) (type : TypeId) : Run Strategy := s.tools.resolve type

/-- A reference to a type from a unit. -/
def reference (s : Setup) (unit : UnitId) (attributes : Option Attributes) (type : TypeId) :
    Run TypeExpr :=
  s.tools.reference unit attributes type

/-- A reference to a type from a unit, nullable when the policy says so. -/
def importType (s : Setup) (unit : UnitId) (attributes : Option Attributes) (type : TypeId) :
    Run TypeExpr :=
  s.tools.importType unit attributes type

/-- The declaration of a member in a unit, unless the member is left out. -/
def resolveMember (s : Setup) (unit : UnitId) (owner : Descriptor) (m : Member) :
    Run (Option MemberDeclaration) :=
  s.tools.resolveMember unit owner m

/-- Builds everything that the roots need. -/
def build (s : Setup) : Run Unit := s.buildStep s.tools

/-! ## Whole runs -/

/-- The state in which a run from the empty state ends, and its error if it
fails. -/
def finalState (s : Setup) : Option RunError × State :=
  match s.build.run {} with
  | .ok _ state => (none, state)
  | .error e state => (some e, state)

/-- The output units of everything that the roots need. -/
def units (s : Setup) : Except RunError Units :=
  match s.finalState with
  | (none, state) => .ok state.units
  | (some e, _) => .error e

/-- The rendered units of everything that the roots need. -/
def generate (s : Setup) : Except RunError (List RenderedUnit) := do
  return (← s.units).render s.options

/-- The events of the run, in order. -/
def events (s : Setup) : List Event := s.finalState.2.events.toList

end Setup

end TypeExport
