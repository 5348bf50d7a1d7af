import TypeExport.Nullability
import TypeExport.Run.State

/-!
# Programs of hooks

A hook runs in the middle of a run and may use it.  It looks at the types, the
options and the state, changes the output units, and makes requests: a run
resolves a type, refers to one, declares a member, or builds everything, and
answers with the result or with the error.  What a hook does is a `Program`,
which says for every answer how it goes on.

A `Toolkit` answers the requests.  `Program.run` is the program in the run of a
toolkit.
-/

namespace TypeExport

/-- What may be requested from a run. -/
inductive Request where
  /-- The strategy of a type, which gets a context when it has none. -/
  | resolve (type : TypeId)
  /-- A reference to a type from a unit, with the annotations in effect. -/
  | reference (unit : UnitId) (attributes : Option Attributes) (type : TypeId)
  /-- The declaration of a member of a type in a unit, unless it is left out. -/
  | member (unit : UnitId) (owner : Descriptor) (m : Member)
  /-- Everything that the roots need. -/
  | build

/-- What a request is answered with. -/
def Request.Answer : Request → Type
  | resolve _ => Strategy
  | reference .. => TypeExpr
  | member .. => Option MemberDeclaration
  | build => Unit

/-- What a run offers to the hooks of its caller. -/
structure Toolkit where
  types : Universe
  options : Options
  resolve : TypeId → Run Strategy
  reference : UnitId → Option Attributes → TypeId → Run TypeExpr
  resolveMember : UnitId → Descriptor → Member → Run (Option MemberDeclaration)
  build : Run Unit

namespace Toolkit

/-- A reference to a type from a unit, nullable when the policy says so. -/
def importType (t : Toolkit) (unit : UnitId) (attributes : Option Attributes)
    (type : TypeId) : Run TypeExpr := do
  let (isNullable, inner) ← Run.ask (t.types.splitNullable t.options.nullability attributes type)
  let e ← t.reference unit attributes inner
  return e.orNullable isNullable t.options

/-- The answer to a request. -/
def answer (t : Toolkit) : (q : Request) → Run q.Answer
  | .resolve type => t.resolve type
  | .reference unit attributes type => t.reference unit attributes type
  | .member unit owner m => t.resolveMember unit owner m
  | .build => t.build

end Toolkit

/-- The outcome of a step as a value, be it a result or an error that does not
stop the run. -/
def Run.attempt {α : Type} (x : Run α) : Run (Except RunError α) := fun st =>
  match x st with
  | .ok a st => .ok (.ok a) st
  | .error e st => if e.stopsRun then .error e st else .ok (.error e) st

/-- What a hook does. -/
inductive Program (α : Type) where
  | done (result : α)
  | fail (e : RunError)
  /-- Goes on by what the run is given and by its state. -/
  | look (next : Universe → Options → State → Program α)
  /-- Replaces the output units. -/
  | write (units : Units) (next : Program α)
  /-- Makes a request, and goes on by the answer. -/
  | ask (q : Request) (next : Except RunError q.Answer → Program α)

namespace Program

variable {α β : Type}

/-- A program in the run of a toolkit. -/
def run (t : Toolkit) : Program α → Run α
  | done a => return a
  | fail e => throw e
  | look next => do (next t.types t.options (← get)).run t
  | write units next => do
    modify fun s => { s with units }
    next.run t
  | ask q next => do (next (← (t.answer q).attempt)).run t

/-- A program, then the program that its result asks for. -/
def bind : Program α → (α → Program β) → Program β
  | done a, f => f a
  | fail e, _ => fail e
  | look next, f => look fun types options s => (next types options s).bind f
  | write units next, f => write units (next.bind f)
  | ask q next, f => ask q fun answer => (next answer).bind f

instance : Monad Program where
  pure := done
  bind := bind

@[simp] theorem run_pure (t : Toolkit) (a : α) : (pure a : Program α).run t = pure a := rfl

@[simp] theorem run_bind (t : Toolkit) (p : Program α) (f : α → Program β) :
    (p >>= f).run t = p.run t >>= fun a => (f a).run t := by
  show (p.bind f).run t = _
  induction p with
  | done a => exact (pure_bind _ _).symm
  | fail e => rfl
  | look next ih => simp only [bind, run, ih, bind_assoc]
  | write units next ih => simp only [bind, run, ih, bind_assoc]
  | ask q next ih => simp only [bind, run, ih, bind_assoc]

/-- A result that is there, or an error. -/
def ofExcept : Except RunError α → Program α
  | .ok a => done a
  | .error e => fail e

/-- Makes a request, and passes an error on. -/
def request (q : Request) : Program q.Answer := ask q ofExcept

/-- An answer about types, which may be a fault. -/
def inquire (answer : Universe → Options → Except Fault α) : Program α :=
  look fun types options _ => ofExcept ((answer types options).mapError .fault)

@[simp] theorem run_inquire (t : Toolkit) (answer : Universe → Options → Except Fault α) :
    (inquire answer).run t = Run.ask (answer t.types t.options) := by
  show (ofExcept ((answer t.types t.options).mapError .fault)).run t = _
  cases answer t.types t.options <;> rfl

/-- Changes the output units, unless they refuse. -/
def change (f : Units → Except UnitError (α × Units)) : Program α :=
  look fun _ _ s =>
    match f s.units with
    | .ok (a, units) => write units (done a)
    | .error e => fail (.unit e)

/-- The unit at a location, created when there is none. -/
def unitAt (location : String) : Program UnitId := change fun units => .ok (units.ensure location)

/-- Imports a name into a unit. -/
def addImport (into : UnitId) (i : Import) : Program Unit :=
  change fun units => do return ((), ← units.addImport into i)

/-- Adds a declaration to a unit, and gives its position there. -/
def declare (into : UnitId) (d : Declaration) : Program Nat :=
  change fun units => units.declare into d

/-- Resolves a type. -/
def resolve (type : TypeId) : Program Strategy := request (.resolve type)

/-- A reference to a type from a unit. -/
def reference (unit : UnitId) (attributes : Option Attributes) (type : TypeId) :
    Program TypeExpr :=
  request (.reference unit attributes type)

/-- A reference to a type from a unit, nullable when the policy says so. -/
def importType (unit : UnitId) (attributes : Option Attributes) (type : TypeId) :
    Program TypeExpr := do
  let ((isNullable, inner), options) ← inquire fun types options =>
    return (← types.splitNullable options.nullability attributes type, options)
  let e ← reference unit attributes inner
  return e.orNullable isNullable options

end Program

end TypeExport
