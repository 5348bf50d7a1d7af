import TypeExport.Override.Program

/-!
# Hooks

The points at which a caller decides in place of the defaults: where a type is
declared, whether it is redirected or has a behaviour of its own, and how a
member is declared.
-/

namespace TypeExport

/-- A behaviour of the caller's for a type. -/
structure Behaviour where
  /-- Runs when the context of the type has been created. -/
  prepare : TypeId → Program Unit := fun _ => return ()
  /-- Completes the declaration of the type. -/
  complete : TypeId → Program Unit := fun _ => return ()
  /-- A reference to the type from a unit.  By default it is the simple name. -/
  reference : TypeId → UnitId → Option Attributes → Program TypeExpr := fun type _ _ => do
    let d ← Program.inquire fun types _ => types.view type
    return .reference d.name

/-- A decision about the strategy of a type. -/
inductive Override where
  | standard
  /-- References import a name from a location, and nothing is declared. -/
  | redirect (name location : String)
  /-- The type has a behaviour of the caller's. -/
  | custom
  deriving DecidableEq, Repr

/-- The decisions of a caller.  By default there are none. -/
structure Hooks where
  /-- The location of the unit that declares a type, which may depend on all
  types. -/
  location : Universe → Descriptor → Except RunError String := fun _ _ => .ok ""
  /-- The decision about the strategy of a type. -/
  override : Descriptor → Except RunError Override := fun _ => .ok .standard
  /-- The behaviour of a type whose decision is `Override.custom`. -/
  behaviour : Descriptor → Behaviour := fun _ => {}
  /-- The declaration of a member of a type in a unit, if the caller gives
  one. -/
  member : UnitId → Descriptor → Member → Program (Option MemberDeclaration) :=
    fun _ _ _ => return none

end TypeExport
