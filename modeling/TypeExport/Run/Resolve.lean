import TypeExport.Override.Hooks

/-!
# Resolving types

The strategy of a type.  The caller's hooks are asked first, then the structure
of the type decides.  A type that is declared gets its declaration now, an
object still without members.  The context is added before the types it is
composed of are resolved, so a type that is met again through a cycle has its
context already.

The step is written against a toolkit that resolves the parts.
`Setup.toolkit` ties the knot.
-/

namespace TypeExport

/-- What a run is given. -/
structure Setup where
  types : Universe
  /-- The types to start from. -/
  roots : List TypeId := []
  options : Options := {}
  /-- The decisions of the caller. -/
  hooks : Hooks := {}
  /-- How much deeper the hooks may nest the steps of a run than the structure of
  the types does. -/
  slack : Nat := 0

namespace Setup

/-! ## Strategies -/

/-- Declares an enumeration. -/
def placeEnumeration (s : Setup) (location : String) (d : Descriptor) (values : List EnumValue) :
    Run Strategy := do
  let unit ← Run.unitAt location
  let names := values.map (·.name)
  match s.options.enums with
  | .native =>
    let _ ← Run.declare unit (.enumeration d.name names)
    return .nativeEnum unit d.name
  | .fixedStrings =>
    let _ ← Run.declare unit (.fixedStrings d.name names (s.options.pluralOf d.name))
    return .fixedStrings unit d.name

/-- Declares an object type without members. -/
def placeObject (s : Setup) (location : String) (d : Descriptor) (parameters : List TypeId) :
    Run Strategy := do
  let unit ← Run.unitAt location
  let ps ← Run.ask (s.types.viewAll parameters)
  let position ← Run.declare unit (.object d.name (ps.map (·.name)) [])
  return .object unit d.name position

/-- The strategy that the structure of a type asks for.  A byte array is a
primitive type. -/
def standardStrategy (s : Setup) (location : String) (d : Descriptor) : Run Strategy := do
  match d.kind with
  | .builtin _ => return .builtin
  | .array element =>
    let e ← Run.ask (s.types.view element)
    return if e.kind.builtin? = some .byte then .builtin else .array
  | .closed .. =>
    match ← Run.ask (s.types.container? d) with
    | some .list => return .array
    | some .dictionary => return .dictionary
    | some .nullable =>
      if s.options.explicitNullability then return .nullable
      else
        match d.kind.element? with
        | some underlying =>
          let _ ← Run.ask (s.types.view underlying)
          return .unwrapped underlying
        | none => throw (.shape (.noElementType d.key))
    | none => return .genericInstance
  | .parameter .. => return .genericParameter
  | .container _ => throw (.shape (.openContainer d.key))
  | .enumeration values => s.placeEnumeration location d values
  | .object parameters => s.placeObject location d parameters

/-- The strategy of a type that has no context, by the decision of the caller
or by its structure. -/
def strategyFor (s : Setup) (d : Descriptor) : Run Strategy := do
  let location ← Run.ofExcept (s.hooks.location s.types d)
  if location ≠ "" then Run.log (.located d.key location)
  match ← Run.ofExcept (s.hooks.override d) with
  | .redirect name location =>
    Run.log (.redirected d.key name location)
    return .redirect name location
  | .custom =>
    Run.log (.customized d.key)
    return .custom
  | .standard => s.standardStrategy location d

/-! ## Parts -/

/-- Resolves types in order. -/
def resolveAll (below : Toolkit) : List TypeId → Run Unit
  | [] => return ()
  | id :: ids => do
    let _ ← below.resolve id
    resolveAll below ids

/-- Resolves the types that a type is composed of, as its strategy asks. -/
def resolveParts (s : Setup) (below : Toolkit) (type : TypeId) (d : Descriptor) :
    Strategy → Run Unit
  | .array | .nullable =>
    match d.kind.element? with
    | some element => resolveAll below [element]
    | none => throw (.shape (.noElementType d.key))
  | .unwrapped underlying => resolveAll below [underlying]
  | .dictionary => do
    let _ ← Run.ask (s.types.viewAll d.kind.arguments)
    resolveAll below d.kind.arguments
  | .genericInstance => do
    let definition ← Run.ask (s.types.definition? type d)
    resolveAll below (definition.toList.map (·.1))
    let _ ← Run.ask (s.types.viewAll d.kind.arguments)
    resolveAll below d.kind.arguments
  | .custom => ((s.hooks.behaviour d).prepare type).run below
  | _ => return ()

/-- The strategy of a type.  A type without a context gets one, and its parts
are resolved. -/
def resolveStep (s : Setup) (below : Toolkit) (type : TypeId) : Run Strategy := do
  match (← get).context? type with
  | some c => return c.strategy
  | none =>
    let d ← Run.ask (s.types.view type)
    let strategy ← s.strategyFor d
    Run.log (.created d.key strategy)
    Run.addContext (.create type strategy)
    s.resolveParts below type d strategy
    return strategy

end Setup

end TypeExport
