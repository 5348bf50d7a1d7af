import TypeExport.Declaration.Primitive
import TypeExport.Run.Resolve

/-!
# Referring to types

The expression that stands for a type in a unit.  A declared type is imported
where it is used.  A composed type is built from references to its parts, which
are nullable where the annotations at the use site say so.  The annotations
hold for the outermost type and are not handed on to the parts, except through
a type that is treated as its underlying type.
-/

namespace TypeExport

namespace Setup

/-- A reference to a type of that name, imported from a source. -/
def importedReference (unit : UnitId) (name : String) (source : ImportSource) :
    Run TypeExpr := do
  Run.addImport unit ⟨name, source⟩
  return .reference name

/-- A reference to a primitive type. -/
def primitiveReference (d : Descriptor) : TypeExpr :=
  match d.kind.builtin? with
  | some b => b.target
  | none => byteArrayTarget

/-- A reference to an array or a list. -/
def arrayReference (s : Setup) (below : Toolkit) (unit : UnitId)
    (attributes : Option Attributes) (d : Descriptor) : Run TypeExpr := do
  match d.kind.element? with
  | none => throw (.shape (.noElementType d.key))
  | some element =>
    let e ← Run.ask (s.types.view element)
    let item ← below.reference unit none element
    let isNullable := elementNullable s.options.nullability attributes e
    return .array (item.orNullable isNullable s.options)

/-- A reference to a dictionary. -/
def dictionaryReference (s : Setup) (below : Toolkit) (unit : UnitId)
    (attributes : Option Attributes) (d : Descriptor) : Run TypeExpr := do
  let ds ← Run.ask (s.types.viewAll d.kind.arguments)
  match d.kind.arguments, ds with
  | [key, value], [_, v] =>
    let keyExpr ← below.reference unit none key
    let valueExpr ← below.reference unit none value
    let isNullable ← Run.ask (s.types.valueNullable s.options.nullability attributes key v)
    return .dictionary keyExpr (valueExpr.orNullable isNullable s.options)
  | arguments, _ => throw (.shape (.argumentCount d.key 2 arguments.length))

/-- References to the arguments of a closed generic, behind the arguments
`before`. -/
def argumentReferences (s : Setup) (below : Toolkit) (unit : UnitId)
    (attributes : Option Attributes) (before : List TypeId) :
    List TypeId → Run (List TypeExpr)
  | [] => return []
  | id :: ids => do
    let e ← below.reference unit none id
    let d ← Run.ask (s.types.view id)
    let isNullable ←
      Run.ask (s.types.argumentNullable s.options.nullability attributes before d)
    let es ← s.argumentReferences below unit attributes (before ++ [id]) ids
    return e.orNullable isNullable s.options :: es

/-- A reference to a closed generic. -/
def genericReference (s : Setup) (below : Toolkit) (unit : UnitId)
    (attributes : Option Attributes) (type : TypeId) (d : Descriptor) : Run TypeExpr := do
  match ← Run.ask (s.types.definition? type d) with
  | none => throw (.shape (.notGeneric d.key))
  | some (definition, _) =>
    let base ← below.reference unit none definition
    let _ ← Run.ask (s.types.viewAll d.kind.arguments)
    let arguments ← s.argumentReferences below unit attributes [] d.kind.arguments
    return .generic base arguments

/-- A reference to a type whose values may be absent. -/
def nullableReference (s : Setup) (below : Toolkit) (unit : UnitId) (d : Descriptor) :
    Run TypeExpr := do
  match d.kind.element? with
  | none => throw (.shape (.noElementType d.key))
  | some underlying =>
    let _ ← Run.ask (s.types.view underlying)
    let inner ← below.reference unit none underlying
    return inner.orNullable true s.options

/-- A reference to a type of a known strategy. -/
def referenceFor (s : Setup) (below : Toolkit) (unit : UnitId) (attributes : Option Attributes)
    (type : TypeId) (d : Descriptor) : Strategy → Run TypeExpr
  | .builtin => return primitiveReference d
  | .array => s.arrayReference below unit attributes d
  | .dictionary => s.dictionaryReference below unit attributes d
  | .nativeEnum owner name | .fixedStrings owner name | .object owner name _ =>
    importedReference unit name (.unit owner)
  | .nullable => s.nullableReference below unit d
  | .unwrapped underlying => below.reference unit attributes underlying
  | .genericInstance => s.genericReference below unit attributes type d
  | .genericParameter => return .reference d.name
  | .redirect name location => importedReference unit name (.external location)
  | .custom => ((s.hooks.behaviour d).reference type unit attributes).run below

/-- A reference to a type, which is resolved first. -/
def referenceStep (s : Setup) (below : Toolkit) (unit : UnitId) (attributes : Option Attributes)
    (type : TypeId) : Run TypeExpr := do
  let strategy ← below.resolve type
  let d ← Run.ask (s.types.view type)
  s.referenceFor below unit attributes type d strategy

end Setup

end TypeExport
