import TypeExport.Override.Hooks

/-!
# Recipes

Behaviours and member declarations written as data: a list of actions, then a
template for the reference.  A template is a type expression in which some
places are filled with references that the run makes.
-/

namespace TypeExport

/-- Where an action imports a name from. -/
inductive RecipeSource where
  /-- A module from outside. -/
  | external (specifier : String)
  /-- The unit at a location. -/
  | unitAt (location : String)
  deriving DecidableEq, Repr

/-- An action of a recipe. -/
inductive Action where
  /-- Adds a declaration to the unit at a location. -/
  | declare (location : String) (declaration : Declaration)
  /-- Imports a name into the unit at a location, or into the unit at hand. -/
  | importName (name : String) (source : RecipeSource) (into : Option String)
  | resolve (type : TypeId)
  | refuse (reason : String)
  deriving Repr

/-- How a template refers to a type. -/
inductive Via where
  | plain
  /-- With the annotations in effect. -/
  | attributes
  /-- With the annotations in effect, nullable when the policy says so. -/
  | policy
  deriving DecidableEq, Repr

/-- A type expression with places that the run fills. -/
inductive Template where
  | reference (name : String)
  | generic (base : Template) (arguments : List Template)
  | array (element : Template)
  | orNull (inner : Template)
  | nullable (inner : Template)
  | dictionary (key value : Template)
  | union (items : List Template)
  | literal (value : String)
  /-- A reference to a type, or to the type at hand. -/
  | place (target : Option TypeId) (via : Via)
  deriving Repr

/-- The place at which a recipe runs. -/
structure RecipeSite where
  /-- The unit at hand, if there is one. -/
  unit : Option UnitId
  /-- The type at hand. -/
  type : TypeId
  attributes : Option Attributes

namespace RecipeSite

/-- The unit at hand, the one at the root when there is none. -/
def currentUnit (site : RecipeSite) : Program UnitId :=
  match site.unit with
  | some id => return id
  | none => Program.unitAt ""

end RecipeSite

/-- The source of an import. -/
def RecipeSource.locate : RecipeSource → Program ImportSource
  | .external specifier => return .external specifier
  | .unitAt location => do return .unit (← Program.unitAt location)

/-- Runs an action. -/
def Action.run (site : RecipeSite) : Action → Program Unit
  | .declare location declaration => do
    let unit ← Program.unitAt location
    let _ ← Program.declare unit declaration
  | .importName name source into => do
    let source ← source.locate
    let unit ←
      match into with
      | some location => Program.unitAt location
      | none => site.currentUnit
    Program.addImport unit ⟨name, source⟩
  | .resolve type => do
    let _ ← Program.resolve type
  | .refuse reason => .fail (.misconfigured (.refused reason))

/-- Runs actions in order. -/
def runActions (site : RecipeSite) : List Action → Program Unit
  | [] => return ()
  | a :: as => do
    a.run site
    runActions site as

namespace Template

mutual

/-- The expression of a template, its places filled from left to right. -/
def fill (site : RecipeSite) (unit : UnitId) : Template → Program TypeExpr
  | .reference name => return .reference name
  | .generic base arguments => do
    let base ← base.fill site unit
    let arguments ← fillAll site unit arguments
    return .generic base arguments
  | .array element => do return .array (← element.fill site unit)
  | .orNull inner => do return .orNull (← inner.fill site unit)
  | .nullable inner => do return .nullable (← inner.fill site unit)
  | .dictionary key value => do
    let key ← key.fill site unit
    let value ← value.fill site unit
    return .dictionary key value
  | .union items => do return .union (← fillAll site unit items)
  | .literal value => return .literal value
  | .place target via =>
    let target := target.getD site.type
    match via with
    | .plain => Program.reference unit none target
    | .attributes => Program.reference unit site.attributes target
    | .policy => Program.importType unit site.attributes target

/-- The expressions of several templates. -/
def fillAll (site : RecipeSite) (unit : UnitId) : List Template → Program (List TypeExpr)
  | [] => return []
  | t :: ts => do
    let e ← t.fill site unit
    let es ← fillAll site unit ts
    return e :: es

end

end Template

/-- A behaviour written as data. -/
structure BehaviourRecipe where
  /-- The actions when the context has been created. -/
  prepare : List Action := []
  /-- The actions that complete the declaration. -/
  complete : List Action := []
  /-- The actions before each reference. -/
  before : List Action := []
  reference : Template
  deriving Repr

/-- The behaviour of a recipe. -/
def BehaviourRecipe.behaviour (r : BehaviourRecipe) : Behaviour where
  prepare := fun type => runActions ⟨none, type, none⟩ r.prepare
  complete := fun type => runActions ⟨none, type, none⟩ r.complete
  reference := fun type unit attributes => do
    let site : RecipeSite := ⟨some unit, type, attributes⟩
    runActions site r.before
    r.reference.fill site unit

/-- The declaration of a member written as data. -/
structure MemberRecipe where
  /-- The actions before the declaration. -/
  before : List Action := []
  /-- The name of the declaration, the member's own when there is none. -/
  name : Option String := none
  /-- Whether the member may be left out. -/
  optional : Bool := false
  type : Template
  deriving Repr

/-- The declaration of a recipe. -/
def MemberRecipe.declare (r : MemberRecipe) (unit : UnitId) (owner : Descriptor) (m : Member) :
    Program MemberDeclaration := do
  let site : RecipeSite := ⟨some unit, m.type, some (.ofMember owner m)⟩
  runActions site r.before
  let type ← r.type.fill site unit
  return { name := r.name.getD m.name, optional := r.optional, type }

end TypeExport
