import TypeExport.Override.Hooks

/-!
# Rules

Hooks that are registered one by one, each for the key of a type.  Two rules
for the same decision are an error when the decision is asked for, so the order
of registration never decides.
-/

namespace TypeExport

/-- Places the type of a key, by anything that is known of the types. -/
structure LocationRule where
  key : String
  location : Universe → Descriptor → String

/-- Redirects the type of a key. -/
structure RedirectRule where
  key : String
  /-- The name that references import. -/
  name : String
  /-- Where they import it from. -/
  location : String
  deriving DecidableEq, Repr

/-- Gives the type of a key a behaviour. -/
structure BehaviourRule where
  key : String
  behaviour : Descriptor → Behaviour

/-- Declares a member of the type of a key. -/
structure MemberRule where
  key : String
  member : String
  declare : UnitId → Descriptor → Member → Program MemberDeclaration

/-- Registered rules. -/
structure Rules where
  locations : List LocationRule := []
  redirects : List RedirectRule := []
  behaviours : List BehaviourRule := []
  members : List MemberRule := []

namespace Rules

/-- The location that the rules give a type, empty without a rule. -/
def location (r : Rules) (types : Universe) (d : Descriptor) : Except RunError String :=
  match r.locations.filter (·.key = d.key) with
  | [] => .ok ""
  | [rule] => .ok (rule.location types d)
  | rules => .error (.ambiguous d.key (rules.map fun _ => .typeLocation))

/-- The decision of the rules about the strategy of a type. -/
def override (r : Rules) (d : Descriptor) : Except RunError Override :=
  let redirects := r.redirects.filter (·.key = d.key)
  let behaviours := r.behaviours.filter (·.key = d.key)
  match redirects, behaviours with
  | [], [] => .ok .standard
  | [rule], [] => .ok (.redirect rule.name rule.location)
  | [], [_] => .ok .custom
  | _, _ =>
    .error (.ambiguous d.key
      (redirects.map (fun _ => .typeRedirect) ++ behaviours.map fun _ => .typeBehaviour))

/-- The behaviour that the only rule for a type gives it. -/
def behaviour (r : Rules) (d : Descriptor) : Behaviour :=
  match r.behaviours.filter (·.key = d.key) with
  | [rule] => rule.behaviour d
  | _ => {}

/-- The declaration that the rules give a member. -/
def member (r : Rules) (unit : UnitId) (owner : Descriptor) (m : Member) :
    Program (Option MemberDeclaration) :=
  match r.members.filter fun rule => rule.key = owner.key && rule.member = m.name with
  | [] => return none
  | [rule] => do return some (← rule.declare unit owner m)
  | rules => .fail (.ambiguous (owner.key ++ "." ++ m.name) (rules.map fun _ => .member))

/-- The hooks of the rules. -/
def hooks (r : Rules) : Hooks where
  location := r.location
  override := r.override
  behaviour := r.behaviour
  member := r.member

end Rules

end TypeExport
