import TypeExport.Options
import TypeExport.Output.Unit
import TypeExport.Universe.Shape

/-!
# Errors of a run

The causes for which a run ends without its output, and their wording.
-/

namespace TypeExport

/-- A kind of rule. -/
inductive RuleKind where
  /-- A rule that places a type. -/
  | typeLocation
  /-- A rule that redirects a type. -/
  | typeRedirect
  /-- A rule that gives a type a behaviour. -/
  | typeBehaviour
  /-- A rule that declares a member. -/
  | member
  deriving DecidableEq, Repr

/-- The name of a kind of rule. -/
def RuleKind.name : RuleKind → String
  | .typeLocation => "type location"
  | .typeRedirect => "type redirect"
  | .typeBehaviour => "type building context"
  | .member => "member override"

/-- Why a run fails. -/
inductive RunError where
  /-- The options or a rule of the caller refuse the run. -/
  | misconfigured (cause : Misconfiguration)
  /-- A type has not the structure it is used with. -/
  | shape (cause : ShapeError)
  /-- Several rules compete. -/
  | ambiguous (key : String) (rules : List RuleKind)
  /-- Two members of a type have one name. -/
  | duplicateMember (type member : String)
  /-- A unit refuses a name. -/
  | unit (cause : UnitError)
  /-- A promise of the caller is broken. -/
  | fault (cause : Fault)
  deriving DecidableEq, Repr

/-- The wording of an error. -/
def RunError.message : RunError → String
  | .misconfigured cause => cause.message
  | .shape cause => cause.message
  | .ambiguous key rules =>
    "ambiguous override for `" ++ key ++ "`: " ++ ", ".intercalate (rules.map RuleKind.name)
  | .duplicateMember type member =>
    "type `" ++ type ++ "` declares member `" ++ member ++ "` more than once"
  | .unit cause => cause.message
  | .fault cause => cause.message

/-- Whether an error stops the run, whatever the hooks make of it. -/
def RunError.stopsRun : RunError → Bool
  | .fault _ | .unit (.foreignUnit _) => true
  | _ => false

end TypeExport
