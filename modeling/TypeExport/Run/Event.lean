import TypeExport.Run.Strategy

/-!
# Events

What a run reports about itself while it goes on.  An event has a level, a
wording and particulars, all text.
-/

namespace TypeExport

/-- Something that happened in a run. -/
inductive Event where
  /-- A rule places a type at a location. -/
  | located (key location : String)
  /-- A rule redirects a type. -/
  | redirected (key name location : String)
  /-- A rule gives a type a behaviour. -/
  | customized (key : String)
  /-- A context is created. -/
  | created (key : String) (strategy : Strategy)
  /-- A rule declares a member. -/
  | memberOverridden (owner member : String)
  /-- A pass has completed contexts. -/
  | passed (number scanned built : Nat)
  deriving DecidableEq, Repr

namespace Event

/-- The level of an event. -/
def level : Event → String
  | passed .. => "TRACE"
  | _ => "DEBUG"

/-- The wording of an event. -/
def message : Event → String
  | located .. => "type location override"
  | redirected .. => "type redirected"
  | customized _ => "custom building context"
  | created .. => "building context created"
  | memberOverridden .. => "member override"
  | passed .. => "build pass"

/-- The particulars of an event. -/
def fields : Event → List (String × String)
  | located key location => [("key", key), ("location", location)]
  | redirected key name location => [("key", key), ("name", name), ("location", location)]
  | customized key => [("key", key)]
  | created key strategy =>
    let unit :=
      match strategy.unit? with
      | some id => "Some(" ++ Strategy.describeUnit id ++ ")"
      | none => "None"
    [("key", key), ("strategy", strategy.name), ("unit", unit)]
  | memberOverridden owner member => [("owner", owner), ("member", member)]
  | passed number scanned built =>
    [("pass", toString number), ("scanned", toString scanned), ("built", toString built)]

end Event

end TypeExport
