/-!
# Annotations

What a document says about the nullability of a member: a set of markers, and
the flags of nullable reference types.  There may be one flag for each position
of the member's type, or one default flag for all of them.
-/

namespace TypeExport

/-- A marker on a member. -/
inductive Marker where
  /-- The value is never null. -/
  | notNull
  /-- The value may be null. -/
  | canBeNull
  /-- The items of the value are never null. -/
  | itemNotNull
  /-- The items of the value may be null. -/
  | itemCanBeNull
  /-- The value has to be given. -/
  | required
  /-- The member is left out. -/
  | ignore
  deriving DecidableEq, Repr

namespace Marker

/-- Every marker. -/
def all : List Marker := [.notNull, .canBeNull, .itemNotNull, .itemCanBeNull, .required, .ignore]

/-- The name of a marker in documents. -/
def name : Marker → String
  | notNull => "not-null"
  | canBeNull => "can-be-null"
  | itemNotNull => "item-not-null"
  | itemCanBeNull => "item-can-be-null"
  | required => "required"
  | ignore => "ignore"

/-- The marker of that name. -/
def ofName? (name : String) : Option Marker := all.find? (·.name = name)

end Marker

/-- A set of markers. -/
structure MarkerSet where
  notNull : Bool := false
  canBeNull : Bool := false
  itemNotNull : Bool := false
  itemCanBeNull : Bool := false
  required : Bool := false
  ignore : Bool := false
  deriving DecidableEq, Repr

namespace MarkerSet

/-- Whether a marker is in the set. -/
def has (s : MarkerSet) : Marker → Bool
  | .notNull => s.notNull
  | .canBeNull => s.canBeNull
  | .itemNotNull => s.itemNotNull
  | .itemCanBeNull => s.itemCanBeNull
  | .required => s.required
  | .ignore => s.ignore

/-- The set with one more marker. -/
def insert (s : MarkerSet) : Marker → MarkerSet
  | .notNull => { s with notNull := true }
  | .canBeNull => { s with canBeNull := true }
  | .itemNotNull => { s with itemNotNull := true }
  | .itemCanBeNull => { s with itemCanBeNull := true }
  | .required => { s with required := true }
  | .ignore => { s with ignore := true }

/-- The set of the markers of a list. -/
def ofList (ms : List Marker) : MarkerSet := ms.foldl insert {}

/-- The markers of the set, in the order of `Marker.all`. -/
def toList (s : MarkerSet) : List Marker := Marker.all.filter s.has

@[simp] theorem has_insert (s : MarkerSet) (m n : Marker) :
    (s.insert m).has n = (decide (n = m) || s.has n) := by
  cases m <;> cases n <;> simp [insert, has]

end MarkerSet

/-- The annotations of a member. -/
structure Annotations where
  markers : MarkerSet := {}
  /-- One flag for each position of the type, or one for all positions: 0 says
  nothing, 1 says not null, 2 says nullable. -/
  flags : Option (List UInt8) := none
  /-- The flag for every position when there are no flags. -/
  context : Option UInt8 := none
  deriving DecidableEq, Repr

namespace Annotations

/-- Whether a marker is set. -/
def has (a : Annotations) (m : Marker) : Bool := a.markers.has m

/-- Whether nothing is annotated. -/
def isPlain (a : Annotations) : Bool := a = {}

end Annotations

end TypeExport
