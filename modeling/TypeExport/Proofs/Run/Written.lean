import TypeExport.Proofs.Run.Plan

/-!
# Written expressions

What a run writes for a type at a use site, and for a member, said without the
steps of a run.  A redirected type and a declared one are written by name, and
a composed one from its parts, which are nullable where the annotations at the
use site say so.  The annotations go on to a part only when a `Nullable` is
treated as its underlying type.
-/

namespace TypeExport

namespace Setup

mutual

/-- What is written for a type, with the annotations in effect. -/
inductive Written (s : Setup) : Option Attributes → TypeId → TypeExpr → Prop
  | redirected {a : Option Attributes} {t : TypeId} {name location : String} :
      s.Redirects t name location → Written s a t (.reference name)
  | primitive {a : Option Attributes} {t : TypeId} {e : TypeExpr} :
      s.Treats t (.primitive e) → Written s a t e
  | sequence {a : Option Attributes} {t x : TypeId} {d : Descriptor} {e : TypeExpr} :
      s.Treats t (.sequence x) → s.types.get? x = some d → Written s none x e →
      Written s a t
        (.array (e.orNullable (elementNullable s.options.nullability a d) s.options))
  | dictionary {a : Option Attributes} {t key value : TypeId} {d : Descriptor}
      {e e' : TypeExpr} {isNullable : Bool} :
      s.Treats t (.dictionary key value) → s.types.get? value = some d →
      s.types.valueNullable s.options.nullability a key d = .ok isNullable →
      Written s none key e → Written s none value e' →
      Written s a t (.dictionary e (e'.orNullable isNullable s.options))
  | nullable {a : Option Attributes} {t x : TypeId} {e : TypeExpr} :
      s.options.explicitNullability = true → s.Treats t (.absent x) → Written s none x e →
      Written s a t (e.orNullable true s.options)
  | unwrapped {a : Option Attributes} {t x : TypeId} {e : TypeExpr} :
      s.options.explicitNullability = false → s.Treats t (.absent x) → Written s a x e →
      Written s a t e
  | applied {a : Option Attributes} {t definition : TypeId} {arguments : List TypeId}
      {e : TypeExpr} {es : List TypeExpr} :
      s.Treats t (.applied definition arguments) → Written s none definition e →
      WrittenArguments s a [] arguments es → Written s a t (.generic e es)
  | parameter {a : Option Attributes} {t : TypeId} :
      s.Treats t .parameter → Written s a t (.reference (s.types.nameOf t))
  | declared {a : Option Attributes} {t : TypeId} {d : Declaration} :
      s.Outlines t d → Written s a t (.reference (s.types.nameOf t))

/-- What is written for the arguments of a closed generic behind the arguments
in front of them. -/
inductive WrittenArguments (s : Setup) :
    Option Attributes → List TypeId → List TypeId → List TypeExpr → Prop
  | nil {a : Option Attributes} {before : List TypeId} : WrittenArguments s a before [] []
  | cons {a : Option Attributes} {before xs : List TypeId} {x : TypeId} {d : Descriptor}
      {e : TypeExpr} {es : List TypeExpr} {isNullable : Bool} :
      Written s none x e → s.types.get? x = some d →
      s.types.argumentNullable s.options.nullability a before d = .ok isNullable →
      WrittenArguments s a (before ++ [x]) xs es →
      WrittenArguments s a before (x :: xs) (e.orNullable isNullable s.options :: es)

end

/-- The annotations in effect at a member of an issued type. -/
def attributesOf (s : Setup) (o : TypeId) (m : Member) : Attributes :=
  ⟨m.annotations, s.types.get? o⟩

/-- Whether the use site of a member may be null. -/
def memberNullable (s : Setup) (o : TypeId) (m : Member) : Bool :=
  s.types.siteNullable s.options.nullability (some (s.attributesOf o m)) m.type

/-- Whether a declaration is that of a member. -/
structure Completes (s : Setup) (o : TypeId) (m : Member) (d : MemberDeclaration) : Prop where
  name : d.name = lowerCamel m.name
  /-- Whether it may be left out. -/
  optional : d.optional = s.options.isOptional (s.memberNullable o m)
  /-- The type.  A `Nullable` behind a `Nullable` is asked about once more. -/
  type : ∃ e, s.Written (some (s.attributesOf o m)) (s.site m) e ∧
    d.type = (e.orNullable (s.types.siteNullable s.options.nullability
      (some (s.attributesOf o m)) (s.types.bare m.type)) s.options).orNullable
        (s.memberNullable o m) s.options

end Setup

end TypeExport
