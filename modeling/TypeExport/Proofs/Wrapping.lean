import TypeExport.Proofs.Objects
import TypeExport.Proofs.Scope

/-!
# How nullable values are written

A wrapper says in the output that a value may be null.  A run adds wrappers at
six kinds of use site: at a member, once more at a member behind a `Nullable`,
at a `Nullable`, at an item, at a value and at an argument.  They may meet in
any combination.  All of them are added by `TypeExpr.orNullable`, which leaves a
wrapper as it is, so none stands directly inside another at any depth
(`Setup.Written.wellWrapped`).

At the top of a member's type a wrapper goes with the decision whether the
member may be left out (`Setup.Completes.wraps`).  No condition on the rules is
needed for this, also a `Nullable` may be redirected.
-/

namespace TypeExport

namespace TypeExpr

/-- Whether an expression occurs in another, at any depth. -/
inductive Occurs (x : TypeExpr) : TypeExpr → Prop
  | here : Occurs x x
  | base {base : TypeExpr} {es : List TypeExpr} : Occurs x base → Occurs x (.generic base es)
  | argument {base e : TypeExpr} {es : List TypeExpr} :
      e ∈ es → Occurs x e → Occurs x (.generic base es)
  | element {e : TypeExpr} : Occurs x e → Occurs x (.array e)
  | orNull {e : TypeExpr} : Occurs x e → Occurs x (.orNull e)
  | nullable {e : TypeExpr} : Occurs x e → Occurs x (.nullable e)
  | key {e e' : TypeExpr} : Occurs x e → Occurs x (.dictionary e e')
  | value {e e' : TypeExpr} : Occurs x e' → Occurs x (.dictionary e e')
  | item {e : TypeExpr} {es : List TypeExpr} : e ∈ es → Occurs x e → Occurs x (.union es)

/-- What is asked of an expression that is a wrapper. -/
structure WrapsOnce (o : Options) (e : TypeExpr) : Prop where
  /-- The run has nullable types. -/
  mode : e.isWrapper = true → o.nullability ≠ .none
  /-- The wrapper has the form that the options ask for. -/
  form : e.isWrapper = true → e.IsNullableBy o
  /-- No wrapper stands directly inside it. -/
  once : ∀ inner, e = .orNull inner ∨ e = .nullable inner → inner.isWrapper = false

/-- Whether all wrappers that occur in an expression are as they are asked
for. -/
def WellWrapped (o : Options) (e : TypeExpr) : Prop := ∀ x : TypeExpr, x.Occurs e → x.WrapsOnce o

variable {o : Options} {e e' base : TypeExpr} {es : List TypeExpr}

theorem wrapsOnce_of_not_isWrapper (h : e.isWrapper = false) : e.WrapsOnce o where
  mode hw := by
    rw [h] at hw
    cases hw
  form hw := by
    rw [h] at hw
    cases hw
  once inner heq := by rcases heq with rfl | rfl <;> cases h

/-! ## Expressions by their parts -/

theorem wellWrapped_reference (name : String) : (reference name).WellWrapped o := by
  intro x hx
  cases hx with
  | here => exact wrapsOnce_of_not_isWrapper rfl

theorem WellWrapped.array (h : e.WellWrapped o) : (array e).WellWrapped o := by
  intro x hx
  cases hx with
  | here => exact wrapsOnce_of_not_isWrapper rfl
  | element hx => exact h x hx

theorem WellWrapped.dictionary (h : e.WellWrapped o) (h' : e'.WellWrapped o) :
    (dictionary e e').WellWrapped o := by
  intro x hx
  cases hx with
  | here => exact wrapsOnce_of_not_isWrapper rfl
  | key hx => exact h x hx
  | value hx => exact h' x hx

theorem WellWrapped.generic (h : base.WellWrapped o) (hes : ∀ e ∈ es, e.WellWrapped o) :
    (generic base es).WellWrapped o := by
  intro x hx
  cases hx with
  | here => exact wrapsOnce_of_not_isWrapper rfl
  | base hx => exact h x hx
  | argument hmem hx => exact hes _ hmem x hx

theorem wellWrapped_union (hes : ∀ e ∈ es, e.WellWrapped o) : (union es).WellWrapped o := by
  intro x hx
  cases hx with
  | here => exact wrapsOnce_of_not_isWrapper rfl
  | item hmem hx => exact hes _ hmem x hx

/-- A wrapper is added where there is none, in the form asked for. -/
theorem WellWrapped.orNullable (h : e.WellWrapped o) (isNullable : Bool) :
    (e.orNullable isNullable o).WellWrapped o := by
  unfold TypeExpr.orNullable
  split
  case isTrue => exact h
  case isFalse hadd =>
    simp only [Bool.or_eq_true, Bool.not_eq_true', decide_eq_true_eq, not_or,
      Bool.not_eq_true] at hadd
    obtain ⟨⟨-, hbare⟩, hmode⟩ := hadd
    split
    case isTrue hglobal =>
      intro x hx
      cases hx with
      | here =>
        refine ⟨fun _ => hmode, fun _ => ⟨e, by rw [if_pos hglobal]⟩, fun inner heq => ?_⟩
        rcases heq with heq | heq <;> cases heq
        exact hbare
      | nullable hx => exact h x hx
    case isFalse hlocal =>
      intro x hx
      cases hx with
      | here =>
        refine ⟨fun _ => hmode, fun _ => ⟨e, by rw [if_neg hlocal]⟩, fun inner heq => ?_⟩
        rcases heq with heq | heq <;> cases heq
        exact hbare
      | orNull hx => exact h x hx

end TypeExpr

theorem Builtin.wellWrapped_target (o : Options) (b : Builtin) : b.target.WellWrapped o := by
  cases b with
  | dateTime | dateTimeOffset | timeSpan =>
    refine TypeExpr.wellWrapped_union fun e he => ?_
    simp only [List.mem_cons, List.not_mem_nil, or_false] at he
    rcases he with rfl | rfl <;> exact TypeExpr.wellWrapped_reference _
  | _ => exact TypeExpr.wellWrapped_reference _

namespace Setup

variable {s : Setup} {r : Rules} {us : Units} {t o : TypeId} {e : TypeExpr} {m : Member}

/-! ## Written expressions -/

theorem Treats.primitive_wellWrapped (h : s.Treats t (.primitive e)) (opts : Options) :
    e.WellWrapped opts := by
  obtain ⟨d, -, -, hform⟩ := h
  generalize d.kind = kind at hform
  cases Universe.hasForm_of_eq hform with
  | builtin b => exact b.wellWrapped_target opts
  | bytes => exact TypeExpr.wellWrapped_reference _

mutual

/-- The wrappers in what is written for a type are as they are asked for. -/
theorem Written.wellWrapped {a : Option Attributes} {t : TypeId} {e : TypeExpr}
    (h : s.Written a t e) : e.WellWrapped s.options := by
  match h with
  | .redirected _ => exact TypeExpr.wellWrapped_reference _
  | .primitive ht => exact ht.primitive_wellWrapped s.options
  | .sequence _ _ hx => exact (hx.wellWrapped.orNullable _).array
  | .dictionary _ _ _ hkey hvalue =>
    exact hkey.wellWrapped.dictionary (hvalue.wellWrapped.orNullable _)
  | .nullable _ _ hx => exact hx.wellWrapped.orNullable true
  | .unwrapped _ _ hx => exact hx.wellWrapped
  | .applied _ hdefinition harguments =>
    exact hdefinition.wellWrapped.generic harguments.wellWrapped
  | .parameter _ => exact TypeExpr.wellWrapped_reference _
  | .declared _ => exact TypeExpr.wellWrapped_reference _

theorem WrittenArguments.wellWrapped {a : Option Attributes} {before xs : List TypeId}
    {es : List TypeExpr} (h : s.WrittenArguments a before xs es) :
    ∀ e ∈ es, e.WellWrapped s.options := by
  match h with
  | .nil => exact fun e he => absurd he List.not_mem_nil
  | .cons hx _ _ hrest =>
    intro e he
    rcases List.mem_cons.1 he with rfl | htail
    · exact hx.wellWrapped.orNullable _
    · exact hrest.wellWrapped e htail

end

/-! ## Members -/

/-- What is asked of the wrappers of a member, and of whether it may be left
out. -/
structure Wraps (o : Options) (d : MemberDeclaration) : Prop where
  /-- At every depth a wrapper is as it is asked for. -/
  type : d.type.WellWrapped o
  /-- A member that may be left out has a wrapper at its top. -/
  optional : d.optional = true → d.type.isWrapper = true
  /-- In the mode without nullable types no member may be left out. -/
  mode : o.nullability = .none → d.optional = false
  /-- With optional properties every member with a wrapper at its top may be left
  out. -/
  top : o.optionalProperties = true → (d.optional = true ↔ d.type.isWrapper = true)

/-- A member that the policy makes nullable has a wrapper at its top, and only
such a member. -/
theorem Completes.isWrapper_iff {d : MemberDeclaration} (hd : s.Completes o m d)
    (hm : s.types.Issued m.type) : d.type.isWrapper = true ↔ s.memberNullable o m = true := by
  obtain ⟨-, -, e, hwritten, htype⟩ := hd
  rw [htype, TypeExpr.isWrapper_orNullable]
  constructor
  · rintro (hw | ⟨hn, -⟩)
    · by_contra hn
      rw [memberNullable_eq_true_iff hm] at hn
      rw [hwritten.isWrapper_of_not_asks rfl hm hn] at hw
      cases hw
    · exact hn
  · exact fun hn => .inr ⟨hn, mode_of_memberNullable hn⟩

theorem Completes.wraps {d : MemberDeclaration} (hd : s.Completes o m d)
    (hm : s.types.Issued m.type) : Wraps s.options d := by
  have htop := hd.isWrapper_iff hm
  obtain ⟨-, hoptional, e, hwritten, htype⟩ := hd
  rw [Options.isOptional] at hoptional
  refine ⟨?_, fun h => ?_, fun hmode => ?_, fun hproperties => ?_⟩
  · rw [htype]
    exact (hwritten.wellWrapped.orNullable _).orNullable _
  · rw [hoptional, Bool.and_eq_true] at h
    exact htop.2 h.1
  · rw [hoptional, Bool.and_eq_false_iff, ← Bool.not_eq_true]
    exact .inl fun hn => mode_of_memberNullable hn hmode
  · rw [hoptional, hproperties, Bool.and_true, htop]

/-! ## Whole runs -/

/-- In every unit of a run that succeeds no wrapper stands directly inside
another, all wrappers have the form that the options ask for, and without
nullable types there are none.  A member that may be left out has a wrapper at
its top, and with optional properties the two are the same. -/
theorem wraps_once (h : s.Governed r) (hus : s.units = .ok us) {k : UnitId} {U : OutputUnit}
    (hU : us.get? k = some U) : ∀ d ∈ U.declarations, ∀ m ∈ d.members, Wraps s.options m := by
  obtain ⟨st, hst, rfl⟩ := finished_of_units h.lawful hus
  intro d hd m hm
  obtain ⟨p, hp⟩ := Array.mem_iff_getElem?.1 hd
  obtain ⟨o, -, member, -, -, -, hmember, hcompletes, -⟩ := hst.exists_member hU hp hm
  obtain ⟨e, he, hmem⟩ := mem_written hmember
  exact hcompletes.wraps (h.lawful.sound.member he hmem).1

/-- A document in which a `Nullable` stands inside a `Nullable`, in a member, in
a list and in a dictionary. -/
@[irreducible] def nestText : String :=
  r#"[[["object","Nest",[],[["a","int???"],["b","List<int??>?"],["c","Dictionary<string?,Nest?>"],
["d","int"]]]],["Nest"]]"#

/-- The setup of the document. -/
def nest : Setup := ofDocument nestText {} {}

/-- The types of the members in a unit, with whether they may be left out. -/
def memberTexts (U : OutputUnit) : List (Bool × String) :=
  U.declarations.toList.flatMap fun d =>
    d.members.map fun m => (m.optional, m.type.render .typeScript)

theorem nest_checks : loads nestText = true ∧
    (nest.units.map fun us => (us.get? ⟨0⟩).map memberTexts).toOption =
      some (some [(true, "null | number"), (true, "null | (null | number)[]"),
        (true, "null | \x7b [key: null | string]: null | Nest \x7d"), (false, "number")]) := by
  decide +kernel

/-- In the nest no wrapper stands directly inside another. -/
theorem wraps_once_nest : nest.Governed {} ∧ ∃ us U, nest.units = .ok us ∧
    us.get? ⟨0⟩ = some U ∧ (true, "null | (null | number)[]") ∈ memberTexts U ∧
      ∀ d ∈ U.declarations, ∀ m ∈ d.members, Wraps nest.options m := by
  have governed : nest.Governed {} := governed_ofDocument {} nest_checks.1 rfl rfl
  obtain ⟨us, hus, htexts⟩ := exists_units_of_toOption nest_checks.2
  obtain ⟨U, hU, htexts⟩ := Option.map_eq_some_iff.1 htexts
  exact ⟨governed, us, U, hus, hU, by simp [htexts], wraps_once governed hus hU⟩

end Setup

end TypeExport
