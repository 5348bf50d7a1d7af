import TypeExport.Proofs.Correspondence
import TypeExport.Proofs.Paths
import TypeExport.Proofs.Scope

/-!
# Redirected types

A redirected type has no declaration.  Where it stands in the type of a member,
what is written there is the name it is redirected to, and the unit imports that
name from the location (`Setup.honours_redirects`).

There is one exception.  A run asks whether a member may be
null before it refers to the type of the member, and takes up to two outer
`Nullable`s off for that.  It never looks at the decision about one of those
(`Setup.IsPeeled`), although it does in every other slot
(`Setup.exists_redirect_passed_over`).
-/

namespace TypeExport

namespace Setup

variable {s : Setup} {r : Rules} {us : Units} {st : State} {a : Option Attributes}
  {t c : TypeId} {e : TypeExpr} {path : List Slot} {name location : String}

/-- What is written where a redirected type stands is the name it is redirected
to. -/
theorem Written.at?_of_redirects (h : s.Written a t e) (hc : s.At t path c)
    (hr : s.Redirects c name location) : e.at? path = some (.reference name) := by
  induction hc generalizing a e with
  | here =>
    cases h with
    | redirected hr' =>
      rw [(hr'.unique hr).1]
      rfl
    | declared hd => exact absurd hr hd.not_redirects
    | primitive ht | sequence ht | dictionary ht | nullable _ ht | unwrapped _ ht | applied ht
    | parameter ht => exact absurd hr ht.not_redirects
  | element ht _ ih =>
    obtain ⟨e', b, hx, rfl⟩ := h.parts ht
    simpa [TypeExpr.at?, TypeExpr.unwrapped, TypeExpr.part?] using ih hx hr
  | key ht _ ih =>
    obtain ⟨k, v, b, hk, -, rfl⟩ := h.parts ht
    exact ih hk hr
  | value ht _ ih =>
    obtain ⟨k, v, b, -, hv, rfl⟩ := h.parts ht
    simpa [TypeExpr.at?, TypeExpr.unwrapped, TypeExpr.part?] using ih hv hr
  | definition ht _ ih =>
    obtain ⟨d, es, hd, -, rfl⟩ := h.parts ht
    exact ih hd hr
  | argument ht hx _ ih =>
    obtain ⟨d, es, -, has, rfl⟩ := h.parts ht
    obtain ⟨e', b, hx', hget⟩ := has.get? hx
    simpa [TypeExpr.at?, TypeExpr.unwrapped, TypeExpr.part?, hget] using ih hx' hr
  | absent ht _ ih =>
    obtain ⟨a', e', b, hx, rfl⟩ := h.parts ht
    rw [TypeExpr.at?_orNullable]
    exact ih hx hr

/-! ## Members -/

/-- Whether a type is one of the outer `Nullable`s that are taken off the type
of a member. -/
def IsPeeled (s : Setup) (m : Member) (t : TypeId) : Prop :=
  (t = m.type ∨ t = s.types.bare m.type) ∧ ∃ x, s.types.form? t = some (.absent x)

/-- Taking a `Nullable` off a type keeps what a path leads to, if that is not the
`Nullable` itself. -/
theorem At.bare (h : s.At t path c) :
    s.At (s.types.bare t) path c ∨ c = t ∧ ∃ x, s.types.form? t = some (.absent x) := by
  by_cases ha : ∃ x, s.types.form? t = some (.absent x)
  · obtain ⟨x, hx⟩ := ha
    cases h with
    | here => exact .inr ⟨rfl, x, hx⟩
    | absent ht hc =>
      cases Option.some.inj (ht.form?.symm.trans hx)
      rw [Universe.bare_of_absent hx]
      exact .inl hc
    | element ht | key ht | value ht | definition ht | argument ht =>
      cases Option.some.inj (ht.form?.symm.trans hx)
  · rw [Universe.bare_of_ne_absent fun x hx => ha ⟨x, hx⟩]
    exact .inl h

/-- What a path leads to from the type of a member, it leads to from the site of
the member, unless it was peeled off. -/
theorem At.site {m : Member} (h : s.At m.type path c) :
    s.At (s.site m) path c ∨ s.IsPeeled m c := by
  rcases h.bare with hbare | ⟨rfl, hform⟩
  · rcases hbare.bare with hsite | ⟨rfl, hform⟩
    · exact .inl hsite
    · exact .inr ⟨.inr rfl, hform⟩
  · exact .inr ⟨.inl rfl, hform⟩

/-- Whether a declaration of a member in a unit is written by the redirects of
all types in the type of the member that are not peeled off, and the unit
imports them. -/
structure Honours (s : Setup) (U : OutputUnit) (m : Member) (d : MemberDeclaration) : Prop where
  name : d.name = lowerCamel m.name
  /-- The type, but for what says that a value may be null. -/
  translates : s.Translates (s.site m) d.type.erase
  redirect : ∀ path t name location, s.At m.type path t → s.Redirects t name location →
    s.IsPeeled m t ∨
      d.type.at? path = some (.reference name) ∧ ⟨name, .external location⟩ ∈ U.imports

namespace Finished

variable {k : UnitId} {p : Nat} {U : OutputUnit} {d : Declaration} {o : TypeId}

/-- The declaration of an object honours redirects. -/
theorem honours (h : s.Finished st) {parameters : List TypeId}
    (ht : s.Treats o (.object parameters)) (ho : (st.placed k)[p]? = some o)
    (hU : st.units.get? k = some U) (hd : U.declarations[p]? = some d) :
    ∃ members, d = .object (s.types.nameOf o) (parameters.map s.types.nameOf) members ∧
      List.Forall₂ (s.Honours U) (s.written o) members := by
  obtain ⟨members, rfl, hmembers, -, hsupplied⟩ := h.declaration_of_object ht ho hU hd
  have hmem : ∀ m ∈ s.written o, m ∈ s.written o := fun _ hm => hm
  refine ⟨members, rfl, ((List.forall₂_and_left _ _).2 ⟨hmem, hmembers⟩).imp ?_⟩
  rintro m md ⟨hm, hname, -, e, hwritten, htype⟩
  refine ⟨hname, ?_, fun path t name location hat hr => ?_⟩
  · rw [htype, TypeExpr.erase_orNullable, TypeExpr.erase_orNullable]
    exact hwritten.translates
  rcases hat.site with hsite | hpeeled
  · refine .inr ⟨?_, ?_⟩
    · rw [htype, TypeExpr.at?_orNullable, TypeExpr.at?_orNullable]
      exact hwritten.at?_of_redirects hsite hr
    · obtain ⟨σ, hσ, himport⟩ := hsupplied t ⟨parameters, m, ht, hm, hsite.mentions⟩
      obtain ⟨V, hV, hmem⟩ :=
        himport _ ((h.settled.consistent.suits hσ).import?_of_redirects hr)
      cases hU.symm.trans hV
      exact hmem
  · exact .inl hpeeled

/-- A function that gives every declaration its type. -/
theorem exists_owner (h : s.Finished st) : ∃ owner : UnitId × Nat → TypeId,
    ∀ place ∈ st.units.places, (st.placed place.1)[place.2]? = some (owner place) := by
  have each : ∀ place : UnitId × Nat, ∃ t, place ∈ st.units.places →
      (st.placed place.1)[place.2]? = some t := by
    rintro ⟨k, p⟩
    by_cases hplace : (k, p) ∈ st.units.places
    · obtain ⟨U, d, hU, hd⟩ := hplace
      obtain ⟨t, ht, -⟩ := h.settled.consistent.type_of_declaration hU hd
      exact ⟨t, fun _ => ht⟩
    · exact ⟨⟨0⟩, fun h => absurd h hplace⟩
  choose owner howner using each
  exact ⟨owner, howner⟩

end Finished

/-! ## Whole runs -/

/-- The declarations of a run that succeeds belong to different types, and none
of them is redirected.  In the type of a member a redirected type is written by
the name that it is redirected to, which the unit imports from the location,
unless it is a `Nullable` that is peeled off. -/
theorem honours_redirects (h : s.Governed r) (hus : s.units = .ok us) :
    ∃ owner : UnitId × Nat → TypeId, Set.InjOn owner us.places ∧
      ∀ k p U d, us.get? k = some U → U.declarations[p]? = some d →
        s.DeclaredAt us (owner (k, p)) (k, p) ∧
        (∀ name location, ¬ s.Redirects (owner (k, p)) name location) ∧
        ∀ parameters, s.Treats (owner (k, p)) (.object parameters) →
          ∃ members, d = .object (s.types.nameOf (owner (k, p)))
              (parameters.map s.types.nameOf) members ∧
            List.Forall₂ (s.Honours U) (s.written (owner (k, p))) members := by
  obtain ⟨st, hst, rfl⟩ := finished_of_units h.lawful hus
  obtain ⟨owner, howner⟩ := hst.exists_owner
  refine ⟨owner, ?_, fun k p U d hU hd => ?_⟩
  · intro place hplace place' hplace' hsame
    have hp := howner place hplace
    rw [hsame] at hp
    obtain ⟨hk, hp⟩ := hst.settled.consistent.place_unique hp (howner place' hplace')
    exact Prod.ext hk hp
  · have hp := howner (k, p) ⟨U, d, hU, hd⟩
    obtain ⟨V, d', hV, hd', hloc, hname, houtline⟩ := hst.declaredAt hp
    exact ⟨⟨V, d', hV, hd', hloc, hname, houtline⟩, fun _ _ => houtline.not_redirects,
      fun parameters ht => hst.honours ht hp hU hd⟩

/-- A shop declares none of the types that it redirects, and writes them by the
names they are redirected to. -/
theorem honours_redirects_shop : shop.Governed shopRules ∧ ∃ us, shop.units = .ok us ∧
    ∃ owner : UnitId × Nat → TypeId, Set.InjOn owner us.places ∧
      ∀ k p U d, us.get? k = some U → U.declarations[p]? = some d →
        (∀ name location, ¬ shop.Redirects (owner (k, p)) name location) ∧
        ∀ parameters, shop.Treats (owner (k, p)) (.object parameters) →
          ∃ members, List.Forall₂ (shop.Honours U) (shop.written (owner (k, p))) members := by
  obtain ⟨us, hus, -⟩ := exists_shop_units
  obtain ⟨owner, hinj, howner⟩ := honours_redirects shop_governed hus
  refine ⟨shop_governed, us, hus, owner, hinj, fun k p U d hU hd => ?_⟩
  obtain ⟨-, hredirect, hmembers⟩ := howner k p U d hU hd
  refine ⟨hredirect, fun parameters ht => ?_⟩
  obtain ⟨members, -, hhonours⟩ := hmembers parameters ht
  exact ⟨members, hhonours⟩

/-! ## A redirect that is passed over -/

/-- What a rule redirects is redirected, if no other rule is about it. -/
theorem Governed.redirects (h : s.Governed r) {d : Descriptor} {rule : RedirectRule}
    (hd : s.types.get? t = some d) (hrule : r.redirecting d.key = [rule]) :
    s.Redirects t rule.name rule.location := by
  refine ⟨d, hd, ?_⟩
  rw [h.override]
  rcases Rules.override_cases h.behaviours d with ⟨hnone, -⟩ | ⟨rule', hrule', heq⟩ | ⟨hlt, -⟩
  · cases hrule.symm.trans hnone
  · cases hrule.symm.trans hrule'
    exact heq
  · rw [hrule] at hlt
    exact absurd hlt (Nat.lt_irrefl 1)

/-- A class with a number that may be absent, alone and in a list. -/
@[irreducible] def gapText : String :=
  r#"[[["object","Gap",[],[["one","int?"],["all","List<int?>"]]]],["Gap"]]"#

/-- A rule that redirects such numbers. -/
def gapRules : Rules where
  redirects := [⟨"System.Nullable`1<System.Int32>", "Absent", "./absent"⟩]

/-- The setup of the document under the rule. -/
def gap : Setup := ofDocument gapText {} gapRules

theorem gap_checks : loads gapText = true ∧
    (gap.units.map fun us => us.all.any fun U => U.declarations.any fun d =>
      d.members.any fun md => (gap.written ⟨0⟩).any fun m =>
        md.name = lowerCamel m.name && !md.type.names.contains "Absent" &&
          (gap.types.get? m.type).any (·.key = "System.Nullable`1<System.Int32>")).toOption =
      some true := by
  decide +kernel

/-- A member whose type is redirected may be written without the name that the
type is redirected to. -/
theorem exists_redirect_passed_over : gap.Governed gapRules ∧ ∃ us, gap.units = .ok us ∧
    ∃ U ∈ us.all, ∃ d ∈ U.declarations, ∃ md ∈ d.members, ∃ m ∈ gap.written ⟨0⟩,
      md.name = lowerCamel m.name ∧ gap.Redirects m.type "Absent" "./absent" ∧
        "Absent" ∉ md.type.names := by
  have governed := governed_ofDocument (r := gapRules) {} gap_checks.1 rfl rfl
  obtain ⟨us, hus, hany⟩ := exists_units_of_toOption gap_checks.2
  simp only [Array.any_eq_true', List.any_eq_true, Bool.and_eq_true, decide_eq_true_eq,
    Option.any_eq_true, Bool.not_eq_true', List.contains_eq_mem, decide_eq_false_iff_not]
    at hany
  obtain ⟨U, hU, d, hd, md, hmd, m, hm, ⟨hname, hnot⟩, t, ht, hkey⟩ := hany
  refine ⟨governed, us, hus, U, hU, d, hd, md, hmd, m, hm, hname, ?_, hnot⟩
  have hrule : gapRules.redirecting t.key = [⟨t.key, "Absent", "./absent"⟩] := by
    rw [hkey]
    rfl
  exact governed.redirects ht hrule

end Setup

end TypeExport
