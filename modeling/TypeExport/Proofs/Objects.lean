import TypeExport.Proofs.Run.Finished
import TypeExport.Proofs.Translation

/-!
# Declared objects are complete

When a run succeeds, every object that it declares has its type parameters in
order, and a member for each member of the type that is not left out, in order
(`Setup.complete_objects`).  The type of a member is the translation of its
source, and says at its top that a value may be null exactly where the use site
may be (`Setup.AsksNullable`).
-/

namespace TypeExport

/-- Whether a mode makes a reference type at a member nullable. -/
def NullabilityMode.Asks (a : Attributes) : NullabilityMode → Prop
  | .none => False
  | .pessimistic => a.has .notNull = false ∧ a.has .required = false
  | .optIn => a.has .canBeNull = true
  | .nullableReference => a.flags.head? = some nullableFlag

/-- The rule of a mode, for a reference type. -/
theorem annotatedNullable_iff {mode : NullabilityMode} {a : Attributes} {d : Descriptor}
    (hd : d.isValueType = false) : annotatedNullable mode a d = true ↔ mode.Asks a := by
  cases mode with
  | none => simp [annotatedNullable, NullabilityMode.Asks]
  | pessimistic => simp [annotatedNullable, NullabilityMode.Asks]
  | optIn => simp [annotatedNullable, NullabilityMode.Asks]
  | nullableReference =>
    rw [annotatedNullable, flaggedNullable, NullabilityMode.Asks, hd]
    cases hflags : a.flags with
    | nil => simp
    | cons flag flags => simp +contextual

namespace Setup

variable {s : Setup} {r : Rules} {us : Units} {t o : TypeId} {m : Member}

/-- Whether a member of a type may be null: its type is a closed `Nullable`, or
a reference type that the mode makes nullable. -/
def AsksNullable (s : Setup) (o : TypeId) (m : Member) : Prop :=
  s.options.nullability ≠ .none ∧
    ((∃ x, s.types.form? m.type = some (.absent x)) ∨
      ∃ d, s.types.get? m.type = some d ∧ d.isValueType = false ∧
        s.options.nullability.Asks (s.attributesOf o m))

/-- Whether a declaration is that of a member, said of the whole type of the
member. -/
structure Describes (s : Setup) (o : TypeId) (m : Member) (d : MemberDeclaration) : Prop where
  name : d.name = lowerCamel m.name
  /-- Whether it may be left out. -/
  optional : d.optional = true ↔ s.AsksNullable o m ∧ s.options.optionalProperties = true
  /-- The type, but for what says that a value may be null. -/
  translates : s.Translates m.type d.type.erase
  /-- What says that a value may be null. -/
  nullable : d.type.IsNullableBy s.options ∧ s.AsksNullable o m ∨
    d.type.isWrapper = false ∧ ¬ s.AsksNullable o m

/-- Whether a declaration is that of an object, with all its members. -/
def DeclaresObject (s : Setup) (o : TypeId) (d : Declaration) : Prop :=
  ∃ parameters members, s.Treats o (.object parameters) ∧
    d = .object (s.types.nameOf o) (parameters.map s.types.nameOf) members ∧
    List.Forall₂ (s.Describes o) (s.written o) members ∧ (members.map (·.name)).Nodup

/-! ## Members -/

/-- A `Nullable` is translated as its underlying type. -/
theorem Translates.of_bare (h : s.PeelsNullable) {e : TypeExpr}
    (ht : s.Translates (s.types.bare t) e) : s.Translates t e := by
  by_cases ha : ∃ x, s.types.form? t = some (.absent x)
  · obtain ⟨x, hx⟩ := ha
    rw [Universe.bare_of_absent hx] at ht
    exact .absent (h t x hx) ht
  · rwa [Universe.bare_of_ne_absent fun x hx => ha ⟨x, hx⟩] at ht

/-- A use site may be null when its annotations say so. -/
theorem memberNullable_iff (hm : s.types.Issued m.type) :
    s.memberNullable o m = true ∧ s.options.nullability ≠ .none ↔ s.AsksNullable o m := by
  obtain ⟨d, hd⟩ := Universe.issued_iff.1 hm
  unfold memberNullable Universe.siteNullable AsksNullable
  rw [hd]
  split
  · rename_i x hx
    simp [hx]
  · rename_i hother
    have hform : ¬ ∃ x, s.types.form? m.type = some (.absent x) := fun ⟨x, hx⟩ => hother x hx
    simp only [hform, false_or, Option.some.injEq, exists_eq_left', Bool.and_eq_true,
      Bool.not_eq_true']
    rw [and_comm]
    exact and_congr_right fun _ => and_congr_right fun hvalue => annotatedNullable_iff hvalue

/-- Nothing may be null in the mode without nullable types. -/
theorem mode_of_memberNullable (h : s.memberNullable o m = true) :
    s.options.nullability ≠ .none := by
  intro hmode
  unfold memberNullable Universe.siteNullable at h
  rw [hmode] at h
  split at h
  · simp at h
  · split at h
    · simp [annotatedNullable] at h
    · cases h

theorem memberNullable_eq_true_iff (hm : s.types.Issued m.type) :
    s.memberNullable o m = true ↔ s.AsksNullable o m := by
  rw [← memberNullable_iff hm]
  exact ⟨fun hn => ⟨hn, mode_of_memberNullable hn⟩, fun hn => hn.1⟩

/-- Where a use site may not be null, neither may the site without its outer
`Nullable`s. -/
theorem Written.isWrapper_of_not_asks {a : Option Attributes} {e : TypeExpr}
    (h : s.Written a (s.site m) e) (ha : a = some (s.attributesOf o m))
    (hm : s.types.Issued m.type) (hasks : ¬ s.AsksNullable o m) :
    (e.orNullable (s.types.siteNullable s.options.nullability a (s.types.bare m.type))
      s.options).isWrapper = false := by
  rw [Bool.eq_false_iff, Ne, TypeExpr.isWrapper_orNullable, not_or, Bool.not_eq_true]
  by_cases hform : ∃ x, s.types.form? m.type = some (.absent x)
  · -- a `Nullable` may be null unless nothing may
    have hmode : s.options.nullability = .none := by
      by_contra hmode
      exact hasks ⟨hmode, .inl hform⟩
    exact ⟨h.isWrapper_of_mode hmode, fun hn => hn.2 hmode⟩
  · have hne : ∀ x, s.types.form? m.type ≠ some (.absent x) := fun x hx => hform ⟨x, hx⟩
    have hbare : s.types.bare m.type = m.type := Universe.bare_of_ne_absent hne
    rw [site, hbare, hbare] at h
    rw [hbare, ha]
    exact ⟨h.isWrapper_eq_false hne, fun hn => hasks ((memberNullable_iff hm).1 hn)⟩

/-- A completed member is described by its declaration. -/
theorem Completes.describes (h : s.PeelsNullable) (hm : s.types.Issued m.type)
    {d : MemberDeclaration} (hd : s.Completes o m d) : s.Describes o m d := by
  obtain ⟨hname, hoptional, e, hwritten, htype⟩ := hd
  have hasks := memberNullable_eq_true_iff (o := o) hm
  refine ⟨hname, ?_, ?_, ?_⟩
  · rw [hoptional, Options.isOptional, Bool.and_eq_true, hasks]
  · rw [htype, TypeExpr.erase_orNullable, TypeExpr.erase_orNullable]
    exact (hwritten.translates.of_bare h).of_bare h
  · rw [htype]
    by_cases hn : s.AsksNullable o m
    · refine .inl ⟨?_, hn⟩
      refine .orNullable (.orNullable hwritten.isNullableBy) ?_
      rw [TypeExpr.isWrapper_orNullable]
      exact .inr ⟨hasks.2 hn, hn.1⟩
    · refine .inr ⟨?_, hn⟩
      have hsame : s.memberNullable o m = false := by
        rw [Bool.eq_false_iff, Ne, hasks]
        exact hn
      rw [Bool.eq_false_iff, Ne, TypeExpr.isWrapper_orNullable,
        hwritten.isWrapper_of_not_asks rfl hm hn, hsame]
      simp

/-! ## Objects -/

namespace Finished

variable {st : State} {k : UnitId} {p : Nat} {U : OutputUnit} {d : Declaration}

/-- The declaration at the place of an object is complete. -/
theorem declaresObject (h : s.Finished st) (L : s.Lawful) (hp : s.PeelsNullable)
    {parameters : List TypeId} (ht : s.Treats o (.object parameters))
    (ho : (st.placed k)[p]? = some o) (hU : st.units.get? k = some U)
    (hd : U.declarations[p]? = some d) : s.DeclaresObject o d := by
  obtain ⟨members, rfl, hmembers, hnodup, -⟩ := h.declaration_of_object ht ho hU hd
  refine ⟨parameters, members, ht, rfl, ?_, hnodup⟩
  have issued : ∀ m ∈ s.written o, s.types.Issued m.type := by
    intro m hm
    obtain ⟨e, he, hmem⟩ := mem_written hm
    exact (L.sound.member he hmem).1
  refine ((List.forall₂_and_left _ _).2 ⟨issued, hmembers⟩).imp fun m d hboth => ?_
  exact hboth.2.describes hp hboth.1

end Finished

/-- A run that succeeds declares every reachable object with all its members,
and no other object. -/
theorem complete_objects (h : s.Governed r) (hr : s.RedirectsDeclared r)
    (hus : s.units = .ok us) :
    (∀ o parameters, s.Reachable o → s.Treats o (.object parameters) →
      ∃ k U d, us.get? k = some U ∧ d ∈ U.declarations ∧ s.Locates o U.location ∧
        s.DeclaresObject o d) ∧
      ∀ k U name names members, us.get? k = some U →
        .object name names members ∈ U.declarations →
        ∃ o, s.Reachable o ∧ s.Locates o U.location ∧
          s.DeclaresObject o (.object name names members) := by
  obtain ⟨st, hst, rfl⟩ := finished_of_units h.lawful hus
  have consistent := hst.settled.consistent
  have peels := h.peelsNullable hr
  constructor
  · intro o parameters hreach ht
    have hd : s.Outlines o (.object (s.types.nameOf o) (parameters.map s.types.nameOf) []) :=
      ⟨_, ht, rfl⟩
    obtain ⟨k, p, hp⟩ := hst.placed ((resolved_iff_reachable peels hd.bare).2 hreach) hd
    obtain ⟨U, d, hU, hloc, hget, -⟩ := consistent.declaration_of_type hp
    exact ⟨k, U, d, hU, Array.mem_of_getElem? hget, hloc,
      hst.declaresObject h.lawful peels ht hp hU hget⟩
  · intro k U name names members hU hmem
    obtain ⟨p, hget⟩ := Array.mem_iff_getElem?.1 hmem
    obtain ⟨o, hp, houtline⟩ := consistent.type_of_declaration hU hget
    obtain ⟨parameters, ht⟩ := Outlines.object houtline
    obtain ⟨V, -, hV, hloc, -⟩ := consistent.declaration_of_type hp
    cases hU.symm.trans hV
    obtain ⟨σ, hσ, -⟩ := mem_placed.1 (List.mem_of_getElem? hp)
    exact ⟨o, (consistent.resolved hσ).reachable peels, hloc,
      hst.declaresObject h.lawful peels ht hp hU hget⟩

/-- A shop declares its pages with all their members. -/
theorem complete_objects_shop : shop.Governed shopRules ∧ shop.RedirectsDeclared shopRules ∧
    ∃ us, shop.units = .ok us ∧
      ∀ o parameters, shop.Reachable o → shop.Treats o (.object parameters) →
        ∃ k U d, us.get? k = some U ∧ d ∈ U.declarations ∧ shop.Locates o U.location ∧
          shop.DeclaresObject o d := by
  obtain ⟨us, hus, -⟩ := exists_shop_units
  exact ⟨shop_governed, shop_redirectsDeclared, us, hus,
    (complete_objects shop_governed shop_redirectsDeclared hus).1⟩

end Setup

end TypeExport
