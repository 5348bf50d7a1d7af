import TypeExport.Proofs.Document.Faithful
import TypeExport.Proofs.Scope
import TypeExport.Proofs.Universe.Meaning

/-!
# The names inside a declaration

When a run succeeds, the members of a declaration have distinct names.  Its type
parameters and its values are those that an entry of the document lists, and
nothing compares them: a name that the entry lists twice stands twice in the
declaration (`Setup.names_in_declarations`).

A type parameter is written by the name of the type that has its key.  That is
the parameter itself unless a name of the document has a colon
(`Document.Crosses.colon`).
-/

namespace TypeExport

open Universe

namespace Declaration

/-- The names in a declaration that the document fixes: the type parameters of
an object, the values of an enumeration. -/
def listed : Declaration → List String
  | object _ parameters _ => parameters
  | enumeration _ values | fixedStrings _ values _ => values

/-- Whether no name stands twice inside a declaration. -/
structure Distinct (d : Declaration) : Prop where
  members : (d.members.map (·.name)).Nodup
  listed : d.listed.Nodup

theorem listed_withMembers (members : List MemberDeclaration) (d : Declaration) :
    (d.withMembers members).listed = d.listed := by
  cases d <;> rfl

end Declaration

/-- The type parameters or the values of an entry. -/
def TypeEntry.listed : TypeEntry → List String
  | object _ parameters .. => parameters
  | struct .. => []
  | enumeration _ values => values

/-- Whether the key of a type parameter is also that of a declared type, or of a
type parameter with another name. -/
def Document.Crosses (d : Document) (t : TypeEntry) (p : String) : Prop :=
  ∃ t' ∈ d.types, t'.key = t.parameterKey p ∨
    ∃ q ∈ t'.parameters, q ≠ p ∧ t'.parameterKey q = t.parameterKey p

/-! ## Keys of type parameters -/

variable {d : Document} {t : TypeEntry} {p : String}

theorem TypeEntry.colon_not_mem_key (h : ':' ∉ t.name.toList) : ':' ∉ t.key.toList := by
  by_cases harity : t.arity = 0
  · rwa [TypeEntry.key, declaredKey_of_eq_zero harity]
  · rw [TypeEntry.key, declaredKey_of_ne_zero harity]
    exact colon_not_mem_genericKey h t.arity

/-- Only names with colons make two types have one key. -/
theorem Document.Crosses.colon (h : d.Crosses t p) (ht : t ∈ d.types) :
    ∃ t' ∈ d.types, ':' ∈ t'.name.toList := by
  by_contra hnone
  have plain : ∀ t' ∈ d.types, ':' ∉ t'.key.toList := fun t' ht' =>
    TypeEntry.colon_not_mem_key fun hcolon => hnone ⟨t', ht', hcolon⟩
  obtain ⟨t', ht', hkey | ⟨q, -, hne, hkey⟩⟩ := h
  · refine plain t' ht' ?_
    rw [hkey]
    simp [TypeEntry.parameterKey]
  · have hsplit : t'.key.toList ++ ':' :: q.toList = t.key.toList ++ ':' :: p.toList := by
      simpa [TypeEntry.parameterKey] using congrArg String.toList hkey
    exact hne (String.toList_inj.1 (append_cons_inj (plain t' ht') (plain t ht) hsplit).2)

namespace Builder

/-! ## Types of a loaded document -/

variable {v w : Universe} {owners roots : List TypeId} {id : TypeId} {e : Descriptor}

/-- A declared type is that of an entry. -/
theorem Loads.exists_entry (h : Loads {} v w d owners roots) (he : w.get? id = some e)
    (hkind : e.kind.IsDeclared) : ∃ t ∈ d.types, w.Describes t id e := by
  rcases h.amends.added he with hissued | hintrinsic
  · obtain ⟨f, hf⟩ := issued_iff.1 hissued
    obtain ⟨members, context, he'⟩ := h.amends.type hf
    cases he.symm.trans he'
    rcases h.declares.other hf with hold | howner | ⟨_, _, _, _, hparameter⟩
    · simp [get?] at hold
    · obtain ⟨t, ht, e', hdescribes⟩ := exists_of_mem_forall₂ h.described howner
      cases hdescribes.type.symm.trans he
      exact ⟨t, ht, hdescribes⟩
    · obtain ⟨position, hparameter⟩ := hparameter.kind
      rw [hparameter] at hkind
      exact hkind.elim
  · unfold Descriptor.IsIntrinsic at hintrinsic
    generalize e.kind = kind at hkind hintrinsic
    cases kind with
    | object | enumeration => exact hintrinsic.elim
    | builtin | container | array | closed | parameter => exact hkind.elim

/-- The key of a type parameter is known where the types are declared. -/
theorem exists_lookup_parameter (h : v.Declared t id e) (hp : p ∈ t.parameters) :
    ∃ x, v.lookup? (t.parameterKey p) = some x := by
  have hshape := h.shape
  cases t with
  | object name names members context =>
    obtain ⟨ids, -, -, hids⟩ := hshape
    obtain ⟨x, -, hx⟩ := exists_of_forall₂_mem hids hp
    exact ⟨x, hx⟩
  | struct | enumeration => cases hp

/-- The type that has the key of a type parameter is named like the parameter,
unless it is another type. -/
theorem Loads.nameOf_parameter (h : Loads {} v w d owners roots) (ht : t ∈ d.types)
    (hp : p ∈ t.parameters) (hl : w.lookup? (t.parameterKey p) = some id) :
    w.nameOf id = p ∨ d.Crosses t p := by
  obtain ⟨owner, -, o, hdeclared, -⟩ := exists_of_forall₂_mem h.declares.stored ht
  obtain ⟨x, hx⟩ := exists_lookup_parameter hdeclared hp
  cases (h.amends.lookup hx).symm.trans hl
  obtain ⟨f, hf, hkey⟩ := get?_of_lookup? hx
  obtain ⟨members, context, hlater⟩ := h.amends.type hf
  rw [nameOf_of_get? hlater]
  rcases h.declares.other hf with hold | howner | ⟨t', ht', _, _, hparameter⟩
  · simp [get?] at hold
  · obtain ⟨t', ht', f', hdeclared', -⟩ := exists_of_mem_forall₂ h.declares.stored howner
    cases hdeclared'.type.symm.trans hf
    exact .inr ⟨t', ht', .inl (hdeclared'.key.symm.trans hkey)⟩
  · by_cases hname : f.name = p
    · exact .inl hname
    · exact .inr ⟨t', ht', .inr ⟨f.name, hparameter.name, hname, hparameter.key.symm.trans hkey⟩⟩

end Builder

namespace Setup

variable {s : Setup} {r : Rules} {us : Units} {text : String} {owners roots : List TypeId}
  {v : Universe} {o : TypeId} {e : Descriptor} {D : Declaration}

/-! ## Declarations of entries -/

/-- Whether a declaration is that of an entry, with the names that the entry
lists. -/
structure DeclaresEntry (s : Setup) (d : Document) (t : TypeEntry) (D : Declaration) : Prop where
  /-- The type of the entry is declared. -/
  outline : ∃ o e, s.types.Describes t o e ∧ s.Outlines o (D.withMembers [])
  /-- A name that the entry lists twice stands twice in the declaration. -/
  repeats : D.listed.Nodup → t.listed.Nodup
  /-- The names are those that the entry lists. -/
  names : D.listed = t.listed ∨ ∃ p ∈ t.parameters, d.Crosses t p

/-- What is declared is a type of the document. -/
theorem Outlines.isDeclared (h : s.Outlines o D) :
    ∃ e, s.types.get? o = some e ∧ e.kind.IsDeclared := by
  obtain ⟨form, ⟨e, he, -, hform⟩, ho⟩ := h
  refine ⟨e, he, ?_⟩
  generalize e.kind = kind at hform
  cases Universe.hasForm_of_eq hform with
  | object | enumeration => trivial
  | _ => cases ho

/-- The name of the type that has the key of a type parameter. -/
def parameterName (s : Setup) (t : TypeEntry) (p : String) : String :=
  ((s.types.lookup? (t.parameterKey p)).map s.types.nameOf).getD ""

theorem map_nameOf_parameters {names : List String} {ids : List TypeId}
    (h : List.Forall₂ (fun p id => s.types.lookup? (t.parameterKey p) = some id) names ids) :
    ids.map s.types.nameOf = names.map (s.parameterName t) := by
  induction h with
  | nil => rfl
  | cons hid _ ih => simp [ih, parameterName, hid]

theorem map_name_numbered (values : List String) :
    (values.mapIdx fun i name => (⟨name, i⟩ : EnumValue)).map (·.name) = values :=
  List.ext_getElem (by simp) (by simp)

/-- The outline of an entry has the names that it lists. -/
theorem Outlines.listed (h : s.Outlines o D) (hL : Builder.Loads {} v s.types d owners roots)
    (ht : t ∈ d.types) (hdescribes : s.types.Describes t o e) :
    (D.listed.Nodup → t.listed.Nodup) ∧
      (D.listed = t.listed ∨ ∃ p ∈ t.parameters, d.Crosses t p) := by
  have hname : ∀ p ∈ t.parameters, s.parameterName t p = p ∨ d.Crosses t p := by
    intro p hp
    obtain ⟨x, hx⟩ := Builder.exists_lookup_parameter hdescribes.toDeclared hp
    have hwritten := hL.nameOf_parameter ht hp hx
    rwa [parameterName, hx, Option.map_some, Option.getD_some]
  obtain ⟨form, ⟨e', he', -, rfl⟩, ho⟩ := h
  cases he'.symm.trans hdescribes.type
  have hshape := hdescribes.shape
  cases t with
  | object name names members context =>
    obtain ⟨ids, hkind, -, hids⟩ := hshape
    rw [hkind] at ho
    cases Option.some.inj ho
    show ((ids.map s.types.nameOf).Nodup → names.Nodup) ∧
      (ids.map s.types.nameOf = names ∨ ∃ p ∈ names, _)
    rw [map_nameOf_parameters hids]
    refine ⟨List.Nodup.of_map _, ?_⟩
    by_cases hcross : ∃ p ∈ names, d.Crosses (.object name names members context) p
    · exact .inr hcross
    · refine .inl ((List.map_congr_left fun p hp => ?_).trans (List.map_id names))
      exact (hname p hp).resolve_right fun hp' => hcross ⟨p, hp, hp'⟩
  | struct =>
    rw [hshape.1] at ho
    cases Option.some.inj ho
    exact ⟨fun _ => .nil, .inl rfl⟩
  | enumeration name values =>
    have hvalues : D.listed = values := by
      rw [hshape.1, Universe.formOf, outline] at ho
      split at ho <;> cases Option.some.inj ho <;> exact map_name_numbered values
    rw [hvalues]
    exact ⟨fun hnodup => hnodup, .inl rfl⟩

/-- The members of a declaration have distinct names. -/
theorem Finished.nodup_names_of_members {st : State} {k : UnitId} {U : OutputUnit}
    (h : s.Finished st) (hU : st.units.get? k = some U) (hD : D ∈ U.declarations) :
    (D.members.map (·.name)).Nodup := by
  obtain ⟨p, hp⟩ := Array.mem_iff_getElem?.1 hD
  obtain ⟨o, ho, houtline⟩ := h.settled.consistent.type_of_declaration hU hp
  cases D with
  | object name names members =>
    obtain ⟨parameters, ht⟩ := Outlines.object houtline
    obtain ⟨members', heq, -, hnodup, -⟩ := h.declaration_of_object ht ho hU hp
    cases heq
    exact hnodup
  | enumeration | fixedStrings => exact .nil

/-- In a run that succeeds the members of a declaration have distinct names, and
the other names in it are those that an entry of the document lists: distinct
when the entry lists distinct ones, and not otherwise. -/
theorem names_in_declarations (h : s.Governed r)
    (hload : Builder.loadText text {} = .ok roots s.types) (hus : s.units = .ok us) :
    ∃ d, Document.ofText? text = some d ∧
      ∀ k U D, us.get? k = some U → D ∈ U.declarations →
        (D.members.map (·.name)).Nodup ∧ ∃ t ∈ d.types, s.DeclaresEntry d t D ∧
          ((∀ t' ∈ d.types, ':' ∉ t'.name.toList) → (D.Distinct ↔ t.listed.Nodup)) := by
  obtain ⟨st, hst, rfl⟩ := finished_of_units h.lawful hus
  obtain ⟨d, owners, v, hd, hloads⟩ := Builder.loads_of_loadText hload
  refine ⟨d, hd, fun k U D hU hD => ?_⟩
  have hmembers := hst.nodup_names_of_members hU hD
  obtain ⟨p, hp⟩ := Array.mem_iff_getElem?.1 hD
  obtain ⟨o, -, houtline⟩ := hst.settled.consistent.type_of_declaration hU hp
  obtain ⟨e, he, hkind⟩ := houtline.isDeclared
  obtain ⟨t, ht, hdescribes⟩ := hloads.exists_entry he hkind
  have hlisted := houtline.listed hloads ht hdescribes
  rw [Declaration.listed_withMembers] at hlisted
  have hentry : s.DeclaresEntry d t D := ⟨⟨o, e, hdescribes, houtline⟩, hlisted.1, hlisted.2⟩
  refine ⟨hmembers, t, ht, hentry, fun hcolon => ?_⟩
  have hsame : D.listed = t.listed := hentry.names.resolve_right fun ⟨p, _, hcross⟩ =>
    have ⟨t', ht', hmem⟩ := hcross.colon ht
    hcolon t' ht' hmem
  exact ⟨fun hD => hsame ▸ hD.listed, fun ht => ⟨hmembers, hsame ▸ ht⟩⟩

/-! ## Names that stand twice -/

/-- A document that lists a value twice, and a type parameter twice. -/
@[irreducible] def twiceText : String :=
  r#"[[["enum","State",["Open","Open"]],["object","Pair",["T","T"],[["Left","T"]]]],
["State","Pair<int, string>"]]"#

/-- The setup of the document. -/
def twice : Setup := ofDocument twiceText {} {}

theorem twice_checks : loads twiceText = true ∧
    (twice.units.map fun us => us.all.toList.flatMap fun U =>
      U.declarations.toList.map (·.listed)).toOption = some [["Open", "Open"], ["T", "T"]] := by
  decide +kernel

/-- A run declares an enumeration with a value that stands twice, and an object
with such a type parameter. -/
theorem exists_not_distinct_twice : twice.Governed {} ∧ ∃ us, twice.units = .ok us ∧
    ∃ U ∈ us.all, ∃ D ∈ U.declarations, ¬ D.Distinct := by
  obtain ⟨us, hus, hlisted⟩ := exists_units_of_toOption twice_checks.2
  refine ⟨governed_ofDocument {} twice_checks.1 rfl rfl, us, hus, ?_⟩
  have hmem : ["Open", "Open"] ∈ us.all.toList.flatMap fun U =>
      U.declarations.toList.map (·.listed) := by
    rw [hlisted]
    exact List.mem_cons_self
  obtain ⟨U, hU, hD⟩ := List.mem_flatMap.1 hmem
  obtain ⟨D, hD, hsame⟩ := List.mem_map.1 hD
  refine ⟨U, Array.mem_toList_iff.1 hU, D, Array.mem_toList_iff.1 hD, fun hdistinct => ?_⟩
  have hnodup := hdistinct.listed
  rw [hsame] at hnodup
  exact absurd hnodup (by decide)

/-- The names in the declarations of a shop are distinct. -/
theorem names_in_declarations_shop : shop.Governed shopRules ∧
    ∃ roots us d, Builder.loadText shopText {} = .ok roots shop.types ∧ shop.units = .ok us ∧
      Document.ofText? shopText = some d ∧
      ∀ k U D, us.get? k = some U → D ∈ U.declarations →
        (D.members.map (·.name)).Nodup ∧ ∃ t ∈ d.types, shop.DeclaresEntry d t D := by
  obtain ⟨us, hus, -⟩ := exists_shop_units
  have hload : ∃ roots, Builder.loadText shopText {} = .ok roots shop.types := by
    have hloads := shop_checks.1
    unfold loads at hloads
    unfold shop ofDocument
    split at hloads
    · next roots types hok =>
      rw [hok]
      exact ⟨roots, rfl⟩
    · cases hloads
  obtain ⟨roots, hload⟩ := hload
  obtain ⟨d, hd, hnames⟩ := names_in_declarations shop_governed hload hus
  refine ⟨shop_governed, roots, us, d, hload, hus, hd, fun k U D hU hD => ?_⟩
  obtain ⟨hmembers, t, ht, hentry, -⟩ := hnames k U D hU hD
  exact ⟨hmembers, t, ht, hentry⟩

end Setup

end TypeExport
