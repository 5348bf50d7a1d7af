import TypeExport.Proofs.Correspondence
import TypeExport.Proofs.Names
import TypeExport.Proofs.Run.Finished
import TypeExport.Proofs.Universe.Key

/-!
# Names are in scope

When a run succeeds, a name in a member of a declaration is primitive, a type
parameter of the declaration, declared in the unit or imported into it.  What
is imported from another unit is declared there, and no import is without use
(`Setup.names_in_scope`).

That a type parameter is one of the declaration itself rests on the keys of
types.  The type of a member has a key that mentions no type parameters but
those in scope, and a type parameter is known by its key.  Two types with one
key are one type, so this fails for a type parameter whose key is spelled like
that of a composed type, and in an object that has such a parameter
(`Universe.PlainKeys`).
-/

namespace TypeExport

namespace Declaration

/-- The type parameters of a declaration. -/
def parameters : Declaration → List String
  | object _ parameters _ => parameters
  | _ => []

/-- The members of a declaration. -/
def members : Declaration → List MemberDeclaration
  | object _ _ members => members
  | _ => []

end Declaration

/-- Whether a name in a declaration of a unit stands for something. -/
def OutputUnit.Provides (U : OutputUnit) (d : Declaration) (n : String) : Prop :=
  n ∈ primitiveNames ∨ n ∈ d.parameters ∨ n ∈ U.names

namespace Universe

variable {u : Universe} {t c : TypeId} {form : Form} {part : List Char}

/-- The key of a type mentions the type parameters that its parts mention. -/
theorem Sound.mem_keyParts_of_part (h : u.Sound) (hform : u.form? t = some form)
    (hc : c ∈ form.parts) (hp : part ∈ keyParts (u.keyOf c)) (hcolon : ':' ∈ part) :
    part ∈ keyParts (u.keyOf t) := by
  obtain ⟨d, hd, rfl⟩ := get?_of_form? hform
  have hspelled := (h hd).spelled
  have hmem := mem_constituents_of_mem_parts hc
  unfold KeySpells at hspelled
  rw [keyOf_of_get? hd]
  cases hkind : d.kind with
  | array element =>
    rw [hkind] at hspelled hmem
    obtain rfl : c = element := List.mem_singleton.1 hmem
    rw [hspelled, mem_keyParts_brackets hcolon]
    exact hp
  | closed definition arguments =>
    rw [hkind] at hspelled hmem
    rw [hspelled, mem_keyParts_angles hcolon]
    rcases List.mem_cons.1 hmem with rfl | hargument
    · exact .inl hp
    · exact .inr ⟨_, List.mem_map_of_mem hargument, hp⟩
  | builtin | container | parameter | enumeration | object =>
    rw [hkind] at hc
    cases hc

theorem Sound.mem_keyParts_of_bare (h : u.Sound) (hp : part ∈ keyParts (u.keyOf (u.bare t)))
    (hcolon : ':' ∈ part) : part ∈ keyParts (u.keyOf t) := by
  by_cases ha : ∃ x, u.form? t = some (.absent x)
  · obtain ⟨x, hx⟩ := ha
    rw [bare_of_absent hx] at hp
    exact h.mem_keyParts_of_part hx (List.mem_singleton.2 rfl) hp hcolon
  · rwa [bare_of_ne_absent fun x hx => ha ⟨x, hx⟩] at hp

theorem mem_types_of_get? {d : Descriptor} (h : u.get? t = some d) : d ∈ u.types.toList :=
  Array.mem_toList_iff.2 (Array.mem_of_getElem? h)

/-- A type is known by its key. -/
theorem Sound.eq_of_keyOf (h : u.Sound) (ht : u.Issued t) (hc : u.Issued c)
    (hkey : u.keyOf t = u.keyOf c) : t = c := by
  obtain ⟨d, hd⟩ := issued_iff.1 ht
  obtain ⟨e, he⟩ := issued_iff.1 hc
  have hsame : d.key = e.key := by rw [← keyOf_of_get? hd, ← keyOf_of_get? he, hkey]
  have := (h hd).keyed
  rw [hsame, (h he).keyed] at this
  exact (Option.some.inj this).symm

/-- The key of a type parameter has a colon. -/
theorem Sound.colon_mem_keyOf (h : u.Sound) (ht : u.form? t = some .parameter) :
    ':' ∈ (u.keyOf t).toList := by
  obtain ⟨d, hd, hform⟩ := get?_of_form? ht
  have hspelled := (h hd).spelled
  unfold KeySpells at hspelled
  generalize hkind : d.kind = kind at hform hspelled
  cases hasForm_of_eq hform with
  | parameter =>
    obtain ⟨before, hspelled⟩ := hspelled
    rw [keyOf_of_get? hd, hspelled]
    simp

end Universe

namespace Setup

variable {s : Setup} {r : Rules} {us : Units} {st : State} {k : UnitId} {U : OutputUnit}
  {t c o x : TypeId} {n : String}

/-! ## Type parameters -/

theorem Mentions.mem_keyParts (h : s.Mentions t c) (sound : s.types.Sound) {part : List Char}
    (hp : part ∈ keyParts (s.types.keyOf c)) (hcolon : ':' ∈ part) :
    part ∈ keyParts (s.types.keyOf t) := by
  induction h using Relation.ReflTransGen.head_induction_on with
  | refl => exact hp
  | head hpart _ ih =>
    obtain ⟨form, ht, hmem⟩ := hpart
    exact sound.mem_keyParts_of_part ht.form? hmem ih hcolon

/-- The type of a member mentions only the type parameters that its key is
within. -/
theorem Mentions.mem_scope {m : Member} {d : Descriptor} {scope : List TypeId}
    (h : s.Mentions (s.site m) x) (sound : s.types.Sound) (hx : s.Treats x .parameter)
    (hplain : s.types.PlainKeys (x :: scope)) (hd : s.types.get? o = some d)
    (hscope : scope ⊆ d.kind.parameters)
    (within : s.types.KeyWithin scope (s.types.keyOf m.type)) : x ∈ scope := by
  obtain ⟨hkey, hplain⟩ := Universe.plainKeys_cons.1 hplain
  -- the key of the type parameter is a part of its own
  have hcolon := sound.colon_mem_keyOf hx.form?
  have hpart : (s.types.keyOf x).toList ∈ keyParts (s.types.keyOf m.type) := by
    refine sound.mem_keyParts_of_bare (sound.mem_keyParts_of_bare ?_ hcolon) hcolon
    refine h.mem_keyParts sound ?_ hcolon
    rw [keyParts_of_isPlainKey hkey]
    exact List.mem_singleton.2 rfl
  obtain ⟨q, hq, hspells⟩ := within _ hpart hcolon
  rw [keyParts_of_isPlainKey (hplain q hq)] at hspells
  have hsame : s.types.keyOf x = s.types.keyOf q :=
    String.toList_injective (List.mem_singleton.1 hspells)
  obtain ⟨e, he, -⟩ := Universe.get?_of_form? hx.form?
  have issued : s.types.Issued q :=
    ((sound hd).constituent q (Universe.mem_constituents_of_mem_parameters (hscope hq))).1
  rw [sound.eq_of_keyOf (Universe.issued_of_get? he) issued hsame]
  exact hq

/-- The type parameters that the members of an object mention are its own. -/
theorem Uses.mem_parameters (h : s.Uses s.site o x) (L : s.Lawful) (hx : s.Treats x .parameter)
    {parameters : List TypeId} (ho : s.Treats o (.object parameters))
    (hplain : s.types.PlainKeys (x :: parameters)) : x ∈ parameters := by
  obtain ⟨parameters', m, ho', hm, hmention⟩ := h
  cases ho.unique ho'
  obtain ⟨d, hd, hmember⟩ := mem_written hm
  have hkind : d.kind.parameters = parameters := by rw [ho.kind_of_get? hd]; rfl
  have hwithin := (L.sound hd).within m hmember
  rw [hkind] at hwithin
  exact hmention.mem_scope L.sound hx hplain hd (fun _ hq => hkind ▸ hq) hwithin

/-- Whether an object mentions a type parameter in a member though it may not be
its own: the key of the parameter, or that of one of its own, has marks. -/
def Strays (s : Setup) (o x : TypeId) : Prop :=
  s.Uses s.site o x ∧ s.Treats x .parameter ∧
    ∃ parameters, s.Treats o (.object parameters) ∧ ¬ s.types.PlainKeys (x :: parameters)

section Plain

variable (h : ∀ d ∈ s.types.types.toList,
  (d.kind.isParameter = true → isPlainKey d.key = true) ∧ s.types.PlainKeys d.kind.parameters)
include h

/-- Among types whose keys are checked a type parameter has a plain key, and so
have those of an object. -/
theorem plainKeys_of_all {parameters : List TypeId} (hx : s.Treats x .parameter)
    (ho : s.Treats o (.object parameters)) : s.types.PlainKeys (x :: parameters) := by
  obtain ⟨d, hd, hform⟩ := Universe.get?_of_form? hx.form?
  obtain ⟨e, he, -⟩ := Universe.get?_of_form? ho.form?
  refine Universe.plainKeys_cons.2 ⟨?_, ?_⟩
  · rw [Universe.keyOf_of_get? hd]
    refine (h d (Universe.mem_types_of_get? hd)).1 ?_
    generalize d.kind = kind at hform
    cases Universe.hasForm_of_eq hform
    rfl
  · have hplain := (h e (Universe.mem_types_of_get? he)).2
    rwa [ho.kind_of_get? he] at hplain

/-- No type parameter strays among types whose keys are checked. -/
theorem not_strays_of_all : ¬ s.Strays o x := by
  rintro ⟨-, hx, parameters, ho, hmarked⟩
  exact hmarked (plainKeys_of_all h hx ho)

end Plain

/-! ## Members of declarations -/

/-- The names in the type of a member are those that its site brings in. -/
theorem Completes.mem_names_iff {m : Member} {d : MemberDeclaration} (h : s.Completes o m d) :
    n ∈ d.type.names ↔ s.Brings (s.site m) n := by
  obtain ⟨-, -, e, hwritten, htype⟩ := h
  rw [htype, TypeExpr.names_orNullable, TypeExpr.names_orNullable, ← TypeExpr.names_erase]
  exact hwritten.translates.mem_names_iff

namespace Finished

variable (h : s.Finished st) (hU : st.units.get? k = some U)
include h hU

/-- A member of a declaration is that of a member of its type. -/
theorem exists_member {p : Nat} {d : Declaration} (hp : U.declarations[p]? = some d)
    {m : MemberDeclaration} (hm : m ∈ d.members) : ∃ o parameters member,
      (st.placed k)[p]? = some o ∧ s.Treats o (.object parameters) ∧
      d.parameters = parameters.map s.types.nameOf ∧ member ∈ s.written o ∧
      s.Completes o member m ∧ ∀ t, s.Uses s.site o t → st.Supplied k t := by
  obtain ⟨o, ho, houtline⟩ := h.settled.consistent.type_of_declaration hU hp
  cases d with
  | object name names members =>
    obtain ⟨parameters, ht⟩ := Outlines.object houtline
    obtain ⟨members', heq, hmembers, -, hsupplied⟩ := h.declaration_of_object ht ho hU hp
    cases heq
    obtain ⟨q, hq⟩ := List.mem_iff_getElem?.1 hm
    obtain ⟨member, hmember, hcompletes⟩ := exists_left hmembers hq
    exact ⟨o, parameters, member, ho, ht, rfl, List.mem_of_getElem? hmember, hcompletes,
      hsupplied⟩
  | enumeration => cases hm
  | fixedStrings => cases hm

/-- A name that a supplied type is written by stands for something in the unit,
unless it is that of a type parameter. -/
theorem provides_of_supplied (hs : st.Supplied k c) (hn : s.Names c n) :
    n ∈ primitiveNames ∨ (s.Treats c .parameter ∧ n = s.types.nameOf c) ∨ n ∈ U.names := by
  obtain ⟨σ, hσ, himport⟩ := hs
  have imported : ∀ i, σ.import? k = some i → i.name ∈ U.names := by
    intro i hi
    obtain ⟨V, hV, hmem⟩ := himport i hi
    cases hU.symm.trans hV
    exact OutputUnit.mem_names_iff.2 (.inl ⟨i, hmem, rfl⟩)
  have consistent := h.settled.consistent
  cases hn with
  | primitive ht hmem => exact .inl (ht.primitive_names n hmem)
  | parameter ht => exact .inr (.inl ⟨ht, rfl⟩)
  | redirected hr =>
    exact .inr (.inr (imported _ ((consistent.suits hσ).import?_of_redirects hr)))
  | declared hd =>
    obtain ⟨j, hj, hi⟩ := (consistent.suits hσ).import?_of_outlines hd
    by_cases hsame : j = k
    · -- the unit at hand declares the type
      subst hsame
      obtain ⟨p, hp⟩ := List.mem_iff_getElem?.1 (mem_placed.2 ⟨σ, hσ, hj⟩)
      obtain ⟨V, d, hV, -, hget, houtline⟩ := consistent.declaration_of_type hp
      cases hU.symm.trans hV
      rw [← houtline.name_eq, Declaration.name_withMembers]
      exact .inr (.inr (OutputUnit.mem_names_iff.2
        (.inr ⟨d, Array.mem_of_getElem? hget, rfl⟩)))
    · exact .inr (.inr (imported _ ((hi k).trans (if_neg hsame))))

/-- A name in a member stands for something, or it is that of a type parameter
that strays. -/
theorem provides (L : s.Lawful) {p : Nat} {d : Declaration} (hp : U.declarations[p]? = some d)
    {m : MemberDeclaration} (hm : m ∈ d.members) (hn : n ∈ m.type.names) :
    U.Provides d n ∨ ∃ o x, s.Resolved o ∧ s.DeclaredAt st.units o (k, p) ∧ s.Strays o x ∧
      n = s.types.nameOf x := by
  obtain ⟨o, parameters, member, ho, ht, hparameters, hmember, hcompletes, hsupplied⟩ :=
    h.exists_member hU hp hm
  obtain ⟨c, hmention, hc⟩ := hcompletes.mem_names_iff.1 hn
  have huses : s.Uses s.site o c := ⟨parameters, member, ht, hmember, hmention⟩
  rcases h.provides_of_supplied hU (hsupplied c huses) hc with hprimitive | ⟨hx, rfl⟩ | hunit
  · exact .inl (.inl hprimitive)
  · by_cases hplain : s.types.PlainKeys (c :: parameters)
    · refine .inl (.inr (.inl ?_))
      rw [hparameters]
      exact List.mem_map_of_mem (huses.mem_parameters L hx ht hplain)
    · obtain ⟨σ, hσ, -⟩ := mem_placed.1 (List.mem_of_getElem? ho)
      exact .inr ⟨o, c, h.settled.consistent.resolved hσ, h.declaredAt ho,
        ⟨huses, hx, parameters, ht, hplain⟩, rfl⟩
  · exact .inl (.inr (.inr hunit))

/-- An import from another unit names what the unit declares. -/
theorem declared_of_import {i : Import} (hi : i ∈ U.imports) {j : UnitId}
    (hj : i.source = .unit j) :
    j ≠ k ∧ ∃ V, st.units.get? j = some V ∧ ∃ d ∈ V.declarations, d.name = i.name := by
  have consistent := h.settled.consistent
  obtain ⟨t, σ, -, hσ, himport⟩ := consistent.imported hU hi
  rcases (consistent.suits hσ).import?_cases himport with ⟨_, _, -, rfl⟩ | ⟨j', hj', hne, rfl⟩
  · cases hj
  · cases hj
    obtain ⟨p, hp⟩ := List.mem_iff_getElem?.1 (mem_placed.2 ⟨σ, hσ, hj'⟩)
    obtain ⟨V, d, hV, -, hd, houtline⟩ := consistent.declaration_of_type hp
    refine ⟨hne, V, hV, d, Array.mem_of_getElem? hd, ?_⟩
    rw [← Declaration.name_withMembers [] d, houtline.name_eq]

/-- The type of a member has an imported name. -/
theorem exists_use_of_import {i : Import} (hi : i ∈ U.imports) :
    ∃ d ∈ U.declarations, ∃ m ∈ d.members, i.name ∈ m.type.names := by
  have consistent := h.settled.consistent
  obtain ⟨t, σ, ⟨o, name, p, ho, parameters, member, ht, hmember, hmention⟩, hσ, himport⟩ :=
    consistent.imported hU hi
  have hname : s.Names t i.name := by
    rcases (consistent.suits hσ).import?_cases himport with ⟨_, _, hr, rfl⟩ | ⟨j, hj, -, rfl⟩
    · exact .redirected hr
    · obtain ⟨d, hd⟩ := (consistent.suits hσ).outlines hj
      exact .declared hd
  obtain ⟨V, names, members, hV, hd, hmembers, -⟩ := h.complete ho
  cases hU.symm.trans hV
  obtain ⟨q, hq⟩ := List.mem_iff_getElem?.1 hmember
  obtain ⟨m, hm, hcompletes⟩ := exists_right hmembers hq
  refine ⟨_, Array.mem_of_getElem? hd, m, List.mem_of_getElem? hm, ?_⟩
  exact hcompletes.mem_names_iff.2 ⟨t, hmention, hname⟩

end Finished

/-! ## Whole runs -/

/-- In a unit of a run that succeeds every name in a member stands for
something, unless it is that of a type parameter that strays in the object.
Every import from another unit is declared in that unit, and every import is
used. -/
theorem names_in_scope (h : s.Governed r) (hus : s.units = .ok us) (hU : us.get? k = some U) :
    (∀ (p : Nat) d, U.declarations[p]? = some d → ∀ m ∈ d.members, ∀ n ∈ m.type.names,
      U.Provides d n ∨ ∃ o x, s.Resolved o ∧ s.DeclaredAt us o (k, p) ∧ s.Strays o x ∧
        n = s.types.nameOf x) ∧
      (∀ i ∈ U.imports, ∀ j, i.source = .unit j →
        j ≠ k ∧ ∃ V, us.get? j = some V ∧ ∃ d ∈ V.declarations, d.name = i.name) ∧
      ∀ i ∈ U.imports, ∃ d ∈ U.declarations, ∃ m ∈ d.members, i.name ∈ m.type.names := by
  obtain ⟨st, hst, rfl⟩ := finished_of_units h.lawful hus
  refine ⟨fun p d hp m hm n hn => ?_, fun i hi j hj => ?_, fun i hi => ?_⟩
  · exact hst.provides hU h.lawful hp hm hn
  · exact hst.declared_of_import hU hi hj
  · exact hst.exists_use_of_import hU hi

/-- In the first unit of a shop every name stands for something, and both of its
imports are used. -/
theorem names_in_scope_shop : shop.Governed shopRules ∧ ∃ us U, shop.units = .ok us ∧
    us.get? ⟨0⟩ = some U ∧ U.imports.size = 2 ∧
      (∀ d ∈ U.declarations, ∀ m ∈ d.members, ∀ n ∈ m.type.names, U.Provides d n) ∧
      ∀ i ∈ U.imports, ∃ d ∈ U.declarations, ∃ m ∈ d.members, i.name ∈ m.type.names := by
  obtain ⟨us, hus, himports⟩ := exists_shop_units
  have hfirst : (us.all.map (·.imports.size))[0]? = some 2 := by rw [himports]; rfl
  rw [Array.getElem?_map, Option.map_eq_some_iff] at hfirst
  obtain ⟨U, hU, hsize⟩ := hfirst
  have scope := names_in_scope shop_governed hus (k := ⟨0⟩) hU
  refine ⟨shop_governed, us, U, hus, hU, hsize, fun d hd m hm n hn => ?_, scope.2.2⟩
  obtain ⟨p, hp⟩ := Array.mem_iff_getElem?.1 hd
  rcases scope.1 p d hp m hm n hn with hprovides | ⟨o, x, -, -, hstrays, -⟩
  · exact hprovides
  · exact absurd hstrays (not_strays_of_all shop_checks.2.2.1)

/-! ## A type parameter out of scope -/

/-- A document in which a type parameter has the key of a list. -/
@[irreducible] def crossedText : String :=
  r#"[[["object","A",["T"],[["a","List<T>"]]],
["object","System.Collections.Generic.List`1<A",["T>"]]],["A<int>"]]"#

/-- The setup of the document. -/
def crossed : Setup := ofDocument crossedText {} {}

instance (U : OutputUnit) (d : Declaration) : DecidablePred (U.Provides d) := fun n =>
  inferInstanceAs (Decidable (n ∈ primitiveNames ∨ n ∈ d.parameters ∨ n ∈ U.names))

theorem crossed_checks : loads crossedText = true ∧
    (crossed.units.map fun us => us.all.all fun U => U.declarations.all fun d =>
      d.members.all fun m => m.type.names.all (U.Provides d ·)).toOption = some false := by
  decide +kernel

/-- A member may be written by the name of a type parameter of another
definition. -/
theorem exists_not_provides_crossed : crossed.Governed {} ∧ ∃ us, crossed.units = .ok us ∧
    ¬ ∀ U ∈ us.all, ∀ d ∈ U.declarations, ∀ m ∈ d.members, ∀ n ∈ m.type.names,
      U.Provides d n := by
  refine ⟨governed_ofDocument {} crossed_checks.1 rfl rfl, ?_⟩
  have h := crossed_checks.2
  cases hus : crossed.units with
  | ok us =>
    rw [hus] at h
    have hfalse := Option.some.inj h
    refine ⟨us, rfl, fun hall => ?_⟩
    refine Bool.eq_false_iff.1 hfalse ?_
    simp only [Array.all_eq_true_iff_forall_mem, List.all_eq_true, decide_eq_true_eq]
    exact hall
  | error e =>
    rw [hus] at h
    cases h

end Setup

end TypeExport
