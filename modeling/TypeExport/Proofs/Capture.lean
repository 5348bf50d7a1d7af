import TypeExport.Proofs.Correspondence
import TypeExport.Proofs.Document.Faithful
import TypeExport.Proofs.Paths
import TypeExport.Proofs.Scope
import TypeExport.Proofs.Universe.Visible

/-!
# Which names are captured

A name in a declaration stands for a built-in type, for a type parameter or for
a declared type (`Setup.Sense`).  In a unit no two declared types have one name,
and a reference sees only the first type parameter of a name.  So within one
sense a name stands for one thing (`Setup.names_apart`).

No name is reserved, and only simple names are written.  So a declared type or a
type parameter may have the name of a target such as `Date`, and one may have
the name of the other: across the senses a name is captured
(`Setup.exists_captured`).
-/

namespace TypeExport

namespace OutputUnit

variable {U : OutputUnit} {i i' : Import} {d : Declaration}

/-- An import is known by its name. -/
theorem eq_of_mem_imports (h : U.names.Nodup) (hi : i ∈ U.imports) (hi' : i' ∈ U.imports)
    (hname : i.name = i'.name) : i = i' :=
  List.inj_on_of_nodup_map (List.nodup_append.1 h).1 (Array.mem_toList_iff.2 hi)
    (Array.mem_toList_iff.2 hi') hname

/-- What is declared is not imported. -/
theorem name_ne_of_mem_imports (h : U.names.Nodup) (hi : i ∈ U.imports)
    (hd : d ∈ U.declarations) : i.name ≠ d.name :=
  (List.nodup_append.1 h).2.2 _ (List.mem_map_of_mem (Array.mem_toList_iff.2 hi)) _
    (List.mem_map_of_mem (Array.mem_toList_iff.2 hd))

end OutputUnit

namespace Setup

variable {s : Setup} {r : Rules} {us : Units} {st : State} {k : UnitId} {U : OutputUnit}
  {t c c' o x : TypeId} {n : String} {path : List Slot} {parameters : List TypeId}

/-! ## What names stand for -/

/-- What a name may stand for. -/
inductive Sense where
  /-- A target of a built-in type. -/
  | builtin
  /-- A type parameter. -/
  | parameter
  /-- A declared type. -/
  | declared
  deriving DecidableEq, Repr

/-- Whether a name that stands for a type has a sense. -/
inductive HasSense (s : Setup) (c : TypeId) : Sense → Prop
  | builtin {e : TypeExpr} : s.Treats c (.primitive e) → HasSense s c .builtin
  | parameter : s.Treats c .parameter → HasSense s c .parameter
  | declared {d : Declaration} : s.Outlines c d → HasSense s c .declared

/-- Whether a name stands for a type somewhere in the members of an object. -/
def StandsIn (s : Setup) (o : TypeId) (n : String) (c : TypeId) : Prop :=
  ∃ m ∈ s.written o, ∃ path, s.Stands (s.site m) path n c

/-- Whether the names in a declaration of a member are references that stand for
types. -/
structure Cites (s : Setup) (m : Member) (d : MemberDeclaration) : Prop where
  name : d.name = lowerCamel m.name
  /-- A name stands somewhere. -/
  path : ∀ n ∈ d.type.names, ∃ path, d.type.at? path = some (.reference n)
  stands : ∀ path n, d.type.at? path = some (.reference n) → ∃ c, s.Stands (s.site m) path n c

theorem Stands.mentions (h : s.Stands t path n c) : s.Mentions t c := by
  obtain ⟨before, behind, e, -, hat, -⟩ := h
  exact hat.mentions

theorem Stands.names (h : s.Stands t path n c) : s.Names c n := by
  obtain ⟨before, behind, e, -, -, hleaf, hn⟩ := h
  exact hleaf.names (TypeExpr.mem_names_of_at? hn)

theorem StandsIn.names (h : s.StandsIn o n c) : s.Names c n := by
  obtain ⟨m, -, path, hstands⟩ := h
  exact hstands.names

theorem StandsIn.uses (h : s.StandsIn o n c) (ho : s.Treats o (.object parameters)) :
    s.Uses s.site o c := by
  obtain ⟨m, hm, path, hstands⟩ := h
  exact ⟨parameters, m, ho, hm, hstands.mentions⟩

/-- The members of a declaration refer to what the members of its type
mention. -/
theorem Completes.cites {m : Member} {d : MemberDeclaration} (h : s.Completes o m d) :
    s.Cites m d := by
  obtain ⟨hname, -, e, hwritten, htype⟩ := h
  refine ⟨hname, fun n hn => ?_, fun path n hn => ?_⟩
  · rw [htype, TypeExpr.names_orNullable, TypeExpr.names_orNullable] at hn
    obtain ⟨path, hpath⟩ := hwritten.exists_path hn
    refine ⟨path, ?_⟩
    rw [htype, TypeExpr.at?_orNullable, TypeExpr.at?_orNullable]
    exact hpath
  · rw [htype, TypeExpr.at?_orNullable, TypeExpr.at?_orNullable] at hn
    exact hwritten.exists_stands hn

/-! ## Senses -/

/-- Nothing is redirected without a rule. -/
theorem Governed.override_eq (h : s.Governed r) (hr : r.redirects = []) (d : Descriptor) :
    s.hooks.override d = .ok .standard := by
  have none : r.redirecting d.key = [] := by rw [Rules.redirecting, hr, List.filter_nil]
  rw [h.override]
  rcases Rules.override_cases h.behaviours d with ⟨-, heq⟩ | ⟨rule, hrule, -⟩ | ⟨hlt, -⟩
  · exact heq
  · cases none.symm.trans hrule
  · rw [none] at hlt
    exact absurd hlt (Nat.not_lt_zero 1)

/-- Every name has a sense. -/
theorem Governed.exists_sense (h : s.Governed r) (hr : r.redirects = []) (hn : s.Names c n) :
    ∃ sense, s.HasSense c sense := by
  cases hn with
  | primitive ht => exact ⟨_, .builtin ht⟩
  | parameter ht => exact ⟨_, .parameter ht⟩
  | declared hd => exact ⟨_, .declared hd⟩
  | redirected hredirects =>
    obtain ⟨d, -, hover⟩ := hredirects
    cases (h.override_eq hr d).symm.trans hover

/-! ## Type parameters -/

/-- A type parameter is written by its name. -/
theorem Names.eq_of_parameter (h : s.Names c n) (hc : s.Treats c .parameter) :
    n = s.types.nameOf c := by
  cases h with
  | parameter => rfl
  | declared => rfl
  | redirected hr => exact absurd hr hc.not_redirects
  | primitive ht => cases ht.unique hc

/-- What an object mentions of type parameters is visible in its scope. -/
theorem StandsIn.mem_visible (hc : s.StandsIn o n c) (h : s.Governed r)
    (hparameter : s.Treats c .parameter) (ho : s.Treats o (.object parameters))
    (hplain : s.types.PlainKeys (c :: parameters)) :
    c ∈ Builder.visible s.types parameters := by
  obtain ⟨m, hm, path, hstands⟩ := hc
  obtain ⟨d, hd, hmember⟩ := mem_written hm
  have hkind := ho.kind_of_get? hd
  obtain ⟨text, roots, hload⟩ := h.loaded
  obtain ⟨document, owners, v, -, hloads⟩ := Builder.loads_of_loadText hload
  obtain ⟨reference, hreference⟩ := hloads.isReading.exists_reference hd hmember
  have sound := h.lawful.sound
  have hscope := Builder.inScope_parameters sound hd
  rw [hkind] at hreference hscope
  -- the reference is resolved among the visible parameters to the same type
  rw [← Builder.resolveText_visible fun p hp => (hscope p hp).1] at hreference
  have hsub := Builder.visible_subset s.types parameters
  have meant := ((Builder.builds_resolveText sound (fun p hp => hscope p (hsub hp))
    reference).good_of_eq hreference).2.2
  have hvisible : s.types.PlainKeys (c :: Builder.visible s.types parameters) := fun p hp =>
    hplain p (List.cons_subset_cons c hsub hp)
  refine hstands.mentions.mem_scope sound hparameter hvisible hd ?_ meant.within
  rw [hkind]
  exact hsub

/-- A name stands for one type parameter of an object. -/
theorem StandsIn.eq_of_parameter (hc : s.StandsIn o n c) (hc' : s.StandsIn o n c')
    (h : s.Governed r) (ht : s.Treats c .parameter) (ht' : s.Treats c' .parameter)
    (ho : s.Treats o (.object parameters)) (hplain : s.types.PlainKeys (c :: c' :: parameters)) :
    c = c' ∧ c ∈ parameters := by
  obtain ⟨hkey, hplain'⟩ := Universe.plainKeys_cons.1 hplain
  have hown := (Universe.plainKeys_cons.1 hplain').2
  have hmem := hc.mem_visible h ht ho (Universe.plainKeys_cons.2 ⟨hkey, hown⟩)
  refine ⟨Builder.eq_of_mem_visible hmem (hc'.mem_visible h ht' ho hplain') ?_,
    Builder.visible_subset _ _ hmem⟩
  rw [← hc.names.eq_of_parameter ht, ← hc'.names.eq_of_parameter ht']

/-! ## Declared types -/

/-- A declared type is written by its name. -/
theorem Names.eq_of_outlines (h : s.Names c n) {d : Declaration} (hc : s.Outlines c d) :
    n = s.types.nameOf c :=
  hc.brings_iff.1 ⟨c, .refl, h⟩

/-- A type that is placed in a unit is known there by its name. -/
theorem Consistent.eq_of_placed (h : s.Consistent st) (hc : c ∈ st.placed k)
    (hc' : c' ∈ st.placed k) (hname : s.types.nameOf c = s.types.nameOf c') : c = c' := by
  obtain ⟨p, hp⟩ := List.mem_iff_getElem?.1 hc
  obtain ⟨q, hq⟩ := List.mem_iff_getElem?.1 hc'
  obtain ⟨U, d, hU, -, hd, houtline⟩ := h.declaration_of_type hp
  obtain ⟨V, d', hV, -, hd', houtline'⟩ := h.declaration_of_type hq
  cases hU.symm.trans hV
  have hnodup : (U.declarations.toList.map (·.name)).Nodup :=
    (List.nodup_append.1 (h.orderly.nodup hU)).2.1
  have names : d.name = d'.name := by
    rw [← Declaration.name_withMembers [] d, ← Declaration.name_withMembers [] d',
      houtline.name_eq, houtline'.name_eq, hname]
  have same : p = q := by
    have hlt : p < (U.declarations.toList.map (·.name)).length := by
      rw [List.length_map]
      exact (Array.getElem?_eq_some_iff.1 hd).1
    refine (List.getElem?_inj hlt hnodup).1 ?_
    rw [List.getElem?_map, List.getElem?_map, Array.getElem?_toList, Array.getElem?_toList, hd, hd',
      Option.map_some, Option.map_some, names]
  rw [same, hq] at hp
  exact (Option.some.inj hp).symm

/-- A declared type that a unit has is declared there or imported. -/
theorem Finished.placed_or_imported (h : s.Finished st) (hU : st.units.get? k = some U)
    (hs : st.Supplied k c) {d : Declaration} (hd : s.Outlines c d) :
    ∃ j, c ∈ st.placed j ∧ (j = k ∧ (∃ d' ∈ U.declarations, d'.name = s.types.nameOf c) ∨
      ⟨s.types.nameOf c, .unit j⟩ ∈ U.imports) := by
  obtain ⟨σ, hσ, himport⟩ := hs
  have consistent := h.settled.consistent
  obtain ⟨j, hj, hi⟩ := (consistent.suits hσ).import?_of_outlines hd
  have hplaced : c ∈ st.placed j := mem_placed.2 ⟨σ, hσ, hj⟩
  refine ⟨j, hplaced, ?_⟩
  by_cases hsame : j = k
  · refine .inl ⟨hsame, ?_⟩
    subst hsame
    obtain ⟨p, hp⟩ := List.mem_iff_getElem?.1 hplaced
    obtain ⟨V, d', hV, -, hget, houtline⟩ := consistent.declaration_of_type hp
    cases hU.symm.trans hV
    refine ⟨d', Array.mem_of_getElem? hget, ?_⟩
    rw [← Declaration.name_withMembers [] d', houtline.name_eq]
  · obtain ⟨V, hV, hmem⟩ := himport _ ((hi k).trans (if_neg hsame))
    cases hU.symm.trans hV
    exact .inr hmem

/-- In a unit a name stands for one declared type. -/
theorem Finished.eq_of_outlines (h : s.Finished st) (hU : st.units.get? k = some U)
    (hs : st.Supplied k c) (hs' : st.Supplied k c') {d d' : Declaration} (hd : s.Outlines c d)
    (hd' : s.Outlines c' d') (hname : s.types.nameOf c = s.types.nameOf c') : c = c' := by
  have consistent := h.settled.consistent
  have hnodup := consistent.orderly.nodup hU
  obtain ⟨j, hplaced, hhere⟩ := h.placed_or_imported hU hs hd
  obtain ⟨j', hplaced', hhere'⟩ := h.placed_or_imported hU hs' hd'
  rw [← hname] at hhere'
  have same : j = j' := by
    rcases hhere with ⟨hj, e, he, hen⟩ | himport
    · rcases hhere' with ⟨hj', -⟩ | himport'
      · rw [hj, hj']
      · exact absurd hen.symm (OutputUnit.name_ne_of_mem_imports hnodup himport' he)
    · rcases hhere' with ⟨-, e', he', hen'⟩ | himport'
      · exact absurd hen'.symm (OutputUnit.name_ne_of_mem_imports hnodup himport he')
      · cases OutputUnit.eq_of_mem_imports hnodup himport himport' rfl
        rfl
  subst same
  exact consistent.eq_of_placed hplaced hplaced' hname

/-! ## Whole runs -/

/-- When a run succeeds that redirects nothing, the names in a declared object
stand for built-in types, its own type parameters and declared types.  In one of
these senses a name stands for one thing, except for type parameters that are
not told apart by their keys from those of the object. -/
theorem names_apart (h : s.Governed r) (hr : r.redirects = []) (hus : s.units = .ok us)
    (hU : us.get? k = some U) {p : Nat} {name : String} {names : List String}
    {members : List MemberDeclaration}
    (hd : U.declarations[p]? = some (.object name names members)) :
    ∃ o parameters, s.DeclaredAt us o (k, p) ∧ s.Treats o (.object parameters) ∧
      names = parameters.map s.types.nameOf ∧ List.Forall₂ s.Cites (s.written o) members ∧
      (∀ n c, s.StandsIn o n c → ∃ sense, s.HasSense c sense) ∧
      ∀ n c c' sense, s.StandsIn o n c → s.StandsIn o n c' → s.HasSense c sense →
        s.HasSense c' sense →
        match sense with
        | .builtin => n ∈ primitiveNames
        | .parameter => c = c' ∧ c ∈ parameters ∨ ¬ s.types.PlainKeys (c :: c' :: parameters)
        | .declared => c = c' := by
  obtain ⟨st, hst, rfl⟩ := finished_of_units h.lawful hus
  obtain ⟨o, ho, houtline⟩ := hst.settled.consistent.type_of_declaration hU hd
  obtain ⟨parameters, ht⟩ := Outlines.object houtline
  obtain ⟨members', heq, hmembers, -, hsupplied⟩ := hst.declaration_of_object ht ho hU hd
  cases heq
  refine ⟨o, parameters, hst.declaredAt ho, ht, rfl, hmembers.imp fun _ _ hm => hm.cites,
    fun n c hc => h.exists_sense hr hc.names, fun n c c' sense hc hc' hsense hsense' => ?_⟩
  cases hsense with
  | builtin hprimitive =>
    cases hc.names with
    | primitive ht' hn => exact ht'.primitive_names n hn
    | redirected hredirects => exact absurd hredirects hprimitive.not_redirects
    | parameter hparameter => cases hprimitive.unique hparameter
    | declared houtlines => exact absurd houtlines (hprimitive.not_outlines rfl)
  | parameter hparameter =>
    cases hsense' with
    | parameter hparameter' =>
      by_cases hplain : s.types.PlainKeys (c :: c' :: parameters)
      · exact .inl (hc.eq_of_parameter hc' h hparameter hparameter' ht hplain)
      · exact .inr hplain
  | declared houtlines =>
    cases hsense' with
    | declared houtlines' =>
      refine hst.eq_of_outlines hU (hsupplied c (hc.uses ht)) (hsupplied c' (hc'.uses ht)) houtlines
        houtlines' ?_
      rw [← hc.names.eq_of_outlines houtlines, ← hc'.names.eq_of_outlines houtlines']

/-! ## Captured names -/

/-- Without redirects a type is treated by its form. -/
theorem Governed.treats_of_kind? (h : s.Governed r) (hr : r.redirects = []) {kind : TypeKind}
    (hkind : s.types.kind? t = some kind) : s.Treats t (s.types.formOf kind) := by
  obtain ⟨d, hd, rfl⟩ := Option.map_eq_some_iff.1 hkind
  exact ⟨d, hd, h.override_eq hr d, rfl⟩

/-- A name that is written for the site of a member stands in the object. -/
theorem Leaf.standsIn {e : TypeExpr} (h : s.Leaf c e) (hc : c ∈ (s.written o).map s.site)
    (path : List Slot) (hn : e.at? path = some (.reference n)) : s.StandsIn o n c := by
  obtain ⟨m, hm, rfl⟩ := List.mem_map.1 hc
  exact ⟨m, hm, path, h.stands hn⟩

/-- A generic definition that a root closes is declared. -/
theorem Governed.exists_declaredAt (h : s.Governed r) (hr : r.redirects = [])
    (hus : s.units = .ok us) {root : TypeId} {arguments : List TypeId} (hroot : root ∈ s.roots)
    (hclosed : s.types.kind? root = some (.closed o arguments))
    (hobject : s.types.kind? o = some (.object parameters)) :
    ∃ place, s.DeclaredAt us o place := by
  have ho : s.Treats o (.object parameters) := h.treats_of_kind? hr hobject
  have happlied : s.Treats root (.applied o arguments) := by
    have := h.treats_of_kind? hr hclosed
    simpa [Universe.formOf, hobject] using this
  obtain ⟨st, hst, rfl⟩ := finished_of_units h.lawful hus
  have resolved : s.Resolved o := .part (.root hroot) ⟨_, happlied, List.mem_cons_self⟩
  obtain ⟨k, p, hp⟩ := hst.placed resolved ⟨_, ho, rfl⟩
  exact ⟨(k, p), hst.declaredAt hp⟩

/-- What is declared for an object is an object. -/
theorem DeclaredAt.object {p : Nat} (h : s.DeclaredAt us o (k, p))
    (ho : s.Treats o (.object parameters)) : ∃ U name names members, us.get? k = some U ∧
      U.declarations[p]? = some (.object name names members) := by
  obtain ⟨U, d, hU, hd, -, -, houtline⟩ := h
  have heq := houtline.unique ⟨_, ho, rfl⟩
  cases d with
  | object name names members => exact ⟨U, name, names, members, hU, hd⟩
  | enumeration => cases heq
  | fixedStrings => cases heq

theorem exists_units_of_isOk (h : s.units.isOk = true) : ∃ us, s.units = .ok us := by
  cases hus : s.units with
  | ok us => exact ⟨us, rfl⟩
  | error e =>
    rw [hus] at h
    cases h

/-- A document with a type parameter and a class that are called like the target
of a date. -/
@[irreducible] def logText : String :=
  r#"[[["object","Log",["Date"],[["at","DateTime"],["of","Date"],["on","Acme.Date"]]],
["object","Acme.Date",[],[]]],["Log<int>"]]"#

/-- The setup of the document. -/
def log : Setup := ofDocument logText {} {}

/-- A document in which two type parameters of one name have the keys of types
that a third definition mentions. -/
@[irreducible] def crowdText : String :=
  r#"[[["object","A",["T"],[["a","List<T>"],["b","T?"]]],
["object","System.Collections.Generic.List`1<A",["T>"]],
["object","System.Nullable`1<A",["T>"]]],["A<int>"]]"#

/-- The setup of the document. -/
def crowd : Setup := ofDocument crowdText {} {}

theorem log_checks : loads logText = true ∧ log.units.isOk = true ∧ ⟨5⟩ ∈ log.roots ∧
    [5, 0, 1, 2, 3].map (log.types.kind? ⟨·⟩) = [some (.closed ⟨0⟩ [⟨4⟩]), some (.object [⟨1⟩]),
      some (.parameter ⟨0⟩ 0), some (.object []), some (.builtin .dateTime)] ∧
    [1, 2].map (log.types.nameOf ⟨·⟩) = ["Date", "Date"] ∧
    (log.written ⟨0⟩).map log.site = [⟨3⟩, ⟨1⟩, ⟨2⟩] ∧
    ∀ d ∈ log.types.types.toList, (d.kind.isParameter = true → isPlainKey d.key = true) ∧
      log.types.PlainKeys d.kind.parameters := by
  decide +kernel

theorem crowd_checks : loads crowdText = true ∧ crowd.units.isOk = true ∧ ⟨9⟩ ∈ crowd.roots ∧
    [9, 0, 3, 5].map (crowd.types.kind? ⟨·⟩) = [some (.closed ⟨0⟩ [⟨8⟩]), some (.object [⟨1⟩]),
      some (.parameter ⟨2⟩ 0), some (.parameter ⟨4⟩ 0)] ∧
    [3, 5].map (crowd.types.nameOf ⟨·⟩) = ["T>", "T>"] ∧
    (crowd.written ⟨0⟩).map crowd.site = [⟨3⟩, ⟨5⟩] := by
  decide +kernel

theorem log_governed : log.Governed {} := governed_ofDocument {} log_checks.1 rfl rfl

/-- The run on the log succeeds and declares it. -/
theorem log_declaredAt : ∃ us, log.units = .ok us ∧ ∃ k p, log.DeclaredAt us ⟨0⟩ (k, p) ∧
    log.Treats ⟨0⟩ (.object [⟨1⟩]) := by
  obtain ⟨-, hok, hroot, hkinds, -⟩ := log_checks
  obtain ⟨us, hus⟩ := exists_units_of_isOk hok
  simp only [List.map_cons, List.map_nil, List.cons.injEq, and_true] at hkinds
  obtain ⟨⟨k, p⟩, hplace⟩ :=
    log_governed.exists_declaredAt rfl hus hroot hkinds.1 hkinds.2.1
  exact ⟨us, hus, k, p, hplace, log_governed.treats_of_kind? rfl hkinds.2.1⟩

/-- In the log a name stands for one type parameter at most, and for one declared
type. -/
theorem names_apart_log : log.Governed {} ∧ ∃ us k U, ∃ p : Nat, ∃ name names members,
    log.units = .ok us ∧ us.get? k = some U ∧
    U.declarations[p]? = some (.object name names members) ∧ ∃ o parameters,
      log.Treats o (.object parameters) ∧ List.Forall₂ log.Cites (log.written o) members ∧
      ∀ n c c', log.StandsIn o n c → log.StandsIn o n c' →
        (log.HasSense c .parameter → log.HasSense c' .parameter → c = c' ∧ c ∈ parameters) ∧
        (log.HasSense c .declared → log.HasSense c' .declared → c = c') := by
  obtain ⟨us, hus, k, p, hplace, ho⟩ := log_declaredAt
  obtain ⟨U, name, names, members, hU, hd⟩ := hplace.object ho
  obtain ⟨o, parameters, -, ht, -, hcites, -, happart⟩ := names_apart log_governed rfl hus hU hd
  refine ⟨log_governed, us, k, U, p, name, names, members, hus, hU, hd, o, parameters, ht, hcites,
    fun n c c' hc hc' => ⟨fun hsense hsense' => ?_, happart n c c' .declared hc hc'⟩⟩
  obtain ⟨-, -, -, -, -, -, hkeys⟩ := log_checks
  rcases happart n c c' .parameter hc hc' hsense hsense' with hsame | hnot
  · exact hsame
  · cases hsense with
    | parameter hparameter =>
      cases hsense' with
      | parameter hparameter' =>
        have hplain := plainKeys_of_all hkeys hparameter' ht
        have hkey := (Universe.plainKeys_cons.1 (plainKeys_of_all hkeys hparameter ht)).1
        exact absurd (Universe.plainKeys_cons.2 ⟨hkey, hplain⟩) hnot

/-- In the log one name stands for a built-in type, for a type parameter and for
a declared type. -/
theorem log_captured : ∃ us, log.units = .ok us ∧ ∃ o place builtin parameter declared,
    log.DeclaredAt us o place ∧ log.StandsIn o "Date" builtin ∧
      log.StandsIn o "Date" parameter ∧ log.StandsIn o "Date" declared ∧
      log.HasSense builtin .builtin ∧ log.HasSense parameter .parameter ∧
      log.HasSense declared .declared := by
  obtain ⟨-, -, -, hkinds, hnames, hsites, -⟩ := log_checks
  obtain ⟨us, hus, k, p, hplace, -⟩ := log_declaredAt
  simp only [List.map_cons, List.map_nil, List.cons.injEq, and_true] at hkinds hnames
  obtain ⟨-, -, hparameter, hdate, hbuiltin⟩ := hkinds
  have hbuiltin := log_governed.treats_of_kind? rfl hbuiltin
  have hparameter := log_governed.treats_of_kind? rfl hparameter
  have hdeclared : log.Outlines ⟨2⟩ _ := ⟨_, log_governed.treats_of_kind? rfl hdate, rfl⟩
  refine ⟨us, hus, ⟨0⟩, (k, p), ⟨3⟩, ⟨1⟩, ⟨2⟩, hplace, ?_, ?_, ?_, .builtin hbuiltin,
    .parameter hparameter, .declared hdeclared⟩
  · exact (Leaf.primitive hbuiltin).standsIn (by simp [hsites]) [.alternative 0] rfl
  · rw [← hnames.1]
    exact (Leaf.parameter hparameter).standsIn (by simp [hsites]) [] rfl
  · rw [← hnames.2]
    exact (Leaf.declared hdeclared).standsIn (by simp [hsites]) [] rfl

theorem crowd_governed : crowd.Governed {} := governed_ofDocument {} crowd_checks.1 rfl rfl

/-- In the crowd one name stands for two type parameters. -/
theorem crowd_captured : ∃ us, crowd.units = .ok us ∧ ∃ o place c c',
    crowd.DeclaredAt us o place ∧ c ≠ c' ∧ crowd.StandsIn o "T>" c ∧ crowd.StandsIn o "T>" c' ∧
      crowd.HasSense c .parameter ∧ crowd.HasSense c' .parameter := by
  obtain ⟨-, hok, hroot, hkinds, hnames, hsites⟩ := crowd_checks
  obtain ⟨us, hus⟩ := exists_units_of_isOk hok
  simp only [List.map_cons, List.map_nil, List.cons.injEq, and_true] at hkinds hnames
  obtain ⟨hclosed, hobject, hlist, hnullable⟩ := hkinds
  obtain ⟨place, hplace⟩ := crowd_governed.exists_declaredAt rfl hus hroot hclosed hobject
  have hlist := crowd_governed.treats_of_kind? rfl hlist
  have hnullable := crowd_governed.treats_of_kind? rfl hnullable
  refine ⟨us, hus, ⟨0⟩, place, ⟨3⟩, ⟨5⟩, hplace, by decide, ?_, ?_, .parameter hlist,
    .parameter hnullable⟩
  · rw [← hnames.1]
    exact (Leaf.parameter hlist).standsIn (by simp [hsites]) [] rfl
  · rw [← hnames.2]
    exact (Leaf.parameter hnullable).standsIn (by simp [hsites]) [] rfl

/-- In a declared object one name may stand for a built-in type, for a type
parameter and for a declared type.  It may stand for two type parameters where
these are not known by their keys. -/
theorem exists_captured :
    (log.Governed {} ∧ ∃ us, log.units = .ok us ∧ ∃ o place builtin parameter declared,
      log.DeclaredAt us o place ∧ log.StandsIn o "Date" builtin ∧
        log.StandsIn o "Date" parameter ∧ log.StandsIn o "Date" declared ∧
        log.HasSense builtin .builtin ∧ log.HasSense parameter .parameter ∧
        log.HasSense declared .declared) ∧
    crowd.Governed {} ∧ ∃ us, crowd.units = .ok us ∧ ∃ o place c c',
      crowd.DeclaredAt us o place ∧ c ≠ c' ∧ crowd.StandsIn o "T>" c ∧
        crowd.StandsIn o "T>" c' ∧ crowd.HasSense c .parameter ∧
        crowd.HasSense c' .parameter :=
  ⟨⟨log_governed, log_captured⟩, crowd_governed, crowd_captured⟩

end Setup

end TypeExport
