import TypeExport.Proofs.Correspondence
import TypeExport.Proofs.Run.Abreast
import TypeExport.Proofs.Run.Varying
import TypeExport.Proofs.Wrapping

/-!
# What the annotations of a member influence

Other annotations on one member, as long as it is left out as before, change
nothing but the declaration of that member (`Setup.annotations_local`).  A run
fails with the same error as before, or leaves the same units with the same
imports and the same declarations.  The declaration of the member may differ in
whether it may be left out, at the top of its type, and at the items directly
below it.

A rule that places a type may look at all types, and so at the annotations.  The
locations of the types that are declared have to be the same as before.  A type
that moves may meet another of its name (`Setup.exists_error_annotate`).
-/

namespace TypeExport

/-- Whether two declarations of a member differ at most in whether it may be
left out and in what says that its value or the items of its value may be
null. -/
structure MemberDeclaration.Reannotated (d d' : MemberDeclaration) : Prop where
  name : d'.name = d.name
  type : d'.type.peel.peelItems = d.type.peel.peelItems

/-! ## Rules -/

namespace Rules

variable (r : Rules) {d d' : Descriptor} (h : d'.key = d.key)
include h

/-- Rules that redirect look at the key of a type only. -/
theorem override_congr : r.override d' = r.override d := by
  unfold override
  rw [h]

/-- Whether a type is placed by one rule at most depends on its key only. -/
theorem location_map_congr (u v : Universe) :
    (r.location v d').map (fun _ => ()) = (r.location u d).map fun _ => () := by
  unfold location
  rw [h]
  split <;> rfl

/-- A type has the same location when no rule tells it apart. -/
theorem location_congr {u v : Universe}
    (hrules : ∀ rule ∈ r.locations, rule.location v d' = rule.location u d) :
    r.location v d' = r.location u d := by
  unfold location
  rw [h]
  split
  · rfl
  · rename_i rule hrule
    have hmem : rule ∈ r.locations.filter (·.key = d.key) := by simp [hrule]
    rw [hrules rule (List.mem_of_mem_filter hmem)]
  · rfl

end Rules

namespace Setup

variable {s s' : Setup} {r : Rules} {st st' : State} {t o : TypeId} {d : Descriptor} {i : Nat}
  {m m' : Member} {a : Annotations}

/-- A setup with other annotations on one member of a type. -/
abbrev annotate (s : Setup) (t : TypeId) (i : Nat) (a : Annotations) : Setup :=
  { s with types := s.types.annotate t i a }

/-- Whether two declarations of a type differ at most in that of one member. -/
inductive DiffersIn (s : Setup) (o : TypeId) (m : Member) : Declaration → Declaration → Prop
  | member {name : String} {parameters : List String} {ms : List MemberDeclaration} {j : Nat}
      {md md' : MemberDeclaration} : ms[j]? = some md → s.Completes o m md →
      md.Reannotated md' →
      DiffersIn s o m (.object name parameters ms) (.object name parameters (ms.set j md'))

/-- Whether two runs leave the same but for the declaration of one member of a
type. -/
structure SameBut (s : Setup) (t : TypeId) (m : Member) (us us' : Units) : Prop where
  size : us'.size = us.size
  unit : ∀ {k U}, us.get? k = some U → ∃ U', us'.get? k = some U' ∧ U'.location = U.location ∧
    U'.imports = U.imports ∧ U'.declarations.size = U.declarations.size
  declaration : ∀ {k U U' p D D'}, us.get? k = some U → us'.get? k = some U' →
    U.declarations[p]? = some D → U'.declarations[p]? = some D' →
    D' = D ∨ ¬ LeftOut m ∧ s.DeclaredAt us t (k, p) ∧ s.DiffersIn t m D D'

/-! ## Members -/

/-- The members that are written when one of them is annotated differently. -/
theorem kept_modify {ms : List Member} (hm : ms[i]? = some m)
    (ha : a.has .ignore = m.annotations.has .ignore) :
    kept (ms.modify i fun m => { m with annotations := a }) = kept ms ∨
      ¬ LeftOut m ∧ ∃ j, (kept ms)[j]? = some m ∧
        kept (ms.modify i fun m => { m with annotations := a }) =
          (kept ms).set j { m with annotations := a } := by
  induction ms generalizing i with
  | nil => simp at hm
  | cons x xs ih =>
    cases i with
    | zero =>
      cases hm
      by_cases hx : m.annotations.has .ignore = true
      · exact .inl (by simp [kept, ha, hx])
      · exact .inr ⟨hx, 0, by simp [kept, hx], by simp [kept, ha, hx]⟩
    | succ i =>
      rcases ih hm with hsame | ⟨hkept, j, hj, hset⟩
      · refine .inl ?_
        simp only [kept, List.modify_succ_cons, List.filter_cons] at hsame ⊢
        rw [hsame]
      · refine .inr ⟨hkept, ?_⟩
        by_cases hx : x.annotations.has .ignore = true
        · exact ⟨j, by simpa [kept, hx] using hj, by simpa [kept, hx] using hset⟩
        · exact ⟨j + 1, by simpa [kept, hx] using hj, by simpa [kept, hx] using hset⟩

/-- The declarations of members one of which is another. -/
theorem completes_set (K : s.Akin s') (ho : s'.options = s.options) {ms : List Member}
    {ds ds' : List MemberDeclaration} {j : Nat} (hj : ms[j]? = some m)
    (h : List.Forall₂ (s.Completes o) ms ds)
    (h' : List.Forall₂ (s'.Completes o) (ms.set j m') ds') :
    ∃ md md', ds[j]? = some md ∧ s.Completes o m md ∧ s'.Completes o m' md' ∧
      ds' = ds.set j md' := by
  induction h generalizing j ds' with
  | nil => simp at hj
  | cons hd hrest ih =>
    cases j with
    | zero =>
      cases hj
      cases h' with
      | cons hd' hrest' =>
        exact ⟨_, _, rfl, hd, hd', by rw [completes_unique K ho hrest hrest']; rfl⟩
    | succ j =>
      cases h' with
      | cons hd' hrest' =>
        obtain ⟨md, md', hmd, hcompletes, hcompletes', rfl⟩ := ih hj hrest'
        exact ⟨md, md', hmd, hcompletes, hcompletes', by rw [hd.unique K ho hd']; rfl⟩

/-! ## Whole runs -/

section Annotate

variable (hd : s.types.get? t = some d) (hm : d.members[i]? = some m)
  (ha : a.has .ignore = m.annotations.has .ignore)
include hd hm ha

/-- The locations are the same when no rule tells the types apart. -/
theorem placesAlike_annotate (h : s.Governed r)
    (hrules : ∀ rule ∈ r.locations, ∀ x e e', s.types.get? x = some e →
      (s.annotate t i a).types.get? x = some e' →
      rule.location (s.annotate t i a).types e' = rule.location s.types e) :
    s.PlacesAlike (s.annotate t i a) := by
  rintro x _ location - - ⟨e, he, hl⟩
  obtain ⟨e', he', akin⟩ := (Universe.akin_annotate hd hm ha).type he
  refine ⟨e', he', ?_⟩
  rw [h.location] at hl
  rw [h.location, r.location_congr akin.key fun rule hrule => hrules rule hrule x e e' he he', hl]

theorem parallel_annotate (h : s.Governed r) (hplaces : s.PlacesAlike (s.annotate t i a)) :
    s.Parallel (s.annotate t i a) where
  types := Universe.akin_annotate hd hm ha
  override {x e e'} he he' := by
    obtain ⟨e₁, he₁, akin⟩ := (Universe.akin_annotate hd hm ha).type he
    cases he'.symm.trans he₁
    rw [h.override, h.override, r.override_congr akin.key]
  roots := rfl
  slack := rfl
  enums := rfl
  plural := rfl
  placed {x e e'} he he' := by
    obtain ⟨e₁, he₁, akin⟩ := (Universe.akin_annotate hd hm ha).type he
    cases he'.symm.trans he₁
    rw [h.location, h.location]
    exact r.location_map_congr akin.key _ _
  places := hplaces

/-- The members of a type that are written are the same, or one of them is
annotated differently. -/
theorem written_annotate (o : TypeId) : (s.annotate t i a).written o = s.written o ∨
    o = t ∧ ¬ LeftOut m ∧ ∃ j, (s.written o)[j]? = some m ∧
      (s.annotate t i a).written o = (s.written o).set j { m with annotations := a } := by
  by_cases heq : t = o
  · subst heq
    have hd' : (s.annotate t i a).types.get? t = some (d.annotate i a) := by
      rw [Universe.get?_annotate, if_pos rfl, hd]
      rfl
    rw [written_of_get? hd, written_of_get? hd']
    exact (kept_modify hm ha).imp_right fun h => ⟨rfl, h⟩
  · refine .inl ?_
    rw [written, written, Universe.get?_annotate, if_neg heq]

/-- Other annotations on a member leave a declaration as it is, or set the declaration of
that member in it. -/
theorem Finished.set_annotate (h : s.Finished st) (h' : (s.annotate t i a).Finished st')
    (K : s.Akin (s.annotate t i a)) {k : UnitId} {p : Nat} {U U' : OutputUnit}
    {D D' : Declaration} (hplaced : st'.placed k = st.placed k) (hU : st.units.get? k = some U)
    (hU' : st'.units.get? k = some U') (hD : U.declarations[p]? = some D)
    (hD' : U'.declarations[p]? = some D') :
    D' = D ∨ ¬ LeftOut m ∧ s.DeclaredAt st.units t (k, p) ∧ ∃ name names ms j md md',
      D = .object name names ms ∧ D' = .object name names (ms.set j md') ∧ ms[j]? = some md ∧
        s.Completes t m md ∧ (s.annotate t i a).Completes t { m with annotations := a } md' := by
  obtain ⟨o, hp, -⟩ := h.settled.consistent.type_of_declaration hU hD
  rcases h.declarations_cases h' K rfl hp (hplaced ▸ hp) hU hU' hD hD' with
    hsame | ⟨name, names, ms, ms', rfl, rfl, hms, hms'⟩
  · exact .inl hsame
  · rcases written_annotate hd hm ha o with hwritten | ⟨rfl, hkept, j, hj, hwritten⟩
    · rw [hwritten] at hms'
      exact .inl (by rw [completes_unique K rfl hms hms'])
    · rw [hwritten] at hms'
      obtain ⟨md, md', hmd, hcompletes, hcompletes', rfl⟩ := completes_set K rfl hj hms hms'
      exact .inr ⟨hkept, h.declaredAt hp, name, names, ms, j, md, md', rfl, rfl, hmd, hcompletes,
        hcompletes'⟩

/-- Other annotations on a member leave a declaration as it is, or change it in
the declaration of that member. -/
theorem Finished.declaration_annotate (h : s.Finished st) (h' : (s.annotate t i a).Finished st')
    (L : s.Lawful) (K : s.Akin (s.annotate t i a)) {k : UnitId} {p : Nat} {U U' : OutputUnit}
    {D D' : Declaration} (hplaced : st'.placed k = st.placed k) (hU : st.units.get? k = some U)
    (hU' : st'.units.get? k = some U') (hD : U.declarations[p]? = some D)
    (hD' : U'.declarations[p]? = some D') :
    D' = D ∨ ¬ LeftOut m ∧ s.DeclaredAt st.units t (k, p) ∧ s.DiffersIn t m D D' := by
  refine (h.set_annotate hd hm ha h' K hplaced hU hU' hD hD').imp_right ?_
  rintro ⟨hkept, hat, name, names, ms, j, md, md', rfl, rfl, hmd, hcompletes, hcompletes'⟩
  have akin : m.Akin { m with annotations := a } := ⟨rfl, rfl, ha⟩
  obtain ⟨hname, htype⟩ := hcompletes.vary K rfl L.sound akin hcompletes'
  exact ⟨hkept, hat, .member hmd hcompletes ⟨hname, htype⟩⟩

/-- Other annotations on a member, as long as it is left out and the declared
types are placed as before, leave a run with the same error, or with the same
units but for the declaration of that member. -/
theorem annotations_local (h : s.Governed r) (hplaces : s.PlacesAlike (s.annotate t i a)) :
    (∃ e, s.units = .error e ∧ (s.annotate t i a).units = .error e) ∨
      ∃ us us', s.units = .ok us ∧ (s.annotate t i a).units = .ok us' ∧ s.SameBut t m us us' := by
  have P := parallel_annotate hd hm ha h hplaces
  have L := h.lawful
  have L' : (s.annotate t i a).Lawful := L.akin P.toAkin rfl rfl
  refine (P.ends L L' rfl).imp_right ?_
  rintro ⟨st, st', hus, hus', hst, hst', hmatches⟩
  refine ⟨st.units, st'.units, hus, hus', ?_, ?_, ?_⟩
  · have hsize := congrArg Units.size hmatches.units
    simpa [Units.size, Units.erase] using hsize.symm
  · intro k U hU
    have hget := congrArg (·.get? k) hmatches.units
    simp only [Units.get?_erase, hU, Option.map_some] at hget
    obtain ⟨U', hU', hsame⟩ := Option.map_eq_some_iff.1 hget.symm
    have hsize := congrArg (·.declarations.size) hsame
    refine ⟨U', hU', congrArg (·.location) hsame, congrArg (·.imports) hsame, ?_⟩
    simpa [OutputUnit.erase] using hsize
  · intro k U U' p D D' hU hU' hD hD'
    exact hst.declaration_annotate hd hm ha hst' L P.toAkin (hmatches.placed k) hU hU' hD hD'

end Annotate

/-- Annotations that say that neither a value nor its items are null. -/
def neverNull : Annotations := { markers := { notNull := true, itemNotNull := true } }

theorem neverNull_checks :
    (((shop.types.get? ⟨0⟩).bind (·.members[0]?)).map (·.annotations.has .ignore) = some false) ∧
    (shop.units.map fun us => (us.get? ⟨0⟩).map memberTexts).toOption =
      some (some [(true, "null | (null | T)[]"), (true, "null | State"), (true, "null | Person")]) ∧
    ((shop.annotate ⟨0⟩ 0 neverNull).units.map fun us => (us.get? ⟨0⟩).map memberTexts).toOption =
      some (some [(false, "T[]"), (true, "null | State"), (true, "null | Person")]) := by
  decide +kernel

/-- The items of a page of the shop are never null when they are annotated so,
and nothing else changes. -/
theorem annotations_local_shop : shop.Governed shopRules ∧ ∃ d m us us',
    shop.types.get? ⟨0⟩ = some d ∧ d.members[0]? = some m ∧
    neverNull.has .ignore = m.annotations.has .ignore ∧
    shop.PlacesAlike (shop.annotate ⟨0⟩ 0 neverNull) ∧
    shop.units = .ok us ∧ (shop.annotate ⟨0⟩ 0 neverNull).units = .ok us' ∧
    (us.get? ⟨0⟩).map memberTexts =
      some [(true, "null | (null | T)[]"), (true, "null | State"), (true, "null | Person")] ∧
    (us'.get? ⟨0⟩).map memberTexts =
      some [(false, "T[]"), (true, "null | State"), (true, "null | Person")] ∧
    shop.SameBut ⟨0⟩ m us us' := by
  obtain ⟨hmember, hbefore, hafter⟩ := neverNull_checks
  obtain ⟨m, hm, hignore⟩ := Option.map_eq_some_iff.1 hmember
  obtain ⟨d, hd, hm⟩ := Option.bind_eq_some_iff.1 hm
  obtain ⟨us, hus, hbefore⟩ := exists_units_of_toOption hbefore
  obtain ⟨us', hus', hafter⟩ := exists_units_of_toOption hafter
  have ha : neverNull.has .ignore = m.annotations.has .ignore := hignore.symm
  have hplaces : shop.PlacesAlike (shop.annotate ⟨0⟩ 0 neverNull) :=
    placesAlike_annotate hd hm ha shop_governed fun rule hrule _ _ _ _ _ => by
      rw [List.mem_singleton.1 hrule]
  refine ⟨shop_governed, d, m, us, us', hd, hm, ha, hplaces, hus, hus', hbefore, hafter, ?_⟩
  rcases annotations_local hd hm ha shop_governed hplaces with
    ⟨e, he, -⟩ | ⟨vs, vs', hvs, hvs', hsame⟩
  · cases hus.symm.trans he
  · cases hus.symm.trans hvs
    cases hus'.symm.trans hvs'
    exact hsame

/-! ## A class that moves -/

/-- A document with two classes of one simple name. -/
@[irreducible] def namesakesText : String :=
  r#"[[["object","A.X",[],[["V","string",[],[2]]]],["object","B.X"]],["A.X","B.X"]]"#

/-- A rule that places the first class. -/
def namesakeRules (location : Universe → Descriptor → String) : Rules where
  locations := [⟨"A.X", location⟩]

/-- The setup of the document under the rule. -/
def namesakes (location : Universe → Descriptor → String) : Setup :=
  ofDocument namesakesText {} (namesakeRules location)

theorem loads_namesakesText : loads namesakesText = true := by decide +kernel

theorem namesakes_governed (location : Universe → Descriptor → String) :
    (namesakes location).Governed (namesakeRules location) :=
  governed_ofDocument _ loads_namesakesText rfl rfl

/-- A run of which the error is known fails. -/
theorem units_eq_error {e : RunError} (h : s.finalState.1 = some e) : s.units = .error e := by
  unfold units
  generalize s.finalState = p at h ⊢
  obtain ⟨_, st⟩ := p
  cases h
  rfl

/-- A rule that moves a class some member of which is never null. -/
def moveNeverNull (_ : Universe) (d : Descriptor) : String :=
  if d.members.any (·.annotations.has .notNull) then "" else "a"

theorem moveNeverNull_checks :
    (((namesakes moveNeverNull).types.get? ⟨0⟩).bind (·.members[0]?)).map
      (·.annotations.has .ignore) = some false ∧
    ((namesakes moveNeverNull).units.map Units.size).toOption = some 2 ∧
    ((namesakes moveNeverNull).annotate ⟨0⟩ 0 neverNull).finalState.1 =
      some (.unit (.nameTaken "index" "X")) := by
  decide +kernel

/-- When a rule looks at annotations, other annotations on a member may move its
class to where another has the name.  The run succeeds without them, and fails
with them. -/
theorem exists_error_annotate :
    (namesakes moveNeverNull).Governed (namesakeRules moveNeverNull) ∧ ∃ d m us,
      (namesakes moveNeverNull).types.get? ⟨0⟩ = some d ∧ d.members[0]? = some m ∧
      neverNull.has .ignore = m.annotations.has .ignore ∧
      (namesakes moveNeverNull).units = .ok us ∧
      ((namesakes moveNeverNull).annotate ⟨0⟩ 0 neverNull).units =
        .error (.unit (.nameTaken "index" "X")) := by
  obtain ⟨hmember, hbefore, hafter⟩ := moveNeverNull_checks
  obtain ⟨m, hm, hignore⟩ := Option.map_eq_some_iff.1 hmember
  obtain ⟨d, hd, hm⟩ := Option.bind_eq_some_iff.1 hm
  obtain ⟨us, hus, -⟩ := exists_units_of_toOption hbefore
  exact ⟨namesakes_governed moveNeverNull, d, m, us, hd, hm, hignore.symm, hus,
    units_eq_error hafter⟩

end Setup

end TypeExport
