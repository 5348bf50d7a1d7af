import TypeExport.Proofs.Run.Choosing
import TypeExport.Proofs.Run.Members
import TypeExport.Proofs.Run.Paired
import TypeExport.Proofs.Run.Parallel

/-!
# Parallel runs

The steps of two parallel setups are paired.  They find the same strategies, up
to how a `Nullable` is treated, resolve the same types in the same order, import
the same names, and write the same expressions once what says that a value may
be null is erased (`Setup.paired_toolkit`).

The annotations that are handed down differ, because a member may be annotated
differently, and because only a `Nullable` that is treated as its underlying
type hands them on.  So two references are paired whatever the annotations of
each are.
-/

namespace TypeExport

/-- Whether two expressions are the same once they are erased. -/
def TypeExpr.SameErased (e e' : TypeExpr) : Prop := e.erase = e'.erase

theorem TypeExpr.SameErased.orNullable {e e' : TypeExpr} (h : e.SameErased e') (b b' : Bool)
    (o o' : Options) : (e.orNullable b o).SameErased (e'.orNullable b' o') := by
  rw [SameErased, erase_orNullable, erase_orNullable]
  exact h

/-! ## Questions -/

section Questions

variable {s : Setup} {u v : Universe} (h : u.Akin v) {t : TypeId} {d d' : Descriptor}
include h

theorem Universe.Akin.paired_view (id : TypeId) :
    Paired s Descriptor.Akin (Run.ask (u.view id)) (Run.ask (v.view id)) := by
  rcases h.view_cases id with ⟨d, d', hd, hd', hdd'⟩ | ⟨fault, hd, hd'⟩ <;> rw [hd, hd']
  · exact .pure hdd'
  · exact .throw _

theorem Universe.Akin.paired_viewAll (ids : List TypeId) :
    Paired s (List.Forall₂ Descriptor.Akin) (Run.ask (u.viewAll ids))
      (Run.ask (v.viewAll ids)) := by
  rcases h.viewAll_cases ids with ⟨ds, ds', hds, hds', hall⟩ | ⟨fault, hds, hds'⟩ <;>
    rw [hds, hds']
  · exact .pure hall
  · exact .throw _

/-- The definition of a closed generic. -/
theorem Universe.Akin.paired_definition_of_closed (hdd' : d.Akin d') {definition : TypeId}
    {arguments : List TypeId} (hkind : d.kind = .closed definition arguments) (t : TypeId) :
    Paired s (fun x y => x.map (·.1) = some definition ∧ y.map (·.1) = some definition)
      (Run.ask (u.definition? t d)) (Run.ask (v.definition? t d')) := by
  unfold Universe.definition?
  rw [hdd'.kind, hkind]
  dsimp only
  rcases h.view_cases definition with ⟨e, e', he, he', -⟩ | ⟨fault, he, he'⟩ <;> rw [he, he']
  · exact .pure ⟨rfl, rfl⟩
  · exact .throw _

/-- The flags of a key are counted in every mode. -/
theorem Universe.Akin.paired_valueNullable (key : TypeId) (m m' : NullabilityMode)
    (a a' : Option Attributes) : Paired s Always
      (Run.ask (u.valueNullable m a key d)) (Run.ask (v.valueNullable m' a' key d')) := by
  unfold Universe.valueNullable
  rw [h.flagCount]
  cases u.flagCount key with
  | ok n => exact .pure trivial
  | error f => exact .throw _

/-- The flags of the arguments are counted in one mode, and can be. -/
theorem Universe.Akin.paired_argumentNullable (hu : u.Sound) {before : List TypeId}
    (hbefore : ∀ x ∈ before, u.Issued x) (m m' : NullabilityMode) (a a' : Option Attributes) :
    Paired s Always (Run.ask (u.argumentNullable m a before d))
      (Run.ask (v.argumentNullable m' a' before d')) := by
  have hbefore' : ∀ x ∈ before, v.Issued x := fun x hx => h.issued.2 (hbefore x hx)
  obtain ⟨b, hb⟩ := hu.exists_argumentNullable m a hbefore d
  obtain ⟨b', hb'⟩ := (h.sound hu).exists_argumentNullable m' a' hbefore' d'
  rw [hb, hb']
  exact .pure trivial

end Questions

namespace Setup

variable {s s' : Setup} {st st' : State} {t : TypeId} {d d' : Descriptor} {k : UnitId}
  {σ σ' : Strategy} {below below' : Toolkit} {a a' : Option Attributes}

/-- Whether the steps of two toolkits are paired, for the types that are resolved. -/
structure PairedTools (s : Setup) (below below' : Toolkit) : Prop where
  resolve : ∀ {t}, s.Resolved t →
    Paired s (Strategy.Matches s t) (below.resolve t) (below'.resolve t)
  reference : ∀ {t}, s.Resolved t → ∀ k a a', Paired s TypeExpr.SameErased
    (below.reference k a t) (below'.reference k a' t)

/-! ## Strategies -/

section Strategies

variable (P : s.Parallel s') (hdd' : d.Akin d') (hd : s.types.get? t = some d)
include P hdd' hd

theorem paired_placeEnumeration {values : List EnumValue}
    (ht : s.Treats t (.enumeration values)) (location : String) :
    Paired s (Strategy.Matches s t) (s.placeEnumeration location d values)
      (s'.placeEnumeration location d' values) := by
  have hname : d.name = s.types.nameOf t := (Universe.nameOf_of_get? hd).symm
  unfold placeEnumeration
  simp only [P.enums, hdd'.name, Options.pluralOf, P.plural, hname]
  refine (Paired.unitAt location).bind fun k _ hk => ?_
  cases hk
  cases hstyle : s.options.enums with
  | native =>
    exact (Paired.declare k _).bind fun _ _ _ => .pure (.same (.nativeEnum hstyle ht))
  | fixedStrings =>
    exact (Paired.declare k _).bind fun _ _ _ => .pure (.same (.fixedStrings hstyle ht))

theorem paired_placeObject {parameters : List TypeId} (ht : s.Treats t (.object parameters))
    (location : String) :
    Paired s (Strategy.Matches s t) (s.placeObject location d parameters)
      (s'.placeObject location d' parameters) := by
  have hname : d.name = s.types.nameOf t := (Universe.nameOf_of_get? hd).symm
  refine (Paired.unitAt location).bind fun k _ hk => ?_
  cases hk
  refine (P.types.paired_viewAll _).bind fun ps ps' hps => ?_
  have hnames : ps'.map (·.name) = ps.map (·.name) := by
    induction hps with
    | nil => rfl
    | cons h _ ih => rw [List.map_cons, List.map_cons, h.name, ih]
  rw [hdd'.name, hnames, hname]
  refine (Paired.declare k _).bind fun p _ hp => ?_
  cases hp
  exact .pure (.same (.object ht))

variable (L : s.Lawful) (hd' : s'.types.get? t = some d')
include L hd'

/-- The location matters for a type that is declared. -/
theorem paired_standardStrategy (hover : s.hooks.override d = .ok .standard)
    {location location' : String} (hlocation : ∀ e, s.Outlines t e → location' = location) :
    Paired s (Strategy.Matches s t) (s.standardStrategy location d)
      (s'.standardStrategy location' d') := by
  have ht : s.Treats t (s.types.formOf d.kind) := ⟨d, hd, hover, rfl⟩
  rw [standardStrategy_eq L.sound hd, standardStrategy_eq (P.types.sound L.sound) hd',
    P.types.formOf, hdd'.kind]
  generalize s.types.formOf d.kind = form at ht
  cases form with
  | absent x =>
    -- the one strategy that the options decide about
    have absent : ∀ explicit : Bool,
        (if explicit then Strategy.nullable else .unwrapped x).IsAbsent x := by
      rintro (_ | _)
      · exact .inr rfl
      · exact .inl rfl
    exact .pure (.absent ht (absent _) (absent _))
  | enumeration values =>
    obtain ⟨e, he⟩ : ∃ e, s.outline t (.enumeration values) = some e := by
      unfold outline
      cases s.options.enums <;> exact ⟨_, rfl⟩
    rw [hlocation e ⟨_, ht, he⟩]
    exact paired_placeEnumeration P hdd' hd ht location
  | object parameters =>
    rw [hlocation _ ⟨_, ht, rfl⟩]
    exact paired_placeObject P hdd' hd ht location
  | container =>
    rw [hdd'.key]
    exact .throw _
  | primitive => exact .pure (.same (.builtin ht))
  | sequence => exact .pure (.same (.array ht))
  | dictionary => exact .pure (.same (.dictionary ht))
  | applied => exact .pure (.same (.genericInstance ht))
  | parameter => exact .pure (.same (.genericParameter ht))

theorem paired_strategyFor (hr : s.Resolved t) :
    Paired s (Strategy.Matches s t) (s.strategyFor d) (s'.strategyFor d') := by
  have rest : ∀ {location location'}, (∀ e, s.Outlines t e → location' = location) →
      Paired s (Strategy.Matches s t)
        (do
          let decision ← Run.ofExcept (s.hooks.override d)
          s.strategyBy location d decision)
        (do
          let decision ← Run.ofExcept (s'.hooks.override d')
          s'.strategyBy location' d' decision) := by
    intro location location' hlocation
    rw [P.override hd hd']
    cases hover : s.hooks.override d with
    | error e => exact .throw e
    | ok decision =>
      cases decision with
      | standard => exact paired_standardStrategy P hdd' hd L hd' hover hlocation
      | redirect name target =>
        exact (Paired.log _ _).bind fun _ _ _ => .pure (.same (.redirect ⟨d, hd, hover⟩))
      | custom => exact absurd hover (L.override d)
  rw [strategyFor_eq, strategyFor_eq]
  rcases Paired.eq_or_eq_of_map (P.placed hd hd') with
    ⟨location', location, hl', hl, -⟩ | ⟨e, hl', hl⟩ <;> rw [hl, hl']
  · have hlocation : ∀ e, s.Outlines t e → location' = location := by
      intro e he
      obtain ⟨d'', hd'', hlocated⟩ := P.places hr he ⟨d, hd, hl⟩
      cases hd'.symm.trans hd''
      exact Except.ok.inj (hl'.symm.trans hlocated)
    show Paired s _ (do
      if location ≠ "" then Run.log (.located d.key location)
      let decision ← Run.ofExcept (s.hooks.override d)
      s.strategyBy location d decision) (do
      if location' ≠ "" then Run.log (.located d'.key location')
      let decision ← Run.ofExcept (s'.hooks.override d')
      s'.strategyBy location' d' decision)
    split
    · refine .log_left _ ?_
      split
      · exact .log_right _ (rest hlocation)
      · exact rest hlocation
    · split
      · exact .log_right _ (rest hlocation)
      · exact rest hlocation
  · exact .throw e

end Strategies

/-! ## Resolving -/

/-- The parts of a `Nullable`, however it is treated. -/
theorem resolveParts_absent {x : TypeId} (hform : s.types.formOf d.kind = .absent x)
    (hσ : σ.IsAbsent x) (below : Toolkit) :
    s.resolveParts below t d σ = resolveAll below [x] := by
  rcases hσ with rfl | rfl
  · simp only [resolveParts, Universe.element?_of_absent hform]
  · rfl

theorem paired_importedReference (s : Setup) (k : UnitId) (name : String)
    (source : ImportSource) : Paired s TypeExpr.SameErased (importedReference k name source)
      (importedReference k name source) :=
  (Paired.addImport k _).bind fun _ _ _ => .pure rfl

/-- The parts of a resolved type are resolved. -/
theorem Treats.resolved_part {form : Form} (ht : s.Treats t form) (hr : s.Resolved t) :
    ∀ x ∈ form.parts, s.Resolved x := fun _ hx => .part hr ⟨form, ht, hx⟩

section Resolving

variable (hbelow : PairedTools s below below')
include hbelow

theorem paired_resolveAll {ts : List TypeId} (hts : ∀ t ∈ ts, s.Resolved t) :
    Paired s Always (resolveAll below ts) (resolveAll below' ts) := by
  induction ts with
  | nil => exact .pure trivial
  | cons t ts ih =>
    exact (hbelow.resolve (hts t List.mem_cons_self)).bind fun _ _ _ =>
      ih fun x hx => hts x (List.mem_cons_of_mem _ hx)

variable (P : s.Parallel s') (L : s.Lawful) (hdd' : d.Akin d') (hd : s.types.get? t = some d)
  (hd' : s'.types.get? t = some d') (hr : s.Resolved t)
include P hdd' hd hr

theorem paired_resolveParts (hσ : Strategy.Matches s t σ σ') :
    Paired s Always (s.resolveParts below t d σ) (s'.resolveParts below' t d' σ') := by
  cases hσ with
  | absent ht hσ hσ' =>
    have hkind := ht.formOf hd
    have hkind' := (P.types.formOf d'.kind).trans (hdd'.kind ▸ hkind)
    rw [resolveParts_absent hkind hσ, resolveParts_absent hkind' hσ']
    exact paired_resolveAll hbelow (ht.resolved_part hr)
  | same hσ =>
    cases hσ with
    | @array x ht =>
      have helement := Universe.element?_of_sequence (ht.formOf hd)
      simp only [resolveParts, hdd'.kind, helement]
      exact paired_resolveAll hbelow (ht.resolved_part hr)
    | @nullable x _ ht =>
      have helement := Universe.element?_of_absent (ht.formOf hd)
      simp only [resolveParts, hdd'.kind, helement]
      exact paired_resolveAll hbelow (ht.resolved_part hr)
    | unwrapped _ ht => exact paired_resolveAll hbelow (ht.resolved_part hr)
    | dictionary ht =>
      simp only [resolveParts, hdd'.kind, Universe.arguments_of_dictionary (ht.formOf hd)]
      exact (P.types.paired_viewAll _).bind fun _ _ _ =>
        paired_resolveAll hbelow (ht.resolved_part hr)
    | @genericInstance definition arguments ht =>
      have hkind := Universe.eq_closed_of_applied (ht.formOf hd)
      have hparts := ht.resolved_part hr
      simp only [resolveParts, hdd'.kind, hkind, TypeKind.arguments]
      refine (P.types.paired_definition_of_closed hdd' hkind t).bind fun x y hxy => ?_
      rw [← Option.toList_map, ← Option.toList_map, hxy.1, hxy.2]
      refine (paired_resolveAll hbelow fun x hx => ?_).bind fun _ _ _ => ?_
      · exact hparts x (List.mem_singleton.1 hx ▸ List.mem_cons_self)
      · exact (P.types.paired_viewAll _).bind fun _ _ _ =>
          paired_resolveAll hbelow fun x hx => hparts x (List.mem_cons_of_mem _ hx)
    | redirect | builtin | genericParameter | nativeEnum | fixedStrings | object =>
      exact .pure trivial

omit hdd' hd in
include L in
theorem paired_resolveStep :
    Paired s (Strategy.Matches s t) (s.resolveStep below t) (s'.resolveStep below' t) := by
  refine .get_bind fun st st' h => ?_
  rcases h.context? t with ⟨hnone, hnone'⟩ | ⟨c, c', hc, hc', hmatch⟩
  · rw [hnone, hnone']
    dsimp only
    rcases P.types.get?_cases t with ⟨d, d', hd, hd', hdd'⟩ | ⟨hd, hd'⟩
    · rw [Universe.view_of_get? hd, Universe.view_of_get? hd']
      refine (paired_strategyFor P hdd' hd L hd' hr).bind fun σ σ' hσ => ?_
      have hcontext : Context.Matches s (.create t σ) (.create t σ') := by
        refine ⟨rfl, ?_, hσ, hr⟩
        cases hσ with
        | same => rfl
        | absent _ hσ hσ' => rcases hσ with rfl | rfl <;> rcases hσ' with rfl | rfl <;> rfl
      exact (Paired.log _ _).bind fun _ _ _ => (Paired.addContext hcontext).bind fun _ _ _ =>
        (paired_resolveParts hbelow P hdd' hd hr hσ).bind fun _ _ _ => .pure hσ
    · rw [Universe.view, Universe.view, hd, hd']
      exact .throw _
  · rw [hc, hc']
    have htype : c.type = t := by simpa using Array.find?_some hc
    exact .pure (htype ▸ hmatch.strategy)

/-! ## Referring -/

theorem paired_arrayReference {x : TypeId} (ht : s.Treats t (.sequence x)) :
    Paired s TypeExpr.SameErased (s.arrayReference below k a d)
      (s'.arrayReference below' k a' d') := by
  have hx : s.Resolved x := ht.resolved_part hr x (List.mem_singleton.2 rfl)
  have helement := Universe.element?_of_sequence (ht.formOf hd)
  unfold arrayReference
  simp only [hdd'.kind, helement]
  refine (P.types.paired_view x).bind fun e e' _ => ?_
  refine (hbelow.reference hx k none none).bind fun item item' hitem => ?_
  exact .pure (congrArg TypeExpr.array (hitem.orNullable _ _ _ _))

theorem paired_dictionaryReference {key value : TypeId} (ht : s.Treats t (.dictionary key value)) :
    Paired s TypeExpr.SameErased (s.dictionaryReference below k a d)
      (s'.dictionaryReference below' k a' d') := by
  have hparts := ht.resolved_part hr
  have hkey : s.Resolved key := hparts key List.mem_cons_self
  have hvalue : s.Resolved value := hparts value (by simp [Form.parts])
  unfold dictionaryReference
  simp only [hdd'.kind, hdd'.key, Universe.arguments_of_dictionary (ht.formOf hd)]
  refine (P.types.paired_viewAll _).bind fun ds ds' hds => ?_
  rcases hds with _ | ⟨-, _ | ⟨-, _ | ⟨-, -⟩⟩⟩
  · exact .throw _
  · exact .throw _
  · refine (hbelow.reference hkey k none none).bind fun keyExpr keyExpr' hkey => ?_
    refine (hbelow.reference hvalue k none none).bind fun valueExpr valueExpr' hvalue => ?_
    exact (P.types.paired_valueNullable key _ _ a a').bind fun _ _ _ =>
      .pure (congrArg₂ TypeExpr.dictionary hkey (hvalue.orNullable _ _ _ _))
  · exact .throw _

theorem paired_nullableReference {x : TypeId} (ht : s.Treats t (.absent x)) :
    Paired s TypeExpr.SameErased (s.nullableReference below k d)
      (s'.nullableReference below' k d') := by
  have hx : s.Resolved x := ht.resolved_part hr x (List.mem_singleton.2 rfl)
  have helement := Universe.element?_of_absent (ht.formOf hd)
  unfold nullableReference
  simp only [hdd'.kind, helement]
  exact (P.types.paired_view x).bind fun _ _ _ => (hbelow.reference hx k none none).bind
    fun _ _ h => .pure (h.orNullable _ _ _ _)

omit hdd' hd hr in
include L in
theorem paired_argumentReferences {before ids : List TypeId}
    (hbefore : ∀ x ∈ before, s.types.Issued x) (hids : ∀ x ∈ ids, s.Resolved x) :
    Paired s (fun es es' => TypeExpr.eraseAll es = TypeExpr.eraseAll es')
      (s.argumentReferences below k a before ids)
      (s'.argumentReferences below' k a' before ids) := by
  induction ids generalizing before with
  | nil => exact .pure rfl
  | cons x xs ih =>
    have hx := hids x List.mem_cons_self
    refine (hbelow.reference hx k none none).bind fun e e' he => ?_
    refine (P.types.paired_view x).bind fun d d' _ => ?_
    refine (P.types.paired_argumentNullable L.sound hbefore _ _ a a').bind fun _ _ _ => ?_
    have hbefore' : ∀ y ∈ before ++ [x], s.types.Issued y := by
      intro y hy
      rcases List.mem_append.1 hy with hold | hnew
      · exact hbefore y hold
      · rw [List.mem_singleton.1 hnew]
        exact (L.resolved hx).1
    refine (ih hbefore' fun y hy => hids y (List.mem_cons_of_mem _ hy)).bind fun es es' hes => ?_
    exact .pure (congrArg₂ List.cons (he.orNullable _ _ _ _) hes)

include L in
theorem paired_genericReference {definition : TypeId} {arguments : List TypeId}
    (ht : s.Treats t (.applied definition arguments)) :
    Paired s TypeExpr.SameErased (s.genericReference below k a t d)
      (s'.genericReference below' k a' t d') := by
  have hkind := Universe.eq_closed_of_applied (ht.formOf hd)
  have hparts := ht.resolved_part hr
  unfold genericReference
  simp only [hdd'.kind, hkind, TypeKind.arguments]
  refine (P.types.paired_definition_of_closed hdd' hkind t).bind fun x y hxy => ?_
  obtain ⟨⟨_, e⟩, rfl, rfl⟩ := Option.map_eq_some_iff.1 hxy.1
  obtain ⟨⟨_, e'⟩, rfl, hsame⟩ := Option.map_eq_some_iff.1 hxy.2
  cases hsame
  refine (hbelow.reference (hparts _ List.mem_cons_self) k none none).bind
    fun base base' hbase => (P.types.paired_viewAll _).bind fun _ _ _ => ?_
  refine (paired_argumentReferences hbelow P L (by simp) fun x hx =>
    hparts x (List.mem_cons_of_mem _ hx)).bind fun es es' hes => ?_
  exact .pure (congrArg₂ TypeExpr.generic hbase hes)

omit hbelow hdd' P hr in
/-- A reference to a `Nullable` from a reference to its underlying type. -/
theorem nullableReference_eq (sound : s.types.Sound) {x : TypeId}
    (hform : s.types.formOf d.kind = .absent x) (below : Toolkit) (k : UnitId) :
    s.nullableReference below k d = (do
      let inner ← below.reference k none x
      return inner.orNullable true s.options) := by
  have ht : s.types.form? t = some (.absent x) := by rw [Universe.form?_of_get? hd, hform]
  obtain ⟨e, he⟩ := Universe.issued_iff.1 (sound.part ht (c := x) (List.mem_singleton.2 rfl)).1
  simp only [nullableReference, Universe.element?_of_absent hform, Universe.view_of_get? he,
    Run.ask_ok, pure_bind]

include L hd'

/-- A reference to a `Nullable` is one to its underlying type, however it is
treated. -/
theorem paired_absentReference {x : TypeId} (ht : s.Treats t (.absent x)) (hσ : σ.IsAbsent x)
    (hσ' : σ'.IsAbsent x) :
    Paired s TypeExpr.SameErased (s.referenceFor below k a t d σ)
      (s'.referenceFor below' k a' t d' σ') := by
  have hkind := ht.formOf hd
  have hkind' := (P.types.formOf d'.kind).trans (hdd'.kind ▸ hkind)
  have hx : s.Resolved x := ht.resolved_part hr x (List.mem_singleton.2 rfl)
  rcases hσ with rfl | rfl <;> rcases hσ' with rfl | rfl <;> simp only [referenceFor]
  · exact paired_nullableReference hbelow P hdd' hd hr ht
  · rw [nullableReference_eq hd L.sound hkind, ← bind_pure (below'.reference k a' x)]
    refine (hbelow.reference hx k none a').bind fun _ _ h => .pure ?_
    rw [TypeExpr.SameErased, TypeExpr.erase_orNullable]
    exact h
  · rw [nullableReference_eq hd' (P.types.sound L.sound) hkind',
      ← bind_pure (below.reference k a x)]
    refine (hbelow.reference hx k a none).bind fun _ _ h => .pure ?_
    rw [TypeExpr.SameErased, TypeExpr.erase_orNullable]
    exact h
  · exact hbelow.reference hx k a a'

theorem paired_referenceFor (hσ : Strategy.Matches s t σ σ') :
    Paired s TypeExpr.SameErased (s.referenceFor below k a t d σ)
      (s'.referenceFor below' k a' t d' σ') := by
  cases hσ with
  | absent ht hσ hσ' => exact paired_absentReference hbelow P L hdd' hd hd' hr ht hσ hσ'
  | same hσ =>
    cases hσ with
    | builtin =>
      simp only [referenceFor, primitiveReference, hdd'.kind]
      exact .pure rfl
    | genericParameter =>
      simp only [referenceFor, hdd'.name]
      exact .pure rfl
    | array ht => exact paired_arrayReference hbelow P hdd' hd hr ht
    | dictionary ht => exact paired_dictionaryReference hbelow P hdd' hd hr ht
    | nullable _ ht => exact paired_nullableReference hbelow P hdd' hd hr ht
    | unwrapped _ ht =>
      exact hbelow.reference (ht.resolved_part hr _ (List.mem_singleton.2 rfl)) k a a'
    | genericInstance ht => exact paired_genericReference hbelow P L hdd' hd hr ht
    | nativeEnum | fixedStrings | object | redirect => exact paired_importedReference _ k _ _

omit hdd' hd hd' in
theorem paired_referenceStep :
    Paired s TypeExpr.SameErased (s.referenceStep below k a t)
      (s'.referenceStep below' k a' t) := by
  refine (hbelow.resolve hr).bind fun σ σ' hσ => ?_
  rcases P.types.get?_cases t with ⟨d, d', hd, hd', hdd'⟩ | ⟨hd, hd'⟩
  · rw [Universe.view_of_get? hd, Universe.view_of_get? hd']
    exact paired_referenceFor hbelow P L hdd' hd hd' hr hσ
  · rw [Universe.view, Universe.view, hd, hd']
    exact .throw _

end Resolving

/-- The toolkits of two parallel setups are paired. -/
theorem paired_toolkit (P : s.Parallel s') (L : s.Lawful) (fuel : Nat) :
    PairedTools s (s.toolkit fuel) (s'.toolkit fuel) := by
  induction fuel with
  | zero => exact ⟨fun _ => .throw _, fun _ _ _ _ => .throw _⟩
  | succ fuel ih =>
    exact ⟨fun hr => paired_resolveStep ih P L hr, fun hr _ _ _ => paired_referenceStep ih P L hr⟩

end Setup

end TypeExport
