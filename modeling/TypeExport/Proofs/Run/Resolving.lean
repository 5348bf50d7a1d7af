import TypeExport.Proofs.Ends
import TypeExport.Proofs.Run.Blame

/-!
# Resolving keeps a state consistent

Resolving a type gives it a context of the strategy that the setup asks for,
and its parts as well (`Setup.ends_resolve`).  The descent ends because a part
is of lower rank.  What is said of the steps is said of a toolkit one level
down, and the toolkits follow by induction on the fuel.
-/

namespace TypeExport

/-! ## Steps of a run -/

namespace Run

variable {α : Type} {st : State} {bad : RunError → State → Prop}

@[simp] theorem ask_ok {a : α} : ask (.ok a) = pure a := rfl

@[simp] theorem ends_ofExcept {x : Except RunError α} {good : α → State → Prop} :
    Ends (ofExcept x) st good bad ↔
      match x with
      | .ok a => good a st
      | .error e => bad e st := by
  cases x <;> exact Iff.rfl

@[simp] theorem ends_log {e : Event} {good : Unit → State → Prop} :
    Ends (log e) st good bad ↔ good () { st with events := st.events.push e } := Iff.rfl

@[simp] theorem ends_addContext {c : Context} {good : Unit → State → Prop} :
    Ends (addContext c) st good bad ↔ good () { st with contexts := st.contexts.push c } := Iff.rfl

@[simp] theorem ends_unitAt {location : String} {good : UnitId → State → Prop} :
    Ends (unitAt location) st good bad ↔
      good (st.units.ensure location).1 { st with units := (st.units.ensure location).2 } := Iff.rfl

@[simp] theorem ends_declare {k : UnitId} {d : Declaration} {good : Nat → State → Prop} :
    Ends (declare k d) st good bad ↔
      match st.units.declare k d with
      | .ok (p, units) => good p { st with units }
      | .error e => bad (.unit e) st := by
  unfold declare
  rw [ends_bind, ends_get]
  cases st.units.declare k d with
  | ok => exact Iff.rfl
  | error => exact Iff.rfl

@[simp] theorem ends_addImport {k : UnitId} {i : Import} {good : Unit → State → Prop} :
    Ends (addImport k i) st good bad ↔
      match st.units.addImport k i with
      | .ok units => good () { st with units }
      | .error e => bad (.unit e) st := by
  unfold addImport
  rw [ends_bind, ends_get]
  cases st.units.addImport k i with
  | ok => exact Iff.rfl
  | error => exact Iff.rfl

end Run

namespace Setup

/-- What a setup is promised to be: its types are sound, it has issued its
roots, and its hooks only place and redirect types. -/
structure Lawful (s : Setup) : Prop where
  sound : s.types.Sound
  root : ∀ t ∈ s.roots, s.types.Issued t
  /-- No type has a behaviour of the caller's. -/
  override : ∀ d, s.hooks.override d ≠ .ok .custom
  /-- No member is declared by the caller. -/
  member : ∀ unit owner m, s.hooks.member unit owner m = pure none

variable {s : Setup} {st : State} {t : TypeId} {d : Descriptor} {σ : Strategy}

/-- A resolved type is issued, and an open container only when it is a root. -/
theorem Lawful.resolved (L : s.Lawful) (h : s.Resolved t) :
    s.types.Issued t ∧ (s.types.form? t = some .container → t ∈ s.roots) := by
  induction h with
  | root hroot => exact ⟨L.root _ hroot, fun _ => hroot⟩
  | part _ hpart _ =>
    obtain ⟨form, ht, hc⟩ := hpart
    exact ⟨(L.sound.part ht.form? hc).1, fun h => absurd h (L.sound.part_ne_container ht.form? hc)⟩
  | member _ _ hm _ =>
    obtain ⟨d, hd, hmem⟩ := mem_written hm
    obtain ⟨hi, hne⟩ := L.sound.member hd hmem
    obtain ⟨hi', hne'⟩ := L.sound.bare hi hne
    obtain ⟨hi'', hne''⟩ := L.sound.bare hi' hne'
    exact ⟨hi'', fun h => absurd h hne''⟩

/-! ## Strategies -/

/-- The strategy that the form of a type asks for. -/
theorem standardStrategy_eq (h : s.types.Sound) (hd : s.types.get? t = some d)
    (location : String) : s.standardStrategy location d =
      match s.types.formOf d.kind with
      | .primitive _ => pure .builtin
      | .sequence _ => pure .array
      | .dictionary _ _ => pure .dictionary
      | .absent x => pure (if s.options.explicitNullability then .nullable else .unwrapped x)
      | .applied _ _ => pure .genericInstance
      | .parameter => pure .genericParameter
      | .enumeration values => s.placeEnumeration location d values
      | .object parameters => s.placeObject location d parameters
      | .container => throw (.shape (.openContainer d.key)) := by
  have hfits := h hd
  unfold standardStrategy
  cases hkind : d.kind with
  | array element =>
    obtain ⟨e, he⟩ := Universe.issued_iff.1
      (hfits.constituent element (by simp [hkind, TypeKind.constituents])).1
    simp only [Universe.view_of_get? he, Universe.formOf, Universe.kind?_of_get? he, Run.ask_ok]
    by_cases hbyte : e.kind = .builtin .byte
    · simp [hbyte, TypeKind.builtin?]
    · have : e.kind.builtin? ≠ some .byte := by
        cases hek : e.kind <;> simp_all [TypeKind.builtin?]
      simp [hbyte, this]
  | closed definition arguments =>
    obtain ⟨e, he, ht⟩ := hfits.closed definition arguments hkind
    have hcontainer := Universe.container?_of_closed hkind he ht
    have hissued : ∀ a ∈ arguments, s.types.Issued a := fun a ha =>
      (hfits.constituent a (by simp [hkind, TypeKind.constituents, ha])).1
    rcases ht.cases with ⟨c, hc, hlength⟩ | ⟨parameters, hp, -⟩
    · cases c with
      | list =>
        obtain ⟨x, rfl⟩ := List.length_eq_one_iff.1 hlength
        simp [hcontainer, hc, TypeKind.container?, Universe.formOf, Universe.kind?_of_get? he]
      | dictionary =>
        obtain ⟨key, value, rfl⟩ := List.length_eq_two.1 hlength
        simp [hcontainer, hc, TypeKind.container?, Universe.formOf, Universe.kind?_of_get? he]
      | nullable =>
        obtain ⟨x, rfl⟩ := List.length_eq_one_iff.1 hlength
        obtain ⟨f, hf⟩ := Universe.issued_iff.1 (hissued x List.mem_cons_self)
        simp only [hcontainer, hc, TypeKind.container?, Universe.formOf,
          Universe.kind?_of_get? he, Run.ask_ok, TypeKind.element?, Universe.view_of_get? hf]
        cases s.options.explicitNullability <;> rfl
    · simp [hcontainer, hp, TypeKind.container?, Universe.formOf, Universe.kind?_of_get? he]
  | builtin => rfl
  | container => rfl
  | parameter => rfl
  | enumeration => rfl
  | object => rfl

section Strategies

variable {st₁ : State} {location : String} (L : s.Lawful) (h : s.Consistent st)
  (hnew : ¬ st.Knows t) (hr : s.Resolved t) (hd : s.types.get? t = some d)
  (hc : st₁.contexts = st.contexts) (hu : st₁.units = st.units)
include L h hnew hr hd hc hu

omit L hd in
/-- Placing the declaration of a type. -/
theorem ends_place (hl : s.Locates t location) {outline : Declaration}
    (ho : s.Outlines t outline) (hempty : outline.withMembers [] = outline)
    {good : UnitId → Nat → State → Prop} {bad : RunError → State → Prop}
    (hgood : ∀ k p st₂, st₂.contexts = st.contexts →
      (∀ {σ}, s.Suits t σ → σ.unit? = some k → (∀ {j name q}, σ = .object j name q → q = p) →
        s.Prepares st t σ st₂.units) → good k p st₂)
    (hbad : ∀ e st₂, s.Blames e → bad e st₂) :
    Ends (Run.unitAt location) st₁ (fun k st₂ =>
      Ends (Run.declare k outline) st₂ (fun p st₃ => good k p st₃) bad) bad := by
  rw [Run.ends_unitAt, Run.ends_declare]
  simp only [hu]
  split
  · rename_i p us hdeclare
    refine hgood _ p _ hc fun hσ hunit hposition => ?_
    exact h.prepares_of_placed hσ hl ho hempty (Units.placed_of_declare h.orderly hdeclare) hunit
      hposition
  · rename_i e hdeclare
    exact hbad _ _ (h.blames_declaration hnew hr hl ho (Units.refuses_of_declare hdeclare))

omit L in
theorem ends_placeEnumeration (hl : s.Locates t location) {values : List EnumValue}
    (ht : s.Treats t (.enumeration values)) :
    Ends (s.placeEnumeration location d values) st₁
      (fun σ st₂ => st₂.contexts = st.contexts ∧ s.Prepares st t σ st₂.units)
      (fun e _ => s.Blames e) := by
  have hname : d.name = s.types.nameOf t := (Universe.nameOf_of_get? hd).symm
  unfold placeEnumeration
  rw [ends_bind, hname]
  cases hstyle : s.options.enums with
  | native =>
    have ho : s.Outlines t (.enumeration (s.types.nameOf t) (values.map (·.name))) :=
      ⟨_, ht, by rw [outline, hstyle]⟩
    simp only [ends_bind, ends_pure]
    exact ends_place h hnew hr hc hu hl ho rfl
      (fun k p st₂ hst hprepares => ⟨hst, hprepares (.nativeEnum hstyle ht) rfl
        fun hσ => by cases hσ⟩)
      fun _ _ hb => hb
  | fixedStrings =>
    have ho : s.Outlines t (.fixedStrings (s.types.nameOf t) (values.map (·.name))
        (s.options.pluralOf (s.types.nameOf t))) :=
      ⟨_, ht, by rw [outline, hstyle]⟩
    simp only [ends_bind, ends_pure]
    exact ends_place h hnew hr hc hu hl ho rfl
      (fun k p st₂ hst hprepares => ⟨hst, hprepares (.fixedStrings hstyle ht) rfl
        fun hσ => by cases hσ⟩)
      fun _ _ hb => hb

theorem ends_placeObject (hl : s.Locates t location) {parameters : List TypeId}
    (ht : s.Treats t (.object parameters)) :
    Ends (s.placeObject location d parameters) st₁
      (fun σ st₂ => st₂.contexts = st.contexts ∧ s.Prepares st t σ st₂.units)
      (fun e _ => s.Blames e) := by
  have hname : d.name = s.types.nameOf t := (Universe.nameOf_of_get? hd).symm
  have hkind : d.kind = .object parameters := ht.kind_of_get? hd
  have hissued : ∀ p ∈ parameters, s.types.Issued p := fun p hp =>
    ((L.sound hd).constituent p (by rw [hkind]; exact hp)).1
  obtain ⟨ps, hps⟩ := Universe.exists_viewAll hissued
  have ho : s.Outlines t (.object d.name (ps.map (·.name)) []) :=
    ⟨_, ht, by rw [outline, hname, Universe.map_name_of_viewAll hps]⟩
  unfold placeObject
  simp only [hps, Run.ask_ok, ends_bind, ends_pure]
  refine ends_place h hnew hr hc hu hl ho rfl (fun k p st₂ hst hprepares => ⟨hst, ?_⟩)
    fun _ _ hb => hb
  rw [hname]
  exact hprepares (.object ht) rfl fun hσ => by cases hσ; rfl

/-- The strategy of a type that is treated by its form. -/
theorem ends_standardStrategy (hl : s.Locates t location)
    (hover : s.hooks.override d = .ok .standard) :
    Ends (s.standardStrategy location d) st₁
      (fun σ st₂ => st₂.contexts = st.contexts ∧ s.Prepares st t σ st₂.units)
      (fun e _ => s.Blames e) := by
  have ht : s.Treats t (s.types.formOf d.kind) := ⟨d, hd, hover, rfl⟩
  have unplaced : ∀ {σ : Strategy}, s.Suits t σ → σ.unit? = none →
      st₁.contexts = st.contexts ∧ s.Prepares st t σ st₁.units := fun hσ hunit =>
    ⟨hc, hu ▸ h.prepares hσ ⟨location, hl⟩ hunit⟩
  rw [standardStrategy_eq L.sound hd]
  cases hform : s.types.formOf d.kind with
  | primitive => exact unplaced (.builtin (hform ▸ ht)) rfl
  | sequence => exact unplaced (.array (hform ▸ ht)) rfl
  | dictionary => exact unplaced (.dictionary (hform ▸ ht)) rfl
  | absent x =>
    dsimp only
    rw [ends_pure]
    split
    · rename_i hexplicit
      exact unplaced (.nullable hexplicit (hform ▸ ht)) rfl
    · rename_i hexplicit
      exact unplaced (.unwrapped (Bool.not_eq_true _ ▸ hexplicit) (hform ▸ ht)) rfl
  | applied => exact unplaced (.genericInstance (hform ▸ ht)) rfl
  | parameter => exact unplaced (.genericParameter (hform ▸ ht)) rfl
  | enumeration => exact ends_placeEnumeration h hnew hr hd hc hu hl (hform ▸ ht)
  | object => exact ends_placeObject L h hnew hr hd hc hu hl (hform ▸ ht)
  | container =>
    rw [hform] at ht
    exact .container ((L.resolved hr).2 ht.form?) hd ht

omit hc hu in
/-- The strategy of a type that has no context. -/
theorem ends_strategyFor :
    Ends (s.strategyFor d) st
      (fun σ st₂ => st₂.contexts = st.contexts ∧ s.Prepares st t σ st₂.units)
      (fun e _ => s.Blames e) := by
  unfold strategyFor
  rw [ends_bind, Run.ends_ofExcept]
  cases hlocation : s.hooks.location s.types d with
  | error e => exact .location hr hd hlocation
  | ok location =>
    have hl : s.Locates t location := ⟨d, hd, hlocation⟩
    dsimp only
    -- an event changes neither the contexts nor the units
    cases hover : s.hooks.override d with
    | error e =>
      have blames : s.Blames e := .override hr hd hover
      split
      · exact blames
      · exact blames
    | ok decision =>
      cases decision with
      | standard =>
        split
        · exact ends_standardStrategy L h hnew hr hd rfl rfl hl hover
        · exact ends_standardStrategy L h hnew hr hd rfl rfl hl hover
      | redirect name target =>
        have hσ : s.Suits t (.redirect name target) := .redirect ⟨d, hd, hover⟩
        have prepares := h.prepares hσ ⟨location, hl⟩ rfl
        split
        · exact ⟨rfl, prepares⟩
        · exact ⟨rfl, prepares⟩
      | custom => exact absurd hover (L.override d)

end Strategies

/-! ## Parts -/

/-- Whether resolving does what it should to types of lower rank. -/
def Resolves (s : Setup) (below : Toolkit) (rank : Nat) : Prop :=
  ∀ {t st}, s.Consistent st → s.Resolved t → s.types.rank t < rank →
    Ends (below.resolve t) st (fun σ st' => s.Consistent st' ∧ s.Extends st st' ∧ st'.Has t σ)
      (fun e _ => s.Blames e)

theorem ends_resolveAll {below : Toolkit} {rank : Nat} (hbelow : s.Resolves below rank)
    {ts : List TypeId} (h : s.Consistent st) (hr : ∀ t ∈ ts, s.Resolved t)
    (hrank : ∀ t ∈ ts, s.types.rank t < rank) :
    Ends (resolveAll below ts) st
      (fun _ st' => s.Consistent st' ∧ s.Extends st st' ∧ ∀ t ∈ ts, st'.Knows t)
      (fun e _ => s.Blames e) := by
  induction ts generalizing st with
  | nil => exact ⟨h, .refl st, by simp⟩
  | cons t ts ih =>
    rw [resolveAll, ends_bind]
    refine (hbelow h (hr t List.mem_cons_self) (hrank t List.mem_cons_self)).mono ?_
      fun _ _ hb => hb
    rintro σ st' ⟨h', extends', hσ⟩
    refine (ih h' (fun x hx => hr x (List.mem_cons_of_mem _ hx))
      fun x hx => hrank x (List.mem_cons_of_mem _ hx)).mono ?_ fun _ _ hb => hb
    rintro _ st'' ⟨h'', extends'', hall⟩
    refine ⟨h'', extends'.trans extends'', fun x hx => ?_⟩
    rcases List.mem_cons.1 hx with rfl | htail
    · exact ⟨σ, extends''.has hσ⟩
    · exact hall x htail

theorem resolveAll_cons (below : Toolkit) (t : TypeId) (ts : List TypeId) :
    (do resolveAll below [t]; resolveAll below ts) = resolveAll below (t :: ts) := by
  funext st
  simp only [resolveAll, bind, EStateM.bind]
  cases below.resolve t st <;> rfl

/-- The types that a type of that strategy is composed of, in order. -/
def partsOf (s : Setup) (d : Descriptor) : Strategy → List TypeId
  | .redirect .. => []
  | _ => (s.types.formOf d.kind).parts

theorem mem_partsOf (hd : s.types.get? t = some d) (hσ : s.Suits t σ) {c : TypeId} :
    c ∈ s.partsOf d σ ↔ s.Part t c := by
  -- a type that is treated by its form has the parts of that form
  have parts : ∀ {form}, s.Treats t form →
      (c ∈ (s.types.formOf d.kind).parts ↔ s.Part t c) := by
    intro form ht
    cases ht.formOf hd
    constructor
    · exact fun hc => ⟨_, ht, hc⟩
    · rintro ⟨form', ht', hc⟩
      rwa [ht.unique ht']
  cases hσ with
  | redirect hredirect =>
    constructor
    · intro hc
      cases hc
    · rintro ⟨form, ht, -⟩
      exact absurd hredirect ht.not_redirects
  | builtin ht | array ht | dictionary ht | nullable _ ht | unwrapped _ ht | genericInstance ht
  | genericParameter ht | nativeEnum _ ht | fixedStrings _ ht | object ht => exact parts ht

/-- The parts that the strategy of a type asks for are those of its form. -/
theorem resolveParts_eq (sound : s.types.Sound) (hd : s.types.get? t = some d)
    (hσ : s.Suits t σ) (below : Toolkit) :
    s.resolveParts below t d σ = resolveAll below (s.partsOf d σ) := by
  cases hσ with
  | redirect => rfl
  | builtin ht | genericParameter ht | nativeEnum _ ht | fixedStrings _ ht | object ht
  | unwrapped _ ht =>
    simp only [partsOf, ht.formOf hd]
    rfl
  | array ht =>
    simp only [resolveParts, partsOf, ht.formOf hd, Universe.element?_of_sequence (ht.formOf hd)]
    rfl
  | nullable _ ht =>
    simp only [resolveParts, partsOf, ht.formOf hd, Universe.element?_of_absent (ht.formOf hd)]
    rfl
  | dictionary ht =>
    have hissued := fun c hc => (sound.part ht.form? (c := c) hc).1
    simp only [Form.parts] at hissued
    obtain ⟨ds, hds⟩ := Universe.exists_viewAll hissued
    simp only [resolveParts, partsOf, ht.formOf hd, Universe.arguments_of_dictionary (ht.formOf hd),
      hds]
    rfl
  | @genericInstance definition arguments ht =>
    have hkind := Universe.eq_closed_of_applied (ht.formOf hd)
    obtain ⟨e, -, he, -⟩ := sound.definition_of_applied hd (ht.formOf hd)
    obtain ⟨ds, hds⟩ := Universe.exists_viewAll fun a ha =>
      (sound.part ht.form? (c := a) (List.mem_cons_of_mem _ ha)).1
    simp only [resolveParts, partsOf, ht.formOf hd, Universe.definition?_of_closed hkind he]
    simp only [hkind, TypeKind.arguments, hds]
    exact resolveAll_cons below definition arguments

/-! ## Resolving -/

theorem ends_resolveStep (L : s.Lawful) {below : Toolkit} {rank : Nat}
    (hbelow : s.Resolves below rank) (h : s.Consistent st) (hr : s.Resolved t)
    (hrank : s.types.rank t < rank + 1) :
    Ends (s.resolveStep below t) st
      (fun σ st' => s.Consistent st' ∧ s.Extends st st' ∧ st'.Has t σ)
      (fun e _ => s.Blames e) := by
  unfold resolveStep
  rw [ends_bind, ends_get]
  split
  · rename_i c hcontext
    exact ⟨h, .refl st, has_of_context? hcontext⟩
  · rename_i hcontext
    have hnew := not_knows_of_context? hcontext
    obtain ⟨d, hd⟩ := Universe.issued_iff.1 (L.resolved hr).1
    rw [Universe.view_of_get? hd, Run.ask_ok, ends_bind, ends_pure, ends_bind]
    refine (ends_strategyFor L h hnew hr hd).mono ?_ fun _ _ hb => hb
    rintro σ st₁ ⟨hcontexts, prepares⟩
    rw [ends_bind, Run.ends_log, ends_bind, Run.ends_addContext]
    -- the context is there before the parts are resolved
    let st₂ : State := { st₁ with
      events := st₁.events.push (.created d.key σ)
      contexts := st₁.contexts.push (.create t σ) }
    have hpush : st₂.contexts = st.contexts.push (.create t σ) := by rw [← hcontexts]
    have h₂ : s.Consistent st₂ := h.push hpush hnew hr prepares
    have hself : st₂.Has t σ := (has_push hpush).2 (.inr ⟨rfl, rfl⟩)
    have hparts : ∀ {c}, c ∈ s.partsOf d σ ↔ s.Part t c := mem_partsOf hd prepares.suits
    show Ends (do s.resolveParts below t d σ; return σ) st₂ _ _
    rw [resolveParts_eq L.sound hd prepares.suits, ends_bind]
    refine (ends_resolveAll hbelow h₂ (fun c hc => .part hr (hparts.1 hc)) ?_).mono ?_
      fun _ _ hb => hb
    · intro c hc
      obtain ⟨form, ht, hmem⟩ := hparts.1 hc
      exact Nat.lt_of_lt_of_le (L.sound.part ht.form? hmem).2 (Nat.le_of_lt_succ hrank)
    · rintro _ st₃ ⟨h₃, extends₃, hall⟩
      exact ⟨h₃, extends_of_push hpush prepares.grows extends₃
        fun c hc => hall c (hparts.2 hc), extends₃.has hself⟩

/-- A toolkit resolves the types whose rank is below its fuel. -/
theorem ends_resolve (L : s.Lawful) (fuel : Nat) : s.Resolves (s.toolkit fuel) fuel := by
  induction fuel with
  | zero =>
    intro t st _ _ hrank
    exact absurd hrank (Nat.not_lt_zero _)
  | succ fuel ih =>
    intro t st h hr hrank
    exact ends_resolveStep L ih h hr hrank

end Setup

end TypeExport
