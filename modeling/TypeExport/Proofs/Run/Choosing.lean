import TypeExport.Proofs.Run.Kept
import TypeExport.Proofs.Run.Resolving

/-!
# What is chosen for a type

The strategy that is found for a type is the one that the setup asks for,
wherever the type is placed and whatever the state is
(`Setup.ends_strategyFor_chooses`).  Finding it fails as the hooks fail, or with
an error that is not about competing rules.  The other operations on units never
fail because of competing rules either, and like finding a strategy they leave
the contexts as they are (`Run.IsOwn`).

A reference to a composed type is made of references to its parts, in order,
and of nothing else that depends on the state (`Setup.referenceFor_eq`).  So what
is said of references to parts carries over to all kinds of composed types at
once.
-/

namespace TypeExport

/-- Whether an error is about competing rules. -/
def RunError.IsAmbiguous : RunError → Prop
  | .ambiguous .. => True
  | _ => False

theorem Run.ends_ask_iff {α : Type} {answer : Except Fault α} {st : State}
    {good : α → State → Prop} {bad : RunError → State → Prop} :
    Ends (Run.ask answer) st good bad ↔
      match answer with
      | .ok a => good a st
      | .error e => bad (.fault e) st := by
  cases answer <;> exact Iff.rfl

/-! ## Steps that leave the contexts -/

/-- Whether a step leaves the contexts as they are. -/
abbrev Run.KeepsContexts {α : Type} (x : Run α) : Prop :=
  x.Keeps fun st st' => st'.contexts = st.contexts

/-- Whether a step leaves the contexts as they are, and does not fail because
rules compete. -/
def Run.IsOwn {α : Type} (x : Run α) : Prop :=
  ∀ st, Ends x st (fun _ st' => st'.contexts = st.contexts) fun e st' =>
    st'.contexts = st.contexts ∧ ¬ e.IsAmbiguous

namespace Run.IsOwn

variable {α : Type} {x : Run α}

theorem keepsContexts (h : x.IsOwn) : x.KeepsContexts := fun st =>
  (h st).mono (fun _ _ hc => hc) fun _ _ hc => hc.1

theorem pure (a : α) : (Pure.pure a : Run α).IsOwn := fun _ => rfl

theorem throw {e : RunError} (h : ¬ e.IsAmbiguous) : (MonadExcept.throw e : Run α).IsOwn :=
  fun _ => ⟨rfl, h⟩

theorem ask (answer : Except Fault α) : (Run.ask answer).IsOwn := by
  cases answer with
  | ok a => exact pure a
  | error e => exact throw id

theorem log (e : Event) : (Run.log e).IsOwn := fun _ => rfl

theorem unitAt (location : String) : (Run.unitAt location).IsOwn := fun _ => rfl

theorem declare (k : UnitId) (d : Declaration) : (Run.declare k d).IsOwn := by
  intro st
  rw [ends_declare]
  split
  · rfl
  · exact ⟨rfl, id⟩

theorem addImport (k : UnitId) (i : Import) : (Run.addImport k i).IsOwn := by
  intro st
  rw [ends_addImport]
  split
  · rfl
  · exact ⟨rfl, id⟩

theorem setMembers (k : UnitId) (p : Nat) (members : List MemberDeclaration) :
    (Run.setMembers k p members).IsOwn := by
  intro st
  unfold Run.setMembers
  rw [ends_bind, ends_get]
  split
  · exact ⟨rfl, id⟩
  · split
    · rfl
    · exact ⟨rfl, id⟩

end Run.IsOwn

namespace Setup

variable {s : Setup} {st : State} {t c : TypeId} {d : Descriptor} {σ : Strategy}
  {a : Option Attributes} {location : String}

/-! ## Strategies -/

/-- The strategies that a setup may choose for a type. -/
inductive Chooses (s : Setup) (t : TypeId) : Strategy → Prop
  | suits {σ : Strategy} : s.Suits t σ → Chooses s t σ
  | custom {d : Descriptor} : s.types.get? t = some d → s.hooks.override d = .ok .custom →
      Chooses s t .custom

theorem ends_placeEnumeration_suits (hd : s.types.get? t = some d) {values : List EnumValue}
    (ht : s.Treats t (.enumeration values)) (location : String) :
    Ends (s.placeEnumeration location d values) st (fun σ _ => s.Suits t σ)
      fun e _ => ¬ e.IsAmbiguous := by
  have hname : d.name = s.types.nameOf t := (Universe.nameOf_of_get? hd).symm
  unfold placeEnumeration
  rw [ends_bind, Run.ends_unitAt, hname]
  cases hstyle : s.options.enums with
  | native =>
    simp only [ends_bind, ends_pure, Run.ends_declare]
    split
    · exact .nativeEnum hstyle ht
    · exact id
  | fixedStrings =>
    simp only [ends_bind, ends_pure, Run.ends_declare]
    split
    · exact .fixedStrings hstyle ht
    · exact id

theorem ends_placeObject_suits (hd : s.types.get? t = some d) {parameters : List TypeId}
    (ht : s.Treats t (.object parameters)) (location : String) :
    Ends (s.placeObject location d parameters) st (fun σ _ => s.Suits t σ)
      fun e _ => ¬ e.IsAmbiguous := by
  have hname : d.name = s.types.nameOf t := (Universe.nameOf_of_get? hd).symm
  unfold placeObject
  rw [ends_bind, Run.ends_unitAt, hname, ends_bind, Run.ends_ask_iff]
  split
  · simp only [ends_bind, ends_pure, Run.ends_declare]
    split
    · exact .object ht
    · exact id
  · exact id

/-- The strategy of a type that is treated by its form. -/
theorem ends_standardStrategy_suits (sound : s.types.Sound) (hd : s.types.get? t = some d)
    (hover : s.hooks.override d = .ok .standard) (location : String) :
    Ends (s.standardStrategy location d) st (fun σ _ => s.Suits t σ)
      fun e _ => ¬ e.IsAmbiguous := by
  have ht : s.Treats t (s.types.formOf d.kind) := ⟨d, hd, hover, rfl⟩
  rw [standardStrategy_eq sound hd]
  generalize s.types.formOf d.kind = form at ht
  cases form with
  | primitive => exact .builtin ht
  | sequence => exact .array ht
  | dictionary => exact .dictionary ht
  | absent x =>
    show s.Suits t (if s.options.explicitNullability then .nullable else .unwrapped x)
    split
    · next hexplicit => exact .nullable hexplicit ht
    · next hexplicit => exact .unwrapped (Bool.not_eq_true _ ▸ hexplicit) ht
  | applied => exact .genericInstance ht
  | parameter => exact .genericParameter ht
  | enumeration => exact ends_placeEnumeration_suits hd ht location
  | object => exact ends_placeObject_suits hd ht location
  | container => exact id

/-- The strategy of a type, and why there may be none. -/
theorem ends_strategyFor_chooses (sound : s.types.Sound) (hd : s.types.get? t = some d) :
    Ends (s.strategyFor d) st (fun σ _ => s.Chooses t σ)
      fun e _ => s.hooks.location s.types d = .error e ∨ s.hooks.override d = .error e ∨
        ¬ e.IsAmbiguous := by
  have rest : ∀ (location : String) (st : State),
      Ends (do
        let decision ← Run.ofExcept (s.hooks.override d)
        s.strategyBy location d decision) st (fun σ _ => s.Chooses t σ)
        fun e _ => s.hooks.location s.types d = .error e ∨ s.hooks.override d = .error e ∨
          ¬ e.IsAmbiguous := by
    intro location st
    rw [ends_bind, Run.ends_ofExcept]
    cases hover : s.hooks.override d with
    | error e => exact .inr (.inl rfl)
    | ok decision =>
      cases decision with
      | standard =>
        exact (ends_standardStrategy_suits sound hd hover location).mono (fun _ _ h => .suits h)
          fun _ _ h => .inr (.inr h)
      | redirect name target => exact .suits (.redirect ⟨d, hd, hover⟩)
      | custom => exact .custom hd hover
  rw [strategyFor_eq, ends_bind, Run.ends_ofExcept]
  cases hlocation : s.hooks.location s.types d with
  | error e => exact .inl rfl
  | ok location =>
    rw [hlocation] at rest
    dsimp only
    split
    · exact rest location _
    · exact rest location _

/-! ## References to parts -/

/-- References to types from a unit, in order. -/
def referenceAll (below : Toolkit) (k : UnitId) (a : Option Attributes) :
    List TypeId → Run (List TypeExpr)
  | [] => return []
  | t :: ts => do
    let e ← below.reference k a t
    let es ← referenceAll below k a ts
    return e :: es

theorem referenceAll_singleton (below : Toolkit) (k : UnitId) (a : Option Attributes)
    (t : TypeId) : referenceAll below k a [t] = (do return [← below.reference k a t]) := by
  simp [referenceAll]

/-- The arguments of a generic are referred to in order. -/
theorem argumentReferences_eq (sound : s.types.Sound) (a : Option Attributes)
    {before ids : List TypeId} (hbefore : ∀ x ∈ before, s.types.Issued x)
    (hids : ∀ x ∈ ids, s.types.Issued x) :
    ∃ write : List TypeExpr → List TypeExpr, ∀ (below : Toolkit) (k : UnitId),
      s.argumentReferences below k a before ids = (do
        return write (← referenceAll below k none ids)) := by
  induction ids generalizing before with
  | nil => exact ⟨id, fun below k => by simp [argumentReferences, referenceAll]⟩
  | cons x xs ih =>
    have hx := hids x List.mem_cons_self
    have hbefore' : ∀ y ∈ before ++ [x], s.types.Issued y := by
      intro y hy
      rcases List.mem_append.1 hy with hold | hnew
      · exact hbefore y hold
      · rw [List.mem_singleton.1 hnew]
        exact hx
    obtain ⟨write, hwrite⟩ := ih hbefore' fun y hy => hids y (List.mem_cons_of_mem _ hy)
    obtain ⟨e, he⟩ := Universe.issued_iff.1 hx
    obtain ⟨isNullable, hnullable⟩ :=
      sound.exists_argumentNullable s.options.nullability a hbefore e
    refine ⟨fun es => (es.headD (.union [])).orNullable isNullable s.options :: write es.tail,
      fun below k => ?_⟩
    simp [argumentReferences, referenceAll, Universe.view_of_get? he, hnullable, Run.ask_ok,
      hwrite]

/-- A reference to a composed type is made of references to its parts. -/
theorem referenceFor_eq (sound : s.types.Sound) (hd : s.types.get? t = some d)
    (hσ : s.Suits t σ) (hplaced : σ.unit? = none)
    (hdirect : ∀ name location, σ ≠ .redirect name location) (a : Option Attributes) :
    ∃ (a' : Option Attributes) (write : List TypeExpr → TypeExpr),
      ∀ (below : Toolkit) (k : UnitId), s.referenceFor below k a t d σ = (do
        return write (← referenceAll below k a' (s.partsOf d σ))) := by
  have issued : ∀ {form}, s.Treats t form → ∀ x ∈ form.parts, s.types.Issued x :=
    fun ht x hx => (sound.part ht.form? hx).1
  cases hσ with
  | redirect => exact absurd rfl (hdirect _ _)
  | nativeEnum | fixedStrings | object => cases hplaced
  | builtin ht =>
    refine ⟨a, fun _ => primitiveReference d, fun below k => ?_⟩
    simp only [partsOf, ht.formOf hd]
    rfl
  | genericParameter ht =>
    refine ⟨a, fun _ => .reference d.name, fun below k => ?_⟩
    simp only [partsOf, ht.formOf hd]
    rfl
  | unwrapped _ ht =>
    refine ⟨a, fun es => es.headD (.union []), fun below k => ?_⟩
    simp [referenceFor, partsOf, ht.formOf hd, Form.parts, referenceAll_singleton]
  | @nullable x _ ht =>
    obtain ⟨e, he⟩ := Universe.issued_iff.1 (issued ht x (List.mem_singleton.2 rfl))
    refine ⟨none, fun es => (es.headD (.union [])).orNullable true s.options, fun below k => ?_⟩
    simp [referenceFor, nullableReference, Universe.element?_of_absent (ht.formOf hd),
      Universe.view_of_get? he, Run.ask_ok, partsOf, ht.formOf hd, Form.parts,
      referenceAll_singleton]
  | @array x ht =>
    obtain ⟨e, he⟩ := Universe.issued_iff.1 (issued ht x (List.mem_singleton.2 rfl))
    refine ⟨none, fun es => .array ((es.headD (.union [])).orNullable
      (elementNullable s.options.nullability a e) s.options), fun below k => ?_⟩
    simp [referenceFor, arrayReference, Universe.element?_of_sequence (ht.formOf hd),
      Universe.view_of_get? he, Run.ask_ok, partsOf, ht.formOf hd, Form.parts,
      referenceAll_singleton]
  | @dictionary key value ht =>
    obtain ⟨f, hf⟩ := Universe.issued_iff.1 (issued ht key (by simp [Form.parts]))
    obtain ⟨e, he⟩ := Universe.issued_iff.1 (issued ht value (by simp [Form.parts]))
    have hds : s.types.viewAll [key, value] = .ok [f, e] :=
      Universe.viewAll_eq_ok_iff.2 (.cons hf (.cons he .nil))
    obtain ⟨isNullable, hnullable⟩ := sound.exists_valueNullable s.options.nullability a
      (issued ht key (by simp [Form.parts])) e
    refine ⟨none, fun es => .dictionary (es.headD (.union []))
      ((es.tail.headD (.union [])).orNullable isNullable s.options), fun below k => ?_⟩
    simp [referenceFor, dictionaryReference, Universe.arguments_of_dictionary (ht.formOf hd), hds,
      hnullable, Run.ask_ok, partsOf, ht.formOf hd, Form.parts, referenceAll]
  | @genericInstance definition arguments ht =>
    have hkind := Universe.eq_closed_of_applied (ht.formOf hd)
    obtain ⟨e, -, he, -⟩ := sound.definition_of_applied hd (ht.formOf hd)
    have harguments : ∀ x ∈ arguments, s.types.Issued x := fun x hx =>
      issued ht x (List.mem_cons_of_mem _ hx)
    obtain ⟨ds, hds⟩ := Universe.exists_viewAll harguments
    have hnone : ∀ x ∈ ([] : List TypeId), s.types.Issued x := by simp
    obtain ⟨write, hwrite⟩ := argumentReferences_eq sound a hnone harguments
    refine ⟨none, fun es => .generic (es.headD (.union [])) (write es.tail), fun below k => ?_⟩
    simp only [referenceFor, genericReference, Universe.definition?_of_closed hkind he,
      Run.ask_ok, pure_bind, partsOf, ht.formOf hd, Form.parts]
    rw [hkind]
    simp [TypeKind.arguments, hds, Run.ask_ok, hwrite, referenceAll]

end Setup

end TypeExport
