import TypeExport.Proofs.Run.Kept
import TypeExport.Proofs.Run.Tidy

/-!
# Resolving and referring only append

Whatever type is resolved or referred to, from whatever unit, and whether the
step succeeds or fails, a tidy state stays tidy, and contexts and declarations
are only appended (`Setup.keepsTools`).  What is said of the steps is said of a
toolkit one level down.
-/

namespace TypeExport

namespace Setup

variable {s : Setup} {st st' : State} {t : TypeId} {d : Descriptor} {σ : Strategy}
  {below : Toolkit} {k : UnitId} {a : Option Attributes}

/-! ## Strategies -/

/-- Declaring a type at a location announces its strategy. -/
theorem ends_announce (h : s.Tidy st) {location : String} {outline : Declaration}
    (strategy : UnitId → Nat → Strategy) (hstandard : ∀ k p, strategy k p ≠ .custom)
    (hunit : ∀ k p, (strategy k p).unit? = some k)
    (hdeclares : ∀ t k p, (Context.create t (strategy k p)).Declares p outline) :
    Ends (Run.unitAt location) st (fun k st₁ =>
      Ends (Run.declare k outline) st₁ (fun p st₂ => Announces st (strategy k p) st₂)
        fun _ => s.Advances st) fun _ => s.Advances st := by
  have hensure := declared_ensure st.units location
  rw [Run.ends_unitAt, Run.ends_declare]
  split
  · rename_i p us hus
    obtain ⟨rfl, hdeclared⟩ := declared_declare hus
    rw [hensure]
    refine ⟨rfl, rfl, hstandard _ _, fun {j} hj => ?_, fun {j} hj => ?_⟩
    · rw [hunit] at hj
      rw [hdeclared, if_neg fun e => hj (congrArg some e), List.append_nil, hensure]
    · cases (hunit _ _).symm.trans hj
      refine ⟨outline, ?_, fun t => hdeclares t _ _⟩
      rw [hdeclared, if_pos rfl, hensure]
  · exact h.advances rfl hensure rfl

theorem ends_placeEnumeration_announces (h : s.Tidy st) (location : String) (d : Descriptor)
    (values : List EnumValue) :
    Ends (s.placeEnumeration location d values) st (Announces st) fun _ => s.Advances st := by
  unfold placeEnumeration
  rw [ends_bind]
  cases s.options.enums with
  | native =>
    simp only [ends_bind, ends_pure]
    exact ends_announce h (fun k _ => .nativeEnum k d.name) (fun _ _ => by simp)
      (fun _ _ => rfl) fun _ _ _ => .nativeEnum
  | fixedStrings =>
    simp only [ends_bind, ends_pure]
    exact ends_announce h (fun k _ => .fixedStrings k d.name) (fun _ _ => by simp)
      (fun _ _ => rfl) fun _ _ _ => .fixedStrings

theorem ends_placeObject_announces (h : s.Tidy st) (location : String) (d : Descriptor)
    (parameters : List TypeId) :
    Ends (s.placeObject location d parameters) st (Announces st) fun _ => s.Advances st := by
  unfold placeObject
  rw [ends_bind]
  cases s.types.viewAll parameters with
  | ok ps =>
    simp only [Run.ask_ok, ends_bind, ends_pure]
    exact ends_announce h (fun k p => .object k d.name p) (fun _ _ => by simp)
      (fun _ _ => rfl) fun _ _ _ => .object fun _ => rfl
  | error e => exact h.advances rfl (declared_ensure st.units location) rfl

theorem ends_standardStrategy_announces (L : s.Lawful) (h : s.Tidy st)
    (hd : s.types.get? t = some d) (location : String) :
    Ends (s.standardStrategy location d) st (Announces st) fun _ => s.Advances st := by
  rw [standardStrategy_eq L.sound hd]
  cases s.types.formOf d.kind with
  | enumeration values => exact ends_placeEnumeration_announces h location d values
  | object parameters => exact ends_placeObject_announces h location d parameters
  | container => exact h.refl
  | absent x =>
    dsimp only
    rw [ends_pure]
    split <;> exact announces_of_unit? st (by simp) rfl
  | primitive | sequence | dictionary | applied | parameter =>
    exact announces_of_unit? st (by simp) rfl

/-- An event in front of an announcement. -/
theorem Announces.of_log {e : Event} (he : e.isPass = false)
    (h : Announces { st with events := st.events.push e } σ st') : Announces st σ st' where
  contexts := h.contexts
  passed := by
    rw [h.passed, passed_push, he]
    rfl
  standard := h.standard
  other := h.other
  unit := h.unit

/-- An announcement in front of an event. -/
theorem Announces.log {e : Event} (he : e.isPass = false) (h : Announces st σ st') :
    Announces st σ { st' with events := st'.events.push e } where
  contexts := h.contexts
  passed := by
    rw [← h.passed, passed_push, he]
    rfl
  standard := h.standard
  other := h.other
  unit := h.unit

theorem ends_strategyFor_announces (L : s.Lawful) (h : s.Tidy st)
    (hd : s.types.get? t = some d) :
    Ends (s.strategyFor d) st (Announces st) fun _ => s.Advances st := by
  unfold strategyFor
  rw [ends_bind, Run.ends_ofExcept]
  cases s.hooks.location s.types d with
  | error e => exact h.refl
  | ok location =>
    dsimp only
    have hlog := Keeps.log (s := s) (e := .located d.key location) rfl st h
    cases hover : s.hooks.override d with
    | error e =>
      split
      · exact hlog
      · exact h.refl
    | ok decision =>
      cases decision with
      | standard =>
        split
        · rw [ends_bind, Run.ends_log]
          exact (ends_standardStrategy_announces L hlog.tidy hd location).mono
            (fun _ _ ha => ha.of_log rfl) fun _ _ ha => hlog.trans ha
        · exact ends_standardStrategy_announces L h hd location
      | redirect name target =>
        have announced : ∀ st₁, Announces st₁ (.redirect name target) st₁ := fun st₁ =>
          announces_of_unit? st₁ (by simp) rfl
        split
        · exact ((announced _).log rfl).of_log rfl
        · exact (announced st).log rfl
      | custom => exact absurd hover (L.override d)

/-! ## Resolving -/

/-- Whether the steps of a toolkit keep states tidy, and resolving a type gives
the strategy of its context. -/
structure KeepsTools (s : Setup) (below : Toolkit) : Prop where
  resolve : ∀ {t st}, s.Tidy st → Ends (below.resolve t) st
    (fun σ st' => s.Advances st st' ∧ ∃ c ∈ st'.contexts, c.type = t ∧ c.strategy = σ)
    (fun _ => s.Advances st)
  reference : ∀ k a t, s.Keeps (below.reference k a t)

theorem KeepsTools.keeps_resolve (hbelow : s.KeepsTools below) (t : TypeId) :
    s.Keeps (below.resolve t) := fun _ h =>
  (hbelow.resolve h).mono (fun _ _ hr => hr.1) fun _ _ hr => hr

/-- Keeping states tidy is a relation between the state before and the state
after. -/
theorem keeps_iff {α : Type} {x : Run α} :
    s.Keeps x ↔ Run.Keeps (fun st st' => s.Tidy st → s.Advances st st') x := by
  constructor
  · intro h st
    have ends := h st
    unfold Ends at ends ⊢
    cases hx : x st with
    | ok a st' =>
      rw [hx] at ends
      exact ends
    | error e st' =>
      rw [hx] at ends
      exact ends
  · intro h st htidy
    exact (h st).mono (fun _ _ hadvances => hadvances htidy) fun _ _ hadvances => hadvances htidy

theorem kept_advances : Kept fun st st' => s.Tidy st → s.Advances st st' where
  refl _ h := h.refl
  trans h h' htidy := (h htidy).trans (h' (h htidy).tidy)

theorem KeepsTools.resolve_keeps (hbelow : s.KeepsTools below) (t : TypeId) :
    Run.Keeps (fun st st' => s.Tidy st → s.Advances st st') (below.resolve t) :=
  keeps_iff.1 (hbelow.keeps_resolve t)

theorem KeepsTools.reference_keeps (hbelow : s.KeepsTools below) (k : UnitId)
    (a : Option Attributes) (t : TypeId) :
    Run.Keeps (fun st st' => s.Tidy st → s.Advances st st') (below.reference k a t) :=
  keeps_iff.1 (hbelow.reference k a t)

theorem keeps_resolveParts (hbelow : s.KeepsTools below) (hσ : σ ≠ .custom) :
    s.Keeps (s.resolveParts below t d σ) :=
  keeps_iff.2 (kept_advances.resolveParts hbelow.resolve_keeps fun hcustom => absurd hcustom hσ)

theorem ends_resolveStep_advances (L : s.Lawful) (hbelow : s.KeepsTools below) (h : s.Tidy st) :
    Ends (s.resolveStep below t) st
      (fun σ st' => s.Advances st st' ∧ ∃ c ∈ st'.contexts, c.type = t ∧ c.strategy = σ)
      (fun _ => s.Advances st) := by
  unfold resolveStep
  rw [ends_bind, ends_get]
  split
  · rename_i c hc
    exact ⟨h.refl, c, Array.mem_of_find?_eq_some hc, by simpa using Array.find?_some hc, rfl⟩
  · rename_i hnew
    cases hview : s.types.get? t with
    | none =>
      rw [Universe.view, hview]
      exact h.refl
    | some d =>
      rw [Universe.view_of_get? hview, Run.ask_ok, ends_bind, ends_pure, ends_bind]
      refine (ends_strategyFor_announces L h hview).mono ?_ fun _ _ hb => hb
      intro σ st₁ announced
      rw [ends_bind, Run.ends_log, ends_bind, Run.ends_addContext]
      let st₂ : State := { st₁ with
        events := st₁.events.push (.created d.key σ)
        contexts := st₁.contexts.push (.create t σ) }
      have pushed : s.Advances st st₂ :=
        h.push hnew (Universe.issued_of_get? hview) announced rfl rfl (passed_push _ _ st₂)
      rw [ends_bind]
      refine (keeps_resolveParts hbelow announced.standard st₂ pushed.tidy).mono ?_
        fun _ _ hb => pushed.trans hb
      intro _ st₃ parts
      exact ⟨pushed.trans parts, .create t σ, parts.mem Array.mem_push_self, rfl, rfl⟩

/-! ## Referring -/

theorem keeps_referenceFor (hbelow : s.KeepsTools below) (hσ : σ ≠ .custom) :
    s.Keeps (s.referenceFor below k a t d σ) :=
  keeps_iff.2 (kept_advances.referenceFor hbelow.reference_keeps
    (fun k i => keeps_iff.1 (.addImport k i)) fun hcustom => absurd hcustom hσ)

theorem keeps_referenceStep (hbelow : s.KeepsTools below) :
    s.Keeps (s.referenceStep below k a t) := by
  intro st h
  unfold referenceStep
  rw [ends_bind]
  refine (hbelow.resolve h).mono ?_ fun _ _ hb => hb
  rintro σ st₁ ⟨advanced, c, hc, -, rfl⟩
  have rest : s.Keeps (do
      let d ← Run.ask (s.types.view t)
      s.referenceFor below k a t d c.strategy) :=
    (Keeps.ask _).bind fun _ => keeps_referenceFor hbelow (advanced.tidy.standard c hc)
  exact (rest st₁ advanced.tidy).mono (fun _ _ hr => advanced.trans hr) fun _ _ hr =>
    advanced.trans hr

/-- The toolkits of a setup keep states tidy. -/
theorem keepsTools (L : s.Lawful) (fuel : Nat) : s.KeepsTools (s.toolkit fuel) := by
  induction fuel with
  | zero => exact ⟨fun h => h.refl, fun _ _ _ => .throw _⟩
  | succ fuel ih =>
    exact ⟨fun h => ends_resolveStep_advances L ih h, fun _ _ _ => keeps_referenceStep ih⟩

/-! ## Members -/

theorem keeps_importType (L : s.Lawful) (k : UnitId) (a : Option Attributes) (t : TypeId) :
    s.Keeps (s.importType k a t) :=
  keeps_iff.2 (kept_advances.importType (keepsTools L (s.depth + 1)).reference_keeps)

theorem keeps_resolveMember (L : s.Lawful) (k : UnitId) (owner : Descriptor) (m : Member) :
    s.Keeps (s.resolveMember k owner m) :=
  keeps_iff.2 (kept_advances.memberStep (keepsTools L s.depth).reference_keeps L.member owner m)

theorem keeps_resolveMembers (L : s.Lawful) (k : UnitId) (owner : Descriptor)
    (done : List MemberDeclaration) (ms : List Member) :
    s.Keeps (resolveMembers s.tools k owner done ms) :=
  keeps_iff.2 (kept_advances.resolveMembers
    (fun owner m => keeps_iff.1 (keeps_resolveMember L k owner m)) owner done ms)

end Setup

end TypeExport
