import TypeExport.Proofs.Calls
import TypeExport.Proofs.Run.Kept

/-!
# Failing again

Resolving a type may fail before the type has its context, because no strategy
is found for it, or behind it, because a part of the type fails.

A failure of the first kind leaves contexts and units such that the same call
fails in the same way (`Setup.repeats_strategyFor`), and so does every call
after it.  After a failure of the second kind the context stays.  A call for the
same type finds it and succeeds, although the part fails still
(`Setup.resolve_again`).
-/

namespace TypeExport

/-- Whether a strategy makes use of the parts of a type. -/
def Strategy.isComposed : Strategy → Bool
  | .array | .dictionary | .nullable | .unwrapped _ | .genericInstance => true
  | _ => false

/-- Whether a strategy refers to the parts that a type of that kind has. -/
def Strategy.Fits (kind : TypeKind) : Strategy → Prop
  | .unwrapped x => kind.element? = some x
  | .genericInstance => ∃ definition arguments, kind = .closed definition arguments
  | _ => True

/-- Whether an error is about the structure of a type that does not hold
together. -/
def RunError.isStructural : RunError → Bool
  | .fault _ | .shape (.noElementType _) => true
  | _ => false

/-- Whether states differ in their events alone. -/
structure State.Alike (st st' : State) : Prop where
  contexts : st'.contexts = st.contexts
  units : st'.units = st.units

theorem State.Alike.refl (st : State) : st.Alike st := ⟨rfl, rfl⟩

theorem State.Alike.trans {st st' st'' : State} (h : st.Alike st') (h' : st'.Alike st'') :
    st.Alike st'' := ⟨h'.contexts.trans h.contexts, h'.units.trans h.units⟩

namespace Run

variable {α β : Type}

/-! ## Steps without effect -/

/-- Whether the outcome of a step does not depend on the state, and the step
changes neither contexts nor units. -/
def Inert (x : Run α) : Prop :=
  ∃ answer : Except RunError α, ∀ st, ∃ st', st.Alike st' ∧
    x st = match answer with
      | .ok a => .ok a st'
      | .error e => .error e st'

theorem inert_ofExcept (answer : Except RunError α) : Inert (ofExcept answer) :=
  ⟨answer, fun st => ⟨st, .refl st, by cases answer <;> rfl⟩⟩

theorem inert_pure (a : α) : Inert (pure a : Run α) := inert_ofExcept (.ok a)

theorem inert_throw (e : RunError) : Inert (throw e : Run α) := inert_ofExcept (.error e)

theorem inert_ask (answer : Except Fault α) : Inert (ask answer) := by
  cases answer with
  | ok a => exact inert_pure a
  | error e => exact inert_throw _

theorem inert_log (e : Event) : Inert (log e) :=
  ⟨.ok (), fun st => ⟨{ st with events := st.events.push e }, ⟨rfl, rfl⟩, rfl⟩⟩

/-- An inert step that succeeds in a state succeeds in every state. -/
theorem Inert.ok {x : Run α} (hx : Inert x) {st st' : State} {a : α} (h : x st = .ok a st') :
    st.Alike st' ∧ ∀ st₁, ∃ st₂, st₁.Alike st₂ ∧ x st₁ = .ok a st₂ := by
  obtain ⟨answer, hanswer⟩ := hx
  obtain ⟨st₂, halike, heq⟩ := hanswer st
  cases answer with
  | ok b =>
    cases h.symm.trans heq
    exact ⟨halike, hanswer⟩
  | error e => cases h.symm.trans heq

theorem Inert.error {x : Run α} (hx : Inert x) {st st' : State} {e : RunError}
    (h : x st = .error e st') :
    st.Alike st' ∧ ∀ st₁, ∃ st₂, st₁.Alike st₂ ∧ x st₁ = .error e st₂ := by
  obtain ⟨answer, hanswer⟩ := hx
  obtain ⟨st₂, halike, heq⟩ := hanswer st
  cases answer with
  | ok b => cases h.symm.trans heq
  | error e' =>
    cases h.symm.trans heq
    exact ⟨halike, hanswer⟩

theorem Inert.bind {x : Run β} {f : β → Run α} (hx : Inert x) (hf : ∀ b, Inert (f b)) :
    Inert (x >>= f) := by
  obtain ⟨answer, hanswer⟩ := hx
  cases answer with
  | error e =>
    refine ⟨.error e, fun st => ?_⟩
    obtain ⟨st', halike, heq⟩ := hanswer st
    exact ⟨st', halike, bind_of_eq_error heq⟩
  | ok b =>
    obtain ⟨answer', hanswer'⟩ := hf b
    refine ⟨answer', fun st => ?_⟩
    obtain ⟨st', halike, heq⟩ := hanswer st
    obtain ⟨st'', halike', heq'⟩ := hanswer' st'
    exact ⟨st'', halike.trans halike', (bind_of_eq_ok heq).trans heq'⟩

/-! ## Steps that fail again -/

/-- Whether a failure of a step changes no contexts, and is met again, without
another change, wherever the units are those that it left. -/
def Repeats (x : Run α) : Prop :=
  ∀ st e st', x st = .error e st' → st'.contexts = st.contexts ∧
    ∀ st₁ : State, st₁.units = st'.units → ∃ st₂, st₁.Alike st₂ ∧ x st₁ = .error e st₂

theorem Inert.repeats {x : Run α} (hx : Inert x) : Repeats x := by
  intro st e st' h
  obtain ⟨halike, hagain⟩ := hx.error h
  exact ⟨halike.contexts, fun st₁ _ => hagain st₁⟩

theorem Inert.bind_repeats {x : Run β} {f : β → Run α} (hx : Inert x)
    (hf : ∀ b, Repeats (f b)) : Repeats (x >>= f) := by
  intro st e st' h
  rcases bind_eq_error_iff.1 h with hfail | ⟨b, st₁, hok, hfail⟩
  · obtain ⟨halike, hagain⟩ := hx.error hfail
    refine ⟨halike.contexts, fun st₂ _ => ?_⟩
    obtain ⟨st₃, halike', heq⟩ := hagain st₂
    exact ⟨st₃, halike', bind_of_eq_error heq⟩
  · obtain ⟨halike, hagain⟩ := hx.ok hok
    obtain ⟨hcontexts, hagain'⟩ := hf b st₁ e st' hfail
    refine ⟨hcontexts.trans halike.contexts, fun st₂ hunits => ?_⟩
    obtain ⟨st₃, halike', heq⟩ := hagain st₂
    obtain ⟨st₄, halike'', heq'⟩ := hagain' st₃ (halike'.units.trans hunits)
    exact ⟨st₄, halike'.trans halike'', (bind_of_eq_ok heq).trans heq'⟩

theorem declare_of_eq_ok {k : UnitId} {d : Declaration} {st : State} {r : Nat × Units}
    (h : st.units.declare k d = .ok r) : declare k d st = .ok r.1 { st with units := r.2 } := by
  unfold declare
  rw [Setup.get_bind_apply, h]
  rfl

theorem declare_of_eq_error {k : UnitId} {d : Declaration} {st : State} {cause : UnitError}
    (h : st.units.declare k d = .error cause) : declare k d st = .error (.unit cause) st := by
  unfold declare
  rw [Setup.get_bind_apply, h]
  rfl

/-- A declaration that a unit refuses is refused again. -/
theorem repeats_declare (k : UnitId) (d : Declaration) (f : Nat → α) :
    Repeats (do
      let p ← declare k d
      return f p) := by
  intro st e st' h
  cases hdeclare : st.units.declare k d with
  | ok r => cases (bind_of_eq_ok (declare_of_eq_ok hdeclare)).symm.trans h
  | error cause =>
    cases (bind_of_eq_error (declare_of_eq_error hdeclare)).symm.trans h
    refine ⟨rfl, fun st₁ hunits => ⟨st₁, .refl st₁, ?_⟩⟩
    rw [← hunits] at hdeclare
    exact bind_of_eq_error (declare_of_eq_error hdeclare)

/-- A unit that was asked for is there when the step behind fails, so it is not
created again. -/
theorem repeats_unitAt {f : UnitId → Run α} (location : String) (hf : ∀ k, Repeats (f k))
    (hunits : ∀ k st, Ends (f k) st (fun _ _ => True) fun _ st' => st'.units = st.units) :
    Repeats (do
      let k ← unitAt location
      f k) := by
  have asked : ∀ st : State, (do
      let k ← unitAt location
      f k) st = f (st.units.ensure location).1 { st with units := (st.units.ensure location).2 } :=
    fun _ => rfl
  intro st e st' h
  rw [asked] at h
  obtain ⟨hcontexts, hagain⟩ := hf _ _ e st' h
  refine ⟨hcontexts, fun st₁ hleft => ?_⟩
  have hensure : st₁.units.ensure location = ((st.units.ensure location).1, st₁.units) := by
    rw [hleft, (hunits _ _).bad_of_eq h]
    exact Units.ensure_of_find? (Units.find?_ensure st.units location)
  obtain ⟨st₂, halike, heq⟩ := hagain st₁ hleft
  refine ⟨st₂, halike, ?_⟩
  rw [asked, hensure]
  exact heq

end Run

namespace Setup

variable {s : Setup} {r : Rules} {st st' : State} {e : RunError} {t : TypeId} {d : Descriptor}

/-! ## Strategies -/

theorem repeats_placeEnumeration (location : String) (values : List EnumValue) :
    Run.Repeats (s.placeEnumeration location d values) := by
  have place : ∀ (outline : Declaration) (f : UnitId → Strategy), Run.Repeats (do
      let unit ← Run.unitAt location
      let _ ← Run.declare unit outline
      return f unit) := by
    intro outline f
    refine Run.repeats_unitAt location (fun k => Run.repeats_declare k outline fun _ => f k)
      fun k st => ?_
    rw [ends_bind, Run.ends_declare]
    split <;> simp
  unfold placeEnumeration
  dsimp only
  split
  · exact place _ fun k => .nativeEnum k d.name
  · exact place _ fun k => .fixedStrings k d.name

theorem repeats_placeObject (location : String) (parameters : List TypeId) :
    Run.Repeats (s.placeObject location d parameters) := by
  refine Run.repeats_unitAt location (fun k => (Run.inert_ask _).bind_repeats fun ps =>
    Run.repeats_declare k _ fun p => Strategy.object k d.name p) fun k st => ?_
  cases s.types.viewAll parameters with
  | ok ps =>
    rw [Run.ask_ok, ends_bind, ends_pure, ends_bind, Run.ends_declare]
    split <;> simp
  | error e => exact rfl

theorem repeats_standardStrategy (location : String) :
    Run.Repeats (s.standardStrategy location d) := by
  unfold standardStrategy
  split
  · exact (Run.inert_pure _).repeats
  · exact ((Run.inert_ask _).bind fun _ => Run.inert_pure _).repeats
  · refine ((Run.inert_ask _).bind fun container => ?_).repeats
    split
    · exact Run.inert_pure _
    · exact Run.inert_pure _
    · split
      · exact Run.inert_pure _
      · split
        · exact (Run.inert_ask _).bind fun _ => Run.inert_pure _
        · exact Run.inert_throw _
    · exact Run.inert_pure _
  · exact (Run.inert_pure _).repeats
  · exact (Run.inert_throw _).repeats
  · exact repeats_placeEnumeration location _
  · exact repeats_placeObject location _

/-- When no strategy is found for a type, none is found for it again. -/
theorem repeats_strategyFor (d : Descriptor) : Run.Repeats (s.strategyFor d) := by
  rw [s.strategyFor_eq]
  refine (Run.inert_ofExcept _).bind_repeats fun location => ?_
  have rest : Run.Repeats (do
      let decision ← Run.ofExcept (s.hooks.override d)
      s.strategyBy location d decision) := by
    refine (Run.inert_ofExcept _).bind_repeats fun decision => ?_
    cases decision with
    | redirect name target => exact ((Run.inert_log _).bind fun _ => Run.inert_pure _).repeats
    | custom => exact ((Run.inert_log _).bind fun _ => Run.inert_pure _).repeats
    | standard => exact repeats_standardStrategy location
  dsimp only
  split
  · exact (Run.inert_log _).bind_repeats fun _ => rest
  · exact rest

/-- Resolving only appends contexts. -/
theorem keptByResolving_appends :
    KeptByResolving fun st st' => st.contexts.toList <+: st'.contexts.toList where
  refl _ := List.prefix_rfl
  trans h h' := h.trans h'
  event _ _ := List.prefix_rfl
  unit _ _ := List.prefix_rfl
  declaration _ := List.prefix_rfl
  context st c := by
    rw [Array.toList_push]
    exact List.prefix_append _ _

/-- A strategy that is found refers to the parts of the type. -/
theorem ends_standardStrategy_fits (location : String) :
    Ends (s.standardStrategy location d) st (fun σ _ => σ.Fits d.kind) fun _ _ => True := by
  unfold standardStrategy
  cases d.kind with
  | builtin => trivial
  | container => trivial
  | parameter => trivial
  | array element =>
    dsimp only
    cases s.types.view element with
    | error => trivial
    | ok e =>
      rw [Run.ask_ok, ends_bind, ends_pure, ends_pure]
      split <;> trivial
  | closed definition arguments =>
    dsimp only
    cases s.types.container? d with
    | error => trivial
    | ok container =>
      rw [Run.ask_ok, ends_bind, ends_pure]
      cases container with
      | none => exact ⟨definition, arguments, rfl⟩
      | some container =>
        cases container with
        | list => trivial
        | dictionary => trivial
        | nullable =>
          dsimp only
          split
          · trivial
          · cases helement : (TypeKind.closed definition arguments).element? with
            | none => trivial
            | some underlying =>
              dsimp only
              cases s.types.view underlying with
              | error => trivial
              | ok => exact helement
  | enumeration values =>
    dsimp only
    unfold placeEnumeration
    rw [ends_bind, Run.ends_unitAt]
    dsimp only
    split <;>
    · rw [ends_bind, Run.ends_declare]
      split <;> trivial
  | object parameters =>
    dsimp only
    unfold placeObject
    rw [ends_bind, Run.ends_unitAt]
    cases s.types.viewAll parameters with
    | error => trivial
    | ok ps =>
      rw [Run.ask_ok, ends_bind, ends_pure, ends_bind, Run.ends_declare]
      split <;> trivial

theorem ends_strategyFor_fits (d : Descriptor) :
    Ends (s.strategyFor d) st (fun σ _ => σ.Fits d.kind) fun _ _ => True := by
  rw [s.strategyFor_eq, ends_bind, Run.ends_ofExcept]
  cases s.hooks.location s.types d with
  | error => trivial
  | ok location =>
    have rest : ∀ st, Ends (do
        let decision ← Run.ofExcept (s.hooks.override d)
        s.strategyBy location d decision) st (fun σ _ => σ.Fits d.kind) fun _ _ => True := by
      intro st
      rw [ends_bind, Run.ends_ofExcept]
      cases s.hooks.override d with
      | error => trivial
      | ok decision =>
        cases decision with
        | redirect => trivial
        | custom => trivial
        | standard => exact ends_standardStrategy_fits location
    dsimp only
    split
    · exact rest _
    · exact rest _

/-! ## How resolving fails -/

/-- Whether resolving a type fails wherever contexts and units are as in a state,
and changes neither. -/
def Fails (s : Setup) (t : TypeId) (st : State) (e : RunError) : Prop :=
  ∀ st₁, st.Alike st₁ → ∃ st₂, st₁.Alike st₂ ∧ s.resolve t st₁ = .error e st₂

/-- How a step of resolving fails. -/
inductive StepFails (s : Setup) (below : Toolkit) (t : TypeId) (st : State) (e : RunError)
    (st' : State) : Prop
  /-- The type was not issued. -/
  | foreign {cause : Fault} :
      s.types.view t = .error cause → e = .fault cause → st' = st →
      StepFails s below t st e st'
  /-- No strategy is found. -/
  | own {d : Descriptor} :
      s.types.view t = .ok d → s.strategyFor d st = .error e st' → StepFails s below t st e st'
  /-- A part fails, when the type has its context. -/
  | part {d : Descriptor} {σ : Strategy} {st₁ st₂ : State} :
      s.types.view t = .ok d → s.strategyFor d st = .ok σ st₁ →
      st₂ = { st₁ with
        events := st₁.events.push (.created d.key σ)
        contexts := st₁.contexts.push (.create t σ) } →
      s.resolveParts below t d σ st₂ = .error e st' → StepFails s below t st e st'

theorem stepFails_of_eq {below : Toolkit} (h : s.resolveStep below t st = .error e st') :
    st.context? t = none ∧ s.StepFails below t st e st' := by
  rw [resolveStep, get_bind_apply] at h
  cases hfind : st.context? t with
  | some c =>
    rw [hfind] at h
    cases h
  | none =>
    rw [hfind] at h
    refine ⟨rfl, ?_⟩
    cases hview : s.types.view t with
    | error cause =>
      rw [hview] at h
      cases h
      exact .foreign hview rfl rfl
    | ok d =>
      rw [hview] at h
      replace h : (do
          let σ ← s.strategyFor d
          Run.log (.created d.key σ)
          Run.addContext (.create t σ)
          s.resolveParts below t d σ
          return σ : Run Strategy) st = .error e st' := h
      rcases bind_eq_error_iff.1 h with hfail | ⟨σ, st₁, hσ, hrest⟩
      · exact .own hview hfail
      · replace hrest : (do
            s.resolveParts below t d σ
            return σ : Run Strategy) { st₁ with
              events := st₁.events.push (.created d.key σ)
              contexts := st₁.contexts.push (.create t σ) } = .error e st' := hrest
        rcases bind_eq_error_iff.1 hrest with hfail | ⟨_, _, _, hpure⟩
        · exact .part hview hσ rfl hfail
        · cases hpure

/-! ## Failures without a context -/

/-- A failure for which no part is asked is met again, whatever resolves the
parts. -/
theorem again_of_view {cause : Fault} (hview : s.types.view t = .error cause) (below : Toolkit)
    (hnone : st.context? t = none) : s.resolveStep below t st = .error (.fault cause) st := by
  rw [resolveStep, get_bind_apply, hnone, hview]
  rfl

theorem again_of_strategyFor {below : Toolkit} (hview : s.types.view t = .ok d)
    (hnone : st.context? t = none) (hfail : s.strategyFor d st = .error e st') :
    s.resolveStep below t st = .error e st' := by
  rw [resolveStep, get_bind_apply, hnone, hview]
  show (s.strategyFor d >>= fun σ => _) st = _
  exact bind_of_eq_error hfail

theorem fails_of_view {cause : Fault} (hview : s.types.view t = .error cause)
    (hnone : st.context? t = none) : s.Fails t st (.fault cause) := by
  intro st₁ halike
  refine ⟨st₁, .refl st₁, ?_⟩
  rw [resolve_eq_resolveStep]
  refine again_of_view hview _ ?_
  rwa [State.context?, halike.contexts]

theorem fails_of_strategyFor (hview : s.types.view t = .ok d) (hnone : st.context? t = none)
    (hfail : s.strategyFor d st = .error e st') :
    st'.context? t = none ∧ s.Fails t st' e := by
  obtain ⟨hcontexts, hagain⟩ := repeats_strategyFor d st e st' hfail
  have hnone' : st'.context? t = none := by rwa [State.context?, hcontexts]
  refine ⟨hnone', fun st₁ halike => ?_⟩
  obtain ⟨st₂, halike', heq⟩ := hagain st₁ halike.units
  refine ⟨st₂, halike', ?_⟩
  rw [resolve_eq_resolveStep]
  refine again_of_strategyFor hview ?_ heq
  rwa [State.context?, halike.contexts]

/-! ## Failures of parts -/

/-- Whether resolving one of some types fails. -/
def FailsAmong (below : Toolkit) (ts : List TypeId) (e : RunError) (st' : State) : Prop :=
  ∃ x ∈ ts, ∃ st, below.resolve x st = .error e st'

theorem failsAmong_of_resolveAll {below : Toolkit} {ts : List TypeId}
    (h : resolveAll below ts st = .error e st') : FailsAmong below ts e st' := by
  induction ts generalizing st with
  | nil => cases h
  | cons t ts ih =>
    rcases bind_eq_error_iff.1 h with hfail | ⟨_, st₁, -, hrest⟩
    · exact ⟨t, List.mem_cons_self, st, hfail⟩
    · obtain ⟨x, hx, hfails⟩ := ih hrest
      exact ⟨x, List.mem_cons_of_mem _ hx, hfails⟩

theorem isStructural_of_ask {α : Type} {answer : Except Fault α}
    (h : Run.ask answer st = .error e st') : e.isStructural = true := by
  cases answer with
  | ok a => cases h
  | error cause =>
    cases h
    rfl

theorem eq_ok_of_ask {α : Type} {answer : Except Fault α} {a : α}
    (h : Run.ask answer st = .ok a st') : answer = .ok a := by
  cases answer with
  | error cause => cases h
  | ok b =>
    cases h
    rfl

theorem failsAmong_of_element {below : Toolkit} {x : TypeId} (hx : d.kind.element? = some x)
    (h : resolveAll below [x] st = .error e st') :
    FailsAmong below d.kind.constituents e st' := by
  obtain ⟨y, hy, hfails⟩ := failsAmong_of_resolveAll h
  rw [List.mem_singleton] at hy
  refine ⟨y, ?_, hfails⟩
  unfold TypeKind.element? at hx
  split at hx <;> simp_all [TypeKind.constituents]

theorem failsAmong_of_arguments {below : Toolkit} (h : (do
      let _ ← Run.ask (s.types.viewAll d.kind.arguments)
      resolveAll below d.kind.arguments) st = .error e st') :
    e.isStructural = true ∨ FailsAmong below d.kind.constituents e st' := by
  rcases bind_eq_error_iff.1 h with hask | ⟨_, _, -, hfail⟩
  · exact .inl (isStructural_of_ask hask)
  · obtain ⟨x, hx, hfails⟩ := failsAmong_of_resolveAll hfail
    exact .inr ⟨x, Universe.mem_constituents_of_mem_arguments hx, hfails⟩

/-- The definition of a closed generic is the one that the type has. -/
theorem eq_of_definition? {definition : TypeId} {arguments : List TypeId}
    {found : Option (TypeId × Descriptor)} (hkind : d.kind = .closed definition arguments)
    (h : s.types.definition? t d = .ok found) : ∃ e, found = some (definition, e) := by
  rw [Universe.definition?, hkind] at h
  dsimp only at h
  cases hview : s.types.view definition with
  | error cause =>
    rw [hview] at h
    cases h
  | ok e =>
    rw [hview] at h
    cases h
    exact ⟨e, rfl⟩

/-- Behind the context only a part fails, or the structure of the type. -/
theorem failsAmong_of_resolveParts {below : Toolkit} {σ : Strategy} (hr : s.RuledBy r)
    (hσ : σ.Fits d.kind) (h : s.resolveParts below t d σ st = .error e st') :
    σ.isComposed = true ∧
      (e.isStructural = true ∨ FailsAmong below d.kind.constituents e st') := by
  cases σ with
  | array | nullable =>
    refine ⟨rfl, ?_⟩
    simp only [resolveParts] at h
    cases helement : d.kind.element? with
    | none =>
      rw [helement] at h
      cases h
      exact .inl rfl
    | some x =>
      rw [helement] at h
      exact .inr (failsAmong_of_element helement h)
  | unwrapped x => exact ⟨rfl, .inr (failsAmong_of_element hσ h)⟩
  | dictionary => exact ⟨rfl, failsAmong_of_arguments h⟩
  | genericInstance =>
    refine ⟨rfl, ?_⟩
    obtain ⟨definition, ids, hkind⟩ := hσ
    rcases bind_eq_error_iff.1 h with hask | ⟨found, st₁, hask, hrest⟩
    · exact .inl (isStructural_of_ask hask)
    · rcases bind_eq_error_iff.1 hrest with hfail | ⟨_, _, -, hrest⟩
      · obtain ⟨x, hx, hfails⟩ := failsAmong_of_resolveAll hfail
        obtain ⟨_, rfl⟩ := eq_of_definition? hkind (eq_ok_of_ask hask)
        refine .inr ⟨x, ?_, hfails⟩
        rw [hkind]
        exact List.mem_cons.2 (.inl (List.mem_singleton.1 hx))
      · exact failsAmong_of_arguments hrest
  | custom =>
    simp only [resolveParts, hr.behaviour] at h
    cases h
  | builtin | nativeEnum | fixedStrings | genericParameter | object | redirect => cases h

/-! ## The source of a failure -/

/-- Whether a type is composed of another. -/
def Composes (s : Setup) (t x : TypeId) : Prop :=
  ∃ d, s.types.view t = .ok d ∧ x ∈ d.kind.constituents

/-- A failure is that of a type without a context, which fails again. -/
theorem exists_fails (hr : s.RuledBy r) {fuel : Nat}
    (h : (s.toolkit fuel).resolve t st = .error e st') (he : e.isStructural = false) :
    ∃ u, Relation.ReflTransGen s.Composes t u ∧ s.Fails u st' e := by
  induction fuel generalizing t st with
  | zero =>
    cases h
    cases he
  | succ fuel ih =>
    obtain ⟨hnone, hfails⟩ := stepFails_of_eq h
    cases hfails with
    | foreign _ hcause =>
      rw [hcause] at he
      cases he
    | own hview hfail => exact ⟨t, .refl, (fails_of_strategyFor hview hnone hfail).2⟩
    | @part d σ st₁ st₂ hview hσ _ hfail =>
      obtain ⟨-, hpart⟩ :=
        failsAmong_of_resolveParts hr ((ends_strategyFor_fits d).good_of_eq hσ) hfail
      rw [he] at hpart
      obtain ⟨x, hx, st₃, hfail⟩ := hpart.resolve_left Bool.false_ne_true
      obtain ⟨u, hu, hfails⟩ := ih hfail
      exact ⟨u, .head ⟨d, hview, hx⟩ hu, hfails⟩

/-- A type that is found keeps its context in front of others. -/
theorem context?_of_appended {c : Context} (happended : st.contexts.toList <+: st'.contexts.toList)
    (h : st.context? t = some c) : st'.context? t = some c := by
  obtain ⟨rest, hrest⟩ := happended
  rw [State.context?, ← Array.find?_toList] at h ⊢
  rw [← hrest, List.find?_append, h]
  rfl

/-- A failure either leaves a type without a context, and is met again, or it is
that of a part. -/
theorem fails_or_isComposed (hr : s.RuledBy r) (h : s.resolve t st = .error e st') :
    (st'.context? t = none ∧ s.Fails t st' e) ∨
      ∃ c, st'.context? t = some c ∧ c.strategy.isComposed = true := by
  obtain ⟨hnone, hfails⟩ := stepFails_of_eq h
  cases hfails with
  | foreign hview hcause hstate =>
    subst hcause hstate
    exact .inl ⟨hnone, fails_of_view hview hnone⟩
  | own hview hfail => exact .inl (fails_of_strategyFor hview hnone hfail)
  | @part d σ st₁ st₂ hview hσ hst₂ hfail =>
    have hcontexts : st₁.contexts = st.contexts :=
      (keptByPlacing_contexts.strategyFor d st).good_of_eq hσ
    have hcontext : st₂.context? t = some (.create t σ) := by
      rw [State.context?] at hnone ⊢
      simp [hst₂, hcontexts, Array.find?_push, hnone, Context.create]
    have happended : st₂.contexts.toList <+: st'.contexts.toList := by
      refine (keptByResolving_appends.resolveParts (keptByResolving_appends.resolve hr _)
        (fun _ => ?_) st₂).bad_of_eq hfail
      rw [hr.behaviour]
      exact keptByResolving_appends.pure ()
    have hcomposed :=
      (failsAmong_of_resolveParts hr ((ends_strategyFor_fits d).good_of_eq hσ) hfail).1
    exact .inr ⟨_, context?_of_appended happended hcontext, hcomposed⟩

/-- A failure to resolve a type is met by the next call exactly when it leaves
the type without a context.  Otherwise the strategy of the type is composed, the
failure is that of a part, and the next call succeeds and changes nothing.  The
type that a failure comes from fails still, unless the structure of the types
does not hold together. -/
theorem resolve_again (h : s.RuledBy r) (hfail : s.resolve t st = .error e st') :
    (s.Fails t st' e ↔ st'.context? t = none) ∧
      (∀ c, st'.context? t = some c →
        c.strategy.isComposed = true ∧ s.resolve t st' = .ok c.strategy st') ∧
      (e.isStructural = false → ∃ u, Relation.ReflTransGen s.Composes t u ∧ s.Fails u st' e) := by
  refine ⟨?_, ?_, exists_fails h hfail⟩
  · rcases fails_or_isComposed h hfail with ⟨hnone, hfails⟩ | ⟨c, hc, -⟩
    · exact ⟨fun _ => hnone, fun _ => hfails⟩
    · constructor
      · intro hfails
        obtain ⟨st₂, -, heq⟩ := hfails st' (.refl st')
        rw [resolve_of_context? hc] at heq
        cases heq
      · intro hnone
        rw [hc] at hnone
        cases hnone
  · intro c hc
    refine ⟨?_, resolve_of_context? hc⟩
    rcases fails_or_isComposed h hfail with ⟨hnone, -⟩ | ⟨c', hc', hcomposed⟩
    · rw [hc] at hnone
      cases hnone
    · cases hc.symm.trans hc'
      exact hcomposed

/-- A document with two classes of one name, and an array of the second. -/
@[irreducible] def twinsText : String :=
  r#"[[["object","A.X"],["object","B.X"]],["A.X","B.X[]"]]"#

/-- The setup of the document. -/
def twins : Setup := ofDocument twinsText {} {}

/-- The error with which a type is not resolved behind the first class, and the
context that the type has then. -/
def twinsFailure (t : TypeId) : Option (RunError × Option Context) :=
  match twins.resolve t (twins.stateAfter [.resolve ⟨0⟩]) with
  | .ok .. => none
  | .error e st => some (e, st.context? t)

theorem twins_checks : loads twinsText = true ∧ twins.types.size = 3 ∧
    twinsFailure ⟨1⟩ = some (.unit (.nameTaken "index" "X"), none) ∧
    twinsFailure ⟨2⟩ = some (.unit (.nameTaken "index" "X"), some ⟨⟨2⟩, .array, true⟩) := by
  decide +kernel

theorem exists_of_twinsFailure {c : Option Context} (h : twinsFailure t = some (e, c)) :
    ∃ st', twins.resolve t (twins.stateAfter [.resolve ⟨0⟩]) = .error e st' ∧
      st'.context? t = c := by
  unfold twinsFailure at h
  split at h
  · cases h
  · rename_i hfail
    cases h
    exact ⟨_, hfail, rfl⟩

/-- The second class fails again.  The array of it does not, but the class in it
does. -/
theorem resolve_again_twins : twins.RuledBy {} ∧
    (∃ st e, twins.resolve ⟨1⟩ (twins.stateAfter [.resolve ⟨0⟩]) = .error e st ∧
      twins.Fails ⟨1⟩ st e) ∧
    ∃ st e, twins.resolve ⟨2⟩ (twins.stateAfter [.resolve ⟨0⟩]) = .error e st ∧
      ¬ twins.Fails ⟨2⟩ st e ∧
      ∃ u, Relation.ReflTransGen twins.Composes ⟨2⟩ u ∧ twins.Fails u st e := by
  have ruled : twins.RuledBy {} := (governed_ofDocument {} twins_checks.1 rfl rfl).ruledBy
  obtain ⟨st, hclass, hnone⟩ := exists_of_twinsFailure twins_checks.2.2.1
  obtain ⟨st', harray, hsome⟩ := exists_of_twinsFailure twins_checks.2.2.2
  have again := resolve_again ruled harray
  refine ⟨ruled, ⟨st, _, hclass, (resolve_again ruled hclass).1.2 hnone⟩,
    st', _, harray, fun hfails => ?_, again.2.2 rfl⟩
  rw [again.1.1 hfails] at hsome
  cases hsome

/-- A failure to resolve an issued type of a loaded document may be followed by
success. -/
theorem exists_resolve_recovers : twins.Governed {} ∧ twins.types.Issued ⟨2⟩ ∧
    ∃ st, twins.resolve ⟨2⟩ (twins.stateAfter [.resolve ⟨0⟩]) =
        .error (.unit (.nameTaken "index" "X")) st ∧
      twins.resolve ⟨2⟩ st = .ok .array st := by
  obtain ⟨st, hfail, hc⟩ := exists_of_twinsFailure twins_checks.2.2.2
  have hlt : 2 < twins.types.size := by
    rw [twins_checks.2.1]
    decide
  exact ⟨governed_ofDocument {} twins_checks.1 rfl rfl, hlt, st, hfail, resolve_of_context? hc⟩

end Setup

end TypeExport
