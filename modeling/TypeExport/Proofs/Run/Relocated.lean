import TypeExport.Proofs.Run.Choosing
import TypeExport.Proofs.Run.Members
import TypeExport.Proofs.Run.Paired

/-!
# Runs that place types elsewhere

Two setups that differ only in where they place types may fail at different
points, because names clash in one unit and not in another.  But as long as both
go on, they resolve the same types in the same order: where a declaration stands
is never looked at to decide what to resolve, or how often to complete.

States are related when their contexts are those of the same types in order,
with strategies that differ at most in the place of the declaration
(`State.Relocates`).  `Agree R x y` says of two steps that from related states
they end in related states, with results that `R` relates, if both succeed.
-/

namespace TypeExport

/-- Whether two strategies differ at most in where the type is declared. -/
inductive Strategy.Relocates : Strategy → Strategy → Prop
  | same {σ : Strategy} : σ.unit? = none → Relocates σ σ
  | nativeEnum {k k' : UnitId} {name : String} :
      Relocates (.nativeEnum k name) (.nativeEnum k' name)
  | fixedStrings {k k' : UnitId} {name : String} :
      Relocates (.fixedStrings k name) (.fixedStrings k' name)
  | object {k k' : UnitId} {name : String} {p p' : Nat} :
      Relocates (.object k name p) (.object k' name p')

theorem Strategy.Relocates.startsIncomplete {σ σ' : Strategy} (h : σ.Relocates σ') :
    σ.startsIncomplete = σ'.startsIncomplete := by
  cases h <;> rfl

theorem Strategy.Relocates.isSome_unit? {σ σ' : Strategy} (h : σ.Relocates σ') :
    σ.unit?.isSome = σ'.unit?.isSome := by
  cases h <;> rfl

/-- Whether two contexts are those of one type, wherever it is declared. -/
structure Context.Relocates (s : Setup) (c c' : Context) : Prop where
  type : c.type = c'.type
  built : c.built = c'.built
  strategy : c.strategy.Relocates c'.strategy
  /-- The strategy is one that the setup asks for. -/
  suits : s.Suits c.type c.strategy

/-- Whether two states have contexts of the same types in order, wherever these
are declared. -/
def State.Relocates (s : Setup) (st st' : State) : Prop :=
  List.Forall₂ (Context.Relocates s) st.contexts.toList st'.contexts.toList

namespace State.Relocates

variable {s : Setup} {st st' : State}

theorem context? (h : st.Relocates s st') (t : TypeId) :
    (st.context? t = none ∧ st'.context? t = none) ∨
      ∃ c c', st.context? t = some c ∧ st'.context? t = some c' ∧ c.Relocates s c' := by
  rw [State.context?, State.context?, ← Array.find?_toList, ← Array.find?_toList]
  exact find?_of_types (fun hc => hc.type) h t

theorem isBuilt (h : st.Relocates s st') (t : TypeId) : st.isBuilt t = st'.isBuilt t :=
  isBuilt_of_contexts (fun hc => ⟨hc.type, hc.built⟩) h t

theorem incomplete (h : st.Relocates s st') :
    List.Forall₂ (Context.Relocates s) st.incomplete st'.incomplete := by
  refine List.rel_filter (fun c c' hc => ?_) h
  show (!c.built) = true ↔ (!c'.built) = true
  rw [hc.built]

end State.Relocates

/-- Whether two steps that succeed from related states end in related states. -/
def Agree {α β : Type} (s : Setup) (R : α → β → Prop) (x : Run α) (y : Run β) : Prop :=
  ∀ st st' : State, st.Relocates s st' → ∀ a τ b τ', x st = .ok a τ → y st' = .ok b τ' →
    R a b ∧ τ.Relocates s τ'

/-! ## Composing steps that agree -/

namespace Agree

variable {α β γ δ : Type} {s : Setup} {R : α → β → Prop} {x : Run α} {y : Run β}

theorem pure {a : α} {b : β} (h : R a b) : Agree s R (Pure.pure a) (Pure.pure b) := by
  rintro st st' hst _ _ _ _ ⟨⟩ ⟨⟩
  exact ⟨h, hst⟩

theorem throw_left (e : RunError) (y : Run β) : Agree s R (MonadExcept.throw e) y := by
  rintro st st' - _ _ _ _ ⟨⟩

theorem throw_right (x : Run α) (e : RunError) : Agree s R x (MonadExcept.throw e) := by
  rintro st st' - _ _ _ _ - ⟨⟩

theorem bind {Q : γ → δ → Prop} {u : Run γ} {v : Run δ} {f : γ → Run α} {g : δ → Run β}
    (h : Agree s Q u v) (hf : ∀ c d, Q c d → Agree s R (f c) (g d)) :
    Agree s R (u >>= f) (v >>= g) := by
  intro st st' hst a τ b τ' ha hb
  obtain ⟨c, st₁, hc, ha⟩ := bind_eq_ok_iff.1 ha
  obtain ⟨d, st₁', hd, hb⟩ := bind_eq_ok_iff.1 hb
  obtain ⟨hcd, hst₁⟩ := h st st' hst c st₁ d st₁' hc hd
  exact hf c d hcd st₁ st₁' hst₁ a τ b τ' ha hb

/-- Steps that begin by reading the state. -/
theorem get_bind {f : State → Run α} {g : State → Run β}
    (h : ∀ st st', st.Relocates s st' → Agree s R (f st) (g st')) :
    Agree s R (get >>= f) (get >>= g) :=
  fun st st' hst => h st st' hst st st' hst

/-- Steps that leave the contexts as they are. -/
theorem of_keeps (hx : x.KeepsContexts) (hy : y.KeepsContexts) : Agree s Always x y := by
  intro st st' hst a τ b τ' ha hb
  have hτ : τ.contexts = st.contexts := (hx st).good_of_eq ha
  have hτ' : τ'.contexts = st'.contexts := (hy st').good_of_eq hb
  refine ⟨trivial, ?_⟩
  unfold State.Relocates
  rw [hτ, hτ']
  exact hst

/-- A step on the left that leaves the contexts as they are. -/
theorem skip_left {u : Run γ} (hu : u.KeepsContexts) (h : Agree s R x y) :
    Agree s R (u >>= fun _ => x) y :=
  (of_keeps hu (Run.IsOwn.pure ()).keepsContexts).bind fun _ _ _ => h

/-- A step on the right that leaves the contexts as they are. -/
theorem skip_right {u : Run γ} (hu : u.KeepsContexts) (h : Agree s R x y) :
    Agree s R x (u >>= fun _ => y) :=
  (of_keeps (Run.IsOwn.pure ()).keepsContexts hu).bind fun _ _ _ => h

/-- What the first step gives is known besides. -/
theorem and_left {P : α → Prop} {bad : RunError → State → Prop} (h : Agree s R x y)
    (hx : ∀ st, Ends x st (fun a _ => P a) bad) : Agree s (fun a b => P a ∧ R a b) x y := by
  intro st st' hst a τ b τ' ha hb
  obtain ⟨hab, hτ⟩ := h st st' hst a τ b τ' ha hb
  exact ⟨⟨(hx st).good_of_eq ha, hab⟩, hτ⟩

theorem ask (answer : Except Fault α) : Agree s Eq (Run.ask answer) (Run.ask answer) := by
  cases answer with
  | ok a => exact pure rfl
  | error e => exact throw_left _ _

theorem ofExcept (answer : Except RunError α) :
    Agree s Eq (Run.ofExcept answer) (Run.ofExcept answer) := by
  cases answer with
  | ok a => exact pure rfl
  | error e => exact throw_left _ _

theorem own (hx : x.IsOwn) (hy : y.IsOwn) : Agree s Always x y :=
  of_keeps hx.keepsContexts hy.keepsContexts

theorem log (e e' : Event) : Agree s Always (Run.log e) (Run.log e') := own (.log e) (.log e')

theorem unitAt (location location' : String) :
    Agree s Always (Run.unitAt location) (Run.unitAt location') :=
  own (.unitAt location) (.unitAt location')

theorem declare (k k' : UnitId) (d d' : Declaration) :
    Agree s Always (Run.declare k d) (Run.declare k' d') :=
  own (.declare k d) (.declare k' d')

theorem addImport (k k' : UnitId) (i i' : Import) :
    Agree s Always (Run.addImport k i) (Run.addImport k' i') :=
  own (.addImport k i) (.addImport k' i')

theorem setMembers (k k' : UnitId) (p p' : Nat) (members members' : List MemberDeclaration) :
    Agree s Always (Run.setMembers k p members) (Run.setMembers k' p' members') :=
  own (.setMembers k p members) (.setMembers k' p' members')

theorem addContext {c c' : Context} (h : c.Relocates s c') :
    Agree s Always (Run.addContext c) (Run.addContext c') := by
  rintro st st' hst _ _ _ _ ⟨⟩ ⟨⟩
  refine ⟨trivial, ?_⟩
  unfold State.Relocates
  rw [Array.toList_push, Array.toList_push]
  exact List.rel_append hst (.cons h .nil)

theorem markBuilt (t : TypeId) : Agree s Always (Run.markBuilt t) (Run.markBuilt t) := by
  refine get_bind fun st st' _ => ?_
  dsimp only
  split
  · split
    · rintro st st' hst _ _ _ _ ⟨⟩ ⟨⟩
      refine ⟨trivial, ?_⟩
      unfold State.Relocates
      rw [Array.toList_map, Array.toList_map, List.forall₂_map_left_iff,
        List.forall₂_map_right_iff]
      refine hst.imp fun c c' hc => ?_
      by_cases ht : c.type = t
      · rw [if_pos ht, if_pos (hc.type ▸ ht)]
        exact ⟨hc.type, rfl, hc.strategy, hc.suits⟩
      · rw [if_neg ht, if_neg (hc.type ▸ ht)]
        exact hc
    · exact throw_right _ _
  · exact throw_left _ _

end Agree

namespace Setup

/-- A setup with other hooks. -/
abbrev ruled (s : Setup) (hooks : Hooks) : Setup := { s with hooks }

/-- Whether two strategies are for a type, and differ at most in where it is
declared. -/
def Relocates (s : Setup) (t : TypeId) (σ σ' : Strategy) : Prop :=
  s.Suits t σ ∧ σ.Relocates σ'

/-- Whether the steps of two toolkits agree. -/
structure AgreeTools (s : Setup) (below below' : Toolkit) : Prop where
  resolve : ∀ t, Agree s (s.Relocates t) (below.resolve t) (below'.resolve t)
  reference : ∀ k k' a t, Agree s Always (below.reference k a t) (below'.reference k' a t)

variable {s : Setup} {hooks : Hooks} {t : TypeId} {d : Descriptor} {σ σ' : Strategy}
  {below below' : Toolkit} {k k' : UnitId} {a : Option Attributes}

/-! ## Strategies -/

theorem agree_placeEnumeration (location location' : String) (values : List EnumValue) :
    Agree s Strategy.Relocates (s.placeEnumeration location d values)
      ((s.ruled hooks).placeEnumeration location' d values) := by
  refine (Agree.unitAt location location').bind fun k k' _ => ?_
  dsimp only
  cases s.options.enums with
  | native => exact (Agree.declare k k' _ _).bind fun _ _ _ => .pure .nativeEnum
  | fixedStrings => exact (Agree.declare k k' _ _).bind fun _ _ _ => .pure .fixedStrings

theorem agree_placeObject (location location' : String) (parameters : List TypeId) :
    Agree s Strategy.Relocates (s.placeObject location d parameters)
      ((s.ruled hooks).placeObject location' d parameters) := by
  refine (Agree.unitAt location location').bind fun k k' _ => (Agree.ask _).bind fun _ _ _ => ?_
  exact (Agree.declare k k' _ _).bind fun _ _ _ => .pure .object

section Lawful

variable (L : s.Lawful)
include L

theorem agree_standardStrategy (hd : s.types.get? t = some d) (location location' : String) :
    Agree s Strategy.Relocates (s.standardStrategy location d)
      ((s.ruled hooks).standardStrategy location' d) := by
  rw [standardStrategy_eq L.sound hd, standardStrategy_eq (s := s.ruled hooks) L.sound hd]
  dsimp only
  cases s.types.formOf d.kind with
  | primitive | sequence | dictionary | applied | parameter => exact .pure (.same rfl)
  | absent x =>
    refine .pure (.same ?_)
    split <;> rfl
  | enumeration values => exact agree_placeEnumeration location location' values
  | object parameters => exact agree_placeObject location location' parameters
  | container => exact .throw_left _ _

/-- Where a type is placed may be asked of each setup: what is said of the
strategies does not depend on the answers. -/
theorem agree_strategyFor (hover : hooks.override = s.hooks.override)
    (hd : s.types.get? t = some d) :
    Agree s (s.Relocates t) (s.strategyFor d) ((s.ruled hooks).strategyFor d) := by
  have rest : ∀ location location', Agree s Strategy.Relocates
      (do
        let decision ← Run.ofExcept (s.hooks.override d)
        s.strategyBy location d decision)
      (do
        let decision ← Run.ofExcept (hooks.override d)
        (s.ruled hooks).strategyBy location' d decision) := by
    intro location location'
    rw [hover]
    refine (Agree.ofExcept _).bind ?_
    rintro decision _ rfl
    cases decision with
    | standard => exact agree_standardStrategy L hd location location'
    | redirect name target => exact (Agree.log _ _).bind fun _ _ _ => .pure (.same rfl)
    | custom => exact (Agree.log _ _).bind fun _ _ _ => .pure (.same rfl)
  have relocates : Agree s Strategy.Relocates (s.strategyFor d)
      ((s.ruled hooks).strategyFor d) := by
    rw [strategyFor_eq, strategyFor_eq]
    refine (Agree.of_keeps (keptByPlacing_contexts.ofExcept (s.hooks.location s.types d))
      (keptByPlacing_contexts.ofExcept (hooks.location s.types d))).bind
        fun location location' _ => ?_
    dsimp only
    split
    · refine .skip_left (keptByPlacing_contexts.log _) ?_
      split
      · exact .skip_right (keptByPlacing_contexts.log _) (rest location location')
      · exact rest location location'
    · split
      · exact .skip_right (keptByPlacing_contexts.log _) (rest location location')
      · exact rest location location'
  refine relocates.and_left fun st => (ends_strategyFor_chooses L.sound hd).mono ?_
    fun _ _ hb => hb
  intro σ st' hσ
  cases hσ with
  | suits hsuits => exact hsuits
  | custom _ hcustom => exact absurd hcustom (L.override _)

/-! ## Resolving -/

variable (hbelow : s.AgreeTools below below')
include hbelow

omit L in
theorem agree_resolveAll (ts : List TypeId) :
    Agree s Always (resolveAll below ts) (resolveAll below' ts) := by
  induction ts with
  | nil => exact .pure trivial
  | cons t ts ih => exact (hbelow.resolve t).bind fun _ _ _ => ih

theorem agree_resolveParts (hd : s.types.get? t = some d) (h : s.Relocates t σ σ') :
    Agree s Always (s.resolveParts below t d σ)
      ((s.ruled hooks).resolveParts below' t d σ') := by
  obtain ⟨hσ, hplaces⟩ := h
  cases hplaces with
  | same =>
    have hruled : (s.ruled hooks).resolveParts below' t d σ = s.resolveParts below' t d σ := by
      cases hσ <;> rfl
    rw [hruled, resolveParts_eq L.sound hd hσ, resolveParts_eq L.sound hd hσ]
    exact agree_resolveAll hbelow _
  | nativeEnum | fixedStrings | object => exact .pure trivial

theorem agree_resolveStep (hover : hooks.override = s.hooks.override) (t : TypeId) :
    Agree s (s.Relocates t) (s.resolveStep below t) ((s.ruled hooks).resolveStep below' t) := by
  refine .get_bind fun st st' h => ?_
  rcases h.context? t with ⟨hnone, hnone'⟩ | ⟨c, c', hc, hc', hrelocates⟩
  · rw [hnone, hnone']
    dsimp only
    cases hd : s.types.get? t with
    | none =>
      rw [Universe.view, hd]
      exact .throw_left _ _
    | some d =>
      rw [Universe.view_of_get? hd]
      refine (agree_strategyFor L hover hd).bind fun σ σ' hσ => ?_
      have hcontext : Context.Relocates s (.create t σ) (.create t σ') :=
        ⟨rfl, congrArg not hσ.2.startsIncomplete, hσ.2, hσ.1⟩
      exact (Agree.log _ _).bind fun _ _ _ => (Agree.addContext hcontext).bind fun _ _ _ =>
        (agree_resolveParts L hbelow hd hσ).bind fun _ _ _ => .pure hσ
  · rw [hc, hc']
    have htype : c.type = t := by simpa using Array.find?_some hc
    exact .pure (htype ▸ ⟨hrelocates.suits, hrelocates.strategy⟩)

/-! ## Referring -/

omit L hbelow in
theorem agree_importedReference (k k' : UnitId) (name name' : String)
    (source source' : ImportSource) :
    Agree s Always (importedReference k name source) (importedReference k' name' source') :=
  (Agree.addImport k k' _ _).bind fun _ _ _ => .pure trivial

omit L in
theorem agree_referenceAll (k k' : UnitId) (a : Option Attributes) (ts : List TypeId) :
    Agree s Always (referenceAll below k a ts) (referenceAll below' k' a ts) := by
  induction ts with
  | nil => exact .pure trivial
  | cons t ts ih =>
    exact (hbelow.reference k k' a t).bind fun _ _ _ => ih.bind fun _ _ _ => .pure trivial

omit L hbelow in
theorem ruled_argumentReferences (before ids : List TypeId) :
    (s.ruled hooks).argumentReferences below k a before ids =
      s.argumentReferences below k a before ids := by
  induction ids generalizing before with
  | nil => rfl
  | cons x xs ih => simp only [argumentReferences, ih]

omit L hbelow in
/-- The rules are asked for a reference only to types with a behaviour. -/
theorem ruled_referenceFor (hσ : s.Suits t σ) :
    (s.ruled hooks).referenceFor below k a t d σ = s.referenceFor below k a t d σ := by
  cases hσ with
  | genericInstance => simp only [referenceFor, genericReference, ruled_argumentReferences]
  | _ => rfl

theorem agree_referenceFor (hd : s.types.get? t = some d) (h : s.Relocates t σ σ') :
    Agree s Always (s.referenceFor below k a t d σ)
      ((s.ruled hooks).referenceFor below' k' a t d σ') := by
  obtain ⟨hσ, hplaces⟩ := h
  cases hplaces with
  | nativeEnum | fixedStrings | object => exact agree_importedReference _ _ _ _ _ _
  | same hplaced =>
    by_cases hredirect : ∃ name location, σ = .redirect name location
    · obtain ⟨name, location, rfl⟩ := hredirect
      exact agree_importedReference _ _ _ _ _ _
    · have hdirect : ∀ name location, σ ≠ .redirect name location :=
        fun name location heq => hredirect ⟨name, location, heq⟩
      obtain ⟨a', write, hwrite⟩ := referenceFor_eq L.sound hd hσ hplaced hdirect a
      have hruled : (s.ruled hooks).referenceFor below' k' a t d σ =
          s.referenceFor below' k' a t d σ := ruled_referenceFor hσ
      rw [hruled, hwrite, hwrite]
      exact (agree_referenceAll hbelow k k' a' _).bind fun _ _ _ => .pure trivial

theorem agree_referenceStep (t : TypeId) :
    Agree s Always (s.referenceStep below k a t)
      ((s.ruled hooks).referenceStep below' k' a t) := by
  refine (hbelow.resolve t).bind fun σ σ' hσ => ?_
  cases hd : s.types.get? t with
  | none =>
    rw [Universe.view, hd]
    exact .throw_left _ _
  | some d =>
    rw [Universe.view_of_get? hd]
    exact agree_referenceFor L hbelow hd hσ

omit hbelow in
/-- The toolkits agree, under rules that decide the same about strategies. -/
theorem agree_toolkit (hover : hooks.override = s.hooks.override) (fuel : Nat) :
    s.AgreeTools (s.toolkit fuel) ((s.ruled hooks).toolkit fuel) := by
  induction fuel with
  | zero => exact ⟨fun _ => .throw_left _ _, fun _ _ _ _ => .throw_left _ _⟩
  | succ fuel ih =>
    exact ⟨fun t => agree_resolveStep L ih hover t, fun _ _ _ t => agree_referenceStep L ih t⟩

/-! ## Members -/

omit hbelow
variable (L' : (s.ruled hooks).Lawful) (hover : hooks.override = s.hooks.override)
include L' hover

omit L' in
theorem agree_importType (fuel : Nat) (k k' : UnitId) (a : Option Attributes) (t : TypeId) :
    Agree s Always ((s.toolkit fuel).importType k a t)
      (((s.ruled hooks).toolkit fuel).importType k' a t) := by
  simp only [Toolkit.importType, toolkit_types, toolkit_options]
  refine (Agree.ask _).bind ?_
  rintro ⟨isNullable, inner⟩ _ rfl
  exact ((agree_toolkit L hover fuel).reference k k' a inner).bind fun _ _ _ => .pure trivial

theorem agree_resolveMember (k k' : UnitId) (owner : Descriptor) (m : Member) :
    Agree s (fun d d' => d.isSome = d'.isSome) (s.resolveMember k owner m)
      ((s.ruled hooks).resolveMember k' owner m) := by
  have hmember : ∀ unit owner m, hooks.member unit owner m = pure none := L'.member
  simp only [resolveMember_eq, memberStep, L.member, hmember, Program.run_pure, pure_bind]
  split
  · exact .pure rfl
  · refine (Agree.ask _).bind ?_
    rintro ⟨isNullable, inner⟩ _ rfl
    exact (agree_importType L hover s.depth k k' _ inner).bind fun _ _ _ => .pure rfl

theorem agree_resolveMembers (k k' : UnitId) (owner : Descriptor)
    (done done' : List MemberDeclaration) (ms : List Member) :
    Agree s Always (resolveMembers s.tools k owner done ms)
      (resolveMembers (s.ruled hooks).tools k' owner done' ms) := by
  induction ms generalizing done done' with
  | nil => exact .pure trivial
  | cons m ms ih =>
    refine (agree_resolveMember L L' hover k k' owner m).bind fun e e' he => ?_
    cases e with
    | none =>
      cases e' with
      | none => exact ih done done'
      | some => cases he
    | some e =>
      cases e' with
      | none => cases he
      | some e' =>
        dsimp only
        split
        · exact .throw_left _ _
        · split
          · exact .throw_right _ _
          · exact ih _ _

/-! ## Contexts and passes -/

theorem agree_completeContext {c c' : Context} (hc : c.Relocates s c') :
    Agree s Always (s.completeContext s.tools c)
      ((s.ruled hooks).completeContext (s.ruled hooks).tools c') := by
  obtain ⟨type, σ, built⟩ := c
  obtain ⟨type', σ', built'⟩ := c'
  obtain ⟨htype, -, hplaces, hσ⟩ := hc
  cases htype
  have declared : Agree s Always (s.completeDeclaration s.tools type σ)
      ((s.ruled hooks).completeDeclaration (s.ruled hooks).tools type σ') := by
    cases hplaces with
    | nativeEnum | fixedStrings => exact .pure trivial
    | @object k k' name p p' =>
      refine (Agree.ask _).bind ?_
      rintro d _ rfl
      exact (agree_resolveMembers L L' hover k k' d [] [] d.members).bind fun _ _ _ =>
        Agree.setMembers k k' p p' _ _
    | same hplaced =>
      have hσ : s.Suits type σ := hσ
      cases hσ with
      | nativeEnum | fixedStrings | object => cases hplaced
      | _ => exact .pure trivial
  exact declared.bind fun _ _ _ => .markBuilt type

theorem agree_completeAll {cs cs' : List Context}
    (hcs : List.Forall₂ (Context.Relocates s) cs cs') :
    Agree s Always (s.completeAll s.tools cs)
      ((s.ruled hooks).completeAll (s.ruled hooks).tools cs') := by
  induction hcs with
  | nil => exact .pure trivial
  | cons hc _ ih =>
    refine .get_bind fun st st' h => ?_
    rw [← hc.type, h.isBuilt]
    split
    · exact ih
    · exact (agree_completeContext L L' hover hc).bind fun _ _ _ =>
        ih.bind fun _ _ _ => .pure trivial

theorem agree_passes (allowed number : Nat) :
    Agree s Always (s.passes s.tools allowed number)
      ((s.ruled hooks).passes (s.ruled hooks).tools allowed number) := by
  induction allowed generalizing number with
  | zero =>
    refine .get_bind fun st st' h => ?_
    have hpending := h.incomplete
    generalize st.incomplete = pending at hpending ⊢
    generalize st'.incomplete = pending' at hpending ⊢
    cases hpending with
    | nil => exact .pure trivial
    | cons => exact .throw_left _ _
  | succ allowed ih =>
    refine .get_bind fun st st' h => ?_
    have hpending := h.incomplete
    generalize st.incomplete = pending at hpending ⊢
    generalize st'.incomplete = pending' at hpending ⊢
    cases hpending with
    | nil => exact .pure trivial
    | cons hc hcs =>
      exact (agree_completeAll L L' hover (.cons hc hcs)).bind fun _ _ _ =>
        (Agree.log _ _).bind fun _ _ _ => ih (number + 1)

/-- Whole runs agree. -/
theorem agree_build : Agree s Always s.build (s.ruled hooks).build :=
  (Agree.ofExcept _).bind fun _ _ _ =>
    (agree_resolveAll (agree_toolkit L hover (s.depth + 1)) s.roots).bind fun _ _ _ =>
      agree_passes L L' hover s.types.size 1

end Lawful

end Setup

end TypeExport
