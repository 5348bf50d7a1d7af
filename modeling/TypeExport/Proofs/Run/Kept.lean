import TypeExport.Override.Rules
import TypeExport.Proofs.Ends
import TypeExport.Run.Build

/-!
# What steps keep

A step changes a state by a few operations: it records an event, asks for a
unit, adds a context, a declaration or an import, completes a context.  A
relation between the state before and the state after that each operation keeps
is kept by every step that is made of them, for all types and whether the step
succeeds or fails.  Finding a strategy, resolving, referring and building need
more of the operations each (`KeptByPlacing`, `KeptByResolving`,
`KeptByReferring`, `KeptByBuilding`).  A relation that tells events apart is kept
only by a context together with its event (`KeptByCreating`, `KeptByImporting`).

Nothing is asked of the types.  The rules of the caller only place and redirect
types (`Setup.RuledBy`), because a behaviour may change a state as it likes.
-/

namespace TypeExport

/-! ## Relations between states -/

/-- A relation between the state before a step and the state after it under
which steps may be composed. -/
structure Kept (R : State → State → Prop) : Prop where
  refl : ∀ st, R st st
  trans : ∀ {st₁ st₂ st₃}, R st₁ st₂ → R st₂ st₃ → R st₁ st₃

/-- Kept by the operations that declare a type. -/
structure KeptByDeclaring (R : State → State → Prop) : Prop extends Kept R where
  unit : ∀ (st : State) (location : String),
    R st { st with units := (st.units.ensure location).2 }
  declaration : ∀ {st : State} {k : UnitId} {d : Declaration} {p : Nat} {us : Units},
    st.units.declare k d = .ok (p, us) → R st { st with units := us }

/-- Whether an event tells a decision of the caller. -/
def Event.IsDecision : Event → Prop
  | .located .. | .redirected .. | .customized _ => True
  | _ => False

/-- Kept by the operations that resolve a type, where a context comes with its
event. -/
structure KeptByCreating (s : Setup) (R : State → State → Prop) : Prop
    extends KeptByDeclaring R where
  decision : ∀ (st : State) {e : Event}, e.IsDecision → R st { st with events := st.events.push e }
  creation : ∀ (st : State) {t : TypeId} {d : Descriptor} (σ : Strategy), s.types.get? t = some d →
    R st { st with
      events := st.events.push (.created d.key σ)
      contexts := st.contexts.push (.create t σ) }

/-- Kept by the operations that refer to a type, where a context comes with its
event. -/
structure KeptByImporting (s : Setup) (R : State → State → Prop) : Prop
    extends KeptByCreating s R where
  imported : ∀ {st : State} {k : UnitId} {i : Import} {us : Units},
    st.units.addImport k i = .ok us → R st { st with units := us }

/-- Kept by the operations that find the strategy of a type. -/
structure KeptByPlacing (R : State → State → Prop) : Prop extends KeptByDeclaring R where
  event : ∀ (st : State) (e : Event), R st { st with events := st.events.push e }

/-- Kept by the operations that resolve a type. -/
structure KeptByResolving (R : State → State → Prop) : Prop extends KeptByPlacing R where
  context : ∀ (st : State) (c : Context), R st { st with contexts := st.contexts.push c }

/-- Kept by the operations that refer to a type. -/
structure KeptByReferring (R : State → State → Prop) : Prop extends KeptByResolving R where
  imported : ∀ {st : State} {k : UnitId} {i : Import} {us : Units},
    st.units.addImport k i = .ok us → R st { st with units := us }

/-- Kept by the operations of a whole run. -/
structure KeptByBuilding (R : State → State → Prop) : Prop extends KeptByReferring R where
  members : ∀ (st : State) (k : UnitId) (p : Nat) (members : List MemberDeclaration),
    R st { st with units := st.units.setMembers k p members }
  contexts : ∀ (st : State) (cs : Array Context), R st { st with contexts := cs }

/-- Whether a step keeps a relation, however it ends. -/
def Run.Keeps {α : Type} (R : State → State → Prop) (x : Run α) : Prop :=
  ∀ st, Ends x st (fun _ => R st) fun _ => R st

variable {R : State → State → Prop} {s : Setup} {r : Rules} {below : Toolkit} {t : TypeId}
  {d : Descriptor} {k : UnitId} {a : Option Attributes}

/-- A step that reads the state first. -/
theorem Run.keeps_get_bind {α : Type} {f : State → Run α}
    (hf : ∀ st, Ends (f st) st (fun _ => R st) fun _ => R st) : Run.Keeps R (get >>= f) :=
  fun st => hf st

/-! ## Rules without behaviours -/

namespace Setup

/-- Whether the decisions of a setup are those of rules that only place and
redirect types. -/
structure RuledBy (s : Setup) (r : Rules) : Prop where
  /-- The rules decide. -/
  hooks : s.hooks = r.hooks
  /-- No type has a behaviour of the caller's. -/
  behaviours : r.behaviours = []
  /-- No member is declared by the caller. -/
  members : r.members = []

theorem RuledBy.behaviour (h : s.RuledBy r) (d : Descriptor) : s.hooks.behaviour d = {} := by
  rw [h.hooks]
  show r.behaviour d = {}
  simp [Rules.behaviour, h.behaviours]

theorem RuledBy.member (h : s.RuledBy r) (k : UnitId) (owner : Descriptor) (m : Member) :
    s.hooks.member k owner m = pure none := by
  rw [h.hooks]
  show r.member k owner m = pure none
  simp [Rules.member, h.members]

end Setup

/-! ## Composition -/

namespace Kept

variable {α β : Type} (hR : Kept R)
include hR

theorem pure (a : α) : Run.Keeps R (Pure.pure a : Run α) := fun st => hR.refl st

theorem throw (e : RunError) : Run.Keeps R (MonadExcept.throw e : Run α) := fun st => hR.refl st

theorem ask (answer : Except Fault α) : Run.Keeps R (Run.ask answer) := by
  cases answer with
  | ok a => exact hR.pure a
  | error e => exact hR.throw _

theorem ofExcept (answer : Except RunError α) : Run.Keeps R (Run.ofExcept answer) := by
  cases answer with
  | ok a => exact hR.pure a
  | error e => exact hR.throw e

theorem bind {x : Run β} {f : β → Run α} (hx : Run.Keeps R x) (hf : ∀ b, Run.Keeps R (f b)) :
    Run.Keeps R (x >>= f) := by
  intro st
  rw [ends_bind]
  refine (hx st).mono ?_ fun _ _ h₁ => h₁
  intro b st₁ h₁
  exact (hf b st₁).mono (fun _ _ h₂ => hR.trans h₁ h₂) fun _ _ h₂ => hR.trans h₁ h₂

/-! ## Parts

The steps on the parts of a type add nothing of their own, except imports. -/

theorem resolveAll (hresolve : ∀ t, Run.Keeps R (below.resolve t)) (ts : List TypeId) :
    Run.Keeps R (Setup.resolveAll below ts) := by
  induction ts with
  | nil => exact hR.pure ()
  | cons t ts ih => exact hR.bind (hresolve t) fun _ => ih

theorem resolveParts (hresolve : ∀ t, Run.Keeps R (below.resolve t)) {σ : Strategy}
    (hcustom : σ = .custom → Run.Keeps R (((s.hooks.behaviour d).prepare t).run below)) :
    Run.Keeps R (s.resolveParts below t d σ) := by
  cases σ with
  | array | nullable =>
    simp only [Setup.resolveParts]
    cases d.kind.element? with
    | some element => exact hR.resolveAll hresolve [element]
    | none => exact hR.throw _
  | unwrapped x => exact hR.resolveAll hresolve [x]
  | dictionary => exact hR.bind (hR.ask _) fun _ => hR.resolveAll hresolve _
  | genericInstance =>
    exact hR.bind (hR.ask _) fun _ => hR.bind (hR.resolveAll hresolve _) fun _ =>
      hR.bind (hR.ask _) fun _ => hR.resolveAll hresolve _
  | custom => exact hcustom rfl
  | builtin | nativeEnum | fixedStrings | genericParameter | object | redirect => exact hR.pure ()

section References

variable (hreference : ∀ k a t, Run.Keeps R (below.reference k a t))
include hreference

theorem arrayReference : Run.Keeps R (s.arrayReference below k a d) := by
  unfold Setup.arrayReference
  split
  · exact hR.throw _
  · exact hR.bind (hR.ask _) fun _ => hR.bind (hreference _ _ _) fun _ => hR.pure _

theorem dictionaryReference : Run.Keeps R (s.dictionaryReference below k a d) := by
  refine hR.bind (hR.ask _) fun _ => ?_
  split
  · exact hR.bind (hreference _ _ _) fun _ => hR.bind (hreference _ _ _) fun _ =>
      hR.bind (hR.ask _) fun _ => hR.pure _
  · exact hR.throw _

theorem argumentReferences (before ids : List TypeId) :
    Run.Keeps R (s.argumentReferences below k a before ids) := by
  induction ids generalizing before with
  | nil => exact hR.pure _
  | cons x xs ih =>
    exact hR.bind (hreference _ _ _) fun _ => hR.bind (hR.ask _) fun _ =>
      hR.bind (hR.ask _) fun _ => hR.bind (ih _) fun _ => hR.pure _

theorem genericReference : Run.Keeps R (s.genericReference below k a t d) := by
  refine hR.bind (hR.ask _) fun definition => ?_
  cases definition with
  | none => exact hR.throw _
  | some definition =>
    exact hR.bind (hreference _ _ _) fun _ => hR.bind (hR.ask _) fun _ =>
      hR.bind (hR.argumentReferences hreference _ _) fun _ => hR.pure _

theorem nullableReference : Run.Keeps R (s.nullableReference below k d) := by
  unfold Setup.nullableReference
  split
  · exact hR.throw _
  · exact hR.bind (hR.ask _) fun _ => hR.bind (hreference _ _ _) fun _ => hR.pure _

theorem referenceFor (himport : ∀ k i, Run.Keeps R (Run.addImport k i)) {σ : Strategy}
    (hcustom : σ = .custom → Run.Keeps R (((s.hooks.behaviour d).reference t k a).run below)) :
    Run.Keeps R (s.referenceFor below k a t d σ) := by
  cases σ with
  | builtin | genericParameter => exact hR.pure _
  | array => exact hR.arrayReference hreference
  | dictionary => exact hR.dictionaryReference hreference
  | nullable => exact hR.nullableReference hreference
  | unwrapped x => exact hreference _ _ _
  | genericInstance => exact hR.genericReference hreference
  | nativeEnum | fixedStrings | object | redirect =>
    exact hR.bind (himport _ _) fun _ => hR.pure _
  | custom => exact hcustom rfl

end References

/-! ## Members -/

section Members

theorem importType (hreference : ∀ k a t, Run.Keeps R (below.reference k a t)) :
    Run.Keeps R (below.importType k a t) :=
  hR.bind (hR.ask _) fun _ => hR.bind (hreference _ _ _) fun _ => hR.pure _

theorem memberStep (hreference : ∀ k a t, Run.Keeps R (below.reference k a t))
    (hmember : ∀ k owner m, s.hooks.member k owner m = Pure.pure none) (owner : Descriptor)
    (m : Member) : Run.Keeps R (s.memberStep below k owner m) := by
  unfold Setup.memberStep
  rw [hmember, Program.run_pure, pure_bind]
  dsimp only
  split
  · exact hR.pure _
  · exact hR.bind (hR.ask _) fun _ => hR.bind (hR.importType hreference) fun _ => hR.pure _

theorem resolveMembers (hmember : ∀ owner m, Run.Keeps R (below.resolveMember k owner m))
    (owner : Descriptor) (done : List MemberDeclaration) (ms : List Member) :
    Run.Keeps R (Setup.resolveMembers below k owner done ms) := by
  induction ms generalizing done with
  | nil => exact hR.pure _
  | cons m ms ih =>
    refine hR.bind (hmember owner m) fun declaration => ?_
    cases declaration with
    | none => exact ih _
    | some declaration =>
      dsimp only
      split
      · exact hR.throw _
      · exact ih _

end Members

end Kept

/-! ## Strategies -/

/-- The strategy of a type by the decision of the caller. -/
def Setup.strategyBy (s : Setup) (location : String) (d : Descriptor) : Override → Run Strategy
  | .redirect name target => do
    Run.log (.redirected d.key name target)
    return .redirect name target
  | .custom => do
    Run.log (.customized d.key)
    return .custom
  | .standard => s.standardStrategy location d

/-- The decision of the caller is asked for behind the location. -/
theorem Setup.strategyFor_eq (s : Setup) (d : Descriptor) : s.strategyFor d = (do
    let location ← Run.ofExcept (s.hooks.location s.types d)
    if location ≠ "" then Run.log (.located d.key location)
    let decision ← Run.ofExcept (s.hooks.override d)
    s.strategyBy location d decision) := rfl

namespace KeptByDeclaring

variable (hR : KeptByDeclaring R)
include hR

theorem unitAt (location : String) : Run.Keeps R (Run.unitAt location) :=
  fun st => hR.unit st location

theorem declare (k : UnitId) (d : Declaration) : Run.Keeps R (Run.declare k d) := by
  refine Run.keeps_get_bind fun st => ?_
  split
  · rename_i hus
    exact hR.declaration hus
  · exact hR.refl st

theorem placeEnumeration (location : String) (values : List EnumValue) :
    Run.Keeps R (s.placeEnumeration location d values) := by
  refine hR.bind (hR.unitAt location) fun k => ?_
  dsimp only
  split <;> exact hR.bind (hR.declare k _) fun _ => hR.pure _

theorem placeObject (location : String) (parameters : List TypeId) :
    Run.Keeps R (s.placeObject location d parameters) :=
  hR.bind (hR.unitAt location) fun k => hR.bind (hR.ask _) fun _ =>
    hR.bind (hR.declare k _) fun _ => hR.pure _

theorem standardStrategy (location : String) :
    Run.Keeps R (s.standardStrategy location d) := by
  unfold Setup.standardStrategy
  split
  · exact hR.pure _
  · exact hR.bind (hR.ask _) fun _ => hR.pure _
  · refine hR.bind (hR.ask _) fun container => ?_
    split
    · exact hR.pure _
    · exact hR.pure _
    · split
      · exact hR.pure _
      · split
        · exact hR.bind (hR.ask _) fun _ => hR.pure _
        · exact hR.throw _
    · exact hR.pure _
  · exact hR.pure _
  · exact hR.throw _
  · exact hR.placeEnumeration location _
  · exact hR.placeObject location _

section Decisions

variable (hlog : ∀ {e : Event}, e.IsDecision → Run.Keeps R (Run.log e))
include hlog

theorem strategyBy (location : String) (decision : Override) :
    Run.Keeps R (s.strategyBy location d decision) := by
  cases decision with
  | redirect name target => exact hR.bind (hlog trivial) fun _ => hR.pure _
  | custom => exact hR.bind (hlog trivial) fun _ => hR.pure _
  | standard => exact hR.standardStrategy location

theorem strategyFor (d : Descriptor) : Run.Keeps R (s.strategyFor d) := by
  rw [s.strategyFor_eq]
  refine hR.bind (hR.ofExcept _) fun location => ?_
  have rest : Run.Keeps R (do
      let decision ← Run.ofExcept (s.hooks.override d)
      s.strategyBy location d decision) := hR.bind (hR.ofExcept _) (hR.strategyBy hlog location)
  dsimp only
  split
  · exact hR.bind (hlog trivial) fun _ => rest
  · exact rest

end Decisions

end KeptByDeclaring

theorem KeptByPlacing.log (hR : KeptByPlacing R) (e : Event) : Run.Keeps R (Run.log e) :=
  fun st => hR.event st e

theorem KeptByPlacing.strategyFor (hR : KeptByPlacing R) (d : Descriptor) :
    Run.Keeps R (s.strategyFor d) := hR.toKeptByDeclaring.strategyFor (fun _ => hR.log _) d

/-- Finding a strategy changes no contexts. -/
theorem keptByPlacing_contexts : KeptByPlacing fun st st' => st'.contexts = st.contexts where
  refl _ := rfl
  trans h h' := h'.trans h
  event _ _ := rfl
  unit _ _ := rfl
  declaration _ := rfl

/-! ## Resolving -/

namespace KeptByCreating

variable (hR : KeptByCreating s R) (hr : s.RuledBy r)
include hR hr

/-- A type that is new gets its context, then its parts are resolved. -/
theorem resolveStep (hresolve : ∀ t, Run.Keeps R (below.resolve t)) (t : TypeId) :
    Run.Keeps R (s.resolveStep below t) := by
  refine Run.keeps_get_bind fun st => ?_
  split
  · exact hR.refl st
  · cases hd : s.types.get? t with
    | none =>
      rw [Universe.view, hd]
      exact hR.refl st
    | some d =>
      have create : ∀ σ, Run.Keeps R (do
          Run.log (.created d.key σ)
          Run.addContext (.create t σ)) := fun σ st => hR.creation st σ hd
      have parts : ∀ σ, Run.Keeps R (s.resolveParts below t d σ) := fun σ =>
        hR.resolveParts hresolve fun _ => by
          rw [hr.behaviour]
          exact hR.pure ()
      have strategy : Run.Keeps R (s.strategyFor d) :=
        hR.strategyFor (fun he st => hR.decision st he) d
      have new := hR.bind strategy fun σ =>
        hR.bind (create σ) fun _ => hR.bind (parts σ) fun _ => hR.pure σ
      rw [Universe.view, hd]
      simp only [bind_assoc] at new
      exact new st

theorem resolve (fuel : Nat) (t : TypeId) : Run.Keeps R ((s.toolkit fuel).resolve t) := by
  induction fuel generalizing t with
  | zero => exact hR.throw _
  | succ fuel ih => exact hR.resolveStep hr ih t

end KeptByCreating

/-- A relation that any event and any context keep is kept by both together. -/
theorem KeptByResolving.creating (hR : KeptByResolving R) (s : Setup) : KeptByCreating s R where
  toKeptByDeclaring := hR.toKeptByDeclaring
  decision st e _ := hR.event st e
  creation st _ _ _ _ := hR.trans (hR.event st _) (hR.context _ _)

theorem KeptByResolving.resolve (hR : KeptByResolving R) (hr : s.RuledBy r) (fuel : Nat)
    (t : TypeId) : Run.Keeps R ((s.toolkit fuel).resolve t) := (hR.creating s).resolve hr fuel t

/-! ## Referring -/

namespace KeptByImporting

variable (hR : KeptByImporting s R) (hr : s.RuledBy r)
include hR

theorem addImport (k : UnitId) (i : Import) : Run.Keeps R (Run.addImport k i) := by
  refine Run.keeps_get_bind fun st => ?_
  split
  · rename_i hus
    exact hR.imported hus
  · exact hR.refl st

include hr

theorem referenceStep (hresolve : ∀ t, Run.Keeps R (below.resolve t))
    (hreference : ∀ k a t, Run.Keeps R (below.reference k a t)) :
    Run.Keeps R (s.referenceStep below k a t) := by
  refine hR.bind (hresolve t) fun σ => hR.bind (hR.ask _) fun d => ?_
  refine hR.referenceFor hreference hR.addImport fun _ => ?_
  rw [hr.behaviour]
  simp only [Program.run_bind, Program.run_inquire]
  exact hR.bind (hR.ask _) fun _ => hR.pure _

theorem reference (fuel : Nat) (k : UnitId) (a : Option Attributes) (t : TypeId) :
    Run.Keeps R ((s.toolkit fuel).reference k a t) := by
  induction fuel generalizing k a t with
  | zero => exact hR.throw _
  | succ fuel ih => exact hR.referenceStep hr (hR.resolve hr fuel) ih

end KeptByImporting

theorem KeptByImporting.resolveMember (hR : KeptByImporting s R) (hr : s.RuledBy r) (k : UnitId)
    (owner : Descriptor) (m : Member) : Run.Keeps R (s.resolveMember k owner m) :=
  hR.memberStep (hR.reference hr s.depth) hr.member owner m

theorem KeptByReferring.importing (hR : KeptByReferring R) (s : Setup) : KeptByImporting s R :=
  ⟨hR.creating s, hR.imported⟩

/-! ## Passes -/

namespace KeptByBuilding

variable (hR : KeptByBuilding R) (hr : s.RuledBy r)
include hR

theorem setMembers (k : UnitId) (p : Nat) (members : List MemberDeclaration) :
    Run.Keeps R (Run.setMembers k p members) := by
  refine Run.keeps_get_bind fun st => ?_
  split
  · exact hR.refl st
  · split
    · exact hR.members st k p members
    · exact hR.refl st

theorem markBuilt (t : TypeId) : Run.Keeps R (Run.markBuilt t) := by
  refine Run.keeps_get_bind fun st => ?_
  dsimp only
  split
  · exact hR.contexts st _
  · exact hR.refl st

include hr

theorem completeContext (c : Context) : Run.Keeps R (s.completeContext s.tools c) := by
  refine hR.bind ?_ fun _ => hR.markBuilt c.type
  cases c.strategy with
  | object k name p =>
    refine hR.bind (hR.ask _) fun d => hR.bind ?_ fun _ => hR.setMembers _ _ _
    exact hR.resolveMembers ((hR.importing s).resolveMember hr k) d [] d.members
  | custom =>
    refine hR.bind (hR.ask _) fun d => ?_
    rw [hr.behaviour]
    exact hR.pure ()
  | _ => exact hR.pure ()

theorem completeAll (cs : List Context) : Run.Keeps R (s.completeAll s.tools cs) := by
  induction cs with
  | nil => exact hR.pure 0
  | cons c cs ih =>
    refine Run.keeps_get_bind fun st => ?_
    split
    · exact ih st
    · exact hR.bind (hR.completeContext hr c) (fun _ => hR.bind ih fun _ => hR.pure _) st

theorem passes (allowed number : Nat) : Run.Keeps R (s.passes s.tools allowed number) := by
  induction allowed generalizing number with
  | zero =>
    refine Run.keeps_get_bind fun st => ?_
    split
    · exact hR.refl st
    · exact hR.refl st
  | succ allowed ih =>
    refine Run.keeps_get_bind fun st => ?_
    split
    · exact hR.refl st
    · exact hR.bind (hR.completeAll hr _) (fun _ => hR.bind (hR.log _) fun _ => ih _) st

/-- A whole run keeps what its operations keep. -/
theorem build : Run.Keeps R s.build :=
  hR.bind (hR.ofExcept _) fun _ =>
    hR.bind (hR.resolveAll (hR.resolve hr (s.depth + 1)) s.roots) fun _ => hR.passes hr _ _

/-- The units of a run that succeeds are those of a state that the empty state is
related to. -/
theorem units {us : Units} (h : s.units = .ok us) : ∃ st, R {} st ∧ st.units = us := by
  have ends := hR.build hr {}
  unfold Setup.units Setup.finalState at h
  cases hrun : s.build {} with
  | ok a st =>
    rw [EStateM.run, hrun] at h
    exact ⟨st, ends.good_of_eq hrun, Except.ok.inj h⟩
  | error e st =>
    rw [EStateM.run, hrun] at h
    cases h

end KeptByBuilding

end TypeExport
