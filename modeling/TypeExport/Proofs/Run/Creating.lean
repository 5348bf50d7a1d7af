import TypeExport.Proofs.Run.Kept
import TypeExport.Proofs.Universe.Sound

/-!
# New contexts and their events

Resolving a type, referring to it and writing members add contexts behind those that
are there.  Each new context is incomplete exactly when its strategy asks for that,
and has one event, and no pass is reported meanwhile (`Setup.Adds`).  It does not
matter how deep the steps nest, nor whether they succeed.
-/

namespace TypeExport

/-- The key and the strategy in the event of a new context. -/
def Event.created? : Event → Option (String × Strategy)
  | .created key strategy => some (key, strategy)
  | _ => none

/-- What a pass reports: its number, how many contexts there were when it began, and how
many it completed. -/
def Event.passed? : Event → Option (Nat × Nat × Nat)
  | .passed number scanned built => some (number, scanned, built)
  | _ => none

namespace State

/-- The keys and strategies in the events of new contexts, in order. -/
def creations (st : State) : List (String × Strategy) := st.events.toList.filterMap (·.created?)

/-- What the passes have reported, in order. -/
def reports (st : State) : List (Nat × Nat × Nat) := st.events.toList.filterMap (·.passed?)

end State

namespace Context

/-- Whether a context is as it is created. -/
def IsNew (c : Context) : Prop := c.built = !c.strategy.startsIncomplete

theorem isNew_create (t : TypeId) (σ : Strategy) : (create t σ).IsNew := rfl

end Context

namespace Setup

variable {s : Setup} {r : Rules} {f g : Context → Context} {fresh more : List Context}
  {st st₁ st' : State}

/-- What the event of a context tells. -/
def label (s : Setup) (c : Context) : String × Strategy := (s.types.keyOf c.type, c.strategy)

/-- How a state goes on: the contexts that were there are changed in some way, and new
ones with their events stand behind them. -/
structure GoesOn (s : Setup) (f : Context → Context) (fresh : List Context) (st st' : State) :
    Prop where
  contexts : st'.contexts.toList = st.contexts.toList.map f ++ fresh
  new : ∀ c ∈ fresh, c.IsNew
  creations : st'.creations = st.creations ++ fresh.map s.label
  reports : st'.reports = st.reports

/-- Whether a state has the contexts of an earlier one and perhaps new ones. -/
def Adds (s : Setup) (st st' : State) : Prop := ∃ fresh, s.GoesOn id fresh st st'

/-- What was new is kept by a later change. -/
theorem GoesOn.trans (h : s.GoesOn f fresh st st₁) (h' : s.GoesOn g more st₁ st')
    (hkept : ∀ c ∈ fresh, g c = c) : s.GoesOn (g ∘ f) (fresh ++ more) st st' where
  contexts := by
    rw [h'.contexts, h.contexts, List.map_append, List.map_map, List.map_congr_left hkept,
      List.map_id', List.append_assoc]
  new c hc := by
    rcases List.mem_append.1 hc with hold | hnew
    · exact h.new c hold
    · exact h'.new c hnew
  creations := by rw [h'.creations, h.creations, List.map_append, List.append_assoc]
  reports := h'.reports.trans h.reports

/-- The change of the contexts that were there. -/
theorem GoesOn.congr (h : s.GoesOn f fresh st st') (hfg : ∀ c ∈ st.contexts, f c = g c) :
    s.GoesOn g fresh st st' where
  contexts := by
    rw [h.contexts, List.map_congr_left fun c hc => hfg c (Array.mem_toList_iff.1 hc)]
  new := h.new
  creations := h.creations
  reports := h.reports

theorem GoesOn.size (h : s.GoesOn f fresh st st') :
    st'.contexts.size = st.contexts.size + fresh.length := by
  rw [← Array.length_toList, h.contexts, List.length_append, List.length_map, Array.length_toList]

/-! ## What adds no context -/

theorem adds_of_eq (hc : st'.contexts = st.contexts) (he : st'.events = st.events) :
    s.Adds st st' :=
  ⟨[], by simp [hc], by simp, by simp [State.creations, he], by rw [State.reports, he]; rfl⟩

/-- An event that is neither of a context nor of a pass. -/
theorem adds_log {e : Event} (hcreated : e.created? = none) (hpassed : e.passed? = none) :
    s.Adds st { st with events := st.events.push e } :=
  ⟨[], by simp, by simp, by simp [State.creations, hcreated], by simp [State.reports, hpassed]⟩

theorem Adds.trans (h : s.Adds st st₁) (h' : s.Adds st₁ st') : s.Adds st st' := by
  obtain ⟨fresh, h⟩ := h
  obtain ⟨more, h'⟩ := h'
  exact ⟨_, h.trans h' fun _ _ => rfl⟩

/-! ## Steps -/

/-- The steps of a run add contexts one by one. -/
theorem keptByImporting_adds (s : Setup) : KeptByImporting s s.Adds where
  refl _ := adds_of_eq rfl rfl
  trans := Adds.trans
  unit _ _ := adds_of_eq rfl rfl
  declaration _ := adds_of_eq rfl rfl
  decision st e he := by
    cases e with
    | located | redirected | customized => exact adds_log rfl rfl
    | _ => exact he.elim
  creation st t d σ hd := by
    have hkey : s.types.keyOf t = d.key := Universe.keyOf_of_get? hd
    refine ⟨[.create t σ], by simp, ?_, ?_, ?_⟩
    · rintro _ (_ | ⟨_, ⟨⟩⟩)
      exact Context.isNew_create t σ
    · simp [State.creations, label, Event.created?, Context.create, hkey]
    · simp [State.reports, Event.passed?]
  imported _ := adds_of_eq rfl rfl

section Ruled

variable (hr : s.RuledBy r)
include hr

theorem adds_resolveAll (ts : List TypeId) : Run.Keeps s.Adds (resolveAll s.tools ts) :=
  (keptByImporting_adds s).resolveAll ((keptByImporting_adds s).resolve hr (s.depth + 1)) ts

/-- Completing a declaration adds the contexts of the types that its members use. -/
theorem adds_completeDeclaration (t : TypeId) (σ : Strategy) :
    Run.Keeps s.Adds (s.completeDeclaration s.tools t σ) := by
  have kept := keptByImporting_adds s
  cases σ with
  | object k name p =>
    refine kept.bind (kept.ask _) fun d => kept.bind ?_ fun members => ?_
    · exact kept.resolveMembers (kept.resolveMember hr k) d [] d.members
    · refine Run.keeps_get_bind fun st => ?_
      split
      · exact kept.refl st
      · split
        · exact adds_of_eq rfl rfl
        · exact kept.refl st
  | custom =>
    refine kept.bind (kept.ask _) fun d => ?_
    rw [hr.behaviour]
    exact kept.pure ()
  | _ => exact kept.pure ()

end Ruled

end Setup

end TypeExport
