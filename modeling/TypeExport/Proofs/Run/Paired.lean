import TypeExport.Proofs.Output.Erased
import TypeExport.Proofs.Run.Resolving

/-!
# Paired steps

Two runs go on in step when their states match: the contexts are those of the
same types in the same order, and the units are the same once they are erased.
The strategies of a type are the same as well, unless the type is a `Nullable`,
which one run may treat as its underlying type and the other may not
(`Strategy.Matches`).  The contexts are those of types that the first setup
resolves, by strategies that suit it.

`Paired R x y` says of two steps that from matching states they end in matching
states, both with results that `R` relates or both with the same error.  Paired
steps are composed like steps (`Paired.bind`).
-/

namespace TypeExport

/-- Whether a strategy is that of a `Nullable` of a type. -/
def Strategy.IsAbsent (x : TypeId) (σ : Strategy) : Prop := σ = .nullable ∨ σ = .unwrapped x

/-- Whether two runs may have these strategies for a type. -/
inductive Strategy.Matches (s : Setup) (t : TypeId) : Strategy → Strategy → Prop
  | same {σ : Strategy} : s.Suits t σ → Matches s t σ σ
  | absent {x : TypeId} {σ σ' : Strategy} : s.Treats t (.absent x) → σ.IsAbsent x →
      σ'.IsAbsent x → Matches s t σ σ'

/-- Whether two runs may have these contexts. -/
structure Context.Matches (s : Setup) (c c' : Context) : Prop where
  type : c.type = c'.type
  built : c.built = c'.built
  strategy : Strategy.Matches s c.type c.strategy c'.strategy
  resolved : s.Resolved c.type

/-- Whether two runs may be in these states. -/
structure State.Matches (s : Setup) (st st' : State) : Prop where
  contexts : List.Forall₂ (Context.Matches s) st.contexts.toList st'.contexts.toList
  units : st.units.erase = st'.units.erase

/-- Whether two steps end alike. -/
inductive EndsAlike {α β : Type} (s : Setup) (R : α → β → Prop) :
    EStateM.Result RunError State α → EStateM.Result RunError State β → Prop
  | ok {a : α} {b : β} {st st' : State} : R a b → st.Matches s st' →
      EndsAlike s R (.ok a st) (.ok b st')
  | error {e : RunError} {st st' : State} : st.Matches s st' →
      EndsAlike s R (.error e st) (.error e st')

/-- Whether two steps end alike from states that match. -/
def Paired {α β : Type} (s : Setup) (R : α → β → Prop) (x : Run α) (y : Run β) : Prop :=
  ∀ st st', st.Matches s st' → EndsAlike s R (x st) (y st')

/-- Nothing is said of two results. -/
def Always {α β : Type} (_ : α) (_ : β) : Prop := True

variable {s : Setup} {st st' : State} {t : TypeId}

/-! ## Matching states -/

/-- Contexts of the same types are found together. -/
theorem find?_of_types {R : Context → Context → Prop}
    (htype : ∀ {c c' : Context}, R c c' → c.type = c'.type) {cs cs' : List Context}
    (h : List.Forall₂ R cs cs') (t : TypeId) :
    (cs.find? (·.type = t) = none ∧ cs'.find? (·.type = t) = none) ∨
      ∃ c c', cs.find? (·.type = t) = some c ∧ cs'.find? (·.type = t) = some c' ∧ R c c' := by
  induction h with
  | nil => exact .inl ⟨rfl, rfl⟩
  | @cons c c' _ _ hc _ ih =>
    by_cases ht : c.type = t
    · refine .inr ⟨c, c', ?_, ?_, hc⟩
      · rw [List.find?_cons_of_pos (by simpa using ht)]
      · rw [List.find?_cons_of_pos (by simpa using htype hc ▸ ht)]
    · rw [List.find?_cons_of_neg (by simpa using ht),
        List.find?_cons_of_neg (by simpa using htype hc ▸ ht)]
      exact ih

/-- Contexts of the same types that are complete together. -/
theorem isBuilt_of_contexts {R : Context → Context → Prop}
    (htype : ∀ {c c' : Context}, R c c' → c.type = c'.type ∧ c.built = c'.built)
    (h : List.Forall₂ R st.contexts.toList st'.contexts.toList) (t : TypeId) :
    st.isBuilt t = st'.isBuilt t := by
  rw [State.isBuilt, State.isBuilt, ← Array.any_toList, ← Array.any_toList]
  generalize st.contexts.toList = cs at h ⊢
  generalize st'.contexts.toList = cs' at h ⊢
  induction h with
  | nil => rfl
  | cons hc _ ih => rw [List.any_cons, List.any_cons, (htype hc).1, (htype hc).2, ih]

theorem Strategy.Matches.unit? {σ σ' : Strategy} (h : Strategy.Matches s t σ σ') :
    σ'.unit? = σ.unit? := by
  cases h with
  | same => rfl
  | absent _ hσ hσ' => rcases hσ with rfl | rfl <;> rcases hσ' with rfl | rfl <;> rfl

namespace State.Matches

/-- Matching states place the same types in a unit. -/
theorem placed (h : st.Matches s st') (k : UnitId) : st'.placed k = st.placed k := by
  have hcontexts := h.contexts
  unfold State.placed State.entries
  generalize st.contexts.toList = cs at hcontexts
  generalize st'.contexts.toList = cs' at hcontexts
  induction hcontexts with
  | nil => rfl
  | cons hc _ ih =>
    simp only [List.map_cons, List.filter_cons, hc.type, hc.strategy.unit?]
    split
    · rw [List.map_cons, List.map_cons, ih]
    · exact ih

/-- Matching states have the same number of contexts. -/
theorem size_eq (h : st.Matches s st') : st.contexts.size = st'.contexts.size := by
  simpa using h.contexts.length_eq

/-- The contexts of a type in matching states. -/
theorem context? (h : st.Matches s st') (t : TypeId) :
    (st.context? t = none ∧ st'.context? t = none) ∨
      ∃ c c', st.context? t = some c ∧ st'.context? t = some c' ∧ c.Matches s c' := by
  rw [State.context?, State.context?, ← Array.find?_toList, ← Array.find?_toList]
  exact find?_of_types (fun hc => hc.type) h.contexts t

/-- A type is complete in both states, or in neither. -/
theorem isBuilt (h : st.Matches s st') (t : TypeId) : st.isBuilt t = st'.isBuilt t :=
  isBuilt_of_contexts (fun hc => ⟨hc.type, hc.built⟩) h.contexts t

/-- The incomplete contexts of matching states. -/
theorem incomplete (h : st.Matches s st') :
    List.Forall₂ (Context.Matches s) st.incomplete st'.incomplete := by
  refine List.rel_filter (fun c c' hc => ?_) h.contexts
  show (!c.built) = true ↔ (!c'.built) = true
  rw [hc.built]

end State.Matches

/-! ## Composing paired steps -/

namespace Paired

variable {α β γ δ : Type} {R : α → β → Prop}

theorem pure {a : α} {b : β} (h : R a b) : Paired s R (Pure.pure a) (Pure.pure b) :=
  fun _ _ hst => .ok h hst

theorem throw (e : RunError) :
    Paired s R (MonadExcept.throw e) (MonadExcept.throw e) :=
  fun _ _ hst => .error hst

theorem bind {Q : γ → δ → Prop} {x : Run γ} {y : Run δ} {f : γ → Run α} {g : δ → Run β}
    (h : Paired s Q x y) (hf : ∀ c d, Q c d → Paired s R (f c) (g d)) :
    Paired s R (x >>= f) (y >>= g) := by
  intro st st' hst
  have hxy := h st st' hst
  simp only [Bind.bind, EStateM.bind]
  generalize x st = p at hxy
  generalize y st' = q at hxy
  cases hxy with
  | ok hcd hst₁ => exact hf _ _ hcd _ _ hst₁
  | error hst₁ => exact .error hst₁

/-- Steps that begin by reading the state. -/
theorem get_bind {f : State → Run α} {g : State → Run β}
    (h : ∀ st st', st.Matches s st' → Paired s R (f st) (g st')) :
    Paired s R (get >>= f) (get >>= g) :=
  fun st st' hst => h st st' hst st st' hst

theorem change {f g : State → State}
    (h : ∀ st st', st.Matches s st' → (f st).Matches s (g st')) :
    Paired s Always (modify f : Run PUnit) (modify g : Run PUnit) :=
  fun st st' hst => .ok trivial (h st st' hst)

theorem ask (answer : Except Fault α) :
    Paired s Eq (Run.ask answer) (Run.ask answer) := by
  cases answer with
  | ok a => exact pure rfl
  | error e => exact throw _

theorem ofExcept (answer : Except RunError α) :
    Paired s Eq (Run.ofExcept answer) (Run.ofExcept answer) := by
  cases answer with
  | ok a => exact pure rfl
  | error e => exact throw e

theorem log (e e' : Event) : Paired s Always (Run.log e) (Run.log e') :=
  change fun _ _ h => ⟨h.contexts, h.units⟩

/-- What a run reports is not compared. -/
theorem log_left (e : Event) {x : Run α} {y : Run β} (h : Paired s R x y) :
    Paired s R (Run.log e >>= fun _ => x) y := fun _ _ hst => h _ _ ⟨hst.contexts, hst.units⟩

theorem log_right (e : Event) {x : Run α} {y : Run β} (h : Paired s R x y) :
    Paired s R x (Run.log e >>= fun _ => y) := fun _ _ hst => h _ _ ⟨hst.contexts, hst.units⟩

theorem addContext {c c' : Context} (h : c.Matches s c') :
    Paired s Always (Run.addContext c) (Run.addContext c') := by
  refine change fun _ _ hst => ⟨?_, hst.units⟩
  rw [Array.toList_push, Array.toList_push]
  exact List.rel_append hst.contexts (.cons h .nil)

/-- Two answers that agree. -/
theorem eq_or_eq_of_map {ε : Type} {φ : α → γ} {ψ : β → γ} {e : Except ε α} {e' : Except ε β}
    (h : e.map φ = e'.map ψ) : (∃ a b, e = .ok a ∧ e' = .ok b ∧ φ a = ψ b) ∨
      ∃ cause, e = .error cause ∧ e' = .error cause := by
  cases e with
  | ok a =>
    cases e' with
    | ok b => exact .inl ⟨a, b, rfl, rfl, Except.ok.inj h⟩
    | error cause => cases h
  | error cause =>
    cases e' with
    | ok b => cases h
    | error cause' =>
      cases h
      exact .inr ⟨cause, rfl, rfl⟩

/-- A context is there in both states, or in neither. -/
theorem any_context (h : st.Matches s st') (t : TypeId) :
    st.contexts.any (·.type = t) = st'.contexts.any (·.type = t) := by
  have hfind : ∀ st : State, st.contexts.any (·.type = t) = (st.context? t).isSome := fun st =>
    Array.isSome_find?.symm
  rw [hfind, hfind]
  rcases h.context? t with ⟨hnone, hnone'⟩ | ⟨c, c', hc, hc', -⟩
  · rw [hnone, hnone']
  · rw [hc, hc']
    rfl

/-- A context that is marked in both runs. -/
theorem markBuilt (t : TypeId) : Paired s Always (Run.markBuilt t) (Run.markBuilt t) := by
  refine get_bind fun st st' h => ?_
  dsimp only
  rw [any_context h t, h.size_eq]
  split
  · refine change fun _ _ hst => ⟨?_, hst.units⟩
    rw [Array.toList_map, Array.toList_map, List.forall₂_map_left_iff,
      List.forall₂_map_right_iff]
    refine hst.contexts.imp fun c c' hc => ?_
    by_cases htype : c.type = t
    · rw [if_pos htype, if_pos (hc.type ▸ htype)]
      exact ⟨hc.type, rfl, hc.strategy, hc.resolved⟩
    · rw [if_neg htype, if_neg (hc.type ▸ htype)]
      exact hc
  · exact throw _

theorem unitAt (location : String) :
    Paired s Eq (Run.unitAt location) (Run.unitAt location) := by
  intro st st' h
  have hensure : (st.units.ensure location).1 = (st'.units.ensure location).1 ∧
      (st.units.ensure location).2.erase = (st'.units.ensure location).2.erase := by
    have hboth := st.units.ensure_erase location
    rw [h.units, st'.units.ensure_erase location] at hboth
    exact ⟨(congrArg Prod.fst hboth).symm, (congrArg Prod.snd hboth).symm⟩
  exact .ok hensure.1 ⟨h.contexts, hensure.2⟩

theorem addImport (k : UnitId) (i : Import) :
    Paired s Always (Run.addImport k i) (Run.addImport k i) := by
  refine get_bind fun st st' h => ?_
  have hboth := st.units.addImport_erase k i
  rw [h.units, st'.units.addImport_erase k i] at hboth
  rcases eq_or_eq_of_map hboth with ⟨vs, us, hvs, hus, hsame⟩ | ⟨e, hvs, hus⟩
  · rw [hus, hvs]
    exact change fun _ _ hst => ⟨hst.contexts, hsame.symm⟩
  · rw [hus, hvs]
    exact throw _

theorem declare (k : UnitId) (d : Declaration) :
    Paired s Eq (Run.declare k d) (Run.declare k d) := by
  refine get_bind fun st st' h => ?_
  have hboth := st.units.declare_erase k d
  rw [h.units, st'.units.declare_erase k d] at hboth
  rcases eq_or_eq_of_map hboth with ⟨⟨q, vs⟩, ⟨p, us⟩, hvs, hus, hsame⟩ | ⟨e, hvs, hus⟩
  · rw [hus, hvs]
    obtain ⟨hposition, hunits⟩ := Prod.mk.inj hsame
    have hset : Paired s Always (modify fun st : State => { st with units := us })
        (modify fun st : State => { st with units := vs }) :=
      change fun _ _ hst => ⟨hst.contexts, hunits.symm⟩
    exact hset.bind fun _ _ _ => pure hposition.symm
  · rw [hus, hvs]
    exact throw _

theorem setMembers (k : UnitId) (p : Nat) {members members' : List MemberDeclaration}
    (hmembers : members.map (·.erase) = members'.map (·.erase)) :
    Paired s Always (Run.setMembers k p members) (Run.setMembers k p members') := by
  refine get_bind fun st st' h => ?_
  have hboth := st.units.view_erase k
  rw [h.units, st'.units.view_erase k] at hboth
  rcases eq_or_eq_of_map hboth with ⟨V, U, hV, hU, hsame⟩ | ⟨e, hV, hU⟩
  · rw [hU, hV]
    have hsize : U.declarations.size = V.declarations.size := by
      have := congrArg (·.declarations.size) hsame
      simpa [OutputUnit.erase] using this.symm
    dsimp only
    rw [hsize]
    split
    · refine change fun st₁ st₂ hst => ⟨hst.contexts, ?_⟩
      show (st₁.units.setMembers k p members).erase = (st₂.units.setMembers k p members').erase
      rw [Units.setMembers_erase, Units.setMembers_erase, hst.units, hmembers]
    · exact throw _
  · rw [hU, hV]
    exact throw _

end Paired

end TypeExport
