import TypeExport.Proofs.Run.Referring

/-!
# Completing keeps a state consistent

Completing an object writes its members one by one and sets them at its
position, and its context is then marked as complete.  The two changes are
treated apart.  Setting members is sound when the members are those of the
object (`Setup.Consistent.setMembers`), and marking when the object has its
members (`Setup.Consistent.markBuilt`).
-/

namespace TypeExport

namespace Run

variable {st : State} {bad : RunError → State → Prop}

@[simp] theorem ends_ask {α : Type} {a : α} {good : α → State → Prop} :
    Ends (ask (.ok a)) st good bad ↔ good a st := Iff.rfl

/-- The state with the context of a type marked as complete. -/
def built (st : State) (t : TypeId) : State :=
  { st with
    contexts := st.contexts.map fun c => if c.type = t then { c with built := true } else c }

/-- A context that is there can be marked. -/
theorem ends_markBuilt {t : TypeId} {σ : Strategy} (h : st.Has t σ)
    {good : Unit → State → Prop} :
    Ends (markBuilt t) st good bad ↔ good () (built st t) := by
  obtain ⟨c, hc, htype, -⟩ := Setup.exists_context h
  have hany : st.contexts.any (·.type = t) = true :=
    Array.any_eq_true'.2 ⟨c, hc, decide_eq_true htype⟩
  unfold markBuilt
  rw [ends_bind, ends_get]
  dsimp only
  rw [if_pos hany]
  exact Iff.rfl

/-- The state in which an object has new members. -/
def remade (st : State) (k : UnitId) (p : Nat) (members : List MemberDeclaration) : State :=
  { st with units := st.units.setMembers k p members }

/-- A declaration that is there can be given members. -/
theorem ends_setMembers {k : UnitId} {p : Nat} {members : List MemberDeclaration} {U : OutputUnit}
    (hU : st.units.get? k = some U) (hp : p < U.declarations.size)
    {good : Unit → State → Prop} :
    Ends (setMembers k p members) st good bad ↔ good () (remade st k p members) := by
  have hview : st.units.view k = .ok U := by rw [Units.view, hU]
  unfold setMembers
  rw [ends_bind, ends_get, hview]
  dsimp only
  rw [if_pos hp]
  exact Iff.rfl

end Run

namespace Setup

variable {s : Setup} {st st' st'' : State} {t c o : TypeId} {d : Descriptor} {σ : Strategy}
  {k : UnitId} {p : Nat} {name : String}

/-! ## Settled states -/

/-- What is true of a state between the steps that complete contexts. -/
structure Settled (s : Setup) (st : State) : Prop where
  consistent : s.Consistent st
  /-- The parts of a type with a context have contexts. -/
  closed : ∀ {t c}, st.Knows t → s.Part t c → st.Knows c
  /-- Every unit has a declaration. -/
  filled : ∀ {k U}, st.units.get? k = some U → U.declarations ≠ #[]

theorem settled_empty : s.Settled {} where
  consistent :=
    { distinct := List.nodup_nil
      resolved := fun h => by simp [State.Has, State.entries] at h
      suits := fun h => by simp [State.Has, State.entries] at h
      located := fun h => by simp [State.Has, State.entries] at h
      orderly := Units.orderly_empty
      unit := fun h => by simp [State.Has, State.entries] at h
      declared := fun h => by simp [Units.get?] at h
      position := fun h => by simp [State.Has, State.entries] at h
      imported := fun h => by simp [Units.get?] at h
      complete := fun h => by simp at h }
  closed := by
    rintro t c ⟨σ, h⟩ -
    simp [State.Has, State.entries] at h
  filled h := by simp [Units.get?] at h

/-- An event changes nothing. -/
theorem Settled.log (h : s.Settled st) (events : Array Event) :
    s.Settled { st with events } where
  consistent :=
    { distinct := h.consistent.distinct
      resolved := h.consistent.resolved
      suits := h.consistent.suits
      located := h.consistent.located
      orderly := h.consistent.orderly
      unit := h.consistent.unit
      declared := h.consistent.declared
      position := h.consistent.position
      imported := h.consistent.imported
      complete := h.consistent.complete }
  closed := h.closed
  filled := h.filled

theorem Settled.extend (h : s.Settled st) (h' : s.Consistent st') (extends' : s.Extends st st') :
    s.Settled st' where
  consistent := h'
  closed {t c} ht hc := by
    rcases extends'.closed ht with hold | hparts
    · exact extends'.knows (h.closed hold hc)
    · exact hparts c hc
  filled hU hempty := by
    obtain ⟨V, hV, hempty'⟩ := extends'.units.fresh hU hempty
    exact h.filled hV hempty'

/-! ## Setting members -/

/-- A property of corresponding entries that a change of an entry keeps. -/
theorem forall₂_modify {α β : Type} {R : α → β → Prop} {f : β → β} {xs : List α} {ys : List β}
    (h : List.Forall₂ R xs ys) (hf : ∀ x y, R x y → R x (f y)) (i : Nat) :
    List.Forall₂ R xs (ys.modify i f) := by
  induction h generalizing i with
  | nil => simp
  | cons hxy hrest ih =>
    cases i with
    | zero => exact .cons (hf _ _ hxy) hrest
    | succ i => exact .cons hxy (ih i)

theorem withMembers_withMembers (ms ms' : List MemberDeclaration) (d : Declaration) :
    (d.withMembers ms).withMembers ms' = d.withMembers ms' := by
  cases d <;> rfl

/-- What a declaration of an object is, its members aside. -/
theorem object_of_outlines {parameters : List TypeId} {d : Declaration}
    (ht : s.Treats o (.object parameters)) (hd : s.Outlines o (d.withMembers [])) :
    ∃ members, d = .object (s.types.nameOf o) (parameters.map s.types.nameOf) members := by
  have := hd.unique ⟨_, ht, rfl⟩
  cases d with
  | object name ps members =>
    simp only [Declaration.withMembers, Declaration.object.injEq] at this
    exact ⟨members, by rw [this.1, this.2.1]⟩
  | enumeration => cases this
  | fixedStrings => cases this

/-- An object is treated by its form. -/
theorem Consistent.treats (h : s.Consistent st) (hσ : st.Has o (.object k name p)) :
    ∃ parameters, s.Treats o (.object parameters) := by
  cases h.suits hσ with
  | object ht => exact ⟨_, ht⟩

section SetMembers

variable {members : List MemberDeclaration}

theorem supplied_remade {j : UnitId} {x : TypeId} (h : st.Supplied j x) :
    (Run.remade st k p members).Supplied j x := by
  obtain ⟨σ, hx, himport⟩ := h
  refine ⟨σ, hx, fun i hi => ?_⟩
  obtain ⟨U, hU, hmem⟩ := himport i hi
  exact ⟨_, Units.get?_setMembers_of_get? hU p members, by rwa [Units.remake_imports]⟩

/-- The object whose members are set is complete. -/
theorem Consistent.complete_remade (h : s.Consistent st)
    (hσ : st.Has o (.object k name p))
    (hmembers : List.Forall₂ (s.Completes o) (s.written o) members)
    (hnodup : (members.map (·.name)).Nodup)
    (hsupplied : ∀ t, s.Uses s.site o t → st.Supplied k t) :
    s.Complete (Run.remade st k p members) o k p := by
  obtain ⟨parameters, ht⟩ := h.treats hσ
  obtain ⟨U, d, hU, -, hd, houtline⟩ := h.declaration_of_type (h.position hσ)
  obtain ⟨old, rfl⟩ := object_of_outlines ht houtline
  refine ⟨_, parameters.map s.types.nameOf, members, Units.get?_setMembers_of_get? hU p members, ?_,
    hmembers, hnodup, fun x hx => supplied_remade (hsupplied x hx)⟩
  rw [Units.remake_declarations, if_pos rfl, Array.getElem?_modify, if_pos rfl, hd]
  rfl

/-- An object at another position stays complete. -/
theorem complete_of_ne {x : TypeId} {j : UnitId} {q : Nat} (h : s.Complete st x j q)
    (hne : ¬ (j = k ∧ q = p)) : s.Complete (Run.remade st k p members) x j q := by
  obtain ⟨U, parameters, members', hU, hd, hmembers, hnodup, hsupplied⟩ := h
  refine ⟨_, parameters, members', Units.get?_setMembers_of_get? hU p members, ?_, hmembers, hnodup,
    fun x hx => supplied_remade (hsupplied x hx)⟩
  rw [Units.remake_declarations]
  split
  case isTrue hj =>
    rw [Array.getElem?_modify, if_neg fun hq => hne ⟨hj.symm, hq.symm⟩]
    exact hd
  case isFalse => exact hd

/-- Setting the members of an object that has been written completes it. -/
theorem Consistent.setMembers (h : s.Consistent st) (hσ : st.Has o (.object k name p))
    (hmembers : List.Forall₂ (s.Completes o) (s.written o) members)
    (hnodup : (members.map (·.name)).Nodup)
    (hsupplied : ∀ t, s.Uses s.site o t → st.Supplied k t) :
    s.Consistent (Run.remade st k p members) ∧
      s.Complete (Run.remade st k p members) o k p := by
  have completed := h.complete_remade hσ hmembers hnodup hsupplied
  refine ⟨⟨h.distinct, h.resolved, h.suits, h.located, Units.orderly_setMembers h.orderly p members,
    ?_, ?_, h.position, ?_, ?_⟩, completed⟩
  · intro x σ' j hx hj
    obtain ⟨U, hU, hloc⟩ := h.unit hx hj
    exact ⟨_, Units.get?_setMembers_of_get? hU p members, by rwa [Units.remake_location]⟩
  · intro j V hV
    obtain ⟨U, hU, rfl⟩ := Units.get?_of_setMembers hV
    rw [Units.remake_declarations]
    split
    · rw [Array.toList_modify]
      refine forall₂_modify (h.declared hU) (fun x d hd => ?_) p
      rwa [withMembers_withMembers]
    · exact h.declared hU
  · intro j V i hV hi
    obtain ⟨U, hU, rfl⟩ := Units.get?_of_setMembers hV
    rw [Units.remake_imports] at hi
    exact h.imported hU hi
  · intro ctx hmem hbuilt j name' q hstrategy
    by_cases hsame : j = k ∧ q = p
    · -- two objects at one position are one object
      obtain ⟨rfl, rfl⟩ := hsame
      have hctx := h.position (hstrategy ▸ has_of_mem hmem)
      cases hctx.symm.trans (h.position hσ)
      exact completed
    · exact complete_of_ne (h.complete hmem hbuilt hstrategy) hsame

end SetMembers

/-! ## Marking a context -/

theorem entries_built (st : State) (t : TypeId) : (Run.built st t).entries = st.entries := by
  simp only [State.entries, Run.built, Array.toList_map, List.map_map]
  apply List.map_congr_left
  intro c _
  simp only [Function.comp_apply]
  split <;> rfl

/-- A context may be marked when an object has its members. -/
theorem Consistent.markBuilt (h : s.Consistent st) (hσ : st.Has o σ)
    (hcomplete : ∀ {k name p}, σ = .object k name p → s.Complete st o k p) :
    s.Consistent (Run.built st o) := by
  have hentries := entries_built st o
  have hhas : ∀ {t σ}, (Run.built st o).Has t σ ↔ st.Has t σ := by simp [State.Has, hentries]
  have hplaced : ∀ k, (Run.built st o).placed k = st.placed k := by simp [State.placed, hentries]
  have complete : ∀ {x k p}, s.Complete st x k p → s.Complete (Run.built st o) x k p :=
    fun hx => hx.grow hhas.2 (Units.Grows.refl _)
  exact {
    distinct := by
      rw [hentries]
      exact h.distinct
    resolved := fun hx => h.resolved (hhas.1 hx)
    suits := fun hx => h.suits (hhas.1 hx)
    located := fun hx => h.located (hhas.1 hx)
    orderly := h.orderly
    unit := fun hx => h.unit (hhas.1 hx)
    declared := by
      intro k U hU
      rw [hplaced]
      exact h.declared hU
    position := by
      intro t k name p hx
      rw [hplaced]
      exact h.position (hhas.1 hx)
    imported := by
      intro k U i hU hi
      obtain ⟨t, σ', hm, ht, himport⟩ := h.imported hU hi
      exact ⟨t, σ', hm.grow hhas.2, hhas.2 ht, himport⟩
    complete := by
      intro ctx hmem hbuilt k name p hstrategy
      obtain ⟨old, hold, rfl⟩ := Array.mem_map.1 hmem
      by_cases htype : old.type = o
      · rw [if_pos htype] at hstrategy ⊢
        have hself : st.Has o old.strategy := htype ▸ has_of_mem hold
        show s.Complete _ old.type k p
        rw [htype]
        exact complete (hcomplete ((h.unique hσ hself).trans hstrategy))
      · rw [if_neg htype] at hbuilt hstrategy ⊢
        exact complete (h.complete hold hbuilt hstrategy) }

end Setup

end TypeExport
