import TypeExport.Proofs.Run.Governed

/-!
# Finished states

In a finished state the types with contexts are the resolved ones
(`Finished.knows_iff`).  A declared type has its declaration at one place, and
an object has its members there (`Finished.declaration_of_object`).
-/

namespace TypeExport

namespace Setup

variable {s : Setup} {st : State} {t o : TypeId} {d : Declaration} {σ : Strategy} {k : UnitId}
  {p : Nat}

/-- No type is placed twice in a unit. -/
theorem Consistent.nodup_placed (h : s.Consistent st) (k : UnitId) : (st.placed k).Nodup :=
  h.distinct.sublist ((List.filter_sublist).map _)

/-- A type is placed in one unit, at one position. -/
theorem Consistent.place_unique (h : s.Consistent st) {k' : UnitId} {p' : Nat}
    (hp : (st.placed k)[p]? = some t) (hp' : (st.placed k')[p']? = some t) : k = k' ∧ p = p' := by
  obtain ⟨σ, hσ, hk⟩ := mem_placed.1 (List.mem_of_getElem? hp)
  obtain ⟨σ', hσ', hk'⟩ := mem_placed.1 (List.mem_of_getElem? hp')
  cases h.unique hσ hσ'
  cases hk.symm.trans hk'
  have hlt := (List.getElem?_eq_some_iff.1 hp).1
  exact ⟨rfl, (List.getElem?_inj hlt (h.nodup_placed k)).1 (hp.trans hp'.symm)⟩

/-- A declared type that has a context is placed. -/
theorem Consistent.placed_of_outlines (h : s.Consistent st) (hσ : st.Has t σ)
    (hd : s.Outlines t d) :
    ∃ (k : UnitId) (p : Nat), σ.unit? = some k ∧ (st.placed k)[p]? = some t := by
  obtain ⟨k, hk, -⟩ := (h.suits hσ).import?_of_outlines hd
  obtain ⟨p, hp⟩ := List.mem_iff_getElem?.1 (mem_placed.2 ⟨σ, hσ, hk⟩)
  exact ⟨k, p, hk, hp⟩

/-- Only an object has the outline of one. -/
theorem Outlines.object {name : String} {names : List String} {members : List MemberDeclaration}
    (h : s.Outlines t (.object name names members)) :
    ∃ parameters, s.Treats t (.object parameters) := by
  obtain ⟨form, ht, ho⟩ := h
  cases form with
  | object parameters => exact ⟨parameters, ht⟩
  | enumeration values =>
    rw [outline] at ho
    split at ho <;> cases ho
  | _ => cases ho

/-- An object that has a context has the strategy of one. -/
theorem Consistent.strategy_of_object (h : s.Consistent st) {parameters : List TypeId}
    (ht : s.Treats o (.object parameters)) (hσ : st.Has o σ) :
    ∃ k p, σ = .object k (s.types.nameOf o) p := by
  cases h.suits hσ with
  | object => exact ⟨_, _, rfl⟩
  | redirect hr => exact absurd hr ht.not_redirects
  | builtin ht' | array ht' | dictionary ht' | nullable _ ht' | unwrapped _ ht'
  | genericInstance ht' | genericParameter ht' | nativeEnum _ ht' | fixedStrings _ ht' =>
    cases ht.unique ht'

namespace Finished

variable (h : s.Finished st)
include h

/-- An object that has a context has its members. -/
theorem complete {name : String} (hσ : st.Has o (.object k name p)) : s.Complete st o k p := by
  obtain ⟨c, hc, rfl, hstrategy⟩ := exists_context hσ
  exact h.settled.consistent.complete hc (h.built c hc) hstrategy

/-- The types with contexts are the resolved ones. -/
theorem knows_iff : st.Knows t ↔ s.Resolved t := by
  constructor
  · rintro ⟨σ, hσ⟩
    exact h.settled.consistent.resolved hσ
  · intro ht
    induction ht with
    | root hroot => exact h.root _ hroot
    | part _ hpart ih => exact h.settled.closed ih hpart
    | member _ hobject hm ih =>
      obtain ⟨σ, hσ⟩ := ih
      obtain ⟨k, p, rfl⟩ := h.settled.consistent.strategy_of_object hobject hσ
      obtain ⟨-, -, -, -, -, -, -, hsupplied⟩ := h.complete hσ
      obtain ⟨σ, hsite, -⟩ := hsupplied _ ⟨_, _, hobject, hm, .refl⟩
      exact ⟨σ, hsite⟩

/-- A declared type is placed. -/
theorem placed (ht : s.Resolved t) (hd : s.Outlines t d) :
    ∃ (k : UnitId) (p : Nat), (st.placed k)[p]? = some t := by
  obtain ⟨σ, hσ⟩ := h.knows_iff.2 ht
  obtain ⟨k, p, -, hp⟩ := h.settled.consistent.placed_of_outlines hσ hd
  exact ⟨k, p, hp⟩

/-- A declared object has its members at its place. -/
theorem object {parameters : List TypeId} (ht : s.Treats o (.object parameters))
    (hp : (st.placed k)[p]? = some o) :
    st.Has o (.object k (s.types.nameOf o) p) ∧ s.Complete st o k p := by
  obtain ⟨σ, hσ, hk⟩ := mem_placed.1 (List.mem_of_getElem? hp)
  obtain ⟨k', p', rfl⟩ := h.settled.consistent.strategy_of_object ht hσ
  cases hk
  obtain ⟨-, rfl⟩ := h.settled.consistent.place_unique (h.settled.consistent.position hσ) hp
  exact ⟨hσ, h.complete hσ⟩

/-- The declaration of an object, and what its unit has for it. -/
theorem declaration_of_object {parameters : List TypeId} {U : OutputUnit}
    (ht : s.Treats o (.object parameters)) (hp : (st.placed k)[p]? = some o)
    (hU : st.units.get? k = some U) (hd : U.declarations[p]? = some d) :
    ∃ members, d = .object (s.types.nameOf o) (parameters.map s.types.nameOf) members ∧
      List.Forall₂ (s.Completes o) (s.written o) members ∧ (members.map (·.name)).Nodup ∧
      ∀ t, s.Uses s.site o t → st.Supplied k t := by
  obtain ⟨-, V, names, members, hV, hobject, hmembers, hnodup, hsupplied⟩ := h.object ht hp
  cases hU.symm.trans hV
  cases hd.symm.trans hobject
  obtain ⟨t, hplace, houtline⟩ := h.settled.consistent.type_of_declaration hU hd
  cases hp.symm.trans hplace
  cases houtline.unique ⟨_, ht, rfl⟩
  exact ⟨members, rfl, hmembers, hnodup, hsupplied⟩

end Finished

end Setup

end TypeExport
