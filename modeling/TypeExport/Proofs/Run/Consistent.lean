import Mathlib.Data.List.Nodup
import TypeExport.Proofs.Output.Registry
import TypeExport.Proofs.Run.Written

/-!
# Consistent states

What is true of the state of a run between its steps.  A type has at most one
context, whose strategy is the one that the setup asks for.  The declarations
of a unit are those of the types that are placed there, in the order of their
contexts, and an object knows its position among them.  An import is there
because a member of an object of the unit mentions a type that needs it.  And
an object whose context is complete has all its members, whose types have what
they need imported.

`Setup.Extends` is what resolving and referring to types keep.  The context of
a type is created before its parts are resolved, so that the parts of every
type have contexts is only said of the types that are new.
-/

namespace TypeExport

/-! ## Strategies -/

/-- The import that a reference from a unit to a type of that strategy needs. -/
def Strategy.import? (k : UnitId) : Strategy → Option Import
  | .nativeEnum owner name | .fixedStrings owner name | .object owner name _ =>
    if owner = k then none else some ⟨name, .unit owner⟩
  | .redirect name location => some ⟨name, .external location⟩
  | _ => none

/-- The strategies that a setup asks for, wherever the type is placed. -/
inductive Setup.Suits (s : Setup) (t : TypeId) : Strategy → Prop
  | redirect {name location : String} : s.Redirects t name location →
      Suits s t (.redirect name location)
  | builtin {e : TypeExpr} : s.Treats t (.primitive e) → Suits s t .builtin
  | array {x : TypeId} : s.Treats t (.sequence x) → Suits s t .array
  | dictionary {key value : TypeId} : s.Treats t (.dictionary key value) → Suits s t .dictionary
  | nullable {x : TypeId} : s.options.explicitNullability = true → s.Treats t (.absent x) →
      Suits s t .nullable
  | unwrapped {x : TypeId} : s.options.explicitNullability = false → s.Treats t (.absent x) →
      Suits s t (.unwrapped x)
  | genericInstance {definition : TypeId} {arguments : List TypeId} :
      s.Treats t (.applied definition arguments) → Suits s t .genericInstance
  | genericParameter : s.Treats t .parameter → Suits s t .genericParameter
  | nativeEnum {values : List EnumValue} {k : UnitId} : s.options.enums = .native →
      s.Treats t (.enumeration values) → Suits s t (.nativeEnum k (s.types.nameOf t))
  | fixedStrings {values : List EnumValue} {k : UnitId} : s.options.enums = .fixedStrings →
      s.Treats t (.enumeration values) → Suits s t (.fixedStrings k (s.types.nameOf t))
  | object {parameters : List TypeId} {k : UnitId} {p : Nat} :
      s.Treats t (.object parameters) → Suits s t (.object k (s.types.nameOf t) p)

namespace State

/-- The types that have contexts, with their strategies, in order. -/
def entries (st : State) : List (TypeId × Strategy) :=
  st.contexts.toList.map fun c => (c.type, c.strategy)

/-- Whether a type has a context of that strategy. -/
def Has (st : State) (t : TypeId) (σ : Strategy) : Prop := (t, σ) ∈ st.entries

/-- Whether a type has a context. -/
def Knows (st : State) (t : TypeId) : Prop := ∃ σ, st.Has t σ

/-- The types that are declared in a unit, in order. -/
def placed (st : State) (k : UnitId) : List TypeId :=
  (st.entries.filter (·.2.unit? = some k)).map (·.1)

/-- Whether a type has a context, and the import that references to it from a
unit need. -/
def Supplied (st : State) (k : UnitId) (t : TypeId) : Prop :=
  ∃ σ, st.Has t σ ∧ ∀ i, σ.import? k = some i → ∃ U, st.units.get? k = some U ∧ i ∈ U.imports

end State

namespace Setup

variable (s : Setup)

/-! ## Consistency -/

/-- Whether the members of an object of a unit mention a type. -/
def Mentioned (st : State) (k : UnitId) (t : TypeId) : Prop :=
  ∃ o name p, st.Has o (.object k name p) ∧ s.Uses s.site o t

/-- Whether an object has all its members at a position of a unit. -/
def Complete (st : State) (o : TypeId) (k : UnitId) (p : Nat) : Prop :=
  ∃ U parameters members, st.units.get? k = some U ∧
    U.declarations[p]? = some (.object (s.types.nameOf o) parameters members) ∧
    List.Forall₂ (s.Completes o) (s.written o) members ∧ (members.map (·.name)).Nodup ∧
    ∀ t, s.Uses s.site o t → st.Supplied k t

/-- What is true of a state between the steps of a run. -/
structure Consistent (st : State) : Prop where
  /-- A type has at most one context. -/
  distinct : (st.entries.map (·.1)).Nodup
  /-- Only types that are to be resolved have contexts. -/
  resolved : ∀ {t σ}, st.Has t σ → s.Resolved t
  /-- A strategy is the one asked for. -/
  suits : ∀ {t σ}, st.Has t σ → s.Suits t σ
  /-- A type with a context belongs to a location. -/
  located : ∀ {t σ}, st.Has t σ → ∃ location, s.Locates t location
  /-- The registry is in order. -/
  orderly : st.units.Orderly
  /-- A type is declared in the unit of its location. -/
  unit : ∀ {t σ k}, st.Has t σ → σ.unit? = some k →
    ∃ U, st.units.get? k = some U ∧ s.Locates t U.location
  /-- The declarations of a unit are those of the types placed there. -/
  declared : ∀ {k U}, st.units.get? k = some U →
    List.Forall₂ (fun t d => s.Outlines t (d.withMembers [])) (st.placed k) U.declarations.toList
  /-- An object knows its position. -/
  position : ∀ {t k name p}, st.Has t (.object k name p) → (st.placed k)[p]? = some t
  /-- An import is needed. -/
  imported : ∀ {k U i}, st.units.get? k = some U → i ∈ U.imports →
    ∃ t σ, s.Mentioned st k t ∧ st.Has t σ ∧ σ.import? k = some i
  /-- A complete object has its members. -/
  complete : ∀ {c}, c ∈ st.contexts → c.built = true → ∀ {k name p},
    c.strategy = .object k name p → s.Complete st c.type k p

/-- What resolving and referring to types keep of a state. -/
structure Extends (st st' : State) : Prop where
  /-- Contexts are only added, as they are created. -/
  contexts : ∃ new, st'.contexts.toList = st.contexts.toList ++ new ∧
    ∀ c ∈ new, c = .create c.type c.strategy
  /-- Units only grow. -/
  units : st.units.Grows st'.units
  /-- The parts of a new type have contexts. -/
  closed : ∀ {t}, st'.Knows t → st.Knows t ∨ ∀ c, s.Part t c → st'.Knows c

variable {s} {st st' st'' : State} {t c o : TypeId} {σ : Strategy} {k : UnitId}

/-! ## Contexts -/

theorem has_of_mem {c : Context} (h : c ∈ st.contexts) : st.Has c.type c.strategy :=
  List.mem_map.2 ⟨c, Array.mem_toList_iff.2 h, rfl⟩

theorem exists_context (h : st.Has t σ) : ∃ c ∈ st.contexts, c.type = t ∧ c.strategy = σ := by
  obtain ⟨c, hc, heq⟩ := List.mem_map.1 h
  cases heq
  exact ⟨c, Array.mem_toList_iff.1 hc, rfl, rfl⟩

theorem has_of_context? {c : Context} (h : st.context? t = some c) : st.Has t c.strategy := by
  have htype : c.type = t := by simpa using Array.find?_some h
  exact htype ▸ has_of_mem (Array.mem_of_find?_eq_some h)

theorem not_knows_of_context? (h : st.context? t = none) : ¬ st.Knows t := by
  rintro ⟨σ, hσ⟩
  obtain ⟨c, hc, htype, -⟩ := exists_context hσ
  have := Array.find?_eq_none.1 h c hc
  simp [htype] at this

/-- A type has one strategy. -/
theorem Consistent.unique (h : s.Consistent st) {σ' : Strategy} (hσ : st.Has t σ)
    (hσ' : st.Has t σ') : σ = σ' := by
  have := List.inj_on_of_nodup_map h.distinct hσ hσ' rfl
  cases this
  rfl

theorem mem_placed : t ∈ st.placed k ↔ ∃ σ, st.Has t σ ∧ σ.unit? = some k := by
  simp [State.placed, State.Has]

/-! ## Positions -/

theorem exists_left {α β : Type} {R : α → β → Prop} {xs : List α} {ys : List β}
    (h : List.Forall₂ R xs ys) {p : Nat} {y : β} (hy : ys[p]? = some y) :
    ∃ x, xs[p]? = some x ∧ R x y := by
  induction h generalizing p with
  | nil => simp at hy
  | @cons a b xs ys hab _ ih =>
    cases p with
    | zero =>
      cases hy
      exact ⟨a, rfl, hab⟩
    | succ p => exact ih hy

theorem exists_right {α β : Type} {R : α → β → Prop} {xs : List α} {ys : List β}
    (h : List.Forall₂ R xs ys) {p : Nat} {x : α} (hx : xs[p]? = some x) :
    ∃ y, ys[p]? = some y ∧ R x y :=
  exists_left (R := fun y x => R x y) h.flip hx

/-- The type of a declaration. -/
theorem Consistent.type_of_declaration (h : s.Consistent st) {U : OutputUnit}
    (hU : st.units.get? k = some U) {p : Nat} {d : Declaration}
    (hd : U.declarations[p]? = some d) :
    ∃ t, (st.placed k)[p]? = some t ∧ s.Outlines t (d.withMembers []) :=
  exists_left (h.declared hU) (by rwa [Array.getElem?_toList])

/-- The declaration of a type. -/
theorem Consistent.declaration_of_type (h : s.Consistent st) {p : Nat}
    (ht : (st.placed k)[p]? = some t) : ∃ U d, st.units.get? k = some U ∧
      s.Locates t U.location ∧ U.declarations[p]? = some d ∧ s.Outlines t (d.withMembers []) := by
  obtain ⟨σ, hσ, hk⟩ := mem_placed.1 (List.mem_of_getElem? ht)
  obtain ⟨U, hU, hloc⟩ := h.unit hσ hk
  obtain ⟨d, hd, houtline⟩ := exists_right (h.declared hU) ht
  exact ⟨U, d, hU, hloc, by rwa [Array.getElem?_toList] at hd, houtline⟩

/-! ## More contexts and units -/

/-- A declared type stays in the unit of its location. -/
theorem Consistent.unit_grow (h : s.Consistent st) {us : Units} (grows : st.units.Grows us)
    (ht : st.Has t σ) (hk : σ.unit? = some k) :
    ∃ U, us.get? k = some U ∧ s.Locates t U.location := by
  obtain ⟨U, hU, hloc⟩ := h.unit ht hk
  obtain ⟨V, hV, hVU, -⟩ := grows.unit hU
  exact ⟨V, hV, hVU ▸ hloc⟩

section Grow

variable (hhas : ∀ {t σ}, st.Has t σ → st'.Has t σ) (grows : st.units.Grows st'.units)
include hhas

theorem Mentioned.grow (h : s.Mentioned st k t) : s.Mentioned st' k t := by
  obtain ⟨o, name, p, ho, huses⟩ := h
  exact ⟨o, name, p, hhas ho, huses⟩

include grows

theorem supplied_grow (h : st.Supplied k t) : st'.Supplied k t := by
  obtain ⟨σ, hσ, himport⟩ := h
  refine ⟨σ, hhas hσ, fun i hi => ?_⟩
  obtain ⟨U, hU, hmem⟩ := himport i hi
  obtain ⟨V, hV, -, himports, -⟩ := grows.unit hU
  exact ⟨V, hV, himports i hmem⟩

theorem Complete.grow {p : Nat} (h : s.Complete st o k p) : s.Complete st' o k p := by
  obtain ⟨U, parameters, members, hU, hd, hmembers, hnodup, hsupplied⟩ := h
  obtain ⟨V, hV, -, -, hdeclarations⟩ := grows.unit hU
  exact ⟨V, parameters, members, hV, hdeclarations hd, hmembers, hnodup,
    fun t ht => supplied_grow hhas grows (hsupplied t ht)⟩

end Grow

/-! ## Extension -/

namespace Extends

theorem refl (st : State) : s.Extends st st where
  contexts := ⟨[], by simp, by simp⟩
  units := Units.Grows.refl _
  closed h := .inl h

theorem has (h : s.Extends st st') (ht : st.Has t σ) : st'.Has t σ := by
  obtain ⟨new, hnew, -⟩ := h.contexts
  rw [State.Has, State.entries, hnew, List.map_append]
  exact List.mem_append_left _ ht

theorem knows (h : s.Extends st st') (ht : st.Knows t) : st'.Knows t := by
  obtain ⟨σ, hσ⟩ := ht
  exact ⟨σ, h.has hσ⟩

theorem trans (h : s.Extends st st') (h' : s.Extends st' st'') : s.Extends st st'' where
  contexts := by
    obtain ⟨new, hnew, hcreated⟩ := h.contexts
    obtain ⟨new', hnew', hcreated'⟩ := h'.contexts
    refine ⟨new ++ new', by rw [hnew', hnew, List.append_assoc], fun c hc => ?_⟩
    rcases List.mem_append.1 hc with hold | hlater
    · exact hcreated c hold
    · exact hcreated' c hlater
  units := h.units.trans h'.units
  closed hk := by
    rcases h'.closed hk with hmiddle | hparts
    · rcases h.closed hmiddle with hold | hparts
      · exact .inl hold
      · exact .inr fun c hc => h'.knows (hparts c hc)
    · exact .inr hparts

theorem mentioned (h : s.Extends st st') (hm : s.Mentioned st k t) : s.Mentioned st' k t :=
  hm.grow h.has

theorem supplied (h : s.Extends st st') (hs : st.Supplied k t) : st'.Supplied k t :=
  supplied_grow h.has h.units hs

theorem complete (h : s.Extends st st') {p : Nat} (hc : s.Complete st o k p) :
    s.Complete st' o k p :=
  hc.grow h.has h.units

end Extends

/-! ## A new context -/

/-- What the units have to be for a new context of a type.  The declarations of
each unit are still those of the types placed there, the new one last. -/
structure Prepares (s : Setup) (st : State) (t : TypeId) (σ : Strategy) (us : Units) : Prop where
  suits : s.Suits t σ
  located : ∃ location, s.Locates t location
  grows : st.units.Grows us
  orderly : us.Orderly
  unit : ∀ {k}, σ.unit? = some k → ∃ U, us.get? k = some U ∧ s.Locates t U.location
  declared : ∀ {j U}, us.get? j = some U →
    List.Forall₂ (fun t d => s.Outlines t (d.withMembers []))
      (st.placed j ++ if σ.unit? = some j then [t] else []) U.declarations.toList
  /-- An object comes last. -/
  position : ∀ {k name p}, σ = .object k name p → p = (st.placed k).length
  /-- Nothing was imported. -/
  imported : ∀ {j U i}, us.get? j = some U → i ∈ U.imports →
    ∃ V, st.units.get? j = some V ∧ i ∈ V.imports

/-- Nothing is prepared for a type that is placed nowhere. -/
theorem Consistent.prepares (h : s.Consistent st) (hσ : s.Suits t σ)
    (hl : ∃ location, s.Locates t location) (hunit : σ.unit? = none) :
    s.Prepares st t σ st.units where
  suits := hσ
  located := hl
  grows := Units.Grows.refl _
  orderly := h.orderly
  unit hk := by
    rw [hunit] at hk
    cases hk
  declared hU := by
    rw [hunit, if_neg (by simp), List.append_nil]
    exact h.declared hU
  position hσ := by
    rw [hσ] at hunit
    cases hunit
  imported hU hi := ⟨_, hU, hi⟩

/-- A new declaration prepares the context of its type. -/
theorem Consistent.prepares_of_placed (h : s.Consistent st) (hσ : s.Suits t σ)
    {location : String} (hl : s.Locates t location) {d : Declaration} (hd : s.Outlines t d)
    (hempty : d.withMembers [] = d) {p : Nat} {us : Units}
    (hplaced : st.units.Placed location d k p us) (hunit : σ.unit? = some k)
    (hposition : ∀ {j name q}, σ = .object j name q → q = p) : s.Prepares st t σ us := by
  have grows := hplaced.grows
  have orderly := hplaced.orderly h.orderly
  obtain ⟨⟨U, hold, hloc, hsize, -, hget⟩, -⟩ := hplaced
  -- what was placed in the unit, if it is not new
  have before : List.Forall₂ (fun t d => s.Outlines t (d.withMembers [])) (st.placed k)
      U.declarations.toList := by
    rcases hold with hold | ⟨hnone, rfl⟩
    · exact h.declared hold
    · have : st.placed k = [] := by
        rw [List.eq_nil_iff_forall_not_mem]
        intro t' ht'
        obtain ⟨σ', hσ', hk⟩ := mem_placed.1 ht'
        obtain ⟨V, hV, -⟩ := h.unit hσ' hk
        rw [hnone] at hV
        cases hV
      rw [this]
      exact .nil
  exact {
    suits := hσ
    located := ⟨location, hl⟩
    grows
    orderly
    unit := by
      intro j hj
      cases hunit.symm.trans hj
      refine ⟨{ U with declarations := U.declarations.push d }, by rw [hget, if_pos rfl], ?_⟩
      exact hloc ▸ hl
    declared := by
      intro j V hV
      rw [hget] at hV
      split at hV
      case isTrue hj =>
        cases hV
        subst hj
        rw [if_pos hunit, Array.toList_push]
        exact List.rel_append before (.cons (hempty.symm ▸ hd) .nil)
      case isFalse hj =>
        rw [hunit, if_neg fun e => hj (Option.some.inj e), List.append_nil]
        exact h.declared hV
    position := by
      intro j name q hobject
      have hj : j = k := by
        rw [hobject] at hunit
        exact Option.some.inj hunit
      rw [hposition hobject, hj, ← hsize, before.length_eq, Array.length_toList]
    imported := by
      intro j V i hV hi
      rw [hget] at hV
      split at hV
      case isTrue hj =>
        cases hV
        subst hj
        rcases hold with hold | ⟨-, rfl⟩
        · exact ⟨U, hold, hi⟩
        · simp at hi
      case isFalse => exact ⟨V, hV, hi⟩ }

section Push

variable (hc : st'.contexts = st.contexts.push (.create t σ))
include hc

theorem entries_push : st'.entries = st.entries ++ [(t, σ)] := by
  simp [State.entries, hc, Context.create]

theorem has_push {t' : TypeId} {σ' : Strategy} :
    st'.Has t' σ' ↔ st.Has t' σ' ∨ t' = t ∧ σ' = σ := by
  simp [State.Has, entries_push hc]

theorem has_push_of_has {t' : TypeId} {σ' : Strategy} (h : st.Has t' σ') : st'.Has t' σ' :=
  (has_push hc).2 (.inl h)

theorem placed_push (j : UnitId) :
    st'.placed j = st.placed j ++ if σ.unit? = some j then [t] else [] := by
  rw [State.placed, State.placed, entries_push hc, List.filter_append, List.map_append]
  congr 1
  by_cases h : σ.unit? = some j <;> simp [h]

/-- A new context, followed by what gives its parts contexts. -/
theorem extends_of_push (grows : st.units.Grows st'.units) (h : s.Extends st' st'')
    (hparts : ∀ c, s.Part t c → st''.Knows c) : s.Extends st st'' where
  contexts := by
    obtain ⟨new, hnew, hcreated⟩ := h.contexts
    refine ⟨.create t σ :: new, by simp [hnew, hc], fun c hmem => ?_⟩
    rcases List.mem_cons.1 hmem with rfl | hlater
    · rfl
    · exact hcreated c hlater
  units := grows.trans h.units
  closed hk := by
    rcases h.closed hk with ⟨σ', hmiddle⟩ | hdone
    · rcases (has_push hc).1 hmiddle with hold | ⟨rfl, -⟩
      · exact .inl ⟨σ', hold⟩
      · exact .inr hparts
    · exact .inr hdone

/-- A prepared context keeps a state consistent. -/
theorem Consistent.push (h : s.Consistent st) (hnew : ¬ st.Knows t) (hr : s.Resolved t)
    (hp : s.Prepares st t σ st'.units) : s.Consistent st' where
  distinct := by
    rw [entries_push hc, List.map_append, List.map_singleton]
    refine List.nodup_append.2 ⟨h.distinct, List.nodup_singleton _, ?_⟩
    rintro t' ht' _ hsingle rfl
    rw [List.mem_singleton.1 hsingle] at ht'
    obtain ⟨⟨_, σ'⟩, hentry, rfl⟩ := List.mem_map.1 ht'
    exact hnew ⟨σ', hentry⟩
  resolved hhas := by
    rcases (has_push hc).1 hhas with hold | ⟨rfl, -⟩
    · exact h.resolved hold
    · exact hr
  suits hhas := by
    rcases (has_push hc).1 hhas with hold | ⟨rfl, rfl⟩
    · exact h.suits hold
    · exact hp.suits
  located hhas := by
    rcases (has_push hc).1 hhas with hold | ⟨rfl, -⟩
    · exact h.located hold
    · exact hp.located
  orderly := hp.orderly
  unit hhas hk := by
    rcases (has_push hc).1 hhas with hold | ⟨rfl, rfl⟩
    · exact h.unit_grow hp.grows hold hk
    · exact hp.unit hk
  declared hV := by
    rw [placed_push hc]
    exact hp.declared hV
  position hhas := by
    rw [placed_push hc]
    rcases (has_push hc).1 hhas with hold | ⟨rfl, rfl⟩
    · have hposition := h.position hold
      rw [List.getElem?_append_left (List.getElem?_eq_some_iff.1 hposition).1]
      exact hposition
    · rw [hp.position rfl]
      simp [Strategy.unit?]
  imported hV hi := by
    obtain ⟨U, hU, hmem⟩ := hp.imported hV hi
    obtain ⟨x, σ', hm, hx, himport⟩ := h.imported hU hmem
    exact ⟨x, σ', hm.grow (has_push_of_has hc), has_push_of_has hc hx, himport⟩
  complete hmem hbuilt := by
    intro k name p hstrategy
    rw [hc] at hmem
    rcases Array.mem_push.1 hmem with hold | rfl
    · exact (h.complete hold hbuilt hstrategy).grow (has_push_of_has hc) hp.grows
    · -- an object is incomplete when its context is created
      simp only [Context.create] at hbuilt hstrategy
      rw [hstrategy] at hbuilt
      cases hbuilt

end Push

/-! ## An import -/

/-- An import that a mentioned type needs keeps a state consistent. -/
theorem Consistent.import (h : s.Consistent st) (hm : s.Mentioned st k t) (ht : st.Has t σ)
    {i : Import} (hi : σ.import? k = some i ∨ i.source = .unit k)
    (hcontexts : st'.contexts = st.contexts) (himport : st.units.Imported k i st'.units) :
    s.Consistent st' ∧ s.Extends st st' := by
  have hentries : st'.entries = st.entries := by rw [State.entries, State.entries, hcontexts]
  have hhas : ∀ {t σ}, st'.Has t σ ↔ st.Has t σ := by simp [State.Has, hentries]
  have hplaced : ∀ j, st'.placed j = st.placed j := by simp [State.placed, hentries]
  have grows := himport.grows
  have extends' : s.Extends st st' :=
    { contexts := ⟨[], by simp [hcontexts], by simp⟩
      units := grows
      closed := fun ⟨σ', h'⟩ => .inl ⟨σ', hhas.1 h'⟩ }
  have consistent : s.Consistent st' :=
    { distinct := by
        rw [hentries]
        exact h.distinct
      resolved := fun h' => h.resolved (hhas.1 h')
      suits := fun h' => h.suits (hhas.1 h')
      located := fun h' => h.located (hhas.1 h')
      orderly := himport.orderly h.orderly
      unit := fun h' hj => h.unit_grow grows (hhas.1 h') hj
      declared := by
        intro j V hV
        obtain ⟨U, hU, -, hd, -⟩ := himport.get? hV
        rw [hplaced, hd]
        exact h.declared hU
      position := by
        intro t' j name p h'
        rw [hplaced]
        exact h.position (hhas.1 h')
      imported := by
        intro j V x hV hx
        obtain ⟨U, hU, -, -, -, himports⟩ := himport.get? hV
        rcases himports x hx with hold | ⟨rfl, rfl⟩
        · obtain ⟨y, σ', hm', hy, himp⟩ := h.imported hU hold
          exact ⟨y, σ', extends'.mentioned hm', extends'.has hy, himp⟩
        · rcases hi with hi | hself
          · exact ⟨t, σ, extends'.mentioned hm, extends'.has ht, hi⟩
          · exact absurd hself ((himport.orderly h.orderly).selfless hV hx)
      complete := by
        intro c hmem hbuilt j name p hstrategy
        rw [hcontexts] at hmem
        exact extends'.complete (h.complete hmem hbuilt hstrategy) }
  exact ⟨consistent, extends'⟩

end Setup

end TypeExport
