import TypeExport.Proofs.Run.Finishing

/-!
# Tidy states

What is true of a state whatever was asked of the run and whether it failed.  A
type has at most one context, and the declarations of a unit are those of the
contexts that are declared there, in the order of the contexts
(`Setup.Tidy`).  It does not say that the parts of a type have contexts, or
that an import is needed, because a step that fails leaves its work half done
and a caller may refer to any type from any unit.

`Setup.Advances` is what resolving and referring to types keep: contexts and
declarations are only appended.  `State.Precedes` is what is left of it when
contexts are completed as well.
-/

namespace TypeExport

/-- The declarations of a unit, none when the id was not issued. -/
def Units.declared (us : Units) (k : UnitId) : List Declaration :=
  ((us.get? k).map (·.declarations.toList)).getD []

/-- The contexts that are declared in a unit, in the order of their creation. -/
def State.declaring (st : State) (k : UnitId) : List Context :=
  st.contexts.toList.filter (·.strategy.unit? = some k)

/-- Whether what stands at a position of a unit is the declaration of a context.
An object has no members before its context is complete. -/
inductive Context.Declares (position : Nat) : Context → Declaration → Prop
  | nativeEnum {type : TypeId} {unit : UnitId} {name : String} {built : Bool}
      {values : List String} :
      Declares position ⟨type, .nativeEnum unit name, built⟩ (.enumeration name values)
  | fixedStrings {type : TypeId} {unit : UnitId} {name lookup : String} {built : Bool}
      {values : List String} :
      Declares position ⟨type, .fixedStrings unit name, built⟩ (.fixedStrings name values lookup)
  | object {type : TypeId} {unit : UnitId} {name : String} {built : Bool}
      {parameters : List String} {members : List MemberDeclaration} :
      (built = false → members = []) →
      Declares position ⟨type, .object unit name position, built⟩ (.object name parameters members)

/-- Whether an event reports a pass. -/
def Event.isPass : Event → Bool
  | .passed .. => true
  | _ => false

/-- The number of passes that have ended. -/
def State.passed (st : State) : Nat := st.events.toList.countP (·.isPass)

/-- What is true of a state whatever was asked of the run. -/
structure Setup.Tidy (s : Setup) (st : State) : Prop where
  /-- A type has at most one context. -/
  distinct : (st.contexts.toList.map (·.type)).Nodup
  /-- Only issued types have contexts. -/
  issued : ∀ c ∈ st.contexts, s.types.Issued c.type
  /-- No context has a behaviour of the caller's. -/
  standard : ∀ c ∈ st.contexts, c.strategy ≠ .custom
  /-- A unit has as many declarations as contexts that are declared there. -/
  length : ∀ k, (st.declaring k).length = (st.units.declared k).length
  /-- They are the declarations of these contexts, in order. -/
  declares : ∀ {k : UnitId} {p : Nat} {c : Context} {d : Declaration},
    (st.declaring k)[p]? = some c → (st.units.declared k)[p]? = some d → c.Declares p d

/-- What a later state keeps of a state. -/
structure State.Precedes (st st' : State) : Prop where
  /-- A context keeps its position, its type and its strategy, and a complete one
  stays complete. -/
  contexts : ∀ {i : Nat} {c : Context}, st.contexts[i]? = some c → ∃ c', st'.contexts[i]? = some c' ∧
    c'.type = c.type ∧ c'.strategy = c.strategy ∧ (c.built = true → c'.built = true)
  /-- A declaration keeps its position, and all of it but its members. -/
  outlines : ∀ {k : UnitId} {p : Nat} {d : Declaration}, (st.units.declared k)[p]? = some d →
    ∃ d', (st'.units.declared k)[p]? = some d' ∧ d'.withMembers [] = d.withMembers []
  /-- An object whose context is complete keeps its declaration. -/
  objects : ∀ {c : Context} {k : UnitId} {name : String} {p : Nat}, c ∈ st.contexts →
    c.built = true → c.strategy = .object k name p →
    (st'.units.declared k)[p]? = (st.units.declared k)[p]?

namespace State.Precedes

variable {st st' st'' : State}

/-- A context is kept. -/
theorem exists_mem (h : st.Precedes st') {c : Context} (hc : c ∈ st.contexts) :
    ∃ c' ∈ st'.contexts, c'.type = c.type ∧ c'.strategy = c.strategy ∧
      (c.built = true → c'.built = true) := by
  obtain ⟨i, hi⟩ := Array.mem_iff_getElem?.1 hc
  obtain ⟨c', hc', hkept⟩ := h.contexts hi
  exact ⟨c', Array.mem_of_getElem? hc', hkept⟩

theorem trans (h : st.Precedes st') (h' : st'.Precedes st'') : st.Precedes st'' where
  contexts hc := by
    obtain ⟨c', hc', htype, hstrategy, hbuilt⟩ := h.contexts hc
    obtain ⟨c'', hc'', htype', hstrategy', hbuilt'⟩ := h'.contexts hc'
    exact ⟨c'', hc'', htype'.trans htype, hstrategy'.trans hstrategy, hbuilt' ∘ hbuilt⟩
  outlines hd := by
    obtain ⟨d', hd', hsame⟩ := h.outlines hd
    obtain ⟨d'', hd'', hsame'⟩ := h'.outlines hd'
    exact ⟨d'', hd'', hsame'.trans hsame⟩
  objects hc hbuilt hσ := by
    obtain ⟨c', hc', -, hstrategy, hkept⟩ := h.exists_mem hc
    exact (h'.objects hc' (hkept hbuilt) (hstrategy.trans hσ)).trans (h.objects hc hbuilt hσ)

end State.Precedes

namespace Setup

variable {s : Setup} {st st' st'' : State} {t : TypeId} {σ : Strategy} {us : Units}

/-! ## Declarations of units -/

theorem declared_of_get? {k : UnitId} {U : OutputUnit} (h : us.get? k = some U) :
    us.declared k = U.declarations.toList := by
  rw [Units.declared, h]
  rfl

/-- Asking for a location declares nothing. -/
theorem declared_ensure (us : Units) (location : String) (k : UnitId) :
    (us.ensure location).2.declared k = us.declared k := by
  obtain ⟨U, hold, -, hget⟩ := us.get?_ensure location
  rw [Units.declared, hget]
  split
  · rename_i hk
    rw [Units.declared, ← hk]
    rcases hold with hold | ⟨hnone, rfl⟩
    · rw [hold]
    · rw [hnone]
      rfl
  · rfl

/-- A declaration comes last in its unit. -/
theorem declared_declare {k : UnitId} {d : Declaration} {p : Nat} {vs : Units}
    (h : us.declare k d = .ok (p, vs)) : p = (us.declared k).length ∧
      ∀ j, vs.declared j = us.declared j ++ if k = j then [d] else [] := by
  cases hU : us.get? k with
  | none => simp [Units.declare, Units.view, hU, bind, Except.bind] at h
  | some U =>
    simp only [Units.declare, Units.view, hU, bind, Except.bind] at h
    split at h
    · cases h
    · cases h
      refine ⟨by rw [declared_of_get? hU, Array.length_toList], fun j => ?_⟩
      rw [Units.declared, Units.get?_modify]
      split
      · rename_i hj
        subst hj
        simp [declared_of_get? hU, hU]
      · rw [List.append_nil]
        rfl

/-- An import declares nothing. -/
theorem declared_addImport {k : UnitId} {i : Import} {vs : Units} (h : us.addImport k i = .ok vs)
    (j : UnitId) : vs.declared j = us.declared j := by
  cases Units.imported_of_addImport h with
  | self => rfl
  | known => rfl
  | new hU _ _ hget =>
    rw [Units.declared, hget]
    split
    · rename_i hj
      rw [← hj, declared_of_get? hU]
      rfl
    · rfl

/-- Members are set in one declaration. -/
theorem declared_setMembers (us : Units) (k j : UnitId) (p : Nat)
    (members : List MemberDeclaration) : (us.setMembers k p members).declared j =
      if k = j then (us.declared j).modify p (·.withMembers members) else us.declared j := by
  rw [Units.declared, Units.declared, Units.get?_setMembers]
  cases us.get? j with
  | none => simp
  | some U =>
    simp only [Option.map_some, Option.getD_some, Units.remake_declarations]
    split <;> simp

/-! ## Contexts and their declarations -/

/-- The declaration of an object. -/
theorem declares_object {c : Context} {d : Declaration} {k : UnitId} {name : String} {p q : Nat}
    (h : c.Declares q d) (hσ : c.strategy = .object k name p) :
    q = p ∧ ∃ parameters members, d = .object name parameters members ∧
      (c.built = false → members = []) := by
  cases h with
  | nativeEnum => cases hσ
  | fixedStrings => cases hσ
  | object hmembers =>
    cases hσ
    exact ⟨rfl, _, _, rfl, hmembers⟩

namespace Tidy

/-- A context that is declared in a unit has its declaration there. -/
theorem exists_declaration (h : s.Tidy st) {c : Context} (hc : c ∈ st.contexts) {k : UnitId}
    (hk : c.strategy.unit? = some k) : ∃ p d, (st.declaring k)[p]? = some c ∧
      (st.units.declared k)[p]? = some d ∧ c.Declares p d := by
  have hmem : c ∈ st.declaring k :=
    List.mem_filter.2 ⟨Array.mem_toList_iff.2 hc, decide_eq_true hk⟩
  obtain ⟨p, hp⟩ := List.mem_iff_getElem?.1 hmem
  have hlt : p < (st.units.declared k).length :=
    h.length k ▸ (List.getElem?_eq_some_iff.1 hp).1
  exact ⟨p, _, hp, List.getElem?_eq_getElem hlt, h.declares hp (List.getElem?_eq_getElem hlt)⟩

/-- An object is declared at its position. -/
theorem object (h : s.Tidy st) {c : Context} (hc : c ∈ st.contexts) {k : UnitId} {name : String}
    {p : Nat} (hσ : c.strategy = .object k name p) : (st.declaring k)[p]? = some c ∧
      ∃ parameters members, (st.units.declared k)[p]? = some (.object name parameters members) ∧
        (c.built = false → members = []) := by
  have hk : c.strategy.unit? = some k := by rw [hσ]; rfl
  obtain ⟨q, d, hq, hd, hdeclares⟩ := h.exists_declaration hc hk
  obtain ⟨rfl, parameters, members, rfl, hmembers⟩ := declares_object hdeclares hσ
  exact ⟨hq, parameters, members, hd, hmembers⟩

/-- A type has one context. -/
theorem unique (h : s.Tidy st) {c c' : Context} (hc : c ∈ st.contexts) (hc' : c' ∈ st.contexts)
    (htype : c.type = c'.type) : c = c' :=
  List.inj_on_of_nodup_map h.distinct (Array.mem_toList_iff.2 hc) (Array.mem_toList_iff.2 hc')
    htype

end Tidy

theorem tidy_empty : s.Tidy {} where
  distinct := List.nodup_nil
  issued := by simp
  standard := by simp
  length k := by simp [State.declaring, Units.declared, Units.get?]
  declares h := by simp [State.declaring] at h

/-! ## Advancing -/

/-- What resolving and referring to types keep of a state. -/
structure Advances (s : Setup) (st st' : State) : Prop where
  tidy : s.Tidy st'
  /-- Contexts are only appended. -/
  contexts : st.contexts.toList <+: st'.contexts.toList
  /-- Declarations are only appended. -/
  declared : ∀ k, st.units.declared k <+: st'.units.declared k
  /-- No pass ends. -/
  passed : st'.passed = st.passed

/-- An entry of a prefix keeps its position. -/
theorem getElem?_of_isPrefix {α : Type} {xs ys : List α} (h : xs <+: ys) {p : Nat} {x : α}
    (hx : xs[p]? = some x) : ys[p]? = some x := by
  obtain ⟨rest, rfl⟩ := h
  rw [List.getElem?_append_left (List.getElem?_eq_some_iff.1 hx).1]
  exact hx

namespace Advances

theorem trans (h : s.Advances st st') (h' : s.Advances st' st'') : s.Advances st st'' where
  tidy := h'.tidy
  contexts := h.contexts.trans h'.contexts
  declared k := (h.declared k).trans (h'.declared k)
  passed := h'.passed.trans h.passed

theorem mem (h : s.Advances st st') {c : Context} (hc : c ∈ st.contexts) : c ∈ st'.contexts :=
  Array.mem_toList_iff.1 (h.contexts.subset (Array.mem_toList_iff.2 hc))

/-- What advances precedes. -/
theorem precedes (h : s.Advances st st') (htidy : s.Tidy st) : st.Precedes st' where
  contexts {i c} hc := by
    rw [← Array.getElem?_toList] at hc
    refine ⟨c, ?_, rfl, rfl, id⟩
    rw [← Array.getElem?_toList]
    exact getElem?_of_isPrefix h.contexts hc
  outlines hd := ⟨_, getElem?_of_isPrefix (h.declared _) hd, rfl⟩
  objects hc _ hσ := by
    obtain ⟨-, parameters, members, hd, -⟩ := htidy.object hc hσ
    rw [hd]
    exact getElem?_of_isPrefix (h.declared _) hd

end Advances

/-- What changes neither contexts nor declarations keeps a state tidy. -/
theorem Tidy.advances (h : s.Tidy st) (hc : st'.contexts = st.contexts)
    (hd : ∀ k, st'.units.declared k = st.units.declared k) (hp : st'.passed = st.passed) :
    s.Advances st st' where
  tidy :=
    { distinct := hc ▸ h.distinct
      issued := hc ▸ h.issued
      standard := hc ▸ h.standard
      length := fun k => by
        rw [hd, State.declaring, hc]
        exact h.length k
      declares := fun hp hq => by
        rw [State.declaring, hc] at hp
        rw [hd] at hq
        exact h.declares hp hq }
  contexts := hc ▸ List.prefix_rfl
  declared k := hd k ▸ List.prefix_rfl
  passed := hp

theorem Tidy.refl (h : s.Tidy st) : s.Advances st st := h.advances rfl (fun _ => rfl) rfl

theorem passed_push (events : Array Event) (e : Event) (st : State) :
    ({ st with events := events.push e } : State).passed =
      ({ st with events } : State).passed + if e.isPass then 1 else 0 := by
  simp [State.passed, List.countP_append, List.countP_cons]

/-- Whether a step keeps states tidy and only appends. -/
def Keeps (s : Setup) {α : Type} (x : Run α) : Prop :=
  ∀ st, s.Tidy st → Ends x st (fun _ => s.Advances st) (fun _ => s.Advances st)

namespace Keeps

variable {α β : Type}

theorem pure (a : α) : s.Keeps (Pure.pure a : Run α) := fun _ h => h.refl

theorem throw (e : RunError) : s.Keeps (MonadExcept.throw e : Run α) := fun _ h => h.refl

theorem ask (answer : Except Fault α) : s.Keeps (Run.ask answer) := by
  cases answer with
  | ok a => exact pure a
  | error e => exact throw _

theorem bind {x : Run β} {f : β → Run α} (hx : s.Keeps x) (hf : ∀ b, s.Keeps (f b)) :
    s.Keeps (x >>= f) := by
  intro st h
  rw [ends_bind]
  refine (hx st h).mono ?_ fun _ _ h₁ => h₁
  intro b st₁ h₁
  exact (hf b st₁ h₁.tidy).mono (fun _ _ h₂ => h₁.trans h₂) fun _ _ h₂ => h₁.trans h₂

theorem log {e : Event} (he : e.isPass = false) : s.Keeps (Run.log e) := by
  intro st h
  rw [Run.ends_log]
  refine h.advances rfl (fun _ => rfl) ?_
  rw [passed_push, he]
  rfl

theorem unitAt (location : String) : s.Keeps (Run.unitAt location) := fun st h =>
  h.advances rfl (declared_ensure st.units location) rfl

theorem addImport (k : UnitId) (i : Import) : s.Keeps (Run.addImport k i) := by
  intro st h
  rw [Run.ends_addImport]
  split
  · rename_i us hus
    exact h.advances rfl (declared_addImport hus) rfl
  · exact h.refl

end Keeps

/-! ## A new context -/

/-- What finding the strategy of a type leaves.  If the type is declared, its
declaration comes last in its unit, and the context is still missing. -/
structure Announces (st : State) (σ : Strategy) (st' : State) : Prop where
  contexts : st'.contexts = st.contexts
  passed : st'.passed = st.passed
  standard : σ ≠ .custom
  other : ∀ {k}, σ.unit? ≠ some k → st'.units.declared k = st.units.declared k
  unit : ∀ {k}, σ.unit? = some k → ∃ d, st'.units.declared k = st.units.declared k ++ [d] ∧
    ∀ t, (Context.create t σ).Declares (st.units.declared k).length d

/-- A strategy without a unit announces nothing. -/
theorem announces_of_unit? (st : State) (hσ : σ ≠ .custom) (hunit : σ.unit? = none) :
    Announces st σ st where
  contexts := rfl
  passed := rfl
  standard := hσ
  other _ := rfl
  unit hk := by
    rw [hunit] at hk
    cases hk

/-- A new context after its announcement. -/
theorem Tidy.push (h : s.Tidy st) (hnew : st.context? t = none) (ht : s.types.Issued t)
    (ha : Announces st σ st') (hc : st''.contexts = st'.contexts.push (.create t σ))
    (hu : st''.units = st'.units) (hp : st''.passed = st'.passed) : s.Advances st st'' := by
  have hpush : st''.contexts = st.contexts.push (.create t σ) := by rw [hc, ha.contexts]
  have hdeclaring : ∀ k, st''.declaring k =
      st.declaring k ++ if σ.unit? = some k then [.create t σ] else [] := by
    intro k
    rw [State.declaring, hpush, Array.toList_push, List.filter_append]
    congr 1
    by_cases hk : σ.unit? = some k <;> simp [Context.create, hk]
  have hmem : ∀ c ∈ st''.contexts, c ∈ st.contexts ∨ c = .create t σ := fun c hmem =>
    Array.mem_push.1 (hpush ▸ hmem)
  refine ⟨?_, ?_, ?_, hp.trans ha.passed⟩
  · exact {
      distinct := by
        rw [hpush, Array.toList_push, List.map_append, List.map_singleton]
        refine List.nodup_append.2 ⟨h.distinct, List.nodup_singleton _, ?_⟩
        intro x hx y hy hsame
        obtain ⟨c, hmem, rfl⟩ := List.mem_map.1 hx
        have htype : c.type = t := hsame.trans (List.mem_singleton.1 hy)
        have := Array.find?_eq_none.1 hnew c (Array.mem_toList_iff.1 hmem)
        exact this (decide_eq_true htype)
      issued := by
        intro c hc
        rcases hmem c hc with hold | rfl
        · exact h.issued c hold
        · exact ht
      standard := by
        intro c hc
        rcases hmem c hc with hold | rfl
        · exact h.standard c hold
        · exact ha.standard
      length := by
        intro k
        rw [hdeclaring, hu, List.length_append, h.length]
        by_cases hk : σ.unit? = some k
        · obtain ⟨d, hd, -⟩ := ha.unit hk
          rw [if_pos hk, hd, List.length_append]
          rfl
        · rw [if_neg hk, ha.other hk]
          rfl
      declares := by
        intro k p c d hcontext hdeclaration
        rw [hdeclaring] at hcontext
        rw [hu] at hdeclaration
        by_cases hk : σ.unit? = some k
        · obtain ⟨new, hnew, hdeclares⟩ := ha.unit hk
          rw [if_pos hk] at hcontext
          rw [hnew] at hdeclaration
          -- the new context and the new declaration are at the same position
          rcases Nat.lt_or_ge p (st.declaring k).length with hlt | hge
          · rw [List.getElem?_append_left hlt] at hcontext
            rw [List.getElem?_append_left (h.length k ▸ hlt)] at hdeclaration
            exact h.declares hcontext hdeclaration
          · obtain rfl : p = (st.declaring k).length := by
              have := (List.getElem?_eq_some_iff.1 hcontext).1
              rw [List.length_append, List.length_singleton] at this
              omega
            rw [List.getElem?_concat_length] at hcontext
            rw [h.length, List.getElem?_concat_length] at hdeclaration
            cases hcontext
            cases hdeclaration
            rw [h.length]
            exact hdeclares t
        · rw [if_neg hk, List.append_nil] at hcontext
          rw [ha.other hk] at hdeclaration
          exact h.declares hcontext hdeclaration }
  · rw [hpush, Array.toList_push]
    exact List.prefix_append _ _
  · intro k
    rw [hu]
    by_cases hk : σ.unit? = some k
    · obtain ⟨d, hd, -⟩ := ha.unit hk
      rw [hd]
      exact List.prefix_append _ _
    · exact (ha.other hk).symm ▸ List.prefix_rfl

end Setup

end TypeExport
