import TypeExport.Proofs.Run.Advancing
import TypeExport.Proofs.Run.Governed

/-!
# Sequences of calls

A caller may ask a run for single types and members before it is built, after
it, and after a call that failed.  Whatever the calls are and however they end,
the state is tidy, and what was there before precedes it
(`Setup.tidy_stateAfter`).

Completing a context is the only step that changes what is there.  It marks one
context, and when that is the context of an object it sets the members of one
declaration (`Setup.Tidy.complete`).
-/

namespace TypeExport

namespace Setup

variable {s : Setup} {st st' st'' : State} {c : Context} {t : TypeId}

/-! ## Completing a context -/

/-- What completing contexts keeps of a state. -/
structure Follows (s : Setup) (st st' : State) : Prop where
  tidy : s.Tidy st'
  precedes : st.Precedes st'
  /-- No pass ends. -/
  passed : st'.passed = st.passed

theorem Follows.trans (h : s.Follows st st') (h' : s.Follows st' st'') : s.Follows st st'' :=
  ⟨h'.tidy, h.precedes.trans h'.precedes, h'.passed.trans h.passed⟩

theorem Advances.follows (h : s.Advances st st') (htidy : s.Tidy st) : s.Follows st st' :=
  ⟨h.tidy, h.precedes htidy, h.passed⟩

/-- A context that is marked when it is that of a type. -/
def mark (t : TypeId) (c : Context) : Context := if c.type = t then { c with built := true } else c

@[simp] theorem mark_type (t : TypeId) (c : Context) : (mark t c).type = c.type := by
  unfold mark
  split <;> rfl

@[simp] theorem mark_strategy (t : TypeId) (c : Context) : (mark t c).strategy = c.strategy := by
  unfold mark
  split <;> rfl

theorem mark_of_ne (h : c.type ≠ t) : mark t c = c := if_neg h

theorem mark_self (c : Context) : mark c.type c = { c with built := true } := if_pos rfl

theorem built_mark (h : c.built = true) : (mark t c).built = true := by
  unfold mark
  split
  · rfl
  · exact h

/-- The units when the members of the object of a context are set, if it is
one. -/
structure Fills (us : Units) (c : Context) (vs : Units) : Prop where
  length : ∀ k, (vs.declared k).length = (us.declared k).length
  /-- The other declarations are as they were. -/
  other : ∀ {k p}, (∀ name, c.strategy ≠ .object k name p) →
    (vs.declared k)[p]? = (us.declared k)[p]?
  /-- The declaration of the object has new members. -/
  self : ∀ {k name p d}, c.strategy = .object k name p → (us.declared k)[p]? = some d →
    ∃ members, (vs.declared k)[p]? = some (d.withMembers members)

theorem fills_of_not_object (us : Units) (h : ∀ {k name p}, c.strategy ≠ .object k name p) :
    Fills us c us where
  length _ := rfl
  other _ := rfl
  self hσ := absurd hσ h

theorem fills_setMembers (us : Units) {k : UnitId} {name : String} {p : Nat}
    (hσ : c.strategy = .object k name p) (members : List MemberDeclaration) :
    Fills us c (us.setMembers k p members) where
  length j := by
    rw [declared_setMembers]
    split
    · exact List.length_modify _ _ _
    · rfl
  other {j q} hother := by
    rw [declared_setMembers]
    split
    · rename_i hj
      subst hj
      refine List.getElem?_modify_ne _ _ fun hq => ?_
      exact hother name (hq ▸ hσ)
    · rfl
  self {j name' q d} hself hd := by
    cases hσ.symm.trans hself
    refine ⟨members, ?_⟩
    rw [declared_setMembers, if_pos rfl, List.getElem?_modify_eq, hd]
    rfl

/-- The context of a type is complete, and the others are as they were. -/
structure Marks (st : State) (c : Context) (st' : State) : Prop where
  built : Built st' c.type
  others : ∀ {x}, x ∈ st.contexts → x.type ≠ c.type → x ∈ st'.contexts

section Complete

variable (h : s.Tidy st) (hc : c ∈ st.contexts) (hbuilt : c.built = false)
  (hcontexts : st'.contexts = st.contexts.map (mark c.type)) (hfills : Fills st.units c st'.units)
  (hpassed : st'.passed = st.passed)
include h hc

/-- The declarations of two contexts are at different places. -/
theorem Tidy.object_ne {x : Context} {k : UnitId} {p : Nat} (hx : (st.declaring k)[p]? = some x)
    (hne : x.type ≠ c.type) (name : String) : c.strategy ≠ .object k name p := by
  intro hσ
  cases hx.symm.trans (h.object hc hσ).1
  exact hne rfl

include hcontexts

omit h hc in
theorem declaring_mark (k : UnitId) : st'.declaring k = (st.declaring k).map (mark c.type) := by
  rw [State.declaring, State.declaring, hcontexts, Array.toList_map, List.filter_map]
  congr 1
  refine List.filter_congr fun x _ => ?_
  simp

include hfills

/-- A declaration is that of its context after the context is marked. -/
theorem Tidy.declares_mark {x : Context} {k : UnitId} {p : Nat} {d : Declaration}
    (hx : (st.declaring k)[p]? = some x) (hd : (st'.units.declared k)[p]? = some d) :
    (mark c.type x).Declares p d := by
  by_cases htype : x.type = c.type
  · have hmem : x ∈ st.contexts :=
      Array.mem_toList_iff.1 (List.mem_of_mem_filter (List.mem_of_getElem? hx))
    cases h.unique hmem hc htype
    rw [mark_self]
    have hlt : p < (st.units.declared k).length :=
      h.length k ▸ (List.getElem?_eq_some_iff.1 hx).1
    have hold := h.declares hx (List.getElem?_eq_getElem hlt)
    generalize hget : (st.units.declared k)[p] = old at hold
    have hget' : (st.units.declared k)[p]? = some old := hget ▸ List.getElem?_eq_getElem hlt
    have hplace : c.strategy.unit? = some k :=
      of_decide_eq_true (List.mem_filter.1 (List.mem_of_getElem? hx)).2
    cases hold with
    | nativeEnum =>
      rw [hfills.other fun _ => by simp, hget'] at hd
      cases hd
      exact .nativeEnum
    | fixedStrings =>
      rw [hfills.other fun _ => by simp, hget'] at hd
      cases hd
      exact .fixedStrings
    | object =>
      cases hplace
      obtain ⟨members, hnew⟩ := hfills.self rfl hget'
      cases hnew.symm.trans hd
      exact .object fun hfalse => by cases hfalse
  · rw [mark_of_ne htype]
    rw [hfills.other (h.object_ne hc hx htype)] at hd
    exact h.declares hx hd

/-- Marking a context whose object has its members keeps a state tidy. -/
theorem Tidy.tidy_mark : s.Tidy st' := by
  have hmem : ∀ x ∈ st'.contexts, ∃ y ∈ st.contexts, mark c.type y = x := fun x hx =>
    Array.mem_map.1 (hcontexts ▸ hx)
  exact {
    distinct := by
      have htypes : (·.type) ∘ mark c.type = (·.type) := funext (mark_type c.type)
      rw [hcontexts, Array.toList_map, List.map_map, htypes]
      exact h.distinct
    issued := by
      intro x hx
      obtain ⟨y, hy, rfl⟩ := hmem x hx
      rw [mark_type]
      exact h.issued y hy
    standard := by
      intro x hx
      obtain ⟨y, hy, rfl⟩ := hmem x hx
      rw [mark_strategy]
      exact h.standard y hy
    length := by
      intro k
      rw [declaring_mark hcontexts, List.length_map, hfills.length]
      exact h.length k
    declares := by
      intro k p x d hx hd
      rw [declaring_mark hcontexts, List.getElem?_map] at hx
      obtain ⟨y, hy, rfl⟩ := Option.map_eq_some_iff.1 hx
      exact h.declares_mark hc hcontexts hfills hy hd }

include hbuilt

/-- What was complete before is kept. -/
theorem Tidy.precedes_mark : st.Precedes st' where
  contexts {i x} hx := by
    refine ⟨mark c.type x, ?_, mark_type _ x, mark_strategy _ x, built_mark⟩
    rw [hcontexts, Array.getElem?_map, hx]
    rfl
  outlines {k p d} hd := by
    by_cases hself : ∃ name, c.strategy = .object k name p
    · obtain ⟨name, hσ⟩ := hself
      obtain ⟨members, hnew⟩ := hfills.self hσ hd
      exact ⟨_, hnew, withMembers_withMembers members [] d⟩
    · exact ⟨d, (hfills.other fun name hσ => hself ⟨name, hσ⟩).trans hd, rfl⟩
  objects {x k name p} hx hxbuilt hσ := by
    refine hfills.other (h.object_ne hc (h.object hx hσ).1 fun htype => ?_)
    -- the context that is marked was incomplete
    cases h.unique hx hc htype
    rw [hbuilt] at hxbuilt
    cases hxbuilt

include hpassed

theorem Tidy.complete : s.Follows st st' ∧ Marks st c st' := by
  have hmark : ∀ {x}, x ∈ st.contexts → mark c.type x ∈ st'.contexts := fun hx =>
    hcontexts ▸ Array.mem_map.2 ⟨_, hx, rfl⟩
  refine ⟨⟨h.tidy_mark hc hcontexts hfills, h.precedes_mark hc hbuilt hcontexts hfills, hpassed⟩,
    ⟨_, hmark hc, mark_type _ c, by rw [mark_self]⟩, ?_⟩
  intro x hx hne
  rw [← mark_of_ne hne]
  exact hmark hx

end Complete

/-- A context that is there can be marked. -/
theorem ends_mark (h : s.Tidy st) (hc : c ∈ st.contexts) (hbuilt : c.built = false) {us : Units}
    (hfills : Fills st.units c us) :
    Ends (Run.markBuilt c.type) { st with units := us }
      (fun _ st' => s.Follows st st' ∧ Marks st c st') (fun _ => s.Follows st) := by
  have hhas : ({ st with units := us } : State).Has c.type c.strategy := has_of_mem hc
  rw [Run.ends_markBuilt hhas]
  exact h.complete hc hbuilt rfl hfills rfl

theorem ends_completeContext_follows (L : s.Lawful) (h : s.Tidy st) (hc : c ∈ st.contexts)
    (hbuilt : c.built = false) :
    Ends (s.completeContext s.tools c) st (fun _ st' => s.Follows st st' ∧ Marks st c st')
      (fun _ => s.Follows st) := by
  unfold completeContext
  have plain : (∀ {k name p}, c.strategy ≠ .object k name p) →
      Ends (Run.markBuilt c.type) st (fun _ st' => s.Follows st st' ∧ Marks st c st')
        (fun _ => s.Follows st) := fun hne => ends_mark h hc hbuilt (fills_of_not_object _ hne)
  cases hσ : c.strategy with
  | object k name p =>
    have members : ∀ {st₁}, s.Advances st st₁ → ∀ ms,
        Ends (do Run.setMembers k p ms; Run.markBuilt c.type) st₁
          (fun _ st' => s.Follows st st' ∧ Marks st c st') (fun _ => s.Follows st) := by
      intro st₁ advanced ms
      have before := advanced.follows h
      rw [ends_bind]
      unfold Run.setMembers
      rw [ends_bind, ends_get]
      split
      · exact before
      · split
        · rw [ends_modify]
          refine (ends_mark advanced.tidy (advanced.mem hc) hbuilt
            (fills_setMembers _ hσ ms)).mono ?_ fun _ _ hf => before.trans hf
          rintro _ st₂ ⟨follows, marks⟩
          exact ⟨before.trans follows, marks.built, fun hx => marks.others (advanced.mem hx)⟩
        · exact before
    simp only [completeDeclaration, bind_assoc]
    rw [ends_bind]
    refine ((Keeps.ask _) st h).mono ?_ fun _ _ hb => hb.follows h
    intro d st₁ advanced
    rw [ends_bind]
    refine (keeps_resolveMembers L k d [] d.members st₁ advanced.tidy).mono ?_
      fun _ _ hb => (advanced.trans hb).follows h
    intro ms st₂ advanced'
    exact members (advanced.trans advanced') ms
  | custom => exact absurd hσ (h.standard c hc)
  | _ => exact plain (by simp [hσ])

/-- Contexts of other types are still incomplete. -/
theorem Marks.rest (marks : Marks st c st') {cs : List Context} (hc : c.type ∉ cs.map (·.type))
    (hcs : ∀ x ∈ cs, x ∈ st.contexts ∧ x.built = false) :
    ∀ x ∈ cs, x ∈ st'.contexts ∧ x.built = false := by
  intro x hx
  obtain ⟨hmem, hbuilt⟩ := hcs x hx
  refine ⟨marks.others hmem fun htype => ?_, hbuilt⟩
  exact hc (htype ▸ List.mem_map_of_mem hx)

/-- A context that is incomplete is met as such when its turn comes. -/
theorem Tidy.isBuilt_eq_false (h : s.Tidy st) (hc : c ∈ st.contexts) (hbuilt : c.built = false) :
    st.isBuilt c.type = false :=
  Bool.eq_false_iff.2 fun htrue => not_built h.distinct hc hbuilt (isBuilt_iff.1 htrue)

theorem ends_completeAll_follows (L : s.Lawful) (h : s.Tidy st) {cs : List Context}
    (hdistinct : (cs.map (·.type)).Nodup) (hcs : ∀ c ∈ cs, c ∈ st.contexts ∧ c.built = false) :
    Ends (s.completeAll s.tools cs) st
      (fun n st' => s.Follows st st' ∧ (∀ c ∈ cs, Built st' c.type) ∧ n = cs.length)
      (fun _ => s.Follows st) := by
  induction cs generalizing st with
  | nil => exact ⟨h.refl.follows h, by simp, rfl⟩
  | cons c cs ih =>
    obtain ⟨hc, hbuilt⟩ := hcs c List.mem_cons_self
    rw [List.map_cons, List.nodup_cons] at hdistinct
    rw [completeAll, ends_bind, ends_get, h.isBuilt_eq_false hc hbuilt, if_neg Bool.false_ne_true,
      ends_bind]
    refine (ends_completeContext_follows L h hc hbuilt).mono ?_ fun _ _ hb => hb
    rintro _ st₁ ⟨follows, marks⟩
    have rest := marks.rest hdistinct.1 fun x hx => hcs x (List.mem_cons_of_mem _ hx)
    rw [ends_bind]
    refine (ih follows.tidy hdistinct.2 rest).mono ?_ fun _ _ hb => follows.trans hb
    rintro n st₂ ⟨follows', hall, hn⟩
    refine ⟨follows.trans follows', fun x hx => ?_, congrArg (· + 1) hn⟩
    rcases List.mem_cons.1 hx with rfl | htail
    · obtain ⟨y, hy, htype, hybuilt⟩ := marks.built
      obtain ⟨z, hz, htype', -, hkept⟩ := follows'.precedes.exists_mem hy
      exact ⟨z, hz, htype'.trans htype, hkept hybuilt⟩
    · exact hall x htail

/-! ## Passes -/

/-- What passes keep of a state. -/
structure Proceeds (s : Setup) (st st' : State) : Prop where
  tidy : s.Tidy st'
  precedes : st.Precedes st'
  /-- A pass that ends has completed a context. -/
  passed : st'.passed + (builtTypes st).length ≤ st.passed + (builtTypes st').length

theorem Proceeds.trans (h : s.Proceeds st st') (h' : s.Proceeds st' st'') :
    s.Proceeds st st'' := by
  refine ⟨h'.tidy, h.precedes.trans h'.precedes, ?_⟩
  have := h.passed
  have := h'.passed
  omega

theorem later_of_precedes (h : st.Precedes st') : Later st st' where
  has hσ := by
    obtain ⟨x, hx, rfl, rfl⟩ := exists_context hσ
    obtain ⟨x', hx', htype, hstrategy, -⟩ := h.exists_mem hx
    rw [← htype, ← hstrategy]
    exact has_of_mem hx'
  built := by
    rintro t ⟨x, hx, rfl, hbuilt⟩
    obtain ⟨x', hx', htype, -, hkept⟩ := h.exists_mem hx
    exact ⟨x', hx', htype, hkept hbuilt⟩

theorem Follows.proceeds (h : s.Follows st st') (htidy : s.Tidy st) : s.Proceeds st st' := by
  refine ⟨h.tidy, h.precedes, ?_⟩
  have := length_builtTypes_le htidy.distinct (later_of_precedes h.precedes)
  rw [h.passed]
  omega

/-- A pass that ends, and is reported. -/
theorem Follows.proceeds_log (h : s.Follows st st') (htidy : s.Tidy st) (hc : c ∈ st.incomplete)
    (hbuilt : Built st' c.type) (number scanned built : Nat) :
    s.Proceeds st { st' with events := st'.events.push (.passed number scanned built) } := by
  obtain ⟨hmem, hincomplete⟩ := mem_incomplete.1 hc
  have hlt := length_builtTypes_lt htidy.distinct (later_of_precedes h.precedes) hbuilt
    (not_built htidy.distinct hmem hincomplete)
  refine ⟨⟨h.tidy.distinct, h.tidy.issued, h.tidy.standard, h.tidy.length, h.tidy.declares⟩,
    ⟨h.precedes.contexts, h.precedes.outlines, h.precedes.objects⟩, ?_⟩
  rw [passed_push]
  show st'.passed + 1 + _ ≤ st.passed + (builtTypes st').length
  rw [h.passed]
  omega

theorem ends_passes_proceeds (L : s.Lawful) (allowed number : Nat) (h : s.Tidy st) :
    Ends (s.passes s.tools allowed number) st
      (fun _ st' => s.Proceeds st st' ∧ st'.incomplete = []) (fun _ => s.Proceeds st) := by
  have stay : ∀ {st}, s.Tidy st → s.Proceeds st st := fun h => (h.refl.follows h).proceeds h
  induction allowed generalizing st number with
  | zero =>
    rw [passes, ends_bind, ends_get]
    split
    · rename_i hnone
      exact ⟨stay h, List.isEmpty_iff.1 hnone⟩
    · exact stay h
  | succ allowed ih =>
    rw [passes, ends_bind, ends_get]
    split
    · rename_i hnone
      exact ⟨stay h, hnone⟩
    · rename_i hsome
      obtain ⟨c, hc⟩ := List.exists_mem_of_ne_nil _ hsome
      have hdistinct : (st.incomplete.map (·.type)).Nodup :=
        h.distinct.sublist ((List.filter_sublist).map _)
      rw [ends_bind]
      refine (ends_completeAll_follows L h hdistinct fun x hx => mem_incomplete.1 hx).mono ?_
        fun _ _ hb => hb.proceeds h
      rintro _ st₁ ⟨follows, hall, -⟩
      have reported := follows.proceeds_log h hc (hall c hc)
      rw [ends_bind, Run.ends_log]
      refine (ih _ (reported _ _ _).tidy).mono ?_ fun _ _ hb => (reported _ _ _).trans hb
      rintro _ st₂ ⟨proceeds, hnone⟩
      exact ⟨(reported _ _ _).trans proceeds, hnone⟩

/-! ## Building -/

/-- Resolving the roots gives them contexts. -/
theorem ends_resolveAll_knows {below : Toolkit} (hbelow : s.KeepsTools below) (h : s.Tidy st)
    (ts : List TypeId) :
    Ends (resolveAll below ts) st
      (fun _ st' => s.Advances st st' ∧ ∀ t ∈ ts, ∃ c ∈ st'.contexts, c.type = t)
      (fun _ => s.Advances st) := by
  induction ts generalizing st with
  | nil => exact ⟨h.refl, by simp⟩
  | cons t ts ih =>
    rw [resolveAll, ends_bind]
    refine (hbelow.resolve h).mono ?_ fun _ _ hb => hb
    rintro σ st₁ ⟨advanced, c, hc, htype, -⟩
    refine (ih advanced.tidy).mono ?_ fun _ _ hb => advanced.trans hb
    rintro _ st₂ ⟨advanced', hall⟩
    refine ⟨advanced.trans advanced', fun x hx => ?_⟩
    rcases List.mem_cons.1 hx with rfl | htail
    · exact ⟨c, advanced'.mem hc, htype⟩
    · exact hall x htail

/-- What a run that was built leaves. -/
structure Settles (s : Setup) (st st' : State) : Prop where
  proceeds : s.Proceeds st st'
  /-- No context is incomplete. -/
  complete : st'.incomplete = []
  /-- The roots have contexts. -/
  root : ∀ t ∈ s.roots, ∃ c ∈ st'.contexts, c.type = t
  valid : s.options.validate = .ok ()

theorem ends_build_settles (L : s.Lawful) (h : s.Tidy st) :
    Ends s.build st (fun _ => s.Settles st) (fun _ => s.Proceeds st) := by
  unfold build buildStep
  rw [ends_bind, Run.ends_ofExcept]
  cases hvalid : s.options.validate with
  | error cause => exact (h.refl.follows h).proceeds h
  | ok =>
    simp only [Except.mapError]
    rw [ends_bind]
    refine (ends_resolveAll_knows (keepsTools L (s.depth + 1)) h s.roots).mono ?_
      fun _ _ hb => (hb.follows h).proceeds h
    rintro _ st₁ ⟨advanced, hroots⟩
    have before := (advanced.follows h).proceeds h
    refine (ends_passes_proceeds L _ _ advanced.tidy).mono ?_ fun _ _ hb => before.trans hb
    rintro _ st₂ ⟨proceeds, hnone⟩
    refine ⟨before.trans proceeds, hnone, fun t ht => ?_, hvalid⟩
    obtain ⟨c, hc, rfl⟩ := hroots t ht
    obtain ⟨c', hc', htype, -⟩ := proceeds.precedes.exists_mem hc
    exact ⟨c', hc', htype⟩

/-! ## What changes nothing -/

/-- A context is found by its type. -/
theorem Tidy.context? (h : s.Tidy st) (hc : c ∈ st.contexts) : st.context? c.type = some c := by
  cases hfind : st.context? c.type with
  | none =>
    have := Array.find?_eq_none.1 hfind c hc
    exact absurd (decide_eq_true rfl) this
  | some c' =>
    have htype : c'.type = c.type := by simpa using Array.find?_some hfind
    rw [h.unique (Array.mem_of_find?_eq_some hfind) hc htype]

theorem get_bind_apply {α : Type} (f : State → Run α) (st : State) : (get >>= f) st = f st st :=
  rfl

/-- Resolving a type is a step whose parts are resolved one level down. -/
theorem resolve_eq_resolveStep (t : TypeId) :
    s.resolve t = s.resolveStep (s.toolkit s.depth) t := rfl

/-- Resolving a type that has a context changes nothing. -/
theorem resolve_of_context? (h : st.context? t = some c) : s.resolve t st = .ok c.strategy st := by
  rw [resolve_eq_resolveStep, resolveStep, get_bind_apply, h]
  rfl

theorem Tidy.resolve_eq (h : s.Tidy st) (hc : c ∈ st.contexts) :
    s.resolve c.type st = .ok c.strategy st :=
  resolve_of_context? (h.context? hc)

theorem Tidy.resolveAll_eq (h : s.Tidy st) {ts : List TypeId}
    (hts : ∀ t ∈ ts, ∃ c ∈ st.contexts, c.type = t) :
    resolveAll s.tools ts st = .ok () st := by
  induction ts with
  | nil => rfl
  | cons t ts ih =>
    obtain ⟨c, hc, rfl⟩ := hts t List.mem_cons_self
    have hresolve : s.tools.resolve c.type st = .ok c.strategy st := h.resolve_eq hc
    simp only [resolveAll, bind, EStateM.bind, hresolve]
    exact ih fun x hx => hts x (List.mem_cons_of_mem _ hx)

theorem passes_eq (hnone : st.incomplete = []) (allowed number : Nat) :
    s.passes s.tools allowed number st = .ok () st := by
  cases allowed with
  | zero =>
    rw [passes, get_bind_apply, hnone]
    rfl
  | succ allowed =>
    rw [passes, get_bind_apply, hnone]
    rfl

/-- Building again changes nothing. -/
theorem Settles.build_eq (h : s.Settles st st') : s.build st' = .ok () st' := by
  have hroots := h.proceeds.tidy.resolveAll_eq h.root
  simp only [build, buildStep, h.valid, Except.mapError, Run.ofExcept, bind, EStateM.bind, pure,
    EStateM.pure, hroots]
  exact passes_eq h.complete _ _

/-! ## Calls -/

/-- What a caller may ask of a run. -/
inductive Call where
  /-- The strategy of a type. -/
  | resolve (type : TypeId)
  /-- A reference to a type from a unit. -/
  | reference (unit : UnitId) (attributes : Option Attributes) (type : TypeId)
  /-- A reference to a type from a unit, nullable when the policy says so. -/
  | importType (unit : UnitId) (attributes : Option Attributes) (type : TypeId)
  /-- The declaration of a member in a unit. -/
  | member (unit : UnitId) (owner : Descriptor) (m : Member)
  /-- The id of the unit at a location. -/
  | unitAt (location : String)
  /-- Everything that the roots need. -/
  | build

/-- The steps of a call. -/
def perform (s : Setup) : Call → Run Unit
  | .resolve type => do let _ ← s.resolve type
  | .reference unit attributes type => do let _ ← s.reference unit attributes type
  | .importType unit attributes type => do let _ ← s.importType unit attributes type
  | .member unit owner m => do let _ ← s.resolveMember unit owner m
  | .unitAt location => do let _ ← Run.unitAt location
  | .build => s.build

/-- The state after a call, which may fail. -/
def after (s : Setup) (st : State) (call : Call) : State :=
  match s.perform call st with
  | .ok _ st' => st'
  | .error _ st' => st'

/-- The state after calls from the empty state. -/
def stateAfter (s : Setup) (calls : List Call) : State := calls.foldl s.after {}

theorem proceeds_after (L : s.Lawful) (h : s.Tidy st) (call : Call) :
    s.Proceeds st (s.after st call) := by
  have ends : Ends (s.perform call) st (fun _ => s.Proceeds st) (fun _ => s.Proceeds st) := by
    have keeps : ∀ {α : Type} {x : Run α}, s.Keeps x →
        Ends (do let _ ← x) st (fun _ => s.Proceeds st) (fun _ => s.Proceeds st) := fun hx =>
      ((hx.bind fun _ => .pure ()) st h).mono (fun _ _ ha => (ha.follows h).proceeds h)
        fun _ _ ha => (ha.follows h).proceeds h
    cases call with
    | resolve type => exact keeps ((keepsTools L (s.depth + 1)).keeps_resolve type)
    | reference unit attributes type =>
      exact keeps ((keepsTools L (s.depth + 1)).reference unit attributes type)
    | importType unit attributes type => exact keeps (keeps_importType L unit attributes type)
    | member unit owner m => exact keeps (keeps_resolveMember L unit owner m)
    | unitAt location => exact keeps (.unitAt location)
    | build => exact (ends_build_settles L h).mono (fun _ _ hb => hb.proceeds) fun _ _ hb => hb
  unfold after
  unfold Ends at ends
  cases hcall : s.perform call st with
  | ok _ st' =>
    rw [hcall] at ends
    exact ends
  | error _ st' =>
    rw [hcall] at ends
    exact ends

theorem proceeds_foldl (L : s.Lawful) (h : s.Tidy st) (calls : List Call) :
    s.Proceeds st (calls.foldl s.after st) := by
  induction calls generalizing st with
  | nil => exact (h.refl.follows h).proceeds h
  | cons call calls ih =>
    have first := proceeds_after L h call
    exact first.trans (ih first.tidy)

/-- After any calls the state is tidy and precedes those after more calls.
Resolving a type that has a context changes nothing, and neither does building
what was built. -/
theorem tidy_stateAfter {r : Rules} (h : s.Governed r) (calls : List Call) :
    s.Tidy (s.stateAfter calls) ∧
      (∀ more, (s.stateAfter calls).Precedes (s.stateAfter (calls ++ more))) ∧
      (∀ c ∈ (s.stateAfter calls).contexts,
        s.resolve c.type (s.stateAfter calls) = .ok c.strategy (s.stateAfter calls)) ∧
      ∀ st, s.build (s.stateAfter calls) = .ok () st → s.build st = .ok () st := by
  have tidy := (proceeds_foldl h.lawful tidy_empty calls).tidy
  refine ⟨tidy, fun more => ?_, fun c hc => tidy.resolve_eq hc, fun st hst => ?_⟩
  · rw [stateAfter, stateAfter, List.foldl_append]
    exact (proceeds_foldl h.lawful tidy more).precedes
  · exact ((ends_build_settles h.lawful tidy).good_of_eq hst).build_eq

/-- The units of a run are those of the state after building. -/
theorem units_stateAfter_build {us : Units} (h : s.units = .ok us) :
    (s.stateAfter [.build]).units = us := by
  unfold units finalState at h
  simp only [stateAfter, List.foldl_cons, List.foldl_nil, after, perform]
  cases hrun : s.build {} with
  | ok _ st =>
    rw [EStateM.run, hrun] at h
    exact Except.ok.inj h
  | error e st =>
    rw [EStateM.run, hrun] at h
    cases h

/-- A shop that is built is tidy, and has the units of its run. -/
theorem tidy_stateAfter_shop : shop.Governed shopRules ∧ shop.Tidy (shop.stateAfter [.build]) ∧
    shop.units = .ok (shop.stateAfter [.build]).units := by
  refine ⟨shop_governed, (tidy_stateAfter shop_governed [.build]).1, ?_⟩
  obtain ⟨us, hus, -⟩ := exists_shop_units
  rw [units_stateAfter_build hus]
  exact hus

end Setup

end TypeExport
