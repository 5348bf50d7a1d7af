import Mathlib.Algebra.GroupWithZero.Nat
import TypeExport.Proofs.Faultless
import TypeExport.Proofs.Run.Creating

/-!
# Passes

A run completes contexts in passes.  A pass completes the contexts that were
incomplete when it began, and leaves those that are created meanwhile as they are
(`Setup.ends_pass`).  So the passes cut the contexts, in the order of their creation,
into slices: a pass completes the objects behind those that were there when the pass
before it began, up to those that were there when it began itself (`Slices`).

What the passes of a whole run report, and what they complete, is read off the
slices (`Setup.accounts_of_finalState`).
-/

namespace TypeExport

/-- A context that is complete. -/
def Context.completed (c : Context) : Context := { c with built := true }

/-- Whether a strategy declares an object type. -/
def Strategy.isObject : Strategy → Bool
  | .object .. => true
  | _ => false

/-- A pass, by the state in which it begins and the state in which its last context is
complete. -/
structure Pass where
  before : State
  after : State

namespace Pass

/-- How many contexts there are when a pass begins. -/
def scanned (p : Pass) : Nat := p.before.contexts.size

/-- The contexts that a pass completes, in order. -/
def pending (p : Pass) : List Context := p.before.incomplete

/-- How many contexts a pass completes. -/
def built (p : Pass) : Nat := p.pending.length

/-- The types of the contexts that a pass completes, with their strategies. -/
def entries (p : Pass) : List (TypeId × Strategy) := p.pending.map fun c => (c.type, c.strategy)

/-- The state after the report of a pass. -/
def reported (p : Pass) (number : Nat) : State :=
  { p.after with events := p.after.events.push (.passed number p.scanned p.built) }

end Pass

/-! ## Slices -/

section Slices

variable {E : List (TypeId × Strategy)} {m n : Nat} {p : Pass} {ps : List Pass}
  {e : TypeId × Strategy}

/-- Whether a pass completes what starts incomplete behind the first contexts, up to
those that there are when it begins. -/
structure Slice (E : List (TypeId × Strategy)) (m : Nat) (p : Pass) : Prop where
  lt : m < p.scanned
  le : p.scanned ≤ E.length
  entries : p.entries = ((E.take p.scanned).drop m).filter (·.2.startsIncomplete)

/-- Whether passes complete, slice by slice, what starts incomplete behind the first
contexts. -/
inductive Slices (E : List (TypeId × Strategy)) : Nat → List Pass → Prop
  | nil {m : Nat} : (∀ e ∈ E.drop m, e.2.startsIncomplete = false) → Slices E m []
  | cons {m : Nat} {p : Pass} {ps : List Pass} :
      Slice E m p → Slices E p.scanned ps → Slices E m (p :: ps)

/-- What stands in a slice of a list without duplicates. -/
theorem mem_drop_take_iff {α : Type} {xs : List α} {x : α} {k : Nat} (hd : xs.Nodup)
    (hx : xs[n]? = some x) : x ∈ (xs.take k).drop m ↔ m ≤ n ∧ n < k := by
  rw [List.mem_iff_getElem?]
  simp only [List.getElem?_drop, List.getElem?_take]
  constructor
  · rintro ⟨i, hi⟩
    split at hi
    · next hlt =>
      have hlength := (List.getElem?_eq_some_iff.1 hx).1
      obtain rfl : n = m + i := (List.getElem?_inj hlength hd).1 (hx.trans hi.symm)
      exact ⟨Nat.le_add_right m i, hlt⟩
    · cases hi
  · rintro ⟨hle, hlt⟩
    refine ⟨n - m, ?_⟩
    rw [Nat.add_sub_of_le hle, if_pos hlt]
    exact hx

/-- A pass completes what starts incomplete at the positions of its slice. -/
theorem Slice.mem_entries_iff (h : Slice E m p) (hd : E.Nodup) (he : E[n]? = some e)
    (hstarts : e.2.startsIncomplete = true) : e ∈ p.entries ↔ m ≤ n ∧ n < p.scanned := by
  rw [h.entries, List.mem_filter, mem_drop_take_iff hd he]
  exact and_iff_left hstarts

namespace Slices

/-- A later pass begins with more contexts. -/
theorem growing (h : Slices E m ps) : (m :: ps.map (·.scanned)).Pairwise (· < ·) := by
  induction h with
  | nil => exact List.pairwise_singleton _ _
  | cons slice _ ih =>
    refine List.pairwise_cons.2 ⟨fun k hk => ?_, ih⟩
    rcases List.mem_cons.1 hk with rfl | hlater
    · exact slice.lt
    · exact Nat.lt_trans slice.lt ((List.pairwise_cons.1 ih).1 k hlater)

/-- The slices in order are what starts incomplete. -/
theorem flatMap_entries (h : Slices E m ps) :
    ps.flatMap (·.entries) = (E.drop m).filter (·.2.startsIncomplete) := by
  induction h with
  | nil hnone =>
    rw [List.flatMap_nil, eq_comm, List.filter_eq_nil_iff]
    simpa using hnone
  | @cons m p ps slice _ ih =>
    have hcut : E.drop m = (E.take p.scanned).drop m ++ E.drop p.scanned := by
      have hle : m ≤ (E.take p.scanned).length := by
        rw [List.length_take, Nat.min_eq_left slice.le]
        exact Nat.le_of_lt slice.lt
      rw [← List.drop_append_of_le_length hle, List.take_append_drop]
    rw [List.flatMap_cons, ih, slice.entries, hcut, List.filter_append]

/-- What starts incomplete is completed by the first pass that begins behind it. -/
theorem mem_entries_iff (h : Slices E m ps) (hd : E.Nodup) (he : E[n]? = some e)
    (hstarts : e.2.startsIncomplete = true) {earlier later : List Pass}
    (hps : ps = earlier ++ p :: later) :
    e ∈ p.entries ↔ m ≤ n ∧ n < p.scanned ∧ ∀ q ∈ earlier, q.scanned ≤ n := by
  induction h generalizing earlier with
  | nil => simp at hps
  | @cons m q ps slice slices ih =>
    cases earlier with
    | nil =>
      obtain ⟨rfl, rfl⟩ := List.cons.inj hps
      simpa using slice.mem_entries_iff hd he hstarts
    | cons q' earlier =>
      obtain ⟨rfl, hrest⟩ := List.cons.inj hps
      have hlt := slice.lt
      rw [ih hrest, List.forall_mem_cons]
      constructor
      · rintro ⟨hq, hp, hall⟩
        exact ⟨by omega, hp, hq, hall⟩
      · rintro ⟨-, hp, hq, hall⟩
        exact ⟨hq, hp, hall⟩

end Slices

end Slices

namespace Setup

variable {s : Setup} {r : Rules} {st st' : State} {c : Context} {f : Context → Context}
  {fresh : List Context} {m number : Nat}

/-! ## Completing contexts -/

/-- A new context is that of another type than the contexts before it. -/
theorem GoesOn.type_ne (h : s.GoesOn f fresh st st') (hf : ∀ c, (f c).type = c.type)
    (hd : (st'.contexts.toList.map (·.type)).Nodup) {x : Context} (hx : x ∈ fresh)
    (hc : c ∈ st.contexts) : x.type ≠ c.type := by
  rw [h.contexts, List.map_append] at hd
  intro htype
  refine (List.nodup_append.1 hd).2.2 c.type ?_ x.type (List.mem_map_of_mem hx) htype.symm
  exact List.mem_map.2 ⟨f c, List.mem_map_of_mem (Array.mem_toList_iff.2 hc), hf c⟩

/-- A context that is marked when it is that of one of several types. -/
def markAll (ts : List TypeId) (c : Context) : Context := ts.foldl (fun c t => mark t c) c

theorem markAll_cons (t : TypeId) (ts : List TypeId) : markAll (t :: ts) = markAll ts ∘ mark t :=
  rfl

theorem markAll_of_not_mem {ts : List TypeId} (h : c.type ∉ ts) : markAll ts c = c := by
  induction ts with
  | nil => rfl
  | cons t ts ih =>
    rw [markAll_cons, Function.comp_apply, mark_of_ne (List.ne_of_not_mem_cons h),
      ih (List.not_mem_of_not_mem_cons h)]

theorem markAll_of_mem {ts : List TypeId} (h : c.type ∈ ts) : markAll ts c = c.completed := by
  induction ts generalizing c with
  | nil => cases h
  | cons t ts ih =>
    rw [markAll_cons, Function.comp_apply]
    by_cases hrest : c.type ∈ ts
    · rw [ih (by rwa [mark_type])]
      unfold mark
      split <;> rfl
    · obtain rfl : c.type = t := (List.mem_cons.1 h).resolve_right hrest
      rw [markAll_of_not_mem (by rwa [mark_type]), mark_self, Context.completed]

section Completing

variable (L : s.Lawful) (hr : s.RuledBy r) (h : s.Tidy st)
include L hr h

/-- Completing a context marks it, behind the contexts that its members add. -/
theorem ends_completeContext_goesOn (hc : c ∈ st.contexts) (hbuilt : c.built = false) :
    Ends (s.completeContext s.tools c) st
      (fun _ st' => ∃ fresh, s.GoesOn (mark c.type) fresh st st')
      fun _ _ => True := by
  have marking : Ends (s.completeContext s.tools c) st (fun _ st' => ∃ st₁, s.Adds st st₁ ∧
      st'.contexts = st₁.contexts.map (mark c.type) ∧ st'.events = st₁.events)
      fun _ _ => True := by
    unfold completeContext
    rw [ends_bind]
    refine (adds_completeDeclaration hr c.type c.strategy st).mono ?_ fun _ _ _ => trivial
    intro _ st₁ adds
    unfold Run.markBuilt
    rw [ends_bind, ends_get]
    dsimp only
    split
    · exact ⟨st₁, adds, rfl, rfl⟩
    · trivial
  refine (marking.and (ends_completeContext_follows L h hc hbuilt)).mono ?_ fun _ _ _ => trivial
  rintro _ st' ⟨⟨st₁, ⟨fresh, adds⟩, hcontexts, hevents⟩, follows, -⟩
  have marked : s.GoesOn (mark c.type) [] st₁ st' := by
    refine ⟨by simp [hcontexts], by simp, by simp [State.creations, hevents], ?_⟩
    simp only [State.reports, hevents]
  have hdistinct : (st₁.contexts.toList.map (·.type)).Nodup := by
    have := follows.tidy.distinct
    simpa [hcontexts, Function.comp_def] using this
  have hkept : ∀ x ∈ fresh, mark c.type x = x := fun x hx =>
    mark_of_ne (adds.type_ne (fun _ => rfl) hdistinct hx hc)
  have both := adds.trans marked hkept
  rw [List.append_nil] at both
  exact ⟨fresh, both⟩

theorem ends_completeAll_goesOn {cs : List Context} (hdistinct : (cs.map (·.type)).Nodup)
    (hcs : ∀ c ∈ cs, c ∈ st.contexts ∧ c.built = false) :
    Ends (s.completeAll s.tools cs) st
      (fun _ st' => ∃ fresh, s.GoesOn (markAll (cs.map (·.type))) fresh st st')
      fun _ _ => True := by
  induction cs generalizing st with
  | nil =>
    have same : markAll [] = id := rfl
    exact ⟨[], by simp [same], by simp, by simp, rfl⟩
  | cons c cs ih =>
    obtain ⟨hc, hbuilt⟩ := hcs c List.mem_cons_self
    rw [List.map_cons, List.nodup_cons] at hdistinct
    rw [completeAll, ends_bind, ends_get, h.isBuilt_eq_false hc hbuilt, if_neg Bool.false_ne_true,
      ends_bind]
    refine ((ends_completeContext_goesOn L hr h hc hbuilt).and
      (ends_completeContext_follows L h hc hbuilt)).mono ?_ fun _ _ _ => trivial
    rintro _ st₁ ⟨⟨fresh, goesOn⟩, follows, marks⟩
    have hrest := marks.rest hdistinct.1 fun x hx => hcs x (List.mem_cons_of_mem _ hx)
    rw [ends_bind]
    refine (ih follows.tidy hdistinct.2 hrest).mono ?_ fun _ _ _ => trivial
    rintro _ st₂ ⟨more, goesOn'⟩
    refine ⟨fresh ++ more, goesOn.trans goesOn' fun x hx => markAll_of_not_mem fun hmem => ?_⟩
    obtain ⟨y, hy, htype⟩ := List.mem_map.1 hmem
    have hyold := (hcs y (List.mem_cons_of_mem _ hy)).1
    exact goesOn.type_ne (mark_type c.type) follows.tidy.distinct hx hyold htype.symm

/-- A pass completes the contexts that are there when it begins.  Those that are created
meanwhile are left as they are created. -/
theorem ends_pass : Ends (s.completeAll s.tools st.incomplete) st
    (fun n st' => s.Tidy st' ∧ n = st.incomplete.length ∧
      ∃ fresh, s.GoesOn Context.completed fresh st st')
    fun _ _ => True := by
  have hdistinct : (st.incomplete.map (·.type)).Nodup :=
    h.distinct.sublist ((List.filter_sublist).map _)
  have hpending : ∀ c ∈ st.incomplete, c ∈ st.contexts ∧ c.built = false := fun _ hc =>
    mem_incomplete.1 hc
  refine ((ends_completeAll_goesOn L hr h hdistinct hpending).and
    (ends_completeAll_follows L h hdistinct hpending)).mono ?_ fun _ _ _ => trivial
  rintro n st' ⟨⟨fresh, goesOn⟩, follows, -, hn⟩
  refine ⟨follows.tidy, hn, fresh, goesOn.congr fun c hc => ?_⟩
  cases hbuilt : c.built with
  | false => exact markAll_of_mem (List.mem_map_of_mem (mem_incomplete.2 ⟨hc, hbuilt⟩))
  | true =>
    have hnot : c.type ∉ st.incomplete.map (·.type) := by
      intro hmem
      obtain ⟨x, hx, htype⟩ := List.mem_map.1 hmem
      obtain ⟨hxmem, hxbuilt⟩ := hpending x hx
      rw [h.unique hxmem hc htype, hbuilt] at hxbuilt
      cases hxbuilt
    rw [markAll_of_not_mem hnot, Context.completed, ← hbuilt]

end Completing

/-! ## Runs of passes -/

/-- The passes from a number on that lead from a state to one in which no context is
incomplete. -/
inductive RunsPasses (s : Setup) : Nat → State → List Pass → State → Prop
  | done {number : Nat} {st : State} : st.incomplete = [] → RunsPasses s number st [] st
  | pass {number : Nat} {p : Pass} {ps : List Pass} {st : State} : p.pending ≠ [] →
      s.completeAll s.tools p.pending p.before = .ok p.built p.after →
      RunsPasses s (number + 1) (p.reported number) ps st →
      RunsPasses s number p.before (p :: ps) st

/-- The report of a pass changes nothing else. -/
theorem Tidy.reported {p : Pass} (h : s.Tidy p.after) (number : Nat) : s.Tidy (p.reported number) :=
  ⟨h.distinct, h.issued, h.standard, h.length, h.declares⟩

theorem exists_runsPasses (L : s.Lawful) (hr : s.RuledBy r) {allowed : Nat} (htidy : s.Tidy st)
    (h : s.passes s.tools allowed number st = .ok () st') :
    ∃ ps, s.RunsPasses number st ps st' := by
  induction allowed generalizing number st with
  | zero =>
    rw [passes, get_bind_apply] at h
    split at h
    · rename_i hnone
      cases h
      exact ⟨[], .done (List.isEmpty_iff.1 hnone)⟩
    · cases h
  | succ allowed ih =>
    rw [passes, get_bind_apply] at h
    cases hpending : st.incomplete with
    | nil =>
      simp only [hpending] at h
      cases h
      exact ⟨[], .done hpending⟩
    | cons c cs =>
      simp only [hpending] at h
      obtain ⟨n, after, hpass, h⟩ := bind_eq_ok_iff.1 h
      rw [← hpending] at hpass
      obtain ⟨tidy', rfl, -⟩ := (ends_pass L hr htidy).good_of_eq hpass
      obtain ⟨_, _, hlog, h⟩ := bind_eq_ok_iff.1 h
      cases hlog
      have hp : Pass.pending ⟨st, after⟩ = c :: cs := hpending
      have tidy'' : s.Tidy (Pass.reported ⟨st, after⟩ number) := tidy'.reported number
      obtain ⟨ps, runs⟩ := ih tidy'' h
      exact ⟨⟨st, after⟩ :: ps, .pass (by simp [hp]) hpass runs⟩

/-- Whether the first contexts are complete, and the others as they are created. -/
structure Ripe (m : Nat) (st : State) : Prop where
  le : m ≤ st.contexts.size
  old : ∀ c ∈ st.contexts.toList.take m, c.built = true
  new : ∀ c ∈ st.contexts.toList.drop m, c.IsNew

/-- What is incomplete stands behind the complete contexts. -/
theorem Ripe.incomplete (h : Ripe m st) :
    st.incomplete = (st.contexts.toList.drop m).filter (·.strategy.startsIncomplete) := by
  have hold : (st.contexts.toList.take m).filter (!·.built) = [] :=
    List.filter_eq_nil_iff.2 fun c hc => by simp [h.old c hc]
  rw [State.incomplete, ← List.take_append_drop m st.contexts.toList, List.filter_append, hold,
    List.nil_append, List.take_append_drop]
  refine List.filter_congr fun c hc => ?_
  rw [h.new c hc, Bool.not_not]

/-- After a pass the contexts that it began with are complete. -/
theorem GoesOn.ripe (h : s.GoesOn Context.completed fresh st st') : Ripe st.contexts.size st' where
  le := h.size ▸ Nat.le_add_right _ _
  old c hc := by
    rw [h.contexts, List.take_left' (by simp)] at hc
    obtain ⟨x, -, rfl⟩ := List.mem_map.1 hc
    rfl
  new c hc := by
    rw [h.contexts, List.drop_left' (by simp)] at hc
    exact h.new c hc

theorem GoesOn.entries (h : s.GoesOn Context.completed fresh st st') :
    st'.entries = st.entries ++ fresh.map fun c => (c.type, c.strategy) := by
  rw [State.entries, h.contexts, List.map_append, List.map_map]
  rfl

/-- Whether every context has its event, in order. -/
def Labelled (s : Setup) (st : State) : Prop := st.creations = st.contexts.toList.map s.label

theorem Labelled.goesOn (hl : s.Labelled st) (hf : ∀ c, s.label (f c) = s.label c)
    (h : s.GoesOn f fresh st st') : s.Labelled st' := by
  rw [Labelled, h.creations, h.contexts, hl, List.map_append, List.map_map]
  congr 1
  exact List.map_congr_left fun c _ => (hf c).symm

/-- What passes lead to. -/
structure Surveys (s : Setup) (m number : Nat) (st : State) (ps : List Pass) (st' : State) :
    Prop where
  reports : st'.reports = st.reports ++ ps.mapIdx fun i p => (number + i, p.scanned, p.built)
  entries : st.entries <+: st'.entries
  slices : Slices st'.entries m ps
  leaves : ∀ p ∈ ps, p.pending ≠ [] ∧ ∃ fresh, s.GoesOn Context.completed fresh p.before p.after
  labelled : s.Labelled st'
  complete : st'.incomplete = []
  tidy : s.Tidy st'

/-- The passes of a run cut its contexts into slices. -/
theorem RunsPasses.surveys (L : s.Lawful) (hr : s.RuledBy r) {ps : List Pass}
    (h : s.RunsPasses number st ps st') (htidy : s.Tidy st) (ripe : Ripe m st)
    (labelled : s.Labelled st) : s.Surveys m number st ps st' := by
  induction h generalizing m with
  | @done number st hnone =>
    refine ⟨by simp, List.prefix_rfl, .nil fun e he => ?_, by simp, labelled, hnone, htidy⟩
    rw [State.entries, ← List.map_drop] at he
    obtain ⟨c, hc, rfl⟩ := List.mem_map.1 he
    have hall := List.filter_eq_nil_iff.1 (ripe.incomplete ▸ hnone)
    simpa using hall c hc
  | @pass number p ps st hpending hpass _ ih =>
    obtain ⟨tidy', -, fresh, goesOn⟩ := (ends_pass L hr htidy).good_of_eq hpass
    have tidy'' : s.Tidy (p.reported number) := tidy'.reported number
    have hcreations : (p.reported number).creations = p.after.creations := by
      simp [State.creations, Pass.reported, Event.created?]
    have hreports : (p.reported number).reports =
        p.before.reports ++ [(number, p.scanned, p.built)] := by
      rw [← goesOn.reports]
      simp [State.reports, Pass.reported, Event.passed?]
    have labelled' : s.Labelled (p.reported number) :=
      hcreations.trans (labelled.goesOn (f := Context.completed) (fun _ => rfl) goesOn)
    have ripe' := goesOn.ripe
    have rest := ih tidy'' ⟨ripe'.le, ripe'.old, ripe'.new⟩ labelled'
    have before : p.before.entries <+: st.entries :=
      (goesOn.entries ▸ List.prefix_append _ _).trans rest.entries
    refine ⟨?_, before, .cons ⟨?_, ?_, ?_⟩ rest.slices, ?_, rest.labelled, rest.complete, rest.tidy⟩
    · rw [rest.reports, hreports, List.append_assoc, List.mapIdx_cons]
      simp [Nat.add_assoc, Nat.add_comm 1]
    · obtain ⟨c, hc⟩ := List.exists_mem_of_ne_nil _ hpending
      rw [Pass.pending, ripe.incomplete] at hc
      have := List.length_pos_of_mem (List.mem_filter.1 hc).1
      rw [List.length_drop, Array.length_toList] at this
      exact Nat.lt_of_sub_pos this
    · have := before.length_le
      simpa [State.entries, Pass.scanned] using this
    · have htake : st.entries.take p.scanned = p.before.entries := by
        rw [List.prefix_iff_eq_take.1 before]
        congr 1
        simp [State.entries, Pass.scanned]
      rw [htake, Pass.entries, Pass.pending, ripe.incomplete, State.entries, ← List.map_drop,
        List.filter_map]
      rfl
    · exact List.forall_mem_cons.2 ⟨⟨hpending, fresh, goesOn⟩, rest.leaves⟩

/-! ## Whole runs -/

/-- What the passes of a run add up to. -/
structure Accounts (s : Setup) (ps : List Pass) (st : State) : Prop where
  /-- The passes are numbered from one, and report what they found and did. -/
  reports : st.reports = ps.mapIdx fun i p => (i + 1, p.scanned, p.built)
  /-- A later pass begins with more contexts. -/
  growing : (ps.map (·.scanned)).Pairwise (· < ·)
  /-- A pass completes a context. -/
  busy : ∀ p ∈ ps, 1 ≤ p.built
  /-- What was created incomplete is completed once, in the order of creation. -/
  once : ps.flatMap (·.entries) = st.entries.filter (·.2.startsIncomplete)
  /-- The first pass completes it that begins behind its position. -/
  first : ∀ {n : Nat} {e : TypeId × Strategy} {p : Pass} {earlier later : List Pass},
    st.entries[n]? = some e → e.2.startsIncomplete = true → ps = earlier ++ p :: later →
      (e ∈ p.entries ↔ n < p.scanned ∧ ∀ q ∈ earlier, q.scanned ≤ n)
  /-- A pass completes what was there, and leaves what is created meanwhile. -/
  leaves : ∀ p ∈ ps, ∃ fresh, s.GoesOn Context.completed fresh p.before p.after
  /-- The passes complete as many contexts as there are objects. -/
  total : (ps.map (·.built)).sum = st.entries.countP (·.2.isObject)
  /-- Every context has one event, in the order of creation. -/
  labelled : s.Labelled st
  /-- No type has two contexts. -/
  distinct : (st.entries.map (·.1)).Nodup
  complete : ∀ c ∈ st.contexts, c.built = true

theorem Surveys.accounts {ps : List Pass} (h : s.Surveys 0 1 st ps st') (hst : st.reports = []) :
    s.Accounts ps st' := by
  have hdistinct : (st'.entries.map (·.1)).Nodup := by
    rw [State.entries, List.map_map]
    exact h.tidy.distinct
  have honce := h.slices.flatMap_entries
  rw [List.drop_zero] at honce
  refine ⟨?_, (List.pairwise_cons.1 h.slices.growing).2, fun p hp => ?_, honce, ?_,
    fun p hp => (h.leaves p hp).2, ?_, h.labelled, hdistinct, fun c hc => ?_⟩
  · rw [h.reports, hst, List.nil_append]
    simp [Nat.add_comm 1]
  · exact List.length_pos_of_ne_nil (h.leaves p hp).1
  · intro n e p earlier later he hstarts hps
    rw [h.slices.mem_entries_iff (List.Nodup.of_map _ hdistinct) he hstarts hps]
    simp
  · have hlength : (ps.map (·.built)).sum = (ps.flatMap (·.entries)).length := by
      rw [List.length_flatMap]
      congr 1
      exact List.map_congr_left fun p _ => (List.length_map _).symm
    rw [hlength, honce, ← List.countP_eq_length_filter]
    refine List.countP_congr fun e he => ?_
    obtain ⟨c, hc, rfl⟩ := List.mem_map.1 he
    have hstandard := h.tidy.standard c (Array.mem_toList_iff.1 hc)
    cases hσ : c.strategy with
    | custom => exact absurd hσ hstandard
    | _ => rfl
  · by_contra hbuilt
    have hmem := mem_incomplete.2 ⟨hc, Bool.not_eq_true _ ▸ hbuilt⟩
    rw [h.complete] at hmem
    cases hmem

/-- The passes of a run that succeeds.  They begin in the state that resolving the roots
leaves. -/
theorem accounts_of_finalState (h : s.Governed r) (hrun : s.finalState = (none, st)) :
    ∃ start ps, resolveAll s.tools s.roots {} = .ok () start ∧ s.RunsPasses 1 start ps st ∧
      s.Accounts ps st := by
  obtain ⟨hbuild, -, -⟩ := finished_of_finalState h.lawful hrun
  unfold build buildStep at hbuild
  obtain ⟨_, _, hvalid, hbuild⟩ := bind_eq_ok_iff.1 hbuild
  obtain ⟨_, start, hroots, hpasses⟩ := bind_eq_ok_iff.1 hbuild
  have kept : Kept (· = ·) := ⟨fun _ => rfl, Eq.trans⟩
  obtain rfl := (kept.ofExcept _ {}).good_of_eq hvalid
  obtain ⟨fresh, adds⟩ := (adds_resolveAll h.ruledBy s.roots {}).good_of_eq hroots
  have tidy : s.Tidy start :=
    ((ends_resolveAll_knows (keepsTools h.lawful (s.depth + 1)) tidy_empty s.roots).good_of_eq
      hroots).1.tidy
  have empty : s.Labelled {} := rfl
  have labelled : s.Labelled start := empty.goesOn (fun _ => rfl) adds
  have ripe : Ripe 0 start :=
    ⟨Nat.zero_le _, by simp, fun c hc => adds.new c (by simpa [adds.contexts] using hc)⟩
  obtain ⟨ps, runs⟩ := exists_runsPasses h.lawful h.ruledBy tidy hpasses
  exact ⟨start, ps, hroots, runs,
    (runs.surveys h.lawful h.ruledBy tidy ripe labelled).accounts adds.reports⟩

/-- A document with two classes that refer to each other, one through a list. -/
@[irreducible] def pairText : String :=
  r#"[[["object","A",[],[["b","List<B>"]]],["object","B",[],[["a","A"]]]],["A"]]"#

/-- The setup of the document, without rules. -/
def pair : Setup := ofDocument pairText {} {}

theorem pair_checks : loads pairText = true ∧ pair.finalState.1 = none ∧
    pair.finalState.2.reports = [(1, 1, 1), (2, 3, 1)] := by
  decide +kernel

/-- The first pass finds one class, and the second finds the list and the other class. -/
theorem accounts_of_finalState_pair : pair.Governed {} ∧
    ∃ st start ps, pair.finalState = (none, st) ∧
      resolveAll pair.tools pair.roots {} = .ok () start ∧ pair.RunsPasses 1 start ps st ∧
      pair.Accounts ps st ∧ st.reports = [(1, 1, 1), (2, 3, 1)] := by
  obtain ⟨hloads, hnone, hreports⟩ := pair_checks
  have governed : pair.Governed {} := governed_ofDocument {} hloads rfl rfl
  have hrun : pair.finalState = (none, pair.finalState.2) := Prod.ext hnone rfl
  obtain ⟨start, ps, hroots, runs, accounts⟩ := accounts_of_finalState governed hrun
  exact ⟨governed, _, start, ps, hrun, hroots, runs, accounts, hreports⟩

end Setup

end TypeExport
