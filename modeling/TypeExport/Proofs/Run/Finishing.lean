import Mathlib.Data.List.Perm.Subperm
import TypeExport.Proofs.Run.Members

/-!
# What a run ends in

A run that succeeds ends in a finished state: a settled one in which every
context is complete and every root has one (`Setup.Finished`).  A run that
fails has a fact about its setup to blame (`Setup.ends_build`).

Passes end because each one completes a context that was incomplete, and there
are at most as many contexts as types (`Setup.ends_passes`).
-/

namespace TypeExport

namespace Setup

variable {s : Setup} {st st' : State} {t c : TypeId}

/-! ## Counting complete contexts -/

/-- The types whose contexts are complete. -/
def builtTypes (st : State) : List TypeId := (st.contexts.toList.filter (·.built)).map (·.type)

theorem mem_builtTypes : t ∈ builtTypes st ↔ Built st t := by
  simp only [builtTypes, Built, List.mem_map, List.mem_filter, Array.mem_toList_iff]
  constructor
  · rintro ⟨c, ⟨hc, hbuilt⟩, htype⟩
    exact ⟨c, hc, htype, hbuilt⟩
  · rintro ⟨c, hc, htype, hbuilt⟩
    exact ⟨c, ⟨hc, hbuilt⟩, htype⟩

/-- A context is complete or incomplete. -/
theorem length_builtTypes_add (st : State) :
    (builtTypes st).length + st.incomplete.length = st.contexts.size := by
  rw [builtTypes, List.length_map, State.incomplete, ← Array.length_toList]
  exact (List.length_eq_length_filter_add fun c : Context => c.built).symm

/-- There are no more contexts than types. -/
theorem length_contexts_le {types : Universe} (hd : (st.contexts.toList.map (·.type)).Nodup)
    (hi : ∀ c ∈ st.contexts, types.Issued c.type) : st.contexts.size ≤ types.size := by
  have hnodup : ((st.contexts.toList.map (·.type)).map (·.index)).Nodup := by
    refine hd.map fun a b hab => ?_
    cases a
    cases b
    cases hab
    rfl
  have hsub : (st.contexts.toList.map (·.type)).map (·.index) ⊆ List.range types.size := by
    intro i hindex
    obtain ⟨t, ht, rfl⟩ := List.mem_map.1 hindex
    obtain ⟨c, hc, rfl⟩ := List.mem_map.1 ht
    exact List.mem_range.2 (hi c (Array.mem_toList_iff.1 hc))
  simpa using (List.subperm_of_subset hnodup hsub).length_le

/-- No context becomes incomplete. -/
theorem length_builtTypes_le (hd : (st.contexts.toList.map (·.type)).Nodup)
    (later : Later st st') : (builtTypes st).length ≤ (builtTypes st').length := by
  have hsub : builtTypes st ⊆ builtTypes st' := fun x hx =>
    mem_builtTypes.2 (later.built (mem_builtTypes.1 hx))
  exact (List.subperm_of_subset (hd.sublist ((List.filter_sublist).map _)) hsub).length_le

/-- Completing a context that was incomplete makes one more. -/
theorem length_builtTypes_lt (hd : (st.contexts.toList.map (·.type)).Nodup)
    (later : Later st st') (ht : Built st' t) (hnot : ¬ Built st t) :
    (builtTypes st).length < (builtTypes st').length := by
  have hnodup : (t :: builtTypes st).Nodup :=
    List.nodup_cons.2 ⟨fun hmem => hnot (mem_builtTypes.1 hmem),
      hd.sublist ((List.filter_sublist).map _)⟩
  have hsub : t :: builtTypes st ⊆ builtTypes st' := by
    intro x hx
    rcases List.mem_cons.1 hx with rfl | hold
    · exact mem_builtTypes.2 ht
    · exact mem_builtTypes.2 (later.built (mem_builtTypes.1 hold))
  exact (List.subperm_of_subset hnodup hsub).length_le

/-- An incomplete context is that of a type whose context is not complete. -/
theorem not_built (hd : (st.contexts.toList.map (·.type)).Nodup) {c : Context}
    (hc : c ∈ st.contexts) (hbuilt : c.built = false) : ¬ Built st c.type := by
  rintro ⟨c', hc', htype, hbuilt'⟩
  have hsame : c' = c := List.inj_on_of_nodup_map hd (Array.mem_toList_iff.2 hc')
    (Array.mem_toList_iff.2 hc) htype
  rw [hsame, hbuilt] at hbuilt'
  cases hbuilt'

theorem mem_incomplete {c : Context} :
    c ∈ st.incomplete ↔ c ∈ st.contexts ∧ c.built = false := by
  simp [State.incomplete]

theorem Consistent.nodup_types (h : s.Consistent st) :
    (st.contexts.toList.map (·.type)).Nodup := by
  have := h.distinct
  rwa [State.entries, List.map_map] at this

/-! ## Passes -/

/-- What is true of the state in which a run ends. -/
structure Finished (s : Setup) (st : State) : Prop where
  settled : s.Settled st
  /-- Every context is complete. -/
  built : ∀ c ∈ st.contexts, c.built = true
  /-- Every root has a context. -/
  root : ∀ t ∈ s.roots, st.Knows t
  /-- The options were honoured. -/
  valid : s.options.validate = .ok ()

/-- A settled state without incomplete contexts is finished. -/
theorem Settled.finished (h : s.Settled st) (hroots : ∀ t ∈ s.roots, st.Knows t)
    (hvalid : s.options.validate = .ok ()) (hnone : st.incomplete = []) : s.Finished st where
  settled := h
  built c hc := by
    by_contra hbuilt
    have : c ∈ st.incomplete := mem_incomplete.2 ⟨hc, Bool.not_eq_true _ ▸ hbuilt⟩
    rw [hnone] at this
    cases this
  root := hroots
  valid := hvalid

/-- The passes that are allowed suffice. -/
theorem ends_passes (L : s.Lawful) (hvalid : s.options.validate = .ok ()) (allowed : Nat)
    {number : Nat} (h : s.Settled st) (hroots : ∀ t ∈ s.roots, st.Knows t)
    (hallowed : s.types.size ≤ allowed + (builtTypes st).length) :
    Ends (s.passes s.tools allowed number) st (fun _ st' => s.Finished st')
      (fun e _ => s.Blames e) := by
  induction allowed generalizing st number with
  | zero =>
    have hnone : st.incomplete = [] := by
      have hsum := length_builtTypes_add st
      have hle := length_contexts_le h.consistent.nodup_types fun c hc =>
        (L.resolved (h.consistent.resolved (has_of_mem hc))).1
      exact List.length_eq_zero_iff.1 (by omega)
    rw [passes, ends_bind, ends_get, hnone]
    exact h.finished hroots hvalid hnone
  | succ allowed ih =>
    rw [passes, ends_bind, ends_get]
    split
    · rename_i hnone
      exact h.finished hroots hvalid hnone
    · rename_i hsome
      obtain ⟨c, hc⟩ := List.exists_mem_of_ne_nil _ hsome
      obtain ⟨hmem, hbuilt⟩ := mem_incomplete.1 hc
      rw [ends_bind]
      refine (ends_completeAll L h fun x hx => has_of_mem (mem_incomplete.1 hx).1).mono ?_
        fun _ _ hb => hb
      rintro _ st₁ ⟨h₁, later, hall⟩
      rw [ends_bind, Run.ends_log]
      refine ih (h₁.log _) ?_ ?_
      · intro t ht
        obtain ⟨σ, hσ⟩ := hroots t ht
        exact ⟨σ, later.has hσ⟩
      · have hdistinct := h.consistent.nodup_types
        have hlt := length_builtTypes_lt hdistinct later (hall c hc)
          (not_built hdistinct hmem hbuilt)
        show s.types.size ≤ allowed + (builtTypes st₁).length
        omega

/-! ## Whole runs -/

/-- A run ends in a finished state, or has something to blame. -/
theorem ends_build (L : s.Lawful) :
    Ends s.build {} (fun _ st => s.Finished st) (fun e _ => s.Blames e) := by
  unfold build buildStep
  rw [ends_bind, Run.ends_ofExcept]
  cases hvalid : s.options.validate with
  | error cause => exact .misconfigured hvalid
  | ok =>
    simp only [Except.mapError]
    rw [ends_bind]
    refine (ends_resolveAll (ends_resolve L (s.depth + 1)) settled_empty.consistent
      (fun t ht => .root ht) fun t ht => ?_).mono ?_ fun _ _ hb => hb
    · refine Nat.lt_of_le_of_lt (Universe.rank_le_size (L.root t ht)) ?_
      rw [depth]
      omega
    · rintro _ st ⟨h, extends', hroots⟩
      refine ends_passes L hvalid _ (settled_empty.extend h extends') hroots ?_
      omega

/-- The units of a run that succeeds are those of a finished state. -/
theorem finished_of_units (L : s.Lawful) {us : Units} (h : s.units = .ok us) :
    ∃ st, s.Finished st ∧ st.units = us := by
  unfold units finalState at h
  cases hrun : s.build.run {} with
  | ok x st =>
    rw [hrun] at h
    cases h
    exact ⟨st, (ends_build L).good_of_eq hrun, rfl⟩
  | error e st =>
    rw [hrun] at h
    cases h

/-- A run that fails has something to blame. -/
theorem blames_of_units (L : s.Lawful) {e : RunError} (h : s.units = .error e) : s.Blames e := by
  unfold units finalState at h
  cases hrun : s.build.run {} with
  | ok x st =>
    rw [hrun] at h
    cases h
  | error e' st =>
    rw [hrun] at h
    cases h
    exact (ends_build L).bad_of_eq hrun

end Setup

end TypeExport
