import TypeExport.Proofs.Run.Completing

/-!
# Completing contexts

The members of an object are written in order, each is what is to be written
for it, and no two have one name (`Setup.ends_resolveMembers`).  Completing the
context of an object leaves a settled state in which the object has these
members (`Setup.ends_completeContext`).
-/

namespace TypeExport

namespace Setup

variable {s : Setup} {st st' : State} {t c o : TypeId} {d : Descriptor} {σ : Strategy}
  {k : UnitId} {p : Nat} {name : String}

/-! ## Members -/

/-- Whether a member is left out. -/
def LeftOut (m : Member) : Prop := m.annotations.has .ignore = true

/-- The members in front of a place that are not left out. -/
def kept (ms : List Member) : List Member := ms.filter (!·.annotations.has .ignore)

theorem written_of_get? (hd : s.types.get? o = some d) : s.written o = kept d.members := by
  rw [written, hd]
  rfl

theorem attributesOf_of_get? (hd : s.types.get? o = some d) (m : Member) :
    s.attributesOf o m = Attributes.ofMember d m := by
  rw [attributesOf, hd]
  rfl

/-- The type at a member is issued. -/
theorem issued_site (sound : s.types.Sound) (hd : s.types.get? o = some d) {m : Member}
    (hm : m ∈ d.members) :
    s.types.Issued m.type ∧ s.types.Issued (s.types.bare m.type) ∧ s.types.Issued (s.site m) := by
  obtain ⟨hi, hne⟩ := sound.member hd hm
  obtain ⟨hi', hne'⟩ := sound.bare hi hne
  exact ⟨hi, hi', (sound.bare hi' hne').1⟩

@[simp] theorem toolkit_types (s : Setup) (fuel : Nat) : (s.toolkit fuel).types = s.types := by
  cases fuel <;> rfl

@[simp] theorem toolkit_options (s : Setup) (fuel : Nat) :
    (s.toolkit fuel).options = s.options := by
  cases fuel <;> rfl

/-- Declaring a member is a step over the toolkit one level down. -/
theorem resolveMember_eq (s : Setup) (k : UnitId) (d : Descriptor) (m : Member) :
    s.resolveMember k d m = s.memberStep (s.toolkit s.depth) k d m := rfl

theorem ends_resolveMember (L : s.Lawful) (h : s.Consistent st)
    (ho : st.Has o (.object k name p)) (hd : s.types.get? o = some d) {m : Member}
    (hm : m ∈ d.members) :
    Ends (s.resolveMember k d m) st
      (fun r st' => s.Consistent st' ∧ s.Extends st st' ∧
        match r with
        | none => LeftOut m
        | some decl => ¬ LeftOut m ∧ s.Completes o m decl ∧
            ∀ c, s.Mentions (s.site m) c → st'.Supplied k c)
      (fun e _ => s.Blames e) := by
  rw [resolveMember_eq, memberStep, L.member, Program.run_pure, ends_bind, ends_pure]
  dsimp only
  split
  · rename_i hignore
    exact ⟨h, .refl st, hignore⟩
  · rename_i hignore
    obtain ⟨parameters, ht⟩ := h.treats ho
    have hwritten : m ∈ s.written o := by
      rw [written_of_get? hd]
      exact List.mem_filter.2 ⟨hm, by simpa using hignore⟩
    obtain ⟨hi, hi', hsite⟩ := issued_site L.sound hd hm
    have hmentioned : s.Mentioned st k (s.site m) :=
      ⟨o, name, p, ho, parameters, m, ht, hwritten, .refl⟩
    have hrank : s.types.rank (s.site m) < s.slack + (5 * s.types.size + 15) :=
      Nat.lt_of_le_of_lt (Universe.rank_le_size hsite) (by omega)
    have hattributes := attributesOf_of_get? hd m
    simp only [Toolkit.importType, toolkit_types, toolkit_options, L.sound.splitNullable _ _ hi,
      L.sound.splitNullable _ _ hi', ends_bind, Run.ends_ask]
    refine (ends_reference L _ h hmentioned hrank).mono ?_ fun _ _ hb => hb
    intro e st' r
    refine ⟨r.consistent, r.extension, hignore, ⟨rfl, ?_, e, ?_, ?_⟩, r.supplied⟩
    · rw [memberNullable, hattributes]
    · rw [hattributes]
      exact r.written
    · rw [memberNullable, hattributes]

/-- What is true of the declarations of the first members of an object. -/
structure Done (s : Setup) (st : State) (k : UnitId) (o : TypeId) (ms : List Member)
    (done : List MemberDeclaration) : Prop where
  /-- There is one for each member that is not left out, in order. -/
  written : List.Forall₂ (s.Completes o) (kept ms) done
  /-- No two have one name. -/
  nodup : (done.map (·.name)).Nodup
  /-- What they mention is supplied. -/
  supplied : ∀ m ∈ kept ms, ∀ c, s.Mentions (s.site m) c → st.Supplied k c

namespace Done

variable {ms : List Member} {m : Member} {done : List MemberDeclaration}
  {decl : MemberDeclaration}

theorem nil : s.Done st k o [] [] where
  written := .nil
  nodup := List.nodup_nil
  supplied := by simp [kept]

theorem extend (h : s.Done st k o ms done) (extends' : s.Extends st st') :
    s.Done st' k o ms done where
  written := h.written
  nodup := h.nodup
  supplied m hm c hc := extends'.supplied (h.supplied m hm c hc)

theorem kept_of_leftOut (hm : LeftOut m) : kept (ms ++ [m]) = kept ms := by
  have hm : m.annotations.has .ignore = true := hm
  simp [kept, List.filter_append, hm]

theorem kept_of_not_leftOut (hm : ¬ LeftOut m) : kept (ms ++ [m]) = kept ms ++ [m] := by
  have hm : m.annotations.has .ignore = false := by simpa [LeftOut] using hm
  simp [kept, List.filter_append, hm]

/-- A member that is left out has no declaration. -/
theorem leave (h : s.Done st k o ms done) (hm : LeftOut m) : s.Done st k o (ms ++ [m]) done := by
  obtain ⟨hwritten, hnodup, hsupplied⟩ := h
  rw [← kept_of_leftOut hm] at hwritten hsupplied
  exact ⟨hwritten, hnodup, hsupplied⟩

/-- A member whose name is free has the next declaration. -/
theorem push (h : s.Done st k o ms done) (hm : ¬ LeftOut m) (hd : s.Completes o m decl)
    (hfree : ∀ other ∈ done, other.name ≠ decl.name)
    (hmentions : ∀ c, s.Mentions (s.site m) c → st.Supplied k c) :
    s.Done st k o (ms ++ [m]) (done ++ [decl]) where
  written := by
    rw [kept_of_not_leftOut hm]
    exact List.rel_append h.written (.cons hd .nil)
  nodup := by
    rw [List.map_append, List.map_singleton]
    refine List.nodup_append.2 ⟨h.nodup, List.nodup_singleton _, ?_⟩
    intro n hn n' hsingle hsame
    obtain ⟨other, hother, rfl⟩ := List.mem_map.1 hn
    exact hfree other hother (hsame.trans (List.mem_singleton.1 hsingle))
  supplied m' hm' c hc := by
    rw [kept_of_not_leftOut hm] at hm'
    rcases List.mem_append.1 hm' with hold | hnew
    · exact h.supplied m' hold c hc
    · rw [List.mem_singleton.1 hnew] at hc
      exact hmentions c hc

/-- A member whose name is taken has the name of a member in front of it. -/
theorem one_lt_count (h : s.Done st k o ms done) (hm : ¬ LeftOut m) (hd : s.Completes o m decl)
    {other : MemberDeclaration} (hother : other ∈ done) (hname : other.name = decl.name)
    (rest : List Member) :
    1 < ((kept (ms ++ [m] ++ rest)).map (lowerCamel ·.name)).count decl.name := by
  obtain ⟨q, hq⟩ := List.mem_iff_getElem?.1 hother
  obtain ⟨m', hm', hd'⟩ := exists_left h.written hq
  have hbefore : decl.name ∈ (kept ms).map (lowerCamel ·.name) :=
    List.mem_map.2 ⟨m', List.mem_of_getElem? hm', hd'.name.symm.trans hname⟩
  have hkept : kept (ms ++ [m] ++ rest) = kept ms ++ m :: kept rest := by
    rw [kept, List.filter_append, ← kept, kept_of_not_leftOut hm, List.append_assoc]
    rfl
  rw [hkept, List.map_append, List.map_cons, List.count_append, ← hd.name,
    List.count_cons_self]
  have := List.count_pos_iff.2 hbefore
  omega

end Done

/-- The members of an object behind those that are done. -/
theorem ends_resolveMembers (L : s.Lawful) (h : s.Consistent st)
    (ho : st.Has o (.object k name p)) (hd : s.types.get? o = some d) {before ms : List Member}
    (hsplit : d.members = before ++ ms) {done : List MemberDeclaration}
    (hdone : s.Done st k o before done) :
    Ends (resolveMembers s.tools k d done ms) st
      (fun members st' => s.Consistent st' ∧ s.Extends st st' ∧ s.Done st' k o d.members members)
      (fun e _ => s.Blames e) := by
  induction ms generalizing before done st with
  | nil =>
    rw [List.append_nil] at hsplit
    rw [hsplit]
    exact ⟨h, .refl st, hdone⟩
  | cons m ms ih =>
    have hsplit' : d.members = (before ++ [m]) ++ ms := by
      rw [hsplit, List.append_assoc]
      rfl
    have hm : m ∈ d.members := by simp [hsplit]
    rw [resolveMembers, ends_bind]
    refine (ends_resolveMember L h ho hd hm).mono ?_ fun _ _ hb => hb
    intro r st₁ hr
    obtain ⟨h₁, extends₁, hr⟩ := hr
    have hdone₁ := hdone.extend extends₁
    cases r with
    | none =>
      refine (ih h₁ (extends₁.has ho) hsplit' (hdone₁.leave hr)).mono ?_ fun _ _ hb => hb
      intro members st₂ hrest
      exact ⟨hrest.1, extends₁.trans hrest.2.1, hrest.2.2⟩
    | some decl =>
      obtain ⟨hkept, hcompletes, hmentions⟩ := hr
      dsimp only
      split
      · -- the name is that of an earlier member
        rename_i htaken
        obtain ⟨other, hother, hname⟩ : ∃ other ∈ done, other.name = decl.name := by
          simpa using htaken
        obtain ⟨parameters, ht⟩ := h.treats ho
        refine .member (h.resolved ho) ht hd ?_
        rw [written_of_get? hd, hsplit']
        exact hdone.one_lt_count hkept hcompletes hother hname ms
      · rename_i hfree
        have hfree : ∀ other ∈ done, other.name ≠ decl.name := by simpa using hfree
        have hdone₂ := hdone₁.push hkept hcompletes hfree hmentions
        refine (ih h₁ (extends₁.has ho) hsplit' hdone₂).mono ?_ fun _ _ hb => hb
        intro members st₂ hrest
        exact ⟨hrest.1, extends₁.trans hrest.2.1, hrest.2.2⟩

/-! ## Contexts -/

/-- Whether the context of a type is complete. -/
def Built (st : State) (t : TypeId) : Prop := ∃ c ∈ st.contexts, c.type = t ∧ c.built = true

/-- What completing contexts keeps of a state. -/
structure Later (st st' : State) : Prop where
  /-- A type keeps its context. -/
  has : ∀ {t σ}, st.Has t σ → st'.Has t σ
  /-- A complete context stays complete. -/
  built : ∀ {t}, Built st t → Built st' t

theorem Later.refl (st : State) : Later st st := ⟨fun h => h, fun h => h⟩

theorem Later.trans {st'' : State} (h : Later st st') (h' : Later st' st'') : Later st st'' :=
  ⟨fun ht => h'.has (h.has ht), fun ht => h'.built (h.built ht)⟩

theorem Extends.later (h : s.Extends st st') : Later st st' where
  has := h.has
  built := by
    rintro t ⟨c, hc, htype, hbuilt⟩
    obtain ⟨new, hnew, -⟩ := h.contexts
    refine ⟨c, ?_, htype, hbuilt⟩
    rw [← Array.mem_toList_iff, hnew]
    exact List.mem_append_left _ (Array.mem_toList_iff.2 hc)

theorem later_built (st : State) (t : TypeId) : Later st (Run.built st t) where
  has {x σ} h := by
    rw [State.Has, entries_built]
    exact h
  built := by
    rintro x ⟨c, hc, htype, hbuilt⟩
    refine ⟨_, Array.mem_map.2 ⟨c, hc, rfl⟩, ?_, ?_⟩
    · split <;> exact htype
    · split
      · rfl
      · exact hbuilt

theorem built_built (hσ : st.Has t σ) : Built (Run.built st t) t := by
  obtain ⟨c, hc, htype, -⟩ := exists_context hσ
  refine ⟨_, Array.mem_map.2 ⟨c, hc, rfl⟩, ?_, ?_⟩
  · rw [if_pos htype]
    exact htype
  · rw [if_pos htype]

/-- Marking a context keeps a state settled. -/
theorem Settled.markBuilt (h : s.Settled st) (hσ : st.Has o σ)
    (hcomplete : ∀ {k name p}, σ = .object k name p → s.Complete st o k p) :
    s.Settled (Run.built st o) where
  consistent := h.consistent.markBuilt hσ hcomplete
  closed {t c} ht hc := by
    have hknows : ∀ {x}, (Run.built st o).Knows x ↔ st.Knows x := by
      simp [State.Knows, State.Has, entries_built]
    exact hknows.2 (h.closed (hknows.1 ht) hc)
  filled := h.filled

/-- Setting the members of an object keeps a state settled. -/
theorem Settled.setMembers (h : s.Settled st) {members : List MemberDeclaration}
    (h' : s.Consistent (Run.remade st k p members)) : s.Settled (Run.remade st k p members) where
  consistent := h'
  closed := h.closed
  filled hU hempty := by
    obtain ⟨V, hV, rfl⟩ := Units.get?_of_setMembers hU
    refine h.filled hV ?_
    rw [Units.remake_declarations] at hempty
    split at hempty
    · rw [← Array.size_eq_zero_iff] at hempty ⊢
      simpa using hempty
    · exact hempty

/-- What completing the context of a type leaves. -/
structure Completed (s : Setup) (st : State) (t : TypeId) (st' : State) : Prop where
  settled : s.Settled st'
  later : Later st st'
  built : Built st' t

/-- Marking the context of a type completes it. -/
theorem Settled.completed (h : s.Settled st) (hσ : st.Has o σ)
    (hcomplete : ∀ {k name p}, σ = .object k name p → s.Complete st o k p) :
    s.Completed st o (Run.built st o) :=
  ⟨h.markBuilt hσ hcomplete, later_built st o, built_built hσ⟩

/-- Completing the context of an object writes its members. -/
theorem ends_completeObject (L : s.Lawful) (h : s.Settled st)
    (ho : st.Has o (.object k name p)) :
    Ends (do
      s.completeDeclaration s.tools o (.object k name p)
      Run.markBuilt o) st (fun _ => s.Completed st o) (fun e _ => s.Blames e) := by
  obtain ⟨parameters, d, hd, -⟩ := h.consistent.treats ho
  simp only [completeDeclaration, Universe.view_of_get? hd, ends_bind, Run.ends_ask]
  have hsplit : d.members = [] ++ d.members := rfl
  refine (ends_resolveMembers L h.consistent ho hd hsplit .nil).mono ?_ fun _ _ hb => hb
  rintro members st₁ ⟨h₁, extends₁, hmembers, hnodup, hsupplied⟩
  have ho₁ := extends₁.has ho
  rw [← written_of_get? hd] at hmembers hsupplied
  have hneeds : ∀ x, s.Uses s.site o x → st₁.Supplied k x := by
    rintro x ⟨_, m, _, hm, hmention⟩
    exact hsupplied m hm x hmention
  obtain ⟨h₂, hcomplete⟩ := h₁.setMembers ho₁ hmembers hnodup hneeds
  have completed : s.Completed (Run.remade st₁ k p members) o
      (Run.built (Run.remade st₁ k p members) o) := by
    refine ((h.extend h₁ extends₁).setMembers h₂).completed ho₁ ?_
    rintro _ _ _ ⟨⟩
    exact hcomplete
  have later₁ : Later st (Run.remade st₁ k p members) :=
    extends₁.later.trans ⟨fun h => h, fun h => h⟩
  have hremade : (Run.remade st₁ k p members).Has o (.object k name p) := ho₁
  obtain ⟨U, e, hU, -, he, -⟩ := h₁.declaration_of_type (h₁.position ho₁)
  rw [Run.ends_setMembers hU (Array.getElem?_eq_some_iff.1 he).1, Run.ends_markBuilt hremade]
  exact ⟨completed.settled, later₁.trans completed.later, completed.built⟩

theorem ends_completeContext (L : s.Lawful) (h : s.Settled st) {c : Context}
    (hc : st.Has c.type c.strategy) :
    Ends (s.completeContext s.tools c) st (fun _ => s.Completed st c.type)
      (fun e _ => s.Blames e) := by
  unfold completeContext
  -- a context that is no object is only marked
  have mark : (∀ {k name p}, c.strategy ≠ .object k name p) →
      Ends (Run.markBuilt c.type) st (fun _ => s.Completed st c.type) (fun e _ => s.Blames e) :=
    fun hne => (Run.ends_markBuilt hc).2 (h.completed hc fun hσ => absurd hσ hne)
  cases hσ : c.strategy with
  | object k name p =>
    rw [hσ] at hc
    exact ends_completeObject L h hc
  | custom => cases hσ ▸ h.consistent.suits hc
  | _ => exact mark (by simp [hσ])

theorem isBuilt_iff : st.isBuilt t = true ↔ Built st t := by
  simp [State.isBuilt, Built, ← Array.any_toList]

theorem ends_completeAll (L : s.Lawful) (h : s.Settled st) {cs : List Context}
    (hcs : ∀ c ∈ cs, st.Has c.type c.strategy) :
    Ends (s.completeAll s.tools cs) st
      (fun _ st' => s.Settled st' ∧ Later st st' ∧ ∀ c ∈ cs, Built st' c.type)
      (fun e _ => s.Blames e) := by
  induction cs generalizing st with
  | nil => exact ⟨h, .refl st, by simp⟩
  | cons c cs ih =>
    have rest : ∀ {st₁}, s.Settled st₁ → Later st st₁ → Built st₁ c.type →
        Ends (s.completeAll s.tools cs) st₁
          (fun _ st' => s.Settled st' ∧ Later st st' ∧ ∀ x ∈ c :: cs, Built st' x.type)
          (fun e _ => s.Blames e) := by
      intro st₁ h₁ later₁ hbuilt
      refine (ih h₁ fun x hx => later₁.has (hcs x (List.mem_cons_of_mem _ hx))).mono ?_
        fun _ _ hb => hb
      rintro _ st₂ ⟨h₂, later₂, hall⟩
      refine ⟨h₂, later₁.trans later₂, fun x hx => ?_⟩
      rcases List.mem_cons.1 hx with rfl | htail
      · exact later₂.built hbuilt
      · exact hall x htail
    rw [completeAll, ends_bind, ends_get]
    split
    · rename_i hbuilt
      exact rest h (.refl st) (isBuilt_iff.1 hbuilt)
    · rw [ends_bind]
      refine (ends_completeContext L h (hcs c List.mem_cons_self)).mono ?_ fun _ _ hb => hb
      intro _ st₁ completed
      rw [ends_bind]
      exact (rest completed.settled completed.later completed.built).mono (fun _ _ hg => hg)
        fun _ _ hb => hb

end Setup

end TypeExport
