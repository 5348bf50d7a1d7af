import TypeExport.Proofs.Run.Finishing
import TypeExport.Proofs.Run.Lockstep

/-!
# Parallel passes

The passes of two parallel setups are paired, from the members of a type up to
whole runs (`Setup.Parallel.paired_build`).  The members may be annotated
differently, as long as the same ones are left out.  So two parallel runs fail
with the same error, or finish in matching states (`Setup.Parallel.ends`).
-/

namespace TypeExport

theorem MemberDeclaration.name_eq_of_erase {m m' : MemberDeclaration}
    (h : m.erase = m'.erase) : m.name = m'.name := by
  have hname : m.erase.name = m'.erase.name := congrArg MemberDeclaration.name h
  exact hname

namespace Setup.Parallel

variable {s s' : Setup} {m m' : Member} {ms ms' : List Member} {d d' : Descriptor} {o : TypeId}
  {parameters : List TypeId} (P : s.Parallel s') (L : s.Lawful) (L' : s'.Lawful)
include P L

theorem paired_tools (fuel : Nat) : PairedTools s (s.toolkit fuel) (s'.toolkit fuel) :=
  paired_toolkit P L fuel

omit L in
theorem depth_eq : s'.depth = s.depth := by rw [depth, depth, P.types.size, P.slack]

/-! ## Members -/

/-- A reference at a use site whose type is resolved without its outer `Nullable`. -/
theorem paired_importType (fuel : Nat) (k : UnitId) (a a' : Option Attributes) {t : TypeId}
    (hi : s.types.Issued t) (hr : s.Resolved (s.types.bare t)) :
    Paired s TypeExpr.SameErased ((s.toolkit fuel).importType k a t)
      ((s'.toolkit fuel).importType k a' t) := by
  have hi' : s'.types.Issued t := P.types.issued.2 hi
  simp only [Toolkit.importType, toolkit_types, toolkit_options, L.sound.splitNullable _ _ hi,
    (P.types.sound L.sound).splitNullable _ _ hi', P.types.bare, Run.ask_ok, pure_bind]
  exact ((P.paired_tools L fuel).reference hr k a a').bind fun _ _ h =>
    .pure (h.orNullable _ _ _ _)

section Object

variable (ho : s.Resolved o) (ht : s.Treats o (.object parameters)) (hd : s.types.get? o = some d)
include L' ho ht hd

/-- The declarations of a member differ at most in what is erased. -/
theorem paired_resolveMember (k : UnitId) (hmem : m ∈ d.members) (hm : m.Akin m') :
    Paired s (fun e e' => e.map (·.erase) = e'.map (·.erase)) (s.resolveMember k d m)
      (s'.resolveMember k d' m') := by
  obtain ⟨hi, hi₁, -⟩ := issued_site L.sound hd hmem
  have hi' : s'.types.Issued m.type := P.types.issued.2 hi
  simp only [resolveMember_eq, memberStep, L.member, L'.member, Program.run_pure, pure_bind,
    P.depth_eq, hm.name, hm.type, hm.ignore]
  split
  · exact .pure rfl
  · rename_i hignore
    have hwritten : m ∈ s.written o := by
      rw [written_of_get? hd]
      exact List.mem_filter.2 ⟨hmem, by simpa using hignore⟩
    simp only [L.sound.splitNullable _ _ hi, (P.types.sound L.sound).splitNullable _ _ hi',
      P.types.bare, Run.ask_ok, pure_bind]
    refine (P.paired_importType L s.depth k _ _ hi₁ (.member ho ht hwritten)).bind
      fun e e' he => .pure ?_
    simp only [Option.map_some, MemberDeclaration.erase, Option.some.injEq,
      MemberDeclaration.mk.injEq, true_and]
    exact he.orNullable _ _ _ _

theorem paired_resolveMembers (k : UnitId) (hdd' : d.Akin d')
    {done done' : List MemberDeclaration} (hdone : done.map (·.erase) = done'.map (·.erase))
    (hmem : ms ⊆ d.members) (hms : List.Forall₂ Member.Akin ms ms') :
    Paired s (fun ds ds' => ds.map (·.erase) = ds'.map (·.erase))
      (resolveMembers s.tools k d done ms) (resolveMembers s'.tools k d' done' ms') := by
  induction hms generalizing done done' with
  | nil => exact .pure hdone
  | cons hm _ ih =>
    obtain ⟨hmem, hmem'⟩ := List.cons_subset.1 hmem
    refine (P.paired_resolveMember L L' ho ht hd k hmem hm).bind fun e e' he => ?_
    cases e with
    | none =>
      cases e' with
      | none => exact ih hdone hmem'
      | some => cases he
    | some e =>
      cases e' with
      | none => cases he
      | some e' =>
        have hsame : e.erase = e'.erase := Option.some.inj he
        have hname : e.name = e'.name := MemberDeclaration.name_eq_of_erase hsame
        -- the names of the members so far are the same
        have hnames : ∀ ds : List MemberDeclaration,
            ds.any (·.name = e.name) = (ds.map (·.erase)).any (·.name = e.name) := by
          intro ds
          rw [List.any_map]
          rfl
        have hany : done.any (·.name = e.name) = done'.any (·.name = e.name) := by
          rw [hnames done, hdone, ← hnames done']
        dsimp only
        rw [← hname, hany, hdd'.key]
        split
        · exact .throw _
        · exact ih (by rw [List.map_append, List.map_append, hdone, List.map_singleton,
            List.map_singleton, hsame]) hmem'

end Object

/-! ## Contexts and passes -/

include L'

theorem paired_completeContext {c c' : Context} (hc : c.Matches s c') :
    Paired s Always (s.completeContext s.tools c) (s'.completeContext s'.tools c') := by
  obtain ⟨type, σ, built⟩ := c
  obtain ⟨type', σ', built'⟩ := c'
  obtain ⟨htype, -, hσ, hr⟩ := hc
  cases htype
  have hσ : Strategy.Matches s type σ σ' := hσ
  have declared : Paired s Always (s.completeDeclaration s.tools type σ)
      (s'.completeDeclaration s'.tools type σ') := by
    cases hσ with
    | absent _ hσ hσ' =>
      rcases hσ with rfl | ⟨rfl⟩ <;> rcases hσ' with rfl | ⟨rfl⟩ <;>
        simp only [completeDeclaration] <;> exact .pure trivial
    | same hsuits =>
      cases hsuits with
      | @object parameters unit position ht =>
        obtain ⟨d, hd⟩ := Universe.issued_iff.1 (L.resolved hr).1
        obtain ⟨d', hd', hdd'⟩ := P.types.type hd
        simp only [completeDeclaration, Universe.view_of_get? hd, Universe.view_of_get? hd',
          Run.ask_ok, pure_bind]
        exact (P.paired_resolveMembers L L' hr ht hd unit hdd' rfl (List.Subset.refl _)
          hdd'.members).bind fun _ _ hmembers => .setMembers unit position hmembers
      | _ => exact .pure trivial
  exact declared.bind fun _ _ _ => .markBuilt type

theorem paired_completeAll {cs cs' : List Context} (hcs : List.Forall₂ (Context.Matches s) cs cs') :
    Paired s Always (s.completeAll s.tools cs) (s'.completeAll s'.tools cs') := by
  induction hcs with
  | nil => exact .pure trivial
  | cons hc _ ih =>
    refine .get_bind fun st st' h => ?_
    rw [← hc.type, h.isBuilt]
    split
    · exact ih
    · exact (P.paired_completeContext L L' hc).bind fun _ _ _ =>
        ih.bind fun _ _ _ => .pure trivial

theorem paired_passes (allowed number : Nat) :
    Paired s Always (s.passes s.tools allowed number) (s'.passes s'.tools allowed number) := by
  induction allowed generalizing number with
  | zero =>
    refine .get_bind fun st st' h => ?_
    have hpending := h.incomplete
    generalize st.incomplete = pending at hpending ⊢
    generalize st'.incomplete = pending' at hpending ⊢
    cases hpending with
    | nil => exact .pure trivial
    | cons => exact .throw _
  | succ allowed ih =>
    refine .get_bind fun st st' h => ?_
    have hpending := h.incomplete
    generalize st.incomplete = pending at hpending ⊢
    generalize st'.incomplete = pending' at hpending ⊢
    cases hpending with
    | nil => exact .pure trivial
    | cons hc hcs =>
      exact (P.paired_completeAll L L' (.cons hc hcs)).bind fun _ _ _ =>
        (Paired.log _ _).bind fun _ _ _ => ih (number + 1)

variable (hvalid : s'.options.validate = s.options.validate)
include hvalid

theorem paired_build : Paired s Always s.build s'.build := by
  have hroots : ∀ t ∈ s.roots, s.Resolved t := fun _ ht => .root ht
  have htools : PairedTools s s.tools s'.tools := by
    rw [tools, tools, P.depth_eq]
    exact P.paired_tools L (s.depth + 1)
  unfold build buildStep
  rw [hvalid, P.roots, P.types.size]
  exact (Paired.ofExcept _).bind fun _ _ _ => (paired_resolveAll htools hroots).bind fun _ _ _ =>
    P.paired_passes L L' s.types.size 1

/-- Two parallel runs fail with the same error, or finish in matching states. -/
theorem ends : (∃ e, s.units = .error e ∧ s'.units = .error e) ∨
    ∃ st st', s.units = .ok st.units ∧ s'.units = .ok st'.units ∧ s.Finished st ∧
      s'.Finished st' ∧ st.Matches s st' := by
  have hend := P.paired_build L L' hvalid {} {} ⟨.nil, rfl⟩
  have finished := ends_build L
  have finished' := ends_build L'
  unfold units finalState EStateM.run
  cases hrun : s.build {} with
  | ok _ st =>
    cases hrun' : s'.build {} with
    | ok _ st' =>
      rw [hrun, hrun'] at hend
      cases hend with
      | ok _ hst =>
        exact .inr ⟨st, st', rfl, rfl, finished.good_of_eq hrun, finished'.good_of_eq hrun', hst⟩
    | error e' st' =>
      rw [hrun, hrun'] at hend
      cases hend
  | error e st =>
    cases hrun' : s'.build {} with
    | ok _ st' =>
      rw [hrun, hrun'] at hend
      cases hend
    | error e' st' =>
      rw [hrun, hrun'] at hend
      cases hend
      exact .inl ⟨e, rfl, rfl⟩

end Setup.Parallel

end TypeExport
