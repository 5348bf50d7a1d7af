import TypeExport.Proofs.Run.Resolving

/-!
# Referring keeps a state consistent

A reference from a unit to a type that a member of the unit mentions is what is
written for the type, and afterwards everything that the type mentions has what
it needs imported into the unit (`Setup.ends_reference`).  Each kind of
reference is treated once, over a toolkit one level down.
-/

namespace TypeExport

namespace Setup

variable {s : Setup} {st st' : State} {t c : TypeId} {d : Descriptor} {σ : Strategy} {k : UnitId}
  {a : Option Attributes}

/-- What holds after a reference from a unit to a type. -/
structure Referred (s : Setup) (st : State) (k : UnitId) (a : Option Attributes) (t : TypeId)
    (e : TypeExpr) (st' : State) : Prop where
  consistent : s.Consistent st'
  extension : s.Extends st st'
  /-- The expression is the one written for the type. -/
  written : s.Written a t e
  /-- What the type mentions has what it needs imported. -/
  supplied : ∀ c, s.Mentions t c → st'.Supplied k c

/-- Whether referring does what it should for types of lower rank. -/
def Refers (s : Setup) (below : Toolkit) (rank : Nat) : Prop :=
  ∀ {k a t st}, s.Consistent st → s.Mentioned st k t → s.types.rank t < rank →
    Ends (below.reference k a t) st (s.Referred st k a t) (fun e _ => s.Blames e)

/-! ## Mentions -/

theorem Mentioned.part (h : s.Mentioned st k t) (hc : s.Part t c) : s.Mentioned st k c := by
  obtain ⟨o, name, p, ho, huses⟩ := h
  exact ⟨o, name, p, ho, huses.mentions (.single hc)⟩

theorem Mentioned.resolved (hst : s.Consistent st) (h : s.Mentioned st k t) : s.Resolved t := by
  obtain ⟨o, name, p, ho, huses⟩ := h
  exact huses.reached (hst.resolved ho)

/-- A type that is placed or redirected has no parts. -/
theorem Suits.not_part (h : s.Suits t σ)
    (hσ : (∃ name location, σ = .redirect name location) ∨ ∃ j, σ.unit? = some j) :
    ¬ s.Part t c := by
  rintro ⟨form, ht, hc⟩
  cases h with
  | redirect hr => exact ht.not_redirects hr
  | nativeEnum _ ht' =>
    cases ht.unique ht'
    cases hc
  | fixedStrings _ ht' =>
    cases ht.unique ht'
    cases hc
  | object ht' =>
    cases ht.unique ht'
    cases hc
  | builtin => rcases hσ with ⟨_, _, hσ⟩ | ⟨_, hσ⟩ <;> cases hσ
  | array => rcases hσ with ⟨_, _, hσ⟩ | ⟨_, hσ⟩ <;> cases hσ
  | dictionary => rcases hσ with ⟨_, _, hσ⟩ | ⟨_, hσ⟩ <;> cases hσ
  | nullable => rcases hσ with ⟨_, _, hσ⟩ | ⟨_, hσ⟩ <;> cases hσ
  | unwrapped => rcases hσ with ⟨_, _, hσ⟩ | ⟨_, hσ⟩ <;> cases hσ
  | genericInstance => rcases hσ with ⟨_, _, hσ⟩ | ⟨_, hσ⟩ <;> cases hσ
  | genericParameter => rcases hσ with ⟨_, _, hσ⟩ | ⟨_, hσ⟩ <;> cases hσ

/-- What a type mentions is supplied when the type is, and what its parts
mention. -/
theorem supplied_of_parts (hself : st.Supplied k t)
    (hparts : ∀ x, s.Part t x → ∀ c, s.Mentions x c → st.Supplied k c) (hc : s.Mentions t c) :
    st.Supplied k c := by
  rcases Relation.ReflTransGen.cases_head hc with rfl | ⟨x, hx, hrest⟩
  · exact hself
  · exact hparts x hx c hrest

/-- A type that needs no import is supplied. -/
theorem supplied_of_no_import (ht : st.Has t σ) (hi : σ.import? k = none) : st.Supplied k t :=
  ⟨σ, ht, fun i h => by rw [hi] at h; cases h⟩

/-! ## Imported names -/

theorem ends_importedReference (h : s.Consistent st) (hm : s.Mentioned st k t) (ht : st.Has t σ)
    {i : Import} (hi : σ.import? k = some i ∨ σ.import? k = none ∧ i.source = .unit k) :
    Ends (importedReference k i.name i.source) st
      (fun e st' => s.Consistent st' ∧ s.Extends st st' ∧ e = .reference i.name ∧
        st'.Supplied k t)
      (fun e _ => s.Blames e) := by
  unfold importedReference
  rw [ends_bind, Run.ends_addImport]
  split
  · rename_i us hus
    have himported := Units.imported_of_addImport hus
    set st' : State := { st with units := us }
    have hcontexts : st'.contexts = st.contexts := rfl
    obtain ⟨h', extends'⟩ := h.import hm ht (hi.imp_right (·.2)) hcontexts himported
    refine ends_pure.2 ⟨h', extends', rfl, σ, extends'.has ht, fun i' hi' => ?_⟩
    rcases hi with hi | ⟨hnone, -⟩
    · cases hi.symm.trans hi'
      refine himported.mem fun hself => ?_
      rcases (h.suits ht).import?_cases hi with ⟨_, _, -, rfl⟩ | ⟨j, -, hne, rfl⟩
      · cases hself
      · cases hself
        exact hne rfl
    · rw [hnone] at hi'
      cases hi'
  · rename_i e he
    rcases hi with hi | ⟨-, hself⟩
    · obtain ⟨o, _, _, ho, -⟩ := id hm
      obtain ⟨U, hU, -⟩ := h.unit ho rfl
      exact h.blames_import hm ht hi (Units.refuses_of_addImport hU he)
    · simp [Units.addImport, hself] at he

/-- A reference to a redirected type or to a declared one. -/
theorem ends_importedName (h : s.Consistent st) (hm : s.Mentioned st k t) (ht : st.Has t σ)
    {i : Import} (hi : σ.import? k = some i ∨ σ.import? k = none ∧ i.source = .unit k)
    (hparts : ∀ c, ¬ s.Part t c) (hw : s.Written a t (.reference i.name)) :
    Ends (importedReference k i.name i.source) st (s.Referred st k a t)
      (fun e _ => s.Blames e) := by
  refine (ends_importedReference h hm ht hi).mono ?_ fun _ _ hb => hb
  rintro _ st' ⟨h', extends', rfl, hsupplied⟩
  exact ⟨h', extends', hw, fun c hc =>
    supplied_of_parts hsupplied (fun x hx => absurd hx (hparts x)) hc⟩

/-- The import of a declared type, which its own unit does without. -/
theorem import?_of_placed {σ : Strategy} {j : UnitId} {name : String}
    (hσ : σ.import? k = if j = k then none else some ⟨name, .unit j⟩) :
    σ.import? k = some ⟨name, .unit j⟩ ∨
      σ.import? k = none ∧ (⟨name, .unit j⟩ : Import).source = .unit k := by
  rw [hσ]
  by_cases hj : j = k
  · exact .inr ⟨if_pos hj, by rw [hj]⟩
  · exact .inl (if_neg hj)

/-! ## Composed types -/

section Composed

variable {below : Toolkit} {rank : Nat} (L : s.Lawful) (hbelow : s.Refers below rank)
  (h : s.Consistent st) (hm : s.Mentioned st k t) (hσ : st.Has t σ)
  (hrank : s.types.rank t < rank + 1)
include L hbelow h hm hrank

/-- A reference to a part of a type. -/
theorem ends_part {x : TypeId} (hx : s.Part t x) :
    Ends (below.reference k a x) st (s.Referred st k a x) (fun e _ => s.Blames e) := by
  refine hbelow h (hm.part hx) ?_
  obtain ⟨form, ht, hmem⟩ := hx
  exact Nat.lt_of_lt_of_le (L.sound.part ht.form? hmem).2 (Nat.le_of_lt_succ hrank)

variable (hd : s.types.get? t = some d)
include hσ hd

theorem ends_arrayReference (hi : σ.import? k = none) {x : TypeId} (ht : s.Treats t (.sequence x)) :
    Ends (s.arrayReference below k a d) st (s.Referred st k a t) (fun e _ => s.Blames e) := by
  have hform := ht.formOf hd
  have hx : s.Part t x := ⟨_, ht, List.mem_singleton.2 rfl⟩
  obtain ⟨e, he⟩ := Universe.issued_iff.1
    (L.sound.part ht.form? (c := x) (List.mem_singleton.2 rfl)).1
  unfold arrayReference
  simp only [Universe.element?_of_sequence hform, Universe.view_of_get? he, Run.ask_ok, ends_bind,
    ends_pure]
  refine (ends_part L hbelow h hm hrank hx).mono ?_ fun _ _ hb => hb
  intro item st' r
  refine ⟨r.consistent, r.extension, .sequence ht he r.written, fun c hc => ?_⟩
  refine supplied_of_parts (supplied_of_no_import (r.extension.has hσ) hi) ?_ hc
  rintro y ⟨form, hy, hmem⟩
  cases ht.unique hy
  rw [List.mem_singleton.1 hmem]
  exact r.supplied

theorem ends_nullableReference (hi : σ.import? k = none)
    (hexplicit : s.options.explicitNullability = true) {x : TypeId} (ht : s.Treats t (.absent x)) :
    Ends (s.nullableReference below k d) st (s.Referred st k a t) (fun e _ => s.Blames e) := by
  have hform := ht.formOf hd
  have hx : s.Part t x := ⟨_, ht, List.mem_singleton.2 rfl⟩
  obtain ⟨e, he⟩ := Universe.issued_iff.1
    (L.sound.part ht.form? (c := x) (List.mem_singleton.2 rfl)).1
  unfold nullableReference
  simp only [Universe.element?_of_absent hform, Universe.view_of_get? he, Run.ask_ok, ends_bind,
    ends_pure]
  refine (ends_part L hbelow h hm hrank hx).mono ?_ fun _ _ hb => hb
  intro item st' r
  refine ⟨r.consistent, r.extension, .nullable hexplicit ht r.written, fun c hc => ?_⟩
  refine supplied_of_parts (supplied_of_no_import (r.extension.has hσ) hi) ?_ hc
  rintro y ⟨form, hy, hmem⟩
  cases ht.unique hy
  rw [List.mem_singleton.1 hmem]
  exact r.supplied

omit hd in
theorem ends_unwrappedReference (hi : σ.import? k = none)
    (hexplicit : s.options.explicitNullability = false) {x : TypeId} (ht : s.Treats t (.absent x)) :
    Ends (below.reference k a x) st (s.Referred st k a t) (fun e _ => s.Blames e) := by
  have hx : s.Part t x := ⟨_, ht, List.mem_singleton.2 rfl⟩
  refine (ends_part L hbelow h hm hrank hx).mono ?_ fun _ _ hb => hb
  intro e st' r
  refine ⟨r.consistent, r.extension, .unwrapped hexplicit ht r.written, fun c hc => ?_⟩
  refine supplied_of_parts (supplied_of_no_import (r.extension.has hσ) hi) ?_ hc
  rintro y ⟨form, hy, hmem⟩
  cases ht.unique hy
  rw [List.mem_singleton.1 hmem]
  exact r.supplied

theorem ends_dictionaryReference (hi : σ.import? k = none) {key value : TypeId}
    (ht : s.Treats t (.dictionary key value)) :
    Ends (s.dictionaryReference below k a d) st (s.Referred st k a t) (fun e _ => s.Blames e) := by
  have hform := ht.formOf hd
  have hkey : s.Part t key := ⟨_, ht, List.mem_cons_self⟩
  have hvalue : s.Part t value := ⟨_, ht, List.mem_cons_of_mem _ List.mem_cons_self⟩
  have hissued : ∀ x ∈ [key, value], s.types.Issued x := fun x hx =>
    (L.sound.part ht.form? (c := x) hx).1
  obtain ⟨f, hf⟩ := Universe.issued_iff.1 (hissued key List.mem_cons_self)
  obtain ⟨e, he⟩ :=
    Universe.issued_iff.1 (hissued value (List.mem_cons_of_mem _ List.mem_cons_self))
  have hds : s.types.viewAll [key, value] = .ok [f, e] :=
    Universe.viewAll_eq_ok_iff.2 (.cons hf (.cons he .nil))
  obtain ⟨isNullable, hnullable⟩ :=
    L.sound.exists_valueNullable s.options.nullability a (hissued key List.mem_cons_self) e
  unfold dictionaryReference
  simp only [Universe.arguments_of_dictionary hform, hds, hnullable, Run.ask_ok, ends_bind,
    ends_pure]
  refine (ends_part L hbelow h hm hrank hkey).mono ?_ fun _ _ hb => hb
  intro keyExpr st₁ r₁
  refine (ends_part L hbelow r₁.consistent (r₁.extension.mentioned hm) hrank hvalue).mono ?_
    fun _ _ hb => hb
  intro valueExpr st₂ r₂
  refine ⟨r₂.consistent, r₁.extension.trans r₂.extension,
    .dictionary ht he hnullable r₁.written r₂.written, fun c hc => ?_⟩
  refine supplied_of_parts
    (supplied_of_no_import ((r₁.extension.trans r₂.extension).has hσ) hi) ?_ hc
  rintro y ⟨form, hy, hmem⟩ c hc
  cases ht.unique hy
  rcases List.mem_cons.1 hmem with rfl | hmem
  · exact r₂.extension.supplied (r₁.supplied c hc)
  · rw [List.mem_singleton.1 hmem] at hc
    exact r₂.supplied c hc

omit hσ hd in
theorem ends_argumentReferences {before ids : List TypeId}
    (hbefore : ∀ x ∈ before, s.types.Issued x) (hids : ∀ x ∈ ids, s.Part t x) :
    Ends (s.argumentReferences below k a before ids) st
      (fun es st' => s.Consistent st' ∧ s.Extends st st' ∧ s.WrittenArguments a before ids es ∧
        ∀ x ∈ ids, ∀ c, s.Mentions x c → st'.Supplied k c)
      (fun e _ => s.Blames e) := by
  induction ids generalizing before st with
  | nil => exact ⟨h, .refl st, .nil, by simp⟩
  | cons x xs ih =>
    have hx := hids x List.mem_cons_self
    have hissued : s.types.Issued x := by
      obtain ⟨form, ht, hmem⟩ := hx
      exact (L.sound.part ht.form? hmem).1
    obtain ⟨e, he⟩ := Universe.issued_iff.1 hissued
    obtain ⟨isNullable, hnullable⟩ :=
      L.sound.exists_argumentNullable s.options.nullability a hbefore e
    unfold argumentReferences
    simp only [Universe.view_of_get? he, hnullable, Run.ask_ok, ends_bind, ends_pure]
    refine (ends_part L hbelow h hm hrank hx).mono ?_ fun _ _ hb => hb
    intro item st₁ r
    have hbefore' : ∀ y ∈ before ++ [x], s.types.Issued y := by
      intro y hy
      rcases List.mem_append.1 hy with hold | hnew
      · exact hbefore y hold
      · rw [List.mem_singleton.1 hnew]
        exact hissued
    refine (ih r.consistent (r.extension.mentioned hm) hbefore'
      fun y hy => hids y (List.mem_cons_of_mem _ hy)).mono ?_ fun _ _ hb => hb
    rintro es st₂ ⟨h₂, extends₂, hes, hall⟩
    refine ⟨h₂, r.extension.trans extends₂, .cons r.written he hnullable hes, fun y hy c hc => ?_⟩
    rcases List.mem_cons.1 hy with rfl | htail
    · exact extends₂.supplied (r.supplied c hc)
    · exact hall y htail c hc

theorem ends_genericReference (hi : σ.import? k = none) {definition : TypeId}
    {arguments : List TypeId} (ht : s.Treats t (.applied definition arguments)) :
    Ends (s.genericReference below k a t d) st (s.Referred st k a t) (fun e _ => s.Blames e) := by
  have hform := ht.formOf hd
  have hkind := Universe.eq_closed_of_applied hform
  obtain ⟨e, -, he, -⟩ := L.sound.definition_of_applied hd hform
  have hdefinition : s.Part t definition := ⟨_, ht, List.mem_cons_self⟩
  have harguments : ∀ x ∈ arguments, s.Part t x := fun x hx =>
    ⟨_, ht, List.mem_cons_of_mem _ hx⟩
  obtain ⟨ds, hds⟩ := Universe.exists_viewAll fun x hx =>
    (L.sound.part ht.form? (c := x) (List.mem_cons_of_mem _ hx)).1
  unfold genericReference
  simp only [Universe.definition?_of_closed hkind he, Run.ask_ok, ends_bind, ends_pure]
  refine (ends_part L hbelow h hm hrank hdefinition).mono ?_ fun _ _ hb => hb
  intro base st₁ r
  rw [hkind]
  simp only [TypeKind.arguments, hds, Run.ask_ok, ends_pure]
  refine (ends_argumentReferences L hbelow r.consistent (r.extension.mentioned hm) hrank
    (by simp) harguments).mono ?_ fun _ _ hb => hb
  rintro es st₂ ⟨h₂, extends₂, hes, hall⟩
  refine ⟨h₂, r.extension.trans extends₂, .applied ht r.written hes, fun c hc => ?_⟩
  refine supplied_of_parts
    (supplied_of_no_import ((r.extension.trans extends₂).has hσ) hi) ?_ hc
  rintro y ⟨form, hy, hmem⟩ c hc
  cases ht.unique hy
  rcases List.mem_cons.1 hmem with rfl | hmem
  · exact extends₂.supplied (r.supplied c hc)
  · exact hall y hmem c hc

end Composed

/-! ## References -/

/-- A reference to a type that has no parts and needs no import. -/
theorem referred_of_no_parts (h : s.Consistent st) (hσ : st.Has t σ) (hi : σ.import? k = none)
    (hparts : ∀ c, ¬ s.Part t c) {e : TypeExpr} (hw : s.Written a t e) :
    s.Referred st k a t e st where
  consistent := h
  extension := .refl st
  written := hw
  supplied _ hc :=
    supplied_of_parts (supplied_of_no_import hσ hi) (fun x hx => absurd hx (hparts x)) hc

theorem ends_referenceFor (L : s.Lawful) {below : Toolkit} {rank : Nat}
    (hbelow : s.Refers below rank) (h : s.Consistent st) (hm : s.Mentioned st k t)
    (hσ : st.Has t σ) (hrank : s.types.rank t < rank + 1) (hd : s.types.get? t = some d) :
    Ends (s.referenceFor below k a t d σ) st (s.Referred st k a t) (fun e _ => s.Blames e) := by
  have hsuits := h.suits hσ
  have placed : ∀ {j : UnitId} {name : String},
      (σ.import? k = if j = k then none else some ⟨name, .unit j⟩) → σ.unit? = some j →
      s.Written a t (.reference name) →
      Ends (importedReference k name (.unit j)) st (s.Referred st k a t) (fun e _ => s.Blames e) :=
    fun himport hunit hw => ends_importedName h hm hσ (import?_of_placed himport)
      (fun _ => hsuits.not_part (.inr ⟨_, hunit⟩)) hw
  cases hsuits with
  | redirect hr =>
    exact ends_importedName (i := ⟨_, .external _⟩) h hm hσ (.inl rfl)
      (fun _ => (Suits.redirect hr).not_part (.inl ⟨_, _, rfl⟩)) (.redirected hr)
  | builtin ht =>
    have hform := ht.formOf hd
    refine referred_of_no_parts h hσ rfl ?_ (.primitive ?_)
    · rintro c ⟨form, ht', hc⟩
      cases ht.unique ht'
      cases hc
    · generalize hkind : d.kind = kind at hform
      cases Universe.hasForm_of_eq hform with
      | builtin b => simpa [primitiveReference, hkind, TypeKind.builtin?] using ht
      | bytes => simpa [primitiveReference, hkind, TypeKind.builtin?] using ht
  | array ht => exact ends_arrayReference L hbelow h hm hσ hrank hd rfl ht
  | dictionary ht => exact ends_dictionaryReference L hbelow h hm hσ hrank hd rfl ht
  | nullable hexplicit ht =>
    exact ends_nullableReference L hbelow h hm hσ hrank hd rfl hexplicit ht
  | unwrapped hexplicit ht =>
    exact ends_unwrappedReference L hbelow h hm hσ hrank rfl hexplicit ht
  | genericInstance ht => exact ends_genericReference L hbelow h hm hσ hrank hd rfl ht
  | genericParameter ht =>
    refine referred_of_no_parts h hσ rfl ?_ ?_
    · rintro c ⟨form, ht', hc⟩
      cases ht.unique ht'
      cases hc
    · rw [← Universe.nameOf_of_get? hd]
      exact .parameter ht
  | nativeEnum hstyle ht =>
    exact placed rfl rfl (.declared ⟨_, ht, by rw [outline, hstyle]⟩)
  | fixedStrings hstyle ht =>
    exact placed rfl rfl (.declared ⟨_, ht, by rw [outline, hstyle]⟩)
  | object ht => exact placed rfl rfl (.declared ⟨_, ht, rfl⟩)

theorem ends_referenceStep (L : s.Lawful) {below : Toolkit} {rank : Nat}
    (hresolves : s.Resolves below (rank + 1)) (hrefers : s.Refers below rank)
    (h : s.Consistent st) (hm : s.Mentioned st k t) (hrank : s.types.rank t < rank + 1) :
    Ends (s.referenceStep below k a t) st (s.Referred st k a t) (fun e _ => s.Blames e) := by
  have hr := hm.resolved h
  obtain ⟨d, hd⟩ := Universe.issued_iff.1 (L.resolved hr).1
  unfold referenceStep
  simp only [Universe.view_of_get? hd, Run.ask_ok, ends_bind, ends_pure]
  refine (hresolves h hr hrank).mono ?_ fun _ _ hb => hb
  rintro σ st₁ ⟨h₁, extends₁, hσ⟩
  refine (ends_referenceFor L hrefers h₁ (extends₁.mentioned hm) hσ hrank hd).mono ?_
    fun _ _ hb => hb
  intro e st₂ r
  exact ⟨r.consistent, extends₁.trans r.extension, r.written, r.supplied⟩

/-- A toolkit refers to the types whose rank is below its fuel but one. -/
theorem ends_reference (L : s.Lawful) (fuel : Nat) : s.Refers (s.toolkit (fuel + 1)) fuel := by
  induction fuel with
  | zero =>
    intro k a t st _ _ hrank
    exact absurd hrank (Nat.not_lt_zero _)
  | succ fuel ih =>
    intro k a t st h hm hrank
    exact ends_referenceStep L (ends_resolve L (fuel + 1)) ih h hm hrank

end Setup

end TypeExport
