import TypeExport.Proofs.Run.Finished
import TypeExport.Proofs.Run.Parallel
import TypeExport.Proofs.Translation

/-!
# What annotations decide

With the annotations in effect one expression is written for a type
(`Setup.Written.unique`), and setups that treat types alike write the same one
(`Setup.Written.akin`).  Other annotations at the use site change at most
whether the items of the expression may be null: the element of an array, the
value of a dictionary, the arguments of a generic (`Setup.Written.vary`).  They
are not handed on to what the items are made of.

At a member they also decide what stands at the top of its type, and whether it
may be left out (`Setup.Completes.vary`).
-/

namespace TypeExport

/-! ## Expressions without what annotations decide -/

namespace TypeExpr

/-- The expression without what says at its top that the value may be null. -/
def peel : TypeExpr → TypeExpr
  | orNull inner | nullable inner => inner
  | e => e

/-- The expression without what says that its items may be null. -/
def peelItems : TypeExpr → TypeExpr
  | array element => array element.peel
  | dictionary key value => dictionary key value.peel
  | generic base arguments => generic base (arguments.map peel)
  | e => e

variable {e e' : TypeExpr}

theorem peel_of_not_isWrapper (h : e.isWrapper = false) : e.peel = e := by
  cases e <;> first | rfl | cases h

@[simp] theorem peel_orNullable (e : TypeExpr) (isNullable : Bool) (o : Options) :
    (e.orNullable isNullable o).peel = e.peel := by
  unfold orNullable
  split
  case isTrue => rfl
  case isFalse hadd =>
    have hbare : e.isWrapper = false := by simp_all
    rw [peel_of_not_isWrapper hbare]
    split <;> rfl

/-- What says at the top that a value may be null is not said of the items. -/
theorem peelItems_peel (h : e.peelItems = e'.peelItems) :
    e.peel.peelItems = e'.peel.peelItems := by
  cases e <;> cases e' <;> simp_all [peel, peelItems]

end TypeExpr

namespace Setup

variable {s s' : Setup} {t o : TypeId} {m m' : Member} {d d' : MemberDeclaration}

/-! ## One expression -/

mutual

/-- One expression is written for a type with the annotations in effect. -/
theorem Written.unique {a : Option Attributes} {t : TypeId} {e e' : TypeExpr}
    (h : s.Written a t e) (h' : s.Written a t e') : e = e' := by
  match h with
  | .redirected hr =>
    cases h' with
    | redirected hr' => rw [(hr.unique hr').1]
    | declared hd => exact absurd hr hd.not_redirects
    | primitive ht | sequence ht | dictionary ht | nullable _ ht | unwrapped _ ht | applied ht
    | parameter ht =>
      exact absurd hr ht.not_redirects
  | .primitive ht =>
    cases h' with
    | primitive ht' =>
      cases ht.unique ht'
      rfl
    | redirected hr => exact absurd hr ht.not_redirects
    | declared hd => exact absurd hd (ht.not_outlines rfl)
    | sequence ht' | dictionary ht' | nullable _ ht' | unwrapped _ ht' | applied ht'
    | parameter ht' =>
      cases ht.unique ht'
  | .sequence ht hd hx =>
    cases h' with
    | sequence ht' hd' hx' =>
      cases ht.unique ht'
      cases hd.symm.trans hd'
      rw [hx.unique hx']
    | redirected hr => exact absurd hr ht.not_redirects
    | declared hd => exact absurd hd (ht.not_outlines rfl)
    | primitive ht' | dictionary ht' | nullable _ ht' | unwrapped _ ht' | applied ht'
    | parameter ht' =>
      cases ht.unique ht'
  | .dictionary ht hd hnullable hkey hvalue =>
    cases h' with
    | dictionary ht' hd' hnullable' hkey' hvalue' =>
      cases ht.unique ht'
      cases hd.symm.trans hd'
      cases hnullable.symm.trans hnullable'
      rw [hkey.unique hkey', hvalue.unique hvalue']
    | redirected hr => exact absurd hr ht.not_redirects
    | declared hd => exact absurd hd (ht.not_outlines rfl)
    | primitive ht' | sequence ht' | nullable _ ht' | unwrapped _ ht' | applied ht'
    | parameter ht' =>
      cases ht.unique ht'
  | .nullable hexplicit ht hx =>
    cases h' with
    | nullable _ ht' hx' =>
      cases ht.unique ht'
      rw [hx.unique hx']
    | unwrapped hexplicit' => cases hexplicit.symm.trans hexplicit'
    | redirected hr => exact absurd hr ht.not_redirects
    | declared hd => exact absurd hd (ht.not_outlines rfl)
    | primitive ht' | sequence ht' | dictionary ht' | applied ht' | parameter ht' =>
      cases ht.unique ht'
  | .unwrapped hexplicit ht hx =>
    cases h' with
    | unwrapped _ ht' hx' =>
      cases ht.unique ht'
      exact hx.unique hx'
    | nullable hexplicit' => cases hexplicit.symm.trans hexplicit'
    | redirected hr => exact absurd hr ht.not_redirects
    | declared hd => exact absurd hd (ht.not_outlines rfl)
    | primitive ht' | sequence ht' | dictionary ht' | applied ht' | parameter ht' =>
      cases ht.unique ht'
  | .applied ht hdefinition harguments =>
    cases h' with
    | applied ht' hdefinition' harguments' =>
      cases ht.unique ht'
      rw [hdefinition.unique hdefinition', harguments.unique harguments']
    | redirected hr => exact absurd hr ht.not_redirects
    | declared hd => exact absurd hd (ht.not_outlines rfl)
    | primitive ht' | sequence ht' | dictionary ht' | nullable _ ht' | unwrapped _ ht'
    | parameter ht' =>
      cases ht.unique ht'
  | .parameter ht =>
    cases h' with
    | parameter => rfl
    | declared => rfl
    | redirected hr => exact absurd hr ht.not_redirects
    | primitive ht' | sequence ht' | dictionary ht' | nullable _ ht' | unwrapped _ ht'
    | applied ht' =>
      cases ht.unique ht'
  | .declared hd =>
    cases h' with
    | declared => rfl
    | parameter => rfl
    | redirected hr => exact absurd hr hd.not_redirects
    | primitive ht' | sequence ht' | dictionary ht' | nullable _ ht' | unwrapped _ ht'
    | applied ht' =>
      exact absurd hd (ht'.not_outlines rfl)

theorem WrittenArguments.unique {a : Option Attributes} {before xs : List TypeId}
    {es es' : List TypeExpr} (h : s.WrittenArguments a before xs es)
    (h' : s.WrittenArguments a before xs es') : es = es' := by
  match h with
  | .nil =>
    cases h'
    rfl
  | .cons hx hd hnullable hrest =>
    cases h' with
    | cons hx' hd' hnullable' hrest' =>
      cases hd.symm.trans hd'
      cases hnullable.symm.trans hnullable'
      rw [hx.unique hx', hrest.unique hrest']

end

/-! ## The same annotations -/

section Akin

variable (K : s.Akin s') (ho : s'.options = s.options)
include K ho

mutual

/-- Setups that treat types alike write alike. -/
theorem Written.akin {a a' : Option Attributes} {t : TypeId} {e : TypeExpr}
    (ha : Option.Rel Attributes.Akin a a') (h : s.Written a t e) : s'.Written a' t e := by
  match h with
  | .redirected hr => exact .redirected (K.redirects hr)
  | .primitive ht => exact .primitive (K.treats ht)
  | .sequence ht hx hw =>
    obtain ⟨x', hx', hxx'⟩ := K.types.type hx
    have written := Written.sequence (a := a') (K.treats ht) hx' (hw.akin .none)
    rwa [ho, elementNullable, Attributes.Akin.itemNullable ha hxx'] at written
  | .dictionary ht hv hnullable hkey hvalue =>
    obtain ⟨v', hv', hvv'⟩ := K.types.type hv
    rw [← K.types.valueNullable ha hvv', ← ho] at hnullable
    have written := Written.dictionary (K.treats ht) hv' hnullable (hkey.akin .none)
      (hvalue.akin .none)
    rwa [ho] at written
  | .nullable hexplicit ht hw =>
    have written := Written.nullable (a := a') (ho ▸ hexplicit) (K.treats ht) (hw.akin .none)
    rwa [ho] at written
  | .unwrapped hexplicit ht hw => exact .unwrapped (ho ▸ hexplicit) (K.treats ht) (hw.akin ha)
  | .applied ht hdefinition harguments =>
    exact .applied (K.treats ht) (hdefinition.akin .none) (harguments.akin ha)
  | .parameter ht =>
    rw [← K.types.nameOf]
    exact .parameter (K.treats ht)
  | .declared hd =>
    rw [← K.types.nameOf]
    exact .declared (K.outlines (by rw [ho]) (by rw [ho]) hd)

theorem WrittenArguments.akin {a a' : Option Attributes} {before xs : List TypeId}
    {es : List TypeExpr} (ha : Option.Rel Attributes.Akin a a')
    (h : s.WrittenArguments a before xs es) : s'.WrittenArguments a' before xs es := by
  match h with
  | .nil => exact .nil
  | .cons hw hx hnullable hrest =>
    obtain ⟨x', hx', hxx'⟩ := K.types.type hx
    rw [← K.types.argumentNullable ha hxx', ← ho] at hnullable
    have written := WrittenArguments.cons (hw.akin .none) hx' hnullable (hrest.akin ha)
    rwa [ho] at written

end

end Akin

/-! ## Other annotations -/

mutual

/-- Under other annotations the same is written but for what says that the items
may be null. -/
theorem Written.vary (hs : s.types.Sound) {a : Option Attributes} {t : TypeId} {e : TypeExpr}
    (h : s.Written a t e) (a' : Option Attributes) :
    ∃ e', s.Written a' t e' ∧ e'.peelItems = e.peelItems := by
  match h with
  | .redirected hr => exact ⟨_, .redirected hr, rfl⟩
  | .primitive ht => exact ⟨_, .primitive ht, rfl⟩
  | .sequence ht hx hw => exact ⟨_, .sequence ht hx hw, by simp [TypeExpr.peelItems]⟩
  | .dictionary ht hv _ hkey hvalue =>
    obtain ⟨isNullable, hnullable⟩ := hs.exists_valueNullable s.options.nullability a'
      (hs.part ht.form? List.mem_cons_self).1 _
    exact ⟨_, .dictionary ht hv hnullable hkey hvalue, by simp [TypeExpr.peelItems]⟩
  | .nullable hexplicit ht hw => exact ⟨_, .nullable hexplicit ht hw, rfl⟩
  | .unwrapped hexplicit ht hw =>
    obtain ⟨e', hw', hsame⟩ := hw.vary hs a'
    exact ⟨e', .unwrapped hexplicit ht hw', hsame⟩
  | .applied ht hdefinition harguments =>
    obtain ⟨es', harguments', hsame⟩ := harguments.vary hs a' fun x hx =>
      (hs.part ht.form? (List.mem_cons_of_mem _ hx)).1
    exact ⟨_, .applied ht hdefinition harguments', by simp only [TypeExpr.peelItems, hsame]⟩
  | .parameter ht => exact ⟨_, .parameter ht, rfl⟩
  | .declared hd => exact ⟨_, .declared hd, rfl⟩

theorem WrittenArguments.vary (hs : s.types.Sound) {a : Option Attributes}
    {before xs : List TypeId} {es : List TypeExpr} (h : s.WrittenArguments a before xs es)
    (a' : Option Attributes) (hissued : ∀ x ∈ before ++ xs, s.types.Issued x) :
    ∃ es', s.WrittenArguments a' before xs es' ∧
      es'.map TypeExpr.peel = es.map TypeExpr.peel := by
  match h with
  | .nil => exact ⟨[], .nil, rfl⟩
  | .cons hw hx _ hrest =>
    obtain ⟨isNullable, hnullable⟩ := hs.exists_argumentNullable s.options.nullability a'
      (fun y hy => hissued y (List.mem_append_left _ hy)) _
    obtain ⟨es', hrest', hsame⟩ := hrest.vary hs a' (by simpa using hissued)
    refine ⟨_, .cons hw hx hnullable hrest', ?_⟩
    rw [List.map_cons, List.map_cons, TypeExpr.peel_orNullable, TypeExpr.peel_orNullable, hsame]

end

/-! ## Members -/

section Members

variable (K : s.Akin s') (ho : s'.options = s.options)
include K

theorem akin_attributesOf (o : TypeId) (m : Member) :
    (s.attributesOf o m).Akin (s'.attributesOf o m) := by
  refine ⟨rfl, ?_⟩
  rw [attributesOf, attributesOf]
  rcases K.types.get?_cases o with ⟨d, d', hd, hd', hdd'⟩ | ⟨hd, hd'⟩ <;> rw [hd, hd']
  exact hdd'.context

include ho

/-- A member has one declaration, in every setup that treats types alike. -/
theorem Completes.unique (h : s.Completes o m d) (h' : s'.Completes o m d') : d = d' := by
  have ha : Option.Rel Attributes.Akin (some (s.attributesOf o m)) (some (s'.attributesOf o m)) :=
    .some (akin_attributesOf K o m)
  obtain ⟨hname, hoptional, e, hwritten, htype⟩ := h
  obtain ⟨hname', hoptional', e', hwritten', htype'⟩ := h'
  rw [K.site] at hwritten'
  cases (hwritten.akin K ho ha).unique hwritten'
  rw [memberNullable, ho, K.types.siteNullable ha] at hoptional' htype'
  rw [K.types.siteNullable ha, K.types.bare] at htype'
  cases d
  cases d'
  rw [MemberDeclaration.mk.injEq]
  exact ⟨hname.trans hname'.symm, hoptional.trans hoptional'.symm, htype.trans htype'.symm⟩

/-- The members of an object have one list of declarations. -/
theorem completes_unique {ms : List Member} {ds ds' : List MemberDeclaration}
    (h : List.Forall₂ (s.Completes o) ms ds) (h' : List.Forall₂ (s'.Completes o) ms ds') :
    ds = ds' := by
  induction h generalizing ds' with
  | nil =>
    cases h'
    rfl
  | cons hd _ ih =>
    cases h' with
    | cons hd' hrest' => rw [hd.unique K ho hd', ih hrest']

/-- Other annotations on a member change its declaration at most in whether it
may be left out, and in what says that the value or its items may be null. -/
theorem Completes.vary (hs : s.types.Sound) (hm : m.Akin m') (h : s.Completes o m d)
    (h' : s'.Completes o m' d') :
    d'.name = d.name ∧ d'.type.peel.peelItems = d.type.peel.peelItems := by
  obtain ⟨hname, -, e, hwritten, htype⟩ := h
  obtain ⟨hname', -, e', hwritten', htype'⟩ := h'
  have hsite : s'.site m' = s.site m := by rw [K.site, Setup.site, Setup.site, hm.type]
  obtain ⟨e'', hwritten'', hsame⟩ :=
    hwritten.vary hs (some (s.attributesOf o m'))
  have ha : Option.Rel Attributes.Akin (some (s.attributesOf o m')) (some (s'.attributesOf o m')) :=
    .some (akin_attributesOf K o m')
  rw [hsite] at hwritten'
  cases (hwritten''.akin K ho ha).unique hwritten'
  refine ⟨by rw [hname', hname, hm.name], ?_⟩
  rw [htype, htype']
  simp only [TypeExpr.peel_orNullable]
  exact TypeExpr.peelItems_peel hsame

end Members

/-! ## Declarations -/

/-- Two declarations of one type are the same, or are those of an object with
its members. -/
theorem Finished.declarations_cases {st st' : State} (h : s.Finished st) (h' : s'.Finished st')
    (K : s.Akin s') (ho : s'.options = s.options) {k k' : UnitId} {p p' : Nat}
    {U U' : OutputUnit} {D D' : Declaration} (hp : (st.placed k)[p]? = some o)
    (hp' : (st'.placed k')[p']? = some o) (hU : st.units.get? k = some U)
    (hU' : st'.units.get? k' = some U') (hD : U.declarations[p]? = some D)
    (hD' : U'.declarations[p']? = some D') :
    D' = D ∨ ∃ name names ms ms', D = .object name names ms ∧ D' = .object name names ms' ∧
      List.Forall₂ (s.Completes o) (s.written o) ms ∧
      List.Forall₂ (s'.Completes o) (s'.written o) ms' := by
  obtain ⟨_, hplace, houtline⟩ := h.settled.consistent.type_of_declaration hU hD
  cases hp.symm.trans hplace
  obtain ⟨_, hplace', houtline'⟩ := h'.settled.consistent.type_of_declaration hU' hD'
  cases hp'.symm.trans hplace'
  have henums : s'.options.enums = s.options.enums := by rw [ho]
  have hplural : s'.options.plural = s.options.plural := by rw [ho]
  have hsame := houtline'.unique (K.outlines henums hplural houtline)
  cases D with
  | object name names ms =>
    obtain ⟨parameters, ht⟩ := Outlines.object houtline
    obtain ⟨ms₁, hD₁, hmembers, -⟩ := h.declaration_of_object ht hp hU hD
    obtain ⟨ms', hD₂, hmembers', -⟩ := h'.declaration_of_object (K.treats ht) hp' hU' hD'
    rw [funext K.types.nameOf] at hD₂
    exact .inr ⟨_, _, ms₁, ms', hD₁, hD₂, hmembers, hmembers'⟩
  | enumeration name values =>
    cases D' <;> first | exact .inl hsame | cases hsame
  | fixedStrings name values lookup =>
    cases D' <;> first | exact .inl hsame | cases hsame

end Setup

end TypeExport
