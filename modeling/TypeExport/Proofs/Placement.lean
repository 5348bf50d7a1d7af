import TypeExport.Proofs.Faultless
import TypeExport.Proofs.Run.Relocated
import TypeExport.Proofs.Run.Varying

/-!
# What locations do not influence

Rules that place types elsewhere may make a run fail, because two declarations
of one name come together in a unit.  But two runs that succeed, whatever their
rules about locations are, declare the same types in the same order, by the same
declarations (`Setup.declarations_ruled`).

A declared type has its declaration where its strategy says
(`Units.declarationOf`), and the units declare nothing else
(`State.Accounted`).  So but for imports the units of a run are the listed
declarations, each put where its type is placed.
-/

namespace TypeExport

/-- The declaration of a type of that strategy. -/
def Units.declarationOf (us : Units) : Strategy → Option Declaration
  | .object k _ p => (us.declared k)[p]?
  | .nativeEnum k name | .fixedStrings k name => (us.declared k).find? (·.name = name)
  | _ => none

namespace State

/-- The declared types in the order of their contexts, with their
declarations. -/
def declarations (st : State) : List (TypeId × Option Declaration) :=
  (st.contexts.toList.filter (·.strategy.unit?.isSome)).map fun c =>
    (c.type, st.units.declarationOf c.strategy)

/-- Whether the declarations of a unit are those of the types that are placed
there, in the order of their contexts. -/
def Accounted (st : State) : Prop :=
  ∀ k, (st.declaring k).map (st.units.declarationOf ·.strategy) = (st.units.declared k).map some

/-- The types that are placed in a unit have the contexts that are declared
there. -/
theorem map_type_declaring (st : State) (k : UnitId) :
    (st.declaring k).map (·.type) = st.placed k := by
  rw [placed, entries, declaring, List.filter_map, List.map_map]
  rfl

end State

namespace Setup

variable {s : Setup} {st st' : State} {r : Rules} {c c' : Context} {k : UnitId} {p : Nat}
  {D : Declaration}

/-! ## The declaration of a strategy -/

/-- In a unit of distinct names a declaration is found by its name. -/
theorem find?_declared {ds : List Declaration} (h : (ds.map (·.name)).Nodup)
    (hp : ds[p]? = some D) : ds.find? (·.name = D.name) = some D := by
  have hmem : D ∈ ds := List.mem_of_getElem? hp
  cases hfind : ds.find? (·.name = D.name) with
  | none => simpa using List.find?_eq_none.1 hfind D hmem
  | some D' =>
    have hname : D'.name = D.name := by simpa using List.find?_some hfind
    rw [List.inj_on_of_nodup_map h (List.mem_of_find?_eq_some hfind) hmem hname]

/-- What a unit declares stands there. -/
theorem get?_of_declared {us : Units} (h : (us.declared k)[p]? = some D) :
    ∃ U, us.get? k = some U ∧ U.declarations[p]? = some D := by
  unfold Units.declared at h
  cases hU : us.get? k with
  | none =>
    rw [hU] at h
    cases h
  | some U =>
    rw [hU] at h
    exact ⟨U, rfl, by rwa [← Array.getElem?_toList]⟩

/-- A context that is declared in a unit has the declaration at its position. -/
theorem Tidy.declarationOf (h : s.Tidy st) (hu : st.units.Orderly)
    (hc : (st.declaring k)[p]? = some c) (hD : (st.units.declared k)[p]? = some D) :
    st.units.declarationOf c.strategy = some D := by
  have hk : c.strategy.unit? = some k :=
    of_decide_eq_true (List.mem_filter.1 (List.mem_of_getElem? hc)).2
  have hnodup : ((st.units.declared k).map (·.name)).Nodup := by
    unfold Units.declared
    cases hU : st.units.get? k with
    | none => exact List.nodup_nil
    | some U => exact (List.nodup_append.1 (hu.nodup hU)).2.1
  have hdeclares := h.declares hc hD
  cases hdeclares with
  | nativeEnum | fixedStrings =>
    cases hk
    exact find?_declared hnodup hD
  | object =>
    cases hk
    exact hD

/-- The units declare what the contexts have, and nothing else. -/
theorem Tidy.accounted (h : s.Tidy st) (hu : st.units.Orderly) : st.Accounted := by
  intro k
  refine List.ext_getElem (by rw [List.length_map, List.length_map, h.length]) fun p hp hp' => ?_
  rw [List.getElem_map, List.getElem_map]
  exact h.declarationOf hu (List.getElem?_eq_getElem _) (List.getElem?_eq_getElem _)

/-! ## Runs under other rules about locations -/

/-- What is taken from related elements of two lists. -/
theorem map_filter_of_forall₂ {α β : Type} {R : α → α → Prop} {f g : α → β} {q : α → Bool}
    {xs ys : List α} (h : List.Forall₂ R xs ys) (hq : ∀ x y, R x y → q x = q y)
    (hfg : ∀ x ∈ xs, ∀ y ∈ ys, R x y → q x = true → g y = f x) :
    (ys.filter q).map g = (xs.filter q).map f := by
  induction h with
  | nil => rfl
  | @cons x y xs ys hxy _ ih =>
    have hrest := ih fun a ha b hb =>
      hfg a (List.mem_cons_of_mem _ ha) b (List.mem_cons_of_mem _ hb)
    rw [List.filter_cons, List.filter_cons, ← hq x y hxy]
    split
    · next hx => rw [List.map_cons, List.map_cons, hrest,
        hfg x List.mem_cons_self y List.mem_cons_self hxy hx]
    · exact hrest

/-- A run succeeds when its final state has no error. -/
theorem generate_eq_ok_iff {out : List RenderedUnit} :
    s.generate = .ok out ↔ ∃ st, s.finalState = (none, st) ∧ out = st.units.render s.options := by
  unfold generate units
  generalize s.finalState = final
  obtain ⟨_ | e, st⟩ := final
  · constructor
    · intro h
      exact ⟨st, rfl, (Except.ok.inj h).symm⟩
    · rintro ⟨_, ⟨⟩, rfl⟩
      rfl
  · constructor
    · rintro ⟨⟩
    · rintro ⟨_, ⟨⟩, -⟩

/-- Other rules about locations, and the same about everything else. -/
theorem Governed.ruled (h : s.Governed r) (ls : List LocationRule) :
    (s.ruled { r with locations := ls }.hooks).Governed { r with locations := ls } where
  loaded := h.loaded
  root := h.root
  hooks := rfl
  behaviours := h.behaviours
  members := h.members

theorem Governed.akin_ruled (h : s.Governed r) (ls : List LocationRule) :
    s.Akin (s.ruled { r with locations := ls }.hooks) where
  types := .refl s.types
  override hd hd' := by
    cases hd.symm.trans hd'
    rw [h.hooks]
    rfl

/-- A type has one declaration wherever it is placed. -/
theorem declarationOf_ruled {hooks : Hooks} (K : s.Akin (s.ruled hooks)) (h : s.Finished st)
    (h' : (s.ruled hooks).Finished st') (ht : s.Tidy st) (ht' : (s.ruled hooks).Tidy st')
    (hc : c ∈ st.contexts) (hc' : c' ∈ st'.contexts) (hcc' : c.Relocates s c')
    (hplaced : c.strategy.unit?.isSome) :
    st'.units.declarationOf c'.strategy = st.units.declarationOf c.strategy := by
  obtain ⟨k, hk⟩ := Option.isSome_iff_exists.1 hplaced
  obtain ⟨k', hk'⟩ := Option.isSome_iff_exists.1 (hcc'.strategy.isSome_unit? ▸ hplaced)
  obtain ⟨p, D, hp, hD, -⟩ := ht.exists_declaration hc hk
  obtain ⟨p', D', hp', hD', -⟩ := ht'.exists_declaration hc' hk'
  rw [ht.declarationOf h.settled.consistent.orderly hp hD,
    ht'.declarationOf h'.settled.consistent.orderly hp' hD']
  refine congrArg some ?_
  have hplace : (st.placed k)[p]? = some c.type := by
    rw [← st.map_type_declaring, List.getElem?_map, hp]
    rfl
  have hplace' : (st'.placed k')[p']? = some c.type := by
    rw [← st'.map_type_declaring, List.getElem?_map, hp', hcc'.type]
    rfl
  obtain ⟨U, hU, hUD⟩ := get?_of_declared hD
  obtain ⟨U', hU', hUD'⟩ := get?_of_declared hD'
  rcases h.declarations_cases h' K rfl hplace hplace' hU hU' hUD hUD' with
    hsame | ⟨name, names, ms, ms', rfl, rfl, hmembers, hmembers'⟩
  · exact hsame
  · rw [completes_unique K rfl hmembers hmembers']

/-- Two runs that succeed, under any two sets of rules about locations, give the
same types contexts in the same order, with strategies that differ at most in
where a type is declared.  The listed declarations are the same, and each run
declares these and nothing else, every unit those of the types placed there. -/
theorem declarations_ruled (h : s.Governed r) (ls : List LocationRule)
    {out out' : List RenderedUnit} (hout : s.generate = .ok out)
    (hout' : (s.ruled { r with locations := ls }.hooks).generate = .ok out') :
    ∃ st st', s.finalState = (none, st) ∧
      (s.ruled { r with locations := ls }.hooks).finalState = (none, st') ∧
      out = st.units.render s.options ∧ out' = st'.units.render s.options ∧
      st.Relocates s st' ∧ st'.declarations = st.declarations ∧
      (∀ x ∈ st.declarations, x.2.isSome) ∧ st.Accounted ∧ st'.Accounted := by
  obtain ⟨st, hst, rfl⟩ := generate_eq_ok_iff.1 hout
  obtain ⟨st', hst', rfl⟩ := generate_eq_ok_iff.1 hout'
  have K := h.akin_ruled ls
  have L := h.lawful
  have L' := (h.ruled ls).lawful
  have hover : { r with locations := ls }.hooks.override = s.hooks.override := by
    rw [h.hooks]
    rfl
  obtain ⟨hrun, hfinished, htidy⟩ := finished_of_finalState L hst
  obtain ⟨hrun', hfinished', htidy'⟩ := finished_of_finalState L' hst'
  obtain ⟨-, hrelocates⟩ := agree_build L L' hover {} {} .nil () st () st' hrun hrun'
  refine ⟨st, st', hst, hst', rfl, rfl, hrelocates, ?_, ?_,
    htidy.accounted hfinished.settled.consistent.orderly,
    htidy'.accounted hfinished'.settled.consistent.orderly⟩
  · refine map_filter_of_forall₂ hrelocates (fun c c' hcc' => hcc'.strategy.isSome_unit?) ?_
    intro c hc c' hc' hcc' hplaced
    rw [hcc'.type, declarationOf_ruled K hfinished hfinished' htidy htidy'
      (Array.mem_toList_iff.1 hc) (Array.mem_toList_iff.1 hc') hcc' hplaced]
  · intro x hx
    obtain ⟨c, hc, rfl⟩ := List.mem_map.1 hx
    obtain ⟨hc, hplaced⟩ := List.mem_filter.1 hc
    obtain ⟨k, hk⟩ := Option.isSome_iff_exists.1 hplaced
    obtain ⟨p, D, hp, hD, -⟩ := htidy.exists_declaration (Array.mem_toList_iff.1 hc) hk
    rw [htidy.declarationOf hfinished.settled.consistent.orderly hp hD]
    rfl

/-! ## A shop that is placed elsewhere -/

/-- Rules that place the generic definition, and the enumeration no longer. -/
def movedShopRules : Rules :=
  { shopRules with locations := [⟨"Page`1", fun _ _ => "pages"⟩] }

theorem movedShop_checks : ((shop.ruled movedShopRules.hooks).units.map
    (·.all.map (·.location))).toOption = some #["pages", ""] := by
  decide +kernel

/-- Runs on the shop that place its types differently list the same
declarations. -/
theorem declarations_ruled_shop : shop.Governed shopRules ∧
    ∃ out out', shop.generate = .ok out ∧
      (shop.ruled movedShopRules.hooks).generate = .ok out' ∧
      ∃ st st', shop.finalState = (none, st) ∧
        (shop.ruled movedShopRules.hooks).finalState = (none, st') ∧
        st.Relocates shop st' ∧ st'.declarations = st.declarations := by
  obtain ⟨us, hus, -⟩ := exists_shop_units
  obtain ⟨us', hus', -⟩ := exists_units_of_toOption movedShop_checks
  have hout : shop.generate = .ok (us.render shop.options) := by
    rw [generate, hus]
    rfl
  have hout' : (shop.ruled movedShopRules.hooks).generate = .ok (us'.render shop.options) := by
    rw [generate, hus']
    rfl
  obtain ⟨st, st', hst, hst', -, -, hrelocates, hsame, -⟩ :=
    declarations_ruled shop_governed movedShopRules.locations hout hout'
  exact ⟨shop_governed, _, _, hout, hout', st, st', hst, hst', hrelocates, hsame⟩

end Setup

end TypeExport
