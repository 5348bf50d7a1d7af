import TypeExport.Proofs.Run.Consistent

/-!
# What is to blame for a failure

A run fails for one of six reasons, each a fact about its setup
(`Setup.Blames`).  The one that depends on the order of steps is a name that a
unit refuses.  Whichever step is refused, two things claim the name at the
location of the unit: types declared there, and the places that names mentioned
there are imported from (`Setup.Claims`).
-/

namespace TypeExport

/-- What a name may stand for at a location. -/
inductive Claimant where
  /-- A type that is declared there. -/
  | declaration (type : TypeId)
  /-- What the unit at another location declares. -/
  | unit (location : String)
  /-- What a module from outside exports. -/
  | external (location : String)
  deriving DecidableEq, Repr

namespace Setup

/-- What claims a name at a location, where a member leads to the type that
`next` gives it. -/
inductive Claims (s : Setup) (next : Member → TypeId) : String → String → Claimant → Prop
  | declaration {t : TypeId} {d : Declaration} {here : String} :
      s.Reached next t → s.Outlines t d → s.Locates t here →
      Claims s next here (s.types.nameOf t) (.declaration t)
  | unit {o t : TypeId} {d : Declaration} {here there : String} :
      s.Reached next o → s.Locates o here → s.Uses next o t → s.Outlines t d →
      s.Locates t there → there ≠ here → Claims s next here (s.types.nameOf t) (.unit there)
  | external {o t : TypeId} {name location here : String} :
      s.Reached next o → s.Locates o here → s.Uses next o t → s.Redirects t name location →
      Claims s next here name (.external location)

/-- What may be to blame for an error. -/
inductive Blames (s : Setup) : RunError → Prop
  | misconfigured {cause : Misconfiguration} : s.options.validate = .error cause →
      Blames s (.misconfigured cause)
  | location {t : TypeId} {d : Descriptor} {e : RunError} : s.Resolved t →
      s.types.get? t = some d → s.hooks.location s.types d = .error e → Blames s e
  | override {t : TypeId} {d : Descriptor} {e : RunError} : s.Resolved t →
      s.types.get? t = some d → s.hooks.override d = .error e → Blames s e
  | container {t : TypeId} {d : Descriptor} : t ∈ s.roots → s.types.get? t = some d →
      s.Treats t .container → Blames s (.shape (.openContainer d.key))
  | member {t : TypeId} {parameters : List TypeId} {d : Descriptor} {name : String} :
      s.Resolved t → s.Treats t (.object parameters) → s.types.get? t = some d →
      1 < ((s.written t).map (lowerCamel ·.name)).count name →
      Blames s (.duplicateMember d.key name)
  | clash {here name : String} {a b : Claimant} : s.Claims s.site here name a →
      s.Claims s.site here name b → a ≠ b →
      Blames s (.unit (.nameTaken ({ location := here } : OutputUnit).stem name))

variable {s : Setup} {st : State} {t o : TypeId} {σ : Strategy} {k : UnitId} {U : OutputUnit}

/-! ## Claims of a consistent state -/

/-- What an import claims a name for. -/
def claimant (us : Units) : ImportSource → Claimant
  | .unit j => .unit (((us.get? j).map (·.location)).getD "")
  | .external location => .external location

/-- A type that is placed in a unit is declared there. -/
theorem Suits.outlines (h : s.Suits t σ) (hk : σ.unit? = some k) : ∃ d, s.Outlines t d := by
  cases h with
  | nativeEnum hstyle ht => exact ⟨_, _, ht, by rw [outline, hstyle]⟩
  | fixedStrings hstyle ht => exact ⟨_, _, ht, by rw [outline, hstyle]⟩
  | object ht => exact ⟨_, _, ht, rfl⟩
  | redirect | builtin | array | dictionary | nullable | unwrapped | genericInstance
  | genericParameter => cases hk

/-- An import is of a redirected type, or of one declared in another unit. -/
theorem Suits.import?_cases (h : s.Suits t σ) {i : Import} (hi : σ.import? k = some i) :
    (∃ name location, s.Redirects t name location ∧ i = ⟨name, .external location⟩) ∨
      ∃ j, σ.unit? = some j ∧ j ≠ k ∧ i = ⟨s.types.nameOf t, .unit j⟩ := by
  cases h with
  | redirect hr =>
    cases hi
    exact .inl ⟨_, _, hr, rfl⟩
  | nativeEnum | fixedStrings | object =>
    simp only [Strategy.import?, Option.ite_none_left_eq_some, Option.some.injEq] at hi
    exact .inr ⟨_, rfl, hi.1, hi.2.symm⟩
  | builtin | array | dictionary | nullable | unwrapped | genericInstance | genericParameter =>
    cases hi

/-- A reference to a redirected type imports its name. -/
theorem Suits.import?_of_redirects (h : s.Suits t σ) {name location : String}
    (hr : s.Redirects t name location) : σ.import? k = some ⟨name, .external location⟩ := by
  cases h with
  | redirect hr' =>
    obtain ⟨rfl, rfl⟩ := hr.unique hr'
    rfl
  | builtin ht | array ht | dictionary ht | nullable _ ht | unwrapped _ ht | genericInstance ht
  | genericParameter ht | nativeEnum _ ht | fixedStrings _ ht | object ht =>
    exact absurd hr ht.not_redirects

/-- A reference to a declared type imports its name from its unit, unless that
is the unit at hand. -/
theorem Suits.import?_of_outlines (h : s.Suits t σ) {d : Declaration} (hd : s.Outlines t d) :
    ∃ j, σ.unit? = some j ∧
      ∀ k, σ.import? k = if j = k then none else some ⟨s.types.nameOf t, .unit j⟩ := by
  cases h with
  | nativeEnum | fixedStrings | object => exact ⟨_, rfl, fun _ => rfl⟩
  | redirect hr => exact absurd hr hd.not_redirects
  | builtin ht | array ht | dictionary ht | nullable _ ht | unwrapped _ ht | genericInstance ht
  | genericParameter ht =>
    exact absurd hd (ht.not_outlines rfl)

/-- A declaration claims its name. -/
theorem Consistent.claims_declaration (h : s.Consistent st) (hU : st.units.get? k = some U)
    {d : Declaration} (hd : d ∈ U.declarations) :
    ∃ t, st.Knows t ∧ s.Claims s.site U.location d.name (.declaration t) := by
  obtain ⟨p, hp⟩ := Array.mem_iff_getElem?.1 hd
  obtain ⟨t, ht, houtline⟩ := h.type_of_declaration hU hp
  obtain ⟨σ, hσ, hk⟩ := mem_placed.1 (List.mem_of_getElem? ht)
  obtain ⟨V, hV, hloc⟩ := h.unit hσ hk
  cases hU.symm.trans hV
  refine ⟨t, ⟨σ, hσ⟩, ?_⟩
  rw [← Declaration.name_withMembers [] d, houtline.name_eq]
  exact .declaration (h.resolved hσ) houtline hloc

/-- A mention claims the name that it imports. -/
theorem Consistent.claims_import (h : s.Consistent st) (hU : st.units.get? k = some U)
    (hm : s.Mentioned st k t) (ht : st.Has t σ) {i : Import} (hi : σ.import? k = some i) :
    s.Claims s.site U.location i.name (claimant st.units i.source) := by
  obtain ⟨o, name, p, ho, huses⟩ := hm
  obtain ⟨V, hV, hhere⟩ := h.unit ho rfl
  cases hU.symm.trans hV
  have hsuits := h.suits ht
  rcases hsuits.import?_cases hi with ⟨name, location, hr, rfl⟩ | ⟨j, hj, hne, rfl⟩
  · exact .external (h.resolved ho) hhere huses hr
  · obtain ⟨W, hW, hthere⟩ := h.unit ht hj
    obtain ⟨d, hd⟩ := hsuits.outlines hj
    have hlocation : W.location ≠ U.location := fun e => hne (h.orderly.location hW hU e)
    simpa [claimant, hW] using
      Claims.unit (h.resolved ho) hhere huses hd hthere hlocation

/-- An import that is there claims its name. -/
theorem Consistent.claims_imported (h : s.Consistent st) (hU : st.units.get? k = some U)
    {i : Import} (hi : i ∈ U.imports) :
    s.Claims s.site U.location i.name (claimant st.units i.source) := by
  obtain ⟨t, σ, hm, ht, himport⟩ := h.imported hU hi
  exact h.claims_import hU hm ht himport

theorem claimant_ne_declaration (us : Units) (source : ImportSource) :
    claimant us source ≠ .declaration t := by
  cases source <;> exact fun h => by cases h

/-- Imports from different sources are claims of different claimants. -/
theorem Consistent.claimant_inj (h : s.Consistent st) {t' : TypeId} {σ' : Strategy}
    {i i' : Import} (ht : st.Has t σ) (ht' : st.Has t' σ') (hi : σ.import? k = some i)
    (hi' : σ'.import? k = some i')
    (heq : claimant st.units i.source = claimant st.units i'.source) :
    i.source = i'.source := by
  rcases (h.suits ht).import?_cases hi with ⟨_, _, -, rfl⟩ | ⟨j, hj, -, rfl⟩ <;>
    rcases (h.suits ht').import?_cases hi' with ⟨_, _, -, rfl⟩ | ⟨j', hj', -, rfl⟩
  · cases heq
    rfl
  · cases heq
  · cases heq
  · obtain ⟨V, hV, -⟩ := h.unit ht hj
    obtain ⟨V', hV', -⟩ := h.unit ht' hj'
    simp only [claimant, hV, hV', Option.map_some, Option.getD_some, Claimant.unit.injEq] at heq
    rw [h.orderly.location hV hV' heq]

/-! ## Refusals -/

theorem stem_of_location {here : String} (h : U.location = here) :
    U.stem = ({ location := here } : OutputUnit).stem := by
  simp [OutputUnit.stem, h]

/-- A declaration is refused when its name is claimed for something else. -/
theorem Consistent.blames_declaration (h : s.Consistent st) (hnew : ¬ st.Knows t)
    (hr : s.Resolved t) {location : String} (hl : s.Locates t location) {d : Declaration}
    (hd : s.Outlines t d) {e : UnitError} (he : st.units.RefusesDeclaration location d e) :
    s.Blames (.unit e) := by
  obtain ⟨k, U, hU, hloc, rfl, htaken⟩ := he
  have hself : s.Claims s.site U.location d.name (.declaration t) := by
    rw [hd.name_eq]
    exact .declaration hr hd (hloc ▸ hl)
  rw [stem_of_location rfl]
  rcases htaken with ⟨other, hother, hname⟩ | ⟨i, hi, hname⟩
  · obtain ⟨t', hknown, hclaim⟩ := h.claims_declaration hU hother
    rw [hname] at hclaim
    refine .clash hself hclaim fun heq => ?_
    cases heq
    exact hnew hknown
  · have hclaim := h.claims_imported hU hi
    rw [hname] at hclaim
    exact .clash hself hclaim fun heq => claimant_ne_declaration _ _ heq.symm

/-- An import is refused when its name is claimed for something else. -/
theorem Consistent.blames_import (h : s.Consistent st) (hm : s.Mentioned st k t)
    (ht : st.Has t σ) {i : Import} (hi : σ.import? k = some i) {e : UnitError}
    (he : st.units.RefusesImport k i e) : s.Blames (.unit e) := by
  obtain ⟨U, hU, -, rfl, htaken⟩ := he
  have hself := h.claims_import hU hm ht hi
  rw [stem_of_location rfl]
  rcases htaken with ⟨d, hd, hname⟩ | ⟨other, hother, hname, hsource⟩
  · obtain ⟨t', -, hclaim⟩ := h.claims_declaration hU hd
    rw [hname] at hclaim
    exact .clash hself hclaim (claimant_ne_declaration _ _)
  · obtain ⟨t', σ', -, ht', hi'⟩ := h.imported hU hother
    have hclaim := h.claims_imported hU hother
    rw [hname] at hclaim
    exact .clash hclaim hself fun heq => hsource (h.claimant_inj ht' ht hi' hi heq)

end Setup

end TypeExport
