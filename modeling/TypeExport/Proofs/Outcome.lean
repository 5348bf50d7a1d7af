import TypeExport.Proofs.Run.Finished

/-!
# When a run succeeds

A run succeeds exactly when a setup conforms: the options are honoured, no rules
compete for a type, no two members of an object have one name, and no name is
claimed twice at a location (`Setup.Conforms`).  A run that fails names a
condition that is violated (`Setup.exists_units_iff`).

Two conditions are narrower or wider than one would say at first.  Rules may
compete for a `Nullable` that only members have, because a run never asks about
it.  And an open container cannot be a root.
-/

namespace TypeExport

namespace Setup

variable {s : Setup} {r : Rules} {st : State} {us : Units} {t o : TypeId} {σ : Strategy}
  {k : UnitId} {U : OutputUnit} {here name : String} {a b : Claimant}

/-- Whether nothing in a setup is in the way of a run that asks its rules about
some types. -/
structure Conforms (s : Setup) (r : Rules) (asks : TypeId → Prop) : Prop where
  /-- The options are honoured. -/
  valid : s.options.validate = .ok ()
  /-- No rules compete for a type that is asked about. -/
  decided : ∀ t d, asks t → s.types.get? t = some d →
    (r.placing d.key).length ≤ 1 ∧ (r.redirecting d.key).length ≤ 1
  /-- No two members of an object have one name. -/
  members : ∀ o parameters, s.Reachable o → s.Treats o (.object parameters) →
    ((s.written o).map (lowerCamel ·.name)).Nodup
  /-- A name is claimed once at a location. -/
  claims : ∀ here name a b, s.Claims (·.type) here name a → s.Claims (·.type) here name b → a = b

/-- Whether an error names a condition that a setup violates. -/
inductive Violates (s : Setup) (r : Rules) : RunError → Prop
  | options {cause : Misconfiguration} : s.options.validate = .error cause →
      Violates s r (.misconfigured cause)
  | rules {t : TypeId} {d : Descriptor} {kinds : List RuleKind} : s.Resolved t →
      s.types.get? t = some d →
      1 < (r.placing d.key).length ∨ 1 < (r.redirecting d.key).length →
      Violates s r (.ambiguous d.key kinds)
  | container {t : TypeId} {d : Descriptor} : t ∈ s.roots → s.types.get? t = some d →
      s.types.form? t = some .container → Violates s r (.shape (.openContainer d.key))
  | members {o : TypeId} {parameters : List TypeId} {d : Descriptor} {name : String} :
      s.Reachable o → s.Treats o (.object parameters) → s.types.get? o = some d →
      1 < ((s.written o).map (lowerCamel ·.name)).count name →
      Violates s r (.duplicateMember d.key name)
  | claims {here name : String} {a b : Claimant} : s.Claims (·.type) here name a →
      s.Claims (·.type) here name b → a ≠ b →
      Violates s r (.unit (.nameTaken ({ location := here } : OutputUnit).stem name))

/-! ## Claims of members and of their sites -/

theorem Treats.bare_of_object {parameters : List TypeId} (h : s.Treats o (.object parameters)) :
    s.types.bare o = o :=
  Universe.bare_of_ne_absent (by simp [h.form?])

theorem Uses.bare {next : Member → TypeId} (h : s.Uses next o t) : s.types.bare o = o := by
  obtain ⟨parameters, m, ho, -⟩ := h
  exact ho.bare_of_object

/-- Claims depend on where members lead only by the types that are no
`Nullable`. -/
theorem Claims.lead {next next' : Member → TypeId}
    (hreach : ∀ {t}, s.types.bare t = t → s.Reached next t → s.Reached next' t)
    (huses : ∀ {o t}, s.types.bare t = t → s.Uses next o t → s.Uses next' o t)
    (hredirect : ∀ {t name location}, s.Redirects t name location → s.types.bare t = t)
    (h : s.Claims next here name a) : s.Claims next' here name a := by
  cases h with
  | declaration ht hd hl => exact .declaration (hreach hd.bare ht) hd hl
  | unit ho hl hu hd hthere hne =>
    exact .unit (hreach hu.bare ho) hl (huses hd.bare hu) hd hthere hne
  | external ho hl hu ht => exact .external (hreach hu.bare ho) hl (huses (hredirect ht) hu) ht

/-- It makes no difference to claims whether members lead to their types or to
their sites. -/
theorem claims_site_iff (h : s.Governed r) (hr : s.RedirectsDeclared r) :
    s.Claims s.site here name a ↔ s.Claims (·.type) here name a := by
  have peels := h.peelsNullable hr
  constructor
  · exact Claims.lead (fun ht => (resolved_iff_reachable peels ht).1)
      (fun ht => (uses_site_iff peels ht).1) (h.bare_of_redirects hr)
  · exact Claims.lead (fun ht => (resolved_iff_reachable peels ht).2)
      (fun ht => (uses_site_iff peels ht).2) (h.bare_of_redirects hr)

/-! ## Failures -/

/-- What is to blame for an error is a violated condition. -/
theorem Blames.violates (h : s.Governed r) (hr : s.RedirectsDeclared r) {e : RunError}
    (he : s.Blames e) : s.Violates r e := by
  cases he with
  | misconfigured hvalid => exact .options hvalid
  | @location t d _ ht hd he =>
    rw [h.location] at he
    rcases r.location_cases s.types d with ⟨-, location, hok⟩ | ⟨hlt, kinds, herror⟩
    · cases he.symm.trans hok
    · cases he.symm.trans herror
      exact .rules ht hd (.inl hlt)
  | @override t d _ ht hd he =>
    rw [h.override] at he
    rcases Rules.override_cases h.behaviours d with ⟨-, hok⟩ | ⟨rule, -, hok⟩ | ⟨hlt, kinds, herror⟩
    · cases he.symm.trans hok
    · cases he.symm.trans hok
    · cases he.symm.trans herror
      exact .rules ht hd (.inr hlt)
  | container ht hd htreats => exact .container ht hd htreats.form?
  | member ht hobject hd hcount =>
    exact .members (ht.reachable (h.peelsNullable hr)) hobject hd hcount
  | clash ha hb hne =>
    exact .claims ((claims_site_iff h hr).1 ha) ((claims_site_iff h hr).1 hb) hne

/-- A setup that conforms violates nothing, unless a root is an open
container. -/
theorem Violates.not_conforms {e : RunError} (he : s.Violates r e)
    (hc : s.Conforms r s.Resolved) :
    ∃ t ∈ s.roots, s.types.form? t = some .container := by
  cases he with
  | options hvalid => cases hc.valid.symm.trans hvalid
  | rules ht hd hlt =>
    obtain ⟨hplacing, hredirecting⟩ := hc.decided _ _ ht hd
    omega
  | container ht _ hform => exact ⟨_, ht, hform⟩
  | @members o parameters d name ho hobject hd hcount =>
    have := List.nodup_iff_count_le_one.1 (hc.members o parameters ho hobject) name
    omega
  | claims ha hb hne => exact absurd (hc.claims _ _ _ _ ha hb) hne

/-! ## Successes -/

/-- The decision about a type with a context was found. -/
theorem Suits.override (h : s.Suits t σ) :
    ∃ d decision, s.types.get? t = some d ∧ s.hooks.override d = .ok decision := by
  cases h with
  | redirect hr =>
    obtain ⟨d, hd, hover⟩ := hr
    exact ⟨d, _, hd, hover⟩
  | builtin ht | array ht | dictionary ht | nullable _ ht | unwrapped _ ht | genericInstance ht
  | genericParameter ht | nativeEnum _ ht | fixedStrings _ ht | object ht =>
    obtain ⟨d, hd, hover, -⟩ := ht
    exact ⟨d, _, hd, hover⟩

/-- An open container has no context. -/
theorem Suits.not_container (h : s.Suits t σ) : ¬ s.Treats t .container := by
  intro hc
  cases h with
  | redirect hr => exact hc.not_redirects hr
  | builtin ht | array ht | dictionary ht | nullable _ ht | unwrapped _ ht | genericInstance ht
  | genericParameter ht | nativeEnum _ ht | fixedStrings _ ht | object ht =>
    cases hc.unique ht

namespace Finished

variable (h : s.Finished st)
include h

/-- No rules competed for a type with a context. -/
theorem decided (g : s.Governed r) {d : Descriptor} (ht : s.Resolved t)
    (hd : s.types.get? t = some d) :
    (r.placing d.key).length ≤ 1 ∧ (r.redirecting d.key).length ≤ 1 := by
  obtain ⟨σ, hσ⟩ := h.knows_iff.2 ht
  obtain ⟨location, e, he, hl⟩ := h.settled.consistent.located hσ
  obtain ⟨e', decision, he', hover⟩ := (h.settled.consistent.suits hσ).override
  cases hd.symm.trans he
  cases hd.symm.trans he'
  rw [g.location] at hl
  rw [g.override] at hover
  constructor
  · rcases r.location_cases s.types d with ⟨hle, -⟩ | ⟨-, kinds, herror⟩
    · exact hle
    · cases hl.symm.trans herror
  · rcases Rules.override_cases g.behaviours d with ⟨hnone, -⟩ | ⟨rule, hone, -⟩ |
      ⟨-, kinds, herror⟩
    · simp [hnone]
    · simp [hone]
    · cases hover.symm.trans herror

/-- The members of an object have different names. -/
theorem nodup_members {parameters : List TypeId} (ho : s.Resolved o)
    (ht : s.Treats o (.object parameters)) :
    ((s.written o).map (lowerCamel ·.name)).Nodup := by
  obtain ⟨k, p, hp⟩ := h.placed ho ⟨_, ht, rfl⟩
  obtain ⟨U, d, hU, -, hd, -⟩ := h.settled.consistent.declaration_of_type hp
  obtain ⟨members, -, hmembers, hnodup, -⟩ := h.declaration_of_object ht hp hU hd
  have hnames : List.Forall₂ (· = ·) ((s.written o).map (lowerCamel ·.name))
      (members.map (·.name)) := by
    rw [List.forall₂_map_left_iff, List.forall₂_map_right_iff]
    exact hmembers.imp fun _ _ hm => hm.name.symm
  rw [List.forall₂_eq_eq_eq] at hnames
  rw [hnames]
  exact hnodup

/-- What mentions a type at a location has what it needs from there. -/
theorem supplied (ho : s.Resolved o) (hl : s.Locates o here) (huses : s.Uses s.site o t) :
    ∃ k U, st.units.get? k = some U ∧ U.location = here ∧ st.Supplied k t := by
  obtain ⟨parameters, m, ht, hm, hmention⟩ := huses
  obtain ⟨k, p, hp⟩ := h.placed ho ⟨_, ht, rfl⟩
  obtain ⟨U, d, hU, hloc, hd, -⟩ := h.settled.consistent.declaration_of_type hp
  obtain ⟨members, -, -, -, hsupplied⟩ := h.declaration_of_object ht hp hU hd
  exact ⟨k, U, hU, hloc.unique hl, hsupplied t ⟨parameters, m, ht, hm, hmention⟩⟩

/-- A claim stands for a declaration or an import of the unit at its
location. -/
theorem stands (hclaim : s.Claims s.site here name a) :
    ∃ k U, st.units.get? k = some U ∧ U.location = here ∧
      ((∃ (t : TypeId) (p : Nat), a = .declaration t ∧ (st.placed k)[p]? = some t ∧
          (U.declarations.toList.map (·.name))[p]? = some name) ∨
        ∃ i ∈ U.imports, i.name = name ∧ a = claimant st.units i.source) := by
  have consistent := h.settled.consistent
  cases hclaim with
  | @declaration t d _ ht hd hl =>
    obtain ⟨k, p, hp⟩ := h.placed ht hd
    obtain ⟨U, d', hU, hloc, hget, houtline⟩ := consistent.declaration_of_type hp
    refine ⟨k, U, hU, hloc.unique hl, .inl ⟨t, p, rfl, hp, ?_⟩⟩
    rw [List.getElem?_map, Array.getElem?_toList, hget, Option.map_some, ← houtline.name_eq,
      Declaration.name_withMembers]
  | @unit o t d _ there ho hl huses hd hthere hne =>
    obtain ⟨k, U, hU, hhere, σ, hσ, himport⟩ := h.supplied ho hl huses
    obtain ⟨j, hj, hi⟩ := (consistent.suits hσ).import?_of_outlines hd
    obtain ⟨V, hV, hloc⟩ := consistent.unit hσ hj
    have hother : j ≠ k := by
      rintro rfl
      cases hU.symm.trans hV
      exact hne (hthere.unique (hhere ▸ hloc))
    obtain ⟨U', hU', hmem⟩ := himport _ ((hi k).trans (if_neg hother))
    cases hU.symm.trans hU'
    refine ⟨k, U, hU, hhere, .inr ⟨_, hmem, rfl, ?_⟩⟩
    simp [claimant, hV, hloc.unique hthere]
  | external ho hl huses hr =>
    obtain ⟨k, U, hU, hhere, σ, hσ, himport⟩ := h.supplied ho hl huses
    obtain ⟨U', hU', hmem⟩ := himport _ ((consistent.suits hσ).import?_of_redirects hr)
    cases hU.symm.trans hU'
    exact ⟨k, U, hU, hhere, .inr ⟨_, hmem, rfl, rfl⟩⟩

/-- A name is claimed once at a location. -/
theorem claims_unique (ha : s.Claims s.site here name a) (hb : s.Claims s.site here name b) :
    a = b := by
  have orderly := h.settled.consistent.orderly
  obtain ⟨k, U, hU, hhere, hstand⟩ := h.stands ha
  obtain ⟨k', U', hU', hhere', hstand'⟩ := h.stands hb
  cases orderly.location hU hU' (hhere.trans hhere'.symm)
  cases hU.symm.trans hU'
  obtain ⟨himports, hdeclarations, hdisjoint⟩ := List.nodup_append.1 (orderly.nodup hU)
  rcases hstand with ⟨t, p, rfl, hp, hname⟩ | ⟨i, hi, rfl, rfl⟩ <;>
    rcases hstand' with ⟨t', p', rfl, hp', hname'⟩ | ⟨i', hi', hname', rfl⟩
  · have hlt := (List.getElem?_eq_some_iff.1 hname).1
    cases (List.getElem?_inj hlt hdeclarations).1 (hname.trans hname'.symm)
    cases hp.symm.trans hp'
    rfl
  · exact absurd hname' (hdisjoint _ (List.mem_map_of_mem (Array.mem_toList_iff.2 hi')) _
      (List.mem_of_getElem? hname))
  · exact absurd rfl (hdisjoint _ (List.mem_map_of_mem (Array.mem_toList_iff.2 hi)) _
      (List.mem_of_getElem? hname'))
  · cases List.inj_on_of_nodup_map himports (Array.mem_toList_iff.2 hi')
      (Array.mem_toList_iff.2 hi) hname'
    rfl

/-- No root is an open container. -/
theorem root_ne_container (g : s.Governed r) (hr : s.RedirectsDeclared r) :
    ∀ t ∈ s.roots, s.types.form? t ≠ some .container := by
  intro t ht hform
  obtain ⟨σ, hσ⟩ := h.root t ht
  obtain ⟨d, hd, hdform⟩ := Universe.get?_of_form? hform
  refine (h.settled.consistent.suits hσ).not_container ?_
  rw [← hdform]
  refine g.treats hr hd ?_
  generalize d.kind = kind at hdform ⊢
  cases Universe.hasForm_of_eq hdform
  exact id

/-- A run that succeeds is that of a setup that conforms. -/
theorem conforms (g : s.Governed r) (hr : s.RedirectsDeclared r) :
    s.Conforms r s.Resolved where
  valid := h.valid
  decided _ _ ht hd := h.decided g ht hd
  members _ _ ho ht :=
    h.nodup_members ((resolved_iff_reachable (g.peelsNullable hr) ht.bare_of_object).2 ho) ht
  claims _ _ _ _ ha hb :=
    h.claims_unique ((claims_site_iff g hr).2 ha) ((claims_site_iff g hr).2 hb)

end Finished

/-- A run succeeds exactly when its setup conforms and no root is an open
container, and otherwise names a condition that is violated. -/
theorem exists_units_iff (h : s.Governed r) (hr : s.RedirectsDeclared r) :
    ((∃ us, s.units = .ok us) ↔
      s.Conforms r s.Resolved ∧ ∀ t ∈ s.roots, s.types.form? t ≠ some .container) ∧
      ∀ e, s.units = .error e → s.Violates r e := by
  have fails : ∀ e, s.units = .error e → s.Violates r e :=
    fun e he => (blames_of_units h.lawful he).violates h hr
  refine ⟨⟨?_, ?_⟩, fails⟩
  · rintro ⟨us, hus⟩
    obtain ⟨st, hst, -⟩ := finished_of_units h.lawful hus
    exact ⟨hst.conforms h hr, hst.root_ne_container h hr⟩
  · rintro ⟨conforms, hroots⟩
    cases hus : s.units with
    | ok us => exact ⟨us, rfl⟩
    | error e =>
      obtain ⟨t, ht, hform⟩ := (fails e hus).not_conforms conforms
      exact absurd hform (hroots t ht)

/-- A shop conforms, and its run succeeds. -/
theorem exists_units_iff_shop : shop.Governed shopRules ∧ shop.RedirectsDeclared shopRules ∧
    (∃ us, shop.units = .ok us) ∧ shop.Conforms shopRules shop.Resolved := by
  obtain ⟨us, hus, -⟩ := exists_shop_units
  exact ⟨shop_governed, shop_redirectsDeclared, ⟨us, hus⟩,
    ((exists_units_iff shop_governed shop_redirectsDeclared).1.1 ⟨us, hus⟩).1⟩

/-! ## An open root and competing rules -/

/-- A document with a member that may be absent and one that is a list. -/
@[irreducible] def crateText : String :=
  r#"[[["object","A",[],[["a","int?"],["b","List<int>"]]]],["A"]]"#

/-- Two rules for the `Nullable` of the document. -/
def crateRules : Rules where
  locations := [⟨"System.Nullable`1<System.Int32>", fun _ _ => "a"⟩,
    ⟨"System.Nullable`1<System.Int32>", fun _ _ => "b"⟩]

/-- The setup of the document under the two rules. -/
def crate : Setup := ofDocument crateText {} crateRules

/-- The setup whose only root is the open list, without rules. -/
def openCrate : Setup := { ofDocument crateText {} {} with roots := [⟨4⟩] }

theorem crate_checks : loads crateText = true ∧
    (openCrate.types.get? ⟨4⟩).map (·.kind) = some (.container .list) ∧
    crate.roots = [⟨0⟩] ∧ (crate.types.get? ⟨0⟩).map (·.kind) = some (.object []) ∧
    (crate.written ⟨0⟩).map (·.type) = [⟨3⟩, ⟨5⟩] ∧
    (crate.types.get? ⟨3⟩).map (fun d => (crateRules.placing d.key).length) = some 2 ∧
    crate.units.isOk = true := by
  decide +kernel

theorem crate_governed : crate.Governed crateRules :=
  governed_ofDocument {} crate_checks.1 rfl rfl

/-- Other roots of the same types do not matter to the rules. -/
theorem Governed.withRoots (h : s.Governed r) {roots : List TypeId}
    (hroots : ∀ t ∈ roots, s.types.Issued t) : ({ s with roots } : Setup).Governed r :=
  ⟨h.loaded, hroots, h.hooks, h.behaviours, h.members⟩

theorem openCrate_governed : openCrate.Governed {} := by
  refine (governed_ofDocument {} crate_checks.1 rfl rfl).withRoots fun t ht => ?_
  obtain rfl : t = ⟨4⟩ := List.mem_singleton.1 ht
  obtain ⟨d, hd, -⟩ := Option.map_eq_some_iff.1 crate_checks.2.1
  exact Universe.issued_of_get? hd

theorem openCrate_root : ∀ t ∈ openCrate.roots, openCrate.types.form? t = some .container := by
  intro t ht
  obtain rfl : t = ⟨4⟩ := List.mem_singleton.1 ht
  obtain ⟨d, hd, hkind⟩ := Option.map_eq_some_iff.1 crate_checks.2.1
  rw [Universe.form?_of_get? hd, hkind]
  rfl

/-- From open containers nothing else is reached. -/
theorem Reached.container {next : Member → TypeId}
    (hroots : ∀ t ∈ s.roots, s.types.form? t = some .container) (h : s.Reached next t) :
    s.types.form? t = some .container := by
  induction h with
  | root ht => exact hroots _ ht
  | part _ hpart ih =>
    obtain ⟨form, ht, hc⟩ := hpart
    cases Option.some.inj (ht.form?.symm.trans ih)
    cases hc
  | member _ ho _ ih => cases Option.some.inj (ho.form?.symm.trans ih)

/-- Open containers claim nothing. -/
theorem Claims.not_container {next : Member → TypeId}
    (hroots : ∀ t ∈ s.roots, s.types.form? t = some .container) :
    ¬ s.Claims next here name a := by
  have object : ∀ {o t}, s.Reached next o → ¬ s.Uses next o t := by
    rintro o t ho ⟨parameters, m, ht, -⟩
    cases Option.some.inj (ht.form?.symm.trans (ho.container hroots))
  intro h
  cases h with
  | declaration ht hd =>
    obtain ⟨form, htreats, ho⟩ := hd
    cases Option.some.inj (htreats.form?.symm.trans (ht.container hroots))
    cases ho
  | unit ho _ huses => exact object ho huses
  | external ho _ huses => exact object ho huses

theorem openCrate_conforms : openCrate.Conforms {} openCrate.Reachable where
  valid := by decide +kernel
  decided _ _ _ _ := ⟨Nat.zero_le 1, Nat.zero_le 1⟩
  members _ _ ho ht := by
    cases Option.some.inj (ht.form?.symm.trans (ho.container openCrate_root))
  claims _ _ _ _ ha := absurd ha (Claims.not_container openCrate_root)

theorem crate_not_conforms : ¬ crate.Conforms crateRules crate.Reachable := by
  intro h
  obtain ⟨-, -, hroots, hobject, htypes, hplacing, -⟩ := crate_checks
  obtain ⟨d, hd, hkind⟩ := Option.map_eq_some_iff.1 hobject
  obtain ⟨e, he, hlength⟩ := Option.map_eq_some_iff.1 hplacing
  have ht : crate.Treats ⟨0⟩ (.object []) := by
    refine ⟨d, hd, ?_, by rw [hkind]; rfl⟩
    rw [crate_governed.override]
    rfl
  have hmember : (⟨3⟩ : TypeId) ∈ (crate.written ⟨0⟩).map (·.type) := by
    rw [htypes]
    exact List.mem_cons_self
  obtain ⟨m, hm, htype⟩ := List.mem_map.1 hmember
  have hroot : (⟨0⟩ : TypeId) ∈ crate.roots := by
    rw [hroots]
    exact List.mem_singleton.2 rfl
  have hreach : crate.Reachable m.type := .member (.root hroot) ht hm
  rw [htype] at hreach
  have := (h.decided _ e hreach he).1
  omega

/-- A run may fail although nothing competes, and succeed although rules
compete for a reachable type. -/
theorem not_units_iff_reachable :
    (openCrate.Governed {} ∧ openCrate.RedirectsDeclared {} ∧
      openCrate.Conforms {} openCrate.Reachable ∧ ¬ ∃ us, openCrate.units = .ok us) ∧
    crate.Governed crateRules ∧ crate.RedirectsDeclared crateRules ∧
      (∃ us, crate.units = .ok us) ∧ ¬ crate.Conforms crateRules crate.Reachable := by
  have declared : openCrate.RedirectsDeclared {} := fun _ hrule => absurd hrule List.not_mem_nil
  refine ⟨⟨openCrate_governed, declared, openCrate_conforms, ?_⟩, crate_governed,
    fun _ hrule => absurd hrule List.not_mem_nil, ?_, crate_not_conforms⟩
  · rintro ⟨us, hus⟩
    obtain ⟨st, hst, -⟩ := finished_of_units openCrate_governed.lawful hus
    exact hst.root_ne_container openCrate_governed declared ⟨4⟩ (List.mem_singleton.2 rfl)
      (openCrate_root _ (List.mem_singleton.2 rfl))
  · have h := crate_checks.2.2.2.2.2.2
    cases hus : crate.units with
    | ok us => exact ⟨us, rfl⟩
    | error e =>
      rw [hus] at h
      cases h

end Setup

end TypeExport
