import TypeExport.Proofs.Outcome
import TypeExport.Proofs.Run.Varying

/-!
# The order of the roots

What a run ends in depends on its roots only as a set (`Setup.units_rerooted`).
The order of the roots decides the order in which types get their contexts, and
so the order of units, of declarations and of imports, and which of several
clashes is met first.  It decides neither whether a run succeeds nor what the
unit at a location holds, because both are said of the types that are reached.
-/

namespace TypeExport

namespace Units

/-- The imports of a unit, their sources told by location. -/
def importsOf (us : Units) (U : OutputUnit) : List (String × Claimant) :=
  U.imports.toList.map fun i => (i.name, Setup.claimant us i.source)

/-- Whether two registries hold the same at the same locations, in whatever
order. -/
structure Alike (us vs : Units) : Prop where
  locations : (us.all.toList.map (·.location)).Perm (vs.all.toList.map (·.location))
  declarations : ∀ {U V}, U ∈ us.all → V ∈ vs.all → U.location = V.location →
    U.declarations.toList.Perm V.declarations.toList
  imports : ∀ {U V}, U ∈ us.all → V ∈ vs.all → U.location = V.location →
    (us.importsOf U).Perm (vs.importsOf V)

variable {us : Units} {U V : OutputUnit}

theorem mem_all_iff : U ∈ us.all ↔ ∃ k, us.get? k = some U := by
  rw [Array.mem_iff_getElem?]
  exact ⟨fun ⟨i, hi⟩ => ⟨⟨i⟩, hi⟩, fun ⟨k, hk⟩ => ⟨k.index, hk⟩⟩

theorem mem_importsOf {name : String} {a : Claimant} : (name, a) ∈ us.importsOf U ↔
    ∃ i ∈ U.imports, i.name = name ∧ Setup.claimant us i.source = a := by
  simp [importsOf]

namespace Orderly

variable (h : us.Orderly)
include h

theorem nodup_declarations (hU : U ∈ us.all) : U.declarations.toList.Nodup := by
  obtain ⟨k, hk⟩ := mem_all_iff.1 hU
  exact (List.nodup_append.1 (h.nodup hk)).2.1.of_map

theorem nodup_importsOf (hU : U ∈ us.all) : (us.importsOf U).Nodup := by
  obtain ⟨k, hk⟩ := mem_all_iff.1 hU
  have hnames : ((us.importsOf U).map Prod.fst).Nodup := by
    rw [importsOf, List.map_map]
    exact (List.nodup_append.1 (h.nodup hk)).1
  exact hnames.of_map

/-- A location has one unit. -/
theorem eq_of_location (hU : U ∈ us.all) (hV : V ∈ us.all) (hloc : U.location = V.location) :
    U = V := by
  obtain ⟨i, hi⟩ := mem_all_iff.1 hU
  obtain ⟨j, hj⟩ := mem_all_iff.1 hV
  cases h.location hi hj hloc
  exact Option.some.inj (hi.symm.trans hj)

end Orderly

/-- Whether everything that a registry holds stands in another one at the same
location. -/
structure Within (us vs : Units) : Prop where
  location : ∀ {U}, U ∈ us.all → ∃ V ∈ vs.all, V.location = U.location
  declaration : ∀ {U d}, U ∈ us.all → d ∈ U.declarations →
    ∃ V ∈ vs.all, V.location = U.location ∧ d ∈ V.declarations
  imported : ∀ {U x}, U ∈ us.all → x ∈ us.importsOf U →
    ∃ V ∈ vs.all, V.location = U.location ∧ x ∈ vs.importsOf V

theorem Within.alike {us vs : Units} (hus : us.Orderly) (hvs : vs.Orderly) (h : us.Within vs)
    (h' : vs.Within us) : us.Alike vs where
  locations := by
    rw [List.perm_ext_iff_of_nodup hus.nodup_locations hvs.nodup_locations]
    have sub : ∀ {us vs : Units}, us.Within vs → ∀ {l}, l ∈ us.all.toList.map (·.location) →
        l ∈ vs.all.toList.map (·.location) := by
      intro us vs h l hl
      obtain ⟨U, hU, rfl⟩ := List.mem_map.1 hl
      obtain ⟨V, hV, hloc⟩ := h.location (Array.mem_toList_iff.1 hU)
      exact List.mem_map.2 ⟨V, Array.mem_toList_iff.2 hV, hloc⟩
    exact fun l => ⟨sub h, sub h'⟩
  declarations {U V} hU hV hloc := by
    rw [List.perm_ext_iff_of_nodup (hus.nodup_declarations hU) (hvs.nodup_declarations hV)]
    intro d
    rw [Array.mem_toList_iff, Array.mem_toList_iff]
    constructor
    · intro hd
      obtain ⟨W, hW, hlocW, hdW⟩ := h.declaration hU hd
      rwa [hvs.eq_of_location hV hW (hloc.symm.trans hlocW.symm)]
    · intro hd
      obtain ⟨W, hW, hlocW, hdW⟩ := h'.declaration hV hd
      rwa [hus.eq_of_location hU hW (hloc.trans hlocW.symm)]
  imports {U V} hU hV hloc := by
    rw [List.perm_ext_iff_of_nodup (hus.nodup_importsOf hU) (hvs.nodup_importsOf hV)]
    intro x
    constructor
    · intro hx
      obtain ⟨W, hW, hlocW, hxW⟩ := h.imported hU hx
      rwa [hvs.eq_of_location hV hW (hloc.symm.trans hlocW.symm)]
    · intro hx
      obtain ⟨W, hW, hlocW, hxW⟩ := h'.imported hV hx
      rwa [hus.eq_of_location hU hW (hloc.trans hlocW.symm)]

end Units

namespace Setup

/-- A setup with other roots. -/
abbrev rerooted (s : Setup) (roots : List TypeId) : Setup := { s with roots }

variable {s : Setup} {r : Rules} {roots : List TypeId} {st st' : State} {t o : TypeId}

/-- Types are treated alike whatever the roots are. -/
theorem akin_rerooted (s : Setup) (roots : List TypeId) : s.Akin (s.rerooted roots) :=
  .of_eq rfl rfl

/-! ## What depends on the roots as a set -/

section Reached

variable (hroots : ∀ t ∈ s.roots, t ∈ roots)
include hroots

theorem Reached.rerooted {next : Member → TypeId} (h : s.Reached next t) :
    (s.rerooted roots).Reached next t := by
  induction h with
  | root ht => exact .root (hroots _ ht)
  | part _ hpart ih => exact .part ih hpart
  | member _ hobject hm ih => exact .member ih hobject hm

theorem Claims.rerooted {next : Member → TypeId} {here name : String} {a : Claimant}
    (h : s.Claims next here name a) : (s.rerooted roots).Claims next here name a := by
  cases h with
  | declaration ht hd hl => exact .declaration (ht.rerooted hroots) hd hl
  | unit ho hl hu hd hthere hne => exact .unit (ho.rerooted hroots) hl hu hd hthere hne
  | external ho hl hu ht => exact .external (ho.rerooted hroots) hl hu ht

theorem Blames.rerooted {e : RunError} (h : s.Blames e) : (s.rerooted roots).Blames e := by
  cases h with
  | misconfigured hvalid => exact .misconfigured hvalid
  | location ht hd he => exact .location (ht.rerooted hroots) hd he
  | override ht hd he => exact .override (ht.rerooted hroots) hd he
  | container ht hd htreats => exact .container (hroots _ ht) hd htreats
  | member ht hobject hd hcount => exact .member (ht.rerooted hroots) hobject hd hcount
  | clash ha hb hne => exact .clash (ha.rerooted hroots) (hb.rerooted hroots) hne

end Reached

/-! ## Finished states -/

namespace Finished

/-- A run that succeeds has nothing to blame. -/
theorem not_blames (h : s.Finished st) {e : RunError} : ¬ s.Blames e := by
  have consistent := h.settled.consistent
  intro he
  cases he with
  | misconfigured hvalid => cases h.valid.symm.trans hvalid
  | location ht hd he =>
    obtain ⟨σ, hσ⟩ := h.knows_iff.2 ht
    obtain ⟨location, d', hd', hl⟩ := consistent.located hσ
    cases hd.symm.trans hd'
    cases he.symm.trans hl
  | override ht hd he =>
    obtain ⟨σ, hσ⟩ := h.knows_iff.2 ht
    obtain ⟨d', decision, hd', hover⟩ := (consistent.suits hσ).override
    cases hd.symm.trans hd'
    cases he.symm.trans hover
  | container ht _ htreats =>
    obtain ⟨σ, hσ⟩ := h.root _ ht
    exact (consistent.suits hσ).not_container htreats
  | @member o parameters d name ho hobject _ hcount =>
    have := List.nodup_iff_count_le_one.1 (h.nodup_members ho hobject) name
    omega
  | clash ha hb hne => exact hne (h.claims_unique ha hb)

section Two

variable (h : s.Finished st) (h' : (s.rerooted roots).Finished st')
include h h'

/-- Two declarations of one type are the same. -/
theorem declaration_unique {k k' : UnitId} {p p' : Nat} {U U' : OutputUnit} {d d' : Declaration}
    (hp : (st.placed k)[p]? = some t) (hU : st.units.get? k = some U)
    (hd : U.declarations[p]? = some d) (hp' : (st'.placed k')[p']? = some t)
    (hU' : st'.units.get? k' = some U') (hd' : U'.declarations[p']? = some d') : d = d' := by
  have akin := s.akin_rerooted roots
  rcases h.declarations_cases h' akin rfl hp hp' hU hU' hd hd' with
    hsame | ⟨_, _, ms, ms', rfl, rfl, hms, hms'⟩
  · exact hsame.symm
  · rw [completes_unique akin rfl hms hms']

variable (hroots : ∀ t ∈ s.roots, t ∈ roots)
include hroots

/-- A declaration stands at the same location when there are more roots. -/
theorem declaration_rerooted {U : OutputUnit} {d : Declaration} (hU : U ∈ st.units.all)
    (hd : d ∈ U.declarations) :
    ∃ V ∈ st'.units.all, V.location = U.location ∧ d ∈ V.declarations := by
  have consistent := h.settled.consistent
  obtain ⟨k, hk⟩ := Units.mem_all_iff.1 hU
  obtain ⟨p, hp⟩ := Array.mem_iff_getElem?.1 hd
  obtain ⟨t, hplace, houtline⟩ := consistent.type_of_declaration hk hp
  obtain ⟨U₁, -, hU₁, hloc, -⟩ := consistent.declaration_of_type hplace
  cases hk.symm.trans hU₁
  -- the type of the declaration is reached from the other roots, and so placed
  obtain ⟨σ, hσ, -⟩ := mem_placed.1 (List.mem_of_getElem? hplace)
  have ht : (s.rerooted roots).Resolved t := (consistent.resolved hσ).rerooted hroots
  obtain ⟨k', p', hplace'⟩ := h'.placed ht houtline
  obtain ⟨V, d', hV, hloc', hd', -⟩ := h'.settled.consistent.declaration_of_type hplace'
  cases h.declaration_unique h' hplace hk hp hplace' hV hd'
  exact ⟨V, Units.mem_all_iff.2 ⟨k', hV⟩, Locates.unique hloc' hloc, Array.mem_of_getElem? hd'⟩

/-- An import stands at the same location when there are more roots. -/
theorem import_rerooted {U : OutputUnit} {x : String × Claimant} (hU : U ∈ st.units.all)
    (hx : x ∈ st.units.importsOf U) :
    ∃ V ∈ st'.units.all, V.location = U.location ∧ x ∈ st'.units.importsOf V := by
  obtain ⟨k, hk⟩ := Units.mem_all_iff.1 hU
  obtain ⟨name, a⟩ := x
  obtain ⟨i, hi, rfl, rfl⟩ := Units.mem_importsOf.1 hx
  have hclaim := (h.settled.consistent.claims_imported hk hi).rerooted hroots
  obtain ⟨k', V, hV, hloc, hstands⟩ := h'.stands hclaim
  refine ⟨V, Units.mem_all_iff.2 ⟨k', hV⟩, hloc, ?_⟩
  rcases hstands with ⟨t, -, hdeclared, -⟩ | ⟨j, hj, hname, hsource⟩
  · exact absurd hdeclared (claimant_ne_declaration _ _)
  · exact Units.mem_importsOf.2 ⟨j, hj, hname, hsource.symm⟩

/-- Everything stands at the same location when there are more roots. -/
theorem within : st.units.Within st'.units where
  location {U} hU := by
    obtain ⟨k, hk⟩ := Units.mem_all_iff.1 hU
    obtain ⟨d, hd⟩ := Array.exists_mem_of_ne_empty _ (h.settled.filled hk)
    obtain ⟨V, hV, hloc, -⟩ := h.declaration_rerooted h' hroots hU hd
    exact ⟨V, hV, hloc⟩
  declaration hU hd := h.declaration_rerooted h' hroots hU hd
  imported hU hx := h.import_rerooted h' hroots hU hx

end Two

end Finished

/-! ## Two runs -/

/-- A run from other roots succeeds when the run from at least these roots
does. -/
theorem units_ok_of_rerooted (L : s.Lawful) (L' : (s.rerooted roots).Lawful)
    (hroots : ∀ t ∈ s.roots, t ∈ roots) {us' : Units}
    (h' : (s.rerooted roots).units = .ok us') : ∃ us, s.units = .ok us := by
  obtain ⟨st', hst', -⟩ := finished_of_units L' h'
  cases h : s.units with
  | ok us => exact ⟨us, rfl⟩
  | error e => exact absurd ((blames_of_units L h).rerooted hroots) hst'.not_blames

/-- Runs from the same set of roots both fail, or both succeed and leave the
same at the same locations. -/
theorem units_rerooted (h : s.Governed r) (hroots : ∀ t, t ∈ roots ↔ t ∈ s.roots) :
    (∃ e e', s.units = .error e ∧ (s.rerooted roots).units = .error e') ∨
      ∃ us us', s.units = .ok us ∧ (s.rerooted roots).units = .ok us' ∧ us.Alike us' := by
  have more : ∀ t ∈ s.roots, t ∈ roots := fun t => (hroots t).2
  have fewer : ∀ t ∈ roots, t ∈ s.roots := fun t => (hroots t).1
  have L := h.lawful
  have L' : (s.rerooted roots).Lawful :=
    (h.withRoots fun t ht => h.root t (fewer t ht)).lawful
  cases hus : s.units with
  | ok us =>
    obtain ⟨us', hus'⟩ := units_ok_of_rerooted (s := s.rerooted roots) L' L fewer hus
    obtain ⟨st, hst, rfl⟩ := finished_of_units L hus
    obtain ⟨st', hst', rfl⟩ := finished_of_units L' hus'
    have within : st.units.Within st'.units := hst.within hst' more
    have within' : st'.units.Within st.units := Finished.within hst' hst fewer
    exact .inr ⟨_, _, rfl, hus', within.alike hst.settled.consistent.orderly
      hst'.settled.consistent.orderly within'⟩
  | error e =>
    cases hus' : (s.rerooted roots).units with
    | ok us' =>
      obtain ⟨us, hok⟩ := units_ok_of_rerooted L L' more hus'
      cases hus.symm.trans hok
    | error e' => exact .inl ⟨e, e', rfl, rfl⟩

/-- Naming a root of a shop twice changes nothing. -/
theorem units_rerooted_shop : shop.Governed shopRules ∧
    (∀ t, t ∈ shop.roots ++ shop.roots ↔ t ∈ shop.roots) ∧
    ∃ us us', shop.units = .ok us ∧
      (shop.rerooted (shop.roots ++ shop.roots)).units = .ok us' ∧ us.Alike us' := by
  have hroots : ∀ t, t ∈ shop.roots ++ shop.roots ↔ t ∈ shop.roots := by simp
  refine ⟨shop_governed, hroots, ?_⟩
  rcases units_rerooted shop_governed hroots with ⟨e, -, herror, -⟩ | hboth
  · obtain ⟨us, hus, -⟩ := exists_shop_units
    cases hus.symm.trans herror
  · exact hboth

end Setup

end TypeExport
