import Mathlib.Data.Set.Function
import TypeExport.Proofs.Run.Finished

/-!
# Declarations correspond to types

When a run succeeds, its declarations are in one-to-one correspondence with the
objects and enumerations that are reachable and not redirected
(`Setup.bijOn_places`).  Each is declared in the unit of its location, and what
is declared there is its outline.
-/

namespace TypeExport

/-- The places of the declarations of all units. -/
def Units.places (us : Units) : Set (UnitId × Nat) :=
  {place | ∃ U d, us.get? place.1 = some U ∧ U.declarations[place.2]? = some d}

namespace Setup

variable {s : Setup} {r : Rules} {st : State} {us : Units} {t : TypeId}

/-- Whether a run is to declare a type. -/
def Declares (s : Setup) (t : TypeId) : Prop := s.Reachable t ∧ ∃ d, s.Outlines t d

/-- Whether the declaration at a place is that of a type. -/
def DeclaredAt (s : Setup) (us : Units) (t : TypeId) (place : UnitId × Nat) : Prop :=
  ∃ U d, us.get? place.1 = some U ∧ U.declarations[place.2]? = some d ∧ s.Locates t U.location ∧
    d.name = s.types.nameOf t ∧ s.Outlines t (d.withMembers [])

/-- A type is to be declared when it is resolved and has an outline. -/
theorem declares_iff (h : s.Governed r) (hr : s.RedirectsDeclared r) {d : Declaration}
    (hd : s.Outlines t d) : s.Declares t ↔ s.Resolved t := by
  rw [resolved_iff_reachable (h.peelsNullable hr) hd.bare]
  exact ⟨fun ht => ht.1, fun ht => ⟨ht, d, hd⟩⟩

namespace Finished

/-- A placed type is declared at its place. -/
theorem declaredAt (h : s.Finished st) {k : UnitId} {p : Nat} (hp : (st.placed k)[p]? = some t) :
    s.DeclaredAt st.units t (k, p) := by
  obtain ⟨U, d, hU, hloc, hd, houtline⟩ := h.settled.consistent.declaration_of_type hp
  refine ⟨U, d, hU, hd, hloc, ?_, houtline⟩
  rw [← houtline.name_eq, Declaration.name_withMembers]

/-- A function that gives every declared type its place. -/
theorem exists_place (h : s.Finished st) (g : s.Governed r) (hr : s.RedirectsDeclared r) :
    ∃ place : TypeId → UnitId × Nat, ∀ t, s.Declares t →
      (st.placed (place t).1)[(place t).2]? = some t := by
  have each : ∀ t, ∃ place : UnitId × Nat, s.Declares t →
      (st.placed place.1)[place.2]? = some t := by
    intro t
    by_cases ht : s.Declares t
    · obtain ⟨d, hd⟩ := ht.2
      obtain ⟨k, p, hp⟩ := h.placed ((declares_iff g hr hd).1 ht) hd
      exact ⟨(k, p), fun _ => hp⟩
    · exact ⟨(⟨0⟩, 0), fun h => absurd h ht⟩
  choose place hplace using each
  exact ⟨place, hplace⟩

end Finished

/-- The declarations of a run correspond to the types that it is to declare,
and every unit has one. -/
theorem bijOn_places (h : s.Governed r) (hr : s.RedirectsDeclared r) (hus : s.units = .ok us) :
    (∃ place : TypeId → UnitId × Nat, Set.BijOn place {t | s.Declares t} us.places ∧
      ∀ t, s.Declares t → s.DeclaredAt us t (place t)) ∧
      (∀ k U, us.get? k = some U → U.declarations ≠ #[]) ∧
      ∀ j k U V, us.get? j = some U → us.get? k = some V → U.location = V.location → j = k := by
  obtain ⟨st, hst, rfl⟩ := finished_of_units h.lawful hus
  have consistent := hst.settled.consistent
  obtain ⟨place, hplace⟩ := hst.exists_place h hr
  refine ⟨⟨place, ⟨?_, ?_, ?_⟩, fun t ht => hst.declaredAt (hplace t ht)⟩,
    fun k U => hst.settled.filled, fun j k U V => consistent.orderly.location⟩
  · intro t ht
    obtain ⟨U, d, hU, hd, -⟩ := hst.declaredAt (hplace t ht)
    exact ⟨U, d, hU, hd⟩
  · intro t ht t' ht' heq
    have := hplace t ht
    rw [heq, hplace t' ht'] at this
    exact (Option.some.inj this).symm
  · rintro ⟨k, p⟩ ⟨U, d, hU, hd⟩
    obtain ⟨t, hp, houtline⟩ := consistent.type_of_declaration hU hd
    obtain ⟨σ, hσ, -⟩ := mem_placed.1 (List.mem_of_getElem? hp)
    have ht : s.Declares t := (declares_iff h hr houtline).2 (consistent.resolved hσ)
    obtain ⟨hk, hpos⟩ := consistent.place_unique (hplace t ht) hp
    exact ⟨t, ht, Prod.ext hk hpos⟩

/-- The declarations of a shop correspond to its types. -/
theorem bijOn_places_shop : shop.Governed shopRules ∧ shop.RedirectsDeclared shopRules ∧
    ∃ us, shop.units = .ok us ∧ ∃ place : TypeId → UnitId × Nat,
      Set.BijOn place {t | shop.Declares t} us.places ∧
        ∀ t, shop.Declares t → shop.DeclaredAt us t (place t) := by
  obtain ⟨us, hus, -⟩ := exists_shop_units
  exact ⟨shop_governed, shop_redirectsDeclared, us, hus,
    (bijOn_places shop_governed shop_redirectsDeclared hus).1⟩

end Setup

end TypeExport
