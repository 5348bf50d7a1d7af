import TypeExport.Proofs.Run.Resolving
import TypeExport.Proofs.Universe.Akin

/-!
# Setups that treat types alike

Two setups treat types alike when their universes are akin and their rules
decide the same of the types at an id (`Setup.Akin`).  If they have the same
roots as well, place alike the types that they resolve and declare, and their
options say the same of enumerations and of plurals, then they resolve the same
types in the same order and declare the same outlines (`Setup.Parallel`).
-/

namespace TypeExport

namespace Setup

/-- Whether two setups treat types alike. -/
structure Akin (s s' : Setup) : Prop where
  types : s.types.Akin s'.types
  override : ∀ {t d d'}, s.types.get? t = some d → s'.types.get? t = some d' →
    s'.hooks.override d' = s.hooks.override d

/-- Whether the types that a setup resolves and declares have the same locations
in another. -/
def PlacesAlike (s s' : Setup) : Prop :=
  ∀ {t d location}, s.Resolved t → s.Outlines t d → s.Locates t location → s'.Locates t location

/-- Whether two setups resolve and declare alike. -/
structure Parallel (s s' : Setup) : Prop extends Akin s s' where
  roots : s'.roots = s.roots
  slack : s'.slack = s.slack
  enums : s'.options.enums = s.options.enums
  plural : s'.options.plural = s.options.plural
  /-- A location is found for the same types, or fails to be for the same reason. -/
  placed : ∀ {t d d'}, s.types.get? t = some d → s'.types.get? t = some d' →
    (s'.hooks.location s'.types d').map (fun _ => ()) =
      (s.hooks.location s.types d).map fun _ => ()
  places : s.PlacesAlike s'

variable {s s' : Setup} {t : TypeId}

namespace Akin

/-- The same rules treat the same types alike. -/
theorem of_eq (htypes : s'.types = s.types) (hhooks : s'.hooks = s.hooks) : s.Akin s' where
  types := htypes ▸ .refl s.types
  override hd hd' := by
    rw [htypes] at hd'
    cases hd.symm.trans hd'
    rw [hhooks]

variable (h : s.Akin s')
include h

theorem redirects {name location : String} (ht : s.Redirects t name location) :
    s'.Redirects t name location := by
  obtain ⟨d, hd, hover⟩ := ht
  obtain ⟨d', hd', -⟩ := h.types.type hd
  exact ⟨d', hd', (h.override hd hd').trans hover⟩

theorem treats {form : Form} (ht : s.Treats t form) : s'.Treats t form := by
  obtain ⟨d, hd, hover, hform⟩ := ht
  obtain ⟨d', hd', hdd'⟩ := h.types.type hd
  exact ⟨d', hd', (h.override hd hd').trans hover, by rw [h.types.formOf, hdd'.kind, hform]⟩

theorem site (m : Member) : s'.site m = s.site m := by
  rw [Setup.site, Setup.site, h.types.bare, h.types.bare]

/-- Under options that say the same of enumerations and of plurals, types are
outlined alike. -/
theorem outlines {d : Declaration} (henums : s'.options.enums = s.options.enums)
    (hplural : s'.options.plural = s.options.plural) (hd : s.Outlines t d) :
    s'.Outlines t d := by
  obtain ⟨form, ht, ho⟩ := hd
  have hname : s'.types.nameOf = s.types.nameOf := funext h.types.nameOf
  refine ⟨form, h.treats ht, ho ▸ ?_⟩
  simp only [outline, hname, henums, Options.pluralOf, hplural]

end Akin

/-- A setup that treats types like a lawful one, by the same rules, is lawful. -/
theorem Lawful.akin (L : s.Lawful) (h : s.Akin s') (hroots : s'.roots = s.roots)
    (hhooks : s'.hooks = s.hooks) : s'.Lawful where
  sound := h.types.sound L.sound
  root t ht := h.types.issued.2 (L.root t (hroots ▸ ht))
  override := hhooks ▸ L.override
  member := hhooks ▸ L.member

end Setup

end TypeExport
