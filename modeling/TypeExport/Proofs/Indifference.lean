import TypeExport.Proofs.Run.Governed
import TypeExport.Proofs.Run.Abreast

/-!
# What nullability does not influence

Options that say the same of enumerations and of plurals lead to the same
errors and to the same units, imports and declarations in the same order, once
what says that a value may be null or a member be left out is erased
(`Setup.units_erase_eq`).  Nullability decides how a type is written where it is
used, and nothing else.
-/

namespace TypeExport

namespace Setup

/-- A setup under other options. -/
abbrev under (s : Setup) (o : Options) : Setup := { s with options := o }

/-- Whether options say the same of enumerations and of plurals as a setup. -/
structure DeclaresAlike (s : Setup) (o : Options) : Prop where
  enums : o.enums = s.options.enums
  plural : o.plural = s.options.plural

variable {s : Setup} {o : Options} {r : Rules}

theorem Lawful.under (L : s.Lawful) (o : Options) : (s.under o).Lawful :=
  L.akin (.of_eq rfl rfl) rfl rfl

theorem DeclaresAlike.parallel (ho : s.DeclaresAlike o) : s.Parallel (s.under o) where
  toAkin := .of_eq rfl rfl
  roots := rfl
  slack := rfl
  enums := ho.enums
  plural := ho.plural
  placed hd hd' := by
    cases hd.symm.trans hd'
    rfl
  places _ _ hlocated := hlocated

theorem paired_build (L : s.Lawful) (ho : s.DeclaresAlike o)
    (hvalid : s.options.validate = .ok ()) (hvalid' : o.validate = .ok ()) :
    Paired s Always s.build (s.under o).build :=
  ho.parallel.paired_build L (L.under o) (hvalid'.trans hvalid.symm)

/-- Under options that say the same of enumerations and of plurals a run ends in
the same error, or in the same units once they are erased. -/
theorem units_erase_eq (h : s.Governed r) (hvalid : s.options.validate = .ok ())
    (hvalid' : o.validate = .ok ()) (henums : o.enums = s.options.enums)
    (hplural : o.plural = s.options.plural) :
    (s.under o).units.map Units.erase = s.units.map Units.erase := by
  have hend := paired_build h.lawful ⟨henums, hplural⟩ hvalid hvalid' {} {} ⟨.nil, rfl⟩
  unfold units finalState EStateM.run
  generalize s.build {} = p at hend ⊢
  generalize (s.under o).build {} = q at hend ⊢
  cases hend with
  | ok _ hst => exact congrArg Except.ok hst.units.symm
  | error => rfl

/-- Options that make nothing nullable. -/
def plainOptions : Options :=
  { nullability := .none, optionalProperties := false, explicitNullability := false }

/-- A shop has the same units when nothing is nullable. -/
theorem units_erase_eq_shop : shop.Governed shopRules ∧ shop.options.validate = .ok () ∧
    plainOptions.validate = .ok () ∧ plainOptions.enums = shop.options.enums ∧
    plainOptions.plural = shop.options.plural ∧
    (shop.under plainOptions).units.map Units.erase = shop.units.map Units.erase := by
  have hoptions : shop.options = {} := options_ofDocument shopText {} shopRules
  have hvalid : shop.options.validate = .ok () := by
    rw [hoptions]
    decide +kernel
  have hplain : plainOptions.validate = .ok () := by decide +kernel
  have henums : plainOptions.enums = shop.options.enums := by
    rw [hoptions]
    rfl
  have hplural : plainOptions.plural = shop.options.plural := by
    rw [hoptions]
    rfl
  exact ⟨shop_governed, hvalid, hplain, henums, hplural,
    units_erase_eq shop_governed hvalid hplain henums hplural⟩

end Setup

end TypeExport
