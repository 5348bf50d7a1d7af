import TypeExport.Proofs.Distinct
import TypeExport.Proofs.Output.Dialects
import TypeExport.Proofs.Output.Encoding

/-!
# The values of enumerations

What becomes of the values of an enumeration, from the document to the text of a file.
The declaration of an enumeration has the values that its entry lists, in their order,
and its text is read as these values unless they have characters that the style of
enumerations does not escape (`Setup.values_in_text`).

Both styles write line breaks as they are.  A native enumeration also writes quotes and
backslashes as they are, which a lookup constant escapes.
-/

namespace TypeExport

/-- Whether the texts of enumerations carry a value. -/
def Options.carries (o : Options) (v : String) : Bool :=
  match o.enums with
  | .native => isVerbatim v
  | .fixedStrings => isOneLine v

namespace Units

/-- The file of a unit has the texts of its declarations. -/
theorem exists_code_of_mem (us : Units) (o : Options) (k : UnitId) {U : OutputUnit}
    {D : Declaration} (h : D ∈ U.declarations) :
    ∃ before after, (us.renderUnit o k U).code = before ++ D.text o.dialect ++ after := by
  obtain ⟨ds, ds', hds⟩ := List.append_of_mem (Array.mem_toList_iff.2 h)
  have hdeclared : D.lines o.dialect <:+: U.declarations.toList.flatMap ("" :: ·.lines o.dialect) :=
    ⟨ds.flatMap ("" :: ·.lines o.dialect) ++ [""], ds'.flatMap ("" :: ·.lines o.dialect), by
      simp [hds]⟩
  obtain ⟨ls, ls', hlines⟩ : D.lines o.dialect <:+: us.lines o k U :=
    hdeclared.trans (List.suffix_append _ _).isInfix
  refine ⟨String.join (ls.map (· ++ "\n")), String.join (ls'.map (· ++ "\n")), ?_⟩
  rw [code_eq_join, ← hlines, List.map_append, List.map_append, String.join_append,
    String.join_append]
  rfl

end Units

namespace Setup

open Universe

variable {s : Setup} {r : Rules} {us : Units} {text : String} {roots : List TypeId} {o : TypeId}
  {D : Declaration} {vs : List EnumValue}

/-- The declaration of an enumeration is read as its values exactly when the texts carry
them. -/
theorem encodes_of_outline (h : s.outline o (.enumeration vs) = some D) :
    D.Encodes s.options.dialect (vs.map (·.name)) ↔
      ∀ v ∈ vs.map (·.name), s.options.carries v = true := by
  simp only [outline] at h
  simp only [Options.carries]
  cases hstyle : s.options.enums with
  | native =>
    rw [hstyle] at h
    cases h
    exact Declaration.encodes_enumeration_iff
  | fixedStrings =>
    rw [hstyle] at h
    cases h
    exact Declaration.encodes_fixedStrings_iff

/-- An enumeration has no members to fill in. -/
theorem eq_of_withMembers (h : s.outline o (.enumeration vs) = some D) {D' : Declaration}
    (hsame : D'.withMembers [] = D) : D' = D := by
  simp only [outline] at h
  cases hstyle : s.options.enums <;> rw [hstyle] at h <;> cases h <;> cases D' <;>
    first | exact hsame | cases hsame

/-- The declaration of an enumeration that a run reaches stands in the unit of its
location. -/
theorem exists_declared_of_outline (h : s.Governed r) (hus : s.units = .ok us)
    (ho : s.Resolved o) (ht : s.Treats o (.enumeration vs))
    (hD : s.outline o (.enumeration vs) = some D) :
    ∃ k U, us.get? k = some U ∧ s.Locates o U.location ∧ D ∈ U.declarations := by
  obtain ⟨st, hst, rfl⟩ := finished_of_units h.lawful hus
  obtain ⟨k, p, hp⟩ := hst.placed ho ⟨_, ht, hD⟩
  obtain ⟨U, D', hU, hloc, hD', houtline⟩ := hst.settled.consistent.declaration_of_type hp
  have hsame : D' = D := eq_of_withMembers hD (houtline.unique ⟨_, ht, hD⟩)
  exact ⟨k, U, hU, hloc, hsame ▸ Array.mem_of_getElem? hD'⟩

/-- The declaration of every enumeration of a document is read as the values that its entry
lists, in order, exactly when the texts carry these values.  A run that reaches the
enumeration and does not redirect it writes the declaration to the file of its location. -/
theorem values_in_text (h : s.Governed r)
    (hload : Builder.loadText text {} = .ok roots s.types) :
    ∃ d, Document.ofText? text = some d ∧
      ∀ name values, TypeEntry.enumeration name values ∈ d.types →
        ∃ o e D, s.types.Describes (.enumeration name values) o e ∧
          s.outline o (s.types.formOf e.kind) = some D ∧
          (D.Encodes s.options.dialect values ↔ ∀ v ∈ values, s.options.carries v = true) ∧
          ∀ us, s.units = .ok us → s.Resolved o → s.Treats o (s.types.formOf e.kind) →
            ∃ k U before after, us.get? k = some U ∧ s.Locates o U.location ∧
              D ∈ U.declarations ∧ (us.renderUnit s.options k U).code =
                before ++ D.text s.options.dialect ++ after := by
  obtain ⟨d, owners, v, hd, hloads⟩ := Builder.loads_of_loadText hload
  refine ⟨d, hd, fun name values hentry => ?_⟩
  obtain ⟨o, -, e, hdescribes⟩ := exists_of_forall₂_mem hloads.described hentry
  have hform : s.types.formOf e.kind =
      .enumeration (values.mapIdx fun i name => ⟨name, i⟩) := by
    rw [hdescribes.shape.1, Universe.formOf]
  obtain ⟨D, hD⟩ : ∃ D, s.outline o (s.types.formOf e.kind) = some D := by
    rw [hform, outline]
    split <;> exact ⟨_, rfl⟩
  refine ⟨o, e, D, hdescribes, hD, ?_, fun us hus ho ht => ?_⟩
  · rw [hform] at hD
    have hencodes := encodes_of_outline hD
    rwa [map_name_numbered] at hencodes
  · rw [hform] at hD ht
    obtain ⟨k, U, hU, hloc, hmem⟩ := exists_declared_of_outline h hus ho ht hD
    obtain ⟨before, after, hcode⟩ := us.exists_code_of_mem s.options k hmem
    exact ⟨k, U, before, after, hU, hloc, hmem, hcode⟩

/-! ## A value with a quote -/

/-- A document with an enumeration whose value has a quote. -/
@[irreducible] def quoteText : String := r#"[[["enum","E",["it's"]]],["E"]]"#

/-- The entries of the document. -/
def quoteDocument : Document := ⟨[.enumeration "E" ["it's"]], ["E"]⟩

/-- The setup of the document in a style of enumerations. -/
def quoteIn (enums : EnumStyle) : Setup := ofDocument quoteText { enums } {}

theorem quote_checks : loads quoteText = true ∧
    Document.ofText? quoteText = some quoteDocument ∧
    ((quoteIn .native).units.map (·.render { enums := .native })).toOption =
      some [⟨"index.ts", "// tslint:disable\n// contractgen generated content\n\n" ++
        "export enum E \x7b\n    it's = 'it's',\n\x7d\n"⟩] := by
  decide +kernel

theorem quote_governed (enums : EnumStyle) : (quoteIn enums).Governed {} :=
  governed_ofDocument _ quote_checks.1 rfl rfl

/-- The text of a native enumeration is not read as its values when one of them has a
quote. -/
theorem exists_not_encoded_quote : Document.ofText? quoteText = some quoteDocument ∧
    (quoteIn .native).Governed {} ∧ (quoteIn .native).options.validate = .ok () ∧
    ∃ us, (quoteIn .native).units = .ok us ∧ us.render (quoteIn .native).options =
      [⟨"index.ts", "// tslint:disable\n// contractgen generated content\n\n" ++
        (Declaration.enumeration "E" ["it's"]).text .typeScript⟩] ∧
    ¬ (Declaration.enumeration "E" ["it's"]).Encodes .typeScript ["it's"] := by
  have hoptions : (quoteIn .native).options = { enums := .native } := options_ofDocument _ _ _
  obtain ⟨us, hus, hrender⟩ := exists_units_of_toOption quote_checks.2.2
  refine ⟨quote_checks.2.1, quote_governed .native, by rw [hoptions]; rfl, us, hus, ?_, ?_⟩
  · rw [hoptions, hrender]
    rfl
  · rw [Declaration.encodes_enumeration_iff, List.forall_mem_singleton]
    decide

/-- With a lookup constant the value is read back. -/
theorem values_in_text_quote : (quoteIn .fixedStrings).Governed {} ∧
    ∃ roots, Builder.loadText quoteText {} = .ok roots (quoteIn .fixedStrings).types ∧
      Document.ofText? quoteText = some quoteDocument ∧
      ∃ o e D, (quoteIn .fixedStrings).types.Describes (.enumeration "E" ["it's"]) o e ∧
        (quoteIn .fixedStrings).outline o ((quoteIn .fixedStrings).types.formOf e.kind) = some D ∧
        D.Encodes .typeScript ["it's"] := by
  obtain ⟨roots, hload⟩ := exists_loadText_ofDocument { enums := .fixedStrings } {} quote_checks.1
  have hoptions : (quoteIn .fixedStrings).options = {} := options_ofDocument _ _ _
  obtain ⟨d, hd, hvalues⟩ := values_in_text (quote_governed .fixedStrings) hload
  cases quote_checks.2.1.symm.trans hd
  obtain ⟨o, e, D, hdescribes, hD, hencodes, -⟩ := hvalues "E" ["it's"] List.mem_cons_self
  rw [hoptions] at hencodes
  have hcarries : ∀ v ∈ ["it's"], isOneLine v = true := List.forall_mem_singleton.2 rfl
  exact ⟨quote_governed .fixedStrings, roots, hload, hd, o, e, D, hdescribes, hD,
    hencodes.2 hcarries⟩

end Setup

end TypeExport
