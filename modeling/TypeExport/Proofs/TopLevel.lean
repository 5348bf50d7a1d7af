import Mathlib.Data.List.Nodup
import TypeExport.Proofs.Plural
import TypeExport.Proofs.Run.Finished

/-!
# The top-level names of a file

A file introduces the names that it imports, the names that it declares, and
the lookup constants of its enumerations.  A unit refuses an imported or
declared name that is taken, so these are distinct.  It takes no notice of the
lookup constants.  They are distinct from all else exactly when the plurals that
name them happen to be (`OutputUnit.Introduces.distinct`), and with English
plurals two of them are the same only for names that rhyme.
-/

namespace TypeExport

/-- The names that a declaration introduces. -/
def Declaration.introduces : Declaration → List String
  | .fixedStrings name _ lookup => [name, lookup]
  | .object name _ _ | .enumeration name _ => [name]

/-- The name of an enumeration that has a lookup constant. -/
def Declaration.lookedUp? : Declaration → Option String
  | .fixedStrings name _ _ => some name
  | .object .. | .enumeration .. => none

namespace OutputUnit

/-- The top-level names of the file of a unit. -/
def introduced (U : OutputUnit) : List String :=
  U.imports.toList.map (·.name) ++ U.declarations.toList.flatMap (·.introduces)

/-- The names of the enumerations that have lookup constants. -/
def lookedUp (U : OutputUnit) : List String := U.declarations.toList.filterMap (·.lookedUp?)

/-- What is true of the top-level names of a unit. -/
structure Introduces (o : Options) (U : OutputUnit) : Prop where
  /-- Imported and declared names are distinct. -/
  names : U.names.Nodup
  /-- The plural of the name of an enumeration names its lookup constant. -/
  lookup : ∀ {name : String} {values : List String} {lookup : String},
    .fixedStrings name values lookup ∈ U.declarations → lookup = o.pluralOf name
  /-- Native enumerations have no lookup constants. -/
  native : o.enums = .native → U.introduced.Nodup
  /-- All names are distinct exactly when no plural is a name that is taken, and
  no two enumerations have one plural. -/
  distinct : U.introduced.Nodup ↔ (∀ name ∈ U.lookedUp, o.pluralOf name ∉ U.names) ∧
    ∀ name ∈ U.lookedUp, ∀ name' ∈ U.lookedUp, o.pluralOf name = o.pluralOf name' → name = name'
  /-- An English plural is neither empty nor the name itself, and two names have
  one only when they rhyme. -/
  english : (∀ word, o.pluralOf word = pluralize word) → ∀ name ∈ U.lookedUp,
    (name ≠ "" → o.pluralOf name ≠ "" ∧ o.pluralOf name ≠ name) ∧
      ∀ name' ∈ U.lookedUp,
        o.pluralOf name = o.pluralOf name' ↔ name = name' ∨ SharePlural name name'

variable {U : OutputUnit} {plural : String → String}

/-- The lookup constants may be counted behind the other names. -/
theorem perm_introduced (h : ∀ {name values lookup},
    .fixedStrings name values lookup ∈ U.declarations → lookup = plural name) :
    U.introduced.Perm (U.names ++ U.lookedUp.map plural) := by
  have declared : ∀ ds : List Declaration, (∀ {name values lookup},
      .fixedStrings name values lookup ∈ ds → lookup = plural name) →
      (ds.flatMap (·.introduces)).Perm
        (ds.map (·.name) ++ (ds.filterMap (·.lookedUp?)).map plural) := by
    intro ds hds
    induction ds with
    | nil => exact .nil
    | cons d ds ih =>
      have rest := ih fun hmem => hds (List.mem_cons_of_mem d hmem)
      cases d with
      | object name parameters members => exact rest.cons name
      | enumeration name values => exact rest.cons name
      | fixedStrings name values lookup =>
        rw [hds List.mem_cons_self]
        exact ((rest.cons (plural name)).trans List.perm_middle.symm).cons name
  rw [introduced, names, List.append_assoc]
  exact (declared _ fun hmem => h (Array.mem_toList_iff.1 hmem)).append_left _

theorem nodup_lookedUp (h : U.names.Nodup) : U.lookedUp.Nodup := by
  have hsublist : ∀ ds : List Declaration,
      (ds.filterMap (·.lookedUp?)).Sublist (ds.map (·.name)) := by
    intro ds
    induction ds with
    | nil => exact .slnil
    | cons d ds ih =>
      cases d with
      | fixedStrings name values lookup => exact ih.cons_cons name
      | object name _ _ => exact ih.cons name
      | enumeration name _ => exact ih.cons name
  exact (List.nodup_append.1 h).2.1.sublist (hsublist _)

theorem nodup_introduced_iff (hnames : U.names.Nodup) (h : ∀ {name values lookup},
    .fixedStrings name values lookup ∈ U.declarations → lookup = plural name) :
    U.introduced.Nodup ↔ (∀ name ∈ U.lookedUp, plural name ∉ U.names) ∧
      ∀ name ∈ U.lookedUp, ∀ name' ∈ U.lookedUp, plural name = plural name' → name = name' := by
  rw [(perm_introduced h).nodup_iff, List.nodup_append',
    List.nodup_map_iff_inj_on (nodup_lookedUp hnames), List.disjoint_right]
  constructor
  · rintro ⟨-, hinj, hfree⟩
    exact ⟨fun name hname => hfree (List.mem_map_of_mem hname), hinj⟩
  · rintro ⟨hfree, hinj⟩
    refine ⟨hnames, hinj, fun taken hmem => ?_⟩
    obtain ⟨name, hname, rfl⟩ := List.mem_map.1 hmem
    exact hfree name hname

theorem mem_lookedUp_iff {name : String} : name ∈ U.lookedUp ↔
    ∃ values lookup, .fixedStrings name values lookup ∈ U.declarations := by
  rw [lookedUp, List.mem_filterMap]
  constructor
  · rintro ⟨d, hd, hname⟩
    cases d with
    | fixedStrings name' values lookup =>
      cases hname
      exact ⟨values, lookup, Array.mem_toList_iff.1 hd⟩
    | object => cases hname
    | enumeration => cases hname
  · rintro ⟨values, lookup, hd⟩
    exact ⟨_, Array.mem_toList_iff.2 hd, rfl⟩

end OutputUnit

namespace Setup

variable {s : Setup} {r : Rules} {us : Units} {k : UnitId} {U : OutputUnit}

/-- An enumeration with a lookup constant is that of a type. -/
theorem Consistent.lookup {st : State} (h : s.Consistent st) (hU : st.units.get? k = some U)
    {name lookup : String} {values : List String}
    (hd : .fixedStrings name values lookup ∈ U.declarations) :
    s.options.enums = .fixedStrings ∧ lookup = s.options.pluralOf name := by
  obtain ⟨p, hp⟩ := Array.mem_iff_getElem?.1 hd
  obtain ⟨t, -, form, -, houtline⟩ := h.type_of_declaration hU hp
  cases form with
  | enumeration values' =>
    rw [outline] at houtline
    split at houtline
    · cases houtline
    · rename_i hstyle
      cases houtline
      exact ⟨hstyle, rfl⟩
  | _ => cases houtline

/-- In a run that succeeds the imported and the declared names of a unit are
distinct, and a lookup constant has the plural of the name of its enumeration.
All names that the file of the unit introduces are distinct exactly when the
plurals leave them so. -/
theorem introduces_names (h : s.Governed r) (hus : s.units = .ok us)
    (hU : us.get? k = some U) : U.Introduces s.options := by
  obtain ⟨st, hst, rfl⟩ := finished_of_units h.lawful hus
  have consistent := hst.settled.consistent
  have names := consistent.orderly.nodup hU
  have hlookup : ∀ {name values lookup}, .fixedStrings name values lookup ∈ U.declarations →
      lookup = s.options.pluralOf name := fun hd => (consistent.lookup hU hd).2
  have distinct := OutputUnit.nodup_introduced_iff names hlookup
  refine ⟨names, hlookup, fun hnative => ?_, distinct, fun henglish name hname => ⟨?_, ?_⟩⟩
  · have none : ∀ {name}, name ∉ U.lookedUp := by
      intro name hname
      obtain ⟨values, lookup, hd⟩ := OutputUnit.mem_lookedUp_iff.1 hname
      rw [(consistent.lookup hU hd).1] at hnative
      cases hnative
    exact distinct.2 ⟨fun name hname => absurd hname none, fun name hname => absurd hname none⟩
  · intro hempty
    have hlt := length_lt_length_pluralize hempty
    rw [henglish]
    refine ⟨fun heq => ?_, fun heq => ?_⟩
    · rw [heq] at hlt
      exact absurd hlt (Nat.not_lt_zero _)
    · rw [heq] at hlt
      exact absurd hlt (Nat.lt_irrefl _)
  · intro name' _
    rw [henglish, henglish, pluralize_eq_iff]

theorem shop_lookedUp : (shop.units.map fun us =>
    (us.get? ⟨1⟩).map fun U => (U.names, U.lookedUp)).toOption =
      some (some (["State"], ["State"])) := by
  decide +kernel

/-- The names of the second file of the shop are distinct. -/
theorem introduces_names_shop : shop.Governed shopRules ∧ ∃ us U, shop.units = .ok us ∧
    us.get? ⟨1⟩ = some U ∧ U.Introduces shop.options ∧ U.introduced.Nodup := by
  obtain ⟨us, hus, hshop⟩ := exists_units_of_toOption shop_lookedUp
  obtain ⟨U, hU, hnames⟩ := Option.map_eq_some_iff.1 hshop
  obtain ⟨hnames, hlookedUp⟩ := Prod.mk.inj hnames
  have introduces := introduces_names shop_governed hus hU
  refine ⟨shop_governed, us, U, hus, hU, introduces, introduces.distinct.2 ?_⟩
  have hoptions : shop.options = {} := options_ofDocument _ _ _
  rw [hnames, hlookedUp, hoptions]
  decide

/-- A document with two enumerations whose names have one plural. -/
@[irreducible] def busesText : String :=
  r#"[[["enum","Bus",["A"]],["enum","Buse",["B"]]],["Bus","Buse"]]"#

/-- The setup of the document. -/
def buses : Setup := ofDocument busesText {} {}

theorem buses_checks : loads busesText = true ∧ (buses.units.map fun us =>
    (us.get? ⟨0⟩).map (·.introduced)).toOption = some (some ["Bus", "Buses", "Buse", "Buses"]) := by
  decide +kernel

/-- A file may introduce two lookup constants of one name. -/
theorem exists_introduced_twice : buses.Governed {} ∧ buses.options.validate = .ok () ∧
    ∃ us U, buses.units = .ok us ∧ us.get? ⟨0⟩ = some U ∧ ¬ U.introduced.Nodup := by
  obtain ⟨us, hus, hbuses⟩ := exists_units_of_toOption buses_checks.2
  obtain ⟨U, hU, hnames⟩ := Option.map_eq_some_iff.1 hbuses
  have hoptions : buses.options = {} := options_ofDocument _ _ _
  refine ⟨governed_ofDocument {} buses_checks.1 rfl rfl, ?_, us, U, hus, hU, ?_⟩
  · rw [hoptions]
    decide
  · rw [hnames]
    decide

end Setup

end TypeExport
