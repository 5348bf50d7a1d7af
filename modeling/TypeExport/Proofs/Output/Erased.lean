import TypeExport.Proofs.Output.Registry
import TypeExport.Proofs.Translation

/-!
# Erased units

Units without what says that a value may be null or a member be left out.  The
operations of a registry look at names, locations and sources only, so each of
them does to the erased units what it does to the units.
-/

namespace TypeExport

/-- The declaration of a member without what says that it may be null or left
out. -/
def MemberDeclaration.erase (m : MemberDeclaration) : MemberDeclaration :=
  { m with optional := false, type := m.type.erase }

/-- The declaration with its members erased. -/
def Declaration.erase : Declaration → Declaration
  | object name parameters members => object name parameters (members.map (·.erase))
  | d => d

/-- The unit with its declarations erased. -/
def OutputUnit.erase (unit : OutputUnit) : OutputUnit :=
  { unit with declarations := unit.declarations.map (·.erase) }

/-- The units with their declarations erased. -/
def Units.erase (us : Units) : Units := ⟨us.all.map (·.erase)⟩

@[simp] theorem Declaration.name_erase (d : Declaration) : d.erase.name = d.name := by
  cases d <;> rfl

theorem Declaration.erase_withMembers (members : List MemberDeclaration) (d : Declaration) :
    (d.withMembers members).erase = d.erase.withMembers (members.map (·.erase)) := by
  cases d <;> rfl

namespace OutputUnit

variable (unit : OutputUnit)

theorem stem_erase : unit.erase.stem = unit.stem := rfl

theorem declares_erase (name : String) : unit.erase.declares name = unit.declares name := by
  simp [declares, erase]

theorem importsName_erase (name : String) :
    unit.erase.importsName name = unit.importsName name := rfl

theorem importsElsewhere_erase (i : Import) :
    unit.erase.importsElsewhere i = unit.importsElsewhere i := rfl

end OutputUnit

namespace Units

variable (us : Units) (k : UnitId)

theorem get?_erase : us.erase.get? k = (us.get? k).map (·.erase) := Array.getElem?_map

/-- Units that are the same once erased, and declaration by declaration, are the same. -/
theorem eq_of_erase {us us' : Units} (h : us'.erase = us.erase)
    (same : ∀ {k U U'} {p : Nat} {D D'}, us.get? k = some U → us'.get? k = some U' →
      U.declarations[p]? = some D → U'.declarations[p]? = some D' → D' = D) : us' = us := by
  have hget : ∀ k, us'.get? k = us.get? k := by
    intro k
    have herased := congrArg (·.get? k) h
    simp only [get?_erase] at herased
    cases hU : us.get? k with
    | none => simpa [hU] using herased
    | some U =>
      rw [hU] at herased
      obtain ⟨U', hU', hunit⟩ := Option.map_eq_some_iff.1 herased
      have hsize : U'.declarations.size = U.declarations.size := by
        simpa [OutputUnit.erase] using congrArg (·.declarations.size) hunit
      have hdeclarations : U'.declarations = U.declarations := by
        apply Array.ext hsize
        intro p hp' hp
        exact same hU hU' (Array.getElem?_eq_getElem hp) (Array.getElem?_eq_getElem hp')
      have himports : U'.imports = U.imports := congrArg (·.imports) hunit
      have hlocation : U'.location = U.location := congrArg (·.location) hunit
      cases U
      cases U'
      cases hdeclarations
      cases himports
      cases hlocation
      exact hU'
  have hall : us'.all = us.all := Array.ext_getElem? fun i => hget ⟨i⟩
  cases us
  cases us'
  cases hall
  rfl

theorem view_erase : us.erase.view k = (us.view k).map (·.erase) := by
  rw [view, view, get?_erase]
  cases us.get? k <;> rfl

/-- Asking for a location finds the same unit. -/
theorem ensure_erase (location : String) :
    us.erase.ensure location = ((us.ensure location).1, (us.ensure location).2.erase) := by
  have hfind : us.erase.find? location = us.find? location := by
    rw [find?, find?, erase, Array.findIdx?_map]
    rfl
  rw [ensure, hfind, ensure]
  cases us.find? location with
  | some id => rfl
  | none => simp [erase, OutputUnit.erase]

/-- A map over a changed entry. -/
theorem map_modify {α β : Type} {φ : α → β} {f : α → α} {g : β → β} (h : ∀ x, φ (f x) = g (φ x))
    (xs : Array α) (i : Nat) : (xs.modify i f).map φ = (xs.map φ).modify i g := by
  apply Array.ext_getElem?
  intro j
  simp only [Array.getElem?_map, Array.getElem?_modify]
  split
  · cases xs[j]? <;> simp [h]
  · rfl

/-- A change that commutes with erasing. -/
theorem modify_erase {f g : OutputUnit → OutputUnit} (h : ∀ U, (f U).erase = g U.erase) :
    (us.modify k f).erase = us.erase.modify k g :=
  congrArg Units.mk (map_modify h us.all k.index)

/-- A name is imported, or refused. -/
theorem addImport_erase (i : Import) :
    us.erase.addImport k i = (us.addImport k i).map (·.erase) := by
  unfold addImport
  split
  · rfl
  · rw [view_erase]
    cases us.view k with
    | error e => rfl
    | ok U =>
      simp only [Except.map, bind, Except.bind, OutputUnit.declares_erase,
        OutputUnit.importsElsewhere_erase, OutputUnit.stem_erase]
      split
      · rfl
      · by_cases hi : i ∈ U.imports
        · rw [if_pos hi, if_pos (show i ∈ U.erase.imports from hi)]
          rfl
        · rw [if_neg hi, if_neg (show i ∉ U.erase.imports from hi)]
          have hpush := us.modify_erase k
            (f := fun unit => { unit with imports := unit.imports.push i })
            (g := fun unit => { unit with imports := unit.imports.push i }) fun _ => rfl
          exact congrArg Except.ok hpush.symm

/-- A declaration is added, or refused. -/
theorem declare_erase (d : Declaration) : us.erase.declare k d.erase =
    (us.declare k d).map fun added => (added.1, added.2.erase) := by
  unfold declare
  rw [view_erase]
  cases us.view k with
  | error e => rfl
  | ok U =>
    simp only [Except.map, bind, Except.bind, OutputUnit.declares_erase,
      OutputUnit.importsName_erase, OutputUnit.stem_erase, Declaration.name_erase]
    split
    · rfl
    · have hsize : U.erase.declarations.size = U.declarations.size := Array.size_map
      have hpush := us.modify_erase k
        (f := fun unit => { unit with declarations := unit.declarations.push d })
        (g := fun unit => { unit with declarations := unit.declarations.push d.erase })
        fun U => by simp [OutputUnit.erase]
      rw [hsize, ← hpush]
      rfl

/-- Members are set. -/
theorem setMembers_erase (p : Nat) (members : List MemberDeclaration) :
    (us.setMembers k p members).erase = us.erase.setMembers k p (members.map (·.erase)) := by
  refine us.modify_erase k fun U => ?_
  have hdeclarations := map_modify (Declaration.erase_withMembers members) U.declarations p
  simp only [OutputUnit.erase, hdeclarations]

end Units

end TypeExport
