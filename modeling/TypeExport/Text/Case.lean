import TypeExport.Text.CaseTable

/-!
# Letter case

Upper and lower case as properties of single scalars, and the lower case form
of an upper case letter, which does not look at the letters around it: `Σ`
gives `σ` also at the end of a word.
-/

namespace TypeExport.Text

/-- The case of a scalar. -/
inductive LetterCase where
  /-- An upper case letter, with the scalar value of its lower case form. -/
  | upper (form : Nat)
  | lower
  /-- A scalar without case. -/
  | uncased
  deriving DecidableEq, Repr

/-- Whether a scalar value lies in the range. -/
def CaseRange.contains (r : CaseRange) (n : Nat) : Bool := r.first ≤ n && n ≤ r.last

/-- The case of a scalar value that lies in the range. -/
def CaseRange.caseOf (r : CaseRange) (n : Nat) : LetterCase :=
  match r.casing with
  | .upper shift => .upper (n + shift).toNat
  | .lower => .lower
  | .pairs => if (n - r.first) % 2 = 0 then .upper (n + 1) else .lower

/-- The case of a scalar, read off the first range that contains it. -/
def letterCase (c : Char) : LetterCase :=
  match caseTable.find? (·.contains c.toNat) with
  | some r => r.caseOf c.toNat
  | none => .uncased

/-- Whether a scalar is an upper case letter. -/
def isUpper (c : Char) : Bool :=
  match letterCase c with
  | .upper _ => true
  | _ => false

/-- Whether a scalar is a lower case letter. -/
def isLower (c : Char) : Bool := letterCase c = .lower

/-- The lower case form of an upper case letter, any other scalar as it is.
`İ` keeps its dot as a combining mark. -/
def lowered (c : Char) : List Char :=
  if c = 'İ' then ['i', '\u0307']
  else
    match letterCase c with
    | .upper form => [Char.ofNat form]
    | _ => [c]

/-- No scalar is both upper and lower case. -/
theorem not_isUpper_and_isLower (c : Char) : ¬(isUpper c ∧ isLower c) := by
  rintro ⟨hu, hl⟩
  simp only [isLower, decide_eq_true_eq] at hl
  simp [isUpper, hl] at hu

end TypeExport.Text
