import Mathlib.Data.List.Chain
import TypeExport.Text.Case

/-!
# The lower case forms of capitals

The lower case form of a capital is that capital itself, as it is in the
mathematical alphabets, or it holds no capital at all
(`lowered_eq_or_not_isUpper`).

This is read off the rows of the case table.  They ascend without overlap, so
the case of a scalar is the one that any row which contains it gives
(`letterCase_of_mem`).  It is then enough that every row with a shift moves its
capitals into some row of lower case letters, and that every run of pairs ends
with the second letter of a pair.
-/

namespace TypeExport.Text

namespace CaseRange

variable {r r' : CaseRange} {n first last form : Nat}

theorem contains_iff : r.contains n = true ↔ r.first ≤ n ∧ n ≤ r.last := by
  simp [contains]

/-- Whether one row ends before another, which is not empty, begins. -/
def Precedes (r r' : CaseRange) : Prop := r.last < r'.first ∧ r'.first ≤ r'.last

instance : DecidableRel Precedes := fun _ _ => inferInstanceAs (Decidable (_ ∧ _))

instance : Trans Precedes Precedes Precedes where
  trans h h' := ⟨Nat.lt_trans (Nat.lt_of_lt_of_le h.1 h.2) h'.1, h'.2⟩

/-- Whether one of two rows ends before the other begins. -/
def Apart (r r' : CaseRange) : Prop := r.last < r'.first ∨ r'.last < r.first

instance : Std.Symm Apart := ⟨fun _ _ => Or.symm⟩

/-- Whether the scalar values from `first` to `last` are all lower case by the
row.  In a run of pairs there is no such stretch of two or more. -/
def isLowerOn (r : CaseRange) (first last : Nat) : Bool :=
  match r.casing with
  | .upper _ => false
  | .lower => r.contains first && r.contains last
  | .pairs => first == last && r.contains first && (first - r.first) % 2 == 1

theorem of_isLowerOn (h : r.isLowerOn first last = true) (hfirst : first ≤ n)
    (hlast : n ≤ last) : r.contains n = true ∧ r.caseOf n = .lower := by
  cases hc : r.casing with
  | upper shift => simp [isLowerOn, hc] at h
  | lower =>
    simp only [isLowerOn, hc, Bool.and_eq_true, contains_iff] at h
    exact ⟨contains_iff.2 (by omega), by simp [caseOf, hc]⟩
  | pairs =>
    simp only [isLowerOn, hc, Bool.and_eq_true, beq_iff_eq] at h
    obtain ⟨⟨hsingle, hmem⟩, hodd⟩ := h
    obtain rfl : n = first := by omega
    exact ⟨hmem, by simp [caseOf, hc, hodd]⟩

/-- Whether the row takes its capitals to themselves or to letters that some row
has as lower case.  A run of pairs does so when it ends with a pair. -/
def isSettled (r : CaseRange) : Bool :=
  match r.casing with
  | .upper shift =>
    shift == 0 || caseTable.any (·.isLowerOn (r.first + shift).toNat (r.last + shift).toNat)
  | .lower => true
  | .pairs => (r.last - r.first) % 2 == 1

end CaseRange

open CaseRange

variable {c : Char} {r r' : CaseRange} {n form : Nat}

/-! ## The rows of the table -/

theorem isChain_caseTable : caseTable.IsChain Precedes := by
  decide +kernel

theorem isSettled_of_mem : ∀ r ∈ caseTable, r.isSettled = true := by
  decide +kernel

/-- No scalar is in two rows. -/
theorem eq_of_contains (hr : r ∈ caseTable) (hr' : r' ∈ caseTable) (hn : r.contains n = true)
    (hn' : r'.contains n = true) : r = r' := by
  by_contra hne
  have apart : caseTable.Pairwise Apart := isChain_caseTable.pairwise.imp fun h => .inl h.1
  rw [contains_iff] at hn hn'
  rcases apart.forall hr hr' hne with hlt | hlt <;> omega

theorem letterCase_of_mem (hr : r ∈ caseTable) (hc : r.contains c.toNat = true) :
    letterCase c = r.caseOf c.toNat := by
  cases hfind : caseTable.find? (·.contains c.toNat) with
  | none => exact absurd hc (List.find?_eq_none.1 hfind r hr)
  | some r' =>
    have hc' := List.find?_some hfind
    obtain rfl := eq_of_contains (List.mem_of_find?_eq_some hfind) hr hc' hc
    simp [letterCase, hfind]

theorem exists_row_of_upper (h : letterCase c = .upper form) :
    ∃ r ∈ caseTable, r.contains c.toNat = true ∧ r.caseOf c.toNat = .upper form := by
  unfold letterCase at h
  split at h
  case h_1 r hfind =>
    have hc := List.find?_some hfind
    exact ⟨r, List.mem_of_find?_eq_some hfind, hc, h⟩
  case h_2 => cases h

/-! ## Lower case forms -/

/-- A row takes a capital to itself or to a scalar value that some row has as
lower case. -/
theorem form_of_caseOf (hr : r ∈ caseTable) (hn : r.contains n = true)
    (h : r.caseOf n = .upper form) :
    form = n ∨ ∃ r' ∈ caseTable, r'.contains form = true ∧ r'.caseOf form = .lower := by
  have hsettled := isSettled_of_mem r hr
  have hbounds := contains_iff.1 hn
  cases hc : r.casing with
  | lower => simp [caseOf, hc] at h
  | upper shift =>
    simp only [caseOf, hc, LetterCase.upper.injEq] at h
    simp only [isSettled, hc, Bool.or_eq_true, beq_iff_eq, List.any_eq_true] at hsettled
    rcases hsettled with rfl | ⟨r', hr', hlower⟩
    · left
      omega
    · exact .inr ⟨r', hr', of_isLowerOn hlower (by omega) (by omega)⟩
  | pairs =>
    -- The partner is in the same row, because the row ends with a pair.
    simp only [isSettled, hc, beq_iff_eq] at hsettled
    simp only [caseOf, hc] at h
    split at h
    case isTrue heven =>
      obtain rfl : n + 1 = form := LetterCase.upper.inj h
      have hodd : (n + 1 - r.first) % 2 ≠ 0 := by omega
      exact .inr ⟨r, hr, contains_iff.2 (by omega), by simp [caseOf, hc, hodd]⟩
    case isFalse => cases h

/-- What a row has as lower case is no capital, also where it is not the value
of any scalar. -/
theorem isUpper_ofNat (hr : r ∈ caseTable) (hn : r.contains n = true)
    (h : r.caseOf n = .lower) : isUpper (Char.ofNat n) = false := by
  by_cases hvalid : n.isValidChar
  case pos =>
    have htoNat : (Char.ofNat n).toNat = n := by
      rw [Char.ofNat, dif_pos hvalid]
      rfl
    have hcase : letterCase (Char.ofNat n) = .lower := by
      rw [letterCase_of_mem hr (by rw [htoNat]; exact hn), htoNat, h]
    simp [isUpper, hcase]
  case neg =>
    have hzero : Char.ofNat n = '\x00' := by
      rw [Char.ofNat, dif_neg hvalid]
      rfl
    rw [hzero]
    decide +kernel

/-- The lower case form of a capital is that capital or has no capital. -/
theorem lowered_eq_or_not_isUpper (h : isUpper c = true) :
    lowered c = [c] ∨ ∀ d ∈ lowered c, isUpper d = false := by
  by_cases hdotted : c = 'İ'
  case pos =>
    right
    have hlowered : lowered 'İ' = ['i', '\u0307'] := rfl
    have hletter : isUpper 'i' = false := by decide +kernel
    have hmark : isUpper '\u0307' = false := by decide +kernel
    rw [hdotted, hlowered]
    simp [hletter, hmark]
  case neg =>
    cases hcase : letterCase c with
    | lower => simp [isUpper, hcase] at h
    | uncased => simp [isUpper, hcase] at h
    | upper form =>
      have hlowered : lowered c = [Char.ofNat form] := by simp [lowered, hdotted, hcase]
      obtain ⟨r, hr, hc, hform⟩ := exists_row_of_upper hcase
      rw [hlowered]
      rcases form_of_caseOf hr hc hform with rfl | ⟨r', hr', hn, hlower⟩
      · left
        rw [Char.ofNat_toNat]
      · right
        intro d hd
        rw [List.mem_singleton.1 hd]
        exact isUpper_ofNat hr' hn hlower

theorem lowered_ne_nil (c : Char) : lowered c ≠ [] := by
  unfold lowered
  split
  · simp
  · split <;> simp

end TypeExport.Text
