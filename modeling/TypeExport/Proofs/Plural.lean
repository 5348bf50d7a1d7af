import TypeExport.Naming

/-!
# Plurals

The English plural of a word is longer than the word, so it is never empty and
never the word itself, unless the word is empty.  Two words may have one plural,
because a plural in `es` is also that of a word in `e`, and one in `ies` is also
that of a word in `ie`.  There are no others (`pluralize_eq_iff`).

Words are compared from their last letters backwards.
-/

namespace TypeExport

/-- Whether a word in reverse has a plural in reverse. -/
inductive HasPlural : List Char → List Char → Prop
  | none : HasPlural [] []
  | sibilant {w : List Char} :
      endsInSibilant (w.map Char.toLower) = true → HasPlural w ('s' :: 'e' :: w)
  | ies {c : Char} {stem : List Char} :
      isVowel c = false → HasPlural ('y' :: c :: stem) ('s' :: 'e' :: 'i' :: c :: stem)
  | regular {w : List Char} :
      w ≠ [] → endsInSibilant (w.map Char.toLower) = false →
      (∀ c stem, w = 'y' :: c :: stem → isVowel c = true) → HasPlural w ('s' :: w)

theorem hasPlural_pluralize (word : String) :
    HasPlural word.toList.reverse (pluralize word).toList.reverse := by
  unfold pluralize
  generalize hrev : word.toList.reverse = w
  have append : ∀ suffix : String,
      (word ++ suffix).toList.reverse = suffix.toList.reverse ++ w := fun suffix => by
    rw [String.toList_append, List.reverse_append, hrev]
  cases w with
  | nil => exact .none
  | cons last before =>
    dsimp only
    split
    case isTrue hsibilant =>
      rw [append]
      exact .sibilant hsibilant
    case isFalse hsibilant =>
      rw [Bool.not_eq_true] at hsibilant
      split
      case h_1 c stem =>
        split
        case isTrue hvowel =>
          rw [append]
          refine .regular (by simp) hsibilant fun c' stem' heq => ?_
          cases heq
          exact hvowel
        case isFalse hvowel =>
          have hstem : (String.ofList (c :: stem).reverse).toList = (c :: stem).reverse :=
            String.toList_ofList
          rw [String.toList_append, List.reverse_append, hstem, List.reverse_reverse]
          exact .ies (Bool.not_eq_true _ ▸ hvowel)
      case h_2 hnot =>
        rw [append]
        refine .regular (by simp) hsibilant fun c stem heq => ?_
        cases heq
        exact absurd rfl (hnot c stem rfl)

/-- Whether two words in reverse have one plural, the second in `es` or in
`ies`. -/
inductive Rhymes : List Char → List Char → Prop
  /-- As `buse` and `bus`. -/
  | sibilant {w : List Char} :
      endsInSibilant (w.map Char.toLower) = true → Rhymes ('e' :: w) w
  /-- As `cookie` and `cooky`. -/
  | ies {c : Char} {stem : List Char} :
      isVowel c = false → Rhymes ('e' :: 'i' :: c :: stem) ('y' :: c :: stem)

namespace HasPlural

variable {w w' p p' : List Char} {c : Char} {stem : List Char}

theorem length_lt (h : HasPlural w p) (hw : w ≠ []) : w.length < p.length := by
  cases h with
  | none => exact absurd rfl hw
  | sibilant => exact Nat.lt_add_of_pos_right Nat.two_pos
  | @ies c stem =>
    show stem.length + 1 + 1 < stem.length + 1 + 1 + 1 + 1
    omega
  | regular => exact Nat.lt_succ_self _

/-! ## Plurals by the end of a word -/

theorem eq_of_sibilant (h : HasPlural w p) (hw : endsInSibilant (w.map Char.toLower) = true) :
    p = 's' :: 'e' :: w := by
  cases h with
  | none => cases hw
  | sibilant => rfl
  | ies => cases hw
  | regular _ hnot =>
    rw [hw] at hnot
    cases hnot

theorem eq_of_ies (h : HasPlural ('y' :: c :: stem) p) (hc : isVowel c = false) :
    p = 's' :: 'e' :: 'i' :: c :: stem := by
  cases h with
  | sibilant hw => cases hw
  | ies => rfl
  | regular _ _ hvowel =>
    rw [hvowel c stem rfl] at hc
    cases hc

theorem eq_of_e (h : HasPlural ('e' :: w) p) : p = 's' :: 'e' :: w := by
  cases h with
  | sibilant hw => cases hw
  | regular => rfl

/-! ## Words with one plural -/

theorem eq_of_rhymes (hr : Rhymes w w') (h : HasPlural w p) (h' : HasPlural w' p') : p = p' := by
  cases hr with
  | sibilant hw => rw [h.eq_of_e, h'.eq_of_sibilant hw]
  | ies hc => rw [h.eq_of_e, h'.eq_of_ies hc]

theorem eq_or_rhymes (h : HasPlural w p) (h' : HasPlural w' p) :
    w = w' ∨ Rhymes w w' ∨ Rhymes w' w := by
  cases h with
  | none =>
    cases h' with
    | none => exact .inl rfl
  | sibilant hw =>
    cases h' with
    | sibilant => exact .inl rfl
    | ies => cases hw
    | regular => exact .inr (.inr (.sibilant hw))
  | ies hc =>
    cases h' with
    | sibilant hw => cases hw
    | ies => exact .inl rfl
    | regular => exact .inr (.inr (.ies hc))
  | regular =>
    cases h' with
    | sibilant hw => exact .inr (.inl (.sibilant hw))
    | ies hc => exact .inr (.inl (.ies hc))
    | regular => exact .inl rfl

end HasPlural

/-! ## English plurals -/

/-- Whether two words rhyme, in either order. -/
def SharePlural (word word' : String) : Prop :=
  Rhymes word.toList.reverse word'.toList.reverse ∨ Rhymes word'.toList.reverse word.toList.reverse

/-- Two words have one plural only when they are one or rhyme. -/
theorem pluralize_eq_iff {word word' : String} :
    pluralize word = pluralize word' ↔ word = word' ∨ SharePlural word word' := by
  have h := hasPlural_pluralize word
  have h' := hasPlural_pluralize word'
  have word_eq : word = word' ↔ word.toList.reverse = word'.toList.reverse := by
    rw [List.reverse_inj, String.toList_inj]
  constructor
  · intro heq
    rw [← heq] at h'
    rw [word_eq]
    exact h.eq_or_rhymes h'
  · rintro (rfl | hr | hr)
    · rfl
    · exact String.toList_inj.1 (List.reverse_inj.1 (h.eq_of_rhymes hr h'))
    · exact String.toList_inj.1 (List.reverse_inj.1 (h'.eq_of_rhymes hr h).symm)

/-- The plural of a word that is not empty is longer than the word. -/
theorem length_lt_length_pluralize {word : String} (h : word ≠ "") :
    word.length < (pluralize word).length := by
  have hne : word.toList.reverse ≠ [] := by
    rw [ne_eq, List.reverse_eq_nil_iff, String.toList_eq_nil_iff]
    exact h
  have hlt := (hasPlural_pluralize word).length_lt hne
  rwa [List.length_reverse, List.length_reverse, String.length_toList,
    String.length_toList] at hlt

end TypeExport
