import TypeExport.Proofs.Reference.Spelling

/-!
# Cutting texts

A text is cut from left to right into blanks and tokens, each token the longest
one that starts where it stands (`Cuts`).  The cut goes on to the end of the
text, or it stops where neither a blank nor a token starts (`StartsNothing`).

Reading the tokens of a text cuts it (`lexemes_cases`), and a text that can be
cut to its end is read so (`Cuts.lexemes_eq`).  A token covers the bytes of its
spelling, so the place of every token in the text is a stretch of whole
characters (`Cuts.covers`).
-/

namespace TypeExport

/-! ## Bytes -/

/-- The number of bytes of a text. -/
def bytes (cs : List Char) : Nat := (String.ofList cs).utf8ByteSize

@[simp] theorem bytes_nil : bytes [] = 0 := rfl

@[simp] theorem bytes_append (cs ds : List Char) : bytes (cs ++ ds) = bytes cs + bytes ds := by
  simp [bytes]

@[simp] theorem bytes_cons (c : Char) (cs : List Char) :
    bytes (c :: cs) = c.utf8Size + bytes cs := by
  simp [bytes, String.ofList_cons]

theorem bytes_toList (text : String) : bytes text.toList = text.utf8ByteSize := by
  rw [bytes, String.ofList_toList]

/-- Characters of identifiers are one byte long. -/
theorem utf8Size_of_isIdentPart {c : Char} (h : isIdentPart c = true) : c.utf8Size = 1 := by
  rw [Char.utf8Size_eq_one_iff]
  have ranges : (decide (65 ≤ c.val ∧ c.val ≤ 90) || 97 ≤ c.val && c.val ≤ 122 ||
      48 ≤ c.val && c.val ≤ 57 || c = '_') = true := h
  simp only [Bool.or_eq_true, Bool.and_eq_true, decide_eq_true_eq] at ranges
  rcases ranges with ((⟨-, h⟩ | ⟨-, h⟩) | ⟨-, h⟩) | rfl
  · exact UInt32.le_trans h (by decide)
  · exact UInt32.le_trans h (by decide)
  · exact UInt32.le_trans h (by decide)
  · decide

/-- Blanks are one byte long. -/
theorem utf8Size_of_isBlank {c : Char} (h : Text.isBlank c = true) : c.utf8Size = 1 := by
  simp only [Text.isBlank, Bool.or_eq_true, decide_eq_true_eq] at h
  rcases h with ((rfl | rfl) | rfl) | rfl <;> decide

theorem bytes_of_isPathText {name : String} (h : IsPathText name) :
    bytes name.toList = name.length := by
  have ascii : ∀ cs : List Char, (∀ c ∈ cs, isIdentPart c = true ∨ c = '.') →
      bytes cs = cs.length := by
    intro cs hcs
    induction cs with
    | nil => rfl
    | cons c cs ih =>
      have hsize : c.utf8Size = 1 := by
        rcases hcs c List.mem_cons_self with hpart | rfl
        · exact utf8Size_of_isIdentPart hpart
        · decide
      rw [bytes_cons, hsize, ih fun d hd => hcs d (List.mem_cons_of_mem _ hd), List.length_cons,
        Nat.add_comm]
  rw [ascii _ h, String.length_toList]

/-- A token that is read is as wide as its spelling. -/
theorem width_of_munch {c : Char} {rest behind : List Char} {t : Token}
    (h : munch c rest = some (t, behind)) : t.width = bytes t.spelling := by
  cases t with
  | path name => exact (bytes_of_isPathText (isPathText_of_munch h)).symm
  | _ => decide

/-! ## Where tokens start -/

/-- Where a proper token starts a token is read. -/
theorem exists_munch {t : Token} {c : Char} {rest behind : List Char} (ht : t.isProper = true)
    (h : t.spelling ++ behind = c :: rest) :
    Text.isBlank c = false ∧ ∃ t' behind', munch c rest = some (t', behind') := by
  by_cases hname : t.isName = true
  · cases t with
    | path name =>
      have hpath : isDotted name.toList = true := ht
      cases hcs : name.toList with
      | nil =>
        rw [hcs] at hpath
        cases hpath
      | cons d ds =>
        rw [hcs, isDotted_cons, Bool.and_eq_true] at hpath
        rw [Token.spelling, hcs, List.cons_append] at h
        obtain ⟨rfl, rfl⟩ := List.cons.inj h
        exact ⟨isBlank_of_isIdentPart (isIdentPart_of_isIdentStart hpath.1), _, _,
          munch_of_isIdentStart hpath.1 _⟩
    | _ => cases hname
  · have ends : t.isName = true → EndsPath behind := fun h => absurd h hname
    obtain ⟨d, ds, htext, hblank, hmunch⟩ := munch_spelling ht ends
    obtain ⟨rfl, rfl⟩ := List.cons.inj (htext.symm.trans h)
    exact ⟨hblank, _, _, hmunch⟩

/-- Proper tokens with one spelling are one token. -/
theorem eq_of_spelling_eq {t t' : Token} (ht : t.isProper = true) (ht' : t'.isProper = true)
    (h : t.spelling = t'.spelling) : t = t' := by
  have ends : EndsPath [] := by simp [EndsPath]
  obtain ⟨c, rest, htext, -, hmunch⟩ := munch_spelling ht fun _ => ends
  obtain ⟨c', rest', htext', -, hmunch'⟩ := munch_spelling ht' fun _ => ends
  rw [h, htext'] at htext
  obtain ⟨rfl, rfl⟩ := List.cons.inj htext
  simpa using hmunch.symm.trans hmunch'

/-- Whether a token is the longest one that a text starts with. -/
structure IsLongest (t : Token) (cs : List Char) : Prop where
  proper : t.isProper = true
  starts : t.spelling <+: cs
  longest : ∀ t' : Token, t'.isProper = true → t'.spelling <+: cs →
    t'.spelling.length ≤ t.spelling.length

/-- Whether a text starts with a character, and neither with a blank nor with a
token. -/
def StartsNothing (cs : List Char) : Prop :=
  (∃ c ∈ cs.head?, Text.isBlank c = false) ∧
    ∀ t : Token, t.isProper = true → ¬ t.spelling <+: cs

theorem isLongest_of_munch {c : Char} {rest behind : List Char} {t : Token}
    (h : munch c rest = some (t, behind)) : IsLongest t (c :: rest) where
  proper := (spelling_of_munch h).2
  starts := ⟨behind, (spelling_of_munch h).1⟩
  longest := by
    rintro t' ht' ⟨behind', htext⟩
    exact length_spelling_le_of_munch h ht' htext

/-- The longest token is the one that is read. -/
theorem IsLongest.munch_eq {c : Char} {rest behind : List Char} {t : Token}
    (h : IsLongest t (c :: rest)) (htext : t.spelling ++ behind = c :: rest) :
    Text.isBlank c = false ∧ munch c rest = some (t, behind) := by
  obtain ⟨hblank, t', behind', hmunch⟩ := exists_munch h.proper htext
  obtain ⟨htext', hproper⟩ := spelling_of_munch hmunch
  have hlength : t.spelling.length = t'.spelling.length :=
    le_antisymm (length_spelling_le_of_munch hmunch h.proper htext)
      (h.longest t' hproper ⟨behind', htext'⟩)
  obtain ⟨hspelling, rfl⟩ := List.append_inj (htext.trans htext'.symm) hlength
  rw [eq_of_spelling_eq h.proper hproper hspelling]
  exact ⟨hblank, hmunch⟩

theorem startsNothing_of_munch {c : Char} {rest : List Char} (hblank : Text.isBlank c = false)
    (h : munch c rest = none) : StartsNothing (c :: rest) := by
  refine ⟨⟨c, rfl, hblank⟩, ?_⟩
  rintro t ht ⟨behind, htext⟩
  obtain ⟨-, t', behind', hmunch⟩ := exists_munch ht htext
  cases h.symm.trans hmunch

/-! ## Cuts -/

/-- How a text that begins at a byte offset is cut: `Cuts offset cs ls rest` says
that the lexemes `ls` and blanks between them stand before `rest` in `cs`, each
token the longest one that starts at its place. -/
inductive Cuts : Nat → List Char → List Lexeme → List Char → Prop
  | stop (offset : Nat) (rest : List Char) : Cuts offset rest [] rest
  | blank {offset : Nat} {c : Char} {cs rest : List Char} {ls : List Lexeme} :
      Text.isBlank c = true → Cuts (offset + c.utf8Size) cs ls rest →
      Cuts offset (c :: cs) ls rest
  | token {offset : Nat} {t : Token} {cs rest : List Char} {ls : List Lexeme} :
      IsLongest t (t.spelling ++ cs) → Cuts (offset + bytes t.spelling) cs ls rest →
      Cuts offset (t.spelling ++ cs) (⟨t, offset, offset + bytes t.spelling⟩ :: ls) rest

/-- Whether a span that counts from an offset covers some of the characters of a
text. -/
def Span.Covers (span : Span) (offset : Nat) (before here : List Char) : Prop :=
  span = ⟨offset + bytes before, offset + bytes (before ++ here)⟩

/-- A text can be cut to its end, or up to where nothing starts. -/
theorem lexemes_cases (offset : Nat) (cs : List Char) :
    (∃ ls, lexemes offset cs = .ok ls ∧ Cuts offset cs ls []) ∨
      ∃ ls before c rest, cs = before ++ c :: rest ∧ Cuts offset cs ls (c :: rest) ∧
        StartsNothing (c :: rest) ∧ ∃ span, span.Covers offset before [c] ∧
          lexemes offset cs = .error ⟨.unexpectedCharacter c, span⟩ := by
  fun_induction lexemes offset cs with
  | case1 offset => exact .inl ⟨[], rfl, .stop offset []⟩
  | case2 offset c rest hblank ih =>
    have hsize := utf8Size_of_isBlank hblank
    rcases ih with ⟨ls, hls, hcuts⟩ | ⟨ls, before, d, behind, rfl, hcuts, hnothing, span, hspan, he⟩
    · exact .inl ⟨ls, hls, .blank hblank (hsize ▸ hcuts)⟩
    · refine .inr ⟨ls, c :: before, d, behind, rfl, .blank hblank (hsize ▸ hcuts), hnothing, span,
        ?_, he⟩
      simpa [Span.Covers, hsize, Nat.add_assoc] using hspan
  | case3 offset c rest hblank hmunch =>
    refine .inr ⟨[], [], c, rest, rfl, .stop offset _, startsNothing_of_munch ?_ hmunch, _, ?_, rfl⟩
    · simpa using hblank
    · simp [Span.Covers]
  | case4 offset c rest hblank t behind hmunch stop e he ih =>
    rcases ih with ⟨ls, hls, -⟩ | ⟨ls, before, d, rest', rfl, hcuts, hnothing, span, hspan, he'⟩
    · cases he.symm.trans hls
    · have htext := (spelling_of_munch hmunch).1
      have hlongest := isLongest_of_munch hmunch
      rw [← htext] at hlongest ⊢
      rw [show stop = offset + bytes t.spelling by rw [← width_of_munch hmunch]] at hcuts hspan
      refine .inr ⟨_, t.spelling ++ before, d, rest', by simp, .token hlongest hcuts, hnothing,
        span, ?_, ?_⟩
      · simpa [Span.Covers, Nat.add_assoc] using hspan
      · cases he.symm.trans he'
        rfl
  | case5 offset c rest hblank t behind hmunch stop more hmore ih =>
    rcases ih with ⟨ls, hls, hcuts⟩ | ⟨-, -, d, -, -, -, -, span, -, he⟩
    · cases hmore.symm.trans hls
      have htext := (spelling_of_munch hmunch).1
      have hlongest := isLongest_of_munch hmunch
      rw [← htext] at hlongest ⊢
      rw [show stop = offset + bytes t.spelling by rw [← width_of_munch hmunch]] at hcuts ⊢
      exact .inl ⟨_, rfl, .token hlongest hcuts⟩
    · cases hmore.symm.trans he

/-- A text that is cut to its end is read as its lexemes. -/
theorem Cuts.lexemes_eq {offset : Nat} {cs : List Char} {ls : List Lexeme}
    (h : Cuts offset cs ls []) : lexemes offset cs = .ok ls := by
  generalize hend : ([] : List Char) = rest at h
  induction h with
  | stop offset rest =>
    subst hend
    simp [lexemes]
  | blank hblank _ ih => rw [lexemes, if_pos hblank, ← utf8Size_of_isBlank hblank, ih hend]
  | @token offset t cs rest ls hlongest _ ih =>
    obtain ⟨c, cs', htext⟩ : ∃ c cs', t.spelling ++ cs = c :: cs' := by
      cases htext : t.spelling ++ cs with
      | cons c cs' => exact ⟨c, cs', rfl⟩
      | nil =>
        have hproper := hlongest.proper
        obtain ⟨hspelling, rfl⟩ := List.append_eq_nil_iff.1 htext
        have ends : t.isName = true → EndsPath [] := fun _ => by simp [EndsPath]
        obtain ⟨c, rest, hcons, -⟩ := munch_spelling hproper ends
        rw [hspelling] at hcons
        cases hcons
    rw [htext] at hlongest ⊢
    obtain ⟨hblank, hmunch⟩ := hlongest.munch_eq htext
    rw [lexemes, if_neg (by simp [hblank])]
    split
    · rename_i hnone
      cases hnone.symm.trans hmunch
    · rename_i t' behind hsome
      cases hsome.symm.trans hmunch
      simp only [width_of_munch hmunch, ih hend]

/-- The lexemes of a cut stand at characters of the text, which spell their
tokens. -/
theorem Cuts.covers {offset : Nat} {cs rest : List Char} {ls : List Lexeme}
    (h : Cuts offset cs ls rest) : ∀ l ∈ ls, l.token.isProper = true ∧ ∃ before behind,
      cs = before ++ l.token.spelling ++ behind ∧
        l.span.Covers offset before l.token.spelling := by
  induction h with
  | stop => simp
  | @blank offset c cs rest ls hblank _ ih =>
    intro l hl
    obtain ⟨hproper, before, behind, rfl, hspan⟩ := ih l hl
    refine ⟨hproper, c :: before, behind, rfl, ?_⟩
    simpa [Span.Covers, Nat.add_assoc] using hspan
  | @token offset t cs rest ls hlongest _ ih =>
    intro l hl
    rcases List.mem_cons.1 hl with rfl | hrest
    · exact ⟨hlongest.proper, [], cs, rfl, by simp [Span.Covers]⟩
    · obtain ⟨hproper, before, behind, rfl, hspan⟩ := ih l hrest
      refine ⟨hproper, t.spelling ++ before, behind, by simp, ?_⟩
      simpa [Span.Covers, Nat.add_assoc] using hspan

end TypeExport
