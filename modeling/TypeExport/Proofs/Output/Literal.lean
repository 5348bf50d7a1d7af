import TypeExport.Json.Parser
import TypeExport.Output.Render

/-!
# Reading literals

How a script reads a text in single quotes.  A backslash starts an escape, which
stands for a character or for none, and other characters stand for themselves.  The
reader goes from character to character, and `Literal.Mode` says where it is: between
escapes or inside one.  It ends at the first quote that is not escaped.

A line break between escapes ends a script with an error.  Which characters may stand
there is a parameter of the reader, since some readers let a line break pass.

Where a text is written with its quotes and backslashes escaped, it is read as
itself (`Literal.readText_literalChar`).  Where it is written as it is, it is read
as itself exactly when it has none of them (`Literal.readText_plain_iff`): an escape
stands for fewer characters than it has, so a text with an escape is never read as
long as it is.
-/

namespace TypeExport.Literal

open Json (hexValue? decodeUnits isHighSurrogate isLowSurrogate)

/-! ## The reader -/

/-- Where the reader of a literal is. -/
inductive Mode where
  /-- Between escapes. -/
  | plain
  /-- Behind a backslash. -/
  | escape
  /-- Behind the escape of a zero, which no digit may follow. -/
  | zero
  /-- Behind an escaped carriage return, which a line feed belongs to. -/
  | carriage
  /-- In front of one hexadecimal digit and more of them. -/
  | hex (more value : Nat)
  /-- Behind `\u`. -/
  | unicode
  /-- Behind `\u` and an opening brace. -/
  | brace
  /-- Between braces, behind digits of that value. -/
  | point (value : Nat)
  deriving DecidableEq, Repr

/-- Whether a quote ends the literal. -/
def Mode.closes : Mode → Bool
  | .plain | .zero | .carriage => true
  | _ => false

/-- The value of a character behind a backslash, where it starts no longer escape. -/
def escaped : Char → Nat
  | 'b' => 0x08
  | 't' => 0x09
  | 'n' => 0x0A
  | 'v' => 0x0B
  | 'f' => 0x0C
  | 'r' => 0x0D
  | c => c.toNat

/-- A character between escapes. -/
def stepPlain (raw : Char → Bool) (c : Char) : Option (Mode × List Nat) :=
  if c = '\\' then some (.escape, [])
  else if raw c then some (.plain, [c.toNat])
  else none

/-- A character behind a backslash. -/
def stepEscape (c : Char) : Option (Mode × List Nat) :=
  if c = 'x' then some (.hex 1 0, [])
  else if c = 'u' then some (.unicode, [])
  else if c = '\r' then some (.carriage, [])
  else if c ∈ ['\n', '\u2028', '\u2029'] then some (.plain, [])
  else if c = '0' then some (.zero, [0])
  else if c.isDigit then none
  else some (.plain, [escaped c])

/-- A hexadecimal digit, behind digits of a value and in front of more. -/
def stepHex (more value : Nat) (c : Char) : Option (Mode × List Nat) := do
  let digit ← hexValue? c
  return match more with
    | 0 => (.plain, [value * 16 + digit])
    | more + 1 => (.hex more (value * 16 + digit), [])

/-- A character in front of which the reader is somewhere: where it is behind it, and the
values that it has read there. -/
def step (raw : Char → Bool) (c : Char) : Mode → Option (Mode × List Nat)
  | .plain => stepPlain raw c
  | .zero => if c.isDigit then none else stepPlain raw c
  | .carriage => if c = '\n' then some (.plain, []) else stepPlain raw c
  | .escape => stepEscape c
  | .hex more value => stepHex more value c
  | .unicode => if c = '\x7b' then some (.brace, []) else stepHex 3 0 c
  | .brace => (hexValue? c).map fun digit => (.point digit, [])
  | .point value =>
    if c = '\x7d' then if value ≤ 0x10FFFF then some (.plain, [value]) else none
    else (hexValue? c).map fun digit => (.point (value * 16 + digit), [])

/-- The values of a literal up to its closing quote, and the text behind it. -/
def scan (raw : Char → Bool) (m : Mode) : List Char → Option (List Nat × List Char)
  | [] => none
  | c :: rest =>
    if m.closes && c = '\'' then some ([], rest)
    else do
      let (next, values) ← step raw c m
      let (more, behind) ← scan raw next rest
      return (values ++ more, behind)

/-- The text of a literal behind its opening quote, and what stands behind it. -/
def readText (raw : Char → Bool) (cs : List Char) : Option (List Char × List Char) := do
  let (values, behind) ← scan raw .plain cs
  return (← decodeUnits values, behind)

/-! ## Texts of values -/

/-- The value of a character is no surrogate. -/
theorem not_isSurrogate_toNat (c : Char) :
    isHighSurrogate c.toNat = false ∧ isLowSurrogate c.toNat = false := by
  have valid : c.toNat < 0xD800 ∨ 0xDFFF < c.toNat ∧ c.toNat < 0x110000 := c.valid
  simp only [isHighSurrogate, isLowSurrogate, Bool.and_eq_false_iff, decide_eq_false_iff_not]
  omega

theorem decodeUnits_map_toNat (cs : List Char) : decodeUnits (cs.map Char.toNat) = some cs := by
  induction cs with
  | nil => rfl
  | cons c cs ih =>
    obtain ⟨high, low⟩ := not_isSurrogate_toNat c
    cases cs with
    | nil => simp [decodeUnits, high, low, Char.ofNat_toNat]
    | cons d ds =>
      rw [List.map_cons, List.map_cons, decodeUnits, high, low, ← List.map_cons, ih]
      simp [Char.ofNat_toNat]

/-- A text has no more characters than values. -/
theorem length_le_of_decodeUnits {values : List Nat} {cs : List Char}
    (h : decodeUnits values = some cs) : cs.length ≤ values.length := by
  fun_induction decodeUnits values generalizing cs with
  | case1 =>
    cases h
    exact Nat.le_refl _
  | case2 => cases h
  | case3 =>
    cases h
    exact Nat.le_refl _
  | case4 n m rest _ _ ih =>
    obtain ⟨tail, htail, rfl⟩ := Option.map_eq_some_iff.1 h
    have := ih htail
    simp only [List.length_cons]
    omega
  | case5 => cases h
  | case6 => cases h
  | case7 n m rest _ _ ih =>
    obtain ⟨tail, htail, rfl⟩ := Option.map_eq_some_iff.1 h
    exact Nat.succ_le_succ (ih htail)

/-! ## What is read -/

section Scans

variable {raw : Char → Bool} {m next : Mode} {c : Char} {body behind behind' cs : List Char}
  {values : List Nat}

/-- What the reader reads up to a closing quote: the characters in front of the quote and
their values. -/
inductive Scans (raw : Char → Bool) : Mode → List Char → List Nat → Prop
  | close {m : Mode} : m.closes = true → Scans raw m [] []
  | read {m next : Mode} {c : Char} {body : List Char} {values more : List Nat} :
      (m.closes && c = '\'') = false → step raw c m = some (next, values) →
      Scans raw next body more → Scans raw m (c :: body) (values ++ more)

theorem scan_eq_some_iff : scan raw m cs = some (values, behind) ↔
    ∃ body, cs = body ++ '\'' :: behind ∧ Scans raw m body values := by
  induction cs generalizing m values with
  | nil => simp [scan]
  | cons c rest ih =>
    rw [scan]
    constructor
    · intro h
      split at h
      · next hclose =>
        obtain ⟨hm, hc⟩ : m.closes = true ∧ c = '\'' := by simpa using hclose
        cases h
        exact ⟨[], by rw [hc, List.nil_append], .close hm⟩
      · next hopen =>
        obtain ⟨⟨next, vs⟩, hstep, h⟩ := Option.bind_eq_some_iff.1 h
        obtain ⟨⟨more, behind'⟩, hscan, h⟩ := Option.bind_eq_some_iff.1 h
        cases h
        obtain ⟨body, rfl, scans⟩ := ih.1 hscan
        exact ⟨c :: body, rfl, .read (by simpa using hopen) hstep scans⟩
    · rintro ⟨body, htext, scans⟩
      cases scans with
      | close hm =>
        cases htext
        simp [hm]
      | @read _ next _ body vs more hopen hstep scans =>
        cases htext
        have hrest : scan raw next (body ++ '\'' :: behind) = some (more, behind) :=
          ih.2 ⟨body, rfl, scans⟩
        simp [hopen, hstep, hrest]

/-- A character has one value at most. -/
theorem length_step (h : step raw c m = some (next, values)) : values.length ≤ 1 := by
  have plain : stepPlain raw c = some (next, values) → values.length ≤ 1 := by
    unfold stepPlain
    grind
  have hex (more value : Nat) (h : stepHex more value c = some (next, values)) :
      values.length ≤ 1 := by
    obtain ⟨digit, -, h⟩ := Option.bind_eq_some_iff.1 h
    cases more <;> cases h <;> simp
  cases m with
  | plain => exact plain h
  | hex more value => exact hex more value h
  | escape =>
    rw [step, stepEscape] at h
    grind
  | brace =>
    obtain ⟨digit, -, h⟩ := Option.map_eq_some_iff.1 h
    cases h
    simp
  | point value =>
    rw [step] at h
    split at h
    · grind
    · obtain ⟨digit, -, h⟩ := Option.map_eq_some_iff.1 h
      cases h
      simp
  | _ =>
    rw [step] at h
    grind

/-- A literal has no more values than characters. -/
theorem Scans.length_le (h : Scans raw m body values) : values.length ≤ body.length := by
  induction h with
  | close => exact Nat.le_refl _
  | read _ hstep _ ih =>
    have := length_step hstep
    simp only [List.length_append, List.length_cons]
    omega

/-- A character that may stand as it is in a literal, written as it is. -/
def IsPlain (raw : Char → Bool) (c : Char) : Prop := c ≠ '\\' ∧ c ≠ '\'' ∧ raw c = true

/-- A literal with as many values as characters has no escapes. -/
theorem Scans.eq_of_length (h : Scans raw .plain body values)
    (hlength : body.length ≤ values.length) :
    values = body.map Char.toNat ∧ ∀ c ∈ body, IsPlain raw c := by
  generalize hm : Mode.plain = m at h
  induction h with
  | close => exact ⟨rfl, by simp⟩
  | @read m next c body vs more hopen hstep scans ih =>
    subst hm
    have hle := scans.length_le
    rw [step, stepPlain] at hstep
    split at hstep
    · cases hstep
      simp only [List.nil_append, List.length_cons] at hlength
      omega
    · next hbackslash =>
      split at hstep
      · next hraw =>
        cases hstep
        obtain ⟨hvalues, hall⟩ := ih (by simpa using hlength) rfl
        have hquote : c ≠ '\'' := by simpa [Mode.closes] using hopen
        refine ⟨?_, List.forall_mem_cons.2 ⟨⟨hbackslash, hquote, hraw⟩, hall⟩⟩
        rw [hvalues]
        rfl
      · cases hstep

/-- Characters that may stand as they are have their own values. -/
theorem scans_plain (h : ∀ c ∈ body, IsPlain raw c) :
    Scans raw .plain body (body.map Char.toNat) := by
  induction body with
  | nil => exact .close rfl
  | cons c body ih =>
    obtain ⟨⟨hbackslash, hquote, hraw⟩, hbody⟩ := List.forall_mem_cons.1 h
    have hstep : step raw c .plain = some (.plain, [c.toNat]) := by
      simp [step, stepPlain, hbackslash, hraw]
    exact .read (by simp [hquote]) hstep (ih hbody)

end Scans

/-! ## Texts as they are -/

section Plain

variable {raw : Char → Bool} {v rest : List Char}

/-- A text is read as it is written exactly when all of its characters may stand so. -/
theorem readText_plain_iff :
    readText raw (v ++ '\'' :: rest) = some (v, rest) ↔ ∀ c ∈ v, IsPlain raw c := by
  constructor
  · intro h
    obtain ⟨⟨values, behind⟩, hscan, h⟩ := Option.bind_eq_some_iff.1 h
    obtain ⟨cs, hdecode, h⟩ := Option.bind_eq_some_iff.1 h
    cases h
    obtain ⟨body, htext, scans⟩ := scan_eq_some_iff.1 hscan
    obtain rfl : v = body := List.append_cancel_right htext
    exact (scans.eq_of_length (length_le_of_decodeUnits hdecode)).2
  · intro h
    have hscan : scan raw .plain (v ++ '\'' :: rest) = some (v.map Char.toNat, rest) :=
      scan_eq_some_iff.2 ⟨v, rfl, scans_plain h⟩
    simp [readText, hscan, decodeUnits_map_toNat]

/-- No literal reads over a comma and a line break, where a line break ends a script. -/
theorem not_scans_break (hcomma : raw ',' = true) (hbreak : raw '\n' = false) {m : Mode}
    {before behind : List Char} {values : List Nat} :
    ¬ Scans raw m (before ++ ',' :: '\n' :: behind) values := by
  intro h
  induction before generalizing m values with
  | nil =>
    cases h with
    | @read _ next _ _ vs more _ hstep scans =>
      have hnext : next = .plain := by
        have hhex : hexValue? ',' = none := rfl
        cases m <;> simp [step, stepPlain, stepEscape, stepHex, hcomma, hhex] at hstep <;>
          exact hstep.1.symm
      subst hnext
      cases scans with
      | read _ hstep _ => simp [step, stepPlain, hbreak] at hstep
  | cons c before ih =>
    cases h with
    | read _ _ scans => exact ih scans

/-- A text in front of the quote, a comma and a line break is read up to this quote when
it is read as itself, where a line break ends a script. -/
theorem readText_break_iff (hcomma : raw ',' = true) (hbreak : raw '\n' = false)
    {behind : List Char} :
    readText raw (v ++ '\'' :: ',' :: '\n' :: rest) = some (v, behind) ↔
      behind = ',' :: '\n' :: rest ∧ ∀ c ∈ v, IsPlain raw c := by
  constructor
  · intro h
    obtain ⟨⟨values, behind'⟩, hscan, hread⟩ := Option.bind_eq_some_iff.1 h
    obtain ⟨cs, hdecode, hread⟩ := Option.bind_eq_some_iff.1 hread
    cases hread
    obtain ⟨body, htext, scans⟩ := scan_eq_some_iff.1 hscan
    have hle : v.length ≤ body.length :=
      Nat.le_trans (length_le_of_decodeUnits hdecode) scans.length_le
    rcases List.append_eq_append_iff.1 htext with ⟨tail, rfl, htail⟩ | ⟨tail, rfl, htail⟩
    · match tail with
      | [] =>
        cases htail
        exact ⟨rfl, readText_plain_iff.1 h⟩
      | [_] => cases htail
      | [_, _] => cases htail
      | _ :: _ :: _ :: tail =>
        cases htail
        rw [List.append_cons v] at scans
        exact absurd scans (not_scans_break hcomma hbreak)
    · have hnil : tail = [] := by
        rw [List.length_append] at hle
        exact List.length_eq_zero_iff.1 (by omega)
      subst hnil
      cases htail
      rw [List.append_nil] at h ⊢
      exact ⟨rfl, readText_plain_iff.1 h⟩
  · rintro ⟨rfl, hv⟩
    exact readText_plain_iff.2 hv

end Plain

/-! ## Texts with escapes -/

/-- Whether a character may stand in a literal whose quotes and backslashes are
escaped. -/
def isEscapable (raw : Char → Bool) (c : Char) : Bool := c = '\\' || c = '\'' || raw c

theorem scan_literalChar (raw : Char → Bool) (c : Char) (cs : List Char) :
    scan raw .plain (literalChar c ++ cs) =
      if isEscapable raw c then
        (scan raw .plain cs).map fun (more, behind) => (c.toNat :: more, behind)
      else none := by
  by_cases hc : c = '\\' ∨ c = '\''
  · have hstep : stepEscape c = some (.plain, [c.toNat]) := by
      obtain rfl | rfl := hc <;> rfl
    have hwritten : literalChar c = ['\\', c] := by simp [literalChar, hc]
    have hescapable : isEscapable raw c = true := by
      obtain rfl | rfl := hc <;> rfl
    rw [hwritten, if_pos hescapable]
    cases hscan : scan raw .plain cs <;>
      simp [scan, Mode.closes, step, stepPlain, hstep, hscan]
  · obtain ⟨hbackslash, hquote⟩ := not_or.1 hc
    have hwritten : literalChar c = [c] := by simp [literalChar, hbackslash, hquote]
    have hescapable : isEscapable raw c = raw c := by simp [isEscapable, hbackslash, hquote]
    rw [hwritten, hescapable]
    cases hraw : raw c <;> cases hscan : scan raw .plain cs <;>
      simp [scan, hquote, step, stepPlain, hbackslash, hraw, hscan]

theorem scan_flatMap_literalChar (raw : Char → Bool) (v rest : List Char) :
    scan raw .plain (v.flatMap literalChar ++ '\'' :: rest) =
      if v.all (isEscapable raw) then some (v.map Char.toNat, rest) else none := by
  induction v with
  | nil => simp [scan, Mode.closes]
  | cons c v ih =>
    rw [List.flatMap_cons, List.append_assoc, scan_literalChar, ih, List.all_cons]
    cases isEscapable raw c with
    | false => rfl
    | true => cases v.all (isEscapable raw) <;> rfl

/-- A text whose quotes and backslashes are escaped is read as itself if all of its
characters may stand so, and it is not read otherwise. -/
theorem readText_literalChar (raw : Char → Bool) (v rest : List Char) :
    readText raw (v.flatMap literalChar ++ '\'' :: rest) =
      if v.all (isEscapable raw) then some (v, rest) else none := by
  rw [readText, scan_flatMap_literalChar]
  cases v.all (isEscapable raw) with
  | false => rfl
  | true => simp [decodeUnits_map_toNat]

end TypeExport.Literal
