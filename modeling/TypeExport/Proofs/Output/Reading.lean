import Mathlib.Data.Set.Function
import TypeExport.Proofs.Output.Literal
import TypeExport.Proofs.Output.Separated
import TypeExport.Text.Blank

/-!
# Reading type expressions

A reader of rendered types.  It takes a text apart into symbols, which are words,
literals and marks (`Reading.lex`), and reads an expression from them by the
precedence of the dialects: a suffix binds tighter than the question mark in front of
an expression, which binds tighter than a bar (`Reading.readType`).

Rendering writes the symbols of an expression (`Reading.lex_render`).  Whether
parentheses are needed depends on the place, so what is read back says three things:
what is read of an expression that suffixes may follow, of an alternative and of a
whole type (`Reading.Reads`).  `TypeExpr.Readable` are the expressions that have a
notation of their own, and they are read as themselves (`Reading.read_render`).
-/

namespace TypeExport

namespace Reading

/-! ## Symbols -/

/-- A symbol of a type expression. -/
inductive Symbol where
  /-- A name. -/
  | word (name : String)
  /-- A literal, without its quotes and escapes. -/
  | text (value : String)
  /-- A single character that delimits expressions. -/
  | mark (c : Char)
  deriving DecidableEq, Repr

/-- The characters that delimit expressions. -/
def isMark (c : Char) : Bool :=
  c ∈ ['<', '>', ',', '[', ']', '(', ')', '\x7b', '\x7d', '|', '?', ':']

/-- Every other character is part of a word. -/
def isWordChar (c : Char) : Bool := !(Text.isBlank c || isMark c || c = '\'')

/-- The symbol that starts with the character `c`, and the text behind it. -/
def lexeme (c : Char) (rest : List Char) : Option (Symbol × List Char) :=
  if c = '\'' then
    (Literal.readText (fun _ => true) rest).map fun (value, behind) =>
      (.text (String.ofList value), behind)
  else if isMark c then some (.mark c, rest)
  else some (.word (String.ofList (c :: rest.takeWhile isWordChar)), rest.dropWhile isWordChar)

theorem length_le_of_lexeme {c : Char} {rest behind : List Char} {t : Symbol}
    (h : lexeme c rest = some (t, behind)) : behind.length ≤ rest.length := by
  unfold lexeme at h
  split at h
  · obtain ⟨⟨value, behind'⟩, hread, h⟩ := Option.map_eq_some_iff.1 h
    cases h
    obtain ⟨⟨values, behind''⟩, hscan, hread⟩ := Option.bind_eq_some_iff.1 hread
    obtain ⟨_, -, hread⟩ := Option.bind_eq_some_iff.1 hread
    cases hread
    obtain ⟨body, rfl, -⟩ := Literal.scan_eq_some_iff.1 hscan
    simp only [List.length_append, List.length_cons]
    omega
  · split at h <;> cases h
    · exact Nat.le_refl _
    · exact (List.dropWhile_sublist _).length_le

/-- The symbols of a text. -/
def lex : List Char → Option (List Symbol)
  | [] => some []
  | c :: rest =>
    if Text.isBlank c then lex rest
    else
      match _h : lexeme c rest with
      | none => none
      | some (t, behind) => (lex behind).map (t :: ·)
termination_by cs => cs.length
decreasing_by
  · simp
  · have := length_le_of_lexeme _h
    simp only [List.length_cons]
    omega

/-! ## Expressions -/

/-- A reader of expressions: what it reads, and the symbols behind it. -/
abbrev Reader := List Symbol → Option (TypeExpr × List Symbol)

/-- The symbols behind a mark. -/
def expect (c : Char) : List Symbol → Option (List Symbol)
  | .mark d :: rest => if d = c then some rest else none
  | _ => none

/-- An expression with the array suffixes that follow it. -/
def readSuffixes (e : TypeExpr) : List Symbol → TypeExpr × List Symbol
  | .mark '[' :: .mark ']' :: rest => readSuffixes (.array e) rest
  | ts => (e, ts)

/-- A name with arguments.  TypeScript has a global nullable type. -/
def applied (d : Dialect) (name : String) : List TypeExpr → TypeExpr
  | [e] =>
    if d = .typeScript ∧ name = "Nullable" then .nullable e
    else .generic (.reference name) [e]
  | es => .generic (.reference name) es

/-- An expression without a suffix and without a question mark.  What stands between its
marks is read as a type. -/
def readPrimary (d : Dialect) (type : Reader) (fuel : Nat) : Reader
  | .text value :: rest => some (.literal value, rest)
  | .mark '(' :: rest => do
    let (e, rest) ← type rest
    return (e, ← expect ')' rest)
  | .mark '\x7b' :: .mark '[' :: .word _ :: .mark ':' :: rest => do
    let (key, rest) ← type rest
    let (value, rest) ← type (← expect ':' (← expect ']' rest))
    return (.dictionary key value, ← expect '\x7d' rest)
  | .word name :: .mark '<' :: rest => do
    let (es, rest) ← readSeparated type (expect ',') fuel rest
    return (applied d name es, ← expect '>' rest)
  | .word name :: rest => some (.reference name, rest)
  | _ => none

/-- An expression without a bar.  Flow has question marks in front of expressions. -/
def readItem (d : Dialect) (type : Reader) (fuel : Nat) : Reader
  | .mark '?' :: rest =>
    match d with
    | .typeScript => none
    | .flow => (readItem d type fuel rest).map fun (e, rest) => (.nullable e, rest)
  | ts => (readPrimary d type fuel ts).map fun (e, rest) => readSuffixes e rest

/-- The expression that has these alternatives. -/
def alternatives : List TypeExpr → TypeExpr
  | [e] => e
  | .reference "null" :: es => .orNull (alternatives es)
  | es => .union es

/-- A type that is nested no deeper than `fuel`. -/
def readType (d : Dialect) : Nat → Reader
  | 0, _ => none
  | fuel + 1, ts =>
    (readSeparated (readItem d (readType d fuel) fuel) (expect '|') (fuel + 1) ts).map
      fun (es, rest) => (alternatives es, rest)

/-- The expression that a text spells. -/
def read (d : Dialect) (text : String) : Option TypeExpr := do
  let ts ← lex text.toList
  match ← readType d ts.length ts with
  | (e, []) => some e
  | _ => none

end Reading

/-! ## Expressions with a notation of their own -/

namespace TypeExpr

open Reading (isWordChar)

/-- A name that no other notation looks like. -/
structure IsName (d : Dialect) (name : String) : Prop where
  nonempty : name.toList ≠ []
  word : name.toList.all isWordChar = true
  ne_null : name ≠ "null"
  ne_nullable : d = .typeScript → name ≠ "Nullable"

/-- An expression that has a notation of its own.  Names are words that mean nothing
else, generics have a name and arguments, and no wrapper is in place of an alternative
or directly inside another wrapper. -/
inductive Readable (d : Dialect) : TypeExpr → Prop
  | reference {name : String} : IsName d name → Readable d (.reference name)
  | generic {name : String} {arguments : List TypeExpr} :
      IsName d name → arguments ≠ [] → (∀ e ∈ arguments, Readable d e) →
      Readable d (.generic (.reference name) arguments)
  | array {element : TypeExpr} : Readable d element → Readable d (.array element)
  | orNull {inner : TypeExpr} :
      Readable d inner → inner.isWrapper = false → Readable d (.orNull inner)
  | nullable {inner : TypeExpr} :
      Readable d inner → inner.isWrapper = false → Readable d (.nullable inner)
  | dictionary {key value : TypeExpr} :
      Readable d key → Readable d value → Readable d (.dictionary key value)
  | union {items : List TypeExpr} :
      2 ≤ items.length → (∀ e ∈ items, Readable d e) → (∀ e ∈ items, e.isWrapper = false) →
      Readable d (.union items)
  | literal (value : String) : Readable d (.literal value)

mutual

/-- The symbols of a type. -/
def symbols (d : Dialect) : TypeExpr → List Reading.Symbol
  | .reference name => [.word name]
  | .generic base arguments =>
    base.symbols d ++ [.mark '<'] ++ [.mark ','].intercalate (symbolsAll d arguments) ++ [.mark '>']
  | .array element =>
    if d.isCompound element then
      [.mark '('] ++ element.symbols d ++ [.mark ')', .mark '[', .mark ']']
    else element.symbols d ++ [.mark '[', .mark ']']
  | .orNull inner => [.word "null", .mark '|'] ++ inner.symbols d
  | .nullable inner =>
    match d with
    | .typeScript => [.word "Nullable", .mark '<'] ++ inner.symbols d ++ [.mark '>']
    | .flow => [.mark '?'] ++ inner.symbols d
  | .dictionary key value =>
    [.mark '\x7b', .mark '[', .word "key", .mark ':'] ++ key.symbols d ++ [.mark ']', .mark ':']
      ++ value.symbols d ++ [.mark '\x7d']
  | .union items => [.mark '('] ++ [.mark '|'].intercalate (symbolsAll d items) ++ [.mark ')']
  | .literal value => [.text value]

/-- The symbols of several types. -/
def symbolsAll (d : Dialect) : List TypeExpr → List (List Reading.Symbol)
  | [] => []
  | e :: es => e.symbols d :: symbolsAll d es

end

end TypeExpr

/-! ## Symbols of rendered types -/

namespace Reading

section Lexing

variable {d : Dialect} {c : Char} {rest : List Char}

/-- Whether a text starts with no character that continues a word. -/
def EndsWord (cs : List Char) : Prop := ∀ c ∈ cs.head?, isWordChar c = false

theorem endsWord_cons (h : isWordChar c = false) : EndsWord (c :: rest) := by
  rintro d ⟨⟩
  exact h

theorem lex_blank (h : Text.isBlank c = true) : lex (c :: rest) = lex rest := by
  rw [lex, if_pos h]

theorem lex_of_lexeme {behind : List Char} {t : Symbol} (hc : Text.isBlank c = false)
    (h : lexeme c rest = some (t, behind)) : lex (c :: rest) = (lex behind).map (t :: ·) := by
  rw [lex, if_neg (by simp [hc])]
  split
  · next hnone => rw [h] at hnone; cases hnone
  · next hsome =>
    rw [h] at hsome
    cases hsome
    rfl

/-- Whether a text consists of blanks and marks. -/
def isDelimiter (sep : String) : Bool :=
  sep.toList ≠ [] && sep.toList.all fun c => Text.isBlank c || isMark c

/-- The marks of a text that consists of blanks and marks. -/
def marks (sep : String) : List Symbol :=
  (sep.toList.filter (!Text.isBlank ·)).map .mark

theorem endsWord_delimiter {sep : String} (h : isDelimiter sep = true) (rest : List Char) :
    EndsWord (sep.toList ++ rest) := by
  obtain ⟨hne, hall⟩ :
      sep.toList ≠ [] ∧ ∀ c ∈ sep.toList, (Text.isBlank c || isMark c) = true := by
    simpa [isDelimiter] using h
  obtain ⟨c, cs, hcs⟩ := List.exists_cons_of_ne_nil hne
  rw [hcs]
  exact endsWord_cons (by simp [isWordChar, hall c (by simp [hcs])])

theorem lex_delimiter {sep : String} (h : isDelimiter sep = true) (rest : List Char) :
    lex (sep.toList ++ rest) = (lex rest).map (marks sep ++ ·) := by
  have hall : ∀ c ∈ sep.toList, (Text.isBlank c || isMark c) = true := by
    simpa [isDelimiter] using (Bool.and_eq_true_iff.1 h).2
  rw [marks]
  generalize sep.toList = cs at hall
  induction cs with
  | nil => simp
  | cons c cs ih =>
    obtain ⟨hc, hcs⟩ := List.forall_mem_cons.1 hall
    cases hblank : Text.isBlank c with
    | true => simp [lex_blank hblank, hblank, ih hcs]
    | false =>
      have hmark : isMark c = true := by simpa [hblank] using hc
      have hquote : c ≠ '\'' := by
        rintro rfl
        cases hmark
      have hlex : lexeme c (cs ++ rest) = some (.mark c, cs ++ rest) := by
        rw [lexeme, if_neg hquote, if_pos hmark]
      rw [List.cons_append, lex_of_lexeme hblank hlex, ih hcs]
      simp [hblank, Function.comp_def]

theorem lex_word {name : String} (hname : name.toList ≠ [])
    (hword : name.toList.all isWordChar = true) (hrest : EndsWord rest) :
    lex (name.toList ++ rest) = (lex rest).map (.word name :: ·) := by
  obtain ⟨c, cs, hcs⟩ := List.exists_cons_of_ne_nil hname
  rw [hcs, List.all_eq_true, List.forall_mem_cons] at hword
  obtain ⟨hc, hcs'⟩ := hword
  obtain ⟨hblank, hmark, hquote⟩ :
      Text.isBlank c = false ∧ isMark c = false ∧ c ≠ '\'' := by
    simpa [isWordChar, and_assoc] using hc
  have htake : rest.takeWhile isWordChar = [] := by
    cases rest with
    | nil => rfl
    | cons r rest => simp [hrest r rfl]
  have hdrop : rest.dropWhile isWordChar = rest := by
    cases rest with
    | nil => rfl
    | cons r rest => simp [hrest r rfl]
  rw [hcs, List.cons_append]
  refine lex_of_lexeme hblank ?_
  rw [lexeme, if_neg hquote, if_neg (by simp [hmark]), List.takeWhile_append_of_pos hcs',
    List.dropWhile_append_of_pos hcs', htake, hdrop, List.append_nil, ← hcs, String.ofList_toList]

theorem lex_text (value : String) :
    lex ((literalText value).toList ++ rest) = (lex rest).map (.text value :: ·) := by
  rw [literalText, String.toList_ofList, List.cons_append, List.cons_append, List.append_assoc]
  refine lex_of_lexeme rfl ?_
  have hread : Literal.readText (fun _ => true)
      (value.toList.flatMap literalChar ++ '\'' :: rest) = some (value.toList, rest) := by
    rw [Literal.readText_literalChar, if_pos (by simp [Literal.isEscapable])]
  rw [lexeme, if_pos rfl, List.singleton_append, hread]
  simp

/-- A text that is written with its symbols, whatever stands behind it. -/
def Writes (text : String) (ts : List Symbol) : Prop :=
  ∀ rest, EndsWord rest → lex (text.toList ++ rest) = (lex rest).map (ts ++ ·)

namespace Writes

variable {a b : String} {ts ts' : List Symbol}

theorem word {name : String} (hname : name.toList ≠ [])
    (hword : name.toList.all isWordChar = true) : Writes name [.word name] :=
  fun _ hrest => lex_word hname hword hrest

theorem append_marks (h : Writes a ts) (sep : String) (hsep : isDelimiter sep = true) :
    Writes (a ++ sep) (ts ++ marks sep) := by
  intro rest _
  rw [String.toList_append, List.append_assoc, h _ (endsWord_delimiter hsep rest),
    lex_delimiter hsep]
  simp [Function.comp_def]

theorem marks_append (sep : String) (hsep : isDelimiter sep = true) (h : Writes b ts) :
    Writes (sep ++ b) (marks sep ++ ts) := by
  intro rest hrest
  rw [String.toList_append, List.append_assoc, lex_delimiter hsep, h rest hrest]
  simp [Function.comp_def]

theorem append (h : Writes a ts) (sep : String) (hsep : isDelimiter sep = true)
    (h' : Writes b ts') :
    Writes (a ++ sep ++ b) (ts ++ marks sep ++ ts') := by
  rw [String.append_assoc, List.append_assoc]
  intro rest hrest
  rw [String.toList_append, String.toList_append, List.append_assoc, List.append_assoc,
    h _ (endsWord_delimiter hsep _), lex_delimiter hsep, h' rest hrest]
  simp [Function.comp_def]

theorem intercalate (sep : String) (hsep : isDelimiter sep = true) :
    ∀ {es : List TypeExpr}, (∀ e ∈ es, Writes (e.render d) (e.symbols d)) →
      Writes (sep.intercalate (TypeExpr.renderAll d es))
        ((marks sep).intercalate (TypeExpr.symbolsAll d es))
  | [], _ => by
    intro rest _
    simp [TypeExpr.renderAll, TypeExpr.symbolsAll]
  | [e], h => by
    simpa [TypeExpr.renderAll, TypeExpr.symbolsAll] using h e (List.mem_singleton_self e)
  | e :: e' :: es, h => by
    have hhead := h e List.mem_cons_self
    have htail := intercalate sep hsep (List.forall_mem_cons.1 h).2
    rw [TypeExpr.renderAll, TypeExpr.renderAll, String.intercalate_cons_cons,
      TypeExpr.symbolsAll, TypeExpr.symbolsAll, List.intercalate_cons_cons]
    exact hhead.append sep hsep htail

end Writes

/-- Rendering writes the symbols of an expression. -/
theorem lex_render {e : TypeExpr} (h : e.Readable d) : Writes (e.render d) (e.symbols d) := by
  induction h with
  | reference hname => exact .word hname.nonempty hname.word
  | @generic name arguments hname _ _ ih =>
    have base : Writes name [.word name] := .word hname.nonempty hname.word
    exact (base.append "<" rfl (.intercalate ", " rfl ih)).append_marks ">" rfl
  | @array element _ ih =>
    rw [TypeExpr.render, TypeExpr.symbols]
    split
    · exact (Writes.marks_append "(" rfl ih).append_marks ")[]" rfl
    · exact ih.append_marks "[]" rfl
  | orNull _ _ ih =>
    have null : Writes "null" [.word "null"] := .word (by decide) rfl
    exact null.append " | " rfl ih
  | nullable _ _ ih =>
    cases d with
    | typeScript =>
      have nullable : Writes "Nullable" [.word "Nullable"] := .word (by decide) rfl
      exact (nullable.append "<" rfl ih).append_marks ">" rfl
    | flow => exact .marks_append "?" rfl ih
  | dictionary _ _ ihkey ihvalue =>
    have name : Writes "key" [.word "key"] := .word (by decide) rfl
    have signature := (Writes.marks_append "\x7b [" rfl name).append ": " rfl ihkey
    exact (signature.append "]: " rfl ihvalue).append_marks " \x7d" rfl
  | union _ _ _ ih =>
    exact (Writes.marks_append "(" rfl (.intercalate " | " rfl ih)).append_marks ")" rfl
  | literal value => exact fun rest _ => lex_text value

end Lexing

/-! ## Expressions of symbols -/

section Parsing

variable {d : Dialect} {e : TypeExpr} {es : List TypeExpr} {c : Char} {cs : List Char}
  {rest : List Symbol} {fuel : Nat}

/-- Whether symbols start with none of these marks. -/
def StartsApart (cs : List Char) (ts : List Symbol) : Prop :=
  ∀ c ∈ cs, ts.head? ≠ some (.mark c)

theorem StartsApart.mono {cs' : List Char} (h : StartsApart cs rest) (hsub : cs' ⊆ cs) :
    StartsApart cs' rest :=
  fun c hc => h c (hsub hc)

theorem startsApart_mark (h : c ∉ cs) : StartsApart cs (.mark c :: rest) := by
  rintro c' hc' heq
  cases heq
  exact h hc'

theorem startsApart_word {name : String} : StartsApart cs (.word name :: rest) := nofun

@[simp] theorem expect_mark : expect c (.mark c :: rest) = some rest := if_pos rfl

theorem expect_of_startsApart (h : StartsApart [c] rest) : expect c rest = none := by
  cases rest with
  | nil => rfl
  | cons t rest =>
    cases t with
    | mark c' =>
      have hne : c' ≠ c := by
        rintro rfl
        exact h c' (List.mem_singleton_self _) rfl
      exact if_neg hne
    | _ => rfl

theorem readSuffixes_of_startsApart (h : StartsApart ['['] rest) :
    readSuffixes e rest = (e, rest) := by
  unfold readSuffixes
  split
  · exact absurd rfl (h '[' (List.mem_singleton_self _))
  · rfl

theorem symbols_pos (d : Dialect) (e : TypeExpr) : 0 < (e.symbols d).length := by
  cases e with
  | array element =>
    rw [TypeExpr.symbols]
    split <;> simp
  | nullable inner => cases d <;> simp [TypeExpr.symbols]
  | generic base arguments =>
    simp only [TypeExpr.symbols, List.length_append, List.length_cons]
    omega
  | _ => simp [TypeExpr.symbols]

theorem symbolsAll_eq_map (d : Dialect) (es : List TypeExpr) :
    TypeExpr.symbolsAll d es = es.map (·.symbols d) := by
  induction es with
  | nil => rfl
  | cons e es ih => rw [TypeExpr.symbolsAll, ih, List.map_cons]

/-- Expressions with a mark between any two are read one after another, with fuel for all
of their symbols. -/
theorem readSeparated_symbolsAll {item : Reader} (hc : c ∉ cs) (hrest : StartsApart (c :: cs) rest)
    (hitem : ∀ e ∈ es, (e.symbols d).length ≤ fuel → ∀ rest, StartsApart cs rest →
      item (e.symbols d ++ rest) = some (e, rest))
    (hne : es ≠ [])
    (hlength : ([.mark c].intercalate (TypeExpr.symbolsAll d es)).length ≤ fuel) :
    readSeparated item (expect c) fuel
      ([.mark c].intercalate (TypeExpr.symbolsAll d es) ++ rest) = some (es, rest) := by
  rw [symbolsAll_eq_map] at hlength ⊢
  have hsep (rest : List Symbol) : StartsApart cs ([.mark c] ++ rest) ∧
      expect c ([.mark c] ++ rest) = some rest :=
    ⟨startsApart_mark hc, expect_mark⟩
  have hread (e : TypeExpr) (he : e ∈ es) (rest : List Symbol) (hrest : StartsApart cs rest) :
      item (e.symbols d ++ rest) = if (fun _ => true) e then some (e, rest) else none := by
    have hmem : e.symbols d ∈ es.map (·.symbols d) := List.mem_map_of_mem he
    have hle := length_le_intercalate_of_mem [Symbol.mark c] hmem
    exact hitem e he (Nat.le_trans hle hlength) rest hrest
  have hnonempty : ∀ ts ∈ es.map (·.symbols d), ts ≠ [] := by
    intro ts hts
    obtain ⟨e, -, rfl⟩ := List.mem_map.1 hts
    exact List.length_pos_iff.1 (symbols_pos d e)
  have hcount := length_le_intercalate [Symbol.mark c] hnonempty
  rw [List.length_map] at hcount
  rw [readSeparated_intercalate (StartsApart cs) hsep (hrest.mono (by simp))
    (expect_of_startsApart (hrest.mono (by simp))) hread hne (Nat.le_trans hcount hlength)]
  simp

theorem readType_of_readSeparated {ts : List Symbol}
    (h : readSeparated (readItem d (readType d fuel) fuel) (expect '|') (fuel + 1) ts =
      some (es, rest)) :
    readType d (fuel + 1) ts = some (alternatives es, rest) := by
  rw [readType, h]
  rfl

/-- An expression that suffixes may follow is read up to them. -/
def ReadsSuffixed (d : Dialect) (e : TypeExpr) : Prop :=
  ∀ {fuel : Nat} {rest : List Symbol}, (e.symbols d).length ≤ fuel + 1 →
    StartsApart ['<'] rest →
      readItem d (readType d fuel) fuel (e.symbols d ++ rest) = some (readSuffixes e rest)

/-- An alternative is read as itself. -/
def ReadsItem (d : Dialect) (e : TypeExpr) : Prop :=
  ∀ {fuel : Nat} {rest : List Symbol}, (e.symbols d).length ≤ fuel + 1 →
    StartsApart ['<', '['] rest →
      readItem d (readType d fuel) fuel (e.symbols d ++ rest) = some (e, rest)

/-- A whole type is read as itself. -/
def ReadsType (d : Dialect) (e : TypeExpr) : Prop :=
  ∀ {fuel : Nat} {rest : List Symbol}, (e.symbols d).length ≤ fuel →
    StartsApart ['<', '[', '|'] rest → readType d fuel (e.symbols d ++ rest) = some (e, rest)

/-- What is read of an expression, depending on the place. -/
structure Reads (d : Dialect) (e : TypeExpr) : Prop where
  suffixed : d.isCompound e = false → ReadsSuffixed d e
  item : (∀ inner, e ≠ .orNull inner) → ReadsItem d e
  type : ReadsType d e

theorem ReadsItem.readsType (h : ReadsItem d e) : ReadsType d e := by
  intro fuel rest hlength hrest
  cases fuel with
  | zero => exact absurd hlength (Nat.not_le_of_gt (symbols_pos d e))
  | succ fuel =>
    have hitem := h hlength (hrest.mono (by simp))
    exact readType_of_readSeparated
      (readSeparated_last hitem (expect_of_startsApart (hrest.mono (by simp))))

theorem ReadsItem.reads (h : ReadsItem d e) (hcompound : d.isCompound e = true) : Reads d e where
  suffixed hno := by
    rw [hcompound] at hno
    cases hno
  item _ := h
  type := h.readsType

theorem ReadsSuffixed.reads (h : ReadsSuffixed d e) : Reads d e := by
  have item : ReadsItem d e := by
    intro fuel rest hlength hrest
    rw [h hlength (hrest.mono (by simp)), readSuffixes_of_startsApart (hrest.mono (by simp))]
  exact ⟨fun _ => h, fun _ => item, item.readsType⟩

theorem ne_orNull_of_isWrapper (h : e.isWrapper = false) : ∀ inner, e ≠ .orNull inner := by
  rintro inner rfl
  cases h

/-- What starts with no question mark is read with the suffixes behind it. -/
theorem readItem_of_readPrimary {type : Reader} {ts : List Symbol}
    (h : readPrimary d type fuel ts = some (e, rest)) (hts : StartsApart ['?'] ts) :
    readItem d type fuel ts = some (readSuffixes e rest) := by
  unfold readItem
  split
  · exact absurd rfl (hts '?' (List.mem_singleton_self _))
  · rw [h]
    rfl

theorem readPrimary_word {type : Reader} {name : String} (hrest : StartsApart ['<'] rest) :
    readPrimary d type fuel (.word name :: rest) = some (.reference name, rest) := by
  unfold readPrimary
  grind [StartsApart]

/-- The arguments of a name are read up to the mark behind them. -/
theorem readSeparated_arguments (fuel : Nat) (hne : es ≠ []) (ih : ∀ e ∈ es, Reads d e)
    (hlength : ([.mark ','].intercalate (TypeExpr.symbolsAll d es)).length ≤ fuel)
    (rest : List Symbol) :
    readSeparated (readType d fuel) (expect ',') fuel
      ([.mark ','].intercalate (TypeExpr.symbolsAll d es) ++ .mark '>' :: rest) =
        some (es, .mark '>' :: rest) :=
  readSeparated_symbolsAll (by simp) (startsApart_mark (by simp))
    (fun e he hle _ hrest => (ih e he).type hle hrest) hne hlength

/-- The alternatives of a union are read up to the mark behind them. -/
theorem readSeparated_alternatives (fuel : Nat) (hne : es ≠ []) (ih : ∀ e ∈ es, Reads d e)
    (hwrapper : ∀ e ∈ es, e.isWrapper = false)
    (hlength : ([.mark '|'].intercalate (TypeExpr.symbolsAll d es)).length ≤ fuel + 1)
    (rest : List Symbol) :
    readSeparated (readItem d (readType d fuel) fuel) (expect '|') (fuel + 1)
      ([.mark '|'].intercalate (TypeExpr.symbolsAll d es) ++ .mark ')' :: rest) =
        some (es, .mark ')' :: rest) :=
  readSeparated_symbolsAll (by simp) (startsApart_mark (by simp))
    (fun e he hle _ hrest => (ih e he).item (ne_orNull_of_isWrapper (hwrapper e he)) hle hrest)
    hne hlength

theorem alternatives_of_readable {items : List TypeExpr} (htwo : 2 ≤ items.length)
    (h : ∀ e ∈ items, e.Readable d) : alternatives items = .union items := by
  match items, htwo with
  | e :: e' :: es, _ =>
    unfold alternatives
    split
    · next heq => cases heq
    · next heq =>
      cases heq
      cases h _ List.mem_cons_self with
      | reference hname => exact absurd rfl hname.ne_null
    · rfl

namespace Reads

variable {key value element inner : TypeExpr}

theorem reference (name : String) : Reads d (.reference name) := by
  refine ReadsSuffixed.reads fun _ hrest => ?_
  exact readItem_of_readPrimary (readPrimary_word hrest) startsApart_word

theorem literal (value : String) : Reads d (.literal value) :=
  ReadsSuffixed.reads fun _ _ => readItem_of_readPrimary rfl nofun

theorem generic {name : String} (hname : TypeExpr.IsName d name) (hne : es ≠ [])
    (ih : ∀ e ∈ es, Reads d e) : Reads d (.generic (.reference name) es) := by
  refine ReadsSuffixed.reads fun {fuel rest} hlength _ => ?_
  simp only [TypeExpr.symbols, List.length_append, List.length_cons, List.length_nil] at hlength
  have hargs := readSeparated_arguments fuel hne ih (by omega) rest
  have happlied : applied d name es = .generic (.reference name) es := by
    have := hname.ne_nullable
    unfold applied
    grind
  refine readItem_of_readPrimary ?_ startsApart_word
  simp [TypeExpr.symbols, readPrimary, hargs, happlied]

/-- What needs parentheses is read as a whole type between them. -/
theorem array (ih : Reads d element) : Reads d (.array element) := by
  refine ReadsSuffixed.reads fun {fuel rest} hlength _ => ?_
  rw [TypeExpr.symbols] at hlength ⊢
  split at hlength
  · next hcompound =>
    rw [if_pos hcompound]
    simp only [List.length_append, List.length_cons, List.length_nil] at hlength
    have hinner (rest : List Symbol) : readType d fuel (element.symbols d ++ .mark ')' :: rest) =
        some (element, .mark ')' :: rest) :=
      ih.type (by omega) (startsApart_mark (by simp))
    have hprimary : readPrimary d (readType d fuel) fuel
        ([.mark '('] ++ element.symbols d ++ [.mark ')', .mark '[', .mark ']'] ++ rest) =
          some (element, .mark '[' :: .mark ']' :: rest) := by
      simp [readPrimary, hinner]
    have hitem := readItem_of_readPrimary hprimary (startsApart_mark (by simp))
    exact hitem
  · next hcompound =>
    rw [if_neg hcompound]
    simp only [List.length_append, List.length_cons, List.length_nil] at hlength
    rw [List.append_assoc]
    exact ih.suffixed (by simpa using hcompound) (by omega) (startsApart_mark (by simp))

/-- The alternative `null` is read first, and then the other one. -/
theorem orNull (hinner : inner.isWrapper = false) (ih : Reads d inner) :
    Reads d (.orNull inner) := by
  refine ⟨nofun, fun h => absurd rfl (h inner), fun {fuel rest} hlength hrest => ?_⟩
  simp only [TypeExpr.symbols, List.length_append, List.length_cons, List.length_nil] at hlength
  obtain ⟨fuel, rfl⟩ : ∃ n, fuel = n + 2 := ⟨fuel - 2, by omega⟩
  have hnull : readItem d (readType d (fuel + 1)) (fuel + 1)
      (.word "null" :: .mark '|' :: (inner.symbols d ++ rest)) =
        some (.reference "null", .mark '|' :: (inner.symbols d ++ rest)) :=
    readItem_of_readPrimary (readPrimary_word (startsApart_mark (by simp))) startsApart_word
  have hread : readItem d (readType d (fuel + 1)) (fuel + 1) (inner.symbols d ++ rest) =
      some (inner, rest) :=
    ih.item (ne_orNull_of_isWrapper hinner) (by omega) (hrest.mono (by simp))
  have hend : expect '|' rest = none := expect_of_startsApart (hrest.mono (by simp))
  have hboth : readSeparated (readItem d (readType d (fuel + 1)) (fuel + 1)) (expect '|')
      (fuel + 2) (.word "null" :: .mark '|' :: (inner.symbols d ++ rest)) =
        some ([.reference "null", inner], rest) := by
    rw [readSeparated_cons hnull expect_mark, readSeparated_last hread hend]
    rfl
  exact readType_of_readSeparated hboth

/-- In TypeScript suffixes may follow the global nullable type.  In Flow it is read as an
alternative, because the suffixes behind it would be those of what it wraps. -/
theorem nullable (hinner : inner.isWrapper = false) (ih : Reads d inner) :
    Reads d (.nullable inner) := by
  cases d with
  | typeScript =>
    refine ReadsSuffixed.reads fun {fuel rest} hlength _ => ?_
    simp only [TypeExpr.symbols, List.length_append, List.length_cons, List.length_nil] at hlength
    have harg := readSeparated_arguments fuel (List.cons_ne_nil inner []) (by simpa using ih)
      (by simp [TypeExpr.symbolsAll]; omega) rest
    rw [TypeExpr.symbolsAll, TypeExpr.symbolsAll, List.intercalate_singleton] at harg
    refine readItem_of_readPrimary ?_ startsApart_word
    simp [TypeExpr.symbols, readPrimary, harg, applied]
  | flow =>
    refine ReadsItem.reads (fun {fuel rest} hlength hrest => ?_) rfl
    simp only [TypeExpr.symbols, List.length_append, List.length_cons, List.length_nil] at hlength
    have hread : readItem .flow (readType .flow fuel) fuel (inner.symbols .flow ++ rest) =
        some (inner, rest) :=
      ih.item (ne_orNull_of_isWrapper hinner) (by omega) hrest
    simp [TypeExpr.symbols, readItem, hread]

theorem dictionary (ihkey : Reads d key) (ihvalue : Reads d value) :
    Reads d (.dictionary key value) := by
  refine ReadsSuffixed.reads fun {fuel rest} hlength _ => ?_
  simp only [TypeExpr.symbols, List.length_append, List.length_cons, List.length_nil] at hlength
  have hkey (rest : List Symbol) : readType d fuel (key.symbols d ++ .mark ']' :: rest) =
      some (key, .mark ']' :: rest) :=
    ihkey.type (by omega) (startsApart_mark (by simp))
  have hvalue : readType d fuel (value.symbols d ++ .mark '\x7d' :: rest) =
      some (value, .mark '\x7d' :: rest) :=
    ihvalue.type (by omega) (startsApart_mark (by simp))
  refine readItem_of_readPrimary ?_ (startsApart_mark (by simp))
  simp [TypeExpr.symbols, readPrimary, hkey, hvalue]

/-- What stands between the parentheses is read as a whole type, which is the union. -/
theorem union (hes : 2 ≤ es.length) (hread : ∀ e ∈ es, e.Readable d)
    (hwrapper : ∀ e ∈ es, e.isWrapper = false) (ih : ∀ e ∈ es, Reads d e) :
    Reads d (.union es) := by
  refine ReadsSuffixed.reads fun {fuel rest} hlength _ => ?_
  simp only [TypeExpr.symbols, List.length_append, List.length_cons, List.length_nil] at hlength
  obtain ⟨fuel, rfl⟩ : ∃ n, fuel = n + 1 := ⟨fuel - 1, by omega⟩
  have hne : es ≠ [] := List.ne_nil_of_length_pos (by omega)
  have hinner := readSeparated_alternatives fuel hne ih hwrapper (by omega) rest
  have htype := readType_of_readSeparated hinner
  rw [alternatives_of_readable hes hread] at htype
  refine readItem_of_readPrimary ?_ (startsApart_mark (by simp))
  simp [TypeExpr.symbols, readPrimary, htype]

end Reads

/-- Expressions with a notation of their own are read as themselves. -/
theorem reads (h : e.Readable d) : Reads d e := by
  induction h with
  | reference => exact .reference _
  | generic hname hne _ ih => exact .generic hname hne ih
  | array _ ih => exact .array ih
  | orNull _ hinner ih => exact .orNull hinner ih
  | nullable _ hinner ih => exact .nullable hinner ih
  | dictionary _ _ ihkey ihvalue => exact .dictionary ihkey ihvalue
  | union htwo hread hitems ih => exact .union htwo hread hitems ih
  | literal value => exact .literal value

/-- Expressions with a notation of their own are read as themselves from their text, so no
two of them have the same text. -/
theorem read_render (d : Dialect) :
    (∀ e : TypeExpr, e.Readable d → read d (e.render d) = some e) ∧
      {e : TypeExpr | e.Readable d}.InjOn (·.render d) := by
  have hread (e : TypeExpr) (h : e.Readable d) : read d (e.render d) = some e := by
    have hlex := lex_render h [] nofun
    have htype : readType d (e.symbols d).length (e.symbols d ++ []) = some (e, []) :=
      (reads h).type (Nat.le_refl _) (by simp [StartsApart])
    have hnil : lex [] = some [] := by rw [lex]
    simp only [List.append_nil, hnil] at hlex htype
    simp [read, hlex, htype]
  refine ⟨hread, fun e h e' h' heq => ?_⟩
  have hsame : some e = some e' := by
    rw [← hread e h, ← hread e' h']
    exact congrArg (read d) heq
  exact Option.some.inj hsame

example : read .flow "?number[]" = some (.nullable (.array (.reference "number"))) ∧
    read .flow "(?number)[]" = some (.array (.nullable (.reference "number"))) := by
  constructor <;> cbv

/-- A type in which every wrapper stands where it needs parentheses or delimiters. -/
def nested : TypeExpr :=
  .array (.orNull (.generic (.reference "Box")
    [.nullable (.union [.literal "it's", .dictionary (.reference "string")
      (.array (.nullable (.reference "number")))])]))

theorem read_render_nested : nested.Readable .flow ∧
    read .flow "(null | Box<?('it\\'s' | \x7b [key: string]: (?number)[] \x7d)>)[]" =
      some nested := by
  have box : TypeExpr.IsName .flow "Box" := ⟨by decide, rfl, by decide, nofun⟩
  have string : TypeExpr.IsName .flow "string" := ⟨by decide, rfl, by decide, nofun⟩
  have number : TypeExpr.IsName .flow "number" := ⟨by decide, rfl, by decide, nofun⟩
  have dictionary : TypeExpr.Readable .flow (.dictionary (.reference "string")
      (.array (.nullable (.reference "number")))) :=
    .dictionary (.reference string) (.array (.nullable (.reference number) rfl))
  have readable : nested.Readable .flow :=
    .array (.orNull (.generic box (by simp) (by
      simpa using .nullable (.union (by simp) (by simpa using ⟨.literal _, dictionary⟩)
        (by simp [TypeExpr.isWrapper])) rfl)) rfl)
  exact ⟨readable, (read_render .flow).1 nested readable⟩

end Parsing

end Reading
end TypeExport
