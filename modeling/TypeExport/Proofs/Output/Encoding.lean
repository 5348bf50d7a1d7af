import Mathlib.Data.List.Basic
import TypeExport.Proofs.Output.Literal
import TypeExport.Proofs.Output.Separated

/-!
# Enumerations in text

What a script makes of the text of an enumeration.  A native enumeration has a literal
for each member.  The other form has three literals for each value: one in a union, and
the key and the value of an entry of the lookup constant.  The readers go through the
text of a declaration, and read the literals as a script does, where no line break may
stand (`Declaration.Encodes`).

The union and the entries are written with escapes, and they are read as the values
unless one of them has a line break (`Declaration.encodes_fixedStrings_iff`).  The
members of a native enumeration are written as they are, so their literals are read as
the values exactly when no value has a line break, a quote or a backslash
(`Declaration.encodes_enumeration_iff`).
-/

namespace TypeExport

/-- The text of a declaration. -/
def Declaration.text (d : Dialect) (D : Declaration) : String :=
  String.join ((D.lines d).map (· ++ "\n"))

namespace Encoding

/-- Whether a character may stand between quotes as it is, other than a quote and a
backslash. -/
def isRaw (c : Char) : Bool := c ≠ '\n' && c ≠ '\r'

end Encoding

/-- Whether a text has no line breaks. -/
def isOneLine (v : String) : Bool := v.toList.all Encoding.isRaw

/-- Whether a text has no line breaks, quotes and backslashes. -/
def isVerbatim (v : String) : Bool :=
  v.toList.all fun c => Encoding.isRaw c && c ≠ '\'' && c ≠ '\\'

namespace Encoding

/-! ## Readers -/

/-- The text behind a known text. -/
def skip (known : String) (cs : List Char) : Option (List Char) := known.toList.isPrefixOf? cs

/-- A literal, with its quotes. -/
def readLiteral (cs : List Char) : Option (String × List Char) := do
  let (value, rest) ← Literal.readText isRaw (← skip "'" cs)
  return (String.ofList value, rest)

/-- The initializers of members of these names. -/
def readInitializers : List String → List Char → Option (List String × List Char)
  | [], cs => some ([], cs)
  | name :: names, cs => do
    let (value, rest) ← readLiteral (← skip ("    " ++ name ++ " = ") cs)
    let (values, rest) ← readInitializers names (← skip ",\n" rest)
    return (value :: values, rest)

/-- The initializers of a native enumeration with members of these names. -/
def readEnumeration (name : String) (names : List String) (cs : List Char) :
    Option (List String) := do
  let (values, rest) ← readInitializers names (← skip ("export enum " ++ name ++ " \x7b\n") cs)
  if rest = "\x7d\n".toList then some values else none

/-- A union of literals, which has another name when it is empty. -/
def readUnion (cs : List Char) : Option (List String × List Char) :=
  match skip "never" cs with
  | some rest => some ([], rest)
  | none => readSeparated readLiteral (skip " | ") cs.length cs

/-- What stands behind a literal that is given a type. -/
def ascription (d : Dialect) (type : String) : String :=
  match d with
  | .typeScript => ") as " ++ type
  | .flow => ": " ++ type ++ ")"

/-- An entry of a lookup constant: its key and its value. -/
def readEntry (d : Dialect) (type : String) (cs : List Char) :
    Option ((String × String) × List Char) := do
  let (key, rest) ← readLiteral (← skip "    [" cs)
  let (value, rest) ← readLiteral (← skip "]: (" rest)
  return ((key, value), ← skip (ascription d type ++ ",\n") rest)

/-- At most so many entries, up to the end of the declaration. -/
def readEntries (d : Dialect) (type : String) : Nat → List Char → Option (List (String × String))
  | 0, cs => if cs = "\x7d;\n".toList then some [] else none
  | fuel + 1, cs =>
    if cs = "\x7d;\n".toList then some []
    else do
      let (entry, rest) ← readEntry d type cs
      return entry :: (← readEntries d type fuel rest)

/-- The alternatives, the keys and the values of an enumeration that is a union with a
lookup constant. -/
def readFixedStrings (d : Dialect) (name lookup : String) (cs : List Char) :
    Option (List String × List String × List String) := do
  let (alternatives, rest) ← readUnion (← skip ("export type " ++ name ++ " = ") cs)
  let rest ← skip (";\nexport const " ++ lookup ++ " = \x7b\n") rest
  let entries ← readEntries d name rest.length rest
  return (alternatives, entries.map (·.1), entries.map (·.2))

end Encoding

/-- Whether a script reads these values, in order, wherever an enumeration has its
values between quotes. -/
def Declaration.Encodes (d : Dialect) (D : Declaration) (values : List String) : Prop :=
  match D with
  | .enumeration name names =>
    Encoding.readEnumeration name names (D.text d).toList = some values
  | .fixedStrings name _ lookup =>
    Encoding.readFixedStrings d name lookup (D.text d).toList = some (values, values, values)
  | .object .. => False

namespace Encoding

variable {v name lookup : String} {values names : List String} {rest cs behind : List Char}
  {d : Dialect}

theorem skip_eq_some_iff {known : String} : skip known cs = some rest ↔ known.toList ++ rest = cs :=
  List.isPrefixOf?_eq_some_iff_append_eq

@[simp] theorem skip_append (known : String) (rest : List Char) :
    skip known (known.toList ++ rest) = some rest :=
  skip_eq_some_iff.2 rfl

/-! ## Literals with escapes -/

theorem isEscapable_isRaw (c : Char) : Literal.isEscapable isRaw c = isRaw c := by
  by_cases hc : c = '\\' ∨ c = '\''
  · obtain rfl | rfl := hc <;> rfl
  · obtain ⟨hbackslash, hquote⟩ := not_or.1 hc
    simp [Literal.isEscapable, hbackslash, hquote]

theorem readLiteral_literalText (v : String) (rest : List Char) :
    readLiteral ((literalText v).toList ++ rest) =
      if isOneLine v then some (v, rest) else none := by
  have htext : (literalText v).toList ++ rest =
      "'".toList ++ (v.toList.flatMap literalChar ++ '\'' :: rest) := by
    simp [literalText]
  have hall : v.toList.all (Literal.isEscapable isRaw) = isOneLine v :=
    List.all_congr rfl isEscapable_isRaw
  rw [readLiteral, htext, skip_append, Option.bind_eq_bind, Option.bind_some,
    Literal.readText_literalChar, hall]
  cases isOneLine v with
  | false => rfl
  | true => simp

theorem exists_literalUnion_cons (v : String) (values : List String) :
    ∃ cs, (literalUnion (v :: values)).toList = '\'' :: cs := by
  cases values <;> simp [literalUnion, literalText]

theorem readUnion_literalUnion (hrest : skip " | " rest = none) (values : List String) :
    readUnion ((literalUnion values).toList ++ rest) =
      if values.all isOneLine then some (values, rest) else none := by
  cases values with
  | nil =>
    rw [literalUnion, readUnion, skip_append]
    rfl
  | cons v values =>
    have hnever : skip "never" ((literalUnion (v :: values)).toList ++ rest) = none := by
      obtain ⟨cs, hcs⟩ := exists_literalUnion_cons v values
      refine Option.eq_none_iff_forall_ne_some.2 fun behind hskip => ?_
      rw [skip_eq_some_iff, hcs] at hskip
      cases hskip
    have htext : (literalUnion (v :: values)).toList =
        " | ".toList.intercalate ((v :: values).map fun v => (literalText v).toList) := by
      have hunion : literalUnion (v :: values) =
        " | ".intercalate ((v :: values).map literalText) := rfl
      rw [hunion, String.toList_intercalate, List.map_map]
      rfl
    have hnonempty : ∀ l ∈ (v :: values).map fun v => (literalText v).toList, l ≠ [] := by
      simp [literalText]
    have hlength := length_le_intercalate " | ".toList hnonempty
    rw [List.length_map] at hlength
    rw [readUnion, hnever, htext]
    refine readSeparated_intercalate (fun _ => True) (fun rest => ⟨trivial, skip_append " | " rest⟩)
      trivial hrest (fun v _ rest _ => readLiteral_literalText v rest)
      (List.cons_ne_nil v values) ?_
    rw [List.length_append]
    exact Nat.le_trans hlength (Nat.le_add_right _ _)

/-- The line of an entry of a lookup constant. -/
def entryLine (d : Dialect) (type v : String) : String :=
  "    [" ++ literalText v ++ "]: " ++ d.typedLiteral (literalText v) type ++ ",\n"

theorem readEntry_entryLine (d : Dialect) (type v : String) (rest : List Char) :
    readEntry d type ((entryLine d type v).toList ++ rest) =
      if isOneLine v then some ((v, v), rest) else none := by
  have htext : (entryLine d type v).toList ++ rest =
      "    [".toList ++ ((literalText v).toList ++ ("]: (".toList ++ ((literalText v).toList ++
        ((ascription d type ++ ",\n").toList ++ rest)))) := by
    cases d <;> simp [entryLine, Dialect.typedLiteral, ascription]
  simp only [htext, readEntry, skip_append, Option.bind_eq_bind, Option.bind_some,
    readLiteral_literalText]
  cases hline : isOneLine v with
  | false => rfl
  | true =>
    simp only [if_true, Option.bind_some, skip_append, readLiteral_literalText, hline]
    rfl

/-- The lines of the entries of a lookup constant, up to the end of the declaration. -/
def entryLines (d : Dialect) (type : String) (values : List String) : List Char :=
  values.flatMap (fun v => (entryLine d type v).toList) ++ "\x7d;\n".toList

theorem length_le_entryLines (d : Dialect) (type : String) (values : List String) :
    values.length ≤ (entryLines d type values).length := by
  induction values with
  | nil => exact Nat.zero_le _
  | cons v values ih =>
    have hline : 0 < (entryLine d type v).toList.length := by simp [entryLine]
    rw [entryLines, List.flatMap_cons, List.append_assoc, List.length_append, List.length_cons]
    rw [entryLines] at ih
    omega

theorem readEntries_entryLines (d : Dialect) (type : String) :
    ∀ {values : List String} {fuel : Nat}, values.length ≤ fuel →
      readEntries d type fuel (entryLines d type values) =
        if values.all isOneLine then some (values.map fun v => (v, v)) else none
  | [], fuel, _ => by cases fuel <;> simp [entryLines, readEntries]
  | _ :: _, 0, hfuel => absurd hfuel (by simp)
  | v :: values, fuel + 1, hfuel => by
    have hmore := readEntries_entryLines d type (Nat.le_of_succ_le_succ hfuel)
    have htext : entryLines d type (v :: values) =
        (entryLine d type v).toList ++ entryLines d type values := by
      simp [entryLines]
    have hopen : entryLines d type (v :: values) ≠ "\x7d;\n".toList := by
      simp [htext, entryLine]
    rw [readEntries, if_neg hopen, htext, readEntry_entryLine, List.all_cons]
    cases isOneLine v with
    | false => rfl
    | true =>
      simp only [if_true, Option.bind_eq_bind, Option.bind_some, hmore, Bool.true_and]
      cases values.all isOneLine <;> rfl

theorem readFixedStrings_text (d : Dialect) (name lookup : String) (values : List String) :
    readFixedStrings d name lookup ((Declaration.fixedStrings name values lookup).text d).toList =
      if values.all isOneLine then some (values, values, values) else none := by
  have htext : ((Declaration.fixedStrings name values lookup).text d).toList =
      ("export type " ++ name ++ " = ").toList ++ ((literalUnion values).toList ++
        ((";\nexport const " ++ lookup ++ " = \x7b\n").toList ++ entryLines d name values)) := by
    simp [Declaration.text, Declaration.lines, String.toList_join, entryLine, entryLines,
      List.flatMap_map]
  have hend : skip " | " ((";\nexport const " ++ lookup ++ " = \x7b\n").toList ++
      entryLines d name values) = none := by
    refine Option.eq_none_iff_forall_ne_some.2 fun behind hskip => ?_
    rw [skip_eq_some_iff] at hskip
    simp at hskip
  have hentries := readEntries_entryLines d name (length_le_entryLines d name values)
  simp only [htext, readFixedStrings, skip_append, Option.bind_eq_bind, Option.bind_some,
    readUnion_literalUnion hend]
  cases hvalues : values.all isOneLine with
  | false => rfl
  | true =>
    rw [if_pos hvalues] at hentries
    simp only [if_true, Option.bind_some, skip_append, hentries]
    simp [Function.comp_def]

/-! ## Literals without escapes -/

theorem forall_isPlain : (∀ c ∈ v.toList, Literal.IsPlain isRaw c) ↔ isVerbatim v = true := by
  rw [isVerbatim, List.all_eq_true]
  refine forall₂_congr fun c _ => ?_
  simp only [Literal.IsPlain, Bool.and_eq_true, decide_eq_true_eq]
  tauto

theorem readLiteral_verbatim_iff :
    readLiteral ("'".toList ++ (v.toList ++ '\'' :: ',' :: '\n' :: rest)) = some (v, behind) ↔
      behind = ',' :: '\n' :: rest ∧ isVerbatim v = true := by
  rw [← forall_isPlain, ← Literal.readText_break_iff rfl rfl, readLiteral, skip_append,
    Option.bind_eq_bind, Option.bind_some]
  constructor
  · intro h
    obtain ⟨⟨value, behind'⟩, hread, h⟩ := Option.bind_eq_some_iff.1 h
    cases h
    rw [String.toList_ofList] at hread ⊢
    exact hread
  · intro h
    simp [h]

/-- The line of a member of a native enumeration. -/
def memberLine (v : String) : String := "    " ++ v ++ " = '" ++ v ++ "',\n"

/-- The lines of members are read up to the text behind them when they are read as the
members. -/
theorem readInitializers_memberLines : ∀ {names : List String},
    readInitializers names (names.flatMap (fun v => (memberLine v).toList) ++ rest) =
      some (names, behind) ↔ behind = rest ∧ ∀ v ∈ names, isVerbatim v = true
  | [] => by simpa [readInitializers] using eq_comm
  | v :: names => by
    have ih : readInitializers names (names.flatMap (fun v => (memberLine v).toList) ++ rest) =
        some (names, behind) ↔ behind = rest ∧ ∀ v ∈ names, isVerbatim v = true :=
      readInitializers_memberLines
    generalize hmore : names.flatMap (fun v => (memberLine v).toList) ++ rest = more at ih
    have htext : (memberLine v).toList ++ more = ("    " ++ v ++ " = ").toList ++
        ("'".toList ++ (v.toList ++ '\'' :: ',' :: '\n' :: more)) := by
      simp [memberLine]
    rw [List.flatMap_cons, List.append_assoc, hmore, htext, readInitializers, skip_append,
      Option.bind_eq_bind, Option.bind_some, List.forall_mem_cons]
    constructor
    · intro h
      obtain ⟨⟨value, behind₁⟩, hvalue, h⟩ := Option.bind_eq_some_iff.1 h
      obtain ⟨behind₂, hskip, h⟩ := Option.bind_eq_some_iff.1 h
      obtain ⟨⟨values, behind₃⟩, hvalues, h⟩ := Option.bind_eq_some_iff.1 h
      cases h
      obtain ⟨rfl, hv⟩ := readLiteral_verbatim_iff.1 hvalue
      cases skip_eq_some_iff.1 hskip
      obtain ⟨rfl, hnames⟩ := ih.1 hvalues
      exact ⟨rfl, hv, hnames⟩
    · rintro ⟨rfl, hv, hnames⟩
      have hskip : skip ",\n" (',' :: '\n' :: more) = some more := skip_append ",\n" more
      simp only [Option.bind_eq_bind, Option.bind_some, readLiteral_verbatim_iff.2 ⟨rfl, hv⟩, hskip,
        ih.2 ⟨rfl, hnames⟩]
      rfl

end Encoding

namespace Declaration

variable {d : Dialect} {name lookup : String} {values : List String}

/-- The literals of a union with a lookup constant are read as the values exactly when no
value has a line break. -/
theorem encodes_fixedStrings_iff :
    (fixedStrings name values lookup).Encodes d values ↔ ∀ v ∈ values, isOneLine v = true := by
  rw [Encodes, Encoding.readFixedStrings_text, ← List.all_eq_true]
  cases values.all isOneLine <;> simp

/-- The literals of a native enumeration are read as the values exactly when no value has a
line break, a quote or a backslash. -/
theorem encodes_enumeration_iff :
    (enumeration name values).Encodes d values ↔ ∀ v ∈ values, isVerbatim v = true := by
  have htext : ((enumeration name values).text d).toList =
      ("export enum " ++ name ++ " \x7b\n").toList ++
        (values.flatMap (fun v => (Encoding.memberLine v).toList) ++ "\x7d\n".toList) := by
    simp [text, lines, String.toList_join, Encoding.memberLine, List.flatMap_map]
  rw [Encodes, Encoding.readEnumeration, htext, Encoding.skip_append, Option.bind_eq_bind,
    Option.bind_some]
  constructor
  · intro h
    obtain ⟨⟨values', behind⟩, hvalues, h⟩ := Option.bind_eq_some_iff.1 h
    obtain ⟨-, rfl⟩ : behind = "\x7d\n".toList ∧ values' = values := by
      simpa only [Option.ite_none_right_eq_some, Option.some.injEq] using h
    exact (Encoding.readInitializers_memberLines.1 hvalues).2
  · intro h
    rw [Encoding.readInitializers_memberLines.2 ⟨rfl, h⟩, Option.bind_eq_bind, Option.bind_some]
    exact if_pos rfl

end Declaration

end TypeExport
