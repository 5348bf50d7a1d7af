import TypeExport.Reference.Basic
import TypeExport.Text.Blank
import TypeExport.Text.Quoted

/-!
# Reading tokens

A text is cut into the longest tokens from left to right.  Blanks may stand
between tokens.  A path takes as many identifiers as it can, and a dot belongs
to it only when an identifier follows.  Where neither a blank nor a token
starts, reading stops at that one scalar.

Offsets count the bytes of the UTF-8 form.  Tokens and blanks are ASCII, so
they are as many bytes long as they have scalars.
-/

namespace TypeExport

/-- A stretch of a text, in UTF-8 byte offsets. -/
structure Span where
  /-- The offset of its first byte. -/
  start : Nat
  /-- The offset behind its last byte. -/
  stop : Nat
  deriving DecidableEq, Repr

/-- A token with the place it stands at. -/
structure Lexeme where
  token : Token
  span : Span
  deriving DecidableEq, Repr

/-- What is wrong with the text of a reference. -/
inductive ParseProblem where
  /-- No token starts with this scalar. -/
  | unexpectedCharacter (c : Char)
  /-- A name has to stand here, and another token or the end does. -/
  | expectedName (found : Option Token)
  /-- An argument is complete, and neither a comma nor `>` follows. -/
  | expectedSeparator
  /-- The reference is complete, and a token follows. -/
  | trailing (token : Token)
  deriving DecidableEq, Repr

/-- A problem and its place. -/
structure ParseError where
  problem : ParseProblem
  span : Span
  deriving DecidableEq, Repr

/-- The name of a token in messages. -/
def Token.describe : Token → String
  | .leftAngle => "LAngle"
  | .rightAngle => "RAngle"
  | .comma => "Comma"
  | .brackets => "Brackets"
  | .question => "Question"
  | .path name => "Path(" ++ Text.quoted name ++ ")"

/-- The wording of a problem. -/
def ParseProblem.message : ParseProblem → String
  | .unexpectedCharacter c => "unexpected character: " ++ Text.quoted (String.singleton c)
  | .expectedName none => "expected type name, got EOF"
  | .expectedName (some token) => "expected type name, got " ++ token.describe
  | .expectedSeparator => "expected ',' or '>'"
  | .trailing token => "unexpected trailing " ++ token.describe

/-- The wording of an error, with its place. -/
def ParseError.message (e : ParseError) : String :=
  e.problem.message ++ " at " ++ toString e.span.start ++ ".." ++ toString e.span.stop

/-! ## Characters -/

/-- The characters that start an identifier. -/
def isIdentStart (c : Char) : Bool := c.isAlpha || c = '_'

/-- The characters that continue an identifier. -/
def isIdentPart (c : Char) : Bool := c.isAlphanum || c = '_'

/-- The longest continuation of a path whose first character is read, and the
text behind it. -/
def pathTail : List Char → List Char × List Char
  | [] => ([], [])
  | [c] => if isIdentPart c then ([c], []) else ([], [c])
  | c :: d :: rest =>
    if isIdentPart c then
      let (more, behind) := pathTail (d :: rest)
      (c :: more, behind)
    else if c = '.' && isIdentStart d then
      let (more, behind) := pathTail rest
      (c :: d :: more, behind)
    else ([], c :: d :: rest)

/-- The length of a token in bytes. -/
def Token.width : Token → Nat
  | .path name => name.length
  | .brackets => 2
  | _ => 1

/-- The longest token that starts with the character `c`, and the text behind
it. -/
def munch (c : Char) (rest : List Char) : Option (Token × List Char) :=
  if c = '<' then some (.leftAngle, rest)
  else if c = '>' then some (.rightAngle, rest)
  else if c = ',' then some (.comma, rest)
  else if c = '?' then some (.question, rest)
  else if c = '[' then
    match rest with
    | ']' :: behind => some (.brackets, behind)
    | _ => none
  else if isIdentStart c then
    let (more, behind) := pathTail rest
    some (.path (String.ofList (c :: more)), behind)
  else none

/-- A continuation and the text behind it make up the text. -/
theorem pathTail_append (cs : List Char) : (pathTail cs).1 ++ (pathTail cs).2 = cs := by
  fun_induction pathTail cs <;> simp_all

/-- The text behind a token is no longer than the text behind its first
character. -/
theorem length_le_of_munch {c : Char} {rest behind : List Char} {t : Token}
    (h : munch c rest = some (t, behind)) : behind.length ≤ rest.length := by
  have tail : (pathTail rest).2.length ≤ rest.length := by
    conv => rhs; rw [← pathTail_append rest]
    simp
  unfold munch at h
  grind

/-! ## Texts -/

/-- The tokens of a text that begins at a byte offset. -/
def lexemes (offset : Nat) : List Char → Except ParseError (List Lexeme)
  | [] => .ok []
  | c :: rest =>
    if Text.isBlank c then lexemes (offset + 1) rest
    else
      match _h : munch c rest with
      | none => .error ⟨.unexpectedCharacter c, offset, offset + c.utf8Size⟩
      | some (token, behind) =>
        let stop := offset + token.width
        match lexemes stop behind with
        | .error e => .error e
        | .ok more => .ok (⟨token, offset, stop⟩ :: more)
termination_by cs => cs.length
decreasing_by
  · simp
  · have := length_le_of_munch _h
    simp only [List.length_cons]
    omega

end TypeExport
