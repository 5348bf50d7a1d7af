import TypeExport.Reference.Token

/-!
# Reading references

A reference is read from its tokens by a machine that looks at one token at a
time.  Its state is the closed generics that are still open, innermost first,
and what it holds of the reference it is reading.  A state accepts a token or
refuses it with the problem, and at the end of the tokens it yields the
reference or says what is missing.

The notation is

    ref ::= path [ '<' ref (',' ref)* '>' ] ( '[]' | '?' )*
-/

namespace TypeExport

/-- A closed generic whose arguments are not complete. -/
structure OpenGeneric where
  /-- The name in front of `<`. -/
  name : String
  /-- The complete arguments, in order. -/
  arguments : List TypeRef
  deriving Repr

/-- What the machine holds of the reference it is reading. -/
inductive Focus where
  /-- Nothing yet. -/
  | start
  /-- A name that may still take arguments. -/
  | name (path : String)
  /-- A reference that may still take suffixes. -/
  | ready (ref : TypeRef)
  deriving Repr

/-- A state of the machine. -/
structure ParseState where
  /-- The open generics, innermost first. -/
  pending : List OpenGeneric
  /-- The reference being read. -/
  focus : Focus
  deriving Repr

namespace ParseState

/-- The state before the first token. -/
def initial : ParseState := ⟨[], .start⟩

/-- A token after a complete reference.  A suffix extends it, a comma or `>`
hands it to the innermost open generic. -/
def afterRef (pending : List OpenGeneric) (ref : TypeRef) : Token → Except ParseProblem ParseState
  | .brackets => .ok ⟨pending, .ready (.array ref)⟩
  | .question => .ok ⟨pending, .ready (.nullable ref)⟩
  | token =>
    match pending with
    | [] => .error (.trailing token)
    | g :: outer =>
      match token with
      | .comma => .ok ⟨⟨g.name, g.arguments ++ [ref]⟩ :: outer, .start⟩
      | .rightAngle => .ok ⟨outer, .ready (.named g.name (g.arguments ++ [ref]))⟩
      | _ => .error .expectedSeparator

/-- One token. -/
def step (s : ParseState) (token : Token) : Except ParseProblem ParseState :=
  match s.focus with
  | .start =>
    match token with
    | .path name => .ok ⟨s.pending, .name name⟩
    | _ => .error (.expectedName (some token))
  | .name path =>
    match token with
    | .leftAngle => .ok ⟨⟨path, []⟩ :: s.pending, .start⟩
    | _ => afterRef s.pending (.named path []) token
  | .ready ref => afterRef s.pending ref token

/-- The end of the tokens. -/
def finish (s : ParseState) : Except ParseProblem TypeRef :=
  match s.focus, s.pending with
  | .start, _ => .error (.expectedName none)
  | .name path, [] => .ok (.named path [])
  | .ready ref, [] => .ok ref
  | _, _ :: _ => .error .expectedSeparator

/-- The remaining tokens of a text that is `length` bytes long. -/
def run (length : Nat) (s : ParseState) : List Lexeme → Except ParseError TypeRef
  | [] =>
    match s.finish with
    | .ok ref => .ok ref
    | .error problem => .error ⟨problem, length, length⟩
  | l :: rest =>
    match s.step l.token with
    | .ok next => run length next rest
    | .error problem => .error ⟨problem, l.span⟩

end ParseState

/-- The reference a text spells.  All tokens are read before the first of them
is looked at, so a scalar that starts no token is reported before anything
else. -/
def TypeRef.parse (text : String) : Except ParseError TypeRef :=
  match lexemes 0 text.toList with
  | .error e => .error e
  | .ok ls => ParseState.initial.run text.utf8ByteSize ls

end TypeExport
