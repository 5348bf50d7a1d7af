import TypeExport.Json.Basic
import TypeExport.Text.Blank

/-!
# Reading JSON

The grammar of JSON over the characters of a text.  Each reader gives what it
read and the text behind it, or nothing when the text does not start with what
it reads.  The depth of containers has no limit here.
-/

namespace TypeExport.Json

open Text (skipBlanks)

/-! ## Numbers -/

/-- The leading digits and the text behind them. -/
def readDigits (cs : List Char) : List Nat × List Char :=
  ((cs.takeWhile Char.isDigit).map fun c => c.toNat - '0'.toNat, cs.dropWhile Char.isDigit)

/-- The digits before the point.  There is one at least, and a zero stands
alone. -/
def readWhole (cs : List Char) : Option (List Nat × List Char) :=
  match readDigits cs with
  | ([], _) | (0 :: _ :: _, _) => none
  | result => some result

/-- The point and the digits behind it, if there is a point. -/
def readFraction (cs : List Char) : Option (List Nat × List Char) :=
  match cs with
  | '.' :: rest =>
    match readDigits rest with
    | ([], _) => none
    | result => some result
  | _ => some ([], cs)

/-- A sign, if there is one, and whether it is a minus. -/
def readSign (cs : List Char) : Bool × List Char :=
  match cs with
  | '-' :: rest => (true, rest)
  | '+' :: rest => (false, rest)
  | _ => (false, cs)

/-- The exponent, if there is one. -/
def readExponent (cs : List Char) : Option (Option Int × List Char) :=
  match cs with
  | 'e' :: rest | 'E' :: rest =>
    let (negative, rest) := readSign rest
    match readDigits rest with
    | ([], _) => none
    | (digits, rest) =>
      let size : Int := Numeral.ofDigits digits
      some (some (if negative then -size else size), rest)
  | _ => some (none, cs)

/-- A number. -/
def readNumeral (cs : List Char) : Option (Numeral × List Char) := do
  let (negative, cs) :=
    match cs with
    | '-' :: rest => (true, rest)
    | _ => (false, cs)
  let (whole, cs) ← readWhole cs
  let (fraction, cs) ← readFraction cs
  let (exponent, cs) ← readExponent cs
  return (⟨negative, whole, fraction, exponent⟩, cs)

/-! ## Texts -/

/-- The value of a hexadecimal digit. -/
def hexValue? (c : Char) : Option Nat :=
  if c.isDigit then some (c.toNat - '0'.toNat)
  else if 'a' ≤ c && c ≤ 'f' then some (c.toNat - 'a'.toNat + 10)
  else if 'A' ≤ c && c ≤ 'F' then some (c.toNat - 'A'.toNat + 10)
  else none

/-- The value of four hexadecimal digits. -/
def hexQuad? (a b c d : Char) : Option Nat := do
  return ((← hexValue? a) * 4096 + (← hexValue? b) * 256 + (← hexValue? c) * 16 + (← hexValue? d))

/-- The scalar value that an escape of one character stands for. -/
def shortEscape? : Char → Option Nat
  | '"' => some 0x22
  | '\\' => some 0x5C
  | '/' => some 0x2F
  | 'b' => some 0x08
  | 'f' => some 0x0C
  | 'n' => some 0x0A
  | 'r' => some 0x0D
  | 't' => some 0x09
  | _ => none

/-- The values of a text up to its closing quote: scalar values, and surrogates
where an escape spells one. -/
def readUnits : List Char → Option (List Nat × List Char)
  | [] => none
  | '"' :: rest => some ([], rest)
  | '\\' :: 'u' :: a :: b :: c :: d :: rest => do
    let unit ← hexQuad? a b c d
    let (units, behind) ← readUnits rest
    return (unit :: units, behind)
  | '\\' :: c :: rest => do
    let unit ← shortEscape? c
    let (units, behind) ← readUnits rest
    return (unit :: units, behind)
  | c :: rest =>
    if c = '\\' || c.toNat < 0x20 then none
    else do
      let (units, behind) ← readUnits rest
      return (c.toNat :: units, behind)

/-- Whether a value is a surrogate that opens a pair. -/
def isHighSurrogate (n : Nat) : Bool := 0xD800 ≤ n && n ≤ 0xDBFF

/-- Whether a value is a surrogate that closes a pair. -/
def isLowSurrogate (n : Nat) : Bool := 0xDC00 ≤ n && n ≤ 0xDFFF

/-- The characters of a list of values, where every surrogate has to belong to
a pair. -/
def decodeUnits : List Nat → Option (List Char)
  | [] => some []
  | [n] => if isHighSurrogate n || isLowSurrogate n then none else some [Char.ofNat n]
  | n :: m :: rest =>
    if isHighSurrogate n then
      if isLowSurrogate m then
        (decodeUnits rest).map (Char.ofNat (0x10000 + (n - 0xD800) * 0x400 + (m - 0xDC00)) :: ·)
      else none
    else if isLowSurrogate n then none
    else (decodeUnits (m :: rest)).map (Char.ofNat n :: ·)

/-- A text behind its opening quote. -/
def readText (cs : List Char) : Option (Option String × List Char) := do
  let (units, behind) ← readUnits cs
  return ((decodeUnits units).map String.ofList, behind)

/-! ## Values -/

mutual

/-- A value.  The fuel bounds the number of nested readers. -/
def readValue : Nat → List Char → Option (Json × List Char)
  | 0, _ => none
  | fuel + 1, cs =>
    match skipBlanks cs with
    | '\x7b' :: rest =>
      match skipBlanks rest with
      | '\x7d' :: behind => some (.object [], behind)
      | _ => do
        let (fields, behind) ← readFields fuel rest
        return (.object fields, behind)
    | '[' :: rest =>
      match skipBlanks rest with
      | ']' :: behind => some (.array [], behind)
      | _ => do
        let (items, behind) ← readItems fuel rest
        return (.array items, behind)
    | '"' :: rest => do
      let (s, behind) ← readText rest
      return (.text s, behind)
    | 'n' :: 'u' :: 'l' :: 'l' :: behind => some (.null, behind)
    | 't' :: 'r' :: 'u' :: 'e' :: behind => some (.boolean true, behind)
    | 'f' :: 'a' :: 'l' :: 's' :: 'e' :: behind => some (.boolean false, behind)
    | start => do
      let (n, behind) ← readNumeral start
      return (.number n, behind)

/-- One or more items, up to the end of the array. -/
def readItems : Nat → List Char → Option (List Json × List Char)
  | 0, _ => none
  | fuel + 1, cs => do
    let (item, behind) ← readValue fuel cs
    match skipBlanks behind with
    | ',' :: rest =>
      let (items, behind) ← readItems fuel rest
      return (item :: items, behind)
    | ']' :: behind => return ([item], behind)
    | _ => none

/-- One or more fields, up to the end of the object. -/
def readFields : Nat → List Char → Option (List (Option String × Json) × List Char)
  | 0, _ => none
  | fuel + 1, cs =>
    match skipBlanks cs with
    | '"' :: rest => do
      let (name, behind) ← readText rest
      match skipBlanks behind with
      | ':' :: rest =>
        let (value, behind) ← readValue fuel rest
        match skipBlanks behind with
        | ',' :: rest =>
          let (fields, behind) ← readFields fuel rest
          return ((name, value) :: fields, behind)
        | '\x7d' :: behind => return ([(name, value)], behind)
        | _ => none
      | _ => none
    | _ => none

end

/-- The tree of a text.  Every two nested readers pass a character, so twice
its length is enough fuel. -/
def parse? (s : String) : Option Json := do
  let (value, behind) ← readValue (2 * s.length + 2) s.toList
  match skipBlanks behind with
  | [] => return value
  | _ => none

end TypeExport.Json
