/-!
# JSON trees

A JSON text as a tree that keeps what a reader may still refuse: the digits of
a number, which may be out of range, and a text whose escapes spell a lone
surrogate, which is no text.  The fields of an object are kept in order, with
repetitions.
-/

namespace TypeExport

/-- A number as it is written. -/
structure Numeral where
  /-- Whether it starts with a minus sign. -/
  negative : Bool
  /-- The digits before the point. -/
  whole : List Nat
  /-- The digits behind the point. -/
  fraction : List Nat
  exponent : Option Int
  deriving DecidableEq, Repr

/-- A JSON tree.  A text is `none` when its escapes spell a lone surrogate. -/
inductive Json where
  | null
  | boolean (b : Bool)
  | number (n : Numeral)
  | text (s : Option String)
  | array (items : List Json)
  | object (fields : List (Option String × Json))
  deriving Repr

namespace Numeral

/-- The number that a list of digits spells. -/
def ofDigits (digits : List Nat) : Nat := digits.foldl (fun n d => 10 * n + d) 0

/-- The natural number it spells.  A sign, a fraction or an exponent makes it
something else, whatever its value. -/
def natural? (n : Numeral) : Option Nat :=
  if !n.negative && n.fraction.isEmpty && n.exponent.isNone then some (ofDigits n.whole) else none

/-! ## Range

A number is held as a significand of 64 bits and a power of ten, and its value
is the product of the two, each rounded to a double. -/

/-- Appends digits to a significand while it fits 64 bits.  Gives the
significand and the digits that are left. -/
def absorb (significand : Nat) : List Nat → Nat × List Nat
  | [] => (significand, [])
  | d :: ds =>
    if 10 * significand + d < Nat.pow 2 64 then absorb (10 * significand + d) ds
    else (significand, d :: ds)

/-- A natural number rounded to 53 significant bits, a half going to the even
neighbour. -/
def toDouble (n : Nat) : Nat :=
  let unit := Nat.pow 2 (n.log2 - 52)
  let low := n / unit
  let rest := n % unit
  if 2 * rest < unit || 2 * rest = unit && low % 2 = 0 then low * unit else (low + 1) * unit

/-- Whether the value is too large for a double.  A power of ten above the
308th is too large by itself, unless the significand is zero. -/
def isOutOfRange (n : Numeral) : Bool :=
  let (head, dropped) := absorb 0 n.whole
  let (significand, unread) := absorb head n.fraction
  let power : Int :=
    dropped.length - (n.fraction.length - unread.length : Nat) + n.exponent.getD 0
  significand != 0 && 0 ≤ power
    && (308 < power
      || Nat.pow 2 1024 - Nat.pow 2 970
        ≤ toDouble significand * toDouble (Nat.pow 10 power.toNat))

end Numeral

namespace Json

mutual

/-- Whether a tree holds only texts and numbers that have a value, and nests
its containers at most `depth` deep. -/
def isSound (depth : Nat) : Json → Bool
  | .null | .boolean _ => true
  | .number n => !n.isOutOfRange
  | .text s => s.isSome
  | .array items => depth != 0 && areSound (depth - 1) items
  | .object fields => depth != 0 && areFieldsSound (depth - 1) fields

/-- Whether every item is sound. -/
def areSound (depth : Nat) : List Json → Bool
  | [] => true
  | item :: items => item.isSound depth && areSound depth items

/-- Whether every field is sound. -/
def areFieldsSound (depth : Nat) : List (Option String × Json) → Bool
  | [] => true
  | (name, value) :: fields =>
    name.isSome && value.isSound depth && areFieldsSound depth fields

end

end Json

end TypeExport
