import TypeExport.Document.Basic
import TypeExport.Json.Parser

/-!
# Documents as JSON

A document, a type and a member are records, written as an object with named
fields or as an array with the fields in order.  In an object unknown fields
are skipped and a known field stands at most once.  In an array trailing fields
may be missing and nothing may follow the last one.  A type carries its kind as
the field `kind`, or as the first item.

What lies inside a type is read strictly: texts without lone surrogates,
numbers in range, and a bound on the nesting.  Elsewhere an unknown field only
has to be JSON.
-/

namespace TypeExport

namespace Json

/-- The value of a field that stands at most once. -/
def field? (fields : List (Option String × Json)) (name : String) : Option (Option Json) :=
  match fields.filter (·.1 = some name) with
  | [] => some none
  | [(_, value)] => some (some value)
  | _ => none

/-- The values of the fields of a record, in the order of their names. -/
def record? (names : List String) : Json → Option (List (Option Json))
  | .object fields =>
    if fields.all (·.1.isSome) then names.mapM (field? fields) else none
  | .array items =>
    if items.length ≤ names.length then
      some (items.map some ++ List.replicate (names.length - items.length) none)
    else none
  | _ => none

/-- A text. -/
def text? : Json → Option String
  | .text s => s
  | _ => none

/-- The items of an array, each read by `read`. -/
def listOf? {α : Type} (read : Json → Option α) : Json → Option (List α)
  | .array items => items.mapM read
  | _ => none

/-- A list that is empty when its field is missing. -/
def listOrEmpty? {α : Type} (read : Json → Option α) : Option Json → Option (List α)
  | none => some []
  | some j => j.listOf? read

/-- A value that is absent when its field is missing or null. -/
def optional? {α : Type} (read : Json → Option α) : Option Json → Option (Option α)
  | none | some .null => some none
  | some j => (read j).map some

/-- A nullability flag. -/
def flag? : Json → Option UInt8
  | .number n =>
    match n.natural? with
    | some k => if k < 256 then some (UInt8.ofNat k) else none
    | none => none
  | _ => none

/-- A marker: its name, or an object that maps only the name to nothing. -/
def marker? : Json → Option Marker
  | .text s => s.bind Marker.ofName?
  | .object [(name, .null)] | .object [(name, .object [])] => name.bind Marker.ofName?
  | _ => none

end Json

/-- A member. -/
def MemberEntry.ofJson? (j : Json) : Option MemberEntry := do
  match ← j.record? ["name", "type", "annotations", "nullable_flags", "nullable_context"] with
  | [some name, some reference, markers, flags, context] =>
    return {
      name := ← name.text?
      reference := ← reference.text?
      annotations := {
        markers := .ofList (← Json.listOrEmpty? Json.marker? markers)
        flags := ← Json.optional? (Json.listOf? Json.flag?) flags
        context := ← Json.optional? Json.flag? context } }
  | _ => none

namespace TypeEntry

/-- The kind of a type, and what remains of it. -/
def kindOf? : Json → Option (String × Json)
  | .object fields => do
    let kind ← (← Json.field? fields "kind").bind Json.text?
    return (kind, .object (fields.filter (·.1 ≠ some "kind")))
  | .array (kind :: items) => do return (← kind.text?, .array items)
  | _ => none

/-- The number of containers that may be nested in a type, itself included. -/
def depth : Nat := 125

/-- A type. -/
def ofJson? (j : Json) : Option TypeEntry := do
  guard (j.isSound depth)
  let (kind, body) ← kindOf? j
  match kind with
  | "object" =>
    match ← body.record? ["name", "parameters", "members", "nullable_context"] with
    | [some name, parameters, members, context] =>
      return .object (← name.text?) (← Json.listOrEmpty? Json.text? parameters)
        (← Json.listOrEmpty? MemberEntry.ofJson? members) (← Json.optional? Json.flag? context)
    | _ => none
  | "struct" =>
    match ← body.record? ["name", "members", "nullable_context"] with
    | [some name, members, context] =>
      return .struct (← name.text?) (← Json.listOrEmpty? MemberEntry.ofJson? members)
        (← Json.optional? Json.flag? context)
    | _ => none
  | "enum" =>
    match ← body.record? ["name", "values"] with
    | [some name, some values] =>
      return .enumeration (← name.text?) (← values.listOf? Json.text?)
    | _ => none
  | _ => none

end TypeEntry

namespace Document

/-- A document. -/
def ofJson? (j : Json) : Option Document := do
  match ← j.record? ["types", "roots"] with
  | [types, roots] =>
    return {
      types := ← Json.listOrEmpty? TypeEntry.ofJson? types
      roots := ← Json.listOrEmpty? Json.text? roots }
  | _ => none

/-- The document that a text spells. -/
def ofText? (s : String) : Option Document := do ofJson? (← Json.parse? s)

end Document

end TypeExport
