import TypeExport.Options
import TypeExport.Output.Specifier

/-!
# Rendering

The text of output units, line by line, in TypeScript or in Flow.  The dialects
differ in the extension, the pragma of Flow, the global nullable type and the
way a lookup value is given its type.  A file starts with comments, then come
its imports, then its declarations, each group after an empty line, and it ends with
one newline.
-/

namespace TypeExport

/-- The text of a file. -/
structure RenderedUnit where
  /-- The path, with an extension. -/
  path : String
  /-- The text. -/
  code : String
  deriving DecidableEq, Repr

namespace Dialect

/-- The extension of files. -/
def extension : Dialect → String
  | typeScript => "ts"
  | flow => "js"

/-- The comments that turn the dialect on. -/
def pragma : Dialect → List String
  | typeScript => []
  | flow => ["// @flow"]

/-- The global nullable type around a rendered type. -/
def globalNullable (d : Dialect) (inner : String) : String :=
  match d with
  | typeScript => "Nullable<" ++ inner ++ ">"
  | flow => "?" ++ inner

/-- Whether an expression needs parentheses in front of an array suffix. -/
def isCompound (d : Dialect) : TypeExpr → Bool
  | .orNull _ => true
  | .nullable _ => d = flow
  | _ => false

/-- A literal that is given a type. -/
def typedLiteral (d : Dialect) (literal type : String) : String :=
  match d with
  | typeScript => "(" ++ literal ++ ") as " ++ type
  | flow => "(" ++ literal ++ ": " ++ type ++ ")"

end Dialect

/-- The comments that silence a linter. -/
def Linter.pragma : Linter → List String
  | tslint => ["// tslint:disable"]
  | eslint => ["/* eslint-disable */"]
  | none => []

/-! ## Types -/

/-- A character inside single quotes. -/
def literalChar (c : Char) : List Char :=
  if c = '\\' || c = '\'' then ['\\', c] else [c]

/-- A text in single quotes. -/
def literalText (value : String) : String :=
  String.ofList ('\'' :: value.toList.flatMap literalChar ++ ['\''])

namespace TypeExpr

mutual

/-- The text of a type. -/
def render (d : Dialect) : TypeExpr → String
  | .reference name => name
  | .generic base arguments =>
    base.render d ++ "<" ++ ", ".intercalate (renderAll d arguments) ++ ">"
  | .array element =>
    if d.isCompound element then "(" ++ element.render d ++ ")[]" else element.render d ++ "[]"
  | .orNull inner => "null | " ++ inner.render d
  | .nullable inner => d.globalNullable (inner.render d)
  | .dictionary key value => "\x7b [key: " ++ key.render d ++ "]: " ++ value.render d ++ " \x7d"
  | .union items => "(" ++ " | ".intercalate (renderAll d items) ++ ")"
  | .literal value => literalText value

/-- The texts of several types. -/
def renderAll (d : Dialect) : List TypeExpr → List String
  | [] => []
  | e :: es => e.render d :: renderAll d es

end

end TypeExpr

/-! ## Declarations -/

/-- The line of a member. -/
def MemberDeclaration.line (d : Dialect) (m : MemberDeclaration) : String :=
  "    " ++ m.name ++ (if m.optional then "?" else "") ++ ": " ++ m.type.render d ++ ";"

/-- The type parameters behind the name of an object type. -/
def parameterList : List String → String
  | [] => ""
  | parameters => "<" ++ ", ".intercalate parameters ++ ">"

/-- The union of the values of an enumeration. -/
def literalUnion : List String → String
  | [] => "never"
  | values => " | ".intercalate (values.map literalText)

/-- The lines of a declaration. -/
def Declaration.lines (d : Dialect) : Declaration → List String
  | .object name parameters members =>
    ("export type " ++ name ++ parameterList parameters ++ " = \x7b")
      :: members.map (·.line d) ++ ["\x7d;"]
  | .enumeration name values =>
    ("export enum " ++ name ++ " \x7b")
      :: values.map (fun v => "    " ++ v ++ " = '" ++ v ++ "',") ++ ["\x7d"]
  | .fixedStrings name values lookup =>
    ("export type " ++ name ++ " = " ++ literalUnion values ++ ";")
      :: ("export const " ++ lookup ++ " = \x7b")
      :: values.map (fun v =>
          "    [" ++ literalText v ++ "]: " ++ d.typedLiteral (literalText v) name ++ ",")
      ++ ["\x7d;"]

/-! ## Units -/

/-- The characters of the Unicode property `White_Space`. -/
def isWhiteSpace (c : Char) : Bool :=
  '\t' ≤ c && c ≤ '\r' || c = ' ' || c = '\x85' || c = '\xa0' || c = '\u1680'
    || '\u2000' ≤ c && c ≤ '\u200a' || c = '\u2028' || c = '\u2029' || c = '\u202f'
    || c = '\u205f' || c = '\u3000'

/-- A text with one newline in place of the white space at its end. -/
def finish (text : String) : String :=
  String.ofList ((text.toList.reverse.dropWhile isWhiteSpace).reverse ++ ['\n'])

namespace Units

/-- The lines above the imports of a file. -/
def header (o : Options) : List String :=
  o.dialect.pragma ++ o.linter.pragma ++ ["// contractgen generated content"]

/-- The line of an import into a unit. -/
def importLine (us : Units) (importer : UnitId) (i : Import) : String :=
  "import \x7b " ++ i.name ++ " \x7d from '" ++ us.specifier importer i.source ++ "';"

/-- The lines of a unit. -/
def lines (us : Units) (o : Options) (id : UnitId) (unit : OutputUnit) : List String :=
  let imports := unit.imports.toList.map (us.importLine id)
  header o ++ (if imports.isEmpty then [] else "" :: imports)
    ++ unit.declarations.toList.flatMap ("" :: ·.lines o.dialect)

/-- A unit as a file. -/
def renderUnit (us : Units) (o : Options) (id : UnitId) (unit : OutputUnit) : RenderedUnit :=
  { path := unit.stem ++ "." ++ o.dialect.extension
    code := finish (String.join ((us.lines o id unit).map (· ++ "\n"))) }

/-- All units as files, in the order of their creation. -/
def render (us : Units) (o : Options) : List RenderedUnit :=
  us.all.toList.mapIdx fun i unit => us.renderUnit o ⟨i⟩ unit

end Units

end TypeExport
