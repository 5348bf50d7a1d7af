import TypeExport.Naming

/-!
# Options

The choices that hold for a whole run.  Two combinations cannot be honoured and
are refused before anything is resolved: native enumerations in a dialect that
has none, and a plural that would give a lookup constant no name of its own.
-/

namespace TypeExport

/-- How the nullability of a document maps to nullable output. -/
inductive NullabilityMode where
  /-- Nothing is nullable. -/
  | none
  /-- A reference type is nullable unless it is marked otherwise. -/
  | pessimistic
  /-- A reference type is nullable when it is marked so. -/
  | optIn
  /-- A type is nullable where the flags of nullable reference types say so. -/
  | nullableReference
  deriving DecidableEq, Repr

/-- How an enumeration is declared. -/
inductive EnumStyle where
  /-- As a union of texts with a lookup constant. -/
  | fixedStrings
  /-- As a native enumeration. -/
  | native
  deriving DecidableEq, Repr

/-- The linter that is told to pass over the output. -/
inductive Linter where
  | tslint
  | eslint
  | none
  deriving DecidableEq, Repr

/-- The dialect of the output. -/
inductive Dialect where
  | typeScript
  | flow
  deriving DecidableEq, Repr

/-- The options of a run. -/
structure Options where
  nullability : NullabilityMode := .pessimistic
  enums : EnumStyle := .fixedStrings
  /-- Whether a nullable member may be left out. -/
  optionalProperties : Bool := true
  /-- Whether an absent value stays nullable where it is not a member. -/
  explicitNullability : Bool := true
  /-- Whether the global nullable type is used in place of a union with
  `null`. -/
  globalNullable : Bool := false
  linter : Linter := .tslint
  dialect : Dialect := .typeScript
  /-- The plural that names lookup constants. -/
  plural : Option (String → String) := some pluralize

/-- Why a run is refused. -/
inductive Misconfiguration where
  /-- The dialect has no native enumerations. -/
  | nativeEnums
  /-- The plural is missing, or it leaves a word empty or unchanged. -/
  | plural
  /-- A rule of the caller refuses, in its own words. -/
  | refused (reason : String)
  deriving DecidableEq, Repr

/-- The wording of a refusal. -/
def Misconfiguration.message : Misconfiguration → String
  | .nativeEnums => "misconfiguration: Flow is not compatible with TypeScript enums"
  | .plural =>
    "misconfiguration: invalid pluralize function: it must exist and return a non-empty, "
      ++ "changed word"
  | .refused reason => "misconfiguration: " ++ reason

namespace Options

/-- Whether the plural of a word names something else than the word. -/
def hasUsablePlural (o : Options) : Bool :=
  match o.plural with
  | some plural => plural "Enum" != "" && plural "Enum" != "Enum"
  | none => false

/-- Refuses options that no run can honour. -/
def validate (o : Options) : Except Misconfiguration Unit :=
  if o.dialect = .flow && o.enums = .native then .error .nativeEnums
  else if o.hasUsablePlural then .ok ()
  else .error .plural

/-- The plural of a name, English when there is none. -/
def pluralOf (o : Options) (name : String) : String :=
  match o.plural with
  | some plural => plural name
  | none => pluralize name

/-! ## Description -/

/-- The name of a mode. -/
def modeName : NullabilityMode → String
  | .none => "None"
  | .pessimistic => "Pessimistic"
  | .optIn => "OptIn"
  | .nullableReference => "NullableReference"

/-- The name of a dialect. -/
def dialectName : Dialect → String
  | .typeScript => "TypeScript"
  | .flow => "Flow"

/-- The name of a style of enumerations. -/
def enumStyleName : EnumStyle → String
  | .fixedStrings => "FixedStringsAndDictionary"
  | .native => "TypeScriptEnum"

/-- The name of a linter. -/
def linterName : Linter → String
  | .tslint => "TsLint"
  | .eslint => "EsLint"
  | .none => "None"

/-- All options on one line.  Of the plural it says only whether there is
one. -/
def describe (o : Options) : String :=
  let plural := if o.plural.isSome then "Some(Pluralize(..))" else "None"
  let fields :=
    [("nullability_mode", modeName o.nullability), ("enum_generation_mode", enumStyleName o.enums),
     ("enable_optional_properties", toString o.optionalProperties),
     ("enable_explicit_nullability", toString o.explicitNullability),
     ("use_global_nullable", toString o.globalNullable),
     ("linter_disable_mode", linterName o.linter), ("type_checker", dialectName o.dialect),
     ("pluralize", plural)]
  "GenerationOptions \x7b " ++ ", ".intercalate (fields.map fun f => f.1 ++ ": " ++ f.2) ++ " \x7d"

end Options

end TypeExport
