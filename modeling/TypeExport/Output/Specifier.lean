import TypeExport.Output.Unit

/-!
# Import specifiers

The text by which one file imports another.  Both are paths from the root of
the output, without extensions, and the specifier leads from the directory of
the importing file to the imported one: up as far as the directories differ,
then down.
-/

namespace TypeExport

/-- The segments of a path, separated by slashes.  There is one at least. -/
def segments : List Char → List (List Char)
  | [] => [[]]
  | c :: rest =>
    if c = '/' then [] :: segments rest
    else
      match segments rest with
      | [] => [[c]]
      | s :: more => (c :: s) :: more

/-- The path of a list of segments. -/
def joinSegments (parts : List (List Char)) : List Char := ['/'].intercalate parts

/-- A path has a segment. -/
theorem segments_ne_nil (cs : List Char) : segments cs ≠ [] := by
  fun_induction segments cs <;> simp_all

/-- The segments of a path make up the path. -/
theorem joinSegments_segments (cs : List Char) : joinSegments (segments cs) = cs := by
  fun_induction segments cs with
  | case1 => rfl
  | case2 rest ih =>
    cases h : segments rest with
    | nil => exact absurd h (segments_ne_nil rest)
    | cons s more =>
      rw [h] at ih
      simp [joinSegments, List.intercalate] at ih ⊢
      simp [ih]
  | case3 c rest hc h ih => exact absurd h (segments_ne_nil rest)
  | case4 c rest hc s more h ih =>
    rw [h] at ih
    cases more with
    | nil => simpa [joinSegments, List.intercalate] using ih
    | cons t ts => simpa [joinSegments, List.intercalate] using ih

/-- The number of leading segments that two paths share. -/
def commonSegments : List (List Char) → List (List Char) → Nat
  | a :: as, b :: bs => if a = b then commonSegments as bs + 1 else 0
  | _, _ => 0

/-- Steps up to the parent directory. -/
def stepsUp (n : Nat) : List Char := (List.replicate n ['.', '.', '/']).flatten

/-- The specifier by which the file `source` imports the file `target`. -/
def relativeSpecifier (source target : List Char) : List Char :=
  let directory := (segments source).dropLast
  let parts := segments target
  let common := commonSegments directory parts.dropLast
  let rest := joinSegments (parts.drop common)
  match directory.length - common with
  | 0 => ['.', '/'] ++ rest
  | n => stepsUp n ++ rest

/-- The specifier by which the file `source` imports a module from outside.
Paths that start with `./` or `../` are led over from the root of the output to
the importing file, and the name of a package is left as it is. -/
def externalSpecifier (source specifier : List Char) : List Char :=
  match specifier with
  | '.' :: '/' :: target => relativeSpecifier source target
  | '.' :: '.' :: '/' :: _ => stepsUp (source.count '/') ++ specifier
  | _ => specifier

/-- The specifier by which a unit imports from a source. -/
def Units.specifier (us : Units) (importer : UnitId) (source : ImportSource) : String :=
  let stem := (us.stemOf importer).toList
  match source with
  | .unit id => String.ofList (relativeSpecifier stem (us.stemOf id).toList)
  | .external specifier => String.ofList (externalSpecifier stem specifier.toList)

end TypeExport
