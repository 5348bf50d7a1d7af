import TypeExport.Proofs.Output.Leading

/-!
# Specifiers point at their target

A unit imports from another unit or from a module outside.  When the path of the
importing file is made of names alone, the specifier is relative and leads to
the file of the other unit, or to where the module is from the root of the
output; a module whose location is not relative is imported by that location
(`Units.points`).  No depth of either path and no shared directories make a
difference.

A module below the root (`./`) is led to like a unit.  For one outside of it
(`../`) the specifier goes up to the root first, once for each slash in the path
of the importing file, and that is once for each of its directories
(`length_directories`).
-/

namespace TypeExport

/-- Whether a specifier is relative to the file it stands in. -/
def IsRelative (specifier : List Char) : Prop :=
  ['.', '/'] <+: specifier ∨ ['.', '.', '/'] <+: specifier

instance (specifier : List Char) : Decidable (IsRelative specifier) :=
  inferInstanceAs (Decidable (_ ∨ _))

instance (segment : List Char) : Decidable (IsName segment) :=
  decidable_of_iff (segment ≠ [] ∧ segment ≠ ['.'] ∧ segment ≠ parentSegment)
    ⟨fun h => ⟨h.1, h.2.1, h.2.2⟩, fun h => ⟨h.nonempty, h.notHere, h.notParent⟩⟩

instance (path : List Char) : Decidable (IsPlainPath path) :=
  inferInstanceAs (Decidable (∀ segment ∈ segments path, IsName segment))

/-- A relative specifier that leads from a file to a path from the root. -/
structure LeadsTo (source specifier target : List Char) : Prop where
  relative : IsRelative specifier
  place : follow (directoryOf source) (segments specifier) = placeOf target

variable {source specifier target : List Char}

/-! ## Modules below the root -/

theorem isRelative_stepsUp (n : Nat) (rest : List Char) : IsRelative (stepsUp (n + 1) ++ rest) := by
  right
  simp [stepsUp, List.replicate_succ]

/-- A specifier between two files is relative. -/
theorem isRelative_relativeSpecifier (source target : List Char) :
    IsRelative (relativeSpecifier source target) := by
  unfold relativeSpecifier
  simp only
  split
  · exact .inl (List.prefix_append _ _)
  · next hup =>
    obtain ⟨n, hn⟩ := Nat.exists_eq_succ_of_ne_zero hup
    rw [hn]
    exact isRelative_stepsUp n _

/-- The specifier between two files leads from one to the other. -/
theorem leadsTo_relativeSpecifier (h : IsPlainPath source) (target : List Char) :
    LeadsTo source (relativeSpecifier source target) target where
  relative := isRelative_relativeSpecifier source target
  place := follow_relativeSpecifier h target

/-- A path that starts at the root leads where the rest of it leads. -/
theorem placeOf_here (path : List Char) : placeOf ('.' :: '/' :: path) = placeOf path := by
  have hsegments : segments (['.'] ++ '/' :: path) = ['.'] :: segments path :=
    segments_append_slash (by decide) path
  show follow [] (segments (['.'] ++ '/' :: path)) = _
  rw [hsegments]
  rfl

/-! ## Modules above the root -/

theorem length_segments (path : List Char) : (segments path).length = path.count '/' + 1 := by
  fun_induction segments path with
  | case1 => rfl
  | case2 rest ih => simp [ih]
  | case3 c rest _ hrest => exact absurd hrest (segments_ne_nil rest)
  | case4 c rest hc s more hrest ih =>
    rw [hrest] at ih
    simpa [List.count_cons, hc] using ih

/-- A file is as deep as its path has slashes. -/
theorem length_directories (path : List Char) : (directories path).length = path.count '/' := by
  simp [directories, length_segments]

/-- As many steps up as a file is deep lead to the root. -/
theorem follow_stepsUp (h : IsPlainPath source) (rest : List Char) :
    follow (directoryOf source) (segments (stepsUp (source.count '/') ++ rest)) = placeOf rest := by
  have hnames : ∀ segment ∈ directories source, IsName segment :=
    fun segment hmem => h segment ((List.dropLast_sublist _).subset hmem)
  have hdirectory : directoryOf source = (directories source).reverse ++ [] :=
    follow_of_isName hnames []
  have hroot :
      follow (directoryOf source) (List.replicate (source.count '/') parentSegment) = [] := by
    rw [hdirectory, ← length_directories, ← List.length_reverse]
    exact follow_parents (fun segment hmem => hnames segment (List.mem_reverse.1 hmem)) []
  rw [segments_stepsUp, follow_append, hroot]
  rfl

/-- The specifier of a module outside leads to its location, if that is
relative. -/
theorem leadsTo_externalSpecifier (h : IsPlainPath source) (hrelative : IsRelative specifier) :
    LeadsTo source (externalSpecifier source specifier) specifier := by
  obtain ⟨target, rfl⟩ | ⟨target, rfl⟩ := hrelative
  · have hled := leadsTo_relativeSpecifier h target
    exact ⟨hled.relative, hled.place.trans (placeOf_here target).symm⟩
  · refine ⟨?_, follow_stepsUp h _⟩
    show IsRelative (stepsUp (source.count '/') ++ _)
    cases source.count '/' with
    | zero => exact .inr (List.prefix_append _ _)
    | succ n => exact isRelative_stepsUp n _

/-- A location that is not relative is the name of a package. -/
theorem externalSpecifier_of_not_isRelative (h : ¬ IsRelative specifier) (source : List Char) :
    externalSpecifier source specifier = specifier := by
  unfold externalSpecifier
  split
  · exact absurd (.inl (List.prefix_append ['.', '/'] _)) h
  · exact absurd (.inr (List.prefix_append ['.', '.', '/'] _)) h
  · rfl

/-! ## Imports of units -/

namespace Units

/-- What the specifier is by which a unit imports from a source. -/
def Points (us : Units) (k : UnitId) : ImportSource → Prop
  | .unit j =>
    LeadsTo (us.stemOf k).toList (us.specifier k (.unit j)).toList (us.stemOf j).toList
  | .external location =>
    if IsRelative location.toList then
      LeadsTo (us.stemOf k).toList (us.specifier k (.external location)).toList location.toList
    else us.specifier k (.external location) = location

/-- The specifiers of a unit whose path is plain point at their targets. -/
theorem points {us : Units} {k : UnitId} (h : IsPlainPath (us.stemOf k).toList)
    (source : ImportSource) : us.Points k source := by
  cases source with
  | unit j =>
    show LeadsTo _ (String.ofList _).toList _
    rw [String.toList_ofList]
    exact leadsTo_relativeSpecifier h _
  | external location =>
    by_cases hrelative : IsRelative location.toList
    · simp only [Points, hrelative, if_true, specifier, String.toList_ofList]
      exact leadsTo_externalSpecifier h hrelative
    · simp [Points, hrelative, specifier, externalSpecifier_of_not_isRelative]

/-- Two files that are two directories deep and share one of them, as in
`a/b/one` and `a/c/two`. -/
def neighbours : Units := ⟨#[{ location := "a/b/one" }, { location := "a/c/two" }]⟩

theorem points_neighbours :
    IsPlainPath (neighbours.stemOf ⟨0⟩).toList ∧ neighbours.Points ⟨0⟩ (.unit ⟨1⟩) ∧
      neighbours.Points ⟨0⟩ (.external "../lib") :=
  have h : IsPlainPath (neighbours.stemOf ⟨0⟩).toList := by decide +kernel
  ⟨h, points h _, points h _⟩

end Units

end TypeExport
