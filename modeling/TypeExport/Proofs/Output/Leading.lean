import TypeExport.Output.Specifier

/-!
# Where specifiers lead

A place in a tree of directories is the list of names that lead to it, the
innermost first.  Following a path from a place goes down by its names, up by
`..`, and stays for `.` and for an empty segment.  From the root one may go
further up, and then the place starts outside of the tree.

The specifier between two files is a path from the directory of the importing
one.  When the path of that file is made of names alone, the specifier leads to
where the imported file is (`follow_relativeSpecifier`).
-/

namespace TypeExport

/-- The segment that leads up. -/
def parentSegment : List Char := ['.', '.']

/-- The place that a step up leads to. -/
def leave : List (List Char) → List (List Char)
  | [] => [parentSegment]
  | last :: rest => if last = parentSegment then parentSegment :: last :: rest else rest

/-- The place that a segment leads to from a place. -/
def followSegment (place : List (List Char)) (segment : List Char) : List (List Char) :=
  if segment = [] ∨ segment = ['.'] then place
  else if segment = parentSegment then leave place
  else segment :: place

/-- The place that segments lead to from a place. -/
def follow (place parts : List (List Char)) : List (List Char) := parts.foldl followSegment place

/-- The place of a file, from the root. -/
def placeOf (path : List Char) : List (List Char) := follow [] (segments path)

/-- The place of the directory of a file, from the root. -/
def directoryOf (path : List Char) : List (List Char) := follow [] (segments path).dropLast

/-- Whether a segment is a name. -/
structure IsName (segment : List Char) : Prop where
  nonempty : segment ≠ []
  notHere : segment ≠ ['.']
  notParent : segment ≠ parentSegment

/-- Whether a path is made of names alone. -/
def IsPlainPath (path : List Char) : Prop := ∀ segment ∈ segments path, IsName segment

variable {source target path segment : List Char} {place parts : List (List Char)}

/-! ## Following names -/

theorem follow_append (place parts more : List (List Char)) :
    follow place (parts ++ more) = follow (follow place parts) more := List.foldl_append

theorem followSegment_of_isName (h : IsName segment) (place : List (List Char)) :
    followSegment place segment = segment :: place := by
  rw [followSegment, if_neg (not_or.2 ⟨h.nonempty, h.notHere⟩), if_neg h.notParent]

/-- Names lead down. -/
theorem follow_of_isName (h : ∀ segment ∈ parts, IsName segment) (place : List (List Char)) :
    follow place parts = parts.reverse ++ place := by
  induction parts generalizing place with
  | nil => rfl
  | cons segment parts ih =>
    rw [List.forall_mem_cons] at h
    show follow (followSegment place segment) parts = _
    rw [followSegment_of_isName h.1, ih h.2, List.reverse_cons, List.append_assoc]
    rfl

/-- A step up undoes a name. -/
theorem followSegment_parent (h : IsName segment) :
    followSegment (segment :: place) parentSegment = place := by
  have hparent : ¬ (parentSegment = [] ∨ parentSegment = ['.']) := by decide
  rw [followSegment, if_neg hparent, if_pos rfl]
  exact if_neg h.notParent

/-- Steps up undo as many names. -/
theorem follow_parents {names : List (List Char)} (h : ∀ segment ∈ names, IsName segment)
    (place : List (List Char)) :
    follow (names ++ place) (List.replicate names.length parentSegment) = place := by
  induction names with
  | nil => rfl
  | cons segment names ih =>
    rw [List.forall_mem_cons] at h
    show follow (followSegment (segment :: (names ++ place)) parentSegment) _ = place
    rw [followSegment_parent h.1]
    exact ih h.2

/-! ## Segments -/

theorem slash_notMem_of_mem_segments (h : segment ∈ segments path) : '/' ∉ segment := by
  fun_induction segments path generalizing segment with
  | case1 =>
    rw [List.mem_singleton.1 h]
    exact List.not_mem_nil
  | case2 rest ih =>
    rcases List.mem_cons.1 h with rfl | h
    · exact List.not_mem_nil
    · exact ih h
  | case3 c rest _ hrest => exact absurd hrest (segments_ne_nil rest)
  | case4 c rest hc first more hrest ih =>
    rw [hrest] at ih
    rcases List.mem_cons.1 h with rfl | h
    · rw [List.mem_cons, not_or]
      exact ⟨Ne.symm hc, ih List.mem_cons_self⟩
    · exact ih (List.mem_cons_of_mem _ h)

theorem segments_of_slash_notMem (h : '/' ∉ segment) : segments segment = [segment] := by
  induction segment with
  | nil => rfl
  | cons c cs ih =>
    rw [List.mem_cons, not_or] at h
    rw [segments, if_neg (Ne.symm h.1), ih h.2]

theorem segments_append_slash (h : '/' ∉ segment) (rest : List Char) :
    segments (segment ++ '/' :: rest) = segment :: segments rest := by
  induction segment with
  | nil => rfl
  | cons c cs ih =>
    rw [List.mem_cons, not_or] at h
    rw [List.cons_append, segments, if_neg (Ne.symm h.1), ih h.2]

theorem joinSegments_cons (segment next : List Char) (parts : List (List Char)) :
    joinSegments (segment :: next :: parts) = segment ++ '/' :: joinSegments (next :: parts) := by
  simp [joinSegments, List.intercalate]

/-- Segments without slashes are those of their path. -/
theorem segments_joinSegments (hne : parts ≠ []) (h : ∀ segment ∈ parts, '/' ∉ segment) :
    segments (joinSegments parts) = parts := by
  induction parts with
  | nil => exact absurd rfl hne
  | cons segment parts ih =>
    rw [List.forall_mem_cons] at h
    cases parts with
    | nil =>
      rw [joinSegments, List.intercalate_singleton]
      exact segments_of_slash_notMem h.1
    | cons next parts =>
      rw [joinSegments_cons, segments_append_slash h.1, ih (by simp) h.2]

theorem segments_stepsUp (n : Nat) (rest : List Char) :
    segments (stepsUp n ++ rest) = List.replicate n parentSegment ++ segments rest := by
  induction n with
  | zero => rfl
  | succ n ih =>
    rw [stepsUp, List.replicate_succ, List.flatten_cons, List.append_assoc]
    show segments (parentSegment ++ '/' :: (stepsUp n ++ rest)) = _
    rw [segments_append_slash (by decide), ih]
    rfl

/-! ## Shared segments -/

theorem commonSegments_le (as bs : List (List Char)) :
    commonSegments as bs ≤ as.length ∧ commonSegments as bs ≤ bs.length := by
  fun_induction commonSegments as bs with
  | case1 a as bs ih => simp [ih.1, ih.2]
  | case2 => simp
  | case3 => simp

theorem take_commonSegments (as bs : List (List Char)) :
    as.take (commonSegments as bs) = bs.take (commonSegments as bs) := by
  fun_induction commonSegments as bs with
  | case1 a as bs ih => simp [ih]
  | case2 => rfl
  | case3 => rfl

theorem commonSegments_self (as : List (List Char)) : commonSegments as as = as.length := by
  induction as with
  | nil => rfl
  | cons a as ih => rw [commonSegments, if_pos rfl, ih, List.length_cons]

/-! ## Relative specifiers -/

/-- The directories of a file, from the root. -/
def directories (path : List Char) : List (List Char) := (segments path).dropLast

/-- The number of directories that two files share. -/
def sharedDirectories (source target : List Char) : Nat :=
  commonSegments (directories source) (directories target)

theorem sharedDirectories_le (source target : List Char) :
    sharedDirectories source target ≤ (directories source).length :=
  (commonSegments_le _ _).1

theorem sharedDirectories_lt (source target : List Char) :
    sharedDirectories source target < (segments target).length := by
  have hle : sharedDirectories source target ≤ (directories target).length :=
    (commonSegments_le _ _).2
  have hpos := List.length_pos_iff.2 (segments_ne_nil target)
  rw [directories, List.length_dropLast] at hle
  omega

theorem take_sharedDirectories (source target : List Char) :
    (directories source).take (sharedDirectories source target) =
      (segments target).take (sharedDirectories source target) := by
  have hlt := sharedDirectories_lt source target
  calc (directories source).take (sharedDirectories source target)
      = (directories target).take (sharedDirectories source target) := take_commonSegments _ _
    _ = (segments target).take (sharedDirectories source target) := by
      rw [directories, List.dropLast_eq_take, List.take_take, Nat.min_eq_left (by omega)]

/-- How far a specifier leads up, from the directory of the importing file. -/
def upward (source target : List Char) : List (List Char) :=
  match (directories source).length - sharedDirectories source target with
  | 0 => [['.']]
  | n => List.replicate n parentSegment

/-- A specifier leads up as far as the directories differ, then down. -/
theorem segments_relativeSpecifier (source target : List Char) :
    segments (relativeSpecifier source target) =
      upward source target ++ (segments target).drop (sharedDirectories source target) := by
  let rest := (segments target).drop (sharedDirectories source target)
  have hrest : segments (joinSegments rest) = rest := by
    refine segments_joinSegments ?_ fun segment h => ?_
    · have := sharedDirectories_lt source target
      rw [ne_eq, List.drop_eq_nil_iff]
      omega
    · exact slash_notMem_of_mem_segments (List.mem_of_mem_drop h)
  show segments (match (directories source).length - sharedDirectories source target with
    | 0 => ['.', '/'] ++ joinSegments rest
    | n => stepsUp n ++ joinSegments rest) = _
  unfold upward
  split
  · show segments (['.'] ++ '/' :: joinSegments rest) = _
    rw [segments_append_slash (by decide), hrest]
    rfl
  · rw [segments_stepsUp, hrest]

/-- Leading up leaves the directories that are not shared. -/
theorem follow_upward (h : IsPlainPath source) (target : List Char) :
    follow (directoryOf source) (upward source target) =
      ((segments target).take (sharedDirectories source target)).reverse := by
  have hnames : ∀ segment ∈ directories source, IsName segment :=
    fun segment hmem => h segment ((List.dropLast_sublist _).subset hmem)
  have hparents : follow (directoryOf source) (upward source target) =
      follow (directoryOf source) (List.replicate
        ((directories source).length - sharedDirectories source target) parentSegment) := by
    unfold upward
    split
    · rename_i hzero
      rw [hzero]
      rfl
    · rfl
  let behind := ((directories source).drop (sharedDirectories source target)).reverse
  have hbehind : behind.length =
      (directories source).length - sharedDirectories source target := by
    rw [List.length_reverse, List.length_drop]
  have hsplit : directoryOf source =
      behind ++ ((directories source).take (sharedDirectories source target)).reverse := by
    rw [← List.reverse_append, List.take_append_drop]
    exact (follow_of_isName hnames []).trans (List.append_nil _)
  rw [hparents, hsplit, ← hbehind, ← take_sharedDirectories]
  exact follow_parents (fun segment hmem =>
    hnames segment (List.mem_of_mem_drop (List.mem_reverse.1 hmem))) _

/-- A specifier leads from the directory of a plain path to the imported file. -/
theorem follow_relativeSpecifier (h : IsPlainPath source) (target : List Char) :
    follow (directoryOf source) (segments (relativeSpecifier source target)) = placeOf target := by
  have hshared : ∀ segment ∈ (segments target).take (sharedDirectories source target),
      IsName segment := by
    intro segment hmem
    rw [← take_sharedDirectories] at hmem
    exact h segment ((List.dropLast_sublist _).subset (List.mem_of_mem_take hmem))
  rw [segments_relativeSpecifier, follow_append, follow_upward h]
  calc follow ((segments target).take (sharedDirectories source target)).reverse
        ((segments target).drop (sharedDirectories source target))
      = follow (follow [] ((segments target).take (sharedDirectories source target)))
          ((segments target).drop (sharedDirectories source target)) := by
        rw [follow_of_isName hshared, List.append_nil]
    _ = placeOf target := by rw [← follow_append, List.take_append_drop, placeOf]

/-- The place of a plain path has its segments. -/
theorem placeOf_of_isPlainPath (h : IsPlainPath path) : placeOf path = (segments path).reverse := by
  rw [placeOf, follow_of_isName h, List.append_nil]

theorem segments_injective {path path' : List Char} (h : segments path = segments path') :
    path = path' := by
  rw [← joinSegments_segments path, h, joinSegments_segments]

theorem sharedDirectories_self (path : List Char) :
    sharedDirectories path path = (directories path).length := commonSegments_self _

/-- A file that shares all directories of another. -/
theorem segments_of_shared (h : sharedDirectories source target = (directories source).length) :
    segments target =
      directories source ++ (segments target).drop (directories source).length := by
  have htake := take_sharedDirectories source target
  rw [h, List.take_length] at htake
  calc segments target
      = (segments target).take (directories source).length ++
          (segments target).drop (directories source).length := (List.take_append_drop _ _).symm
    _ = directories source ++ (segments target).drop (directories source).length := by
      rw [← htake]

/-- Only the file itself has the specifier by which a file would import
itself. -/
theorem relativeSpecifier_eq_self_iff :
    relativeSpecifier source target = relativeSpecifier source source ↔ target = source := by
  refine ⟨fun h => segments_injective ?_, fun h => by rw [h]⟩
  have hsegments := congrArg segments h
  rw [segments_relativeSpecifier, segments_relativeSpecifier, upward, upward,
    sharedDirectories_self, Nat.sub_self] at hsegments
  split at hsegments
  · rename_i hzero
    have hall : sharedDirectories source target = (directories source).length :=
      Nat.le_antisymm (sharedDirectories_le source target) (Nat.sub_eq_zero_iff_le.1 hzero)
    rw [hall] at hsegments
    rw [segments_of_shared hall, List.append_cancel_left hsegments,
      ← segments_of_shared (sharedDirectories_self source)]
  · rename_i hup
    -- a specifier that leads up does not start like one that stays
    obtain ⟨n, hn⟩ := Nat.exists_eq_succ_of_ne_zero hup
    rw [hn] at hsegments
    exact absurd (List.cons.inj hsegments).1 (by decide)

end TypeExport
