import TypeExport.Reference.Parser

/-!
# The names in a reference

A reference that was read names types by paths only: identifiers joined by
dots, as the tokens spell them.  The machine that reads tokens keeps this of
everything it holds.
-/

namespace TypeExport

/-- Whether a name has only the characters of a path. -/
def IsPathText (name : String) : Prop := ∀ c ∈ name.toList, isIdentPart c = true ∨ c = '.'

namespace TypeRef

mutual

/-- The names in a reference. -/
def names : TypeRef → List String
  | .named name arguments => name :: namesAll arguments
  | .array element => element.names
  | .nullable underlying => underlying.names

/-- The names in several references. -/
def namesAll : List TypeRef → List String
  | [] => []
  | r :: rs => r.names ++ namesAll rs

end

/-- Whether a reference names types by paths only. -/
def NamesPaths (r : TypeRef) : Prop := ∀ name ∈ r.names, IsPathText name

theorem mem_namesAll {name : String} {rs : List TypeRef} :
    name ∈ namesAll rs ↔ ∃ r ∈ rs, name ∈ r.names := by
  induction rs with
  | nil => simp [namesAll]
  | cons r rs ih => simp [namesAll, ih]

theorem forall_mem_names_named {p : String → Prop} {name : String} {arguments : List TypeRef} :
    (∀ n ∈ (TypeRef.named name arguments).names, p n) ↔
      p name ∧ ∀ r ∈ arguments, ∀ n ∈ r.names, p n := by
  simp only [names, List.mem_cons, mem_namesAll]
  constructor
  · intro h
    exact ⟨h name (.inl rfl), fun r hr n hn => h n (.inr ⟨r, hr, hn⟩)⟩
  · rintro ⟨hname, harguments⟩ n (rfl | ⟨r, hr, hn⟩)
    · exact hname
    · exact harguments r hr n hn

theorem namesPaths_named {name : String} {arguments : List TypeRef} :
    (TypeRef.named name arguments).NamesPaths ↔
      IsPathText name ∧ ∀ r ∈ arguments, r.NamesPaths := forall_mem_names_named

theorem namesPaths_array {r : TypeRef} : (TypeRef.array r).NamesPaths ↔ r.NamesPaths := Iff.rfl

theorem namesPaths_nullable {r : TypeRef} : (TypeRef.nullable r).NamesPaths ↔ r.NamesPaths :=
  Iff.rfl

end TypeRef

/-! ## Tokens -/

theorem isIdentPart_of_isIdentStart {c : Char} (h : isIdentStart c = true) :
    isIdentPart c = true := by
  simp only [isIdentStart, isIdentPart, Char.isAlphanum, Bool.or_eq_true] at h ⊢
  rcases h with hletter | hunderscore
  · exact .inl (.inl hletter)
  · exact .inr hunderscore

theorem isPathText_pathTail (cs : List Char) :
    ∀ c ∈ (pathTail cs).1, isIdentPart c = true ∨ c = '.' := by
  fun_induction pathTail cs with
  | case1 => simp
  | case2 c h => simp [h]
  | case3 => simp
  | case4 c d rest h more behind hsplit ih =>
    intro e he
    rcases List.mem_cons.1 he with rfl | hmore
    · exact .inl h
    · exact ih e (by rwa [hsplit])
  | case5 c d rest _ h more behind hsplit ih =>
    obtain ⟨hdot, hstart⟩ : c = '.' ∧ isIdentStart d = true := by simpa using h
    intro e he
    rcases List.mem_cons.1 he with rfl | htail
    · exact .inr hdot
    · rcases List.mem_cons.1 htail with rfl | hmore
      · exact .inl (isIdentPart_of_isIdentStart hstart)
      · exact ih e (by rwa [hsplit])
  | case6 => simp

theorem isPathText_of_munch {c : Char} {rest behind : List Char} {name : String}
    (h : munch c rest = some (.path name, behind)) : IsPathText name := by
  unfold munch at h
  split at h
  · simp at h
  split at h
  · simp at h
  split at h
  · simp at h
  split at h
  · simp at h
  split at h
  · split at h <;> simp at h
  split at h
  case isFalse => simp at h
  case isTrue hstart =>
    obtain ⟨hname, -⟩ : String.ofList (c :: (pathTail rest).1) = name ∧ _ := by simpa using h
    intro d hd
    rw [← hname, String.toList_ofList] at hd
    rcases List.mem_cons.1 hd with rfl | hmore
    · exact .inl (isIdentPart_of_isIdentStart hstart)
    · exact isPathText_pathTail rest d hmore

/-- The paths among tokens. -/
theorem isPathText_of_lexemes {offset : Nat} {cs : List Char} {ls : List Lexeme}
    (h : lexemes offset cs = .ok ls) :
    ∀ l ∈ ls, ∀ name, l.token = .path name → IsPathText name := by
  fun_induction lexemes offset cs generalizing ls with
  | case1 =>
    cases h
    simp
  | case2 offset c rest _ ih => exact ih h
  | case3 => cases h
  | case4 => cases h
  | case5 offset c rest _ token behind hmunch stop more hlex =>
    rename_i ih
    cases h
    intro l hl name hname
    rcases List.mem_cons.1 hl with rfl | hin
    · subst hname
      exact isPathText_of_munch hmunch
    · exact ih hlex l hin name hname

/-! ## The machine -/

namespace ParseState

/-- Whether a state holds references that name types by paths only. -/
structure NamesPaths (s : ParseState) : Prop where
  /-- The names in front of open arguments. -/
  name : ∀ g ∈ s.pending, IsPathText g.name
  /-- The complete arguments. -/
  argument : ∀ g ∈ s.pending, ∀ r ∈ g.arguments, r.NamesPaths
  /-- What is being read. -/
  focus : match s.focus with
    | .start => True
    | .name path => IsPathText path
    | .ready ref => ref.NamesPaths

theorem namesPaths_initial : initial.NamesPaths := ⟨by simp [initial], by simp [initial], trivial⟩

theorem namesPaths_afterRef {pending : List OpenGeneric} {ref : TypeRef} {token : Token}
    {s : ParseState} (hname : ∀ g ∈ pending, IsPathText g.name)
    (hargument : ∀ g ∈ pending, ∀ r ∈ g.arguments, r.NamesPaths) (href : ref.NamesPaths)
    (h : afterRef pending ref token = .ok s) : s.NamesPaths := by
  unfold afterRef at h
  split at h
  · cases h
    exact ⟨hname, hargument, href⟩
  · cases h
    exact ⟨hname, hargument, href⟩
  · split at h
    · cases h
    · rename_i g outer
      have harguments : ∀ r ∈ g.arguments ++ [ref], r.NamesPaths := by
        intro r hr
        rcases List.mem_append.1 hr with hold | hnew
        · exact hargument g List.mem_cons_self r hold
        · rw [List.mem_singleton.1 hnew]
          exact href
      have hgname := hname g List.mem_cons_self
      split at h
      · cases h
        refine ⟨?_, ?_, trivial⟩
        · intro g' hg'
          rcases List.mem_cons.1 hg' with rfl | houter
          · exact hgname
          · exact hname g' (List.mem_cons_of_mem _ houter)
        · intro g' hg'
          rcases List.mem_cons.1 hg' with rfl | houter
          · exact harguments
          · exact hargument g' (List.mem_cons_of_mem _ houter)
      · cases h
        exact ⟨fun g' hg' => hname g' (List.mem_cons_of_mem _ hg'),
          fun g' hg' => hargument g' (List.mem_cons_of_mem _ hg'),
          TypeRef.namesPaths_named.2 ⟨hgname, harguments⟩⟩
      · cases h

theorem NamesPaths.step {s t : ParseState} {token : Token} (hs : s.NamesPaths)
    (htoken : ∀ name, token = .path name → IsPathText name) (h : s.step token = .ok t) :
    t.NamesPaths := by
  obtain ⟨pending, focus⟩ := s
  have hname := hs.name
  have hargument := hs.argument
  have hfocus := hs.focus
  cases focus with
  | start =>
    simp only [ParseState.step] at h
    split at h
    · cases h
      exact ⟨hname, hargument, htoken _ rfl⟩
    · cases h
  | name path =>
    simp only [ParseState.step] at h
    split at h
    · cases h
      refine ⟨?_, ?_, trivial⟩
      · intro g hg
        rcases List.mem_cons.1 hg with rfl | hold
        · exact hfocus
        · exact hname g hold
      · intro g hg r hr
        rcases List.mem_cons.1 hg with rfl | hold
        · cases hr
        · exact hargument g hold r hr
    · exact namesPaths_afterRef hname hargument
        (TypeRef.namesPaths_named.2 ⟨hfocus, by simp⟩) h
  | ready ref => exact namesPaths_afterRef hname hargument hfocus h

theorem NamesPaths.run {length : Nat} {s : ParseState} {ls : List Lexeme} {ref : TypeRef}
    (hs : s.NamesPaths) (hls : ∀ l ∈ ls, ∀ name, l.token = .path name → IsPathText name)
    (h : s.run length ls = .ok ref) : ref.NamesPaths := by
  induction ls generalizing s with
  | nil =>
    obtain ⟨pending, focus⟩ := s
    have hfocus := hs.focus
    cases focus with
    | start => cases h
    | name path =>
      cases pending with
      | nil =>
        cases h
        exact TypeRef.namesPaths_named.2 ⟨hfocus, by simp⟩
      | cons => cases h
    | ready r =>
      cases pending with
      | nil =>
        cases h
        exact hfocus
      | cons => cases h
  | cons l rest ih =>
    rw [ParseState.run] at h
    split at h
    · rename_i next hstep
      exact ih (hs.step (hls l List.mem_cons_self) hstep)
        (fun l' hl' => hls l' (List.mem_cons_of_mem _ hl')) h
    · cases h

end ParseState

/-- A reference that was read names types by paths only. -/
theorem TypeRef.namesPaths_of_parse {text : String} {ref : TypeRef}
    (h : TypeRef.parse text = .ok ref) : ref.NamesPaths := by
  unfold TypeRef.parse at h
  split at h
  · cases h
  · rename_i ls hls
    exact ParseState.namesPaths_initial.run (isPathText_of_lexemes hls) h

end TypeExport
