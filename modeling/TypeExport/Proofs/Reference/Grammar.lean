import Mathlib.Data.Set.List
import TypeExport.Proofs.Reference.Spelling
import TypeExport.Reference.Parser

/-!
# The grammar of references

The machine that reads references is inverse to `TypeRef.tokens`.  A state has
read certain tokens (`ParseState.tokens`).  Every step adds its token to them
(`ParseState.tokens_of_step`), and at the end they are the tokens of the result.
The other way round, the tokens of a reference lead to that reference from any
open generics (`ParseState.steps_tokens`).

So a text is read as a reference exactly when it spells the tokens of that
reference (`TypeRef.parse_eq_ok_iff`), and the texts that are read are those of
the grammar `IsReference` (`TypeRef.parse_inverts_tokens`).
-/

namespace TypeExport

/-! ## Canonical tokens -/

section Spaced

variable {t : Token} {ts ts' : List Token}

theorem Spaced.cons (h : Spaced ts) (ht : t.isName = false) : Spaced (t :: ts) :=
  List.isChain_cons.2 ⟨fun _ _ => .inl ht, h⟩

theorem Spaced.append (h : Spaced ts) (h' : Spaced ts')
    (hhead : ∀ t ∈ ts'.head?, t.isName = false) : Spaced (ts ++ ts') :=
  List.IsChain.append h h' fun _ _ t ht => .inr (hhead t ht)

end Spaced

namespace TypeRef

theorem tailTokens_head (rs : List TypeRef) : ∀ t ∈ (tailTokens rs).head?, t.isName = false := by
  cases rs <;> (rintro t ⟨⟩; rfl)

mutual

/-- In the tokens of a reference no two paths stand side by side. -/
theorem spaced_tokens : ∀ r : TypeRef, Spaced r.tokens
  | .named name [] => List.isChain_singleton _
  | .named name (a :: as) => by
    have inner : Spaced (a.tokens ++ tailTokens as) :=
      (spaced_tokens a).append (spaced_tailTokens as) (tailTokens_head as)
    rw [tokens]
    refine List.isChain_cons.2 ⟨?_, inner.cons rfl⟩
    rintro t ⟨⟩
    exact .inr rfl
  | .array element => by
    rw [tokens]
    exact (spaced_tokens element).append (List.isChain_singleton _) (by rintro t ⟨⟩; rfl)
  | .nullable underlying => by
    rw [tokens]
    exact (spaced_tokens underlying).append (List.isChain_singleton _) (by rintro t ⟨⟩; rfl)

theorem spaced_tailTokens : ∀ rs : List TypeRef, Spaced (tailTokens rs)
  | [] => List.isChain_singleton _
  | a :: as => by
    rw [tailTokens]
    exact ((spaced_tokens a).append (spaced_tailTokens as) (tailTokens_head as)).cons rfl

end

mutual

/-- The paths among the tokens of a reference are its names. -/
theorem path_mem_tokens {name : String} : ∀ r : TypeRef, .path name ∈ r.tokens ↔ name ∈ r.names
  | .named n [] => by simp [tokens, names, namesAll]
  | .named n (a :: as) => by
    simp [tokens, names, namesAll, path_mem_tokens a, path_mem_tailTokens as]
  | .array element => by simp [tokens, names, path_mem_tokens element]
  | .nullable underlying => by simp [tokens, names, path_mem_tokens underlying]

theorem path_mem_tailTokens {name : String} :
    ∀ rs : List TypeRef, .path name ∈ tailTokens rs ↔ name ∈ namesAll rs
  | [] => by simp [tailTokens, namesAll]
  | a :: as => by simp [tailTokens, namesAll, path_mem_tokens a, path_mem_tailTokens as]

end

/-- Whether the names in a reference are paths. -/
def IsProper (r : TypeRef) : Prop := ∀ name ∈ r.names, isPath name = true

theorem isProper_iff {r : TypeRef} : r.IsProper ↔ ∀ t ∈ r.tokens, t.isProper = true := by
  constructor
  · intro h t ht
    cases t with
    | path name => exact h name ((path_mem_tokens r).1 ht)
    | _ => rfl
  · intro h name hname
    exact h _ ((path_mem_tokens r).2 hname)

/-- The tokens of a closed generic whose last argument is singled out. -/
theorem append_tailTokens (done : List TypeRef) (last a : TypeRef) (as : List TypeRef)
    (h : a :: as = done ++ [last]) : a.tokens ++ tailTokens as =
      done.flatMap (fun r => r.tokens ++ [.comma]) ++ (last.tokens ++ [.rightAngle]) := by
  induction done generalizing a as with
  | nil =>
    obtain ⟨rfl, rfl⟩ := List.cons.inj h
    rfl
  | cons d done ih =>
    obtain ⟨rfl, htail⟩ := List.cons.inj h
    cases as with
    | nil => simp at htail
    | cons b bs => rw [tailTokens, ih b bs htail]; simp

theorem tokens_named (name : String) (done : List TypeRef) (last : TypeRef) :
    (named name (done ++ [last])).tokens = .path name :: .leftAngle ::
      (done.flatMap (fun r => r.tokens ++ [.comma]) ++ (last.tokens ++ [.rightAngle])) := by
  cases h : done ++ [last] with
  | nil => simp at h
  | cons a as => rw [tokens, append_tailTokens done last a as h.symm]

end TypeRef

/-! ## What a state has read -/

/-- The tokens of a closed generic up to the argument that is read next. -/
def OpenGeneric.tokens (g : OpenGeneric) : List Token :=
  .path g.name :: .leftAngle :: g.arguments.flatMap fun r => r.tokens ++ [.comma]

/-- The tokens of the reference being read. -/
def Focus.tokens : Focus → List Token
  | .start => []
  | .name path => [.path path]
  | .ready ref => ref.tokens

namespace ParseState

/-- The tokens that lead to a state. -/
def tokens (s : ParseState) : List Token :=
  s.pending.reverse.flatMap OpenGeneric.tokens ++ s.focus.tokens

theorem tokens_of_afterRef {pending : List OpenGeneric} {ref : TypeRef} {t : Token}
    {s : ParseState} (h : afterRef pending ref t = .ok s) :
    s.tokens = pending.reverse.flatMap OpenGeneric.tokens ++ ref.tokens ++ [t] := by
  unfold afterRef at h
  split at h
  · cases h
    simp [tokens, Focus.tokens, TypeRef.tokens]
  · cases h
    simp [tokens, Focus.tokens, TypeRef.tokens]
  · split at h
    · cases h
    · split at h
      · cases h
        simp [tokens, Focus.tokens, OpenGeneric.tokens]
      · cases h
        simp [tokens, Focus.tokens, OpenGeneric.tokens, TypeRef.tokens_named]
      · cases h

/-- A step reads its token. -/
theorem tokens_of_step {s s' : ParseState} {t : Token} (h : s.step t = .ok s') :
    s'.tokens = s.tokens ++ [t] := by
  obtain ⟨pending, focus⟩ := s
  cases focus with
  | start =>
    simp only [step] at h
    split at h
    · cases h
      simp [tokens, Focus.tokens]
    · cases h
  | name path =>
    simp only [step] at h
    split at h
    · cases h
      simp [tokens, Focus.tokens, OpenGeneric.tokens]
    · exact tokens_of_afterRef h
  | ready ref => exact tokens_of_afterRef h

/-- What is read at the end has the tokens that led there. -/
theorem tokens_of_finish {s : ParseState} {r : TypeRef} (h : s.finish = .ok r) :
    r.tokens = s.tokens := by
  obtain ⟨pending, focus⟩ := s
  cases focus with
  | start => cases h
  | name path =>
    cases pending with
    | nil => cases h; rfl
    | cons => cases h
  | ready ref =>
    cases pending with
    | nil => cases h; rfl
    | cons => cases h

/-- What is read from a state has the tokens that led there and those that
follow. -/
theorem tokens_of_run {length : Nat} {s : ParseState} {ls : List Lexeme} {r : TypeRef}
    (h : s.run length ls = .ok r) : r.tokens = s.tokens ++ ls.map (·.token) := by
  induction ls generalizing s with
  | nil =>
    rw [run] at h
    split at h
    · rename_i ref hfinish
      cases h
      simp [tokens_of_finish hfinish]
    · cases h
  | cons l rest ih =>
    rw [run] at h
    split at h
    · rename_i next hstep
      rw [ih h, tokens_of_step hstep]
      simp
    · cases h

/-! ## Where tokens lead -/

/-- The state behind the tokens of a reference. -/
def behind (pending : List OpenGeneric) : TypeRef → ParseState
  | .named name [] => ⟨pending, .name name⟩
  | r => ⟨pending, .ready r⟩

theorem step_behind (pending : List OpenGeneric) (r : TypeRef) {t : Token} (ht : t ≠ .leftAngle) :
    (behind pending r).step t = afterRef pending r t := by
  cases t with
  | leftAngle => exact absurd rfl ht
  | _ =>
    unfold behind
    split <;> rfl

theorem finish_behind (r : TypeRef) : (behind [] r).finish = .ok r := by
  unfold behind
  split <;> rfl

theorem steps_cons {s s' : ParseState} {t : Token} (h : s.step t = .ok s') (ts : List Token) :
    (t :: ts).foldlM step s = ts.foldlM step s' := by
  rw [List.foldlM_cons, h]
  rfl

theorem steps_append {s s' : ParseState} {ts : List Token} (h : ts.foldlM step s = .ok s')
    (ts' : List Token) : (ts ++ ts').foldlM step s = ts'.foldlM step s' := by
  rw [List.foldlM_append, h]
  rfl

mutual

/-- The tokens of a reference lead to the reference. -/
theorem steps_tokens (pending : List OpenGeneric) :
    ∀ r : TypeRef, r.tokens.foldlM step ⟨pending, .start⟩ = .ok (behind pending r)
  | .named name [] => rfl
  | .named name (a :: as) => by
    show (a.tokens ++ TypeRef.tailTokens as).foldlM step ⟨⟨name, []⟩ :: pending, .start⟩ = _
    rw [steps_append (steps_tokens _ a)]
    exact steps_tailTokens pending name [] a as
  | .array element => by
    rw [TypeRef.tokens, steps_append (steps_tokens pending element),
      steps_cons (step_behind pending element (by decide))]
    rfl
  | .nullable underlying => by
    rw [TypeRef.tokens, steps_append (steps_tokens pending underlying),
      steps_cons (step_behind pending underlying (by decide))]
    rfl

/-- The tokens behind an argument lead to the closed generic. -/
theorem steps_tailTokens (pending : List OpenGeneric) (name : String) (done : List TypeRef)
    (a : TypeRef) : ∀ as : List TypeRef,
      (TypeRef.tailTokens as).foldlM step (behind (⟨name, done⟩ :: pending) a) =
        .ok (behind pending (.named name (done ++ a :: as)))
  | [] => by
    rw [TypeRef.tailTokens, steps_cons (step_behind _ a (by decide))]
    cases done <;> rfl
  | b :: bs => by
    have ih := steps_tailTokens pending name (done ++ [a]) b bs
    rw [TypeRef.tailTokens, steps_cons (step_behind _ a (by decide))]
    show (b.tokens ++ TypeRef.tailTokens bs).foldlM step ⟨⟨name, done ++ [a]⟩ :: pending, .start⟩ = _
    rw [steps_append (steps_tokens _ b), ih, List.append_assoc]
    rfl

end

/-- A run follows the steps. -/
theorem run_of_steps {length : Nat} {s s' : ParseState} {ls : List Lexeme} {r : TypeRef}
    (h : (ls.map (·.token)).foldlM step s = .ok s') (hr : s'.finish = .ok r) :
    s.run length ls = .ok r := by
  induction ls generalizing s with
  | nil =>
    cases h
    simp only [run, hr]
  | cons l rest ih =>
    rw [run]
    cases hstep : s.step l.token with
    | error e =>
      rw [List.map_cons, List.foldlM_cons, hstep] at h
      cases h
    | ok next =>
      rw [List.map_cons, steps_cons hstep] at h
      exact ih h

end ParseState

/-! ## Reading and spelling -/

namespace TypeRef

/-- References with the same tokens are the same. -/
theorem tokens_injective : Function.Injective tokens := by
  intro r r' h
  have steps := ParseState.steps_tokens [] r
  rw [h, ParseState.steps_tokens [] r'] at steps
  have finish := ParseState.finish_behind r
  rw [← Except.ok.inj steps, ParseState.finish_behind] at finish
  exact (Except.ok.inj finish).symm

/-- A text is read as a reference exactly when it spells the tokens of the
reference, and the names are paths. -/
theorem parse_eq_ok_iff {text : String} {r : TypeRef} :
    parse text = .ok r ↔ r.IsProper ∧ Spells text.toList r.tokens := by
  constructor
  · intro h
    unfold parse at h
    split at h
    · cases h
    · rename_i ls hls
      obtain ⟨hspells, hproper⟩ := spells_of_lexemes hls
      have htokens : r.tokens = ls.map (·.token) := ParseState.tokens_of_run h
      refine ⟨isProper_iff.2 ?_, htokens ▸ hspells⟩
      rw [htokens]
      exact List.forall_mem_map.2 hproper
  · rintro ⟨hproper, hspells⟩
    obtain ⟨ls, hls, htokens⟩ :=
      exists_lexemes hspells (spaced_tokens r) (isProper_iff.1 hproper) 0
    have steps := ParseState.steps_tokens [] r
    rw [← htokens] at steps
    rw [parse, hls]
    exact ParseState.run_of_steps steps (ParseState.finish_behind r)

/-- The canonical text of a reference. -/
def text (r : TypeRef) : String := String.ofList (r.tokens.flatMap Token.spelling)

theorem spells_spelling (ts : List Token) : Spells (ts.flatMap Token.spelling) ts := by
  induction ts with
  | nil => exact .nil
  | cons t ts ih => exact .token ih

/-- The canonical text of a reference is read back. -/
theorem parse_text {r : TypeRef} (h : r.IsProper) : parse r.text = .ok r := by
  refine parse_eq_ok_iff.2 ⟨h, ?_⟩
  rw [text, String.toList_ofList]
  exact spells_spelling r.tokens

/-! ## The grammar -/

/-- The grammar of references:

    ref ::= path [ '<' ref (',' ref)* '>' ] ( '[]' | '?' )*
-/
inductive IsReference : List Token → Prop
  | name (name : String) : IsReference [.path name]
  | generic (name : String) {first : List Token} {others : List (List Token)} :
      IsReference first → (∀ ts ∈ others, IsReference ts) →
      IsReference (.path name :: .leftAngle ::
        (first ++ (others.flatMap (.comma :: ·) ++ [.rightAngle])))
  | brackets {ts : List Token} : IsReference ts → IsReference (ts ++ [.brackets])
  | question {ts : List Token} : IsReference ts → IsReference (ts ++ [.question])

theorem tailTokens_eq (rs : List TypeRef) :
    tailTokens rs = (rs.map tokens).flatMap (.comma :: ·) ++ [.rightAngle] := by
  induction rs with
  | nil => rfl
  | cons r rs ih => simp [tailTokens, ih]

mutual

theorem isReference_tokens : ∀ r : TypeRef, IsReference r.tokens
  | .named name [] => .name name
  | .named name (a :: as) => by
    rw [tokens, tailTokens_eq]
    exact .generic name (isReference_tokens a)
      (List.forall_mem_map.2 (areReferences_tokens as))
  | .array element => .brackets (isReference_tokens element)
  | .nullable underlying => .question (isReference_tokens underlying)

theorem areReferences_tokens : ∀ rs : List TypeRef, ∀ r ∈ rs, IsReference r.tokens
  | [] => by simp
  | a :: as => List.forall_mem_cons.2 ⟨isReference_tokens a, areReferences_tokens as⟩

end

/-- The grammar derives the canonical tokens of references. -/
theorem isReference_iff {ts : List Token} : IsReference ts ↔ ∃ r : TypeRef, r.tokens = ts := by
  constructor
  · intro h
    induction h with
    | name name => exact ⟨.named name [], rfl⟩
    | @generic name first others _ _ ihfirst ihothers =>
      obtain ⟨a, rfl⟩ := ihfirst
      obtain ⟨as, rfl⟩ : others ∈ Set.range (List.map tokens) := by
        rw [Set.range_list_map]
        exact ihothers
      exact ⟨.named name (a :: as), by rw [tokens, tailTokens_eq]⟩
    | brackets _ ih =>
      obtain ⟨r, rfl⟩ := ih
      exact ⟨.array r, rfl⟩
    | question _ ih =>
      obtain ⟨r, rfl⟩ := ih
      exact ⟨.nullable r, rfl⟩
  · rintro ⟨r, rfl⟩
    exact isReference_tokens r

/-! ## Suffixes -/

/-- A reference with a suffix, which is nothing for any other token. -/
def withSuffix (r : TypeRef) : Token → TypeRef
  | .brackets => .array r
  | .question => .nullable r
  | _ => r

theorem tokens_foldl_withSuffix (r : TypeRef) (suffixes : List Token)
    (h : ∀ t ∈ suffixes, t = .brackets ∨ t = .question) :
    (suffixes.foldl withSuffix r).tokens = r.tokens ++ suffixes ∧
      (suffixes.foldl withSuffix r).names = r.names := by
  induction suffixes generalizing r with
  | nil => exact ⟨(List.append_nil _).symm, rfl⟩
  | cons t ts ih =>
    obtain ⟨htokens, hnames⟩ :=
      ih (r.withSuffix t) fun t' ht' => h t' (List.mem_cons_of_mem _ ht')
    rw [List.foldl_cons, htokens, hnames]
    rcases h t List.mem_cons_self with rfl | rfl
    · exact ⟨by simp [withSuffix, tokens], rfl⟩
    · exact ⟨by simp [withSuffix, tokens], rfl⟩

/-! ## Reading inverts spelling -/

/-- A text is read as a reference exactly when it spells the tokens of the
reference.  What is read names types by paths only.  A text is read at all
exactly when it spells tokens of the grammar.  Suffixes nest from left to
right. -/
theorem parse_inverts_tokens :
    (∀ (text : String) (r : TypeRef), r.IsProper →
      (parse text = .ok r ↔ Spells text.toList r.tokens)) ∧
    (∀ (text : String) (r : TypeRef), parse text = .ok r → r.IsProper) ∧
    (∀ text : String, (∃ r, parse text = .ok r) ↔
      ∃ ts, IsReference ts ∧ (∀ t ∈ ts, t.isProper = true) ∧ Spells text.toList ts) ∧
    ∀ (text : String) (r : TypeRef) (suffixes : List Token), r.IsProper →
      (∀ t ∈ suffixes, t = .brackets ∨ t = .question) →
      Spells text.toList (r.tokens ++ suffixes) → parse text = .ok (suffixes.foldl withSuffix r) := by
  refine ⟨?_, ?_, ?_, ?_⟩
  · intro text r hr
    rw [parse_eq_ok_iff]
    exact and_iff_right hr
  · intro text r h
    exact (parse_eq_ok_iff.1 h).1
  · intro text
    constructor
    · rintro ⟨r, h⟩
      obtain ⟨hproper, hspells⟩ := parse_eq_ok_iff.1 h
      exact ⟨r.tokens, isReference_tokens r, isProper_iff.1 hproper, hspells⟩
    · rintro ⟨ts, href, hproper, hspells⟩
      obtain ⟨r, rfl⟩ := isReference_iff.1 href
      exact ⟨r, parse_eq_ok_iff.2 ⟨isProper_iff.2 hproper, hspells⟩⟩
  · intro text r suffixes hr hsuffixes hspells
    obtain ⟨htokens, hnames⟩ := tokens_foldl_withSuffix r suffixes hsuffixes
    refine parse_eq_ok_iff.2 ⟨?_, htokens ▸ hspells⟩
    rw [IsProper, hnames]
    exact hr

/-- A path with blanks and two suffixes is a nullable array. -/
theorem parse_inverts_tokens_path : (named "A.B" []).IsProper ∧
    Spells " A.B []?".toList ((named "A.B" []).tokens ++ [.brackets, .question]) ∧
    parse " A.B []?" = .ok (.nullable (.array (.named "A.B" []))) := by
  have hproper : (named "A.B" []).IsProper := by simp [IsProper, names, namesAll]; decide
  have hspells : Spells " A.B []?".toList ((named "A.B" []).tokens ++ [.brackets, .question]) :=
    .blank rfl (.token (t := .path "A.B") (.blank rfl (.token (t := .brackets)
      (.token (t := .question) .nil))))
  exact ⟨hproper, hspells, parse_inverts_tokens.2.2.2 _ _ _ hproper (by simp) hspells⟩

end TypeRef

end TypeExport
