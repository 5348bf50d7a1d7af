import TypeExport.Proofs.Reference.Cutting
import TypeExport.Proofs.Reference.Grammar

/-!
# Where reading a reference fails

Tokens are viable when they can be extended to those of a valid reference
(`IsViable`).  The machine that reads references keeps to viable tokens.  In any
state it reaches, some tokens complete the reference: a name if one is missing,
and a `>` for each open generic (`ParseState.exists_completion`).  A token that
it refuses completes nothing, because the tokens of a reference are never
refused (`ParseState.not_isReference_of_refused`).

So an error of the machine stands at the first token behind which nothing is
viable, or at the end of the text (`ParseState.run_error`).  With the place at
which a text stops being cut into tokens this tells the place of every error
(`TypeRef.parse_fails_first`).
-/

namespace TypeExport

/-! ## Viable tokens -/

/-- Whether tokens are those of a reference whose names are paths. -/
def IsValid (ts : List Token) : Prop := TypeRef.IsReference ts ∧ ∀ t ∈ ts, t.isProper = true

/-- Whether tokens can be extended to those of a valid reference. -/
def IsViable (ts : List Token) : Prop := ∃ more, IsValid (ts ++ more)

/-- What viable tokens start with is viable. -/
theorem IsViable.of_append {ts ts' : List Token} (h : IsViable (ts ++ ts')) : IsViable ts := by
  obtain ⟨more, hvalid⟩ := h
  exact ⟨ts' ++ more, by rwa [← List.append_assoc]⟩

theorem IsViable.take {ts : List Token} (h : IsViable ts) (n : Nat) : IsViable (ts.take n) := by
  rw [← List.take_append_drop n ts] at h
  exact h.of_append

namespace ParseState

variable {s s' : ParseState} {ts more : List Token} {t : Token} {problem : ParseProblem}

/-! ## What a state can be completed to -/

/-- Steps read their tokens. -/
theorem tokens_of_steps (h : ts.foldlM step s = .ok s') : s'.tokens = s.tokens ++ ts := by
  induction ts generalizing s with
  | nil =>
    cases h
    simp
  | cons t ts ih =>
    cases hstep : s.step t with
    | error problem =>
      rw [List.foldlM_cons, hstep] at h
      cases h
    | ok next =>
      rw [steps_cons hstep] at h
      rw [ih h, tokens_of_step hstep]
      simp

/-- Whether tokens lead from a state to a reference. -/
def Completes (s : ParseState) (more : List Token) : Prop :=
  ∃ s' r, more.foldlM step s = .ok s' ∧ s'.finish = .ok r

theorem Completes.cons {next : ParseState} (hstep : s.step t = .ok next)
    (h : next.Completes more) : s.Completes (t :: more) := by
  obtain ⟨s', r, hsteps, hr⟩ := h
  exact ⟨s', r, (steps_cons hstep more).trans hsteps, hr⟩

/-- A reference is completed by closing the open generics around it. -/
theorem completes_ready (pending : List OpenGeneric) (ref : TypeRef) :
    Completes ⟨pending, .ready ref⟩ (List.replicate pending.length .rightAngle) := by
  induction pending generalizing ref with
  | nil => exact ⟨_, ref, rfl, rfl⟩
  | cons g outer ih => exact .cons rfl (ih (.named g.name (g.arguments ++ [ref])))

theorem completes_name (pending : List OpenGeneric) (path : String) :
    Completes ⟨pending, .name path⟩ (List.replicate pending.length .rightAngle) := by
  cases pending with
  | nil => exact ⟨_, .named path [], rfl, rfl⟩
  | cons g outer => exact .cons rfl (completes_ready outer _)

/-- Every state can be completed. -/
theorem exists_completion (s : ParseState) :
    ∃ more, s.Completes more ∧ ∀ t ∈ more, t.isProper = true := by
  obtain ⟨pending, focus⟩ := s
  have closing : ∀ t ∈ List.replicate pending.length Token.rightAngle, t.isProper = true := by
    intro t ht
    rw [List.eq_of_mem_replicate ht]
    rfl
  cases focus with
  | start =>
    refine ⟨.path "T" :: _, .cons rfl (completes_name pending "T"), ?_⟩
    exact List.forall_mem_cons.2 ⟨by decide, closing⟩
  | name path => exact ⟨_, completes_name pending path, closing⟩
  | ready ref => exact ⟨_, completes_ready pending ref, closing⟩

/-- The tokens that lead to a state are viable. -/
theorem isViable_of_steps (h : ts.foldlM step initial = .ok s)
    (hproper : ∀ t ∈ ts, t.isProper = true) : IsViable ts := by
  obtain ⟨more, ⟨s', r, hsteps, hr⟩, hmore⟩ := s.exists_completion
  have htokens : r.tokens = ts ++ more := by
    rw [tokens_of_finish hr, tokens_of_steps hsteps, tokens_of_steps h]
    rfl
  refine ⟨more, htokens ▸ TypeRef.isReference_tokens r, ?_⟩
  intro t ht
  exact (List.mem_append.1 ht).elim (hproper t) (hmore t)

/-! ## What a state refuses -/

/-- The tokens of a reference lead to it. -/
theorem steps_of_isReference (h : TypeRef.IsReference ts) :
    ∃ r, ts.foldlM step initial = .ok (behind [] r) := by
  obtain ⟨r, rfl⟩ := TypeRef.isReference_iff.1 h
  exact ⟨r, steps_tokens [] r⟩

/-- No reference goes on with a token that is refused. -/
theorem not_isReference_of_refused (h : ts.foldlM step initial = .ok s)
    (ht : s.step t = .error problem) (more : List Token) :
    ¬ TypeRef.IsReference (ts ++ t :: more) := by
  intro href
  obtain ⟨r, hsteps⟩ := steps_of_isReference href
  rw [steps_append h, List.foldlM_cons, ht] at hsteps
  cases hsteps

/-- Tokens that the end is refused behind are no reference. -/
theorem not_isReference_of_unfinished (h : ts.foldlM step initial = .ok s)
    (hs : s.finish = .error problem) : ¬ TypeRef.IsReference ts := by
  intro href
  obtain ⟨r, hsteps⟩ := steps_of_isReference href
  cases h.symm.trans hsteps
  cases hs.symm.trans (finish_behind r)

/-! ## Errors -/

/-- A run fails at a token that is refused, or at the end. -/
theorem run_error {length : Nat} {ls : List Lexeme} {e : ParseError}
    (h : s.run length ls = .error e) :
    (∃ before l behind s', ls = before ++ l :: behind ∧ e.span = l.span ∧
      (before.map (·.token)).foldlM step s = .ok s' ∧ s'.step l.token = .error e.problem) ∨
    (e.span = ⟨length, length⟩ ∧ ∃ s', (ls.map (·.token)).foldlM step s = .ok s' ∧
      s'.finish = .error e.problem) := by
  induction ls generalizing s with
  | nil =>
    rw [run] at h
    split at h
    · cases h
    · rename_i problem hfinish
      cases h
      exact .inr ⟨rfl, s, rfl, hfinish⟩
  | cons l rest ih =>
    rw [run] at h
    split at h
    · rename_i next hstep
      rcases ih h with ⟨before, l', behind, s', rfl, hspan, hsteps, hl'⟩ | ⟨hspan, s', hsteps, hs'⟩
      · refine .inl ⟨l :: before, l', behind, s', rfl, hspan, ?_, hl'⟩
        exact (steps_cons hstep _).trans hsteps
      · exact .inr ⟨hspan, s', (steps_cons hstep _).trans hsteps, hs'⟩
    · rename_i problem hstep
      cases h
      exact .inl ⟨[], l, rest, s, rfl, rfl, rfl, hstep⟩

end ParseState

/-! ## Texts -/

namespace TypeRef

/-- Whether an error stands at the first lexeme up to which the tokens are not
viable. -/
def FailsAtToken (ls : List Lexeme) (span : Span) : Prop :=
  ∃ i l, ls[i]? = some l ∧ span = l.span ∧
    (∀ j ≤ i, IsViable ((ls.take j).map (·.token))) ∧
    ¬ IsViable ((ls.take (i + 1)).map (·.token))

/-- Whether an error stands at the end of a text, where a valid reference would
go on. -/
def FailsAtEnd (text : String) (ls : List Lexeme) (span : Span) : Prop :=
  span = ⟨text.utf8ByteSize, text.utf8ByteSize⟩ ∧ ¬ IsValid (ls.map (·.token)) ∧
    ∃ more, more ≠ [] ∧ IsValid (ls.map (·.token) ++ more)

/-- Reading tokens fails at the first that no valid reference goes on with, or
at the end. -/
theorem fails_of_run {text : String} {ls : List Lexeme} {e : ParseError}
    (hproper : ∀ l ∈ ls, l.token.isProper = true)
    (h : ParseState.initial.run text.utf8ByteSize ls = .error e) :
    FailsAtToken ls e.span ∨ FailsAtEnd text ls e.span := by
  have htokens : ∀ t ∈ ls.map (·.token), t.isProper = true := List.forall_mem_map.2 hproper
  rcases ParseState.run_error h with
    ⟨before, l, behind, s, rfl, hspan, hsteps, hl⟩ | ⟨hspan, s, hsteps, hs⟩
  · refine .inl ⟨before.length, l, by simp, hspan, ?_, ?_⟩
    · have viable : IsViable (before.map (·.token)) :=
        ParseState.isViable_of_steps hsteps fun t ht => htokens t (by simp_all)
      intro j hj
      rw [List.take_append_of_le_length hj, List.map_take]
      exact viable.take j
    · rintro ⟨more, hvalid, -⟩
      refine ParseState.not_isReference_of_refused hsteps hl more ?_
      simpa [List.take_append, List.take_of_length_le] using hvalid
  · have hno := ParseState.not_isReference_of_unfinished hsteps hs
    obtain ⟨more, hvalid⟩ := ParseState.isViable_of_steps hsteps htokens
    refine .inr ⟨hspan, fun hall => hno hall.1, more, ?_, hvalid⟩
    rintro rfl
    rw [List.append_nil] at hvalid
    exact hno hvalid.1

/-- Where the error of a text that is refused stands.  It covers whole
characters of the text.  If the text cannot be cut into tokens, then it covers
the one character at which the cut stops, because neither a blank nor a token
starts there.  Else it covers the first token such that a valid reference goes
on behind the tokens before it and none goes on behind the token itself, or it
is empty and stands at the end of the text, when the tokens are only the start
of a valid reference. -/
theorem parse_fails_first {text : String} {e : ParseError} (h : parse text = .error e) :
    (∃ before here behind, text.toList = before ++ here ++ behind ∧
      e.span.Covers 0 before here) ∧
    ((¬ ∃ ls, Cuts 0 text.toList ls []) → ∃ ls before c behind,
      text.toList = before ++ c :: behind ∧ Cuts 0 text.toList ls (c :: behind) ∧
      StartsNothing (c :: behind) ∧ e.span.Covers 0 before [c]) ∧
    ∀ ls, Cuts 0 text.toList ls [] → FailsAtToken ls e.span ∨ FailsAtEnd text ls e.span := by
  rcases lexemes_cases 0 text.toList with
    ⟨ls, hls, hcuts⟩ | ⟨ls, before, c, behind, htext, hcuts, hnothing, span, hspan, herror⟩
  · rw [parse, hls] at h
    have hfails := fails_of_run (fun l hl => (hcuts.covers l hl).1) h
    refine ⟨?_, fun hno => absurd ⟨ls, hcuts⟩ hno, ?_⟩
    · rcases hfails with ⟨i, l, hl, hspan, -⟩ | ⟨hspan, -⟩
      · obtain ⟨-, before, behind, htext, hcovers⟩ := hcuts.covers l (List.mem_of_getElem? hl)
        exact ⟨before, _, behind, htext, hspan ▸ hcovers⟩
      · refine ⟨text.toList, [], [], by simp, ?_⟩
        rw [hspan, Span.Covers, List.append_nil, bytes_toList, Nat.zero_add]
    · intro ls' hcuts'
      cases hls.symm.trans hcuts'.lexemes_eq
      exact hfails
  · rw [parse, herror] at h
    cases h
    refine ⟨⟨before, [c], behind, by simp [htext], hspan⟩, ?_, ?_⟩
    · exact fun _ => ⟨ls, before, c, behind, htext, hcuts, hnothing, hspan⟩
    · intro ls' hcuts'
      cases herror.symm.trans hcuts'.lexemes_eq

/-- The error of a text that is refused. -/
def failure? (text : String) : Option ParseError :=
  match parse text with
  | .ok _ => none
  | .error e => some e

theorem parse_of_failure? {text : String} {e : ParseError} (h : failure? text = some e) :
    parse text = .error e := by
  unfold failure? at h
  split at h
  · cases h
  · rename_i e' hparse
    cases h
    exact hparse

/-- Two names side by side are refused at the second, and a character that
starts nothing is refused before any token. -/
theorem parse_fails_first_names :
    parse "A<B C>" = .error ⟨.expectedSeparator, 4, 5⟩ ∧
    (∃ ls, Cuts 0 "A<B C>".toList ls [] ∧ FailsAtToken ls ⟨4, 5⟩) ∧
    parse "A B§" = .error ⟨.unexpectedCharacter '§', 3, 5⟩ ∧
    ∃ before here behind, "A B§".toList = before ++ here ++ behind ∧
      Span.Covers ⟨3, 5⟩ 0 before here := by
  have names : parse "A<B C>" = .error ⟨.expectedSeparator, 4, 5⟩ :=
    parse_of_failure? (by decide +kernel)
  have sign : parse "A B§" = .error ⟨.unexpectedCharacter '§', 3, 5⟩ :=
    parse_of_failure? (by decide +kernel)
  refine ⟨names, ?_, sign, (parse_fails_first sign).1⟩
  rcases lexemes_cases 0 "A<B C>".toList with ⟨ls, -, hcuts⟩ | ⟨_, _, _, _, -, -, -, _, -, herror⟩
  · rcases (parse_fails_first names).2.2 ls hcuts with htoken | ⟨hspan, -⟩
    · exact ⟨ls, hcuts, htoken⟩
    · cases hspan
  · rw [parse, herror] at names
    cases names

end TypeRef

end TypeExport
