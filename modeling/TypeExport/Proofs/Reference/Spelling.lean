import Mathlib.Data.List.Chain
import TypeExport.Proofs.Reference.Names

/-!
# Spelling tokens

A path is written as identifiers joined by dots (`isPath`).  A text spells
tokens when it consists of their characters in order, with any blanks before,
between and behind them (`Spells`).  Reading gives the tokens that a text
spells, if no two paths stand side by side (`exists_lexemes`), and it gives
nothing else (`spells_of_lexemes`).

Two paths side by side may be one path to the reader.  Before any other token
and before a blank a path ends where its name ends, because neither starts with
a character that continues a path.
-/

namespace TypeExport

/-! ## Paths -/

/-- Whether characters are an identifier. -/
def isIdentifier : List Char → Bool
  | [] => false
  | c :: cs => isIdentStart c && cs.all isIdentPart

/-- Whether characters are identifiers joined by dots. -/
def isDotted (cs : List Char) : Bool := (cs.splitOn '.').all isIdentifier

/-- Whether a name is a path. -/
def isPath (name : String) : Bool := isDotted name.toList

/-- Whether characters may stand in a path behind its first character. -/
def continuesPath (cs : List Char) : Bool :=
  match cs.splitOn '.' with
  | [] => false
  | first :: others => first.all isIdentPart && others.all isIdentifier

theorem isDotted_cons (c : Char) (cs : List Char) :
    isDotted (c :: cs) = (isIdentStart c && continuesPath cs) := by
  obtain ⟨first, others, hsplit⟩ := List.exists_cons_of_ne_nil (List.splitOn_ne_nil '.' cs)
  rw [isDotted, continuesPath, List.splitOn_cons_eq_if_modifyHead, hsplit]
  split
  · rename_i hdot
    obtain rfl : c = '.' := by simpa using hdot
    rfl
  · exact Bool.and_assoc ..

theorem continuesPath_cons (c : Char) (cs : List Char) :
    continuesPath (c :: cs) = if c = '.' then isDotted cs else isIdentPart c && continuesPath cs := by
  obtain ⟨first, others, hsplit⟩ := List.exists_cons_of_ne_nil (List.splitOn_ne_nil '.' cs)
  rw [isDotted, continuesPath, continuesPath, List.splitOn_cons_eq_if_modifyHead, hsplit]
  by_cases hdot : c = '.'
  · simp [hdot]
  · simp [hdot, Bool.and_assoc]

theorem continuesPath_of_part {c : Char} {cs : List Char} (h : isIdentPart c = true) :
    continuesPath (c :: cs) = continuesPath cs := by
  have hdot : c ≠ '.' := by
    rintro rfl
    cases h
  rw [continuesPath_cons, if_neg hdot, h, Bool.true_and]

/-- What is read behind the first character of a path continues it. -/
theorem continuesPath_pathTail (cs : List Char) : continuesPath (pathTail cs).1 = true := by
  fun_induction pathTail cs with
  | case1 => rfl
  | case2 c h => rw [continuesPath_of_part h]; rfl
  | case3 => rfl
  | case4 c d rest h more behind hsplit ih =>
    rw [hsplit] at ih
    rw [continuesPath_of_part h, ih]
  | case5 c d rest _ h more behind hsplit ih =>
    obtain ⟨rfl, hstart⟩ : c = '.' ∧ isIdentStart d = true := by simpa using h
    rw [hsplit] at ih
    rw [continuesPath_cons, if_pos rfl, isDotted_cons, hstart, ih, Bool.and_self]
  | case6 => rfl

/-- Whether a text starts with no character that continues a path. -/
def EndsPath (cs : List Char) : Prop := ∀ c ∈ cs.head?, isIdentPart c = false ∧ c ≠ '.'

theorem pathTail_of_endsPath {cs : List Char} (h : EndsPath cs) : pathTail cs = ([], cs) := by
  match cs with
  | [] => rfl
  | [c] => simp [pathTail, (h c rfl).1]
  | c :: d :: rest => simp [pathTail, (h c rfl).1, (h c rfl).2]

theorem pathTail_cons_of_part {c : Char} (h : isIdentPart c = true) (cs : List Char) :
    pathTail (c :: cs) = (c :: (pathTail cs).1, (pathTail cs).2) := by
  cases cs with
  | nil => simp [pathTail, h]
  | cons d rest => simp [pathTail, h]

/-- All that continues a path is read, and what goes on behind it too. -/
theorem pathTail_append_of_continues (rest : List Char) :
    ∀ {p : List Char}, continuesPath p = true →
      pathTail (p ++ rest) = (p ++ (pathTail rest).1, (pathTail rest).2)
  | [], _ => rfl
  | c :: p, h => by
    rw [continuesPath_cons] at h
    split at h
    · rename_i hdot
      subst hdot
      match p with
      | [] => cases h
      | d :: p =>
        obtain ⟨hstart, hp⟩ : isIdentStart d = true ∧ continuesPath p = true := by
          simpa [isDotted_cons] using h
        have ih := pathTail_append_of_continues rest hp
        have hpart : isIdentPart '.' = false := rfl
        simp [pathTail, hpart, hstart, ih]
    · obtain ⟨hpart, hp⟩ : isIdentPart c = true ∧ continuesPath p = true := by simpa using h
      rw [List.cons_append, pathTail_cons_of_part hpart, pathTail_append_of_continues rest hp]
      rfl

/-! ## Tokens -/

namespace Token

/-- The characters of a token. -/
def spelling : Token → List Char
  | .leftAngle => ['<']
  | .rightAngle => ['>']
  | .comma => [',']
  | .brackets => ['[', ']']
  | .question => ['?']
  | .path name => name.toList

/-- Whether a token is a path. -/
def isName : Token → Bool
  | .path _ => true
  | _ => false

/-- Whether the name of a token is a path, if it has one. -/
def isProper : Token → Bool
  | .path name => isPath name
  | _ => true

end Token

theorem ne_of_isIdentPart {c d : Char} (hc : isIdentPart c = true) (hd : isIdentPart d = false) :
    c ≠ d := by
  rintro rfl
  rw [hc] at hd
  cases hd

theorem isBlank_of_isIdentPart {c : Char} (h : isIdentPart c = true) : Text.isBlank c = false := by
  have space := ne_of_isIdentPart (d := ' ') h rfl
  have tab := ne_of_isIdentPart (d := '\t') h rfl
  have feed := ne_of_isIdentPart (d := '\n') h rfl
  have carriage := ne_of_isIdentPart (d := '\r') h rfl
  simp [Text.isBlank, space, tab, feed, carriage]

/-- A character that starts an identifier starts a path. -/
theorem munch_of_isIdentStart {c : Char} (h : isIdentStart c = true) (rest : List Char) :
    munch c rest = some (.path (String.ofList (c :: (pathTail rest).1)), (pathTail rest).2) := by
  have hpart := isIdentPart_of_isIdentStart h
  have left := ne_of_isIdentPart (d := '<') hpart rfl
  have right := ne_of_isIdentPart (d := '>') hpart rfl
  have comma := ne_of_isIdentPart (d := ',') hpart rfl
  have question := ne_of_isIdentPart (d := '?') hpart rfl
  have bracket := ne_of_isIdentPart (d := '[') hpart rfl
  simp [munch, left, right, comma, question, bracket, h]

/-- A token that is read is proper, and its characters and the text behind it
make up the text. -/
theorem spelling_of_munch {c : Char} {rest behind : List Char} {t : Token}
    (h : munch c rest = some (t, behind)) :
    t.spelling ++ behind = c :: rest ∧ t.isProper = true := by
  by_cases hstart : isIdentStart c = true
  · rw [munch_of_isIdentStart hstart] at h
    obtain ⟨rfl, rfl⟩ := Prod.mk.inj (Option.some.inj h)
    constructor
    · simp [Token.spelling, pathTail_append]
    · simp [Token.isProper, isPath, isDotted_cons, hstart, continuesPath_pathTail]
  · unfold munch at h
    split_ifs at h with left right comma question bracket
    · cases h
      exact ⟨by rw [left]; rfl, rfl⟩
    · cases h
      exact ⟨by rw [right]; rfl, rfl⟩
    · cases h
      exact ⟨by rw [comma]; rfl, rfl⟩
    · cases h
      exact ⟨by rw [question]; rfl, rfl⟩
    · split at h
      · cases h
        exact ⟨by rw [bracket]; rfl, rfl⟩
      · cases h

/-- A proper token is read to its end when the text behind it ends a path. -/
theorem munch_spelling {t : Token} {behind : List Char} (ht : t.isProper = true)
    (hb : t.isName = true → EndsPath behind) :
    ∃ c rest, t.spelling ++ behind = c :: rest ∧ Text.isBlank c = false ∧
      munch c rest = some (t, behind) := by
  cases t with
  | leftAngle => exact ⟨'<', behind, rfl, rfl, rfl⟩
  | rightAngle => exact ⟨'>', behind, rfl, rfl, rfl⟩
  | comma => exact ⟨',', behind, rfl, rfl, rfl⟩
  | brackets => exact ⟨'[', ']' :: behind, rfl, rfl, rfl⟩
  | question => exact ⟨'?', behind, rfl, rfl, rfl⟩
  | path name =>
    have hpath : isDotted name.toList = true := ht
    cases hname : name.toList with
    | nil =>
      rw [hname] at hpath
      cases hpath
    | cons c cs =>
      rw [hname, isDotted_cons, Bool.and_eq_true] at hpath
      refine ⟨c, cs ++ behind, by simp [Token.spelling, hname],
        isBlank_of_isIdentPart (isIdentPart_of_isIdentStart hpath.1), ?_⟩
      rw [munch_of_isIdentStart hpath.1, pathTail_append_of_continues behind hpath.2,
        pathTail_of_endsPath (hb rfl), List.append_nil, ← hname, String.ofList_toList]

/-- The token that is read is the longest one that starts there. -/
theorem length_spelling_le_of_munch {c : Char} {rest behind behind' : List Char} {t t' : Token}
    (h : munch c rest = some (t, behind)) (ht' : t'.isProper = true)
    (htext : t'.spelling ++ behind' = c :: rest) : t'.spelling.length ≤ t.spelling.length := by
  by_cases hname : t'.isName = true
  · cases t' with
    | path name =>
      have hpath : isDotted name.toList = true := ht'
      cases hcs : name.toList with
      | nil =>
        rw [hcs] at hpath
        cases hpath
      | cons d ds =>
        rw [hcs, isDotted_cons, Bool.and_eq_true] at hpath
        rw [Token.spelling, hcs, List.cons_append] at htext
        obtain ⟨rfl, rfl⟩ := List.cons.inj htext
        rw [munch_of_isIdentStart hpath.1, pathTail_append_of_continues behind' hpath.2] at h
        cases h
        simp [Token.spelling, hcs]
    | _ => cases hname
  · have hends : t'.isName = true → EndsPath behind' := fun h => absurd h hname
    obtain ⟨d, ds, htext', -, hmunch⟩ := munch_spelling ht' hends
    obtain ⟨rfl, rfl⟩ := List.cons.inj (htext'.symm.trans htext)
    cases hmunch.symm.trans h
    exact le_rfl

/-! ## Texts -/

/-- The texts that spell tokens: the characters of the tokens in order, with
blanks before, between and behind them. -/
inductive Spells : List Char → List Token → Prop
  | nil : Spells [] []
  | blank {c : Char} {cs : List Char} {ts : List Token} : Text.isBlank c = true → Spells cs ts →
      Spells (c :: cs) ts
  | token {t : Token} {cs : List Char} {ts : List Token} : Spells cs ts →
      Spells (t.spelling ++ cs) (t :: ts)

/-- Whether no two paths stand side by side. -/
def Spaced (ts : List Token) : Prop := ts.IsChain fun t t' => t.isName = false ∨ t'.isName = false

/-- A text ends a path unless the first token it spells is a path. -/
theorem Spells.endsPath {cs : List Char} {ts : List Token} (h : Spells cs ts)
    (hts : ∀ t ∈ ts.head?, t.isName = false) : EndsPath cs := by
  cases h with
  | nil => simp [EndsPath]
  | @blank c cs ts hblank _ =>
    rintro d ⟨⟩
    constructor
    · by_contra hpart
      rw [isBlank_of_isIdentPart (by simpa using hpart)] at hblank
      cases hblank
    · rintro rfl
      cases hblank
  | @token t cs ts _ =>
    have ht : t.isName = false := hts t rfl
    cases t with
    | path => cases ht
    | leftAngle => rintro d ⟨⟩; decide
    | rightAngle => rintro d ⟨⟩; decide
    | comma => rintro d ⟨⟩; decide
    | brackets => rintro d ⟨⟩; decide
    | question => rintro d ⟨⟩; decide

/-- A text spells the tokens that are read from it, and they are proper. -/
theorem spells_of_lexemes {offset : Nat} {cs : List Char} {ls : List Lexeme}
    (h : lexemes offset cs = .ok ls) :
    Spells cs (ls.map (·.token)) ∧ ∀ l ∈ ls, l.token.isProper = true := by
  fun_induction lexemes offset cs generalizing ls with
  | case1 =>
    cases h
    exact ⟨.nil, by simp⟩
  | case2 offset c rest hblank ih => exact ⟨.blank hblank (ih h).1, (ih h).2⟩
  | case3 => cases h
  | case4 => cases h
  | case5 offset c rest _ token behind hmunch stop more hlex =>
    rename_i ih
    cases h
    obtain ⟨hspelling, hproper⟩ := spelling_of_munch hmunch
    obtain ⟨hspells, hall⟩ := ih hlex
    rw [← hspelling]
    exact ⟨.token hspells, List.forall_mem_cons.2 ⟨hproper, hall⟩⟩

/-- The tokens that a text spells are read from it, if they are proper and no
two paths stand side by side. -/
theorem exists_lexemes {cs : List Char} {ts : List Token} (h : Spells cs ts) (hs : Spaced ts)
    (hp : ∀ t ∈ ts, t.isProper = true) (offset : Nat) :
    ∃ ls, lexemes offset cs = .ok ls ∧ ls.map (·.token) = ts := by
  induction h generalizing offset with
  | nil => exact ⟨[], by rw [lexemes], rfl⟩
  | @blank c cs ts hblank _ ih =>
    obtain ⟨ls, hls, htokens⟩ := ih hs hp (offset + 1)
    exact ⟨ls, by rw [lexemes, if_pos hblank, hls], htokens⟩
  | @token t cs ts hspells ih =>
    obtain ⟨hhead, htail⟩ := List.isChain_cons.1 hs
    have hends : t.isName = true → EndsPath cs := by
      intro hname
      refine hspells.endsPath fun t' ht' => ?_
      exact (hhead t' ht').resolve_left (by simp [hname])
    obtain ⟨c, rest, htext, hblank, hmunch⟩ := munch_spelling (hp t List.mem_cons_self) hends
    obtain ⟨ls, hls, htokens⟩ :=
      ih htail (fun t' ht' => hp t' (List.mem_cons_of_mem _ ht')) (offset + t.width)
    refine ⟨⟨t, offset, offset + t.width⟩ :: ls, ?_, by rw [List.map_cons, htokens]⟩
    rw [htext, lexemes, if_neg (by simp [hblank])]
    split
    · rename_i hnone
      cases hnone.symm.trans hmunch
    · rename_i t' behind hsome
      cases hsome.symm.trans hmunch
      simp only [hls]

end TypeExport
