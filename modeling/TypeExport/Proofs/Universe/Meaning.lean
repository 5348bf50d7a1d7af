import TypeExport.Proofs.Reference.Grammar
import TypeExport.Proofs.Universe.Closable

/-!
# Meanings and their keys

What a type is, without the universe that holds it: a built-in type, an open
container, a declared type of a name and a number of parameters, a type
parameter of a declared type, an array, or a definition closed over arguments
(`Meaning`).

The key of a type is written from its meaning (`Meaning.key`), and can be read
back: meanings of proper names with the same key are the same
(`Meaning.key_injective`).  The names in a key have no marks, so the key spells
the tokens of a reference whose names are the keys of what is not composed, and
no two names stand side by side.  Tokens are told apart by their first
character, and the tokens determine the reference.
-/

namespace TypeExport

/-! ## Tokens in keys -/

/-- How a token is written in keys, where a blank follows the comma. -/
def Token.written : Token → List Char
  | .comma => [',', ' ']
  | t => t.spelling

/-- Whether a token may stand in a key. -/
def Token.IsWritten : Token → Prop
  | .path name => name ≠ "" ∧ isPlainKey name = true
  | .question => False
  | _ => True

/-- Whether a text starts with a mark, if it is not empty. -/
def StartsMarked (cs : List Char) : Prop := ∀ c ∈ cs.head?, isKeyMark c = true

section Written

variable {ts ts' : List Token} {t t' : Token}

theorem startsMarked_written (ht : t.IsWritten) (hname : t.isName = false) (cs : List Char) :
    StartsMarked (t.written ++ cs) := by
  cases t with
  | path => cases hname
  | question => exact ht.elim
  | leftAngle => rintro c ⟨⟩; rfl
  | rightAngle => rintro c ⟨⟩; rfl
  | comma => rintro c ⟨⟩; rfl
  | brackets => rintro c ⟨⟩; rfl

/-- What follows a name starts with a mark. -/
theorem startsMarked_of_spaced (hs : Spaced (t :: ts)) (hname : t.isName = true)
    (hts : ∀ t ∈ ts, t.IsWritten) : StartsMarked (ts.flatMap Token.written) := by
  cases ts with
  | nil => rintro c ⟨⟩
  | cons t' ts =>
    have hnext := ((List.isChain_cons.1 hs).1 t' rfl).resolve_left (by simp [hname])
    exact startsMarked_written (hts t' List.mem_cons_self) hnext _

/-- A name ends where a mark starts. -/
theorem append_inj_of_plain {p p' cs cs' : List Char} (hp : ∀ c ∈ p, isKeyMark c = false)
    (hp' : ∀ c ∈ p', isKeyMark c = false) (hcs : StartsMarked cs) (hcs' : StartsMarked cs')
    (h : p ++ cs = p' ++ cs') : p = p' ∧ cs = cs' := by
  induction p generalizing p' with
  | nil =>
    cases p' with
    | nil => exact ⟨rfl, h⟩
    | cons c p' =>
      have hmark := hcs c (by rw [List.nil_append] at h; rw [h]; rfl)
      rw [hp' c List.mem_cons_self] at hmark
      cases hmark
  | cons c p ih =>
    cases p' with
    | nil =>
      have hmark := hcs' c (by rw [List.nil_append] at h; rw [← h]; rfl)
      rw [hp c List.mem_cons_self] at hmark
      cases hmark
    | cons c' p' =>
      obtain ⟨rfl, hrest⟩ := List.cons.inj h
      obtain ⟨rfl, rfl⟩ := ih (fun d hd => hp d (List.mem_cons_of_mem _ hd))
        (fun d hd => hp' d (List.mem_cons_of_mem _ hd)) hrest
      exact ⟨rfl, rfl⟩

theorem not_isKeyMark_of_isPlainKey {name : String} (h : isPlainKey name = true) :
    ∀ c ∈ name.toList, isKeyMark c = false := by
  intro c hc
  simpa using List.all_eq_true.1 h c hc

theorem written_ne_nil (ht : t.IsWritten) : t.written ≠ [] := by
  cases t with
  | path name => exact fun h => ht.1 (String.toList_eq_nil_iff.1 h)
  | question => exact ht.elim
  | leftAngle => exact List.cons_ne_nil _ _
  | rightAngle => exact List.cons_ne_nil _ _
  | comma => exact List.cons_ne_nil _ _
  | brackets => exact List.cons_ne_nil _ _

/-- Names stand apart from marks. -/
theorem not_startsMarked_of_isName (ht : t.IsWritten) (hname : t.isName = true) (cs : List Char) :
    ¬ StartsMarked (t.written ++ cs) := by
  cases t with
  | path name =>
    obtain ⟨hne, hplain⟩ := ht
    obtain ⟨c, rest, hc⟩ := List.exists_cons_of_ne_nil fun h => hne (String.toList_eq_nil_iff.1 h)
    intro hmarked
    have hmark := hmarked c (by simp [Token.written, Token.spelling, hc])
    rw [not_isKeyMark_of_isPlainKey hplain c (by simp [hc])] at hmark
    cases hmark
  | _ => cases hname

/-- Marks are told apart by their first character. -/
theorem append_inj_of_marks {cs cs' : List Char} (ht : t.IsWritten) (ht' : t'.IsWritten)
    (hname : t.isName = false) (hname' : t'.isName = false)
    (h : t.written ++ cs = t'.written ++ cs') : t = t' ∧ cs = cs' := by
  cases t <;> cases t' <;>
    simp_all [Token.written, Token.spelling, Token.IsWritten, Token.isName]

/-- A key tells its first token.  A name ends at a mark, and a mark is no part of
a name. -/
theorem written_cons_inj (hs : Spaced (t :: ts)) (hs' : Spaced (t' :: ts'))
    (hts : ∀ s ∈ t :: ts, s.IsWritten) (hts' : ∀ s ∈ t' :: ts', s.IsWritten)
    (h : t.written ++ ts.flatMap Token.written = t'.written ++ ts'.flatMap Token.written) :
    t = t' ∧ ts.flatMap Token.written = ts'.flatMap Token.written := by
  obtain ⟨ht, hrest⟩ := List.forall_mem_cons.1 hts
  obtain ⟨ht', hrest'⟩ := List.forall_mem_cons.1 hts'
  by_cases hname : t.isName = true
  · by_cases hname' : t'.isName = true
    · cases t with
      | path name =>
        cases t' with
        | path name' =>
          obtain ⟨hnames, hbehind⟩ := append_inj_of_plain
            (not_isKeyMark_of_isPlainKey ht.2) (not_isKeyMark_of_isPlainKey ht'.2)
            (startsMarked_of_spaced hs rfl hrest) (startsMarked_of_spaced hs' rfl hrest') h
          exact ⟨congrArg Token.path (String.toList_inj.1 hnames), hbehind⟩
        | _ => cases hname'
      | _ => cases hname
    · refine absurd ?_ (not_startsMarked_of_isName ht hname (ts.flatMap Token.written))
      rw [h]
      exact startsMarked_written ht' (by simpa using hname') _
  · by_cases hname' : t'.isName = true
    · refine absurd ?_ (not_startsMarked_of_isName ht' hname' (ts'.flatMap Token.written))
      rw [← h]
      exact startsMarked_written ht (by simpa using hname) _
    · exact append_inj_of_marks ht ht' (by simpa using hname) (by simpa using hname') h

/-- A key tells the tokens that it spells. -/
theorem written_injective (hs : Spaced ts) (hs' : Spaced ts') (hts : ∀ t ∈ ts, t.IsWritten)
    (hts' : ∀ t ∈ ts', t.IsWritten)
    (h : ts.flatMap Token.written = ts'.flatMap Token.written) : ts = ts' := by
  induction ts generalizing ts' with
  | nil =>
    cases ts' with
    | nil => rfl
    | cons t' ts' =>
      rw [List.flatMap_cons] at h
      exact absurd (List.append_eq_nil_iff.1 h.symm).1 (written_ne_nil (hts' t' List.mem_cons_self))
  | cons t ts ih =>
    cases ts' with
    | nil =>
      rw [List.flatMap_cons] at h
      exact absurd (List.append_eq_nil_iff.1 h).1 (written_ne_nil (hts t List.mem_cons_self))
    | cons t' ts' =>
      rw [List.flatMap_cons, List.flatMap_cons] at h
      obtain ⟨rfl, hbehind⟩ := written_cons_inj hs hs' hts hts' h
      rw [ih (List.isChain_cons.1 hs).2 (List.isChain_cons.1 hs').2
        (List.forall_mem_cons.1 hts).2 (List.forall_mem_cons.1 hts').2 hbehind]

end Written

/-! ## Meanings -/

/-- What a type is. -/
inductive Meaning where
  | builtin (type : Builtin)
  /-- An open container. -/
  | container (container : Container)
  /-- A declared type, a generic definition when it has parameters. -/
  | declared (name : String) (arity : Nat)
  /-- A type parameter of a declared type. -/
  | parameter (definition : String) (arity : Nat) (name : String)
  | array (element : Meaning)
  /-- A definition closed over arguments. -/
  | closed (definition : Meaning) (arguments : List Meaning)

namespace Meaning

mutual

/-- The key of a type. -/
def key : Meaning → String
  | .builtin b => b.fullName
  | .container c => c.fullName
  | .declared name arity => declaredKey name arity
  | .parameter definition arity name => declaredKey definition arity ++ ":" ++ name
  | .array element => element.key ++ "[]"
  | .closed definition arguments =>
    definition.key ++ "<" ++ ", ".intercalate (keys arguments) ++ ">"

/-- The keys of several types. -/
def keys : List Meaning → List String
  | [] => []
  | m :: ms => m.key :: keys ms

end

/-- Whether a type can be closed over arguments. -/
def IsDefinition : Meaning → Prop
  | .container _ => True
  | .declared _ arity => arity ≠ 0
  | _ => False

/-- Whether the names in a meaning are proper ones.  A declared type has a path
for a name and a key of its own, and a type parameter has an identifier. -/
inductive IsProper : Meaning → Prop
  | builtin (b : Builtin) : IsProper (.builtin b)
  | container (c : Container) : IsProper (.container c)
  | declared {name : String} {arity : Nat} : isPath name = true →
      (∀ b : Builtin, declaredKey name arity ≠ b.fullName) →
      Universe.IsOwnKey (declaredKey name arity) → IsProper (.declared name arity)
  | parameter {definition : String} {arity : Nat} {name : String} : isPath definition = true →
      isIdentifier name.toList = true → IsProper (.parameter definition arity name)
  | array {element : Meaning} : IsProper element → IsProper (.array element)
  | closed {definition : Meaning} {arguments : List Meaning} : definition.IsDefinition →
      IsProper definition → arguments ≠ [] → (∀ a ∈ arguments, IsProper a) →
      IsProper (.closed definition arguments)

/-! ## Keys of what is not composed -/

/-- Whether a type is composed of no others. -/
def IsAtom : Meaning → Prop
  | .array _ | .closed .. => False
  | _ => True

theorem IsDefinition.isAtom {m : Meaning} (h : m.IsDefinition) : m.IsAtom := by
  cases m <;> first | exact trivial | exact h.elim

end Meaning

theorem isPathText_of_dotted (cs : List Char) : isDotted cs = true ∨ continuesPath cs = true →
    ∀ c ∈ cs, isIdentPart c = true ∨ c = '.' := by
  induction cs with
  | nil => simp
  | cons d cs ih =>
    rintro (hdotted | hcontinues)
    · rw [isDotted_cons, Bool.and_eq_true] at hdotted
      exact List.forall_mem_cons.2
        ⟨.inl (isIdentPart_of_isIdentStart hdotted.1), ih (.inr hdotted.2)⟩
    · rw [continuesPath_cons] at hcontinues
      split at hcontinues
      · rename_i hdot
        exact List.forall_mem_cons.2 ⟨.inr hdot, ih (.inl hcontinues)⟩
      · rw [Bool.and_eq_true] at hcontinues
        exact List.forall_mem_cons.2 ⟨.inl hcontinues.1, ih (.inr hcontinues.2)⟩

/-- A path is written with the characters of paths. -/
theorem isPathText_of_isPath {name : String} (h : isPath name = true) : IsPathText name :=
  isPathText_of_dotted name.toList (.inl h)

theorem isPathText_of_isIdentifier {name : String} (h : isIdentifier name.toList = true) :
    IsPathText name := by
  unfold IsPathText
  cases hname : name.toList with
  | nil => simp
  | cons c cs =>
    rw [hname, isIdentifier, Bool.and_eq_true] at h
    exact List.forall_mem_cons.2 ⟨.inl (isIdentPart_of_isIdentStart h.1),
      fun d hd => .inl (List.all_eq_true.1 h.2 d hd)⟩

theorem isPath_ne_empty {name : String} (h : isPath name = true) : name ≠ "" := by
  rintro rfl
  cases h

/-- The characters of a declared key, none of which is a mark or a colon. -/
theorem declaredKey_not_mem {name : String} (h : IsPathText name) (arity : Nat) {c : Char}
    (hpart : isIdentPart c = false) (hdot : c ≠ '.') (haccent : c ≠ '\x60')
    (hdigit : c.isDigit = false) : c ∉ (declaredKey name arity).toList := by
  have hname := h.not_mem hpart hdot
  by_cases harity : arity = 0
  · rw [declaredKey_of_eq_zero harity]
    exact hname
  · rw [declaredKey_of_ne_zero harity]
    simp [Builder.genericKey, hname, haccent, not_mem_toDigits hdigit]

/-- With as many parameters, the key of a declared type tells its name. -/
theorem declaredKey_left_inj {name name' : String} {arity : Nat}
    (h : declaredKey name arity = declaredKey name' arity) : name = name' := by
  by_cases harity : arity = 0
  · rwa [declaredKey_of_eq_zero harity, declaredKey_of_eq_zero harity] at h
  · rw [declaredKey_of_ne_zero harity, declaredKey_of_ne_zero harity] at h
    exact (genericKey_inj.1 h).1

/-- The key of a declared type tells its name and its number of parameters. -/
theorem declaredKey_inj {name name' : String} {arity arity' : Nat} (h : IsPathText name)
    (h' : IsPathText name') (heq : declaredKey name arity = declaredKey name' arity') :
    name = name' ∧ arity = arity' := by
  have haccent : ∀ {n : String}, IsPathText n → ∀ {m : String} {k : Nat},
      n ≠ Builder.genericKey m k := by
    intro n hn m k hnk
    refine hn.not_mem (c := '\x60') rfl (by decide) ?_
    rw [hnk]
    simp [Builder.genericKey]
  by_cases harity : arity = 0
  · by_cases harity' : arity' = 0
    · rw [declaredKey_of_eq_zero harity, declaredKey_of_eq_zero harity'] at heq
      exact ⟨heq, harity.trans harity'.symm⟩
    · rw [declaredKey_of_eq_zero harity, declaredKey_of_ne_zero harity'] at heq
      exact absurd heq (haccent h)
  · by_cases harity' : arity' = 0
    · rw [declaredKey_of_ne_zero harity, declaredKey_of_eq_zero harity'] at heq
      exact absurd heq.symm (haccent h')
    · rw [declaredKey_of_ne_zero harity, declaredKey_of_ne_zero harity'] at heq
      exact genericKey_inj.1 heq

theorem Builtin.ofName?_fullName (b : Builtin) : Builtin.ofName? b.fullName = some b := by
  cases b <;> decide +kernel

theorem Builtin.fullName_injective {b b' : Builtin} (h : b.fullName = b'.fullName) : b = b' := by
  have hname := Builtin.ofName?_fullName b
  rw [h, Builtin.ofName?_fullName] at hname
  exact (Option.some.inj hname).symm

/-- The characters of marks are not those of names. -/
theorem of_isKeyMark {c : Char} (h : isKeyMark c = true) : isIdentPart c = false ∧ c ≠ '.' ∧
    c ≠ '\x60' ∧ c.isDigit = false ∧ c ≠ ':' := by
  simp only [isKeyMark, List.mem_cons, List.not_mem_nil, or_false, decide_eq_true_eq] at h
  rcases h with rfl | rfl | rfl | rfl | rfl | rfl <;> decide

theorem isPlainKey_of_not_mem {key : String} (h : ∀ c, isKeyMark c = true → c ∉ key.toList) :
    isPlainKey key = true := by
  refine List.all_eq_true.2 fun c hc => ?_
  cases hmark : isKeyMark c with
  | true => exact absurd hc (h c hmark)
  | false => rfl

theorem isPlainKey_declaredKey {name : String} (h : IsPathText name) (arity : Nat) :
    isPlainKey (declaredKey name arity) = true := by
  refine isPlainKey_of_not_mem fun c hmark => ?_
  obtain ⟨hpart, hdot, haccent, hdigit, -⟩ := of_isKeyMark hmark
  exact declaredKey_not_mem h arity hpart hdot haccent hdigit

namespace Meaning

theorem declaredKey_ne_empty {name : String} (h : isPath name = true) (arity : Nat) :
    declaredKey name arity ≠ "" := by
  by_cases harity : arity = 0
  · rw [declaredKey_of_eq_zero harity]
    exact isPath_ne_empty h
  · rw [declaredKey_of_ne_zero harity]
    simp [Builder.genericKey]

theorem isPlainKey_declared {name : String} (h : isPath name = true) (arity : Nat) :
    isPlainKey (declaredKey name arity) = true :=
  isPlainKey_declaredKey (isPathText_of_isPath h) arity

/-- The key of what is not composed is a name without marks. -/
theorem IsProper.isWritten {m : Meaning} (h : m.IsProper) (ha : m.IsAtom) :
    (Token.path m.key).IsWritten := by
  cases h with
  | builtin b =>
    show b.fullName ≠ "" ∧ isPlainKey b.fullName = true
    cases b <;> decide
  | container c =>
    show c.fullName ≠ "" ∧ isPlainKey c.fullName = true
    cases c <;> decide
  | declared hpath => exact ⟨declaredKey_ne_empty hpath _, isPlainKey_declared hpath _⟩
  | @parameter definition arity name hpath hname =>
    show declaredKey definition arity ++ ":" ++ name ≠ "" ∧
      isPlainKey (declaredKey definition arity ++ ":" ++ name) = true
    refine ⟨by simp, isPlainKey_of_not_mem fun c hmark => ?_⟩
    obtain ⟨hpart, hdot, haccent, hdigit, hcolon⟩ := of_isKeyMark hmark
    have hdefinition :=
      declaredKey_not_mem (isPathText_of_isPath hpath) arity hpart hdot haccent hdigit
    have hlast := (isPathText_of_isIdentifier hname).not_mem hpart hdot
    simp [hdefinition, hlast, hcolon]
  | array => exact ha.elim
  | closed => exact ha.elim

theorem colon_not_mem_declaredKey {name : String} (h : isPath name = true) (arity : Nat) :
    ':' ∉ (declaredKey name arity).toList :=
  declaredKey_not_mem (isPathText_of_isPath h) arity (by decide) (by decide) (by decide) (by decide)

/-- Only the key of a type parameter has a colon. -/
theorem IsProper.eq_parameter {m : Meaning} (h : m.IsProper) (ha : m.IsAtom)
    (hcolon : ':' ∈ m.key.toList) : ∃ definition arity name,
      m = .parameter definition arity name ∧ isPath definition = true := by
  cases h with
  | builtin b => exact absurd hcolon (colon_not_mem_builtin b)
  | container c => exact absurd hcolon (colon_not_mem_container c)
  | declared hpath => exact absurd hcolon (colon_not_mem_declaredKey hpath _)
  | parameter hpath => exact ⟨_, _, _, rfl, hpath⟩
  | array => exact ha.elim
  | closed => exact ha.elim

theorem parameter_inj {definition definition' name name' : String} {arity arity' : Nat}
    (h : isPath definition = true) (h' : isPath definition' = true)
    (hkey : (parameter definition arity name).key = (parameter definition' arity' name').key) :
    parameter definition arity name = parameter definition' arity' name' := by
  have hlist : (declaredKey definition arity).toList ++ ':' :: name.toList =
      (declaredKey definition' arity').toList ++ ':' :: name'.toList := by
    have := congrArg String.toList hkey
    simpa [key] using this
  obtain ⟨hdefinition, hname⟩ := append_cons_inj (colon_not_mem_declaredKey h arity)
    (colon_not_mem_declaredKey h' arity') hlist
  obtain ⟨rfl, rfl⟩ := declaredKey_inj (isPathText_of_isPath h) (isPathText_of_isPath h')
    (String.toList_inj.1 hdefinition)
  rw [String.toList_inj.1 hname]

/-- What is not composed is told by its key. -/
theorem IsProper.atom_inj {m m' : Meaning} (h : m.IsProper) (h' : m'.IsProper) (ha : m.IsAtom)
    (ha' : m'.IsAtom) (hkey : m.key = m'.key) : m = m' := by
  by_cases hcolon : ':' ∈ m.key.toList
  · obtain ⟨_, _, _, rfl, hpath⟩ := h.eq_parameter ha hcolon
    obtain ⟨_, _, _, rfl, hpath'⟩ := h'.eq_parameter ha' (hkey ▸ hcolon)
    exact parameter_inj hpath hpath' hkey
  · have hparameter : ∀ {definition arity name}, Meaning.parameter definition arity name ≠ m ∧
        Meaning.parameter definition arity name ≠ m' := by
      intro definition arity name
      constructor
      · rintro rfl
        exact hcolon (by simp [key])
      · rintro rfl
        exact hcolon (hkey ▸ by simp [key])
    cases h with
    | builtin b =>
      cases h' with
      | builtin b' => rw [Builtin.fullName_injective hkey]
      | container c => exact absurd hkey (isOwnKey_builtin b c)
      | declared _ hbuiltin => exact absurd hkey.symm (hbuiltin b)
      | parameter => exact absurd rfl hparameter.2
      | array => exact ha'.elim
      | closed => exact ha'.elim
    | container c =>
      cases h' with
      | builtin b => exact absurd hkey.symm (isOwnKey_builtin b c)
      | container c' => rw [Container.fullName_injective hkey]
      | declared _ _ hown => exact absurd hkey.symm (hown c)
      | parameter => exact absurd rfl hparameter.2
      | array => exact ha'.elim
      | closed => exact ha'.elim
    | declared hpath hbuiltin hown =>
      cases h' with
      | builtin b => exact absurd hkey (hbuiltin b)
      | container c => exact absurd hkey (hown c)
      | declared hpath' =>
        obtain ⟨rfl, rfl⟩ :=
          declaredKey_inj (isPathText_of_isPath hpath) (isPathText_of_isPath hpath') hkey
        rfl
      | parameter => exact absurd rfl hparameter.2
      | array => exact ha'.elim
      | closed => exact ha'.elim
    | parameter => exact absurd rfl hparameter.1
    | array => exact ha.elim
    | closed => exact ha.elim

/-! ## Keys are references -/

mutual

/-- A meaning as a reference whose names are keys. -/
def spelled : Meaning → TypeRef
  | .array element => .array element.spelled
  | .closed definition arguments => .named definition.key (spelledAll arguments)
  | m => .named m.key []

def spelledAll : List Meaning → List TypeRef
  | [] => []
  | m :: ms => m.spelled :: spelledAll ms

end

theorem IsAtom.spelled {m : Meaning} (h : m.IsAtom) : m.spelled = .named m.key [] := by
  cases m <;> first | rfl | exact h.elim

theorem intercalate_comma (k : List Char) (ks : List (List Char)) :
    [',', ' '].intercalate (k :: ks) = k ++ ks.flatMap fun k => ',' :: ' ' :: k := by
  induction ks generalizing k with
  | nil => simp
  | cons k' ks ih => simp [ih]

theorem written_atom {m : Meaning} (h : m.IsAtom) :
    m.spelled.tokens.flatMap Token.written = m.key.toList := by
  rw [h.spelled]
  simp [TypeRef.tokens, Token.written, Token.spelling]

mutual

/-- The key of a meaning spells the tokens of its reference. -/
theorem written_spelled :
    ∀ m : Meaning, m.IsProper → m.spelled.tokens.flatMap Token.written = m.key.toList
  | .builtin b, _ => written_atom (m := .builtin b) trivial
  | .container c, _ => written_atom (m := .container c) trivial
  | .declared name arity, _ => written_atom (m := .declared name arity) trivial
  | .parameter definition arity name, _ =>
    written_atom (m := .parameter definition arity name) trivial
  | .array element, h => by
    cases h with
    | array h =>
      simp [Meaning.spelled, TypeRef.tokens, key, Token.written, Token.spelling,
        written_spelled element h]
  | .closed definition [], h => by
    cases h with
    | closed _ _ hne => exact absurd rfl hne
  | .closed definition (a :: as), h => by
    cases h with
    | closed _ _ _ h =>
      obtain ⟨ha, has⟩ := List.forall_mem_cons.1 h
      simp [Meaning.spelled, spelledAll, TypeRef.tokens, key, keys, Token.written, Token.spelling,
        written_spelled a ha, written_tailTokens as has, intercalate_comma, List.flatMap_map]

theorem written_tailTokens : ∀ ms : List Meaning, (∀ m ∈ ms, m.IsProper) →
    (TypeRef.tailTokens (spelledAll ms)).flatMap Token.written =
      ((keys ms).flatMap fun k => ',' :: ' ' :: k.toList) ++ ['>']
  | [], _ => rfl
  | m :: ms, h => by
    obtain ⟨hm, hms⟩ := List.forall_mem_cons.1 h
    simp [spelledAll, TypeRef.tailTokens, keys, Token.written, written_spelled m hm,
      written_tailTokens ms hms]

end

theorem isWritten_atom {m : Meaning} (h : m.IsProper) (ha : m.IsAtom) :
    ∀ t ∈ m.spelled.tokens, t.IsWritten := by
  rw [ha.spelled]
  simpa [TypeRef.tokens] using h.isWritten ha

mutual

/-- The tokens of that reference may stand in a key. -/
theorem isWritten_spelled : ∀ m : Meaning, m.IsProper → ∀ t ∈ m.spelled.tokens, t.IsWritten
  | .builtin b, h => isWritten_atom h trivial
  | .container c, h => isWritten_atom h trivial
  | .declared name arity, h => isWritten_atom h trivial
  | .parameter definition arity name, h => isWritten_atom h trivial
  | .array element, h => by
    cases h with
    | array h =>
      have ih := isWritten_spelled element h
      simpa [Meaning.spelled, TypeRef.tokens, or_imp, forall_and, Token.IsWritten] using ih
  | .closed definition [], h => by
    cases h with
    | closed _ _ hne => exact absurd rfl hne
  | .closed definition (a :: as), h => by
    cases h with
    | closed hdefinition hproper _ h =>
      obtain ⟨ha, has⟩ := List.forall_mem_cons.1 h
      rw [Meaning.spelled, spelledAll, TypeRef.tokens]
      refine List.forall_mem_cons.2 ⟨hproper.isWritten hdefinition.isAtom,
        List.forall_mem_cons.2 ⟨trivial, ?_⟩⟩
      exact List.forall_mem_append.2 ⟨isWritten_spelled a ha, isWritten_tailTokens as has⟩

theorem isWritten_tailTokens : ∀ ms : List Meaning, (∀ m ∈ ms, m.IsProper) →
    ∀ t ∈ TypeRef.tailTokens (spelledAll ms), t.IsWritten
  | [], _ => by simp [spelledAll, TypeRef.tailTokens, Token.IsWritten]
  | m :: ms, h => by
    obtain ⟨hm, hms⟩ := List.forall_mem_cons.1 h
    rw [spelledAll, TypeRef.tailTokens]
    refine List.forall_mem_cons.2 ⟨trivial, ?_⟩
    exact List.forall_mem_append.2 ⟨isWritten_spelled m hm, isWritten_tailTokens ms hms⟩

end

/-- What is not composed is told by its reference. -/
theorem eq_of_spelled_atom {m m' : Meaning} (h : m.IsProper) (h' : m'.IsProper) (ha : m.IsAtom)
    (heq : m.spelled = m'.spelled) : m = m' := by
  rw [ha.spelled] at heq
  by_cases ha' : m'.IsAtom
  · rw [ha'.spelled] at heq
    injection heq with hkey
    exact h.atom_inj h' ha ha' hkey
  · cases h' with
    | array => cases heq
    | @closed definition arguments _ _ hne =>
      injection heq with _ harguments
      cases arguments with
      | nil => exact absurd rfl hne
      | cons => cases harguments
    | builtin => exact absurd trivial ha'
    | container => exact absurd trivial ha'
    | declared => exact absurd trivial ha'
    | parameter => exact absurd trivial ha'

mutual

/-- A meaning is told by its reference. -/
theorem eq_of_spelled : ∀ m m' : Meaning, m.IsProper → m'.IsProper → m.spelled = m'.spelled → m = m'
  | .builtin b, _, h, h', heq => eq_of_spelled_atom h h' trivial heq
  | .container c, _, h, h', heq => eq_of_spelled_atom h h' trivial heq
  | .declared name arity, _, h, h', heq => eq_of_spelled_atom h h' trivial heq
  | .parameter definition arity name, _, h, h', heq => eq_of_spelled_atom h h' trivial heq
  | .array element, m', h, h', heq => by
    by_cases ha' : m'.IsAtom
    · exact (eq_of_spelled_atom h' h ha' heq.symm).symm
    · cases h with
      | array h =>
        cases h' with
        | array h' =>
          injection heq with helement
          rw [eq_of_spelled element _ h h' helement]
        | closed => cases heq
        | _ => exact absurd trivial ha'
  | .closed definition arguments, m', h, h', heq => by
    by_cases ha' : m'.IsAtom
    · exact (eq_of_spelled_atom h' h ha' heq.symm).symm
    · cases h with
      | closed hd hproper _ h =>
        cases h' with
        | array => cases heq
        | closed hd' hproper' _ h' =>
          injection heq with hkey harguments
          rw [hproper.atom_inj hproper' hd.isAtom hd'.isAtom hkey,
            eq_of_spelledAll arguments _ h h' harguments]
        | _ => exact absurd trivial ha'

theorem eq_of_spelledAll : ∀ ms ms' : List Meaning, (∀ m ∈ ms, m.IsProper) →
    (∀ m ∈ ms', m.IsProper) → spelledAll ms = spelledAll ms' → ms = ms'
  | [], [], _, _, _ => rfl
  | [], _ :: _, _, _, heq => by cases heq
  | _ :: _, [], _, _, heq => by cases heq
  | m :: ms, m' :: ms', h, h', heq => by
    obtain ⟨hm, hms⟩ := List.forall_mem_cons.1 h
    obtain ⟨hm', hms'⟩ := List.forall_mem_cons.1 h'
    injection heq with hfirst hrest
    rw [eq_of_spelled m m' hm hm' hfirst, eq_of_spelledAll ms ms' hms hms' hrest]

end

/-- Meanings of proper names with the same key are the same. -/
theorem key_injective {m m' : Meaning} (h : m.IsProper) (h' : m'.IsProper)
    (hkey : m.key = m'.key) : m = m' := by
  refine eq_of_spelled m m' h h' (TypeRef.tokens_injective ?_)
  refine written_injective (TypeRef.spaced_tokens _) (TypeRef.spaced_tokens _)
    (isWritten_spelled m h) (isWritten_spelled m' h') ?_
  rw [written_spelled m h, written_spelled m' h', hkey]

end Meaning

end TypeExport
