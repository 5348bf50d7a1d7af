import TypeExport.Proofs.Locality
import TypeExport.Proofs.Universe.Counting
import TypeExport.Proofs.Universe.Valued

/-!
# One flag for all positions

A single flag of a member holds for every position of its type.  So do copies of it,
one for each position, and so does the default flag of a member without flags.  What
a run leaves is the same (`Setup.generate_respelled`).

Copies hold as far as they reach.  The positions that a run asks about are those of the
type behind the outer `Nullable`s (`Universe.Core`), and it asks about none that the
type has not: the first position when the type is one of reference types, and where a
part that is a reference type starts (`Universe.Layered.lt_flagCount`).

A rule that places a type may look at the flags themselves and tell one flag from copies
of it (`Setup.exists_error_respelled`).  So the locations of the types that are declared
have to be the same.
-/

namespace TypeExport

/-- Whether annotations say of that many positions by copies of a flag, or by a default
flag, what others say by a single one. -/
inductive Annotations.Respells (a : Annotations) (f : UInt8) (positions : Nat) : Annotations → Prop
  | copies {n : Nat} : 1 ≤ n → positions ≤ n →
      Respells a f positions { a with flags := some (List.replicate n f) }
  | context : Respells a f positions { a with flags := none, context := some f }

namespace Attributes

/-- Whether attributes say the same as others, of positions below a bound. -/
structure AgreesBelow (a : Attributes) (bound : Nat) (a' : Attributes) : Prop where
  has : ∀ marker, a'.has marker = a.has marker
  flagged : ∀ d position, position < bound ∨ d.isValueType = true →
    flaggedNullable a' d position = flaggedNullable a d position

variable {a a' : Attributes} {bound position : Nat} {mode : NullabilityMode} {d : Descriptor}

/-- A single flag holds for every position. -/
theorem flaggedNullable_of_singleton {f : UInt8} (h : a.flags = [f]) (d : Descriptor)
    (position : Nat) :
    flaggedNullable a d position = (decide (f = nullableFlag) && !d.isValueType) := by
  unfold flaggedNullable
  rw [h]
  cases position <;> by_cases hf : f = nullableFlag <;> simp [hf]

/-- Copies of a flag hold as far as they reach. -/
theorem flaggedNullable_of_replicate {f : UInt8} {n : Nat} (h : a.flags = List.replicate n f)
    (hposition : position < n) (d : Descriptor) :
    flaggedNullable a d position = (decide (f = nullableFlag) && !d.isValueType) := by
  unfold flaggedNullable
  rw [h]
  by_cases hf : f = nullableFlag
  · simp [hf, hposition]
  · have hne : List.replicate n f ≠ [nullableFlag] := by
      intro heq
      have hmem : nullableFlag ∈ List.replicate n f := heq ▸ List.mem_singleton_self _
      exact hf (List.eq_of_mem_replicate hmem).symm
    simp [hf, hposition, hne]

theorem agreesBelow_of_respells {b b' : Annotations} {f : UInt8} (hflags : b.flags = some [f])
    (h : b.Respells f bound b') (owner : Option Descriptor) :
    AgreesBelow ⟨b, owner⟩ bound ⟨b', owner⟩ := by
  have single : flags ⟨b, owner⟩ = [f] := by simp [flags, hflags]
  constructor
  · intro marker
    cases h <;> rfl
  · intro d position hposition
    by_cases hvalue : d.isValueType = true
    · simp [flaggedNullable, hvalue]
    · have hreach := hposition.resolve_right hvalue
      rw [flaggedNullable_of_singleton single]
      cases h with
      | @copies n _ hn =>
        exact flaggedNullable_of_replicate rfl (Nat.lt_of_lt_of_le hreach hn) d
      | context => exact flaggedNullable_of_singleton rfl d position

namespace AgreesBelow

variable (h : a.AgreesBelow bound a')
include h

theorem itemNullable (hposition : position < bound ∨ d.isValueType = true) :
    itemNullable mode (some a') d position = itemNullable mode (some a) d position := by
  cases mode <;> simp only [TypeExport.itemNullable, h.has, h.flagged d position hposition]

theorem annotatedNullable (hposition : 0 < bound ∨ d.isValueType = true) :
    annotatedNullable mode a' d = annotatedNullable mode a d := by
  cases mode <;> simp only [TypeExport.annotatedNullable, h.has, h.flagged d 0 hposition]

theorem argumentNullable {u : Universe} {before : List TypeId} {n : Nat}
    (hbefore : Universe.sumOf u.flagCount before = .ok n)
    (hposition : 1 + n < bound ∨ d.isValueType = true) :
    u.argumentNullable mode (some a') before d = u.argumentNullable mode (some a) before d := by
  simp only [Universe.argumentNullable, hbefore, bind, Except.bind, pure, Except.pure,
    h.flagged d (1 + n) hposition]

end AgreesBelow

end Attributes

namespace Universe

variable {u : Universe} {id c x : TypeId} {d e : Descriptor}

/-! ## The type behind the outer `Nullable`s -/

/-- The type that is left when the outer `Nullable`s of a type are taken away. -/
inductive Core (u : Universe) : TypeId → TypeId → Prop
  | self {id : TypeId} : (∀ x, u.form? id ≠ some (.absent x)) → Core u id id
  | absent {id x c : TypeId} : u.form? id = some (.absent x) → Core u x c → Core u id c

theorem Core.unique {c' : TypeId} (h : u.Core id c) (h' : u.Core id c') : c' = c := by
  induction h with
  | self hno =>
    cases h' with
    | self => rfl
    | absent hform => exact absurd hform (hno _)
  | absent hform _ ih =>
    cases h' with
    | self hno => exact absurd hform (hno _)
    | absent hform' hrest =>
      cases hform.symm.trans hform'
      exact ih hrest

theorem Core.of_absent (h : u.Core id c) (hform : u.form? id = some (.absent x)) : u.Core x c := by
  cases h with
  | self hno => exact absurd hform (hno x)
  | absent hform' hrest =>
    cases hform.symm.trans hform'
    exact hrest

theorem Core.eq_self (h : u.Core id c) (hno : ∀ x, u.form? id ≠ some (.absent x)) : c = id := by
  cases h with
  | self => rfl
  | absent hform => exact absurd hform (hno _)

/-- The type without one outer `Nullable` has the same core. -/
theorem Core.bare (h : u.Core id c) : u.Core (u.bare id) c := by
  by_cases habsent : ∃ x, u.form? id = some (.absent x)
  · obtain ⟨x, hform⟩ := habsent
    rw [bare_of_absent hform]
    exact h.of_absent hform
  · rw [bare_of_ne_absent fun x hx => habsent ⟨x, hx⟩]
    exact h

/-- An issued type has an issued core.  By induction on its structure. -/
theorem Sound.exists_core (h : u.Sound) (hi : u.Issued id) : ∃ c, u.Core id c ∧ u.Issued c := by
  induction id using h.layered.wellFounded.induction with
  | _ id ih =>
    by_cases habsent : ∃ x, u.form? id = some (.absent x)
    · obtain ⟨x, hform⟩ := habsent
      have hpart := h.part hform List.mem_cons_self
      obtain ⟨d, hd, hdform⟩ := get?_of_form? hform
      have hmem : x ∈ d.kind.constituents :=
        mem_constituents_of_mem_parts (u := u) (by simp [hdform, Form.parts])
      obtain ⟨c, hc, hissued⟩ := ih x ⟨d, hd, hmem⟩ hpart.1
      exact ⟨c, .absent hform hc, hissued⟩
    · exact ⟨id, .self fun x hx => habsent ⟨x, hx⟩, hi⟩

/-! ## Positions that a run asks about -/

theorem operands_of_sequence {k : TypeKind} (h : u.formOf k = .sequence x) :
    k.operands = [x] ∧ k.isDefinition = false := by
  cases hasForm_of_eq h <;> exact ⟨rfl, rfl⟩

theorem operands_of_dictionary {k : TypeKind} {key value : TypeId}
    (h : u.formOf k = .dictionary key value) :
    k.operands = [key, value] ∧ k.isDefinition = false := by
  cases hasForm_of_eq h
  exact ⟨rfl, rfl⟩

theorem operands_of_applied {k : TypeKind} {definition : TypeId} {arguments : List TypeId}
    (h : u.formOf k = .applied definition arguments) :
    k.operands = arguments ∧ k.isDefinition = false := by
  rw [eq_closed_of_applied h]
  exact ⟨rfl, rfl⟩

/-- A part of a type is a value type, or its position lies within those of the type. -/
theorem Layered.reaches (h : u.Layered) (hv : u.Valued) (before : List TypeId)
    {after : List TypeId} {n k : Nat} (hd : u.get? id = some d)
    (hopen : d.kind.isDefinition = false)
    (hno : ∀ y, u.form? id ≠ some (.absent y)) (hparts : d.kind.operands = before ++ x :: after)
    (he : u.get? x = some e) (hbefore : sumOf u.flagCount before = .ok n)
    (hcount : u.flagCount id = .ok k) : 1 + n < k ∨ e.isValueType = true := by
  cases hvalue : e.isValueType with
  | true => exact .inr rfl
  | false =>
    refine .inl (h.lt_flagCount hd hopen hno hparts he (fun y hy => ?_) hvalue hbefore hcount)
    rw [hv.isValueType_of_absent he (formOf_of_form? he hy)] at hvalue
    cases hvalue

end Universe

namespace Setup

variable {s s' : Setup} {r : Rules} {t o c : TypeId} {d : Descriptor} {i k : Nat} {m m' : Member}
  {a : Annotations} {f : UInt8}

/-! ## Written expressions -/

section Agree

variable {b b' : Attributes} (h : s.types.Layered) (agree : b.AgreesBelow k b')
include agree

/-- The arguments behind others are written as before when their positions are reached. -/
theorem writtenArguments_agree {before xs : List TypeId} {es : List TypeExpr}
    (hwritten : s.WrittenArguments (some b) before xs es)
    (hreach : ∀ ys x zs, xs = ys ++ x :: zs → ∀ e, s.types.get? x = some e →
      ∃ n, Universe.sumOf s.types.flagCount (before ++ ys) = .ok n ∧
        (1 + n < k ∨ e.isValueType = true)) :
    s.WrittenArguments (some b') before xs es := by
  induction xs generalizing before es with
  | nil =>
    cases hwritten
    exact .nil
  | cons x xs ih =>
    cases hwritten with
    | cons hx he hnullable hrest =>
      obtain ⟨n, hn, hposition⟩ := hreach [] x xs rfl _ he
      rw [List.append_nil] at hn
      refine .cons hx he ((agree.argumentNullable hn hposition).trans hnullable) (ih hrest ?_)
      intro ys y zs hxs e he
      rw [List.append_assoc]
      exact hreach (x :: ys) y zs (by rw [hxs, List.cons_append]) e he

include h

/-- The top of a use site may be null as before. -/
theorem siteNullable_agree (hi : s.types.Issued t) (hcore : s.types.Core t c)
    (hcount : s.types.flagCount c = .ok k) (mode : NullabilityMode) :
    s.types.siteNullable mode (some b') t = s.types.siteNullable mode (some b) t := by
  obtain ⟨d, hd⟩ := Universe.issued_iff.1 hi
  unfold Universe.siteNullable
  split
  · rfl
  · rename_i hno
    have hno' : ∀ x, s.types.form? t ≠ some (.absent x) := fun x hx => hno x hx
    cases hcore.eq_self hno'
    cases hvalue : d.isValueType with
    | true => simp [hd, hvalue]
    | false =>
      have hpos := h.flagCount_pos hd hno' hvalue hcount
      simp only [hd, agree.annotatedNullable (.inl hpos)]

/-- The same is written for a type under attributes that agree on its positions.  By
induction on the `Nullable`s in front of its core, through which the attributes go. -/
theorem written_agree (hv : s.types.Valued) (hcore : s.types.Core t c) (hi : s.types.Issued c)
    (hcount : s.types.flagCount c = .ok k) {e : TypeExpr} (hwritten : s.Written (some b) t e) :
    s.Written (some b') t e := by
  induction hcore with
  | absent hform _ ih =>
    cases hwritten with
    | redirected hr => exact .redirected hr
    | nullable hexplicit ht hx => exact .nullable hexplicit ht hx
    | unwrapped hexplicit ht hx =>
      cases ht.form?.symm.trans hform
      exact .unwrapped hexplicit ht (ih hi hcount hx)
    | declared hd => exact .declared hd
    | primitive ht | sequence ht | dictionary ht | applied ht | parameter ht =>
      cases ht.form?.symm.trans hform
  | @self t hno =>
    obtain ⟨d, hd⟩ := Universe.issued_iff.1 hi
    cases hwritten with
    | redirected hr => exact .redirected hr
    | primitive ht => exact .primitive ht
    | parameter ht => exact .parameter ht
    | declared hd => exact .declared hd
    | nullable _ ht => exact absurd ht.form? (hno _)
    | unwrapped _ ht => exact absurd ht.form? (hno _)
    | @sequence _ _ x e _ ht he hx =>
      obtain ⟨hparts, hopen⟩ := Universe.operands_of_sequence (ht.formOf hd)
      have hposition : 1 < k ∨ e.isValueType = true :=
        h.reaches hv [] hd hopen hno hparts he rfl hcount
      have hsame : elementNullable s.options.nullability (some b') e =
          elementNullable s.options.nullability (some b) e := agree.itemNullable hposition
      rw [← hsame]
      exact .sequence ht he hx
    | @dictionary _ _ key value e _ _ _ ht he hnullable hkey hx =>
      obtain ⟨hparts, hopen⟩ := Universe.operands_of_dictionary (ht.formOf hd)
      have hmem : key ∈ d.kind.operands := by simp [hparts]
      have hissued := (h.constituent hd key (Universe.mem_constituents_of_mem_operands hmem)).1
      obtain ⟨n, hn⟩ := h.exists_flagCount hissued
      have hposition : 1 + n < k ∨ e.isValueType = true :=
        h.reaches hv [key] hd hopen hno hparts he
          ((Universe.sumOf_singleton _ _).trans hn) hcount
      refine .dictionary ht he ?_ hkey hx
      rw [Universe.valueNullable_eq _ _ _ hn] at hnullable ⊢
      rwa [agree.itemNullable hposition]
    | @applied _ _ definition arguments _ _ ht hdefinition harguments =>
      obtain ⟨hparts, hopen⟩ := Universe.operands_of_applied (ht.formOf hd)
      refine .applied ht hdefinition (writtenArguments_agree agree harguments ?_)
      intro ys x zs hsplit e he
      rw [← hparts] at hsplit
      have hissued : ∀ y ∈ ys, s.types.Issued y := fun y hy =>
        (h.constituent hd y (Universe.mem_constituents_of_mem_operands (by simp [hsplit, hy]))).1
      obtain ⟨n, hn⟩ := Universe.exists_sumOf fun y hy => h.exists_flagCount (hissued y hy)
      exact ⟨n, hn, h.reaches hv ys hd hopen hno hsplit he hn hcount⟩

end Agree

/-- A member has the same declaration under annotations that agree on the positions of
its type. -/
theorem completes_agree (hs : s.types.Sound) (hv : s.types.Valued) (hd : s.types.get? o = some d)
    (hm : m ∈ d.members) (hcore : s.types.Core m.type c) (hcount : s.types.flagCount c = .ok k)
    (agree : (s.attributesOf o m).AgreesBelow k (s.attributesOf o { m with annotations := a }))
    {md : MemberDeclaration} (hmd : s.Completes o m md) :
    s.Completes o { m with annotations := a } md := by
  obtain ⟨hissued, hcontainer⟩ := hs.member hd hm
  have hbare := hs.bare hissued hcontainer
  obtain ⟨c', hc', hci⟩ := hs.exists_core hissued
  cases hcore.unique hc'
  have top := siteNullable_agree hs.layered agree hissued hcore hcount s.options.nullability
  have next := siteNullable_agree hs.layered agree hbare.1 hcore.bare hcount s.options.nullability
  obtain ⟨hname, hoptional, e, hwritten, htype⟩ := hmd
  refine ⟨hname, hoptional.trans ?_, e, ?_, htype.trans ?_⟩
  · rw [memberNullable, memberNullable, ← top]
  · exact written_agree hs.layered agree hv hcore.bare.bare hci hcount hwritten
  · rw [memberNullable, memberNullable, ← top, ← next]

/-! ## Whole runs -/

/-- One flag of a member holds for all positions of its type.  Let its type without its
outer `Nullable`s have so many positions.  With at least one copy of the flag, and one
for each of these, or with the flag as the default of a member that has none, a run
that places the declared types alike fails with the same error or renders the same
units. -/
theorem generate_respelled (h : s.Governed r) (hd : s.types.get? t = some d)
    (hm : d.members[i]? = some m) (hflags : m.annotations.flags = some [f]) :
    ∃ c k, (∀ c', s.types.Core m.type c' ↔ c' = c) ∧ s.types.flagCount c = .ok k ∧
      ∀ a, m.annotations.Respells f k a → s.PlacesAlike (s.annotate t i a) →
        (s.annotate t i a).generate = s.generate := by
  have L := h.lawful
  obtain ⟨text, roots, hload⟩ := h.loaded
  have hv : s.types.Valued := Builder.valued_of_loadText hload
  have hmem : m ∈ d.members := List.mem_of_getElem? hm
  obtain ⟨c, hcore, hi⟩ := L.sound.exists_core (L.sound.member hd hmem).1
  obtain ⟨k, hcount⟩ := L.sound.exists_flagCount hi
  refine ⟨c, k, fun c' => ⟨hcore.unique, fun heq => heq ▸ hcore⟩, hcount, ?_⟩
  intro a hrespells hplaces
  have ha : a.has .ignore = m.annotations.has .ignore := by
    cases hrespells <;> rfl
  have P := parallel_annotate hd hm ha h hplaces
  have agree : (s.attributesOf t m).AgreesBelow k (s.attributesOf t { m with annotations := a }) :=
    Attributes.agreesBelow_of_respells hflags hrespells _
  have hunits : (s.annotate t i a).units = s.units := by
    rcases P.ends L (L.akin P.toAkin rfl rfl) rfl with ⟨e, hs, hs'⟩ |
      ⟨st, st', hus, hus', hst, hst', hmatches⟩
    · rw [hs, hs']
    · rw [hus, hus', Units.eq_of_erase hmatches.units.symm]
      intro unit U U' p D D' hU hU' hD hD'
      rcases hst.set_annotate hd hm ha hst' P.toAkin (hmatches.placed unit) hU hU' hD hD' with
        hsame | ⟨-, -, name, names, ms, j, md, md', rfl, rfl, hj, hmd, hmd'⟩
      · exact hsame
      · have hsame := completes_agree L.sound hv hd hmem hcore hcount agree hmd
        obtain ⟨hlt, rfl⟩ := List.getElem?_eq_some_iff.1 hj
        rw [← hsame.unique P.toAkin rfl hmd', List.set_getElem_self]
  rw [generate, generate, hunits]

/-- A document with a flag on a member whose type may be absent. -/
@[irreducible] def ledgerText : String :=
  r#"[[["object","Order",[],[["Lines","Dictionary<string, Order[]>?",[],[2]]]]],["Order"]]"#

/-- The setup of the document in the mode of nullable reference types. -/
def ledger : Setup := ofDocument ledgerText { nullability := .nullableReference } {}

theorem ledger_checks : loads ledgerText = true ∧
    (ledger.types.get? ⟨0⟩).bind (·.members[0]?) = some ⟨"Lines", ⟨6⟩, { flags := some [2] }⟩ ∧
    ledger.types.kind? ⟨6⟩ = some (.closed ⟨5⟩ [⟨4⟩]) ∧
    ledger.types.kind? ⟨5⟩ = some (.container .nullable) ∧
    ledger.types.kind? ⟨4⟩ = some (.closed ⟨1⟩ [⟨2⟩, ⟨3⟩]) ∧
    ledger.types.kind? ⟨1⟩ = some (.container .dictionary) ∧
    (ledger.types.flagCount ⟨4⟩).toOption = some 4 ∧
    (ledger.units.map fun us => (us.get? ⟨0⟩).map memberTexts).toOption =
      some (some [(true, "null | \x7b [key: string]: null | Order[] \x7d")]) := by
  decide +kernel

/-- The dictionary behind the `Nullable` has four positions, and the last but one says
that its values may be null. -/
theorem generate_respelled_ledger : ledger.Governed {} ∧ ∃ d m us,
    ledger.types.get? ⟨0⟩ = some d ∧ d.members[0]? = some m ∧ m.annotations.flags = some [2] ∧
    ledger.types.Core m.type ⟨4⟩ ∧ ledger.types.flagCount ⟨4⟩ = .ok 4 ∧
    ledger.units = .ok us ∧ (us.get? ⟨0⟩).map memberTexts =
      some [(true, "null | \x7b [key: string]: null | Order[] \x7d")] ∧
    (ledger.annotate ⟨0⟩ 0 { flags := some [2, 2, 2, 2] }).generate = ledger.generate ∧
    (ledger.annotate ⟨0⟩ 0 { context := some 2 }).generate = ledger.generate := by
  obtain ⟨hloads, hmember, hwhole, hnullable, hinner, hdictionary, hcount, hbefore⟩ := ledger_checks
  have governed : ledger.Governed {} := governed_ofDocument _ hloads rfl rfl
  obtain ⟨d, hd, hm⟩ := Option.bind_eq_some_iff.1 hmember
  obtain ⟨us, hus, htexts⟩ := exists_units_of_toOption hbefore
  have core : ledger.types.Core ⟨6⟩ ⟨4⟩ := by
    refine .absent (x := ⟨4⟩) ?_ (.self fun x => ?_)
    · simp [Universe.form?, hwhole, Universe.formOf, hnullable]
    · simp [Universe.form?, hinner, Universe.formOf, hdictionary]
  obtain ⟨c, k, hcore, hk, hsame⟩ := generate_respelled governed hd hm rfl
  cases (hcore _).1 core
  have hfour : k = 4 := by simpa [hk, Except.toOption] using hcount
  subst hfour
  have places {a : Annotations} (ha : a.has .ignore = false) :
      ledger.PlacesAlike (ledger.annotate ⟨0⟩ 0 a) :=
    placesAlike_annotate hd hm ha governed (List.forall_mem_nil _)
  exact ⟨governed, d, _, us, hd, hm, rfl, core, hk, hus, htexts,
    hsame _ (.copies (n := 4) (by decide) (Nat.le_refl 4)) (places rfl),
    hsame _ .context (places rfl)⟩

/-! ## A class that moves -/

/-- A rule that moves a class some member of which has a single flag. -/
def moveFlagged (_ : Universe) (d : Descriptor) : String :=
  if d.members.any (·.annotations.flags = some [2]) then "a" else ""

theorem moveFlagged_checks :
    ((namesakes moveFlagged).types.get? ⟨0⟩).bind (·.members[0]?) =
      some ⟨"V", ⟨2⟩, { flags := some [2] }⟩ ∧
    (namesakes moveFlagged).types.kind? ⟨2⟩ = some (.builtin .string) ∧
    ((namesakes moveFlagged).types.flagCount ⟨2⟩).toOption = some 1 ∧
    ((namesakes moveFlagged).units.map Units.size).toOption = some 2 ∧
    ((namesakes moveFlagged).annotate ⟨0⟩ 0 { flags := some [2, 2] }).finalState.1 =
      some (.unit (.nameTaken "index" "X")) := by
  decide +kernel

/-- When a rule looks at flags, copies of a flag may move a class to where another
has its name.  The run succeeds with the single flag, and fails with the copies. -/
theorem exists_error_respelled :
    (namesakes moveFlagged).Governed (namesakeRules moveFlagged) ∧
      ∃ (d : Descriptor) (m : Member) (us : Units),
        (namesakes moveFlagged).types.get? ⟨0⟩ = some d ∧ d.members[0]? = some m ∧
        m.annotations.flags = some [2] ∧ (namesakes moveFlagged).types.Core m.type m.type ∧
        (namesakes moveFlagged).types.flagCount m.type = .ok 1 ∧
        m.annotations.Respells 2 1 { flags := some [2, 2] } ∧
        (namesakes moveFlagged).generate = .ok (us.render (namesakes moveFlagged).options) ∧
        ((namesakes moveFlagged).annotate ⟨0⟩ 0 { flags := some [2, 2] }).generate =
          .error (.unit (.nameTaken "index" "X")) := by
  obtain ⟨hmember, hstring, hcount, hbefore, hafter⟩ := moveFlagged_checks
  obtain ⟨d, hd, hm⟩ := Option.bind_eq_some_iff.1 hmember
  obtain ⟨us, hus, -⟩ := exists_units_of_toOption hbefore
  have core : (namesakes moveFlagged).types.Core ⟨2⟩ ⟨2⟩ :=
    .self fun x => by simp [Universe.form?, hstring, Universe.formOf]
  have hone : (namesakes moveFlagged).types.flagCount ⟨2⟩ = .ok 1 := by
    generalize (namesakes moveFlagged).types.flagCount ⟨2⟩ = n at hcount
    cases n with
    | ok n => exact congrArg Except.ok (Option.some.inj hcount)
    | error e => cases hcount
  have fails := units_eq_error hafter
  refine ⟨namesakes_governed moveFlagged, d, _, us, hd, hm, rfl, core, hone,
    .copies (n := 2) (by decide) (by decide), ?_, ?_⟩
  · rw [generate, hus]
    rfl
  · rw [generate, fails]
    rfl

end Setup

end TypeExport
