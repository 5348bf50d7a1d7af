import TypeExport.Proofs.Universe.Covering
import TypeExport.Proofs.Universe.Meaning
import TypeExport.Proofs.Universe.Sparing

/-!
# Reserved names

Built-in types and open containers are interned when a reference needs them, and a
known key wins.  So the full name of a built-in type belongs to it unless a document
introduces that name itself, by a type or by a type parameter
(`Document.Introduces`), and the same is true of containers.

In a universe that a document is loaded into, each type comes from the document or
from a reference, and its key tells which (`Universe.Reserves`).  References keep
that, because they intern new keys only, and they close definitions whose keys have
no marks: a key that reads like an instance of a container is the key of one
(`Universe.Reserves.isInstance_iff`).
-/

namespace TypeExport

/-! ## What a document introduces -/

/-- Whether a key belongs to a type or to a type parameter of a document. -/
def Document.Introduces (d : Document) (key : String) : Prop :=
  ∃ t ∈ d.types, key = t.key ∨ ∃ p ∈ t.parameters, key = t.parameterKey p

instance (d : Document) (key : String) : Decidable (d.Introduces key) :=
  inferInstanceAs (Decidable (∃ t ∈ d.types, key = t.key ∨ ∃ p ∈ t.parameters,
    key = t.parameterKey p))

namespace Document

variable {d : Document}

/-- The key of a type parameter has a colon. -/
theorem introduces_iff_of_no_colon {key : String} (h : ':' ∉ key.toList) :
    d.Introduces key ↔ ∃ t ∈ d.types, t.key = key := by
  constructor
  · intro hintroduces
    obtain ⟨t, ht, hkey⟩ := hintroduces
    cases hkey with
    | inl hkey => exact ⟨t, ht, hkey.symm⟩
    | inr hparameter =>
      obtain ⟨p, -, hp⟩ := hparameter
      exact absurd (by simp [hp, TypeEntry.parameterKey]) h
  · intro hdeclares
    obtain ⟨t, ht, hkey⟩ := hdeclares
    exact ⟨t, ht, .inl hkey.symm⟩

/-- A container's full name is introduced as a whole, or by the number of
parameters. -/
theorem introduces_container_iff (c : Container) :
    d.Introduces c.fullName ↔ ∃ t ∈ d.types, t.key = c.fullName :=
  introduces_iff_of_no_colon (colon_not_mem_container c)

/-- A built-in type's full name is introduced by a type without parameters. -/
theorem introduces_builtin_iff (b : Builtin) :
    d.Introduces b.fullName ↔ ∃ t ∈ d.types, t.arity = 0 ∧ t.name = b.fullName := by
  rw [introduces_iff_of_no_colon (colon_not_mem_builtin b)]
  have haccent : '\x60' ∉ b.fullName.toList := by cases b <;> decide
  constructor
  · intro hdeclares
    obtain ⟨t, ht, hkey⟩ := hdeclares
    by_cases harity : t.arity = 0
    · exact ⟨t, ht, harity, (declaredKey_of_eq_zero harity).symm.trans hkey⟩
    · have hgeneric := (declaredKey_of_ne_zero harity).symm.trans hkey
      exact absurd (by simp [← hgeneric, Builder.genericKey]) haccent
  · intro hdeclares
    obtain ⟨t, ht, harity, hname⟩ := hdeclares
    exact ⟨t, ht, (declaredKey_of_eq_zero harity).trans hname⟩

end Document

/-- Whether a type is declared, or is a type parameter. -/
def TypeKind.isNominal : TypeKind → Bool
  | .object _ | .enumeration _ | .parameter .. => true
  | _ => false

namespace Universe

variable {u v b : Universe} {d : Document} {id : TypeId} {e g : Descriptor} {c : Container}

/-! ## Where types come from -/

/-- Whether a reference may have interned a type: it has the key of its kind, and
the definition of a closed generic has a key without marks. -/
def Stems (u : Universe) (e : Descriptor) : Prop :=
  match e.kind with
  | .builtin b => e.key = b.fullName
  | .container c => e.key = c.fullName
  | .array _ => ∃ before, e.key = before ++ "[]"
  | .closed definition _ => ∃ g inner, u.get? definition = some g ∧ isPlainKey g.key = true ∧
      e.key = g.key ++ "<" ++ inner ++ ">"
  | _ => False

theorem Stems.arises (h : u.Stems e) : e.Arises := by
  unfold Stems at h
  unfold Descriptor.Arises
  cases hkind : e.kind with
  | builtin | container =>
    rw [hkind] at h
    exact h
  | array =>
    rw [hkind] at h
    obtain ⟨before, hkey⟩ := h
    simp [hkey, isPlainKey, isKeyMark]
  | closed =>
    rw [hkind] at h
    obtain ⟨g, inner, -, -, hkey⟩ := h
    simp [hkey, isPlainKey, isKeyMark]
  | _ =>
    rw [hkind] at h
    exact h

/-- Definitions keep their keys. -/
theorem Stems.keep (h : u.Stems e) (keeps : u.Keeps v) : v.Stems e := by
  unfold Stems at h ⊢
  cases hkind : e.kind with
  | closed definition arguments =>
    rw [hkind] at h
    obtain ⟨g, inner, hg, hplain, hkey⟩ := h
    obtain ⟨g', hg', hsame, -⟩ := keeps.type hg
    exact ⟨g', inner, hg', by rw [hsame]; exact hplain, by rw [hsame]; exact hkey⟩
  | _ =>
    rw [hkind] at h
    exact h

/-- Where a type comes from. -/
inductive Provenance (d : Document) (u : Universe) (e : Descriptor) : Prop
  | introduced (hkey : d.Introduces e.key) (hkind : e.kind.isNominal = true)
  | referred (hkey : ¬ d.Introduces e.key) (hstems : u.Stems e)

/-- Whether the keys that a document introduces are known, and all other types come
from references. -/
structure Reserves (d : Document) (u : Universe) : Prop where
  indexed : u.Indexed
  known : ∀ {key}, d.Introduces key → ∃ id, u.lookup? key = some id
  origin : ∀ {id e}, u.get? id = some e → Provenance d u e

theorem Provenance.keep (h : Provenance d u e) (keeps : u.Keeps v) : Provenance d v e := by
  cases h with
  | introduced hkey hkind => exact .introduced hkey hkind
  | referred hkey hstems => exact .referred hkey (hstems.keep keeps)

namespace Reserves

/-- What a reference interns has a new key, so the document does not introduce it. -/
theorem intern (h : u.Reserves d) (he : u.Stems e) : (u.intern e).2.Reserves d := by
  cases hk : u.lookup? e.key with
  | some i =>
    rw [intern_of_lookup? hk]
    exact h
  | none =>
    have keeps := (extends_intern u e).keeps
    refine ⟨h.indexed.intern e, fun hkey => ?_, fun {id f} hf => ?_⟩
    · obtain ⟨i, hi⟩ := h.known hkey
      exact ⟨i, lookup?_intern_of_lookup? hi⟩
    · cases of_get?_intern hf with
      | inl hold => exact (h.origin hold).keep keeps
      | inr hnew =>
        rw [hnew.2]
        refine .referred (fun hkey => ?_) (he.keep keeps)
        obtain ⟨i, hi⟩ := h.known hkey
        rw [hk] at hi
        cases hi

/-- Members and default flags do not matter. -/
theorem modify (h : u.Reserves d) {f : Descriptor → Descriptor} (hkey : ∀ d, (f d).key = d.key)
    (hname : ∀ d, (f d).name = d.name) (hkind : ∀ d, (f d).kind = d.kind) :
    (u.modify id f).Reserves d := by
  have keeps := keeps_modify_all u id hkey hname hkind
  refine ⟨h.indexed.modify hkey, fun hintroduces => ?_, fun {i e} he => ?_⟩
  · obtain ⟨i, hi⟩ := h.known hintroduces
    exact ⟨i, keeps.lookup hi⟩
  · rw [get?_modify] at he
    split at he
    case isFalse => exact (h.origin he).keep keeps
    case isTrue =>
      obtain ⟨o, ho, hoe⟩ := Option.map_eq_some_iff.1 he
      have horigin := (h.origin ho).keep keeps
      rw [← hoe]
      cases horigin with
      | introduced hintroduces hnominal =>
        exact .introduced (by rw [hkey]; exact hintroduces) (by rw [hkind]; exact hnominal)
      | referred hintroduces hstems =>
        refine .referred (by rw [hkey]; exact hintroduces) ?_
        unfold Stems at hstems ⊢
        rw [hkind, hkey]
        exact hstems

/-! ## What is reserved -/

/-- A type whose key has no marks is introduced, or has the key of its kind. -/
theorem of_plain (h : u.Reserves d) (he : u.get? id = some e) (hplain : isPlainKey e.key = true) :
    d.Introduces e.key ∧ e.kind.isNominal = true ∨ ¬ d.Introduces e.key ∧
      ((∃ b : Builtin, e.kind = .builtin b ∧ e.key = b.fullName) ∨
        ∃ c : Container, e.kind = .container c ∧ e.key = c.fullName) := by
  cases h.origin he with
  | introduced hintroduces hnominal => exact .inl ⟨hintroduces, hnominal⟩
  | referred hintroduces hstems =>
    refine .inr ⟨hintroduces, ?_⟩
    have harises := hstems.arises
    unfold Descriptor.Arises at harises
    cases hkind : e.kind with
    | builtin b =>
      rw [hkind] at harises
      exact .inl ⟨b, rfl, harises⟩
    | container c =>
      rw [hkind] at harises
      exact .inr ⟨c, rfl, harises⟩
    | array | closed =>
      rw [hkind, hplain] at harises
      cases harises
    | _ =>
      rw [hkind] at harises
      exact harises.elim

/-- The full name of a built-in type is its own unless the document introduces it. -/
theorem builtin_iff (h : u.Reserves d) {b : Builtin} (he : u.get? id = some e)
    (hkey : e.key = b.fullName) : e.kind = .builtin b ↔ ¬ d.Introduces b.fullName := by
  have cases := h.of_plain he (hkey ▸ b.isPlainKey_fullName)
  rw [hkey] at cases
  rcases cases with ⟨hintroduces, hnominal⟩ | ⟨hnot, ⟨b', hkind, hb⟩ | ⟨c, -, hc⟩⟩
  · refine ⟨fun hkind => ?_, fun hnot => absurd hintroduces hnot⟩
    rw [hkind] at hnominal
    cases hnominal
  · rw [hkind, Builtin.fullName_injective hb]
    exact ⟨fun _ => Builtin.fullName_injective hb ▸ hnot, fun _ => rfl⟩
  · exact absurd hc (isOwnKey_builtin b c)

/-- The full name of a container is its own unless the document introduces it. -/
theorem container_iff (h : u.Reserves d) (he : u.get? id = some e) (hkey : e.key = c.fullName) :
    e.kind = .container c ↔ ¬ d.Introduces c.fullName := by
  have cases := h.of_plain he (hkey ▸ c.isPlainKey_fullName)
  rw [hkey] at cases
  rcases cases with ⟨hintroduces, hnominal⟩ | ⟨hnot, ⟨b, -, hb⟩ | ⟨c', hkind, hc⟩⟩
  · refine ⟨fun hkind => ?_, fun hnot => absurd hintroduces hnot⟩
    rw [hkind] at hnominal
    cases hnominal
  · exact absurd hb.symm (isOwnKey_builtin b c)
  · rw [hkind, Container.fullName_injective hc]
    exact ⟨fun _ => Container.fullName_injective hc ▸ hnot, fun _ => rfl⟩

end Reserves

/-- Whether a type is closed over an open container. -/
def IsInstance (u : Universe) (e : Descriptor) (c : Container) : Prop :=
  ∃ definition arguments g, e.kind = .closed definition arguments ∧
    u.get? definition = some g ∧ g.kind = .container c

/-- Keys without marks end where the arguments begin. -/
theorem definition_eq_of_key_eq {key key' inner inner' : String} (h : isPlainKey key = true)
    (h' : isPlainKey key' = true) (heq : key ++ "<" ++ inner ++ ">" = key' ++ "<" ++ inner' ++ ">") :
    key = key' := by
  have hlist := congrArg String.toList heq
  simp only [String.toList_append, List.append_assoc] at hlist
  have starts : ∀ cs, StartsMarked ("<".toList ++ cs) := by
    intro cs c hc
    have : '<' = c := by simpa using hc
    rw [← this]
    decide
  exact String.toList_inj.1 (append_inj_of_plain (not_isKeyMark_of_isPlainKey h)
    (not_isKeyMark_of_isPlainKey h') (starts _) (starts _) hlist).1

/-- A key that reads like an instance of a container is the key of one, unless the
document introduces it, or the full name of the container. -/
theorem Reserves.isInstance_iff (h : u.Reserves d) (he : u.get? id = some e) {inner : String}
    (hkey : e.key = c.fullName ++ "<" ++ inner ++ ">") :
    u.IsInstance e c ↔ ¬ d.Introduces c.fullName ∧ ¬ d.Introduces e.key := by
  cases h.origin he with
  | introduced hintroduces hnominal =>
    refine ⟨fun hinstance => ?_, fun hnot => absurd hintroduces hnot.2⟩
    obtain ⟨definition, arguments, g, hkind, -⟩ := hinstance
    rw [hkind] at hnominal
    cases hnominal
  | referred hintroduces hstems =>
    constructor
    · intro hinstance
      obtain ⟨definition, arguments, g, -, hg, hcontainer⟩ := hinstance
      cases h.origin hg with
      | introduced _ hnominal =>
        rw [hcontainer] at hnominal
        cases hnominal
      | referred hnot hstems' =>
        unfold Stems at hstems'
        rw [hcontainer] at hstems'
        exact ⟨hstems' ▸ hnot, hintroduces⟩
    · intro hnot
      have hmarked : isPlainKey e.key = false := by simp [hkey, isPlainKey, isKeyMark]
      unfold Stems at hstems
      cases hkind : e.kind with
      | builtin b =>
        rw [hkind] at hstems
        rw [hstems, b.isPlainKey_fullName] at hmarked
        cases hmarked
      | container c' =>
        rw [hkind] at hstems
        rw [hstems, c'.isPlainKey_fullName] at hmarked
        cases hmarked
      | array element =>
        rw [hkind] at hstems
        obtain ⟨before, hbefore⟩ := hstems
        have hlast := congrArg (·.toList.reverse.head?) (hbefore.symm.trans hkey)
        simp at hlast
      | closed definition arguments =>
        rw [hkind] at hstems
        obtain ⟨g, inner', hg, hplain, hgkey⟩ := hstems
        have hsame : g.key = c.fullName :=
          definition_eq_of_key_eq hplain c.isPlainKey_fullName (hgkey.symm.trans hkey)
        exact ⟨definition, arguments, g, hkind, hg, (h.container_iff hg hsame).2 hnot.1⟩
      | _ =>
        rw [hkind] at hstems
        exact hstems.elim

end Universe

end TypeExport
