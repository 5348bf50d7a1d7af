import TypeExport.Universe.Lemmas
import TypeExport.Universe.Shape

/-!
# Sound universes

What is true of every universe that a document loads into.  A type is found
under its key.  The types that it is composed of are issued and come before it,
except type parameters, which are composed of nothing.  So `Universe.rank` goes
down from a type to its constituents, and every descent into the structure of a
type ends, although members may form cycles.  A closed generic has as many
arguments as its definition takes.  The key of a composed type spells the keys
of its constituents, and the type of a member mentions no type parameter in its
key but those of the type that declares it.

While a universe is built, a type keeps its id, its key, its name and its kind
(`Universe.Keeps`).  What is true of a type stays true (`Universe.Fits.keep`),
so each operation has to answer only for what it adds.
-/

namespace TypeExport

namespace TypeKind

/-- The types that a type is composed of. -/
def constituents : TypeKind → List TypeId
  | .array element => [element]
  | .closed definition arguments => definition :: arguments
  | .object parameters => parameters
  | _ => []

/-- The type parameters of a generic definition. -/
def parameters : TypeKind → List TypeId
  | .object parameters => parameters
  | _ => []

/-- The types that a type is composed of, without the definition of a closed
generic. -/
def operands : TypeKind → List TypeId
  | .array element => [element]
  | .closed _ arguments => arguments
  | .object parameters => parameters
  | _ => []

/-- Whether a type can be closed over that many arguments. -/
def Takes (k : TypeKind) (count : Nat) : Prop :=
  match k with
  | .container c => count = c.arity
  | .object parameters => parameters ≠ [] ∧ count = parameters.length
  | _ => False

end TypeKind

/-! ## Keys -/

/-- The characters that separate the keys in the key of a composed type. -/
def isKeyMark (c : Char) : Bool := c ∈ ['<', '>', ',', ' ', '[', ']']

/-- The parts of a key between the marks. -/
def keyParts (key : String) : List (List Char) := key.toList.splitOnP isKeyMark

namespace Universe

/-- Whether the universe issued an id. -/
def Issued (u : Universe) (id : TypeId) : Prop := id.index < u.size

instance (u : Universe) (id : TypeId) : Decidable (u.Issued id) :=
  inferInstanceAs (Decidable (id.index < u.size))

/-- The key of an issued id. -/
def keyOf (u : Universe) (id : TypeId) : String := ((u.get? id).map (·.key)).getD ""

/-- The simple name of an issued id. -/
def nameOf (u : Universe) (id : TypeId) : String := ((u.get? id).map (·.name)).getD ""

/-- How deep the structure of a type may go. -/
def rank (u : Universe) (id : TypeId) : Nat :=
  if (u.get? id).any (·.kind.isParameter) then 0 else id.index + 1

variable {u v w : Universe} {id : TypeId} {d : Descriptor}

theorem issued_iff : u.Issued id ↔ ∃ d, u.get? id = some d := by
  constructor
  · intro h
    exact ⟨u.types[id.index], Array.getElem?_eq_getElem h⟩
  · rintro ⟨d, h⟩
    exact (Array.getElem?_eq_some_iff.1 h).1

theorem issued_of_get? (h : u.get? id = some d) : u.Issued id := issued_iff.2 ⟨d, h⟩

theorem keyOf_of_get? (h : u.get? id = some d) : u.keyOf id = d.key := by simp [keyOf, h]

theorem nameOf_of_get? (h : u.get? id = some d) : u.nameOf id = d.name := by simp [nameOf, h]

theorem rank_of_get? (h : u.get? id = some d) :
    u.rank id = if d.kind.isParameter then 0 else id.index + 1 := by
  simp [rank, h]

theorem rank_le_size (h : u.Issued id) : u.rank id ≤ u.size := by
  unfold rank
  split
  · exact Nat.zero_le _
  · exact h

/-- An issued id is found by `view`. -/
theorem view_of_get? (h : u.get? id = some d) : u.view id = .ok d := by simp [view, h]

/-! ## What is kept -/

/-- What a type keeps while a universe is built.  Only an object without
parameters may still become a generic definition. -/
structure Keeps (u v : Universe) : Prop where
  /-- The id, the key, the name and the kind. -/
  type : ∀ {id d}, u.get? id = some d → ∃ e, v.get? id = some e ∧ e.key = d.key ∧ e.name = d.name ∧
    (e.kind = d.kind ∨ d.kind = .object [] ∧ ∃ parameters, e.kind = .object parameters)
  /-- The id of a key. -/
  lookup : ∀ {key id}, u.lookup? key = some id → v.lookup? key = some id

namespace Keeps

theorem refl (u : Universe) : u.Keeps u := ⟨fun h => ⟨_, h, rfl, rfl, .inl rfl⟩, id⟩

theorem trans (h : u.Keeps v) (h' : v.Keeps w) : u.Keeps w where
  type hd := by
    obtain ⟨e, he, hk, hn, hkind⟩ := h.type hd
    obtain ⟨f, hf, hk', hn', hkind'⟩ := h'.type he
    refine ⟨f, hf, hk'.trans hk, hn'.trans hn, ?_⟩
    rcases hkind with hsame | ⟨hempty, ps, hps⟩
    · exact hsame ▸ hkind'
    · refine .inr ⟨hempty, ?_⟩
      rcases hkind' with hsame' | ⟨-, hps'⟩
      · exact ⟨ps, hsame'.trans hps⟩
      · exact hps'
  lookup hl := h'.lookup (h.lookup hl)

theorem issued (h : u.Keeps v) (hi : u.Issued id) : v.Issued id := by
  obtain ⟨d, hd⟩ := issued_iff.1 hi
  obtain ⟨e, he, -⟩ := h.type hd
  exact issued_of_get? he

theorem keyOf (h : u.Keeps v) (hi : u.Issued id) : v.keyOf id = u.keyOf id := by
  obtain ⟨d, hd⟩ := issued_iff.1 hi
  obtain ⟨e, he, hk, -⟩ := h.type hd
  rw [keyOf_of_get? he, keyOf_of_get? hd, hk]

theorem isParameter (h : u.Keeps v) (hd : u.get? id = some d) :
    ∃ e, v.get? id = some e ∧ e.kind.isParameter = d.kind.isParameter := by
  obtain ⟨e, he, -, -, hsame | ⟨hempty, ps, hps⟩⟩ := h.type hd
  · exact ⟨e, he, by rw [hsame]⟩
  · exact ⟨e, he, by rw [hempty, hps]; rfl⟩

theorem rank (h : u.Keeps v) (hi : u.Issued id) : v.rank id = u.rank id := by
  obtain ⟨d, hd⟩ := issued_iff.1 hi
  obtain ⟨e, he, hp⟩ := h.isParameter hd
  rw [rank_of_get? he, rank_of_get? hd, hp]

theorem takes (h : u.Keeps v) {count : Nat} (hd : u.get? id = some d) (ht : d.kind.Takes count) :
    ∃ e, v.get? id = some e ∧ e.kind.Takes count := by
  obtain ⟨e, he, -, -, hsame | ⟨hempty, -⟩⟩ := h.type hd
  · exact ⟨e, he, hsame ▸ ht⟩
  · rw [hempty] at ht
    exact absurd rfl ht.1

end Keeps

/-! ## Soundness -/

/-- Whether the type parameters that a key mentions are spelled in the keys of
a scope.  Only the key of a type parameter has a colon in a part that may be
referred to. -/
def KeyWithin (u : Universe) (scope : List TypeId) (key : String) : Prop :=
  ∀ part ∈ keyParts key, ':' ∈ part → ∃ p ∈ scope, part ∈ keyParts (u.keyOf p)

/-- Whether the key of a type spells the keys of its constituents. -/
def KeySpells (u : Universe) (d : Descriptor) : Prop :=
  match d.kind with
  | .array element => d.key = u.keyOf element ++ "[]"
  | .closed definition arguments =>
    d.key = u.keyOf definition ++ "<" ++ ", ".intercalate (arguments.map u.keyOf) ++ ">"
  | .parameter .. => ∃ before, d.key = before ++ ":" ++ d.name
  | _ => True

/-- Whether a key is the key of no container. -/
def IsOwnKey (key : String) : Prop := ∀ c : Container, key ≠ c.fullName

/-- What is true of the type at an id. -/
structure Fits (u : Universe) (id : TypeId) (d : Descriptor) : Prop where
  /-- It is found under its key. -/
  keyed : u.lookup? d.key = some id
  /-- Its constituents are issued, and of lower rank. -/
  constituent : ∀ c ∈ d.kind.constituents, u.Issued c ∧ u.rank c < u.rank id
  /-- A closed generic has as many arguments as its definition takes. -/
  closed : ∀ definition arguments, d.kind = .closed definition arguments →
    ∃ e, u.get? definition = some e ∧ e.kind.Takes arguments.length
  /-- Its key spells the keys of its constituents. -/
  spelled : u.KeySpells d
  /-- An open container has its own key. -/
  container : ∀ c, d.kind = .container c → d.key = c.fullName
  /-- The types that it is composed of are no open containers, its definition
  aside. -/
  operand : ∀ c ∈ d.kind.operands, IsOwnKey (u.keyOf c)
  /-- The types of its members are issued, and no open containers. -/
  member : ∀ m ∈ d.members, u.Issued m.type ∧ IsOwnKey (u.keyOf m.type)
  /-- The types of its members mention its own type parameters only. -/
  within : ∀ m ∈ d.members, u.KeyWithin d.kind.parameters (u.keyOf m.type)

/-- Whether everything in a universe fits. -/
def Sound (u : Universe) : Prop := ∀ ⦃id d⦄, u.get? id = some d → u.Fits id d

/-- Whether the structure of every type goes down in rank, and every closed generic
has as many arguments as its definition takes. -/
structure Layered (u : Universe) : Prop where
  constituent : ∀ {id d}, u.get? id = some d → ∀ c ∈ d.kind.constituents,
    u.Issued c ∧ u.rank c < u.rank id
  closed : ∀ {id d}, u.get? id = some d → ∀ definition arguments,
    d.kind = .closed definition arguments →
      ∃ e, u.get? definition = some e ∧ e.kind.Takes arguments.length

theorem Sound.layered (h : u.Sound) : u.Layered where
  constituent hd := (h hd).constituent
  closed hd := (h hd).closed

/-- A type parameter of a generic definition is one of its constituents. -/
theorem mem_constituents_of_mem_parameters {k : TypeKind} {p : TypeId} (h : p ∈ k.parameters) :
    p ∈ k.constituents := by
  cases k <;> first | exact h | cases h

theorem mem_constituents_of_mem_operands {k : TypeKind} {c : TypeId} (h : c ∈ k.operands) :
    c ∈ k.constituents := by
  cases k with
  | array => exact h
  | closed => exact List.mem_cons_of_mem _ h
  | object => exact h
  | builtin => cases h
  | container => cases h
  | parameter => cases h
  | enumeration => cases h

theorem mem_operands_of_mem_parameters {k : TypeKind} {p : TypeId} (h : p ∈ k.parameters) :
    p ∈ k.operands := by
  cases k <;> first | exact h | cases h

theorem KeyWithin.keep {scope : List TypeId} {key : String} (h : u.KeyWithin scope key)
    (hk : u.Keeps v) (hi : ∀ p ∈ scope, u.Issued p) : v.KeyWithin scope key := by
  intro part hp hc
  obtain ⟨p, hmem, hpart⟩ := h part hp hc
  exact ⟨p, hmem, by rwa [hk.keyOf (hi p hmem)]⟩

theorem KeySpells.keep (h : u.KeySpells d) (hk : u.Keeps v)
    (hi : ∀ c ∈ d.kind.constituents, u.Issued c) : v.KeySpells d := by
  unfold KeySpells at h ⊢
  split at h
  case h_1 element hkind =>
    rw [hk.keyOf (hi element (by simp [hkind, TypeKind.constituents]))]
    exact h
  case h_2 definition arguments hkind =>
    have hargs : arguments.map v.keyOf = arguments.map u.keyOf := by
      apply List.map_congr_left
      intro a ha
      exact hk.keyOf (hi a (by simp [hkind, TypeKind.constituents, ha]))
    rw [hk.keyOf (hi definition (by simp [hkind, TypeKind.constituents])), hargs]
    exact h
  case h_3 => exact h
  case h_4 => trivial

/-- What is true of a type stays true. -/
theorem Fits.keep (h : u.Fits id d) (hd : u.get? id = some d) (hk : u.Keeps v) : v.Fits id d where
  keyed := hk.lookup h.keyed
  constituent c hc := by
    have hci := h.constituent c hc
    rw [hk.rank hci.1, hk.rank (issued_of_get? hd)]
    exact ⟨hk.issued hci.1, hci.2⟩
  closed definition arguments hkind := by
    obtain ⟨e, he, ht⟩ := h.closed definition arguments hkind
    exact hk.takes he ht
  spelled := h.spelled.keep hk fun c hc => (h.constituent c hc).1
  container := h.container
  operand c hc := by
    rw [hk.keyOf (h.constituent c (mem_constituents_of_mem_operands hc)).1]
    exact h.operand c hc
  member m hm := by
    rw [hk.keyOf (h.member m hm).1]
    exact ⟨hk.issued (h.member m hm).1, (h.member m hm).2⟩
  within m hm := by
    rw [hk.keyOf (h.member m hm).1]
    exact (h.within m hm).keep hk fun p hp =>
      (h.constituent p (mem_constituents_of_mem_parameters hp)).1

theorem sound_empty : ({} : Universe).Sound := by
  intro id d h
  simp [get?] at h

end Universe

end TypeExport
