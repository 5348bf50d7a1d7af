import TypeExport.Proofs.Universe.Meaning

/-!
# Branches of a universe

Resolving adds types that arise from references, also when it fails in the end,
and changes nothing else.  What it leaves is a branch of the universe that it
started from (`Universe.IsBranch`).

Two branches of one universe have types alike under a key that both know.  Which
keys they know is told apart by a reference in one way only: the full name of an
open container is looked up among the declared types, and is found there when
the container was interned before (`Universe.Split.of_lookup?_eq_none`).
-/

namespace TypeExport

open Builder (arity?)

/-- Whether a type may have come from a reference. -/
def Descriptor.Arises (d : Descriptor) : Prop :=
  match d.kind with
  | .builtin b => d.key = b.fullName
  | .container c => d.key = c.fullName
  | .array _ | .closed .. => isPlainKey d.key = false
  | _ => False

theorem Builtin.isPlainKey_fullName (b : Builtin) : isPlainKey b.fullName = true := by
  cases b <;> decide

theorem Container.isPlainKey_fullName (c : Container) : isPlainKey c.fullName = true := by
  cases c <;> decide

/-- The arguments that a type takes which came from a reference, by its key. -/
def arityOfKey? (key : String) : Option (Nat × Bool) :=
  (Container.all.find? (·.fullName = key)).map fun c => (c.arity, c = .nullable)

theorem arityOfKey?_fullName (c : Container) :
    arityOfKey? c.fullName = some (c.arity, decide (c = .nullable)) := by
  cases c <;> decide

theorem arityOfKey?_of_isOwnKey {key : String} (h : Universe.IsOwnKey key) :
    arityOfKey? key = none := by
  unfold arityOfKey?
  rw [List.find?_eq_none.2 fun c _ hkey => h c (of_decide_eq_true hkey).symm, Option.map_none]

theorem isOwnKey_of_not_plain {key : String} (h : isPlainKey key = false) :
    Universe.IsOwnKey key := by
  rintro c rfl
  rw [c.isPlainKey_fullName] at h
  cases h

namespace Descriptor

variable {d e : Descriptor}

theorem Arises.arity? (h : d.Arises) : Builder.arity? d = arityOfKey? d.key := by
  unfold Arises at h
  unfold Builder.arity?
  cases hkind : d.kind with
  | builtin b =>
    rw [hkind] at h
    rw [h, arityOfKey?_of_isOwnKey (isOwnKey_builtin b)]
  | container c =>
    rw [hkind] at h
    rw [h, arityOfKey?_fullName]
  | array | closed =>
    rw [hkind] at h
    rw [arityOfKey?_of_isOwnKey (isOwnKey_of_not_plain h)]
  | parameter | enumeration | object =>
    rw [hkind] at h
    exact h.elim

/-- A plain key that came from a reference is that of a built-in type or of an
open container. -/
theorem Arises.container (h : d.Arises) (hplain : isPlainKey d.key = true)
    (hbuiltin : ∀ b : Builtin, d.key ≠ b.fullName) : ∃ c : Container, d.key = c.fullName := by
  unfold Arises at h
  cases hkind : d.kind with
  | builtin b =>
    rw [hkind] at h
    exact absurd h (hbuiltin b)
  | container c =>
    rw [hkind] at h
    exact ⟨c, h⟩
  | array | closed =>
    rw [hkind] at h
    exact absurd (hplain.symm.trans h) Bool.noConfusion
  | parameter | enumeration | object =>
    rw [hkind] at h
    exact h.elim

end Descriptor

namespace Universe

variable {b u v : Universe} {d e : Descriptor} {i j : TypeId} {key : String}

/-- Whether a universe is another with types that came from references. -/
structure IsBranch (b u : Universe) : Prop where
  keeps : b.Extends u
  keyed : ∀ {id d}, u.get? id = some d → u.lookup? d.key = some id
  added : ∀ {id d}, u.get? id = some d → b.get? id = some d ∨ d.Arises

theorem Sound.isBranch (h : u.Sound) : u.IsBranch u where
  keeps := .refl u
  keyed hd := (h hd).keyed
  added := .inl

/-- A branch is a branch of itself. -/
theorem IsBranch.self (h : b.IsBranch u) : u.IsBranch u where
  keeps := .refl u
  keyed := h.keyed
  added := .inl

theorem IsBranch.intern (h : b.IsBranch u) (hd : d.Arises) : b.IsBranch (u.intern d).2 where
  keeps := h.keeps.trans (extends_intern u d)
  keyed {id e} he := by
    rcases of_get?_intern he with hold | ⟨rfl, rfl⟩
    · exact lookup?_intern_of_lookup? (h.keyed hold)
    · exact lookup?_intern u e
  added he := by
    rcases of_get?_intern he with hold | ⟨-, rfl⟩
    · exact h.added hold
    · exact .inr hd

/-- A known plain key that is not a built-in type's is known to the base, or that
of an open container. -/
theorem IsBranch.of_lookup? (h : b.IsBranch u) (hplain : isPlainKey key = true)
    (hbuiltin : ∀ b : Builtin, key ≠ b.fullName) (hl : u.lookup? key = some i) :
    (∃ d, b.get? i = some d ∧ d.key = key) ∨ ∃ c : Container, key = c.fullName := by
  obtain ⟨d, hd, rfl⟩ := get?_of_lookup? hl
  rcases h.added hd with hold | harises
  · exact .inl ⟨d, hold, rfl⟩
  · exact .inr (harises.container hplain hbuiltin)

/-- Whether two universes are branches of one, the second of which knows the open
containers that the first knows. -/
structure Split (b u v : Universe) : Prop where
  left : b.IsBranch u
  right : b.IsBranch v
  known : ∀ c : Container, v.lookup? c.fullName = none → u.lookup? c.fullName = none

/-- Whether two ids have types with one key. -/
def Twins (u v : Universe) (i j : TypeId) : Prop :=
  ∃ d e, u.get? i = some d ∧ v.get? j = some e ∧ d.key = e.key

theorem Twins.extend {u' v' : Universe} (h : Twins u v i j) (hu : u.Extends u')
    (hv : v.Extends v') : Twins u' v' i j := by
  obtain ⟨d, e, hd, he, hkey⟩ := h
  exact ⟨d, e, hu.type hd, hv.type he, hkey⟩

theorem Twins.keyOf (h : Twins u v i j) : u.keyOf i = v.keyOf j := by
  obtain ⟨d, e, hd, he, hkey⟩ := h
  rw [keyOf_of_get? hd, keyOf_of_get? he, hkey]

theorem twins_of_lookup? (hi : u.lookup? key = some i) (hj : v.lookup? key = some j) :
    Twins u v i j := by
  obtain ⟨d, hd, hkey⟩ := get?_of_lookup? hi
  obtain ⟨e, he, hkey'⟩ := get?_of_lookup? hj
  exact ⟨d, e, hd, he, hkey.trans hkey'.symm⟩

namespace Split

/-- Types of one key take the same arguments. -/
theorem arity?_eq (h : Split b u v) (hd : u.get? i = some d) (he : v.get? j = some e)
    (hkey : d.key = e.key) : arity? d = arity? e := by
  have hi := h.left.keyed hd
  have hj := h.right.keyed he
  rcases h.left.added hd with hbase | harises
  · -- the base has the type, and so has the other branch under that key
    have same := h.right.keyed (h.right.keeps.type hbase)
    rw [hkey, hj] at same
    cases same
    cases he.symm.trans (h.right.keeps.type hbase)
    rfl
  · rcases h.right.added he with hbase | harises'
    · have same := h.left.keyed (h.left.keeps.type hbase)
      rw [← hkey, hi] at same
      cases same
      cases hd.symm.trans (h.left.keeps.type hbase)
      rfl
    · rw [harises.arity?, harises'.arity?, hkey]

/-- Interning one key in both branches. -/
theorem intern (h : Split b u v) (hd : d.Arises) (he : e.Arises) (hkey : d.key = e.key) :
    Split b (u.intern d).2 (v.intern e).2 ∧
      Twins (u.intern d).2 (v.intern e).2 (u.intern d).1 (v.intern e).1 := by
  refine ⟨⟨h.left.intern hd, h.right.intern he, fun c hnone => ?_⟩, ?_⟩
  · have hv : v.lookup? c.fullName = none := by
      cases hl : v.lookup? c.fullName with
      | none => rfl
      | some i => exact absurd (hnone.symm.trans (lookup?_intern_of_lookup? hl)) nofun
    cases hl : (u.intern d).2.lookup? c.fullName with
    | none => rfl
    | some i =>
      obtain ⟨f, hf, hfkey⟩ := get?_of_lookup? hl
      rcases of_get?_intern hf with hold | ⟨-, rfl⟩
      · have := h.left.keyed hold
        rw [hfkey, h.known c hv] at this
        cases this
      · rw [← hfkey, hkey, lookup?_intern] at hnone
        cases hnone
  · refine twins_of_lookup? (lookup?_intern u d) ?_
    rw [hkey]
    exact lookup?_intern v e

/-- What the first branch finds under a plain key, the second finds as well. -/
theorem of_lookup? (h : Split b u v) (hplain : isPlainKey key = true)
    (hbuiltin : ∀ b : Builtin, key ≠ b.fullName) (hl : u.lookup? key = some i) :
    ∃ j, v.lookup? key = some j ∧ Twins u v i j := by
  have found : ∃ j, v.lookup? key = some j := by
    rcases h.left.of_lookup? hplain hbuiltin hl with ⟨d, hd, rfl⟩ | ⟨c, rfl⟩
    · exact ⟨i, h.right.keyed (h.right.keeps.type hd)⟩
    · cases hv : v.lookup? c.fullName with
      | some j => exact ⟨j, rfl⟩
      | none => exact absurd ((h.known c hv).symm.trans hl) nofun
  obtain ⟨j, hj⟩ := found
  exact ⟨j, hj, twins_of_lookup? hl hj⟩

/-- Only an open container is found in the second branch under a plain key and
not in the first. -/
theorem of_lookup?_eq_none (h : Split b u v) (hplain : isPlainKey key = true)
    (hbuiltin : ∀ b : Builtin, key ≠ b.fullName) (hl : u.lookup? key = none)
    (hv : v.lookup? key = some j) : ∃ c : Container, key = c.fullName := by
  rcases h.right.of_lookup? hplain hbuiltin hv with ⟨d, hd, rfl⟩ | hcontainer
  · have := h.left.keyed (h.left.keeps.type hd)
    rw [hl] at this
    cases this
  · exact hcontainer

end Split

end Universe

end TypeExport
