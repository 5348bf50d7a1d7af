import TypeExport.Proofs.Universe.Closable

/-!
# Resolving elsewhere

A universe covers another when it knows the keys of the other, each with a type
that can be closed over the same numbers of arguments (`Universe.Covers`).  What
is resolved in the one is resolved in the other, to a type with the same key, and
the two end in universes of which the second covers the first
(`Builder.follows_resolve`).  Ids may differ on the way, because one universe
interns what the other has.

A later universe covers the one where all types are declared.  So a reference
that is resolved there is resolved whatever else was resolved before
(`Builder.fails_of_resolves`): the order of the declarations does not matter.
-/

namespace TypeExport

namespace Universe

variable {u v u' v' : Universe} {id i : TypeId} {d e : Descriptor} {scope : List TypeId}

/-- Whether one type may stand for another in a reference. -/
structure Matches (d e : Descriptor) : Prop where
  key : e.key = d.key
  /-- It can be closed over as many arguments. -/
  takes : ∀ {count}, d.kind.Takes count → e.kind.Takes count

/-- Whether a universe has all the keys of another. -/
structure Covers (scope : List TypeId) (u v : Universe) : Prop where
  known : ∀ {id d}, u.get? id = some d →
    ∃ i e, v.lookup? d.key = some i ∧ v.get? i = some e ∧ Matches d e
  /-- A container that the other has not interned is not in the way. -/
  free : ∀ {c : Container} {i e}, u.lookup? c.fullName = none → v.lookup? c.fullName = some i →
    v.get? i = some e → e.kind.Takes c.arity
  /-- The scope is the same. -/
  scope : ∀ p ∈ scope, ∃ d e, u.get? p = some d ∧ v.get? p = some e ∧ Matches d e ∧ e.name = d.name

/-- Whether two ids have matching types. -/
def Pairs (u v : Universe) (id i : TypeId) : Prop :=
  ∃ d e, u.get? id = some d ∧ v.get? i = some e ∧ Matches d e

theorem Matches.refl (d : Descriptor) : Matches d d := ⟨rfl, fun h => h⟩

theorem Pairs.extend (h : Pairs u v id i) (hu : u.Extends u') (hv : v.Extends v') :
    Pairs u' v' id i := by
  obtain ⟨d, e, hd, he, hmatch⟩ := h
  exact ⟨d, e, hu.type hd, hv.type he, hmatch⟩

theorem Pairs.keyOf (h : Pairs u v id i) : v.keyOf i = u.keyOf id := by
  obtain ⟨d, e, hd, he, hmatch⟩ := h
  rw [keyOf_of_get? hd, keyOf_of_get? he, hmatch.key]

/-- A known key is known to the universe that covers. -/
theorem Covers.lookup {key : String} (h : Covers scope u v) (hl : u.lookup? key = some id) :
    ∃ i, v.lookup? key = some i ∧ Pairs u v id i := by
  obtain ⟨d, hd, rfl⟩ := get?_of_lookup? hl
  obtain ⟨i, e, hi, he, hmatch⟩ := h.known hd
  exact ⟨i, hi, d, e, hd, he, hmatch⟩

/-- The universe of the declared types is covered by every later one. -/
theorem Covers.of_retains (h : u.Sound) (hs : ∀ p ∈ scope, u.Issued p) (keeps : u.Retains v) :
    Covers scope u v where
  known {id d} hd := by
    obtain ⟨ms, c, he⟩ := keeps.type hd
    exact ⟨id, _, keeps.lookup (h hd).keyed, he, rfl, fun ht => ht⟩
  free {c i e} hnone hi he := by
    obtain ⟨e', he', hkey⟩ := get?_of_lookup? hi
    cases he'.symm.trans he
    rcases keeps.added he with hissued | hintrinsic
    · obtain ⟨d, hd⟩ := issued_iff.1 hissued
      obtain ⟨ms, context, he''⟩ := keeps.type hd
      cases he.symm.trans he''
      have hkeyed : u.lookup? d.key = some i := (h hd).keyed
      rw [show d.key = c.fullName from hkey, hnone] at hkeyed
      cases hkeyed
    · exact takes_of_isIntrinsic hintrinsic hkey
  scope p hp := by
    obtain ⟨d, hd⟩ := issued_iff.1 (hs p hp)
    obtain ⟨ms, c, he⟩ := keeps.type hd
    exact ⟨d, _, hd, he, ⟨rfl, fun ht => ht⟩, rfl⟩

/-- Interning matching types gives matching ids, if the key is no obstacle. -/
theorem Covers.pairs_intern (h : Covers scope u v) (hmatch : Matches d e)
    (hfree : u.lookup? d.key = none → ∀ {i f}, v.lookup? d.key = some i → v.get? i = some f →
      ∀ {count}, d.kind.Takes count → f.kind.Takes count) :
    Pairs (u.intern d).2 (v.intern e).2 (u.intern d).1 (v.intern e).1 := by
  cases hu : u.lookup? d.key with
  | some id =>
    obtain ⟨i, hi, hpairs⟩ := h.lookup hu
    rw [intern_of_lookup? hu, intern_of_lookup? (hmatch.key ▸ hi)]
    exact hpairs
  | none =>
    have hd : (u.intern d).2.get? (u.intern d).1 = some d := by
      rw [get?_intern_of_lookup?_eq_none hu, intern_of_lookup?_eq_none hu, if_pos rfl]
    cases hv : v.lookup? e.key with
    | some i =>
      obtain ⟨f, hf, hkey⟩ := get?_of_lookup? hv
      rw [intern_of_lookup? hv]
      exact ⟨d, f, hd, hf, hkey.trans hmatch.key, hfree hu (hmatch.key ▸ hv) hf⟩
    | none =>
      refine ⟨d, e, hd, ?_, hmatch⟩
      rw [get?_intern_of_lookup?_eq_none hv, intern_of_lookup?_eq_none hv, if_pos rfl]

/-- Interning matching types leaves the one universe covered by the other. -/
theorem Covers.intern (h : Covers scope u v) (hmatch : Matches d e)
    (hpairs : Pairs (u.intern d).2 (v.intern e).2 (u.intern d).1 (v.intern e).1) :
    Covers scope (u.intern d).2 (v.intern e).2 where
  known {id f} hf := by
    rcases of_get?_intern hf with hold | ⟨hid, rfl⟩
    · obtain ⟨i, g, hi, hg, hmatch'⟩ := h.known hold
      exact ⟨i, g, lookup?_intern_of_lookup? hi, get?_intern_of_get? hg, hmatch'⟩
    · obtain ⟨d', g, hd', hg, hmatch'⟩ := hpairs
      cases (hid ▸ hf).symm.trans hd'
      exact ⟨_, g, hmatch.key ▸ lookup?_intern v e, hg, hmatch'⟩
  free {c i f} hnone hi hf := by
    have hne : d.key ≠ c.fullName := by
      intro hkey
      rw [← hkey, lookup?_intern] at hnone
      cases hnone
    have hu : u.lookup? c.fullName = none := by
      cases hu : u.lookup? c.fullName with
      | none => rfl
      | some id =>
        rw [lookup?_intern_of_lookup? hu] at hnone
        cases hnone
    obtain ⟨f', hf', hkey⟩ := get?_of_lookup? hi
    cases hf'.symm.trans hf
    rcases of_get?_intern hf with hold | ⟨-, rfl⟩
    · -- the key was known before, with the same id
      cases hv : v.lookup? c.fullName with
      | none => exact absurd hkey (lookup?_eq_none_iff.1 hv f (Array.mem_of_getElem? hold))
      | some j =>
        cases (lookup?_intern_of_lookup? hv).symm.trans hi
        exact h.free hu hv hold
    · exact absurd (hmatch.key.symm.trans hkey) hne
  scope p hp := by
    obtain ⟨d', e', hd', he', hmatch'⟩ := h.scope p hp
    exact ⟨d', e', get?_intern_of_get? hd', get?_intern_of_get? he', hmatch'⟩

end Universe

namespace Builder

open Universe

variable {α β : Type} {u v : Universe} {scope : List TypeId}

/-- Whether a step that succeeds in one universe succeeds in another that covers
it, with related results. -/
def Follows (scope : List TypeId) (R : Universe → Universe → α → α → Prop) (x y : Builder α)
    (u v : Universe) : Prop :=
  ∀ a u', x u = .ok a u' → ∃ b v', y v = .ok b v' ∧ Covers scope u' v' ∧ u.Extends u' ∧
    v.Extends v' ∧ R u' v' a b

namespace Follows

variable {R : Universe → Universe → α → α → Prop}

theorem pure {a b : α} (h : Covers scope u v) (hr : R u v a b) :
    Follows scope R (pure a) (pure b) u v := by
  rintro _ _ ⟨⟩
  exact ⟨b, v, rfl, h, .refl u, .refl v, hr⟩

theorem throw (e : BuildError) (y : Builder α) : Follows scope R (throw e) y u v := by
  rintro _ _ ⟨⟩

theorem bind {Q : Universe → Universe → β → β → Prop} {x y : Builder β} {f g : β → Builder α}
    (hx : Follows scope Q x y u v)
    (hf : ∀ a b u' v', Covers scope u' v' → u.Extends u' → v.Extends v' → Q u' v' a b →
      Follows scope R (f a) (g b) u' v') : Follows scope R (x >>= f) (y >>= g) u v := by
  intro c w h
  obtain ⟨a, u', ha, hc⟩ := bind_eq_ok_iff.1 h
  obtain ⟨b, v', hb, covers, hu, hv, hq⟩ := hx a u' ha
  obtain ⟨d, w', hd, covers', hu', hv', hr⟩ := hf a b u' v' covers hu hv hq c w hc
  exact ⟨d, w', bind_eq_ok_iff.2 ⟨b, v', hb, hd⟩, covers', hu.trans hu', hv.trans hv', hr⟩

end Follows

/-! ## Types -/

theorem follows_intern {d e : Descriptor} (h : Covers scope u v) (hmatch : Matches d e)
    (hfree : u.lookup? d.key = none → ∀ {i f}, v.lookup? d.key = some i → v.get? i = some f →
      ∀ {count}, d.kind.Takes count → f.kind.Takes count) :
    Follows scope Pairs (intern d) (intern e) u v := by
  rintro _ _ ⟨⟩
  have hpairs := h.pairs_intern hmatch hfree
  exact ⟨_, _, rfl, h.intern hmatch hpairs, extends_intern u d, extends_intern v e, hpairs⟩

/-- A type that takes no arguments is never an obstacle. -/
theorem follows_intern_of_not_takes {d e : Descriptor} (h : Covers scope u v)
    (hkey : e.key = d.key) (hd : ∀ count, ¬ d.kind.Takes count) :
    Follows scope Pairs (intern d) (intern e) u v :=
  follows_intern h ⟨hkey, fun ht => absurd ht (hd _)⟩ fun _ _ _ _ _ _ ht => absurd ht (hd _)

theorem follows_container (h : Covers scope u v) (c : Container) :
    Follows scope Pairs (container c) (container c) u v := by
  refine follows_intern h (.refl _) fun hnone i f hi hf count ht => ?_
  obtain rfl : count = c.arity := ht
  exact h.free hnone hi hf

theorem follows_arrayOf {id i : TypeId} (h : Covers scope u v) (hpairs : Pairs u v id i) :
    Follows scope Pairs (arrayOf id) (arrayOf i) u v := by
  obtain ⟨d, e, hd, he, hmatch⟩ := hpairs
  refine Follows.bind (Q := fun u' v' a b => u' = u ∧ v' = v ∧ Matches a b) ?_ ?_
  · intro a u' ha
    obtain ⟨ha', rfl⟩ := view_eq_ok_iff.1 ha
    cases ha'.symm.trans hd
    exact ⟨e, v, view_eq_ok_iff.2 ⟨he, rfl⟩, h, .refl _, .refl v, rfl, rfl, hmatch⟩
  · rintro a b u' v' covers - - ⟨-, -, hab⟩
    refine follows_intern_of_not_takes covers ?_ fun _ ht => ht
    show b.key ++ "[]" = a.key ++ "[]"
    rw [hab.key]

/-- Matching definitions are closed over matching arguments alike. -/
theorem instanceOf_of_pairs {f g : TypeId} {as bs : List TypeId} {d : Descriptor}
    (hdefinition : Pairs u v f g) (harguments : List.Forall₂ (Pairs u v) as bs)
    (h : instanceOf f as u = .ok d) :
    ∃ e, instanceOf g bs v = .ok e ∧ e.key = d.key ∧ ∀ count, ¬ d.kind.Takes count := by
  have closes := closes_of_instanceOf h
  obtain ⟨f', g', hf', hg', hmatch⟩ := hdefinition
  have htakes : g'.kind.Takes bs.length := by
    obtain ⟨f'', hf'', ht⟩ := closes.takes
    cases hf'.symm.trans hf''
    rw [← harguments.length_eq]
    exact hmatch.takes ht
  have hissued : ∀ b ∈ bs, v.Issued b := by
    intro b hb
    obtain ⟨a, -, -, e, -, he, -⟩ := exists_of_mem_forall₂ harguments hb
    exact issued_of_get? he
  obtain ⟨e, he⟩ := exists_instanceOf hg' htakes hissued
  have hkeys : bs.map v.keyOf = as.map u.keyOf := by
    clear h closes htakes hissued he
    induction harguments with
    | nil => rfl
    | cons hab _ ih => rw [List.map_cons, List.map_cons, hab.keyOf, ih]
  refine ⟨e, he, ?_, fun count ht => ?_⟩
  · rw [(closes_of_instanceOf he).key, closes.key, hkeys, keyOf_of_get? hf', keyOf_of_get? hg',
      hmatch.key]
  · rw [closes.kind] at ht
    exact ht

/-- What is interned is the instance of a definition, if there is one. -/
theorem follows_ask_intern {question question' : Universe → Except BuildError Descriptor}
    (h : Covers scope u v) (hq : ∀ {d}, question u = .ok d → ∃ e, question' v = .ok e ∧
      e.key = d.key ∧ ∀ count, ¬ d.kind.Takes count) :
    Follows scope Pairs (do intern (← ask question)) (do intern (← ask question')) u v := by
  refine Follows.bind (Q := fun _ _ d e => e.key = d.key ∧ ∀ count, ¬ d.kind.Takes count) ?_ ?_
  · intro d u' hd
    obtain ⟨hquestion, rfl⟩ := ask_eq_ok_iff.1 hd
    obtain ⟨e, he, hmatch⟩ := hq hquestion
    exact ⟨e, v, ask_eq_ok_iff.2 ⟨he, rfl⟩, h, .refl _, .refl v, hmatch⟩
  · rintro d e u' v' covers - - ⟨hkey, htakes⟩
    exact follows_intern_of_not_takes covers hkey htakes

theorem follows_close {f g : TypeId} {as bs : List TypeId} (h : Covers scope u v)
    (hdefinition : Pairs u v f g) (harguments : List.Forall₂ (Pairs u v) as bs) :
    Follows scope Pairs (close f as) (close g bs) u v :=
  follows_ask_intern h (instanceOf_of_pairs hdefinition harguments)

theorem follows_nullableOf {x y : TypeId} (h : Covers scope u v) (hpairs : Pairs u v x y) :
    Follows scope Pairs (nullableOf x) (nullableOf y) u v := by
  refine (follows_container h .nullable).bind fun f g u' v' covers hu hv hfg => ?_
  refine follows_ask_intern covers fun {d} hd => ?_
  obtain ⟨e, he, hmatch⟩ := instanceOf_of_pairs hfg (.cons (hpairs.extend hu hv) .nil)
    (mapError_eq_ok_iff.1 hd)
  exact ⟨e, mapError_eq_ok_iff.2 he, hmatch⟩

/-! ## References -/

theorem follows_get_bind {R : Universe → Universe → α → α → Prop} {f g : Universe → Builder α}
    (h : Follows scope R (f u) (g v) u v) : Follows scope R (get >>= f) (get >>= g) u v := h

theorem follows_declared (h : Covers scope u v) (name : String) (arity : Nat) :
    Follows scope Pairs (declared name arity) (declared name arity) u v := by
  refine follows_get_bind ?_
  cases hl : declared? u name arity with
  | none => exact .throw _ _
  | some id =>
    obtain ⟨i, hi, hpairs⟩ := h.lookup hl
    rw [show declared? v name arity = some i from hi]
    exact .pure h hpairs

theorem follows_definitionOf (h : Covers scope u v) (name : String) (arity : Nat) :
    Follows scope Pairs (definitionOf name arity) (definitionOf name arity) u v := by
  unfold definitionOf
  split
  · exact follows_container h _
  · exact follows_declared h name arity

theorem inScope?_of_covers (h : Covers scope u v) (name : String) :
    inScope? v scope name = inScope? u scope name := by
  unfold inScope?
  have hs := h.scope
  clear h
  induction scope with
  | nil => rfl
  | cons p ps ih =>
    obtain ⟨⟨d, e, hd, he, -, hname⟩, hps⟩ := List.forall_mem_cons.1 hs
    rw [List.find?_cons, List.find?_cons, ih hps, hd, he, Option.any_some, Option.any_some, hname]

theorem follows_resolve_name (h : Covers scope u v) (name : String) :
    Follows scope Pairs (resolve scope (.named name [])) (resolve scope (.named name [])) u v := by
  rw [resolve]
  refine follows_get_bind ?_
  rw [inScope?_of_covers h]
  split
  · rename_i id hid
    obtain ⟨d, e, hd, he, hmatch, -⟩ := h.scope id (mem_of_inScope? hid)
    exact .pure h ⟨d, e, hd, he, hmatch⟩
  · split
    · exact follows_intern_of_not_takes h rfl fun _ ht => ht
    · exact follows_declared h name 0

mutual

/-- What is resolved in a universe is resolved in one that covers it. -/
theorem follows_resolve {u v : Universe} (h : Covers scope u v) :
    ∀ r : TypeRef, Follows scope Pairs (resolve scope r) (resolve scope r) u v
  | .array element => by
    rw [resolve]
    exact (follows_resolve h element).bind fun a b u' v' covers _ _ hab => follows_arrayOf covers hab
  | .nullable underlying => by
    rw [resolve]
    exact (follows_resolve h underlying).bind fun a b u' v' covers _ _ hab =>
      follows_nullableOf covers hab
  | .named name [] => follows_resolve_name h name
  | .named name (a :: as) => by
    rw [resolve_closed]
    refine (follows_definitionOf h _ _).bind fun f g u' v' covers _ _ hfg => ?_
    refine (follows_resolve covers a).bind fun x y u₁ v₁ covers₁ hu₁ hv₁ hxy => ?_
    refine (follows_resolveAll covers₁ as).bind fun xs ys u₂ v₂ covers₂ hu₂ hv₂ hxys => ?_
    exact follows_close covers₂ ((hfg.extend hu₁ hv₁).extend hu₂ hv₂)
      (.cons (hxy.extend hu₂ hv₂) hxys)

theorem follows_resolveAll {u v : Universe} (h : Covers scope u v) :
    ∀ rs : List TypeRef, Follows scope (fun u v ids is => List.Forall₂ (Pairs u v) ids is)
      (resolveAll scope rs) (resolveAll scope rs) u v
  | [] => by
    rw [resolveAll]
    exact .pure h .nil
  | r :: rs => by
    rw [resolveAll]
    refine (follows_resolve h r).bind fun x y u₁ v₁ covers₁ _ _ hxy => ?_
    refine (follows_resolveAll covers₁ rs).bind fun xs ys u₂ v₂ covers₂ hu₂ hv₂ hxys => ?_
    exact .pure covers₂ (.cons (hxy.extend hu₂ hv₂) hxys)

end

/-- What is resolved where all types are declared is resolved later, whatever
was resolved before. -/
theorem fails_of_resolves (h : u.Sound) (hs : ∀ p ∈ scope, u.Issued p) {reference : String}
    (hok : ∃ id v, resolveText scope reference u = .ok id v) :
    Fails (fun _ => False) scope reference u := by
  intro v keeps
  obtain ⟨id, u', hrun⟩ := hok
  unfold resolveText at hrun ⊢
  cases hparse : TypeRef.parse reference with
  | error cause =>
    rw [hparse] at hrun
    cases hrun
  | ok ref =>
    rw [hparse] at hrun
    obtain ⟨i, v', hi, -⟩ := follows_resolve (.of_retains h hs keeps) ref id u' hrun
    simp only [Ends, hi]

end Builder

end TypeExport
