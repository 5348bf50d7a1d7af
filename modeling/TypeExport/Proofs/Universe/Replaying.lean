import TypeExport.Proofs.Universe.Operations

/-!
# Resolving once more

A reference that was resolved means the same type from then on, and to resolve it
again interns nothing.  Whatever is asked of the universe in between, it still knows
all of a type that resolving looks at (`Universe.remembers_history`).

A reference that was not resolved fails again at once.  The first attempt leaves what
it interned before it failed, so the second does not start where the first did.  It
finds the types of the first, interns none, and comes to the same failure
(`Builder.recurs_resolveText`).
-/

namespace TypeExport

/-- Operations that follow leave everything of a type but its members and their
default flag, and the id of every key. -/
theorem Universe.remembers_history {u : Universe} (h : u.Indexed) (ops : List Operation) :
    u.Remembers (history u ops) where
  type hd := ⟨_, _, (get?_history h ops).2 _ _ hd⟩
  lookup hl := by
    obtain ⟨d, hd, hkey⟩ := get?_of_lookup? hl
    obtain ⟨indexed, later⟩ := get?_history h ops
    rw [← hkey]
    have found := indexed (later _ d hd)
    exact found

namespace Builder

open Universe

variable {α β : Type} {u v : Universe} {scope : List TypeId}

/-- Composing types keeps the types that were there. -/
theorem composes_extends (b : Universe) : Composes b.Extends where
  builtin _ := .intern fun u h => h.trans (extends_intern u _)
  container _ := .intern fun u h => h.trans (extends_intern u _)
  arrayOf _ := .bind (.ask _) fun _ => .intern fun u h => h.trans (extends_intern u _)
  close _ _ := .ask_intern fun u d h _ => h.trans (extends_intern u d)
  closeContainer _ _ := .bind (.intern fun u h => h.trans (extends_intern u _)) fun _ =>
    .ask_intern fun u d h _ => h.trans (extends_intern u d)

/-! ## Steps that fail where they start -/

/-- Whether a step that fails leaves the universe as it was. -/
def FailsInPlace (x : Builder α) : Prop := ∀ u, Ends x u (fun _ _ => True) fun _ v => v = u

theorem failsInPlace_declared (name : String) (arity : Nat) :
    FailsInPlace (declared name arity) := by
  intro u
  apply ends_bind.2
  apply ends_get.2
  split
  · exact trivial
  · exact rfl

theorem failsInPlace_definitionOf (name : String) (arity : Nat) :
    FailsInPlace (definitionOf name arity) := by
  unfold definitionOf
  split
  · exact fun _ => trivial
  · exact failsInPlace_declared name arity

theorem failsInPlace_resolve_name (scope : List TypeId) (name : String) :
    FailsInPlace (resolve scope (.named name [])) := by
  intro u
  rw [resolve]
  apply ends_bind.2
  apply ends_get.2
  split
  · exact trivial
  · split
    · exact trivial
    · exact failsInPlace_declared name 0 u

/-- Interning does not fail, so a question fails before it. -/
theorem failsInPlace_ask_intern {question : Universe → Except BuildError α} {f : α → Descriptor} :
    FailsInPlace (do intern (f (← ask question))) := by
  intro u
  apply ends_bind.2
  apply ends_ask.2
  split
  · exact trivial
  · exact rfl

/-! ## Steps that fail again -/

/-- Whether a step that fails, fails in the universe that it leaves in the same way and
leaves it as it is. -/
def Recurs (x : Builder α) (u : Universe) : Prop := ∀ e v, x u = .error e v → x v = .error e v

theorem FailsInPlace.recurs {x : Builder α} (h : FailsInPlace x) : Recurs x u := by
  intro e v hx
  obtain rfl : v = u := (h u).bad_of_eq hx
  exact hx

/-- A failure comes again when the steps in front of it last, and it keeps what they
found. -/
theorem recurs_bind {x : Builder β} {f : β → Builder α} (lasts : Lasts x u) (hx : Recurs x u)
    (hf : ∀ b v, u.Grows v → Recurs (f b) v) (keeps : ∀ b w, Maintains (Extends w) (f b)) :
    Recurs (x >>= f) u := by
  intro e w h
  rcases bind_eq_error_iff.1 h with hfirst | ⟨b, v, hb, hsecond⟩
  · exact bind_eq_error_iff.2 (.inl (hx e w hfirst))
  · obtain ⟨grows, again⟩ := lasts b v hb
    have hkept : v.Extends w := (keeps b v v (.refl v)).bad_of_eq hsecond
    exact bind_eq_error_iff.2 (.inr ⟨b, w, again w hkept.remembers, hf b v grows e w hsecond⟩)

theorem recurs_closeContainer (c : Container) (arguments : List TypeId) :
    Recurs (closeContainer c arguments) u := by
  refine recurs_bind (lasts_intern rfl rfl) ?_ (fun _ v _ => ?_) fun _ v => ?_
  · exact FailsInPlace.recurs fun _ => trivial
  · exact (failsInPlace_ask_intern (f := id)).recurs
  · exact .ask_intern fun u d h _ => h.trans (extends_intern u d)

mutual

/-- A reference that is not resolved fails again. -/
theorem recurs_resolve {u : Universe} (hs : ∀ p ∈ scope, u.Issued p) :
    ∀ r : TypeRef, Recurs (resolve scope r) u
  | .array element => by
    rw [resolve]
    exact recurs_bind (lasts_resolve hs element) (recurs_resolve hs element)
      (fun _ _ _ => failsInPlace_ask_intern.recurs) fun e v => (composes_extends v).arrayOf e
  | .nullable underlying => by
    rw [resolve]
    exact recurs_bind (lasts_resolve hs underlying) (recurs_resolve hs underlying)
      (fun x _ _ => recurs_closeContainer _ [x])
      fun x v => (composes_extends v).closeContainer _ [x]
  | .named name [] => (failsInPlace_resolve_name scope name).recurs
  | .named name (a :: as) => by
    rw [resolve_closed]
    refine recurs_bind (lasts_definitionOf _ _) (failsInPlace_definitionOf _ _).recurs
      (fun definition v grows => ?_) fun definition v =>
        ((composes_extends v).resolve scope a).bind fun x =>
          ((composes_extends v).resolveAll scope as).bind fun xs =>
            (composes_extends v).close definition (x :: xs)
    have hv : ∀ p ∈ scope, v.Issued p := fun p hp => grows.issued (hs p hp)
    refine recurs_bind (lasts_resolve hv a) (recurs_resolve hv a)
      (fun x w grows' => ?_) fun x w =>
        ((composes_extends w).resolveAll scope as).bind fun xs =>
          (composes_extends w).close definition (x :: xs)
    have hw : ∀ p ∈ scope, w.Issued p := fun p hp => grows'.issued (hv p hp)
    exact recurs_bind (lasts_resolveAll hw as) (recurs_resolveAll hw as)
      (fun _ _ _ => (failsInPlace_ask_intern (f := id)).recurs)
      fun xs z => (composes_extends z).close definition (x :: xs)

theorem recurs_resolveAll {u : Universe} (hs : ∀ p ∈ scope, u.Issued p) :
    ∀ rs : List TypeRef, Recurs (resolveAll scope rs) u
  | [] => by
    rw [resolveAll]
    exact FailsInPlace.recurs fun _ => trivial
  | r :: rs => by
    rw [resolveAll]
    refine recurs_bind (lasts_resolve hs r) (recurs_resolve hs r) (fun id v grows => ?_)
      fun id v => ((composes_extends v).resolveAll scope rs).bind fun ids => .pure (id :: ids)
    have hv : ∀ p ∈ scope, v.Issued p := fun p hp => grows.issued (hs p hp)
    exact recurs_bind (lasts_resolveAll hv rs) (recurs_resolveAll hv rs)
      (fun _ _ _ => FailsInPlace.recurs fun _ => trivial) fun ids _ => .pure (id :: ids)

end

/-- The text of a reference that is not resolved fails again. -/
theorem recurs_resolveText (hs : ∀ p ∈ scope, u.Issued p) (text : String) :
    Recurs (resolveText scope text) u := by
  unfold resolveText
  split
  · exact recurs_resolve hs _
  · exact FailsInPlace.recurs fun _ => rfl

end Builder

namespace Universe

/-- Resolution is stable in every universe that operations lead to, each of which
succeeded or failed.  A reference that is resolved means the same type after any further
operations, none included, and to resolve it again interns nothing.  A reference that is
not resolved fails again at once with the same error, and interns nothing more. -/
theorem resolution_stable (ops : List Operation) {scope : List TypeId}
    (hs : ∀ p ∈ scope, (universeAfter ops).Issued p) (text : String) :
    (∀ id v, Builder.resolveText scope text (universeAfter ops) = .ok id v → ∀ more,
      Builder.resolveText scope text (history v more) = .ok id (history v more)) ∧
    (∀ e v, Builder.resolveText scope text (universeAfter ops) = .error e v →
      Builder.resolveText scope text v = .error e v) := by
  have spared := (indexed_universeAfter ops).spared
  constructor
  · intro id v h more
    obtain ⟨-, again⟩ := Builder.lasts_resolveText hs text id v h
    have indexed : v.Indexed :=
      (Builder.composes_spared.resolveText scope text _ spared).good_of_eq h |>.indexed
    exact again _ (remembers_history indexed more)
  · exact Builder.recurs_resolveText hs text

/-- A list of arrays of a type parameter is resolved, and a list of an unknown type is
not, though the open list is interned. -/
theorem resolution_stable_box :
    let u := universeAfter [.genericObject "Box" ["T"]]
    let v := leaves (Builder.resolveText [⟨1⟩] "List<T[]>") u
    let w := leaves (Builder.resolveText [⟨1⟩] "List<Nope>") u
    (∀ p ∈ [⟨1⟩], u.Issued p) ∧ v.size = 5 ∧ w.size = 3 ∧
    (∀ more, Builder.resolveText [⟨1⟩] "List<T[]>" (history v more) = .ok ⟨4⟩ (history v more)) ∧
    Builder.resolveText [⟨1⟩] "List<Nope>" w = .error (.unknownType "Nope") w := by
  intro u v w
  have issued : ∀ p ∈ [⟨1⟩], u.Issued p := by decide +kernel
  have stable := resolution_stable [.genericObject "Box" ["T"]] issued
  have resolved : Builder.resolveText [⟨1⟩] "List<T[]>" u = .ok ⟨4⟩ v := by decide +kernel
  have failed : Builder.resolveText [⟨1⟩] "List<Nope>" u = .error (.unknownType "Nope") w := by
    decide +kernel
  exact ⟨issued, by decide +kernel, by decide +kernel, (stable _).1 _ _ resolved,
    (stable _).2 _ _ failed⟩

end Universe

end TypeExport
