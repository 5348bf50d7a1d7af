import TypeExport.Document.Load
import TypeExport.Proofs.Universe.Closable

/-!
# Steps that keep what holds of a universe

What holds of a universe before a step of building may hold after it as well,
whether the step succeeds or fails (`Builder.Maintains`).  Steps that keep it are
composed of steps that keep it.

Resolving a reference is composed of a few: it interns built-in types and open
containers, and closes definitions, containers and arrays over what it resolved
already.  What these keep, every reference keeps (`Builder.Composes.resolve`).
Declaring a type adds one of four kinds of types (`Builder.Declaring.declareEntry`).
Completing a declared type resolves a reference and adds a member, over and over
(`Builder.Completes.completeEntry`).
-/

namespace TypeExport.Builder

variable {α β : Type} {I : Universe → Prop}

/-- Whether a step, however it ends, keeps what holds of the universe. -/
def Maintains (I : Universe → Prop) (x : Builder α) : Prop :=
  ∀ u, I u → Ends x u (fun _ => I) fun _ => I

namespace Maintains

theorem pure (a : α) : Maintains I (pure a : Builder α) := fun _ h => ends_pure.2 h

theorem throw (e : BuildError) : Maintains I (throw e : Builder α) := fun _ h => ends_throw.2 h

theorem bind {x : Builder β} {f : β → Builder α} (hx : Maintains I x)
    (hf : ∀ c, Maintains I (f c)) : Maintains I (x >>= f) := fun u h =>
  ends_bind.2 ((hx u h).mono (fun c v hv => hf c v hv) fun _ _ hv => hv)

theorem get_bind {f : Universe → Builder α} (hf : ∀ w, Maintains I (f w)) :
    Maintains I (get >>= f) := fun u h => ends_bind.2 (ends_get.2 (hf u u h))

theorem ask (question : Universe → Except BuildError α) : Maintains I (ask question) := by
  intro u h
  apply ends_ask.2
  split <;> exact h

theorem intern {d : Descriptor} (hd : ∀ u, I u → I (u.intern d).2) : Maintains I (intern d) :=
  hd

/-- What is interned may depend on a question. -/
theorem ask_intern {question : Universe → Except BuildError Descriptor}
    (hd : ∀ u d, I u → question u = .ok d → I (u.intern d).2) :
    Maintains I (do Builder.intern (← Builder.ask question)) := by
  intro u h
  apply ends_bind.2
  apply ends_ask.2
  cases hquestion : question u with
  | ok d => exact hd u d h hquestion
  | error e => exact h

theorem modify {id : TypeId} {f : Descriptor → Descriptor} (hf : ∀ u, I u → I (u.modify id f)) :
    Maintains I (modify id f) :=
  bind (ask _) fun _ u h => ends_modifyGet.2 (hf u h)

theorem declared (name : String) (arity : Nat) : Maintains I (declared name arity) := by
  refine .get_bind fun w => ?_
  split
  · exact .pure _
  · exact .throw _

end Maintains

/-- Whether the steps that compose types keep what holds of the universe. -/
structure Composes (I : Universe → Prop) : Prop where
  builtin : ∀ b, Maintains I (builtin b)
  container : ∀ c, Maintains I (container c)
  arrayOf : ∀ element, Maintains I (arrayOf element)
  close : ∀ definition arguments, Maintains I (close definition arguments)
  closeContainer : ∀ c arguments, Maintains I (closeContainer c arguments)

namespace Composes

theorem definitionOf (h : Composes I) (name : String) (arity : Nat) :
    Maintains I (definitionOf name arity) := by
  unfold Builder.definitionOf
  split
  · exact h.container _
  · exact .declared name arity

mutual

/-- Resolving a reference is composed of these steps. -/
theorem resolve (h : Composes I) (scope : List TypeId) :
    ∀ r : TypeRef, Maintains I (resolve scope r)
  | .array element => by
    rw [Builder.resolve]
    exact (h.resolve scope element).bind h.arrayOf
  | .nullable underlying => by
    rw [Builder.resolve]
    exact (h.resolve scope underlying).bind fun x => h.closeContainer _ [x]
  | .named name [] => by
    rw [Builder.resolve]
    refine .get_bind fun w => ?_
    split
    · exact .pure _
    · split
      · exact h.builtin _
      · exact .declared name 0
  | .named name (a :: as) => by
    rw [resolve_closed]
    exact (h.definitionOf _ _).bind fun definition => (h.resolve scope a).bind fun x =>
      (h.resolveAll scope as).bind fun xs => h.close definition (x :: xs)

theorem resolveAll (h : Composes I) (scope : List TypeId) :
    ∀ rs : List TypeRef, Maintains I (resolveAll scope rs)
  | [] => by
    rw [Builder.resolveAll]
    exact .pure []
  | r :: rs => by
    rw [Builder.resolveAll]
    exact (h.resolve scope r).bind fun id =>
      (h.resolveAll scope rs).bind fun ids => .pure (id :: ids)

end

theorem resolveText (h : Composes I) (scope : List TypeId) (text : String) :
    Maintains I (resolveText scope text) := by
  unfold Builder.resolveText
  split
  · exact h.resolve scope _
  · exact .throw _

end Composes

/-! ## Declaring -/

/-- Whether the steps that add a declared type keep what holds of the universe. -/
structure Declaring (I : Universe → Prop) : Prop where
  object : ∀ fullName, Maintains I (object fullName)
  valueObject : ∀ fullName, Maintains I (valueObject fullName)
  genericObject : ∀ fullName parameters, Maintains I (genericObject fullName parameters)
  enumeration : ∀ fullName values, Maintains I (enumeration fullName values)

namespace Declaring

theorem declareEntry (h : Declaring I) (t : TypeEntry) : Maintains I (declareEntry t) := by
  refine .get_bind fun w => ?_
  split
  · exact .throw _
  · cases t with
    | object name parameters members context =>
      cases parameters with
      | nil => exact h.object name
      | cons p ps => exact h.genericObject name (p :: ps)
    | struct name members context => exact h.valueObject name
    | enumeration name values => exact h.enumeration name values

theorem declareEntries (h : Declaring I) (ts : List TypeEntry) :
    Maintains I (declareEntries ts) := by
  induction ts with
  | nil => exact .pure []
  | cons t ts ih => exact (h.declareEntry t).bind fun id => ih.bind fun ids => .pure (id :: ids)

end Declaring

/-! ## Completing -/

/-- Whether the steps that complete a type keep what holds of the universe. -/
structure Completes (I : Universe → Prop) (owner : TypeId) : Prop where
  member : ∀ scope (m : MemberEntry), Maintains I (do
    let type ← resolveText scope m.reference
    addMember owner ⟨m.name, type, m.annotations⟩)
  context : ∀ flag, Maintains I (setContext owner flag)

namespace Completes

variable {owner : TypeId}

theorem addMembers (h : Completes I owner) (scope : List TypeId) (ms : List MemberEntry) :
    Maintains I (addMembers owner scope ms) := by
  induction ms with
  | nil => exact .pure ()
  | cons m ms ih =>
    have member := (h.member scope m).bind fun _ => ih
    rw [bind_assoc] at member
    exact member

theorem parametersOf (owner : TypeId) : Maintains I (parametersOf owner) := by
  refine Maintains.bind (.ask _) fun d => ?_
  cases d.kind <;> exact .pure _

theorem completeEntry (h : Completes I owner) (t : TypeEntry) :
    Maintains I (completeEntry t owner) := by
  cases t with
  | enumeration name values => exact .pure ()
  | object _ _ _ context | struct _ _ context =>
    refine (parametersOf owner).bind fun scope => (h.addMembers scope _).bind fun _ => ?_
    cases context with
    | none => exact .pure ()
    | some flag => exact h.context flag

theorem completeEntries (pairs : List (TypeEntry × TypeId))
    (h : ∀ p ∈ pairs, Completes I p.2) : Maintains I (completeEntries pairs) := by
  induction pairs with
  | nil => exact .pure ()
  | cons p pairs ih =>
    have hrest := fun q hq => h q (List.mem_cons_of_mem _ hq)
    exact ((h p List.mem_cons_self).completeEntry p.1).bind fun _ => ih hrest

end Completes

theorem Maintains.resolveRoots (h : ∀ text, Maintains I (resolveText [] text))
    (rs : List String) : Maintains I (resolveRoots rs) := by
  induction rs with
  | nil => exact .pure []
  | cons r rs ih => exact (h r).bind fun id => ih.bind fun ids => .pure (id :: ids)

end TypeExport.Builder
