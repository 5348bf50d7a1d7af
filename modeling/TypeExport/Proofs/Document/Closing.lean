import TypeExport.Proofs.Universe.Closable

/-!
# What a load may not survive

A document is read or refused with an error of its own, with one exception.  It
may declare a type without parameters under the full name of a container
(`Document.Takes`).  The container cannot be closed from then on, and a
reference `T?` of the document is a fault if the container is `Nullable`.
Nothing else is a fault, and every other container can be closed over as many
types as it takes (`Builder.closes_containers`).
-/

namespace TypeExport

open Universe

/-- Whether a document declares a type without parameters under the full name of
a container. -/
def Document.Takes (d : Document) (c : Container) : Prop :=
  ∃ t ∈ d.types, t.arity = 0 ∧ t.name = c.fullName

namespace Builder

variable {u : Universe} {arguments : List TypeId} {c : Container}

/-- A container whose key belongs to a type that takes no arguments cannot be
closed. -/
theorem closeContainer_eq_error {id : TypeId} {d : Descriptor}
    (hl : u.lookup? c.fullName = some id) (hd : u.get? id = some d) (hnone : arity? d = none) :
    closeContainer c arguments u = .error (.fault (.unclosedContainer (.notGeneric d.key))) u := by
  have hintern : container c u = .ok id u := intern_eq_ok hl
  simp only [closeContainer, bind, EStateM.bind, hintern, ask,
    instanceOf_of_arity?_eq_none hd hnone, Except.mapError, unclosed]

/-- Where all types of a document are declared, the container keys that it takes
are taken and no others. -/
theorem closable_of_declaresAll {d : Document} {owners : List TypeId}
    (h : DeclaresAll {} u d.types owners) : u.Closable d.Takes :=
  closable_empty.declare h fun t ht harity _ hname => ⟨t, ht, harity, hname⟩

theorem refersWith_excused {d : Document} {owners : List TypeId}
    (h : DeclaresAll {} u d.types owners) : RefersWith (Excused d.Takes) u d := by
  have closable := closable_of_declaresAll h
  constructor
  · intro t _ id e declared m _
    exact fails_excused closable declared.issued_parameters m.reference
  · intro r _
    exact fails_excused closable (by simp) r

/-- A document that is loaded closes the containers that it does not take. -/
theorem Loads.closes {d : Document} {owners roots : List TypeId} {v w : Universe}
    (h : Loads {} v w d owners roots) (hi : ∀ a ∈ arguments, w.Issued a)
    (hlength : arguments.length = c.arity) :
    (∃ id z, closeContainer c arguments w = .ok id z) ↔ ¬ d.Takes c := by
  constructor
  · rintro ⟨id, z, hok⟩ ⟨t, ht, harity, hname⟩
    obtain ⟨owner, -, e, he⟩ := exists_of_forall₂_mem h.described ht
    have hl := he.found
    rw [TypeEntry.key, declaredKey_of_eq_zero harity, hname] at hl
    rw [closeContainer_eq_error hl he.type (he.arity?_eq_none harity)] at hok
    cases hok
  · intro htaken
    have closable := (closable_of_declaresAll h.declares).retain h.amends.toRetains
    obtain ⟨id, z, hok, -⟩ := ((ends_closeContainer closable c hi hlength).mono
      (fun _ _ h => h) fun _ _ h => htaken h.1).exists_ok
    exact ⟨id, z, hok⟩

/-- Loading a text ends well, or with an error that is no fault, unless a
document takes the key of `Nullable`.  When it ends well, each container can be
closed over as many issued types as it takes, unless the document takes its
key. -/
theorem closes_containers (text : String) :
    Ends (loadText text) {}
      (fun _ u => ∀ c arguments, (∀ a ∈ arguments, u.Issued a) → arguments.length = c.arity →
        ((∃ id v, closeContainer c arguments u = .ok id v) ↔
          ∀ d, Document.ofText? text = some d → ¬ d.Takes c))
      fun e _ => ∀ cause, e = .fault cause →
        cause = .unclosedContainer (.notGeneric Container.nullable.fullName) ∧
          ∃ d, Document.ofText? text = some d ∧ d.Takes .nullable := by
  unfold loadText
  cases hd : Document.ofText? text with
  | none =>
    refine ends_throw.2 ?_
    rintro _ ⟨⟩
  | some d =>
    refine (ends_load (Excused d.Takes) (fun _ _ => ?_) fun _ _ h =>
      refersWith_excused h).mono ?_ ?_
    · rintro _ ⟨⟩
    · rintro roots w ⟨owners, v, hloads⟩ c arguments hi hlength
      rw [hloads.closes hi hlength]
      simp
    · intro e w hexcused cause he
      obtain ⟨htaken, hcause⟩ := hexcused cause he
      exact ⟨hcause, d, rfl, htaken⟩

/-- The error of a text that does not load. -/
def failure? (text : String) : Option BuildError :=
  match loadText text {} with
  | .ok .. => none
  | .error e _ => some e

/-- A document that takes the key of `Nullable` and refers to a number that may
be absent. -/
@[irreducible] def takenText : String := r#"[[["object","System.Nullable`1"]],["int?"]]"#

/-- Such a document is a fault, although it closes `Nullable` over one type. -/
theorem exists_fault_taken : ∃ u, loadText takenText {} =
    .error (.fault (.unclosedContainer (.notGeneric Container.nullable.fullName))) u := by
  have h : failure? takenText =
      some (.fault (.unclosedContainer (.notGeneric Container.nullable.fullName))) := by
    decide +kernel
  unfold failure? at h
  split at h
  · cases h
  · rename_i e u hload
    cases h
    exact ⟨u, hload⟩

end Builder

end TypeExport
