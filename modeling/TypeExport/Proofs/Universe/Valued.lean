import TypeExport.Proofs.Universe.Form
import TypeExport.Proofs.Universe.Formed

/-!
# Value types in loaded universes

A caller of `Builder.intern` may store any descriptor.  A document stores an
enumeration only as a value type, and so an instance of `Nullable`, because
`Builder.instanceOf` takes that from the definition (`values_of_instanceOf`).  Both
last while types are added and completed (`Builder.valued_of_loadText`).

Flag positions rest on it.  An instance of `Nullable` has none, and were it a
reference type, its flag would be read from the position of the next type.
-/

namespace TypeExport

namespace Universe

variable {u v : Universe} {id : TypeId} {d : Descriptor}

/-- Whether a type is a value type where its kind asks for that. -/
structure Values (u : Universe) (d : Descriptor) : Prop where
  enumeration : d.kind.isEnum = true → d.isValueType = true
  closed : ∀ definition arguments, d.kind = .closed definition arguments →
    ∃ e, u.get? definition = some e ∧ (e.kind = .container .nullable → d.isValueType = true)

/-- Whether every type is a value type where its kind asks for that. -/
def Valued (u : Universe) : Prop := ∀ ⦃id d⦄, u.get? id = some d → u.Values d

/-- A kind that is neither an enumeration nor closed asks for nothing. -/
theorem values_of_kind (henum : d.kind.isEnum = false)
    (hopen : ∀ definition arguments, d.kind ≠ .closed definition arguments) : u.Values d where
  enumeration h := by
    rw [henum] at h
    cases h
  closed definition arguments hkind := absurd hkind (hopen definition arguments)

/-- What a type has to be stays so as long as no definition turns into `Nullable`. -/
theorem Values.keep (h : u.Values d) (keeps : ∀ {i e}, u.get? i = some e → ∃ e',
    v.get? i = some e' ∧ (e'.kind = .container .nullable → e.kind = .container .nullable)) :
    v.Values d where
  enumeration := h.enumeration
  closed definition arguments hkind := by
    obtain ⟨e, he, hvalue⟩ := h.closed definition arguments hkind
    obtain ⟨e', he', hnullable⟩ := keeps he
    exact ⟨e', he', fun hcontainer => hvalue (hnullable hcontainer)⟩

theorem valued_empty : ({} : Universe).Valued := by
  intro id d hd
  simp [get?] at hd

theorem Valued.intern (h : u.Valued) (hd : u.Values d) : (u.intern d).2.Valued := by
  have keeps : ∀ {i e}, u.get? i = some e → ∃ e', (u.intern d).2.get? i = some e' ∧
      (e'.kind = .container .nullable → e.kind = .container .nullable) :=
    fun he => ⟨_, get?_intern_of_get? he, fun hkind => hkind⟩
  intro id e he
  cases of_get?_intern he with
  | inl hold => exact (h hold).keep keeps
  | inr hnew =>
    rw [hnew.2]
    exact hd.keep keeps

/-- A type may be changed when it stays a value type or a reference type, and its kind
stays or becomes that of a class. -/
theorem Valued.modify (h : u.Valued) {f : Descriptor → Descriptor}
    (hvalue : ∀ d, (f d).isValueType = d.isValueType)
    (hkind : ∀ d, (f d).kind = d.kind ∨ ∃ parameters, (f d).kind = .object parameters) :
    (u.modify id f).Valued := by
  have changed : ∀ d, u.Values d → u.Values (f d) := by
    intro d hd
    cases hkind d with
    | inl hsame =>
      constructor
      · rw [hsame, hvalue]
        exact hd.enumeration
      · rw [hsame, hvalue]
        exact hd.closed
    | inr hobject =>
      obtain ⟨parameters, hp⟩ := hobject
      exact values_of_kind (by rw [hp]; rfl) (by simp [hp])
  have keeps : ∀ {i e}, u.get? i = some e → ∃ e', (u.modify id f).get? i = some e' ∧
      (e'.kind = .container .nullable → e.kind = .container .nullable) := by
    intro i e he
    rw [get?_modify, he]
    split
    · refine ⟨f e, rfl, fun hnullable => ?_⟩
      cases hkind e with
      | inl hsame => rw [← hsame, hnullable]
      | inr hobject =>
        obtain ⟨parameters, hp⟩ := hobject
        cases hp.symm.trans hnullable
    · exact ⟨e, rfl, fun hnullable => hnullable⟩
  intro i e he
  rw [get?_modify] at he
  split at he
  · obtain ⟨d, hd, hde⟩ := Option.map_eq_some_iff.1 he
    rw [← hde]
    exact (changed d (h hd)).keep keeps
  · exact (h he).keep keeps

/-- An instance of `Nullable` is a value type. -/
theorem Valued.isValueType_of_absent (h : u.Valued) (hd : u.get? id = some d) {x : TypeId}
    (hform : u.formOf d.kind = .absent x) : d.isValueType = true := by
  generalize hkind : d.kind = k at hform
  cases hasForm_of_eq hform with
  | @absent definition _ hcontainer =>
    obtain ⟨e, he, hvalue⟩ := (h hd).closed definition [x] hkind
    rw [kind?_of_get? he] at hcontainer
    exact hvalue (Option.some.inj hcontainer)

end Universe

namespace Builder

open Universe

variable {u : Universe} {id : TypeId} {d : Descriptor}

/-- A type whose kind asks for nothing may be interned. -/
theorem maintains_valued_intern (henum : d.kind.isEnum = false)
    (hopen : ∀ definition arguments, d.kind ≠ .closed definition arguments) :
    Maintains Valued (intern d) :=
  .intern fun _ h => h.intern (values_of_kind henum hopen)

/-- A closed generic is the value type that its definition makes it. -/
theorem values_of_instanceOf {definition : TypeId} {arguments : List TypeId}
    (h : instanceOf definition arguments u = .ok d) : u.Values d := by
  have closes := closes_of_instanceOf h
  refine ⟨fun henum => ?_, fun definition' arguments' hkind => ?_⟩
  · rw [closes.kind] at henum
    cases henum
  · rw [closes.kind] at hkind
    cases hkind
    obtain ⟨e, he, htakes⟩ := closes.takes
    refine ⟨e, he, fun hnullable => ?_⟩
    obtain ⟨ds, hds⟩ := exists_viewAll (issued_of_instanceOf h)
    have harity : arity? e = some (Container.nullable.arity, true) := by
      simp [arity?, hnullable]
    rw [hnullable] at htakes
    have hlength : arguments.length = Container.nullable.arity := htakes
    simp only [instanceOf, view_of_get? he, harity, hlength, hds, if_true, Except.mapError, bind,
      Except.bind, pure, Except.pure, Except.ok.injEq] at h
    rw [← h]

theorem composes_valued : Composes Valued where
  builtin _ := maintains_valued_intern rfl nofun
  container _ := maintains_valued_intern rfl nofun
  arrayOf _ := Maintains.bind (.ask _) fun _ => maintains_valued_intern rfl nofun
  close _ _ := .ask_intern fun _ _ h hd => h.intern (values_of_instanceOf hd)
  closeContainer _ _ := Maintains.bind (maintains_valued_intern rfl nofun) fun _ =>
    .ask_intern fun _ _ h hd => h.intern (values_of_instanceOf (mapError_eq_ok_iff.1 hd))

theorem maintains_valued_internParameters (owner : TypeId) (key space : String) (position : Nat)
    (names : List String) : Maintains Valued (internParameters owner key space position names) := by
  induction names generalizing position with
  | nil => exact .pure []
  | cons name names ih =>
    rw [internParameters]
    exact (maintains_valued_intern rfl (by simp)).bind fun id =>
      (ih (position + 1)).bind fun ids => .pure (id :: ids)

theorem maintains_valued_genericObject (fullName : String) (parameters : List String) :
    Maintains Valued (genericObject fullName parameters) := by
  refine .get_bind fun w => ?_
  split
  · exact .pure _
  · exact (maintains_valued_intern rfl (by simp [Descriptor.ofFullName])).bind fun owner =>
      (maintains_valued_internParameters _ _ _ 0 parameters).bind fun ids =>
        (Maintains.modify fun _ h => h.modify (fun _ => rfl) fun _ => .inr ⟨ids, rfl⟩).bind
          fun _ => .pure owner

theorem declaring_valued : Declaring Valued where
  object _ := maintains_valued_intern rfl nofun
  valueObject _ := maintains_valued_intern rfl nofun
  genericObject := maintains_valued_genericObject
  enumeration _ _ := .intern fun _ h => h.intern ⟨fun _ => rfl, nofun⟩

theorem completes_valued (owner : TypeId) : Completes Valued owner where
  member scope m := (composes_valued.resolveText scope m.reference).bind fun _ =>
    .modify fun _ h => h.modify (fun _ => rfl) fun _ => .inl rfl
  context _ := .modify fun _ h => h.modify (fun _ => rfl) fun _ => .inl rfl

theorem maintains_valued_loadText (text : String) : Maintains Valued (loadText text) := by
  unfold loadText
  split
  · exact (declaring_valued.declareEntries _).bind fun _ =>
      (Completes.completeEntries _ fun _ _ => completes_valued _).bind fun _ =>
        .resolveRoots (composes_valued.resolveText []) _
  · exact .throw _

/-- In a loaded universe enumerations and instances of `Nullable` are value types. -/
theorem valued_of_loadText {text : String} {roots : List TypeId}
    (h : loadText text {} = .ok roots u) : u.Valued :=
  (maintains_valued_loadText text {} valued_empty).good_of_eq h

end Builder

end TypeExport
