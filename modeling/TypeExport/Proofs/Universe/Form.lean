import TypeExport.Declaration.Primitive
import TypeExport.Proofs.Universe.Answers

/-!
# Forms

The structure of a type as the output sees it.  An array and a list are both
sequences, a byte array is primitive, and a closed generic is told apart by the
container that its definition is.  `Form.parts` are the types that a type is
composed of at its use sites.  In a sound universe parts are issued and of lower
rank, and no part is an open container (`Sound.part`, `Sound.part_ne_container`).
-/

namespace TypeExport

/-- The structure of a type as the output sees it. -/
inductive Form where
  /-- A built-in type or a byte array, and what it becomes. -/
  | primitive (target : TypeExpr)
  /-- An array or a list. -/
  | sequence (element : TypeId)
  | dictionary (key value : TypeId)
  | absent (underlying : TypeId)
  /-- Any other closed generic. -/
  | applied (definition : TypeId) (arguments : List TypeId)
  | parameter
  | enumeration (values : List EnumValue)
  /-- A class or a struct, generic when it has parameters. -/
  | object (parameters : List TypeId)
  | container

/-- The types that a type is composed of at its use sites. -/
def Form.parts : Form → List TypeId
  | .sequence element => [element]
  | .dictionary key value => [key, value]
  | .absent underlying => [underlying]
  | .applied definition arguments => definition :: arguments
  | _ => []

namespace Universe

variable {u : Universe} {id : TypeId} {d : Descriptor} {k : TypeKind}

/-- The kind of an issued id. -/
def kind? (u : Universe) (id : TypeId) : Option TypeKind := (u.get? id).map (·.kind)

/-- The form of a type of that kind. -/
def formOf (u : Universe) : TypeKind → Form
  | .builtin b => .primitive b.target
  | .container _ => .container
  | .array element =>
    if u.kind? element = some (.builtin .byte) then .primitive byteArrayTarget
    else .sequence element
  | .closed definition arguments =>
    match u.kind? definition, arguments with
    | some (.container .list), [element] => .sequence element
    | some (.container .dictionary), [key, value] => .dictionary key value
    | some (.container .nullable), [underlying] => .absent underlying
    | _, _ => .applied definition arguments
  | .parameter .. => .parameter
  | .enumeration values => .enumeration values
  | .object parameters => .object parameters

/-- The form of an issued id. -/
def form? (u : Universe) (id : TypeId) : Option Form := (u.kind? id).map u.formOf

theorem kind?_of_get? (h : u.get? id = some d) : u.kind? id = some d.kind := by simp [kind?, h]

theorem form?_of_get? (h : u.get? id = some d) : u.form? id = some (u.formOf d.kind) := by
  simp [form?, kind?_of_get? h]

theorem formOf_of_form? {form : Form} (hd : u.get? id = some d) (h : u.form? id = some form) :
    u.formOf d.kind = form :=
  Option.some.inj ((form?_of_get? hd).symm.trans h)

theorem get?_of_form? {form : Form} (h : u.form? id = some form) :
    ∃ d, u.get? id = some d ∧ u.formOf d.kind = form := by
  cases hd : u.get? id with
  | none => simp [form?, kind?, hd] at h
  | some d => exact ⟨d, rfl, by simpa [form?_of_get? hd] using h⟩

/-! ## Kinds behind forms -/

/-- Which kinds have which forms. -/
inductive HasForm (u : Universe) : TypeKind → Form → Prop
  | builtin (b : Builtin) : HasForm u (.builtin b) (.primitive b.target)
  | bytes {element : TypeId} : u.kind? element = some (.builtin .byte) →
      HasForm u (.array element) (.primitive byteArrayTarget)
  | array {element : TypeId} : u.kind? element ≠ some (.builtin .byte) →
      HasForm u (.array element) (.sequence element)
  | list {definition element : TypeId} : u.kind? definition = some (.container .list) →
      HasForm u (.closed definition [element]) (.sequence element)
  | dictionary {definition key value : TypeId} :
      u.kind? definition = some (.container .dictionary) →
      HasForm u (.closed definition [key, value]) (.dictionary key value)
  | absent {definition underlying : TypeId} : u.kind? definition = some (.container .nullable) →
      HasForm u (.closed definition [underlying]) (.absent underlying)
  | applied {definition : TypeId} {arguments : List TypeId} :
      (∀ c, u.kind? definition = some (.container c) → arguments.length ≠ c.arity) →
      HasForm u (.closed definition arguments) (.applied definition arguments)
  | parameter {owner : TypeId} {position : Nat} : HasForm u (.parameter owner position) .parameter
  | enumeration (values : List EnumValue) : HasForm u (.enumeration values) (.enumeration values)
  | object (parameters : List TypeId) : HasForm u (.object parameters) (.object parameters)
  | container (c : Container) : HasForm u (.container c) .container

theorem hasForm (u : Universe) (k : TypeKind) : u.HasForm k (u.formOf k) := by
  unfold formOf
  split
  · exact .builtin _
  · exact .container _
  · split
    · exact .bytes ‹_›
    · exact .array ‹_›
  · split
    · exact .list ‹_›
    · exact .dictionary ‹_›
    · exact .absent ‹_›
    · rename_i hlist hdictionary hnullable
      refine .applied fun c hc hlength => ?_
      cases c with
      | list =>
        obtain ⟨element, rfl⟩ := List.length_eq_one_iff.1 hlength
        exact hlist element hc rfl
      | dictionary =>
        obtain ⟨key, value, rfl⟩ := List.length_eq_two.1 hlength
        exact hdictionary key value hc rfl
      | nullable =>
        obtain ⟨underlying, rfl⟩ := List.length_eq_one_iff.1 hlength
        exact hnullable underlying hc rfl
  · exact .parameter
  · exact .enumeration _
  · exact .object _

theorem hasForm_of_eq {form : Form} (h : u.formOf k = form) : u.HasForm k form := h ▸ u.hasForm k

theorem element?_of_sequence {element : TypeId} (h : u.formOf k = .sequence element) :
    k.element? = some element := by
  cases hasForm_of_eq h <;> rfl

theorem element?_of_absent {underlying : TypeId} (h : u.formOf k = .absent underlying) :
    k.element? = some underlying := by
  cases hasForm_of_eq h
  rfl

theorem arguments_of_dictionary {key value : TypeId} (h : u.formOf k = .dictionary key value) :
    k.arguments = [key, value] := by
  cases hasForm_of_eq h
  rfl

theorem eq_closed_of_applied {definition : TypeId} {arguments : List TypeId}
    (h : u.formOf k = .applied definition arguments) : k = .closed definition arguments := by
  cases hasForm_of_eq h
  rfl

theorem eq_object_of_object {parameters : List TypeId} (h : u.formOf k = .object parameters) :
    k = .object parameters := by
  cases hasForm_of_eq h
  rfl

/-- The definition of a closed generic that is no container. -/
theorem Sound.definition_of_applied (h : u.Sound) (hd : u.get? id = some d) {definition : TypeId}
    {arguments : List TypeId} (hform : u.formOf d.kind = .applied definition arguments) :
    ∃ e parameters, u.get? definition = some e ∧ e.kind = .object parameters ∧ parameters ≠ [] ∧
      arguments.length = parameters.length := by
  have hkind := eq_closed_of_applied hform
  obtain ⟨e, he, ht⟩ := (h hd).closed definition arguments hkind
  rcases ht.cases with ⟨c, hc, hlength⟩ | ⟨parameters, hp, hne, hlength⟩
  · rw [hkind] at hform
    cases hasForm_of_eq hform with
    | applied hno => exact absurd hlength (hno c (by rw [kind?_of_get? he, hc]))
  · exact ⟨e, parameters, he, hp, hne, hlength⟩

/-! ## Parts -/

theorem mem_constituents_of_mem_parts {c : TypeId} (h : c ∈ (u.formOf k).parts) :
    c ∈ k.constituents := by
  generalize hform : u.formOf k = form at h
  cases hasForm_of_eq hform with
  | array => exact h
  | list => exact List.mem_cons_of_mem _ h
  | dictionary => exact List.mem_cons_of_mem _ h
  | absent => exact List.mem_cons_of_mem _ h
  | applied => exact h
  | builtin => cases h
  | bytes => cases h
  | parameter => cases h
  | enumeration => cases h
  | object => cases h
  | container => cases h

/-- A part of a type is issued and of lower rank. -/
theorem Sound.part (h : u.Sound) {form : Form} (hform : u.form? id = some form) {c : TypeId}
    (hc : c ∈ form.parts) : u.Issued c ∧ u.rank c < u.rank id := by
  obtain ⟨d, hd, rfl⟩ := get?_of_form? hform
  exact (h hd).constituent c (mem_constituents_of_mem_parts hc)

/-- A type with a key of its own is no open container. -/
theorem Sound.form?_ne_container (h : u.Sound) (ho : IsOwnKey (u.keyOf id)) :
    u.form? id ≠ some .container := by
  intro hform
  obtain ⟨d, hd, hdform⟩ := get?_of_form? hform
  generalize hkind : d.kind = k at hdform
  cases hasForm_of_eq hdform with
  | container c => exact ho c (by rw [keyOf_of_get? hd, (h hd).container c hkind])

/-- No part of a type is an open container. -/
theorem Sound.part_ne_container (h : u.Sound) {form : Form} (hform : u.form? id = some form)
    {c : TypeId} (hc : c ∈ form.parts) : u.form? c ≠ some .container := by
  obtain ⟨d, hd, hdform⟩ := get?_of_form? hform
  have operand : ∀ a ∈ d.kind.operands, u.form? a ≠ some .container :=
    fun a ha => h.form?_ne_container ((h hd).operand a ha)
  cases form with
  | applied definition arguments =>
    rcases List.mem_cons.1 hc with rfl | hargument
    · obtain ⟨e, parameters, he, hkind, -⟩ := h.definition_of_applied hd hdform
      rw [form?_of_get? he, hkind]
      simp [formOf]
    · rw [eq_closed_of_applied hdform] at operand
      exact operand c hargument
  | sequence element =>
    have hmem := List.mem_singleton.1 hc
    subst hmem
    generalize hkind : d.kind = k at hdform operand
    cases hasForm_of_eq hdform <;> exact operand _ (by simp [TypeKind.operands])
  | dictionary key value =>
    generalize hkind : d.kind = k at hdform operand
    cases hasForm_of_eq hdform
    exact operand c hc
  | absent underlying =>
    generalize hkind : d.kind = k at hdform operand
    cases hasForm_of_eq hdform
    exact operand c hc
  | primitive => cases hc
  | parameter => cases hc
  | enumeration => cases hc
  | object => cases hc
  | container => cases hc

/-- The type of a member is issued, and no open container. -/
theorem Sound.member (h : u.Sound) (hd : u.get? id = some d) {m : Member} (hm : m ∈ d.members) :
    u.Issued m.type ∧ u.form? m.type ≠ some .container :=
  ⟨((h hd).member m hm).1, h.form?_ne_container ((h hd).member m hm).2⟩

/-! ## Use sites -/

/-- The type without an outer `Nullable`. -/
def bare (u : Universe) (id : TypeId) : TypeId :=
  match u.form? id with
  | some (.absent underlying) => underlying
  | _ => id

/-- Whether a use site may be null: a `Nullable` may unless nothing may, and
another type may where the mode and the annotations say so. -/
def siteNullable (u : Universe) (mode : NullabilityMode) (attributes : Option Attributes)
    (id : TypeId) : Bool :=
  match u.form? id with
  | some (.absent _) => mode ≠ .none
  | _ =>
    match attributes, u.get? id with
    | some a, some d => !d.isValueType && annotatedNullable mode a d
    | _, _ => false

theorem bare_of_absent {underlying : TypeId} (h : u.form? id = some (.absent underlying)) :
    u.bare id = underlying := by
  simp [bare, h]

theorem bare_of_ne_absent (h : ∀ underlying, u.form? id ≠ some (.absent underlying)) :
    u.bare id = id := by
  unfold bare
  split
  · rename_i underlying hform
    exact absurd hform (h underlying)
  · rfl

theorem Sound.underlying? (h : u.Sound) (hd : u.get? id = some d) :
    u.underlying? d = .ok (match u.formOf d.kind with
      | .absent underlying => some underlying
      | _ => none) := by
  unfold Universe.underlying?
  cases hkind : d.kind with
  | closed definition arguments =>
    obtain ⟨e, he, ht⟩ := (h hd).closed definition arguments hkind
    have hinstance := isInstanceOf_of_closed (c := .nullable) hkind he ht
    simp only [hinstance, bind, Except.bind, pure, Except.pure]
    rcases ht.cases with ⟨c, hc, hlength⟩ | ⟨parameters, hp, -⟩
    · cases c with
      | nullable =>
        obtain ⟨underlying, rfl⟩ := List.length_eq_one_iff.1 hlength
        obtain ⟨x, hx⟩ := issued_iff.1
          ((h hd).constituent underlying (by simp [hkind, TypeKind.constituents])).1
        simp [hc, TypeKind.container?, TypeKind.element?, view_of_get? hx, formOf,
          kind?_of_get? he]
      | list =>
        obtain ⟨element, rfl⟩ := List.length_eq_one_iff.1 hlength
        simp [hc, TypeKind.container?, formOf, kind?_of_get? he]
      | dictionary =>
        obtain ⟨key, value, rfl⟩ := List.length_eq_two.1 hlength
        simp [hc, TypeKind.container?, formOf, kind?_of_get? he]
    · simp [hp, TypeKind.container?, formOf, kind?_of_get? he]
  | array element =>
    rw [isInstanceOf_of_not_closed (by simp [hkind])]
    by_cases hbyte : u.kind? element = some (.builtin .byte)
    · simp only [formOf, if_pos hbyte]
      rfl
    · simp only [formOf, if_neg hbyte]
      rfl
  | builtin => rw [isInstanceOf_of_not_closed (by simp [hkind])]; rfl
  | container => rw [isInstanceOf_of_not_closed (by simp [hkind])]; rfl
  | parameter => rw [isInstanceOf_of_not_closed (by simp [hkind])]; rfl
  | enumeration => rw [isInstanceOf_of_not_closed (by simp [hkind])]; rfl
  | object => rw [isInstanceOf_of_not_closed (by simp [hkind])]; rfl

/-- Splitting the type at a use site gives `siteNullable` and `bare`. -/
theorem Sound.splitNullable (h : u.Sound) (mode : NullabilityMode)
    (attributes : Option Attributes) (hi : u.Issued id) :
    u.splitNullable mode attributes id = .ok (u.siteNullable mode attributes id, u.bare id) := by
  obtain ⟨d, hd⟩ := issued_iff.1 hi
  unfold Universe.splitNullable siteNullable bare
  simp only [view_of_get? hd, h.underlying? hd, form?_of_get? hd, bind, Except.bind, pure,
    Except.pure]
  cases hform : u.formOf d.kind <;> cases attributes <;> simp [hd]

/-- The bare type is issued, and no open container unless the type was one. -/
theorem Sound.bare (h : u.Sound) (hi : u.Issued id) (hc : u.form? id ≠ some .container) :
    u.Issued (u.bare id) ∧ u.form? (u.bare id) ≠ some .container := by
  cases hform : u.form? id with
  | none =>
    rw [bare_of_ne_absent (by simp [hform])]
    exact ⟨hi, hc⟩
  | some form =>
    cases form with
    | absent underlying =>
      rw [bare_of_absent hform]
      have hpart : underlying ∈ (Form.absent underlying).parts := List.mem_singleton.2 rfl
      exact ⟨(h.part hform hpart).1, h.part_ne_container hform hpart⟩
    | _ =>
      rw [bare_of_ne_absent (by simp [hform])]
      exact ⟨hi, hc⟩

end Universe

end TypeExport
