import Mathlib.Data.List.Forall2
import TypeExport.Proofs.Universe.Form

/-!
# Universes that differ in annotations

Two universes are akin when they have the same types at the same ids, except
that the members of a type may be annotated differently, as long as the same
members are left out (`Universe.Akin`).  No question about the structure of a
type looks at members, so akin universes give the same answers, and what is
akin to a sound universe is sound (`Universe.Akin.sound`).

Other annotations on one member make an akin universe
(`Universe.akin_annotate`).
-/

namespace TypeExport

/-- Whether two members differ at most in their annotations. -/
structure Member.Akin (m m' : Member) : Prop where
  name : m'.name = m.name
  type : m'.type = m.type
  /-- They are left out together. -/
  ignore : m'.annotations.has .ignore = m.annotations.has .ignore

/-- Whether two types differ at most in the annotations of their members. -/
structure Descriptor.Akin (d d' : Descriptor) : Prop where
  eq : d' = { d with members := d'.members }
  members : List.Forall₂ Member.Akin d.members d'.members

/-- Whether two universes differ at most in the annotations of members. -/
structure Universe.Akin (u v : Universe) : Prop where
  size : v.size = u.size
  type : ∀ {id d}, u.get? id = some d → ∃ e, v.get? id = some e ∧ d.Akin e

/-- Whether two attributes say the same. -/
structure Attributes.Akin (a a' : Attributes) : Prop where
  annotations : a'.annotations = a.annotations
  /-- The flag of the types that declare the member. -/
  context : a'.owner.bind (·.context) = a.owner.bind (·.context)

theorem Member.Akin.refl (m : Member) : m.Akin m := ⟨rfl, rfl, rfl⟩

namespace Descriptor.Akin

variable {d e : Descriptor}

theorem refl (d : Descriptor) : d.Akin d :=
  ⟨rfl, List.forall₂_same.2 fun m _ => .refl m⟩

theorem key (h : d.Akin e) : e.key = d.key := by rw [h.eq]

theorem name (h : d.Akin e) : e.name = d.name := by rw [h.eq]

theorem kind (h : d.Akin e) : e.kind = d.kind := by rw [h.eq]

theorem isValueType (h : d.Akin e) : e.isValueType = d.isValueType := by rw [h.eq]

theorem context (h : d.Akin e) : e.context = d.context := by rw [h.eq]

/-- The members have the same types. -/
theorem forall_type (h : d.Akin e) {P : TypeId → Prop} (hP : ∀ m ∈ d.members, P m.type) :
    ∀ m ∈ e.members, P m.type := by
  obtain ⟨-, hmembers⟩ := h
  generalize d.members = ms at hP hmembers
  generalize e.members = ms' at hmembers
  induction hmembers with
  | nil => simp
  | cons hm _ ih =>
    rw [List.forall_mem_cons] at hP ⊢
    exact ⟨hm.type ▸ hP.1, ih hP.2⟩

end Descriptor.Akin

namespace Attributes.Akin

variable {a a' : Attributes} {d d' : Descriptor} {mode : NullabilityMode}

theorem refl (a : Attributes) : a.Akin a := ⟨rfl, rfl⟩

theorem has (h : a.Akin a') (marker : Marker) : a'.has marker = a.has marker := by
  rw [Attributes.has, Attributes.has, h.annotations]

theorem flags (h : a.Akin a') : a'.flags = a.flags := by
  rw [Attributes.flags, Attributes.flags, contextFlag, contextFlag, h.annotations, h.context]

theorem flaggedNullable (h : a.Akin a') (hd : d.Akin d') (position : Nat) :
    flaggedNullable a' d' position = flaggedNullable a d position := by
  rw [TypeExport.flaggedNullable, TypeExport.flaggedNullable, h.flags, hd.isValueType]

theorem annotatedNullable (h : a.Akin a') (hd : d.Akin d') :
    annotatedNullable mode a' d' = annotatedNullable mode a d := by
  cases mode <;> simp only [TypeExport.annotatedNullable, h.has, h.flaggedNullable hd]

theorem itemNullable {a a' : Option Attributes} (h : Option.Rel Attributes.Akin a a')
    (hd : d.Akin d') (position : Nat) :
    itemNullable mode a' d' position = itemNullable mode a d position := by
  cases h with
  | none => rfl
  | some h =>
    simp only [TypeExport.itemNullable, hd.isValueType, hd.kind, h.has, h.flaggedNullable hd]

end Attributes.Akin

/-- The next question behind one that has an answer. -/
theorem ok_bind {ε α β : Type} (a : α) (next : α → Except ε β) :
    (Except.ok a >>= next) = next a := rfl

namespace Universe.Akin

variable {u v : Universe} {id : TypeId} {ids : List TypeId} {d e : Descriptor}

theorem refl (u : Universe) : u.Akin u := ⟨rfl, fun hd => ⟨_, hd, .refl _⟩⟩

variable (h : u.Akin v)
include h

/-! ## Descriptors -/

theorem issued : v.Issued id ↔ u.Issued id := by rw [Issued, Issued, h.size]

/-- An id is issued by both universes or by neither. -/
theorem get?_cases (id : TypeId) : (∃ d e, u.get? id = some d ∧ v.get? id = some e ∧ d.Akin e) ∨
    u.get? id = none ∧ v.get? id = none := by
  cases hd : u.get? id with
  | some d =>
    obtain ⟨e, he, hde⟩ := h.type hd
    exact .inl ⟨d, e, rfl, he, hde⟩
  | none =>
    refine .inr ⟨rfl, ?_⟩
    have hsize : v.types.size = u.types.size := h.size
    rw [get?, Array.getElem?_eq_none_iff] at hd ⊢
    rwa [hsize]

/-- A type of the second universe is one of the first. -/
theorem exists_of_get? (he : v.get? id = some e) : ∃ d, u.get? id = some d ∧ d.Akin e := by
  rcases h.get?_cases id with ⟨d, e', hd, he', hde⟩ | ⟨-, hnone⟩
  · cases he.symm.trans he'
    exact ⟨d, hd, hde⟩
  · cases he.symm.trans hnone

theorem lookup? (key : String) : v.lookup? key = u.lookup? key := by
  have hkeys : v.types.map (·.key) = u.types.map (·.key) := by
    apply Array.ext_getElem?
    intro i
    rw [Array.getElem?_map, Array.getElem?_map]
    rcases h.get?_cases ⟨i⟩ with ⟨d, e, hd, he, hde⟩ | ⟨hd, he⟩ <;>
      rw [get?] at hd he <;> rw [hd, he]
    exact congrArg some hde.key
  have hfind : ∀ w : Universe, w.lookup? key =
      ((w.types.map (·.key)).findIdx? (decide <| · = key)).map TypeId.mk := by
    intro w
    rw [Universe.lookup?, Array.findIdx?_map]
    rfl
  rw [hfind, hfind, hkeys]

theorem keeps : u.Keeps v where
  type hd := by
    obtain ⟨e, he, hde⟩ := h.type hd
    exact ⟨e, he, hde.key, hde.name, .inl hde.kind⟩
  lookup hl := (h.lookup? _).trans hl

/-- What is akin to a sound universe is sound. -/
theorem sound (hu : u.Sound) : v.Sound := by
  intro id e he
  obtain ⟨d, hd, hde⟩ := h.exists_of_get? he
  have fits := (hu hd).keep hd h.keeps
  have spelled := fits.spelled
  unfold KeySpells at spelled
  refine ⟨hde.key ▸ fits.keyed, hde.kind ▸ fits.constituent, hde.kind ▸ fits.closed, ?_, ?_,
    hde.kind ▸ fits.operand, ?_, ?_⟩
  · unfold KeySpells
    rw [hde.kind, hde.key, hde.name]
    exact spelled
  · rw [hde.kind, hde.key]
    exact fits.container
  · exact hde.forall_type (P := fun t => v.Issued t ∧ IsOwnKey (v.keyOf t)) fits.member
  · rw [hde.kind]
    exact hde.forall_type (P := fun t => v.KeyWithin d.kind.parameters (v.keyOf t)) fits.within

/-! ## Forms -/

theorem kind? (id : TypeId) : v.kind? id = u.kind? id := by
  unfold Universe.kind?
  rcases h.get?_cases id with ⟨d, e, hd, he, hde⟩ | ⟨hd, he⟩ <;> rw [hd, he]
  exact congrArg some hde.kind

theorem formOf (k : TypeKind) : v.formOf k = u.formOf k := by
  unfold Universe.formOf
  simp only [h.kind?]

theorem form? (id : TypeId) : v.form? id = u.form? id := by
  rw [Universe.form?, Universe.form?, h.kind?, funext h.formOf]

theorem bare (id : TypeId) : v.bare id = u.bare id := by
  unfold Universe.bare
  rw [h.form?]

theorem nameOf (id : TypeId) : v.nameOf id = u.nameOf id := by
  unfold Universe.nameOf
  rcases h.get?_cases id with ⟨d, e, hd, he, hde⟩ | ⟨hd, he⟩ <;> rw [hd, he]
  exact hde.name

/-! ## Answers -/

/-- Viewing an id gives akin types, or the same fault. -/
theorem view_cases (id : TypeId) :
    (∃ d e, u.view id = .ok d ∧ v.view id = .ok e ∧ d.Akin e) ∨
      ∃ fault, u.view id = .error fault ∧ v.view id = .error fault := by
  unfold view
  rcases h.get?_cases id with ⟨d, e, hd, he, hde⟩ | ⟨hd, he⟩ <;> rw [hd, he]
  · exact .inl ⟨d, e, rfl, rfl, hde⟩
  · exact .inr ⟨_, rfl, rfl⟩

theorem viewAll_cases (ids : List TypeId) :
    (∃ ds es, u.viewAll ids = .ok ds ∧ v.viewAll ids = .ok es ∧
      List.Forall₂ Descriptor.Akin ds es) ∨
      ∃ fault, u.viewAll ids = .error fault ∧ v.viewAll ids = .error fault := by
  induction ids with
  | nil => exact .inl ⟨[], [], rfl, rfl, .nil⟩
  | cons id ids ih =>
    simp only [viewAll, bind, Except.bind, pure, Except.pure]
    rcases h.view_cases id with ⟨d, e, hd, he, hde⟩ | ⟨fault, hd, he⟩ <;> rw [hd, he]
    · rcases ih with ⟨ds, es, hds, hes, hall⟩ | ⟨fault, hds, hes⟩ <;> rw [hds, hes]
      · exact .inl ⟨d :: ds, e :: es, rfl, rfl, .cons hde hall⟩
      · exact .inr ⟨fault, rfl, rfl⟩
    · exact .inr ⟨fault, rfl, rfl⟩

/-- Viewing several ids only to see that they are issued. -/
theorem viewAll_bind {α : Type} (ids : List TypeId) (rest : Except Fault α) :
    (v.viewAll ids >>= fun _ => rest) = (u.viewAll ids >>= fun _ => rest) := by
  rcases h.viewAll_cases ids with ⟨ds, es, hds, hes, -⟩ | ⟨fault, hds, hes⟩ <;> rw [hds, hes]
  rfl

theorem containerWithin (fuel : Nat) (k : TypeKind) :
    v.containerWithin fuel k = u.containerWithin fuel k := by
  induction fuel generalizing k with
  | zero =>
    cases k with
    | closed definition arguments =>
      simp only [Universe.containerWithin, bind, Except.bind]
      rcases h.view_cases definition with ⟨d, e, hd, he, -⟩ | ⟨fault, hd, he⟩ <;> rw [hd, he]
    | _ => rfl
  | succ fuel ih =>
    cases k with
    | closed definition arguments =>
      simp only [Universe.containerWithin, bind, Except.bind]
      rcases h.view_cases definition with ⟨d, e, hd, he, hde⟩ | ⟨fault, hd, he⟩ <;> rw [hd, he]
      simp only [ih, hde.kind]
    | _ => rfl

theorem isInstanceOf (hde : d.Akin e) (c : Container) :
    v.isInstanceOf e c = u.isInstanceOf d c := by
  simp only [Universe.isInstanceOf, container?, hde.kind, h.size, h.containerWithin]

theorem underlying? (hde : d.Akin e) : v.underlying? e = u.underlying? d := by
  simp only [Universe.underlying?, h.isInstanceOf hde, hde.kind]
  cases u.isInstanceOf d .nullable with
  | error => rfl
  | ok isNullable =>
    cases isNullable with
    | false => rfl
    | true =>
      cases d.kind.element? with
      | none => rfl
      | some id =>
        simp only [bind, Except.bind, if_true]
        rcases h.view_cases id with ⟨d, e, hd, he, -⟩ | ⟨fault, hd, he⟩ <;> rw [hd, he]

theorem flagCountWithin (fuel : Nat) (id : TypeId) :
    v.flagCountWithin fuel id = u.flagCountWithin fuel id := by
  induction fuel generalizing id with
  | zero => rfl
  | succ fuel ih =>
    rw [Universe.flagCountWithin, Universe.flagCountWithin]
    rcases h.view_cases id with ⟨d, e, hd, he, hde⟩ | ⟨fault, hd, he⟩ <;> rw [hd, he]
    · simp only [ok_bind, hde.kind, hde.isValueType, h.isInstanceOf hde, h.viewAll_bind, ih,
        funext ih]
    · rfl

theorem flagCount : v.flagCount = u.flagCount := by
  funext id
  rw [Universe.flagCount, Universe.flagCount, h.size, h.flagCountWithin]

/-! ## Use sites -/

section Sites

variable {a a' : Option Attributes} {mode : NullabilityMode} (ha : Option.Rel Attributes.Akin a a')
include ha

theorem valueNullable (hde : d.Akin e) (key : TypeId) :
    v.valueNullable mode a' key e = u.valueNullable mode a key d := by
  simp only [Universe.valueNullable, h.flagCount, Attributes.Akin.itemNullable ha hde]

theorem argumentNullable (hde : d.Akin e) (before : List TypeId) :
    v.argumentNullable mode a' before e = u.argumentNullable mode a before d := by
  cases ha with
  | none => rfl
  | some ha =>
    simp only [Universe.argumentNullable, h.flagCount, hde.kind, ha.flaggedNullable hde]

theorem siteNullable (id : TypeId) :
    v.siteNullable mode a' id = u.siteNullable mode a id := by
  unfold Universe.siteNullable
  rw [h.form?]
  split
  · rfl
  · cases ha with
    | none => rfl
    | some ha =>
      rcases h.get?_cases id with ⟨d, e, hd, he, hde⟩ | ⟨hd, he⟩ <;> rw [hd, he]
      simp only [hde.isValueType, ha.annotatedNullable hde]

end Sites

end Universe.Akin

/-! ## Annotating one member -/

/-- The type with other annotations on one of its members. -/
def Descriptor.annotate (d : Descriptor) (i : Nat) (a : Annotations) : Descriptor :=
  { d with members := d.members.modify i fun m => { m with annotations := a } }

/-- The universe with other annotations on one member of a type. -/
def Universe.annotate (u : Universe) (id : TypeId) (i : Nat) (a : Annotations) : Universe :=
  u.modify id (·.annotate i a)

section Annotate

variable {u : Universe} {t id : TypeId} {d : Descriptor} {i : Nat} {m : Member} {a : Annotations}

theorem Descriptor.akin_annotate (hm : d.members[i]? = some m)
    (ha : a.has .ignore = m.annotations.has .ignore) : d.Akin (d.annotate i a) := by
  refine ⟨rfl, ?_⟩
  show List.Forall₂ Member.Akin d.members (d.members.modify i _)
  generalize d.members = ms at hm
  induction ms generalizing i with
  | nil => simp
  | cons x xs ih =>
    cases i with
    | zero =>
      cases hm
      exact .cons ⟨rfl, rfl, ha⟩ (List.forall₂_same.2 fun m _ => .refl m)
    | succ i => exact .cons (.refl x) (ih hm)

namespace Universe

theorem get?_annotate (u : Universe) (t id : TypeId) (i : Nat) (a : Annotations) :
    (u.annotate t i a).get? id =
      if t = id then (u.get? id).map (·.annotate i a) else u.get? id := by
  rw [annotate, get?_modify]

/-- Other annotations on a member make an akin universe. -/
theorem akin_annotate (hd : u.get? t = some d) (hm : d.members[i]? = some m)
    (ha : a.has .ignore = m.annotations.has .ignore) : u.Akin (u.annotate t i a) where
  size := Array.size_modify
  type {id e} he := by
    rw [get?_annotate]
    split
    case isTrue heq =>
      subst heq
      cases hd.symm.trans he
      exact ⟨_, by rw [hd]; rfl, Descriptor.akin_annotate hm ha⟩
    case isFalse => exact ⟨e, he, .refl e⟩

end Universe

end Annotate

end TypeExport
