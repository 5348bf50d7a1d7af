import Mathlib.Logic.Relation
import TypeExport.Proofs.Universe.Form
import TypeExport.Run.Build

/-!
# What a run is to do

What a setup asks for, said without the steps of a run.  The hooks and the form
of a type decide how it is treated.  A type that is treated by its form has its
parts resolved, and an object the types of its members that are not left out.
`Setup.Reached` is the least set that contains the roots and is closed under
this.

A run resolves the type of a member without up to two outer `Nullable`s, which
is `Setup.site`.  So it never resolves a `Nullable` that only members mention,
and `Setup.Resolved` has fewer types than `Setup.Reachable`, which takes the
types of members as they are.  The two agree on every other type
(`Setup.resolved_iff_reachable`).
-/

namespace TypeExport

namespace Setup

variable (s : Setup)

/-! ## Treatment -/

/-- Whether references to a type import a name from a location. -/
def Redirects (t : TypeId) (name location : String) : Prop :=
  ∃ d, s.types.get? t = some d ∧ s.hooks.override d = .ok (.redirect name location)

/-- Whether a type is treated by its form. -/
def Treats (t : TypeId) (form : Form) : Prop :=
  ∃ d, s.types.get? t = some d ∧ s.hooks.override d = .ok .standard ∧
    s.types.formOf d.kind = form

/-- Whether a type belongs to a location. -/
def Locates (t : TypeId) (location : String) : Prop :=
  ∃ d, s.types.get? t = some d ∧ s.hooks.location s.types d = .ok location

/-- Whether a type is composed of another. -/
def Part (t c : TypeId) : Prop := ∃ form, s.Treats t form ∧ c ∈ form.parts

/-- Whether a type at a use site mentions another. -/
def Mentions : TypeId → TypeId → Prop := Relation.ReflTransGen s.Part

/-- The members of a type that are not left out. -/
def written (t : TypeId) : List Member :=
  match s.types.get? t with
  | some d => d.members.filter (!·.annotations.has .ignore)
  | none => []

/-- The type of a member without up to two outer `Nullable`s. -/
def site (m : Member) : TypeId := s.types.bare (s.types.bare m.type)

/-- The declaration of a type of that form, an object still without members. -/
def outline (t : TypeId) : Form → Option Declaration
  | .enumeration values =>
    match s.options.enums with
    | .native => some (.enumeration (s.types.nameOf t) (values.map (·.name)))
    | .fixedStrings => some (.fixedStrings (s.types.nameOf t) (values.map (·.name))
        (s.options.pluralOf (s.types.nameOf t)))
  | .object parameters => some (.object (s.types.nameOf t) (parameters.map s.types.nameOf) [])
  | _ => none

/-- Whether a type is declared, and by what declaration when its members are
left out. -/
def Outlines (t : TypeId) (d : Declaration) : Prop :=
  ∃ form, s.Treats t form ∧ s.outline t form = some d

/-! ## Reachable types -/

/-- The types that are reached from the roots, where a member leads to the type
that `next` gives it. -/
inductive Reached (next : Member → TypeId) : TypeId → Prop
  | root {t : TypeId} : t ∈ s.roots → Reached next t
  | part {t c : TypeId} : Reached next t → s.Part t c → Reached next c
  | member {t : TypeId} {parameters : List TypeId} {m : Member} :
      Reached next t → s.Treats t (.object parameters) → m ∈ s.written t → Reached next (next m)

/-- The types that are reached when members lead to their types. -/
abbrev Reachable : TypeId → Prop := s.Reached (·.type)

/-- The types that a run resolves. -/
abbrev Resolved : TypeId → Prop := s.Reached s.site

/-- Whether the members of an object mention a type, where a member leads to
the type that `next` gives it. -/
def Uses (next : Member → TypeId) (o t : TypeId) : Prop :=
  ∃ parameters m, s.Treats o (.object parameters) ∧ m ∈ s.written o ∧ s.Mentions (next m) t

variable {s} {t c o : TypeId} {form form' : Form} {name location : String}

theorem Treats.form? (h : s.Treats t form) : s.types.form? t = some form := by
  obtain ⟨d, hd, -, rfl⟩ := h
  exact Universe.form?_of_get? hd

theorem Treats.unique (h : s.Treats t form) (h' : s.Treats t form') : form = form' :=
  Option.some.inj (h.form?.symm.trans h'.form?)

theorem Treats.formOf {d : Descriptor} (h : s.Treats t form) (hd : s.types.get? t = some d) :
    s.types.formOf d.kind = form :=
  Universe.formOf_of_form? hd h.form?

/-- An object is treated as the object that it is. -/
theorem Treats.kind_of_get? {parameters : List TypeId} {d : Descriptor}
    (h : s.Treats t (.object parameters)) (hd : s.types.get? t = some d) :
    d.kind = .object parameters :=
  Universe.eq_object_of_object (h.formOf hd)

theorem Treats.not_redirects (h : s.Treats t form) : ¬ s.Redirects t name location := by
  rintro ⟨e, he, hover⟩
  obtain ⟨d, hd, hover', -⟩ := h
  cases hd.symm.trans he
  rw [hover] at hover'
  cases hover'

theorem Redirects.unique {name' location' : String} (h : s.Redirects t name location)
    (h' : s.Redirects t name' location') : name = name' ∧ location = location' := by
  obtain ⟨d, hd, hover⟩ := h
  obtain ⟨d', hd', hover'⟩ := h'
  cases hd.symm.trans hd'
  cases hover.symm.trans hover'
  exact ⟨rfl, rfl⟩

theorem Locates.unique {location' : String} (h : s.Locates t location)
    (h' : s.Locates t location') : location = location' := by
  obtain ⟨d, hd, hl⟩ := h
  obtain ⟨e, he, hl'⟩ := h'
  cases hd.symm.trans he
  exact Except.ok.inj (hl.symm.trans hl')

theorem Outlines.unique {d d' : Declaration} (h : s.Outlines t d) (h' : s.Outlines t d') :
    d = d' := by
  obtain ⟨form, ht, ho⟩ := h
  obtain ⟨form', ht', ho'⟩ := h'
  cases ht.unique ht'
  exact Option.some.inj (ho.symm.trans ho')

/-- A type is declared only when its form has an outline. -/
theorem Treats.not_outlines (h : s.Treats t form) (hnone : s.outline t form = none)
    {d : Declaration} : ¬ s.Outlines t d := by
  rintro ⟨form', ht, ho⟩
  cases h.unique ht
  cases hnone.symm.trans ho

theorem Outlines.not_redirects {d : Declaration} (h : s.Outlines t d) :
    ¬ s.Redirects t name location := by
  obtain ⟨form, ht, -⟩ := h
  exact ht.not_redirects

theorem Outlines.name_eq {d : Declaration} (h : s.Outlines t d) : d.name = s.types.nameOf t := by
  obtain ⟨form, -, ho⟩ := h
  unfold outline at ho
  split at ho
  · split at ho <;> cases ho <;> rfl
  · cases ho
    rfl
  · cases ho

theorem mem_written {m : Member} (h : m ∈ s.written t) :
    ∃ d, s.types.get? t = some d ∧ m ∈ d.members := by
  unfold written at h
  split at h
  · rename_i d hd
    exact ⟨d, hd, List.mem_of_mem_filter h⟩
  · cases h

theorem Uses.mentions {next : Member → TypeId} (h : s.Uses next o t) (hc : s.Mentions t c) :
    s.Uses next o c := by
  obtain ⟨parameters, m, ho, hm, hmention⟩ := h
  exact ⟨parameters, m, ho, hm, hmention.trans hc⟩

theorem Uses.reached {next : Member → TypeId} (h : s.Uses next o t) (ho : s.Reached next o) :
    s.Reached next t := by
  obtain ⟨parameters, m, hobject, hm, hmention⟩ := h
  have start : s.Reached next (next m) := .member ho hobject hm
  induction hmention with
  | refl => exact start
  | tail _ hpart ih => exact .part ih hpart

/-! ## Members that may be absent -/

section Bare

/-- Whether every `Nullable` is treated by its form. -/
def PeelsNullable (s : Setup) : Prop :=
  ∀ t underlying, s.types.form? t = some (.absent underlying) → s.Treats t (.absent underlying)

variable (h : s.PeelsNullable)
include h

/-- The bare type is a part of the type, or the type itself. -/
theorem part_bare (t : TypeId) : s.types.bare t = t ∨ s.Part t (s.types.bare t) := by
  by_cases ha : ∃ underlying, s.types.form? t = some (.absent underlying)
  · obtain ⟨underlying, ha⟩ := ha
    rw [Universe.bare_of_absent ha]
    exact .inr ⟨_, h t underlying ha, List.mem_singleton.2 rfl⟩
  · exact .inl (Universe.bare_of_ne_absent fun x hx => ha ⟨x, hx⟩)

/-- The only part of a type that is not bare is its bare type. -/
theorem eq_bare_of_part (hc : s.Part t c) : s.types.bare t = t ∨ c = s.types.bare t := by
  rcases part_bare h t with hsame | ⟨form', ht', hmem'⟩
  · exact .inl hsame
  · by_cases ha : ∃ underlying, s.types.form? t = some (.absent underlying)
    · obtain ⟨underlying, ha⟩ := ha
      obtain ⟨form, ht, hmem⟩ := hc
      cases Option.some.inj (ht.form?.symm.trans ha)
      rw [Universe.bare_of_absent ha]
      exact .inr (List.mem_singleton.1 hmem)
    · exact .inl (Universe.bare_of_ne_absent fun x hx => ha ⟨x, hx⟩)

theorem mentions_bare (t : TypeId) : s.Mentions t (s.types.bare t) := by
  rcases part_bare h t with hsame | hpart
  · rw [hsame]
    exact .refl
  · exact .single hpart

theorem mentions_site (m : Member) : s.Mentions m.type (s.site m) :=
  (mentions_bare h m.type).trans (mentions_bare h _)

/-- What a type mentions beside itself, its bare type mentions. -/
theorem Mentions.bare (ht : s.Mentions t c) (hc : s.types.bare c = c) :
    s.Mentions (s.types.bare t) c := by
  rcases Relation.ReflTransGen.cases_head ht with rfl | ⟨a, hpart, hrest⟩
  · rw [hc]
    exact .refl
  · rcases eq_bare_of_part h hpart with hsame | rfl
    · rw [hsame]
      exact ht
    · exact hrest

/-- For a type that is no `Nullable` it makes no difference whether the type of
a member or its site mentions it. -/
theorem uses_site_iff (hc : s.types.bare c = c) :
    s.Uses s.site o c ↔ s.Uses (·.type) o c := by
  constructor
  · rintro ⟨parameters, m, ho, hm, hmention⟩
    exact ⟨parameters, m, ho, hm, (mentions_site h m).trans hmention⟩
  · rintro ⟨parameters, m, ho, hm, hmention⟩
    exact ⟨parameters, m, ho, hm, (hmention.bare h hc).bare h hc⟩

theorem Reached.bare {next : Member → TypeId} (ht : s.Reached next t) :
    s.Reached next (s.types.bare t) := by
  rcases part_bare h t with hsame | hpart
  · rwa [hsame]
  · exact .part ht hpart

theorem Resolved.reachable (ht : s.Resolved t) : s.Reachable t := by
  induction ht with
  | root hroot => exact .root hroot
  | part _ hpart ih => exact .part ih hpart
  | member _ hobject hm ih => exact ((Reached.member ih hobject hm).bare h).bare h

/-- A reachable type is resolved without up to two outer `Nullable`s. -/
theorem Reachable.resolved (ht : s.Reachable t) :
    s.Resolved t ∨ s.Resolved (s.types.bare t) ∨ s.Resolved (s.types.bare (s.types.bare t)) := by
  induction ht with
  | root hroot => exact .inl (.root hroot)
  | @part t c _ hpart ih =>
    rcases eq_bare_of_part h hpart with hsame | rfl
    · rw [hsame, hsame, or_self, or_self] at ih
      exact .inl (.part ih hpart)
    · rcases ih with ht | hbare | hsite
      · exact .inl (.part ht hpart)
      · exact .inl hbare
      · exact .inr (.inl hsite)
  | @member t parameters m _ hobject hm ih =>
    -- an object is bare, so it is resolved itself
    have hsame : s.types.bare t = t :=
      Universe.bare_of_ne_absent (by simp [hobject.form?])
    rw [hsame, hsame, or_self, or_self] at ih
    exact .inr (.inr (.member ih hobject hm))

/-- A type that is no `Nullable` is resolved exactly when it is reachable. -/
theorem resolved_iff_reachable (ht : s.types.bare t = t) : s.Resolved t ↔ s.Reachable t := by
  constructor
  · exact Resolved.reachable h
  · intro hr
    have := hr.resolved h
    rwa [ht, ht, or_self, or_self] at this

end Bare

end Setup

end TypeExport
