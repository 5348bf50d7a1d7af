import TypeExport.Proofs.Translation

/-!
# Names in expressions

The names that stand in the translation of a type are the names of the types
that it mentions and that are written by name (`Setup.Translates.mem_names_iff`).
What says that a value may be null adds no names.
-/

namespace TypeExport

namespace TypeExpr

mutual

/-- The names that stand in an expression. -/
def names : TypeExpr → List String
  | reference name => [name]
  | generic base arguments => base.names ++ namesAll arguments
  | array element => element.names
  | orNull inner => inner.names
  | nullable inner => inner.names
  | dictionary key value => key.names ++ value.names
  | union items => namesAll items
  | literal _ => []

/-- The names that stand in several expressions. -/
def namesAll : List TypeExpr → List String
  | [] => []
  | e :: es => e.names ++ namesAll es

end

mutual

theorem names_erase (e : TypeExpr) : e.erase.names = e.names := by
  match e with
  | reference _ | literal _ => rfl
  | generic base arguments =>
    rw [erase, names, names, names_erase base, namesAll_eraseAll arguments]
  | array element => rw [erase, names, names, names_erase element]
  | orNull inner => rw [erase, names, names_erase inner]
  | nullable inner => rw [erase, names, names_erase inner]
  | dictionary key value => rw [erase, names, names, names_erase key, names_erase value]
  | union items => rw [erase, names, names, namesAll_eraseAll items]

theorem namesAll_eraseAll (es : List TypeExpr) : namesAll (eraseAll es) = namesAll es := by
  match es with
  | [] => rfl
  | e :: es => rw [eraseAll, namesAll, namesAll, names_erase e, namesAll_eraseAll es]

end

/-- Expressions that differ in what says that a value may be null have the same
names. -/
theorem names_orNullable (e : TypeExpr) (isNullable : Bool) (o : Options) :
    (e.orNullable isNullable o).names = e.names := by
  rw [← names_erase, erase_orNullable, names_erase]

end TypeExpr

/-- The names that no unit declares. -/
def primitiveNames : List String := ["boolean", "number", "string", "Date", "any", "void"]

theorem Builtin.names_target (b : Builtin) : ∀ n ∈ b.target.names, n ∈ primitiveNames := by
  cases b <;> decide

namespace Setup

variable {s : Setup} {t c : TypeId} {form : Form} {n : String}

/-- The names by which a type is written at its use sites. -/
inductive Names (s : Setup) (t : TypeId) : String → Prop
  | redirected {name location : String} : s.Redirects t name location → Names s t name
  | primitive {e : TypeExpr} {name : String} : s.Treats t (.primitive e) → name ∈ e.names →
      Names s t name
  | parameter : s.Treats t .parameter → Names s t (s.types.nameOf t)
  | declared {d : Declaration} : s.Outlines t d → Names s t (s.types.nameOf t)

/-- The names that a type brings in. -/
def Brings (s : Setup) (t : TypeId) (n : String) : Prop := ∃ c, s.Mentions t c ∧ s.Names c n

theorem Treats.primitive_names {e : TypeExpr} (h : s.Treats t (.primitive e)) :
    ∀ n ∈ e.names, n ∈ primitiveNames := by
  obtain ⟨d, -, -, hform⟩ := h
  generalize d.kind = kind at hform
  cases Universe.hasForm_of_eq hform with
  | builtin b => exact b.names_target
  | bytes => decide

/-- A type without parts brings in its own names. -/
theorem brings_of_no_parts (h : ∀ c, ¬ s.Part t c) : s.Brings t n ↔ s.Names t n := by
  constructor
  · rintro ⟨c, hmention, hn⟩
    rcases Relation.ReflTransGen.cases_head hmention with rfl | ⟨x, hpart, -⟩
    · exact hn
    · exact absurd hpart (h x)
  · exact fun hn => ⟨t, .refl, hn⟩

/-- A type without names of its own brings in those of its parts. -/
theorem brings_iff_parts (ht : s.Treats t form) (h : ¬ s.Names t n) :
    s.Brings t n ↔ ∃ x ∈ form.parts, s.Brings x n := by
  constructor
  · rintro ⟨c, hmention, hn⟩
    rcases Relation.ReflTransGen.cases_head hmention with rfl | ⟨x, ⟨form', ht', hx⟩, hrest⟩
    · exact absurd hn h
    · cases ht.unique ht'
      exact ⟨x, hx, c, hrest, hn⟩
  · rintro ⟨x, hx, c, hmention, hn⟩
    exact ⟨c, .head ⟨form, ht, hx⟩ hmention, hn⟩

/-- A composed type has no names of its own. -/
theorem Treats.not_names (ht : s.Treats t form) (hprimitive : ∀ e, form ≠ .primitive e)
    (hparameter : form ≠ .parameter) (hnone : s.outline t form = none) : ¬ s.Names t n := by
  intro hn
  cases hn with
  | redirected hr => exact ht.not_redirects hr
  | primitive ht' => exact hprimitive _ (ht.unique ht')
  | parameter ht' => exact hparameter (ht.unique ht')
  | declared hd => exact ht.not_outlines hnone hd

theorem Treats.no_parts (ht : s.Treats t form) (h : form.parts = []) : ∀ c, ¬ s.Part t c := by
  rintro c ⟨form', ht', hc⟩
  cases ht.unique ht'
  rw [h] at hc
  cases hc

/-! ## Leaves -/

theorem Redirects.brings_iff {name location : String} (h : s.Redirects t name location) :
    s.Brings t n ↔ n = name := by
  have no_parts : ∀ c, ¬ s.Part t c := fun c ⟨form, ht, _⟩ => ht.not_redirects h
  rw [brings_of_no_parts no_parts]
  constructor
  · intro hn
    cases hn with
    | redirected h' => exact (h'.unique h).1
    | primitive ht => exact absurd h ht.not_redirects
    | parameter ht => exact absurd h ht.not_redirects
    | declared hd => exact absurd h hd.not_redirects
  · rintro rfl
    exact .redirected h

theorem Treats.brings_primitive_iff {e : TypeExpr} (h : s.Treats t (.primitive e)) :
    s.Brings t n ↔ n ∈ e.names := by
  rw [brings_of_no_parts (h.no_parts rfl)]
  constructor
  · intro hn
    cases hn with
    | primitive ht hmem =>
      cases h.unique ht
      exact hmem
    | redirected hr => exact absurd hr h.not_redirects
    | parameter ht => cases h.unique ht
    | declared hd => exact absurd hd (h.not_outlines rfl)
  · exact .primitive h

theorem Treats.brings_parameter_iff (h : s.Treats t .parameter) :
    s.Brings t n ↔ n = s.types.nameOf t := by
  rw [brings_of_no_parts (h.no_parts rfl)]
  constructor
  · intro hn
    cases hn with
    | parameter => rfl
    | redirected hr => exact absurd hr h.not_redirects
    | primitive ht => cases h.unique ht
    | declared => rfl
  · rintro rfl
    exact .parameter h

theorem Outlines.brings_iff {d : Declaration} (h : s.Outlines t d) :
    s.Brings t n ↔ n = s.types.nameOf t := by
  obtain ⟨form, ht, ho⟩ := h
  have no_parts : ∀ c, ¬ s.Part t c := by
    refine ht.no_parts ?_
    cases form <;> first | rfl | cases ho
  rw [brings_of_no_parts no_parts]
  constructor
  · intro hn
    cases hn with
    | parameter => rfl
    | redirected hr => exact absurd hr ht.not_redirects
    | primitive ht' =>
      cases ht.unique ht'
      cases ho
    | declared => rfl
  · rintro rfl
    exact .declared ⟨form, ht, ho⟩

/-! ## Expressions -/

mutual

/-- The names in the translation of a type are those that it brings in. -/
theorem Translates.mem_names_iff {t : TypeId} {e : TypeExpr} (h : s.Translates t e) :
    n ∈ e.names ↔ s.Brings t n := by
  match h with
  | .redirected hr => rw [hr.brings_iff, TypeExpr.names, List.mem_singleton]
  | .primitive ht => rw [ht.brings_primitive_iff]
  | .sequence ht hx =>
    rw [brings_iff_parts ht (ht.not_names nofun nofun rfl), TypeExpr.names, hx.mem_names_iff]
    simp [Form.parts]
  | .dictionary ht hkey hvalue =>
    rw [brings_iff_parts ht (ht.not_names nofun nofun rfl), TypeExpr.names, List.mem_append,
      hkey.mem_names_iff, hvalue.mem_names_iff]
    simp [Form.parts]
  | .absent ht hx =>
    rw [brings_iff_parts ht (ht.not_names nofun nofun rfl), hx.mem_names_iff]
    simp [Form.parts]
  | .applied ht hdefinition harguments =>
    rw [brings_iff_parts ht (ht.not_names nofun nofun rfl), TypeExpr.names, List.mem_append,
      hdefinition.mem_names_iff, harguments.mem_namesAll_iff]
    simp [Form.parts]
  | .parameter ht => rw [ht.brings_parameter_iff, TypeExpr.names, List.mem_singleton]
  | .declared hd => rw [hd.brings_iff, TypeExpr.names, List.mem_singleton]

theorem TranslatesAll.mem_namesAll_iff {xs : List TypeId} {es : List TypeExpr}
    (h : s.TranslatesAll xs es) : n ∈ TypeExpr.namesAll es ↔ ∃ x ∈ xs, s.Brings x n := by
  match h with
  | .nil => simp [TypeExpr.namesAll]
  | .cons hx hrest =>
    rw [TypeExpr.namesAll, List.mem_append, hx.mem_names_iff, hrest.mem_namesAll_iff]
    simp

end

end Setup

end TypeExport
