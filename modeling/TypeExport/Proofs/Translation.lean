import TypeExport.Proofs.Run.Written

/-!
# Translations

Without what says that a value may be null, the expression that is written for
a type depends on the type alone (`Setup.Written.translates`).  It is the
translation of the type by its structure, and a type has at most one
(`Setup.Translates.unique`).  What says that a value may be null stands at the
top of an expression only for a `Nullable`, and has the form that the options
ask for (`Setup.Written.isWrapper_eq_false`, `Setup.Written.isNullableBy`).
-/

namespace TypeExport

namespace TypeExpr

mutual

/-- The expression without what says that a value may be null. -/
def erase : TypeExpr → TypeExpr
  | reference name => reference name
  | generic base arguments => generic base.erase (eraseAll arguments)
  | array element => array element.erase
  | orNull inner => inner.erase
  | nullable inner => inner.erase
  | dictionary key value => dictionary key.erase value.erase
  | union items => union (eraseAll items)
  | literal value => literal value

/-- The expressions without what says that a value may be null. -/
def eraseAll : List TypeExpr → List TypeExpr
  | [] => []
  | e :: es => e.erase :: eraseAll es

end

/-- Whether an expression says that a value may be null in the form that the
options ask for. -/
def IsNullableBy (o : Options) (e : TypeExpr) : Prop :=
  ∃ inner, e = if o.globalNullable then .nullable inner else .orNull inner

@[simp] theorem erase_orNullable (e : TypeExpr) (isNullable : Bool) (o : Options) :
    (e.orNullable isNullable o).erase = e.erase := by
  unfold orNullable
  split
  · rfl
  · split <;> rfl

/-- An expression says that a value may be null if it did, or if it is to and
the run has nullable types. -/
theorem isWrapper_orNullable (e : TypeExpr) (isNullable : Bool) (o : Options) :
    (e.orNullable isNullable o).isWrapper = true ↔
      e.isWrapper = true ∨ isNullable = true ∧ o.nullability ≠ .none := by
  unfold orNullable
  by_cases hmode : o.nullability = .none <;> cases isNullable <;> cases hw : e.isWrapper <;>
    simp [hmode, hw]
  split <;> rfl

theorem IsNullableBy.orNullable {e : TypeExpr} {isNullable : Bool} {o : Options}
    (h : e.isWrapper = true → e.IsNullableBy o)
    (hw : (e.orNullable isNullable o).isWrapper = true) :
    (e.orNullable isNullable o).IsNullableBy o := by
  unfold TypeExpr.orNullable at hw ⊢
  split
  case isTrue hsame =>
    rw [if_pos hsame] at hw
    exact h hw
  case isFalse =>
    refine ⟨e, ?_⟩
    split <;> rfl

end TypeExpr

theorem Builtin.erase_target (b : Builtin) : b.target.erase = b.target := by cases b <;> rfl

theorem Builtin.isWrapper_target (b : Builtin) : b.target.isWrapper = false := by cases b <;> rfl

namespace Setup

variable {s : Setup} {a : Option Attributes} {t : TypeId} {e e' : TypeExpr}

/-- A primitive expression neither says that a value may be null nor has parts
that do. -/
theorem Treats.primitive (h : s.Treats t (.primitive e)) :
    e.erase = e ∧ e.isWrapper = false := by
  obtain ⟨d, -, -, hform⟩ := h
  generalize d.kind = kind at hform
  cases Universe.hasForm_of_eq hform with
  | builtin b => exact ⟨b.erase_target, b.isWrapper_target⟩
  | bytes => exact ⟨rfl, rfl⟩

/-! ## By structure -/

mutual

/-- The translation of a type by its structure. -/
inductive Translates (s : Setup) : TypeId → TypeExpr → Prop
  | redirected {t : TypeId} {name location : String} :
      s.Redirects t name location → Translates s t (.reference name)
  | primitive {t : TypeId} {e : TypeExpr} : s.Treats t (.primitive e) → Translates s t e
  | sequence {t x : TypeId} {e : TypeExpr} :
      s.Treats t (.sequence x) → Translates s x e → Translates s t (.array e)
  | dictionary {t key value : TypeId} {e e' : TypeExpr} :
      s.Treats t (.dictionary key value) → Translates s key e → Translates s value e' →
      Translates s t (.dictionary e e')
  | absent {t x : TypeId} {e : TypeExpr} :
      s.Treats t (.absent x) → Translates s x e → Translates s t e
  | applied {t definition : TypeId} {arguments : List TypeId} {e : TypeExpr}
      {es : List TypeExpr} :
      s.Treats t (.applied definition arguments) → Translates s definition e →
      TranslatesAll s arguments es → Translates s t (.generic e es)
  | parameter {t : TypeId} :
      s.Treats t .parameter → Translates s t (.reference (s.types.nameOf t))
  | declared {t : TypeId} {d : Declaration} :
      s.Outlines t d → Translates s t (.reference (s.types.nameOf t))

/-- The translations of several types. -/
inductive TranslatesAll (s : Setup) : List TypeId → List TypeExpr → Prop
  | nil : TranslatesAll s [] []
  | cons {x : TypeId} {xs : List TypeId} {e : TypeExpr} {es : List TypeExpr} :
      Translates s x e → TranslatesAll s xs es → TranslatesAll s (x :: xs) (e :: es)

end

mutual

/-- What is written for a type is its translation. -/
theorem Written.translates {a : Option Attributes} {t : TypeId} {e : TypeExpr}
    (h : s.Written a t e) : s.Translates t e.erase := by
  match h with
  | .redirected hr => exact .redirected hr
  | .primitive ht =>
    rw [ht.primitive.1]
    exact .primitive ht
  | .sequence ht _ hx =>
    rw [TypeExpr.erase, TypeExpr.erase_orNullable]
    exact .sequence ht hx.translates
  | .dictionary ht _ _ hkey hvalue =>
    rw [TypeExpr.erase, TypeExpr.erase_orNullable]
    exact .dictionary ht hkey.translates hvalue.translates
  | .nullable _ ht hx =>
    rw [TypeExpr.erase_orNullable]
    exact .absent ht hx.translates
  | .unwrapped _ ht hx => exact .absent ht hx.translates
  | .applied ht hdefinition harguments =>
    rw [TypeExpr.erase]
    exact .applied ht hdefinition.translates harguments.translates
  | .parameter ht => exact .parameter ht
  | .declared hd => exact .declared hd

theorem WrittenArguments.translates {a : Option Attributes} {before xs : List TypeId}
    {es : List TypeExpr} (h : s.WrittenArguments a before xs es) :
    s.TranslatesAll xs (TypeExpr.eraseAll es) := by
  match h with
  | .nil => exact .nil
  | .cons hx _ _ hrest =>
    rw [TypeExpr.eraseAll, TypeExpr.erase_orNullable]
    exact .cons hx.translates hrest.translates

end

/-! ## Uniqueness -/

mutual

/-- A type has one translation. -/
theorem Translates.unique {t : TypeId} {e e' : TypeExpr} (h : s.Translates t e)
    (h' : s.Translates t e') : e = e' := by
  match h with
  | .redirected hr =>
    cases h' with
    | redirected hr' => rw [(hr.unique hr').1]
    | declared hd => exact absurd hr hd.not_redirects
    | primitive ht | sequence ht | dictionary ht | absent ht | applied ht | parameter ht =>
      exact absurd hr ht.not_redirects
  | .primitive ht =>
    cases h' with
    | primitive ht' =>
      cases ht.unique ht'
      rfl
    | redirected hr => exact absurd hr ht.not_redirects
    | declared hd => exact absurd hd (ht.not_outlines rfl)
    | sequence ht' | dictionary ht' | absent ht' | applied ht' | parameter ht' =>
      cases ht.unique ht'
  | .sequence ht hx =>
    cases h' with
    | sequence ht' hx' =>
      cases ht.unique ht'
      rw [hx.unique hx']
    | redirected hr => exact absurd hr ht.not_redirects
    | declared hd => exact absurd hd (ht.not_outlines rfl)
    | primitive ht' | dictionary ht' | absent ht' | applied ht' | parameter ht' =>
      cases ht.unique ht'
  | .dictionary ht hkey hvalue =>
    cases h' with
    | dictionary ht' hkey' hvalue' =>
      cases ht.unique ht'
      rw [hkey.unique hkey', hvalue.unique hvalue']
    | redirected hr => exact absurd hr ht.not_redirects
    | declared hd => exact absurd hd (ht.not_outlines rfl)
    | primitive ht' | sequence ht' | absent ht' | applied ht' | parameter ht' =>
      cases ht.unique ht'
  | .absent ht hx =>
    cases h' with
    | absent ht' hx' =>
      cases ht.unique ht'
      exact hx.unique hx'
    | redirected hr => exact absurd hr ht.not_redirects
    | declared hd => exact absurd hd (ht.not_outlines rfl)
    | primitive ht' | sequence ht' | dictionary ht' | applied ht' | parameter ht' =>
      cases ht.unique ht'
  | .applied ht hdefinition harguments =>
    cases h' with
    | applied ht' hdefinition' harguments' =>
      cases ht.unique ht'
      rw [hdefinition.unique hdefinition', harguments.unique harguments']
    | redirected hr => exact absurd hr ht.not_redirects
    | declared hd => exact absurd hd (ht.not_outlines rfl)
    | primitive ht' | sequence ht' | dictionary ht' | absent ht' | parameter ht' =>
      cases ht.unique ht'
  | .parameter ht =>
    cases h' with
    | parameter => rfl
    | redirected hr => exact absurd hr ht.not_redirects
    | declared => rfl
    | primitive ht' | sequence ht' | dictionary ht' | absent ht' | applied ht' =>
      cases ht.unique ht'
  | .declared hd =>
    cases h' with
    | declared => rfl
    | parameter => rfl
    | redirected hr => exact absurd hr hd.not_redirects
    | primitive ht' | sequence ht' | dictionary ht' | absent ht' | applied ht' =>
      exact absurd hd (ht'.not_outlines rfl)

theorem TranslatesAll.unique {xs : List TypeId} {es es' : List TypeExpr}
    (h : s.TranslatesAll xs es) (h' : s.TranslatesAll xs es') : es = es' := by
  match h with
  | .nil =>
    cases h'
    rfl
  | .cons hx hrest =>
    cases h' with
    | cons hx' hrest' => rw [hx.unique hx', hrest.unique hrest']

end

/-! ## Nullable expressions -/

/-- A written expression says that a value may be null in the form asked
for. -/
theorem Written.isNullableBy {a : Option Attributes} {t : TypeId} {e : TypeExpr}
    (h : s.Written a t e) (hw : e.isWrapper = true) : e.IsNullableBy s.options := by
  match h with
  | .nullable _ _ hx => exact .orNullable hx.isNullableBy hw
  | .unwrapped _ _ hx => exact hx.isNullableBy hw
  | .primitive ht =>
    rw [ht.primitive.2] at hw
    cases hw
  | .redirected _ | .sequence .. | .dictionary .. | .applied .. | .parameter _ | .declared _ =>
    cases hw

/-- Nothing says that a value may be null when nothing may. -/
theorem Written.isWrapper_of_mode {a : Option Attributes} {t : TypeId} {e : TypeExpr}
    (h : s.Written a t e) (hmode : s.options.nullability = .none) : e.isWrapper = false := by
  match h with
  | .nullable _ _ hx =>
    rw [Bool.eq_false_iff, Ne, TypeExpr.isWrapper_orNullable, hx.isWrapper_of_mode hmode]
    simp [hmode]
  | .unwrapped _ _ hx => exact hx.isWrapper_of_mode hmode
  | .primitive ht => exact ht.primitive.2
  | .redirected _ | .sequence .. | .dictionary .. | .applied .. | .parameter _ | .declared _ => rfl

/-- Only what is written for a `Nullable` says at its top that a value may be
null. -/
theorem Written.isWrapper_eq_false (h : s.Written a t e)
    (ht : ∀ x, s.types.form? t ≠ some (.absent x)) : e.isWrapper = false := by
  cases h with
  | nullable _ ht' => exact absurd ht'.form? (ht _)
  | unwrapped _ ht' => exact absurd ht'.form? (ht _)
  | primitive ht' => exact ht'.primitive.2
  | redirected | sequence | dictionary | applied | parameter | declared => rfl

end Setup

end TypeExport
