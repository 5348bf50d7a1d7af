import TypeExport.Proofs.Names

/-!
# Places in types

Where a type stands in a composed one is said by a path (`Setup.At`), and the
same path leads through the expression that is written for it
(`TypeExpr.at?`).  What says that a value may be null is not on the path, and
neither is a `Nullable`.

A reference in a written expression stands for the type at its place
(`Setup.Written.exists_stands`), and every name in the expression is such a
reference (`Setup.Written.exists_path`).
-/

namespace TypeExport

/-- Where a composed type has a part. -/
inductive Slot where
  /-- The element of an array or a list. -/
  | element
  /-- The key of a dictionary. -/
  | key
  /-- The value of a dictionary. -/
  | value
  /-- The definition of a closed generic. -/
  | definition
  /-- The argument of a closed generic at a position. -/
  | argument (position : Nat)
  /-- One of several types. -/
  | alternative (position : Nat)
  deriving DecidableEq, Repr

namespace TypeExpr

/-- The expression without what says at its top that the value may be null. -/
def unwrapped : TypeExpr → TypeExpr
  | orNull inner => inner
  | nullable inner => inner
  | e => e

/-- The part of an expression in a slot. -/
def part? : TypeExpr → Slot → Option TypeExpr
  | array e, .element => some e
  | dictionary e _, .key => some e
  | dictionary _ e, .value => some e
  | generic e _, .definition => some e
  | generic _ es, .argument position => es[position]?
  | union es, .alternative position => es[position]?
  | _, _ => none

/-- The expression at the end of a path, without what says that the values on
the way or its own may be null. -/
def at? : List Slot → TypeExpr → Option TypeExpr
  | [], e => some e.unwrapped
  | slot :: path, e => (e.unwrapped.part? slot).bind (at? path)

theorem unwrapped_of_not_isWrapper {e : TypeExpr} (h : e.isWrapper = false) :
    e.unwrapped = e := by
  cases e with
  | orNull => cases h
  | nullable => cases h
  | _ => rfl

@[simp] theorem unwrapped_orNullable (e : TypeExpr) (isNullable : Bool) (o : Options) :
    (e.orNullable isNullable o).unwrapped = e.unwrapped := by
  unfold orNullable
  split
  case isTrue => rfl
  case isFalse h =>
    have hw : e.isWrapper = false := by
      simp only [Bool.or_eq_true, not_or, Bool.not_eq_true] at h
      exact h.1.2
    rw [unwrapped_of_not_isWrapper hw]
    split <;> rfl

@[simp] theorem at?_orNullable (path : List Slot) (e : TypeExpr) (isNullable : Bool)
    (o : Options) : (e.orNullable isNullable o).at? path = e.at? path := by
  cases path <;> simp [at?]

theorem names_unwrapped (e : TypeExpr) : e.unwrapped.names = e.names := by
  cases e <;> simp [unwrapped, names]

theorem mem_namesAll {e : TypeExpr} {es : List TypeExpr} {n : String} (he : e ∈ es)
    (hn : n ∈ e.names) : n ∈ namesAll es := by
  induction es with
  | nil => cases he
  | cons e' es ih =>
    rw [namesAll]
    rcases List.mem_cons.1 he with rfl | hrest
    · exact List.mem_append_left _ hn
    · exact List.mem_append_right _ (ih hrest)

/-- The names in a part are names in the whole. -/
theorem mem_names_of_part? {e e' : TypeExpr} {slot : Slot} {n : String}
    (h : e.part? slot = some e') (hn : n ∈ e'.names) : n ∈ e.names := by
  match e, slot, h with
  | array _, .element, rfl => exact hn
  | dictionary _ _, .key, rfl => exact List.mem_append_left _ hn
  | dictionary _ _, .value, rfl => exact List.mem_append_right _ hn
  | generic _ _, .definition, rfl => exact List.mem_append_left _ hn
  | generic _ _, .argument _, h =>
    exact List.mem_append_right _ (mem_namesAll (List.mem_of_getElem? h) hn)
  | union _, .alternative _, h => exact mem_namesAll (List.mem_of_getElem? h) hn

/-- A reference at some place is a name in the expression. -/
theorem mem_names_of_at? {e : TypeExpr} {path : List Slot} {n : String}
    (h : e.at? path = some (.reference n)) : n ∈ e.names := by
  rw [← names_unwrapped]
  induction path generalizing e with
  | nil =>
    rw [Option.some.inj h]
    exact List.mem_singleton.2 rfl
  | cons slot path ih =>
    obtain ⟨e', hpart, hrest⟩ := Option.bind_eq_some_iff.1 h
    refine mem_names_of_part? hpart ?_
    rw [← names_unwrapped]
    exact ih hrest

/-! Where a reference can stand in a composed expression. -/

variable {e e' : TypeExpr} {es : List TypeExpr} {path : List Slot} {n : String}

theorem at?_array (h : (array e).at? path = some (.reference n)) :
    ∃ rest, path = .element :: rest ∧ e.at? rest = some (.reference n) := by
  match path, h with
  | [], h => cases h
  | .element :: rest, h => exact ⟨rest, rfl, h⟩

theorem at?_dictionary (h : (dictionary e e').at? path = some (.reference n)) :
    (∃ rest, path = .key :: rest ∧ e.at? rest = some (.reference n)) ∨
      ∃ rest, path = .value :: rest ∧ e'.at? rest = some (.reference n) := by
  match path, h with
  | [], h => cases h
  | .key :: rest, h => exact .inl ⟨rest, rfl, h⟩
  | .value :: rest, h => exact .inr ⟨rest, rfl, h⟩

theorem at?_generic (h : (generic e es).at? path = some (.reference n)) :
    (∃ rest, path = .definition :: rest ∧ e.at? rest = some (.reference n)) ∨
      ∃ position rest e', path = .argument position :: rest ∧ es[position]? = some e' ∧
        e'.at? rest = some (.reference n) := by
  match path, h with
  | [], h => cases h
  | .definition :: rest, h => exact .inl ⟨rest, rfl, h⟩
  | .argument position :: rest, h =>
    obtain ⟨e', he', hn⟩ := Option.bind_eq_some_iff.1 h
    exact .inr ⟨position, rest, e', rfl, he', hn⟩

end TypeExpr

/-- The names in the target of a built-in type are references. -/
theorem Builtin.exists_path_target {n : String} (b : Builtin) (hn : n ∈ b.target.names) :
    ∃ path, b.target.at? path = some (.reference n) := by
  cases b with
  | dateTime | dateTimeOffset | timeSpan =>
    rcases List.mem_pair.1 hn with rfl | rfl
    · exact ⟨[.alternative 0], rfl⟩
    · exact ⟨[.alternative 1], rfl⟩
  | _ =>
    rw [List.mem_singleton.1 hn]
    exact ⟨[], rfl⟩

namespace Setup

variable {s : Setup} {a : Option Attributes} {t c x : TypeId} {e : TypeExpr} {form : Form}
  {path : List Slot} {n : String}

/-- Whether a path through composed types leads from a type to another.  A
`Nullable` has no slot of its own. -/
inductive At (s : Setup) : TypeId → List Slot → TypeId → Prop
  | here {t : TypeId} : At s t [] t
  | element {t x c : TypeId} {path : List Slot} :
      s.Treats t (.sequence x) → At s x path c → At s t (.element :: path) c
  | key {t k v c : TypeId} {path : List Slot} :
      s.Treats t (.dictionary k v) → At s k path c → At s t (.key :: path) c
  | value {t k v c : TypeId} {path : List Slot} :
      s.Treats t (.dictionary k v) → At s v path c → At s t (.value :: path) c
  | definition {t x c : TypeId} {arguments : List TypeId} {path : List Slot} :
      s.Treats t (.applied x arguments) → At s x path c → At s t (.definition :: path) c
  | argument {t d x c : TypeId} {arguments : List TypeId} {position : Nat} {path : List Slot} :
      s.Treats t (.applied d arguments) → arguments[position]? = some x → At s x path c →
      At s t (.argument position :: path) c
  | absent {t x c : TypeId} {path : List Slot} :
      s.Treats t (.absent x) → At s x path c → At s t path c

/-- What a path leads to is mentioned. -/
theorem At.mentions (h : s.At t path c) : s.Mentions t c := by
  induction h with
  | here => exact .refl
  | element ht _ ih => exact .head ⟨_, ht, List.mem_singleton.2 rfl⟩ ih
  | key ht _ ih => exact .head ⟨_, ht, List.mem_cons_self⟩ ih
  | value ht _ ih => exact .head ⟨_, ht, List.mem_cons_of_mem _ (List.mem_singleton.2 rfl)⟩ ih
  | definition ht _ ih => exact .head ⟨_, ht, List.mem_cons_self⟩ ih
  | argument ht hx _ ih =>
    exact .head ⟨_, ht, List.mem_cons_of_mem _ (List.mem_of_getElem? hx)⟩ ih
  | absent ht _ ih => exact .head ⟨_, ht, List.mem_singleton.2 rfl⟩ ih

/-! ## What is written at a path -/

/-- What is written for a composed type is made of what is written for its
parts. -/
theorem Written.parts (h : s.Written a t e) (ht : s.Treats t form) :
    match form with
    | .sequence x => ∃ e' b, s.Written none x e' ∧ e = .array (e'.orNullable b s.options)
    | .dictionary key value => ∃ k v b, s.Written none key k ∧ s.Written none value v ∧
        e = .dictionary k (v.orNullable b s.options)
    | .absent x => ∃ a' e' b, s.Written a' x e' ∧ e = e'.orNullable b s.options
    | .applied definition arguments => ∃ d es, s.Written none definition d ∧
        s.WrittenArguments a [] arguments es ∧ e = .generic d es
    | _ => True := by
  cases h with
  | redirected hr => exact absurd hr ht.not_redirects
  | sequence ht' _ hx =>
    cases ht.unique ht'
    exact ⟨_, _, hx, rfl⟩
  | dictionary ht' _ _ hk hv =>
    cases ht.unique ht'
    exact ⟨_, _, _, hk, hv, rfl⟩
  | nullable _ ht' hx =>
    cases ht.unique ht'
    exact ⟨_, _, _, hx, rfl⟩
  | unwrapped _ ht' hx =>
    cases ht.unique ht'
    exact ⟨_, _, false, hx, rfl⟩
  | applied ht' hd has =>
    cases ht.unique ht'
    exact ⟨_, _, hd, has, rfl⟩
  | primitive ht' =>
    cases ht.unique ht'
    trivial
  | parameter ht' =>
    cases ht.unique ht'
    trivial
  | declared hd =>
    obtain ⟨form', ht', ho⟩ := hd
    cases ht.unique ht'
    cases form with
    | enumeration | object => trivial
    | _ => cases ho

/-- An argument is written at its position. -/
theorem WrittenArguments.get? {before xs : List TypeId} {es : List TypeExpr} {position : Nat}
    (h : s.WrittenArguments a before xs es) (hx : xs[position]? = some x) :
    ∃ e b, s.Written none x e ∧ es[position]? = some (e.orNullable b s.options) := by
  induction xs generalizing before es position with
  | nil => cases hx
  | cons y ys ih =>
    cases h with
    | cons hy _ _ hrest =>
      cases position with
      | zero =>
        cases hx
        exact ⟨_, _, hy, rfl⟩
      | succ position =>
        rw [List.getElem?_cons_succ] at hx ⊢
        exact ih hrest hx

/-! ## References -/

/-- What is written for a type that is not composed. -/
inductive Leaf (s : Setup) (c : TypeId) : TypeExpr → Prop
  | redirected {name location : String} : s.Redirects c name location → Leaf s c (.reference name)
  | primitive {e : TypeExpr} : s.Treats c (.primitive e) → Leaf s c e
  | parameter : s.Treats c .parameter → Leaf s c (.reference (s.types.nameOf c))
  | declared {d : Declaration} : s.Outlines c d → Leaf s c (.reference (s.types.nameOf c))

/-- Whether the reference at a path, in what is written for a type, stands for
another.  The path leads to the other type, and on where several names are
written for it. -/
def Stands (s : Setup) (t : TypeId) (path : List Slot) (n : String) (c : TypeId) : Prop :=
  ∃ before behind e, path = before ++ behind ∧ s.At t before c ∧ s.Leaf c e ∧
    e.at? behind = some (.reference n)

theorem Leaf.names {e : TypeExpr} (h : s.Leaf c e) (hn : n ∈ e.names) : s.Names c n := by
  cases h with
  | redirected hr =>
    rw [List.mem_singleton.1 hn]
    exact .redirected hr
  | primitive ht => exact .primitive ht hn
  | parameter ht =>
    rw [List.mem_singleton.1 hn]
    exact .parameter ht
  | declared hd =>
    rw [List.mem_singleton.1 hn]
    exact .declared hd

/-- A type that is not composed is what its name stands for. -/
theorem Leaf.stands (h : s.Leaf c e) (hn : e.at? path = some (.reference n)) :
    s.Stands c path n c :=
  ⟨[], path, e, rfl, .here, h, hn⟩

/-- What stands in a part stands in the whole. -/
theorem Stands.part {slot : Slot} (h : s.Stands x path n c)
    (hat : ∀ {before}, s.At x before c → s.At t (slot :: before) c) :
    s.Stands t (slot :: path) n c := by
  obtain ⟨before, behind, e, rfl, hbefore, hleaf, hn⟩ := h
  exact ⟨slot :: before, behind, e, rfl, hat hbefore, hleaf, hn⟩

theorem Stands.absent (h : s.Stands x path n c) (ht : s.Treats t (.absent x)) :
    s.Stands t path n c := by
  obtain ⟨before, behind, e, hpath, hbefore, hleaf, hn⟩ := h
  exact ⟨before, behind, e, hpath, .absent ht hbefore, hleaf, hn⟩

mutual

/-- A reference in what is written for a type stands for something. -/
theorem Written.exists_stands {a : Option Attributes} {t : TypeId} {e : TypeExpr}
    {path : List Slot} (h : s.Written a t e) (hn : e.at? path = some (.reference n)) :
    ∃ c, s.Stands t path n c := by
  match h with
  | .redirected hr => exact ⟨t, (Leaf.redirected hr).stands hn⟩
  | .primitive ht => exact ⟨t, (Leaf.primitive ht).stands hn⟩
  | .parameter ht => exact ⟨t, (Leaf.parameter ht).stands hn⟩
  | .declared hd => exact ⟨t, (Leaf.declared hd).stands hn⟩
  | .sequence ht _ hx =>
    obtain ⟨rest, rfl, hrest⟩ := TypeExpr.at?_array hn
    rw [TypeExpr.at?_orNullable] at hrest
    obtain ⟨c, hc⟩ := hx.exists_stands hrest
    exact ⟨c, hc.part (.element ht)⟩
  | .dictionary ht _ _ hkey hvalue =>
    rcases TypeExpr.at?_dictionary hn with ⟨rest, rfl, hrest⟩ | ⟨rest, rfl, hrest⟩
    · obtain ⟨c, hc⟩ := hkey.exists_stands hrest
      exact ⟨c, hc.part (.key ht)⟩
    · rw [TypeExpr.at?_orNullable] at hrest
      obtain ⟨c, hc⟩ := hvalue.exists_stands hrest
      exact ⟨c, hc.part (.value ht)⟩
  | .nullable _ ht hx =>
    rw [TypeExpr.at?_orNullable] at hn
    obtain ⟨c, hc⟩ := hx.exists_stands hn
    exact ⟨c, hc.absent ht⟩
  | .unwrapped _ ht hx =>
    obtain ⟨c, hc⟩ := hx.exists_stands hn
    exact ⟨c, hc.absent ht⟩
  | .applied ht hdefinition harguments =>
    rcases TypeExpr.at?_generic hn with ⟨rest, rfl, hrest⟩ | ⟨position, rest, e', rfl, he', hrest⟩
    · obtain ⟨c, hc⟩ := hdefinition.exists_stands hrest
      exact ⟨c, hc.part (.definition ht)⟩
    · obtain ⟨x, c, hx, hc⟩ := harguments.exists_stands he' hrest
      exact ⟨c, hc.part (.argument ht hx)⟩

theorem WrittenArguments.exists_stands {a : Option Attributes} {before xs : List TypeId}
    {es : List TypeExpr} {position : Nat} {e : TypeExpr} {path : List Slot}
    (h : s.WrittenArguments a before xs es) (he : es[position]? = some e)
    (hn : e.at? path = some (.reference n)) :
    ∃ x c, xs[position]? = some x ∧ s.Stands x path n c := by
  match h with
  | .nil => cases he
  | .cons hx _ _ hrest =>
    match position with
    | 0 =>
      cases he
      rw [TypeExpr.at?_orNullable] at hn
      obtain ⟨c, hc⟩ := hx.exists_stands hn
      exact ⟨_, c, rfl, hc⟩
    | position + 1 => exact hrest.exists_stands he hn

end

theorem Treats.exists_path {e : TypeExpr} (h : s.Treats t (.primitive e)) (hn : n ∈ e.names) :
    ∃ path, e.at? path = some (.reference n) := by
  obtain ⟨d, -, -, hform⟩ := h
  generalize d.kind = kind at hform
  cases Universe.hasForm_of_eq hform with
  | builtin b => exact b.exists_path_target hn
  | bytes =>
    rw [List.mem_singleton.1 hn]
    exact ⟨[], rfl⟩

mutual

/-- A name in what is written for a type is a reference at some place. -/
theorem Written.exists_path {a : Option Attributes} {t : TypeId} {e : TypeExpr}
    (h : s.Written a t e) (hn : n ∈ e.names) : ∃ path, e.at? path = some (.reference n) := by
  match h with
  | .primitive ht => exact ht.exists_path hn
  | .redirected _ | .parameter _ | .declared _ =>
    rw [List.mem_singleton.1 hn]
    exact ⟨[], rfl⟩
  | .sequence _ _ hx =>
    rw [TypeExpr.names, TypeExpr.names_orNullable] at hn
    obtain ⟨path, hpath⟩ := hx.exists_path hn
    exact ⟨.element :: path, (TypeExpr.at?_orNullable ..).trans hpath⟩
  | .dictionary _ _ _ hkey hvalue =>
    rw [TypeExpr.names, TypeExpr.names_orNullable] at hn
    rcases List.mem_append.1 hn with hn | hn
    · obtain ⟨path, hpath⟩ := hkey.exists_path hn
      exact ⟨.key :: path, hpath⟩
    · obtain ⟨path, hpath⟩ := hvalue.exists_path hn
      exact ⟨.value :: path, (TypeExpr.at?_orNullable ..).trans hpath⟩
  | .nullable _ _ hx =>
    rw [TypeExpr.names_orNullable] at hn
    obtain ⟨path, hpath⟩ := hx.exists_path hn
    exact ⟨path, (TypeExpr.at?_orNullable ..).trans hpath⟩
  | .unwrapped _ _ hx => exact hx.exists_path hn
  | .applied _ hdefinition harguments =>
    rcases List.mem_append.1 hn with hn | hn
    · obtain ⟨path, hpath⟩ := hdefinition.exists_path hn
      exact ⟨.definition :: path, hpath⟩
    · obtain ⟨position, e', path, he', hpath⟩ := harguments.exists_path hn
      exact ⟨.argument position :: path, Option.bind_eq_some_iff.2 ⟨e', he', hpath⟩⟩

theorem WrittenArguments.exists_path {a : Option Attributes} {before xs : List TypeId}
    {es : List TypeExpr} (h : s.WrittenArguments a before xs es)
    (hn : n ∈ TypeExpr.namesAll es) :
    ∃ (position : Nat) (e : TypeExpr) (path : List Slot), es[position]? = some e ∧
      e.at? path = some (.reference n) := by
  match h with
  | .nil => cases hn
  | .cons hx _ _ hrest =>
    rw [TypeExpr.namesAll, TypeExpr.names_orNullable] at hn
    rcases List.mem_append.1 hn with hn | hn
    · obtain ⟨path, hpath⟩ := hx.exists_path hn
      exact ⟨0, _, path, rfl, (TypeExpr.at?_orNullable ..).trans hpath⟩
    · obtain ⟨position, e, path, he, hpath⟩ := hrest.exists_path hn
      exact ⟨position + 1, e, path, he, hpath⟩

end

end Setup

end TypeExport
