import TypeExport.Proofs.Reference.Names
import TypeExport.Proofs.Universe.Building
import TypeExport.Universe.Resolution

/-!
# Resolving references soundly

The type that a reference means is issued, is no open container, and mentions
no type parameter but those of the scope (`Builder.builds_resolveText`).  Only
the parameters of the scope bring a colon into its key: the names in a
reference are paths, and a path has no colon.
-/

namespace TypeExport

/-! ## Characters of keys -/

theorem IsPathText.not_mem {name : String} (h : IsPathText name) {c : Char}
    (hpart : isIdentPart c = false) (hdot : c ≠ '.') : c ∉ name.toList := by
  intro hc
  rcases h c hc with hident | rfl
  · rw [hpart] at hident
    cases hident
  · exact hdot rfl

theorem not_mem_toDigits {c : Char} (h : c.isDigit = false) (n : Nat) :
    c ∉ Nat.toDigits 10 n := by
  intro hc
  have hdigit := Nat.isDigit_of_mem_toDigits (by decide) (by decide) hc
  rw [h] at hdigit
  cases hdigit

theorem colon_not_mem_genericKey {name : String} (h : ':' ∉ name.toList) (arity : Nat) :
    ':' ∉ (Builder.genericKey name arity).toList := by
  simp [Builder.genericKey, h, not_mem_toDigits]

theorem colon_not_mem_builtin (b : Builtin) : ':' ∉ b.fullName.toList := by
  cases b <;> decide

theorem colon_not_mem_container (c : Container) : ':' ∉ c.fullName.toList := by
  cases c <;> decide

namespace Builder

open Universe

variable {u v : Universe} {scope : List TypeId} {id : TypeId}

/-! ## What a reference means -/

/-- Whether type parameters may stand in a scope. -/
def InScope (u : Universe) (scope : List TypeId) : Prop :=
  ∀ p ∈ scope, u.Issued p ∧ IsOwnKey (u.keyOf p)

theorem InScope.keep (h : InScope u scope) (keeps : u.Keeps v) : InScope v scope := by
  intro p hp
  rw [keeps.keyOf (h p hp).1]
  exact ⟨keeps.issued (h p hp).1, (h p hp).2⟩

/-- What is true of the type that a reference means in a scope. -/
structure Meant (scope : List TypeId) (id : TypeId) (u : Universe) : Prop where
  issued : u.Issued id
  /-- It is no open container. -/
  own : IsOwnKey (u.keyOf id)
  /-- It mentions the type parameters of the scope only. -/
  within : u.KeyWithin scope (u.keyOf id)

theorem Meant.keep (h : Meant scope id u) (hs : InScope u scope) (keeps : u.Keeps v) :
    Meant scope id v where
  issued := keeps.issued h.issued
  own := by
    rw [keeps.keyOf h.issued]
    exact h.own
  within := by
    rw [keeps.keyOf h.issued]
    exact h.within.keep keeps fun p hp => (hs p hp).1

/-- A key without a colon mentions no type parameter. -/
theorem Meant.of_no_colon (hi : u.Issued id) (ho : IsOwnKey (u.keyOf id))
    (hcolon : ':' ∉ (u.keyOf id).toList) : Meant scope id u where
  issued := hi
  own := ho
  within := keyWithin_of_no_colon hcolon

/-- An array mentions the type parameters that its element mentions. -/
theorem Meant.brackets {element : TypeId} (h : Meant scope element u) (hs : InScope u scope)
    (keeps : u.Keeps v) (hi : v.Issued id) (hkey : v.keyOf id = u.keyOf element ++ "[]") :
    Meant scope id v where
  issued := hi
  own := by
    rw [hkey]
    exact isOwnKey_brackets _
  within := by
    rw [hkey]
    exact (h.within.keep keeps fun p hp => (hs p hp).1).brackets

/-- A closed generic mentions the type parameters that its arguments mention. -/
theorem Meant.angles {definition : String} {arguments : List TypeId}
    (hcolon : ':' ∉ definition.toList) (h : ∀ a ∈ arguments, Meant scope a u)
    (hs : InScope u scope) (keeps : u.Keeps v) (hi : v.Issued id)
    (hkey : v.keyOf id = definition ++ "<" ++ ", ".intercalate (arguments.map u.keyOf) ++ ">") :
    Meant scope id v where
  issued := hi
  own := by
    rw [hkey]
    exact isOwnKey_angles _
  within := by
    rw [hkey]
    refine KeyWithin.angles (keyWithin_of_no_colon hcolon) fun key hmem => ?_
    obtain ⟨a, ha, rfl⟩ := List.mem_map.1 hmem
    exact (h a ha).within.keep keeps fun p hp => (hs p hp).1

theorem builds_declared (h : u.Sound) (name : String) (arity : Nat) :
    Builds (declared name arity) u fun id v => v.Issued id ∧
      v.keyOf id = if arity = 0 then name else genericKey name arity := by
  refine (builds_get h).bind ?_
  rintro _ _ - sound ⟨rfl, rfl⟩
  split
  · rename_i id hid
    obtain ⟨d, hd, hkey⟩ := get?_of_lookup? hid
    exact .pure sound ⟨issued_of_get? hd, (keyOf_of_get? hd).trans hkey⟩
  · exact .throw

/-- A type parameter that is found is in the scope. -/
theorem mem_of_inScope? {name : String} (h : inScope? u scope name = some id) : id ∈ scope :=
  List.mem_of_find?_eq_some h

/-- A type parameter that is found has the name. -/
theorem nameOf_of_inScope? {name : String} (h : inScope? u scope name = some id) :
    u.nameOf id = name := by
  have hfound := List.find?_some h
  cases hd : u.get? id with
  | none => simp [hd] at hfound
  | some d => simpa [nameOf_of_get? hd, hd] using hfound

/-! ## Names -/

/-- A name without arguments means a type parameter of the scope, a built-in
type or a declared type. -/
theorem builds_resolve_name (h : u.Sound) (hs : InScope u scope) {name : String}
    (hpath : IsPathText name) : Builds (resolve scope (.named name [])) u (Meant scope) := by
  rw [resolve]
  refine (builds_get h).bind ?_
  rintro _ _ - sound ⟨rfl, rfl⟩
  split
  · rename_i id hid
    have hmem := mem_of_inScope? hid
    exact .pure sound ⟨(hs id hmem).1, (hs id hmem).2, keyWithin_keyOf hmem⟩
  · split
    · rename_i b _
      refine (builds_builtin sound b).mono ?_
      rintro id w - ⟨hissued, hkey⟩
      exact .of_no_colon hissued (hkey ▸ isOwnKey_builtin b) (hkey ▸ colon_not_mem_builtin b)
    · refine (builds_declared sound name 0).mono ?_
      rintro id w - ⟨hissued, hkey⟩
      rw [if_pos rfl] at hkey
      refine .of_no_colon hissued ?_ ?_
      · rw [hkey]
        exact isOwnKey_of_no_arity (hpath.not_mem (by decide) (by decide))
      · rw [hkey]
        exact hpath.not_mem (by decide) (by decide)

/-! ## Closed generics -/

/-- Interns the generic definition of a name. -/
def definitionOf (name : String) (arity : Nat) : Builder TypeId :=
  match Container.ofName? name with
  | some c => container c
  | none => declared name arity

/-- Closes a definition over what its arguments mean. -/
def closeOver (scope : List TypeId) (a : TypeRef) (as : List TypeRef) (definition : TypeId) :
    Builder TypeId := do
  let argument ← resolve scope a
  let arguments ← resolveAll scope as
  close definition (argument :: arguments)

/-- Of a closed generic the definition is resolved first. -/
theorem resolve_closed (scope : List TypeId) (name : String) (a : TypeRef) (as : List TypeRef) :
    resolve scope (.named name (a :: as)) =
      definitionOf name (as.length + 1) >>= closeOver scope a as := by
  rw [resolve, definitionOf]
  cases Container.ofName? name <;> rfl

/-- The key of a definition that a path names has no colon. -/
theorem builds_definitionOf (h : u.Sound) {name : String} (hpath : IsPathText name) {arity : Nat}
    (harity : arity ≠ 0) : Builds (definitionOf name arity) u fun id v => v.Issued id ∧
      ':' ∉ (v.keyOf id).toList := by
  unfold definitionOf
  split
  · rename_i c _
    refine (builds_container h c).mono ?_
    rintro id v - ⟨hissued, hkey⟩
    exact ⟨hissued, hkey ▸ colon_not_mem_container c⟩
  · refine (builds_declared h name arity).mono ?_
    rintro id v - ⟨hissued, hkey⟩
    rw [if_neg harity] at hkey
    exact ⟨hissued, hkey ▸ colon_not_mem_genericKey (hpath.not_mem (by decide) (by decide)) _⟩

/-- A closed generic is closed over what its arguments mean.  The key of its
definition has no colon. -/
theorem builds_closeOver {a : TypeRef} {as : List TypeRef} (hs : InScope u scope)
    (ha : ∀ {v}, u.Keeps v → v.Sound → Builds (resolve scope a) v (Meant scope))
    (has : ∀ {v}, u.Keeps v → v.Sound →
      Builds (resolveAll scope as) v fun ids w => ∀ id ∈ ids, Meant scope id w)
    {definition : TypeId} (keeps : u.Keeps v) (sound : v.Sound) (hi : v.Issued definition)
    (hcolon : ':' ∉ (v.keyOf definition).toList) :
    Builds (closeOver scope a as definition) v (Meant scope) := by
  refine (ha keeps sound).bind ?_
  intro x w keeps₁ sound₁ hx
  refine (has (keeps.trans keeps₁) sound₁).bind ?_
  intro xs z keeps₂ sound₂ hxs
  have hs₁ := hs.keep (keeps.trans keeps₁)
  have hall : ∀ y ∈ x :: xs, Meant scope y z := by
    intro y hy
    rcases List.mem_cons.1 hy with rfl | htail
    · exact hx.keep hs₁ keeps₂
    · exact hxs y htail
  refine (builds_close sound₂ (fun y hy => (hall y hy).issued) fun y hy => (hall y hy).own).mono ?_
  rintro id t keeps₃ ⟨hissued, hkey⟩
  rw [(keeps₁.trans keeps₂).keyOf hi] at hkey
  exact .angles hcolon hall (hs₁.keep keeps₂) keeps₃ hissued hkey

/-! ## References -/

mutual

theorem builds_resolve {u : Universe} (h : u.Sound) (hs : InScope u scope) :
    ∀ r : TypeRef, r.NamesPaths → Builds (resolve scope r) u (Meant scope)
  | .array element, hr => by
    rw [resolve]
    refine (builds_resolve h hs element (TypeRef.namesPaths_array.1 hr)).bind ?_
    intro e v keeps sound he
    refine (builds_arrayOf sound he.issued he.own).mono ?_
    rintro id w keeps' ⟨hissued, hkey⟩
    exact he.brackets (hs.keep keeps) keeps' hissued hkey
  | .nullable underlying, hr => by
    rw [resolve]
    refine (builds_resolve h hs underlying (TypeRef.namesPaths_nullable.1 hr)).bind ?_
    intro x v keeps sound hx
    refine (builds_nullableOf sound hx.issued hx.own).mono ?_
    rintro id w keeps' ⟨hissued, hkey⟩
    have hall : ∀ a ∈ [x], Meant scope a v := by
      intro a ha
      rw [List.mem_singleton.1 ha]
      exact hx
    refine .angles (colon_not_mem_container .nullable) hall (hs.keep keeps) keeps' hissued ?_
    rw [hkey, List.map_singleton, String.intercalate_singleton]
  | .named name [], hr => builds_resolve_name h hs (TypeRef.namesPaths_named.1 hr).1
  | .named name (a :: as), hr => by
    obtain ⟨hpath, harguments⟩ := TypeRef.namesPaths_named.1 hr
    have ha : ∀ {v}, u.Keeps v → v.Sound → Builds (resolve scope a) v (Meant scope) :=
      fun keeps sound => builds_resolve sound (hs.keep keeps) a (harguments a List.mem_cons_self)
    have has : ∀ {v}, u.Keeps v → v.Sound →
        Builds (resolveAll scope as) v fun ids w => ∀ id ∈ ids, Meant scope id w :=
      fun keeps sound => builds_resolveAll sound (hs.keep keeps) as fun r hmem =>
        harguments r (List.mem_cons_of_mem _ hmem)
    rw [resolve_closed]
    refine (builds_definitionOf h hpath (Nat.succ_ne_zero _)).bind ?_
    rintro definition v keeps sound ⟨hissued, hcolon⟩
    exact builds_closeOver hs ha has keeps sound hissued hcolon

theorem builds_resolveAll {u : Universe} (h : u.Sound) (hs : InScope u scope) :
    ∀ rs : List TypeRef, (∀ r ∈ rs, r.NamesPaths) →
      Builds (resolveAll scope rs) u fun ids v => ∀ id ∈ ids, Meant scope id v
  | [], _ => by
    rw [resolveAll]
    exact .pure h (by simp)
  | r :: rs, hr => by
    rw [resolveAll]
    refine (builds_resolve h hs r (hr r List.mem_cons_self)).bind ?_
    intro id v keeps sound hid
    refine (builds_resolveAll sound (hs.keep keeps) rs
      fun q hq => hr q (List.mem_cons_of_mem _ hq)).bind ?_
    intro ids w keeps' sound' hids
    refine .pure sound' ?_
    intro i hi
    rcases List.mem_cons.1 hi with rfl | htail
    · exact hid.keep (hs.keep keeps) keeps'
    · exact hids i htail

end

/-- The type that the text of a reference means. -/
theorem builds_resolveText (h : u.Sound) (hs : InScope u scope) (text : String) :
    Builds (resolveText scope text) u (Meant scope) := by
  unfold resolveText
  split
  · rename_i r hr
    exact builds_resolve h hs r (TypeRef.namesPaths_of_parse hr)
  · exact .throw

end Builder

end TypeExport
