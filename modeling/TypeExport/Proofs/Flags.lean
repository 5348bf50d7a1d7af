import TypeExport.Proofs.Run.Governed
import TypeExport.Proofs.Universe.Layout

/-!
# Flags at use sites

In the mode of nullable reference types the flags of a member stand in the layout of
its type.  The rules for items, values and arguments each compute the position of a
part on their own.  All three read the flag at which the positions of the part start
in the layout of the whole (`flags_follow_layout`).
-/

namespace TypeExport.Universe

variable {u : Universe} {x : TypeId} {e : Descriptor} {ids : List TypeId}

/-! ## Rules for use sites -/

theorem flaggedNullable_of_flags {a : Attributes} {fs : List UInt8}
    (hflags : a.annotations.flags = some fs) (hlength : fs.length ≠ 1)
    (hreference : e.isValueType = false) (position : Nat) :
    flaggedNullable a e position = decide (fs[position]? = some nullableFlag) := by
  have hmany : fs ≠ [nullableFlag] := by
    rintro rfl
    exact hlength rfl
  simp [flaggedNullable, Attributes.flags, hflags, hmany, hreference]

/-- A list with other than one flag answers for a reference type by the flag at the
position. -/
theorem itemNullable_of_flags {a : Attributes} {fs : List UInt8}
    (hflags : a.annotations.flags = some fs) (hlength : fs.length ≠ 1)
    (hreference : e.isValueType = false) (henum : e.kind.isEnum = false) (position : Nat) :
    itemNullable .nullableReference (some a) e position =
      decide (fs[position]? = some nullableFlag) := by
  rw [← flaggedNullable_of_flags hflags hlength hreference position]
  simp [itemNullable, hreference, henum]

/-- An argument is an item whose flags start behind those of the earlier arguments. -/
theorem argumentNullable_eq {n : Nat} (attributes : Option Attributes) (e : Descriptor)
    (hsum : sumOf u.flagCount ids = .ok n) :
    u.argumentNullable .nullableReference attributes ids e =
      .ok (itemNullable .nullableReference attributes e (1 + n)) := by
  cases attributes with
  | none => rfl
  | some a =>
    cases henum : e.kind.isEnum <;> cases hvalue : e.isValueType <;>
      simp [argumentNullable, itemNullable, flaggedNullable, henum, hvalue, hsum, bind,
        Except.bind, pure, Except.pure]

theorem operands_of_arguments {k : TypeKind} (h : k.arguments ≠ []) :
    k.operands = k.arguments := by
  cases k with
  | closed | object => rfl
  | _ => exact absurd rfl h

theorem operands_of_element? {k : TypeKind} (h : k.element? = some x) : k.operands = [x] := by
  unfold TypeKind.element? at h
  split at h
  · cases h
    rfl
  · cases h
    rfl
  · cases h

/-- The flags of a type of a loaded document stand in its preorder.  A type without
open definitions has one layout, and as many flag positions as that is long.  Let a
part of a type be a reference type.  Then its own positions stand together in the
layout of the whole, and with a list of other than one flag each rule that applies to
the part reads the flag at which they start.  Whatever the flags, the rule for items
is the rule for arguments at the first of one, and the rule for values that at the
second of two. -/
theorem flags_follow_layout {text : String} {roots : List TypeId}
    (hload : Builder.loadText text {} = .ok roots u) :
    (∀ id d, u.get? id = some d → u.FullyApplied id →
      ∃ paths, u.Layout id paths ∧ (∀ paths', u.Layout id paths' → paths' = paths) ∧
        u.flagCount id = .ok paths.length ∧
        ∀ j x e, (∀ y, u.formOf d.kind ≠ .absent y) → d.kind.operands[j]? = some x →
          u.get? x = some e → e.isValueType = false →
          (∃ part, u.Layout x part ∧ part ≠ [] ∧
            part.map (j :: ·) <+: paths.drop (startOf paths j)) ∧
          ∀ (a : Attributes) (fs : List UInt8), a.annotations.flags = some fs → fs.length ≠ 1 →
            let flagged := decide (fs[startOf paths j]? = some nullableFlag)
            (d.kind.element? = some x →
              elementNullable .nullableReference (some a) e = flagged) ∧
            (∀ key, d.kind.arguments = [key, x] → j = 1 →
              u.valueNullable .nullableReference (some a) key e = .ok flagged) ∧
            (∀ before after, d.kind.arguments = before ++ x :: after → before.length = j →
              u.argumentNullable .nullableReference (some a) before e = .ok flagged)) ∧
    ∀ (attributes : Option Attributes) (e : Descriptor),
      u.argumentNullable .nullableReference attributes [] e =
        .ok (elementNullable .nullableReference attributes e) ∧
      ∀ key, u.Issued key → u.argumentNullable .nullableReference attributes [key] e =
        u.valueNullable .nullableReference attributes key e := by
  have layered := (Builder.sound_of_loadText hload).1.layered
  have valued := Builder.valued_of_loadText hload
  constructor
  · intro id d hd happlied
    have hissued := issued_of_get? hd
    obtain ⟨paths, hpaths⟩ := layered.exists_layout hissued happlied
    refine ⟨paths, hpaths, fun paths' hpaths' => hpaths'.unique hpaths,
      layered.flagCount_eq hpaths, ?_⟩
    intro j x e hno hj he hreference
    obtain ⟨part, n, hpart, hne, hinside, hsum, hstart⟩ :=
      hpaths.part layered valued hd hno hj he hreference
    refine ⟨⟨part, hpart, hne, hinside⟩, fun a fs hflags hlength => ?_⟩
    have henum : e.kind.isEnum = false := by
      rw [← Bool.not_eq_true]
      intro henum
      rw [(valued he).enumeration henum] at hreference
      cases hreference
    have read := itemNullable_of_flags hflags hlength hreference henum
    rw [hstart]
    refine ⟨fun helement => ?_, fun key harguments hj1 => ?_, fun before after harguments hj' => ?_⟩
    · rw [operands_of_element? helement] at hj hsum
      have hj0 : j = 0 := by simpa using (List.getElem?_eq_some_iff.1 hj).1
      subst hj0
      cases hsum
      exact read 1
    · subst hj1
      rw [operands_of_arguments (by simp [harguments]), harguments] at hsum
      have hkey : u.flagCount key = .ok n := by simpa [sumOf_singleton] using hsum
      rw [valueNullable_eq _ _ _ hkey, read]
    · rw [operands_of_arguments (by simp [harguments]), harguments, ← hj',
        List.take_left] at hsum
      rw [argumentNullable_eq _ _ hsum, read]
  · intro attributes e
    have hnone : sumOf u.flagCount [] = .ok 0 := rfl
    refine ⟨argumentNullable_eq attributes e hnone, fun key hkey => ?_⟩
    obtain ⟨n, hn⟩ := layered.exists_flagCount hkey
    rw [argumentNullable_eq attributes e ((sumOf_singleton _ _).trans hn),
      valueNullable_eq _ _ _ hn]

/-- A document with a dictionary that has an array as its key and one as its value. -/
@[irreducible] def ordersText : String :=
  r#"[[["object","Order"]],["Dictionary<int?[], Order[]>"]]"#

/-- The types of the document. -/
def orders : Universe := (Setup.ofDocument ordersText {} {}).types

-- one evaluation, because loading the document takes most of the time
theorem orders_checks : Setup.loads ordersText = true ∧
    orders.types.toList.map (fun d => (d.kind, d.isValueType)) =
      [(.object [], false), (.container .dictionary, false), (.builtin .int32, true),
        (.container .nullable, true), (.closed ⟨3⟩ [⟨2⟩], true), (.array ⟨4⟩, false),
        (.array ⟨0⟩, false), (.closed ⟨1⟩ [⟨5⟩, ⟨6⟩], false)] ∧
    ∀ d ∈ orders.types.toList, ∀ c ∈ d.kind.operands, ∀ e ∈ orders.get? c,
      e.kind.isDefinition = false := by
  decide +kernel

theorem exists_get?_orders {i : Nat} {kind : TypeKind} {isValueType : Bool}
    (h : (orders.types.toList.map fun d => (d.kind, d.isValueType))[i]? =
      some (kind, isValueType)) :
    ∃ d, orders.get? ⟨i⟩ = some d ∧ d.kind = kind ∧ d.isValueType = isValueType := by
  simpa [get?] using h

/-- The array in the key has one flag position, because its elements are no reference
types.  So the flags of the array in the value start at the third. -/
theorem flags_follow_layout_orders :
    ∃ roots, Builder.loadText ordersText {} = .ok roots orders ∧ orders.FullyApplied ⟨7⟩ ∧
      orders.Layout ⟨7⟩ [[], [0], [1], [1, 0]] ∧ orders.flagCount ⟨7⟩ = .ok 4 ∧
      ∃ e, orders.get? ⟨6⟩ = some e ∧ e.isValueType = false ∧
        orders.valueNullable .nullableReference (some ⟨{ flags := some [1, 1, 2, 1] }, none⟩)
          ⟨5⟩ e = .ok true ∧
        orders.valueNullable .nullableReference (some ⟨{ flags := some [2, 2, 1, 2] }, none⟩)
          ⟨5⟩ e = .ok false := by
  obtain ⟨hloads, htypes, hoperands⟩ := orders_checks
  obtain ⟨roots, hload⟩ := Setup.exists_loadText_ofDocument {} {} hloads
  have stored := @exists_get?_orders
  rw [htypes] at stored
  obtain ⟨order, horder, korder, vorder⟩ := @stored 0 _ _ rfl
  obtain ⟨dictionary, hdictionary, kdictionary, -⟩ := @stored 1 _ _ rfl
  obtain ⟨nullable, hnullable, knullable, -⟩ := @stored 3 _ _ rfl
  obtain ⟨number, hnumber, knumber, -⟩ := @stored 4 _ _ rfl
  obtain ⟨key, hkey, kkey, -⟩ := @stored 5 _ _ rfl
  obtain ⟨value, hvalue, kvalue, vvalue⟩ := @stored 6 _ _ rfl
  obtain ⟨whole, hwhole, kwhole, -⟩ := @stored 7 _ _ rfl
  have applied : orders.FullyApplied ⟨7⟩ :=
    fullyApplied_of_forall hoperands hwhole (by rw [kwhole]; rfl)
  have numberForm : orders.form? ⟨4⟩ = some (.absent ⟨2⟩) := by
    simp [form?_of_get? hnumber, knumber, formOf, kind?_of_get? hnullable, knullable]
  have keyLayout : orders.Layout ⟨5⟩ [[]] := by
    refine .composed hkey (by rw [kkey]; rfl) (by simp [kkey, TypeKind.constituents])
      (ne_absent_of_array hkey kkey) ?_
    rw [kkey]
    exact .cons (.absent numberForm) .nil
  have valueLayout : orders.Layout ⟨6⟩ [[], [0]] := by
    refine .composed hvalue (by rw [kvalue]; rfl) (by simp [kvalue, TypeKind.constituents])
      (ne_absent_of_array hvalue kvalue) ?_
    have leaf := Layout.leaf horder (by rw [korder]; rfl) (by rw [korder]; rfl)
    rw [vorder] at leaf
    rw [kvalue]
    exact .cons leaf .nil
  have wholeForm : ∀ y, orders.formOf whole.kind ≠ .absent y := by
    simp [kwhole, formOf, kind?_of_get? hdictionary, kdictionary]
  have wholeLayout : orders.Layout ⟨7⟩ [[], [0], [1], [1, 0]] := by
    refine .composed hwhole (by rw [kwhole]; rfl) (by simp [kwhole, TypeKind.constituents]) ?_ ?_
    · exact fun y hy => wholeForm y (formOf_of_form? hwhole hy)
    · rw [kwhole]
      exact .cons keyLayout (.cons valueLayout .nil)
  obtain ⟨paths, -, unique, hcount, rules⟩ :=
    (flags_follow_layout hload).1 ⟨7⟩ whole hwhole applied
  cases unique _ wholeLayout
  obtain ⟨-, reads⟩ := rules 1 ⟨6⟩ value wholeForm (by rw [kwhole]; rfl) hvalue vvalue
  have second := fun fs hlength =>
    (reads ⟨{ flags := some fs }, none⟩ fs rfl hlength).2.1 ⟨5⟩ (by rw [kwhole]; rfl) rfl
  exact ⟨roots, hload, applied, wholeLayout, hcount, value, hvalue, vvalue,
    second [1, 1, 2, 1] (by decide), second [2, 2, 1, 2] (by decide)⟩

end TypeExport.Universe
