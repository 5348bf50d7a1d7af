import Mathlib.Data.List.Infix
import TypeExport.Proofs.Universe.Counting
import TypeExport.Proofs.Universe.Valued

/-!
# The layout of nullability flags

The flags of a member stand in the preorder of its type.  `Universe.Layout` is that
order itself: the positions of a type, each as the path that leads to it from the
top.  A `Nullable` has none, and neither has a value type that is composed of
nothing.  An array and a closed generic have one of their own, and behind it those of
their element or of their arguments.  A type has a layout when no definition in its
structure is open, and only one.

Nothing that runs knows a layout.  It counts positions.  The count of a type is the
length of its layout (`Layered.flagCount_eq`), and the positions of a part start behind
one position and the counted ones of the earlier parts (`Layout.part`).
-/

namespace TypeExport.Universe

variable {u : Universe} {id x : TypeId} {d e : Descriptor} {ids : List TypeId}

/-! ## Types without open definitions -/

/-- Whether the first type is an element or an argument of the second. -/
def OperandOf (u : Universe) (c id : TypeId) : Prop :=
  ∃ d, u.get? id = some d ∧ c ∈ d.kind.operands

/-- Whether no type in the structure of a type is an open definition. -/
def FullyApplied (u : Universe) (id : TypeId) : Prop :=
  ∀ c, Relation.ReflTransGen u.OperandOf c id → ∀ d, u.get? c = some d → d.kind.isDefinition = false

theorem FullyApplied.operand (h : u.FullyApplied id) (hd : u.get? id = some d) {c : TypeId}
    (hc : c ∈ d.kind.operands) : u.FullyApplied c :=
  fun c' hc' => h c' (hc'.tail ⟨d, hd, hc⟩)

/-- Where no element and no argument is an open definition, a type that is none has none
in its structure. -/
theorem fullyApplied_of_forall (h : ∀ d ∈ u.types.toList, ∀ c ∈ d.kind.operands, ∀ e,
    u.get? c = some e → e.kind.isDefinition = false) (hd : u.get? id = some d)
    (hopen : d.kind.isDefinition = false) : u.FullyApplied id := by
  intro c hc e he
  rcases Relation.ReflTransGen.cases_head hc with rfl | ⟨b, ⟨d', hd', hcb⟩, -⟩
  · cases hd.symm.trans he
    exact hopen
  · exact h d' (Array.mem_toList_iff.2 (Array.mem_of_getElem? hd')) c hcb e he

/-! ## Layouts -/

mutual

/-- The flag positions of a type in preorder, each as the path to it. -/
inductive Layout (u : Universe) : TypeId → List (List Nat) → Prop
  | absent {id x : TypeId} : u.form? id = some (.absent x) → Layout u id []
  | leaf {id : TypeId} {d : Descriptor} : u.get? id = some d → d.kind.isDefinition = false →
      d.kind.constituents = [] → Layout u id (if d.isValueType then [] else [[]])
  | composed {id : TypeId} {d : Descriptor} {paths : List (List Nat)} : u.get? id = some d →
      d.kind.isDefinition = false → d.kind.constituents ≠ [] →
      (∀ x, u.form? id ≠ some (.absent x)) → LayoutFrom u 0 d.kind.operands paths →
      Layout u id ([] :: paths)

/-- The flag positions of several types, which are numbered from `n` on. -/
inductive LayoutFrom (u : Universe) : Nat → List TypeId → List (List Nat) → Prop
  | nil {n : Nat} : LayoutFrom u n [] []
  | cons {n : Nat} {id : TypeId} {ids : List TypeId} {paths rest : List (List Nat)} :
      Layout u id paths → LayoutFrom u (n + 1) ids rest →
      LayoutFrom u n (id :: ids) (paths.map (n :: ·) ++ rest)

end

/-- The index at which the positions of part number `j` start. -/
def startOf (paths : List (List Nat)) (j : Nat) : Nat := paths.findIdx (·.head? = some j)

theorem constituents_of_absent (hd : u.get? id = some d)
    (hform : u.form? id = some (.absent x)) : d.kind.constituents ≠ [] := by
  have hkind := formOf_of_form? hd hform
  generalize d.kind = k at hkind ⊢
  cases hasForm_of_eq hkind
  exact List.cons_ne_nil _ _

theorem ne_absent_of_array {element : TypeId} (hd : u.get? id = some d)
    (hkind : d.kind = .array element) (y : TypeId) : u.form? id ≠ some (.absent y) := by
  intro hform
  have habsent := formOf_of_form? hd hform
  rw [hkind] at habsent
  cases hasForm_of_eq habsent

mutual

/-- A type has at most one layout. -/
theorem Layout.unique {u : Universe} : ∀ {id : TypeId} {paths paths' : List (List Nat)},
    u.Layout id paths → u.Layout id paths' → paths = paths'
  | _, _, _, .absent _, .absent _ => rfl
  | _, _, _, .absent hform, .leaf hd _ hnone => absurd hnone (constituents_of_absent hd hform)
  | _, _, _, .absent hform, .composed _ _ _ hno _ => absurd hform (hno _)
  | _, _, _, .leaf hd _ hnone, .absent hform => absurd hnone (constituents_of_absent hd hform)
  | _, _, _, .leaf hd _ _, .leaf hd' _ _ => by
    cases hd.symm.trans hd'
    rfl
  | _, _, _, .leaf hd _ hnone, .composed hd' _ hsome _ _ => by
    cases hd.symm.trans hd'
    exact absurd hnone hsome
  | _, _, _, .composed _ _ _ hno _, .absent hform => absurd hform (hno _)
  | _, _, _, .composed hd _ hsome _ _, .leaf hd' _ hnone => by
    cases hd.symm.trans hd'
    exact absurd hnone hsome
  | _, _, _, .composed hd _ _ _ hparts, .composed hd' _ _ _ hparts' => by
    cases hd.symm.trans hd'
    rw [hparts.unique hparts']

theorem LayoutFrom.unique {u : Universe} : ∀ {n : Nat} {ids : List TypeId}
    {paths paths' : List (List Nat)}, u.LayoutFrom n ids paths → u.LayoutFrom n ids paths' →
    paths = paths'
  | _, _, _, _, .nil, .nil => rfl
  | _, _, _, _, .cons h hs, .cons h' hs' => by rw [h.unique h', hs.unique hs']

end

theorem exists_layoutFrom (h : ∀ id ∈ ids, ∃ paths, u.Layout id paths) (n : Nat) :
    ∃ paths, u.LayoutFrom n ids paths := by
  induction ids generalizing n with
  | nil => exact ⟨[], .nil⟩
  | cons id ids ih =>
    obtain ⟨paths, hpaths⟩ := h id List.mem_cons_self
    obtain ⟨rest, hrest⟩ := ih (fun i hi => h i (List.mem_cons_of_mem _ hi)) (n + 1)
    exact ⟨_, .cons hpaths hrest⟩

/-- A type without open definitions has a layout.  By induction on its structure,
which has layers. -/
theorem Layered.exists_layout (h : u.Layered) (hi : u.Issued id) (happlied : u.FullyApplied id) :
    ∃ paths, u.Layout id paths := by
  induction id using h.wellFounded.induction with
  | _ id ih =>
    obtain ⟨d, hd⟩ := issued_iff.1 hi
    have hopen : d.kind.isDefinition = false := happlied id .refl d hd
    by_cases habsent : ∃ x, u.form? id = some (.absent x)
    · exact ⟨[], .absent habsent.choose_spec⟩
    · by_cases hnone : d.kind.constituents = []
      · exact ⟨_, .leaf hd hopen hnone⟩
      · have below : ∀ c ∈ d.kind.operands, ∃ paths, u.Layout c paths := by
          intro c hc
          have hpart := mem_constituents_of_mem_operands hc
          exact ih c ⟨d, hd, hpart⟩ (h.constituent hd c hpart).1 (happlied.operand hd hc)
        obtain ⟨paths, hpaths⟩ := exists_layoutFrom below 0
        exact ⟨_, .composed hd hopen hnone (fun x hx => habsent ⟨x, hx⟩) hpaths⟩

/-! ## Counting positions -/

/-- The count of several types is that of their layouts when it is for each. -/
theorem LayoutFrom.sumOf_eq {count : TypeId → Except Fault Nat}
    (hcount : ∀ id ∈ ids, ∀ paths, u.Layout id paths → count id = .ok paths.length) {n : Nat}
    {paths : List (List Nat)} (h : u.LayoutFrom n ids paths) :
    sumOf count ids = .ok paths.length := by
  induction ids generalizing n paths with
  | nil =>
    cases h
    rfl
  | cons id ids ih =>
    cases h with
    | cons hfirst hrest =>
      have hsum := ih (fun i hi => hcount i (List.mem_cons_of_mem _ hi)) hrest
      simp [sumOf, hcount id List.mem_cons_self _ hfirst, hsum, bind, Except.bind, pure,
        Except.pure]

/-- The count of the positions of a type is the length of its layout.  By induction on
the structure of the type. -/
theorem Layered.flagCount_eq (h : u.Layered) {paths : List (List Nat)}
    (hlayout : u.Layout id paths) : u.flagCount id = .ok paths.length := by
  induction id using h.wellFounded.induction generalizing paths with
  | _ id ih =>
    cases hlayout with
    | absent hform => exact h.flagCount_of_absent hform
    | @leaf _ d hd hopen hnone =>
      rw [flagCount_of_leaf hd hopen hnone]
      cases d.isValueType <;> rfl
    | @composed _ d rest hd hopen hsome hno hparts =>
      have hsum : sumOf u.flagCount d.kind.operands = .ok rest.length :=
        hparts.sumOf_eq fun c hc paths hpaths =>
          ih c ⟨d, hd, mem_constituents_of_mem_operands hc⟩ hpaths
      exact h.flagCount_of_composed hd hopen hsome hno hsum

/-! ## Where the positions of a part start -/

/-- The layout of several types splits at each of them. -/
theorem LayoutFrom.exists_split {n j : Nat} {paths : List (List Nat)}
    (h : u.LayoutFrom n ids paths) (hj : ids[j]? = some x) :
    ∃ before part after, paths = before ++ part.map ((n + j) :: ·) ++ after ∧
      u.LayoutFrom n (ids.take j) before ∧ u.Layout x part := by
  induction ids generalizing n j paths with
  | nil => cases hj
  | cons id ids ih =>
    cases h with
    | @cons _ _ _ first rest hfirst hrest =>
      cases j with
      | zero =>
        cases hj
        exact ⟨[], first, rest, rfl, .nil, hfirst⟩
      | succ j =>
        obtain ⟨before, part, after, hrest', hbefore, hpart⟩ := ih hrest hj
        refine ⟨first.map (n :: ·) ++ before, part, after, ?_, .cons hfirst hbefore, hpart⟩
        rw [hrest', Nat.add_right_comm n 1 j]
        simp only [List.append_assoc, Nat.add_assoc]

/-- Each position of several types lies in one of them. -/
theorem LayoutFrom.head_lt {n : Nat} {paths : List (List Nat)} (h : u.LayoutFrom n ids paths) :
    ∀ p ∈ paths, ∃ i, p.head? = some i ∧ n ≤ i ∧ i < n + ids.length := by
  induction ids generalizing n paths with
  | nil =>
    cases h
    simp
  | cons id ids ih =>
    cases h with
    | cons hfirst hrest =>
      intro p hp
      cases List.mem_append.1 hp with
      | inl hown =>
        obtain ⟨q, -, rfl⟩ := List.mem_map.1 hown
        exact ⟨n, rfl, Nat.le_refl n, by simp⟩
      | inr hlater =>
        obtain ⟨i, hi, hle, hlt⟩ := ih hrest p hlater
        exact ⟨i, hi, by omega, by simp only [List.length_cons]; omega⟩

/-- The positions of a part start behind those of the earlier parts. -/
theorem LayoutFrom.startOf_eq {j : Nat} {before part : List (List Nat)}
    (h : u.LayoutFrom 0 (ids.take j) before) (hpart : part ≠ []) (after : List (List Nat)) :
    startOf ([] :: (before ++ part.map (j :: ·) ++ after)) j = before.length + 1 := by
  have hbefore : before.findIdx (·.head? = some j) = before.length := by
    rw [List.findIdx_eq_length]
    intro p hp
    obtain ⟨i, hi, -, hlt⟩ := h.head_lt p hp
    have hij : i ≠ j := by
      rw [List.length_take] at hlt
      omega
    simp [hi, hij]
  obtain ⟨q, qs, rfl⟩ := List.exists_cons_of_ne_nil hpart
  simp [startOf, List.findIdx_cons, List.findIdx_append, hbefore]

/-- A reference type has a position. -/
theorem Layout.ne_nil {paths : List (List Nat)} (h : u.Layout id paths) (hv : u.Valued)
    (hd : u.get? id = some d) (hreference : d.isValueType = false) : paths ≠ [] := by
  cases h with
  | absent hform =>
    have hvalue := hv.isValueType_of_absent hd (formOf_of_form? hd hform)
    rw [hreference] at hvalue
    cases hvalue
  | leaf hd' =>
    cases hd.symm.trans hd'
    simp [hreference]
  | composed => exact List.cons_ne_nil _ _

/-- The positions of a part of a type stand together in its layout, behind one position
and the counted ones of the earlier parts. -/
theorem Layout.part (h : u.Layered) (hv : u.Valued) {paths : List (List Nat)}
    (hlayout : u.Layout id paths) (hd : u.get? id = some d)
    (hno : ∀ y, u.formOf d.kind ≠ .absent y) {j : Nat} (hj : d.kind.operands[j]? = some x)
    (he : u.get? x = some e) (hreference : e.isValueType = false) :
    ∃ part n, u.Layout x part ∧ part ≠ [] ∧
      part.map (j :: ·) <+: paths.drop (startOf paths j) ∧
      sumOf u.flagCount (d.kind.operands.take j) = .ok n ∧ startOf paths j = 1 + n := by
  cases hlayout with
  | absent hform => exact absurd (formOf_of_form? hd hform) (hno _)
  | leaf hd' _ hnone =>
    cases hd.symm.trans hd'
    have hmem := mem_constituents_of_mem_operands (List.mem_of_getElem? hj)
    rw [hnone] at hmem
    cases hmem
  | composed hd' _ _ _ hparts =>
    cases hd.symm.trans hd'
    obtain ⟨before, part, after, hpaths, hbefore, hpart⟩ := hparts.exists_split hj
    rw [Nat.zero_add] at hpaths
    have hne := hpart.ne_nil hv he hreference
    have hstart := hbefore.startOf_eq hne after
    rw [← hpaths] at hstart
    refine ⟨part, before.length, hpart, hne, ?_, ?_, by rw [hstart, Nat.add_comm]⟩
    · rw [hstart, hpaths]
      simp
    · apply hbefore.sumOf_eq
      intro c hc own hown
      exact h.flagCount_eq hown

end TypeExport.Universe
