import TypeExport.Proofs.Universe.Form

/-!
# Counting flag positions

What `Universe.flagCount` counts, without the fuel that bounds its descent.  In a
universe whose structure has layers one step of fuel more changes nothing
(`Layered.flagCountWithin_succ`), so the count of a type is told by what it is.  A
`Nullable` has no positions, a type that is composed of nothing has one or none, and
any other one of its own and those of what it is composed of
(`Layered.flagCount_of_composed`).
-/

namespace TypeExport.Universe

variable {u : Universe} {id x : TypeId} {d e : Descriptor} {ids : List TypeId}

/-! ## Sums -/

theorem sumOf_singleton (count : TypeId → Except Fault Nat) (id : TypeId) :
    sumOf count [id] = count id := by
  simp only [sumOf, bind, Except.bind, pure, Except.pure, Nat.add_zero]
  cases count id <;> rfl

theorem sumOf_congr {count count' : TypeId → Except Fault Nat}
    (h : ∀ id ∈ ids, count id = count' id) : sumOf count ids = sumOf count' ids := by
  induction ids with
  | nil => rfl
  | cons id ids ih =>
    rw [sumOf, sumOf, h id List.mem_cons_self, ih fun i hi => h i (List.mem_cons_of_mem _ hi)]

/-- A sum that is found is the sum of those of two parts. -/
theorem exists_of_sumOf_append {count : TypeId → Except Fault Nat} (xs : List TypeId)
    {ys : List TypeId} {n : Nat} (h : sumOf count (xs ++ ys) = .ok n) :
    ∃ m k, sumOf count xs = .ok m ∧ sumOf count ys = .ok k ∧ n = m + k := by
  induction xs generalizing n with
  | nil => exact ⟨0, n, rfl, h, (Nat.zero_add n).symm⟩
  | cons x xs ih =>
    simp only [List.cons_append, sumOf, bind, Except.bind, pure, Except.pure] at h ⊢
    cases hx : count x with
    | error fault => simp [hx] at h
    | ok i =>
      cases hrest : sumOf count (xs ++ ys) with
      | error fault => simp [hx, hrest] at h
      | ok j =>
        obtain ⟨m, k, hm, hk, rfl⟩ := ih hrest
        simp only [hx, hrest, Except.ok.injEq] at h
        exact ⟨i + m, k, by rw [hm], hk, by omega⟩

theorem valueNullable_eq {n : Nat} (mode : NullabilityMode) (attributes : Option Attributes)
    {key : TypeId} (e : Descriptor) (hkey : u.flagCount key = .ok n) :
    u.valueNullable mode attributes key e = .ok (itemNullable mode attributes e (1 + n)) := by
  simp [valueNullable, hkey, bind, Except.bind, pure, Except.pure]

/-! ## Fuel -/

/-- More fuel than the structure of a type is deep changes nothing. -/
theorem Layered.flagCountWithin_succ (h : u.Layered) {fuel : Nat} (hi : u.Issued id)
    (hfuel : u.rank id < fuel) :
    u.flagCountWithin (fuel + 1) id = u.flagCountWithin fuel id := by
  induction fuel generalizing id with
  | zero => exact absurd hfuel (Nat.not_lt_zero _)
  | succ fuel ih =>
    obtain ⟨d, hd⟩ := issued_iff.1 hi
    have below : ∀ c ∈ d.kind.constituents,
        u.flagCountWithin (fuel + 1) c = u.flagCountWithin fuel c := by
      intro c hc
      obtain ⟨hissued, hrank⟩ := h.constituent hd c hc
      exact ih hissued (Nat.lt_of_lt_of_le hrank (Nat.le_of_lt_succ hfuel))
    have harguments : sumOf (u.flagCountWithin (fuel + 1)) d.kind.arguments =
        sumOf (u.flagCountWithin fuel) d.kind.arguments :=
      sumOf_congr fun c hc => below c (mem_constituents_of_mem_arguments hc)
    rw [flagCountWithin, flagCountWithin, view_of_get? hd]
    simp only [bind, Except.bind]
    split
    · rename_i element hkind
      rw [below element (by simp [hkind, TypeKind.constituents])]
    · rw [harguments]

/-! ## What a count is -/

/-- A type that is composed of others, and is no definition, is an array or closed. -/
theorem composed_cases {k : TypeKind} (hopen : k.isDefinition = false)
    (hsome : k.constituents ≠ []) :
    (∃ element, k = .array element) ∨ ∃ definition arguments, k = .closed definition arguments := by
  cases k with
  | array element => exact .inl ⟨element, rfl⟩
  | closed definition arguments => exact .inr ⟨definition, arguments, rfl⟩
  | object parameters =>
    cases parameters with
    | nil => exact absurd rfl hsome
    | cons p ps => cases hopen
  | builtin | container | parameter | enumeration => exact absurd rfl hsome

/-- What is an instance of `Nullable` has its form. -/
theorem Layered.isInstanceOf_nullable (h : u.Layered) (hd : u.get? id = some d)
    (hno : ∀ x, u.form? id ≠ some (.absent x)) : u.isInstanceOf d .nullable = .ok false := by
  cases hkind : d.kind with
  | closed definition arguments =>
    obtain ⟨e, he, htakes⟩ := h.closed hd definition arguments hkind
    rw [isInstanceOf_of_closed hkind he htakes, decide_eq_false]
    intro hnullable
    rcases htakes.cases with ⟨c, hc, hlength⟩ | ⟨parameters, hp, -⟩
    · rw [hc] at hnullable
      cases hnullable
      obtain ⟨x, rfl⟩ := List.length_eq_one_iff.1 hlength
      apply hno x
      simp [form?_of_get? hd, hkind, formOf, kind?_of_get? he, hc]
    · rw [hp] at hnullable
      cases hnullable
  | _ => exact isInstanceOf_of_not_closed (by simp [hkind])

/-- A `Nullable` has no positions. -/
theorem Layered.flagCount_of_absent (h : u.Layered) (hform : u.form? id = some (.absent x)) :
    u.flagCount id = .ok 0 := by
  obtain ⟨d, hd, hdform⟩ := get?_of_form? hform
  generalize hkind : d.kind = k at hdform
  cases hasForm_of_eq hdform with
  | @absent definition _ hcontainer =>
    obtain ⟨e, he, htakes⟩ := h.closed hd definition [x] hkind
    rw [kind?_of_get? he] at hcontainer
    have hinstance := isInstanceOf_of_closed (c := .nullable) hkind he htakes
    rw [Option.some.inj hcontainer] at hinstance
    simp [flagCount, flagCountWithin, view_of_get? hd, hkind, hinstance, TypeKind.container?, bind,
      Except.bind, pure, Except.pure]

/-- A type that is composed of nothing has one position, or none. -/
theorem flagCount_of_leaf (hd : u.get? id = some d) (hopen : d.kind.isDefinition = false)
    (hnone : d.kind.constituents = []) :
    u.flagCount id = .ok (if d.isValueType then 0 else 1) := by
  have hclosed : ∀ definition arguments, d.kind ≠ .closed definition arguments := by
    intro definition arguments hkind
    rw [hkind] at hnone
    cases hnone
  have hgeneric : d.kind.isGeneric = false := by
    unfold TypeKind.isGeneric
    split
    · exact absurd ‹_› (hclosed _ _)
    · exact hopen
  rw [flagCount, flagCountWithin, view_of_get? hd]
  simp only [bind, Except.bind, pure, Except.pure, isInstanceOf_of_not_closed hclosed]
  split
  · rename_i element hkind
    rw [hkind] at hnone
    cases hnone
  · rw [hgeneric]
    rfl

/-- Any other type has a position of its own, and those of what it is composed of. -/
theorem Layered.flagCount_of_composed (h : u.Layered) {n : Nat} (hd : u.get? id = some d)
    (hopen : d.kind.isDefinition = false) (hsome : d.kind.constituents ≠ [])
    (hno : ∀ x, u.form? id ≠ some (.absent x))
    (hsum : sumOf u.flagCount d.kind.operands = .ok n) : u.flagCount id = .ok (n + 1) := by
  have hsum' : sumOf (u.flagCountWithin u.size) d.kind.operands = .ok n := by
    rw [← hsum]
    refine sumOf_congr fun c hc => (h.flagCountWithin_succ ?_ ?_).symm
    · exact (h.constituent hd c (mem_constituents_of_mem_operands hc)).1
    · have hrank := (h.constituent hd c (mem_constituents_of_mem_operands hc)).2
      exact Nat.lt_of_lt_of_le hrank (rank_le_size (issued_of_get? hd))
  rw [flagCount, flagCountWithin, view_of_get? hd]
  rcases composed_cases hopen hsome with ⟨element, hkind⟩ | ⟨definition, arguments, hkind⟩
  · rw [hkind, TypeKind.operands, sumOf_singleton] at hsum'
    simp [hkind, hsum', bind, Except.bind, pure, Except.pure, Nat.add_comm]
  · have hissued : ∀ a ∈ arguments, u.Issued a := fun a ha =>
      (h.constituent hd a (by simp [hkind, TypeKind.constituents, ha])).1
    obtain ⟨ds, hds⟩ := exists_viewAll hissued
    rw [hkind, TypeKind.operands] at hsum'
    simp [hkind, h.isInstanceOf_nullable hd hno, TypeKind.isGeneric, TypeKind.arguments, hds, hsum',
      bind, Except.bind, pure, Except.pure, Nat.add_comm]

/-- A reference type that is no `Nullable` has a position of its own. -/
theorem Layered.flagCount_pos (h : u.Layered) {n : Nat} (hd : u.get? id = some d)
    (hno : ∀ x, u.form? id ≠ some (.absent x)) (hreference : d.isValueType = false)
    (hcount : u.flagCount id = .ok n) : 0 < n := by
  rw [flagCount, flagCountWithin, view_of_get? hd] at hcount
  simp only [bind, Except.bind, pure, Except.pure, h.isInstanceOf_nullable hd hno] at hcount
  split at hcount
  · split at hcount
    · cases hcount
    · rw [← Except.ok.inj hcount]
      exact Nat.lt_add_right _ Nat.one_pos
  · rw [if_neg Bool.false_ne_true] at hcount
    split at hcount
    · split at hcount
      · cases hcount
      · split at hcount
        · cases hcount
        · rw [← Except.ok.inj hcount]
          exact Nat.lt_add_right _ Nat.one_pos
    · rw [hreference] at hcount
      rw [← Except.ok.inj hcount]
      exact Nat.one_pos

/-- The positions of a part that is a reference type lie within those of the whole. -/
theorem Layered.lt_flagCount (h : u.Layered) {before after : List TypeId} {n k : Nat}
    (hd : u.get? id = some d) (hopen : d.kind.isDefinition = false)
    (hno : ∀ y, u.form? id ≠ some (.absent y)) (hparts : d.kind.operands = before ++ x :: after)
    (he : u.get? x = some e) (hx : ∀ y, u.form? x ≠ some (.absent y))
    (hreference : e.isValueType = false) (hbefore : sumOf u.flagCount before = .ok n)
    (hcount : u.flagCount id = .ok k) : 1 + n < k := by
  have hsome : d.kind.constituents ≠ [] := by
    have hmem : x ∈ d.kind.operands := by simp [hparts]
    exact List.ne_nil_of_mem (mem_constituents_of_mem_operands hmem)
  have hissued : ∀ c ∈ d.kind.operands, u.Issued c := fun c hc =>
    (h.constituent hd c (mem_constituents_of_mem_operands hc)).1
  obtain ⟨total, htotal⟩ := exists_sumOf fun c hc => h.exists_flagCount (hissued c hc)
  cases (h.flagCount_of_composed hd hopen hsome hno htotal).symm.trans hcount
  rw [hparts] at htotal
  obtain ⟨m, rest, hm, hrest, rfl⟩ := exists_of_sumOf_append before htotal
  cases hm.symm.trans hbefore
  obtain ⟨own, later, hown, -, rfl⟩ := exists_of_sumOf_append [x] hrest
  rw [sumOf_singleton] at hown
  have hpos := h.flagCount_pos he hx hreference hown
  omega

end TypeExport.Universe
