import Mathlib.Data.List.Forall2
import TypeExport.Proofs.Universe.Sound
import TypeExport.Nullability

/-!
# Questions to a sound universe

In a sound universe every question about an issued type has an answer.  Asking
for several types gives their descriptors in order.  The container behind a
closed generic is its definition, because no definition is closed itself.  And
counting the flag positions of a type ends, because the count goes down in rank
(`Universe.Layered.exists_flagCount`).
-/

namespace TypeExport

/-! ## Definitions -/

/-- The container that a kind is. -/
def TypeKind.container? : TypeKind → Option Container
  | .container c => some c
  | _ => none

/-- A definition is an open container or a generic object. -/
theorem TypeKind.Takes.cases {k : TypeKind} {count : Nat} (h : k.Takes count) :
    (∃ c, k = .container c ∧ count = c.arity) ∨
      ∃ parameters, k = .object parameters ∧ parameters ≠ [] ∧ count = parameters.length := by
  cases k with
  | container c => exact .inl ⟨c, rfl, h⟩
  | object parameters => exact .inr ⟨parameters, rfl, h⟩
  | builtin => cases h
  | array => cases h
  | closed => cases h
  | parameter => cases h
  | enumeration => cases h

namespace Universe

variable {u : Universe} {id : TypeId} {d : Descriptor} {ids : List TypeId} {ds : List Descriptor}

/-! ## Several types -/

theorem viewAll_eq_ok_iff :
    u.viewAll ids = .ok ds ↔ List.Forall₂ (fun id d => u.get? id = some d) ids ds := by
  induction ids generalizing ds with
  | nil => simp [viewAll, eq_comm]
  | cons id ids ih =>
    rw [List.forall₂_cons_left_iff, viewAll, view]
    cases hd : u.get? id with
    | none => simp [bind, Except.bind]
    | some d =>
      cases hds : u.viewAll ids with
      | error e =>
        simp only [bind, Except.bind]
        constructor
        · intro h
          cases h
        · rintro ⟨_, ds', -, hrest, -⟩
          rw [ih.2 hrest] at hds
          cases hds
      | ok ds' =>
        have hrest := ih.1 hds
        simp only [bind, Except.bind, pure, Except.pure, Except.ok.injEq]
        constructor
        · rintro rfl
          exact ⟨d, ds', rfl, hrest, rfl⟩
        · rintro ⟨e, es, he, hes, rfl⟩
          cases he
          have := hds.symm.trans (ih.2 hes)
          cases this
          rfl

theorem exists_viewAll (h : ∀ id ∈ ids, u.Issued id) : ∃ ds, u.viewAll ids = .ok ds := by
  induction ids with
  | nil => exact ⟨[], rfl⟩
  | cons id ids ih =>
    obtain ⟨d, hd⟩ := issued_iff.1 (h id List.mem_cons_self)
    obtain ⟨ds, hds⟩ := ih fun i hi => h i (List.mem_cons_of_mem _ hi)
    exact ⟨d :: ds, viewAll_eq_ok_iff.2 (.cons hd (viewAll_eq_ok_iff.1 hds))⟩

theorem map_key_of_viewAll (h : u.viewAll ids = .ok ds) : ds.map (·.key) = ids.map u.keyOf := by
  rw [viewAll_eq_ok_iff] at h
  induction h with
  | nil => rfl
  | cons hd _ ih => simp [ih, keyOf_of_get? hd]

theorem map_name_of_viewAll (h : u.viewAll ids = .ok ds) :
    ds.map (·.name) = ids.map u.nameOf := by
  rw [viewAll_eq_ok_iff] at h
  induction h with
  | nil => rfl
  | cons hd _ ih => simp [ih, nameOf_of_get? hd]

/-! ## Containers -/

theorem container?_of_closed {definition : TypeId} {arguments : List TypeId} {e : Descriptor}
    {count : Nat} (hkind : d.kind = .closed definition arguments)
    (he : u.get? definition = some e) (ht : e.kind.Takes count) :
    u.container? d = .ok e.kind.container? := by
  obtain ⟨n, hn⟩ : ∃ n, u.size = n + 1 := Nat.exists_eq_succ_of_ne_zero fun h0 => by
    have := issued_of_get? he
    rw [Issued, h0] at this
    exact Nat.not_lt_zero _ this
  rw [container?, hkind, hn, containerWithin, view_of_get? he]
  rcases ht.cases with ⟨c, hc, -⟩ | ⟨parameters, hp, -⟩
  · simp [hc, bind, Except.bind, containerWithin, TypeKind.container?]
  · simp [hp, bind, Except.bind, containerWithin, TypeKind.container?]

/-- A type is an instance of a container when it is closed and its definition
is that container. -/
theorem isInstanceOf_of_closed {definition : TypeId} {arguments : List TypeId} {e : Descriptor}
    {count : Nat} {c : Container} (hkind : d.kind = .closed definition arguments)
    (he : u.get? definition = some e) (ht : e.kind.Takes count) :
    u.isInstanceOf d c = .ok (e.kind.container? = some c) := by
  rw [isInstanceOf, hkind]
  simp [container?_of_closed hkind he ht, bind, Except.bind, pure, Except.pure]

theorem isInstanceOf_of_not_closed {c : Container}
    (hkind : ∀ definition arguments, d.kind ≠ .closed definition arguments) :
    u.isInstanceOf d c = .ok false := by
  rw [isInstanceOf]
  split
  · rename_i h
    exact absurd h (hkind _ _)
  · rfl

theorem Layered.exists_isInstanceOf (h : u.Layered) (hd : u.get? id = some d) (c : Container) :
    ∃ b, u.isInstanceOf d c = .ok b := by
  cases hkind : d.kind with
  | closed definition arguments =>
    obtain ⟨e, he, ht⟩ := h.closed hd definition arguments hkind
    exact ⟨_, isInstanceOf_of_closed hkind he ht⟩
  | _ => exact ⟨false, isInstanceOf_of_not_closed (by simp [hkind])⟩

theorem definition?_of_closed {definition : TypeId} {arguments : List TypeId} {e : Descriptor}
    (hkind : d.kind = .closed definition arguments) (he : u.get? definition = some e) :
    u.definition? id d = .ok (some (definition, e)) := by
  simp [definition?, hkind, view_of_get? he, bind, Except.bind, pure, Except.pure]

/-! ## Flag positions -/

theorem exists_sumOf {count : TypeId → Except Fault Nat} (h : ∀ id ∈ ids, ∃ n, count id = .ok n) :
    ∃ n, sumOf count ids = .ok n := by
  induction ids with
  | nil => exact ⟨0, rfl⟩
  | cons id ids ih =>
    obtain ⟨n, hn⟩ := h id List.mem_cons_self
    obtain ⟨m, hm⟩ := ih fun i hi => h i (List.mem_cons_of_mem _ hi)
    exact ⟨n + m, by simp [sumOf, hn, hm, bind, Except.bind, pure, Except.pure]⟩

/-- The arguments of a closed generic and the parameters of an open one are
constituents. -/
theorem mem_constituents_of_mem_arguments {k : TypeKind} {a : TypeId} (h : a ∈ k.arguments) :
    a ∈ k.constituents := by
  cases k with
  | closed => exact List.mem_cons_of_mem _ h
  | object => exact h
  | builtin => cases h
  | container => cases h
  | array => cases h
  | parameter => cases h
  | enumeration => cases h

theorem Layered.exists_flagCountWithin (h : u.Layered) {fuel : Nat} (hi : u.Issued id)
    (hf : u.rank id < fuel) : ∃ n, u.flagCountWithin fuel id = .ok n := by
  induction fuel generalizing id with
  | zero => exact absurd hf (Nat.not_lt_zero _)
  | succ fuel ih =>
    obtain ⟨d, hd⟩ := issued_iff.1 hi
    have below : ∀ c ∈ d.kind.constituents, ∃ n, u.flagCountWithin fuel c = .ok n := by
      intro c hc
      obtain ⟨hissued, hrank⟩ := h.constituent hd c hc
      exact ih hissued (Nat.lt_of_lt_of_le hrank (Nat.le_of_lt_succ hf))
    have hargs : ∀ a ∈ d.kind.arguments, a ∈ d.kind.constituents :=
      fun a => mem_constituents_of_mem_arguments
    obtain ⟨ds, hds⟩ :=
      exists_viewAll fun a ha => (h.constituent hd a (hargs a ha)).1
    obtain ⟨n, hn⟩ := exists_sumOf fun a ha => below a (hargs a ha)
    obtain ⟨b, hb⟩ := h.exists_isInstanceOf hd .nullable
    rw [flagCountWithin, view_of_get? hd]
    simp only [bind, Except.bind, pure, Except.pure, hb]
    split
    · rename_i element hkind
      obtain ⟨m, hm⟩ := below element (by simp [hkind, TypeKind.constituents])
      exact ⟨1 + m, by rw [hm]⟩
    · split
      · exact ⟨0, rfl⟩
      · split
        · exact ⟨1 + n, by simp only [hds, hn]⟩
        · split
          · exact ⟨0, rfl⟩
          · exact ⟨1, rfl⟩

/-- The flag positions of an issued type can be counted. -/
theorem Layered.exists_flagCount (h : u.Layered) (hi : u.Issued id) :
    ∃ n, u.flagCount id = .ok n :=
  h.exists_flagCountWithin hi (Nat.lt_succ_of_le (rank_le_size hi))

theorem Sound.exists_flagCount (h : u.Sound) (hi : u.Issued id) :
    ∃ n, u.flagCount id = .ok n := h.layered.exists_flagCount hi

theorem Sound.exists_valueNullable (h : u.Sound) (mode : NullabilityMode)
    (attributes : Option Attributes) {key : TypeId} (hi : u.Issued key) (value : Descriptor) :
    ∃ b, u.valueNullable mode attributes key value = .ok b := by
  obtain ⟨n, hn⟩ := h.exists_flagCount hi
  exact ⟨itemNullable mode attributes value (1 + n), by
    simp [valueNullable, hn, bind, Except.bind, pure, Except.pure]⟩

theorem Sound.exists_argumentNullable (h : u.Sound) (mode : NullabilityMode)
    (attributes : Option Attributes) (hi : ∀ id ∈ ids, u.Issued id) (argument : Descriptor) :
    ∃ b, u.argumentNullable mode attributes ids argument = .ok b := by
  obtain ⟨n, hn⟩ := exists_sumOf fun a ha => h.exists_flagCount (hi a ha)
  unfold argumentNullable
  cases attributes with
  | none => exact ⟨false, rfl⟩
  | some a =>
    dsimp only
    split
    · exact ⟨false, rfl⟩
    · exact ⟨flaggedNullable a argument (1 + n), by
        simp [hn, bind, Except.bind, pure, Except.pure]⟩

end Universe

end TypeExport
