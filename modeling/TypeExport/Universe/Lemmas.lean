import TypeExport.Universe.Basic

/-!
# Laws of interning

What each operation of a universe does to `Universe.get?` and
`Universe.lookup?`.  Interning keeps every descriptor at its id
(`get?_intern_of_get?`), the id it gives is the one that the key has afterwards
(`lookup?_intern`), and that id holds a descriptor of the key
(`get?_of_lookup?`).
-/

namespace TypeExport.Universe

/-- The id of a key holds a descriptor with that key. -/
theorem get?_of_lookup? {u : Universe} {key : String} {id : TypeId}
    (h : u.lookup? key = some id) : ∃ d, u.get? id = some d ∧ d.key = key := by
  obtain ⟨i, hi, rfl⟩ := Option.map_eq_some_iff.1 h
  obtain ⟨hlt, hkey, -⟩ := Array.findIdx?_eq_some_iff_getElem.1 hi
  exact ⟨u.types[i], by simp [get?, hlt], by simpa using hkey⟩

/-- A key has no id exactly when no descriptor has it. -/
theorem lookup?_eq_none_iff {u : Universe} {key : String} :
    u.lookup? key = none ↔ ∀ d ∈ u.types, d.key ≠ key := by
  simp [lookup?, Array.findIdx?_eq_none_iff]

/-- Interning a known key changes nothing. -/
theorem intern_of_lookup? {u : Universe} {d : Descriptor} {id : TypeId}
    (h : u.lookup? d.key = some id) : u.intern d = (id, u) := by
  simp [intern, h]

/-- Interning a new key adds the descriptor behind the others. -/
theorem intern_of_lookup?_eq_none {u : Universe} {d : Descriptor}
    (h : u.lookup? d.key = none) : u.intern d = (⟨u.size⟩, ⟨u.types.push d⟩) := by
  simp [intern, h, size]

/-- Interning keeps every descriptor at its id. -/
theorem get?_intern_of_get? {u : Universe} {d e : Descriptor} {id : TypeId}
    (h : u.get? id = some e) : (u.intern d).2.get? id = some e := by
  cases hk : u.lookup? d.key with
  | some i =>
    rw [intern_of_lookup? hk]
    exact h
  | none =>
    rw [intern_of_lookup?_eq_none hk]
    obtain ⟨hlt, rfl⟩ := Array.getElem?_eq_some_iff.1 h
    simp [get?, Array.getElem?_push, Nat.ne_of_lt hlt, hlt]

/-- The id that interning gives is the id of the key afterwards. -/
theorem lookup?_intern (u : Universe) (d : Descriptor) :
    (u.intern d).2.lookup? d.key = some (u.intern d).1 := by
  cases hk : u.lookup? d.key with
  | some i =>
    rw [intern_of_lookup? hk]
    exact hk
  | none =>
    rw [intern_of_lookup?_eq_none hk]
    have hn : u.types.findIdx? (·.key = d.key) = none := by simpa [lookup?] using hk
    simp [lookup?, size, Array.findIdx?_push, hn]

/-- Changing one descriptor keeps the others. -/
theorem get?_modify (u : Universe) (id other : TypeId) (f : Descriptor → Descriptor) :
    (u.modify id f).get? other = if id = other then (u.get? other).map f else u.get? other := by
  simp only [modify, get?, Array.getElem?_modify]
  by_cases h : id = other
  · simp [h]
  · have hne : id.index ≠ other.index := fun e => h (by cases id; cases other; simp_all)
    simp [h, hne]

end TypeExport.Universe
