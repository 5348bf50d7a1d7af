import TypeExport.Output.Unit

/-!
# Laws of the registry of units

What each operation does to `Units.get?` and `Units.find?`.  Asking for a
location keeps every unit at its id (`get?_ensure_of_get?`) and gives the id
that the location has afterwards (`find?_ensure`).  The operations on names
change one unit at most, and only by adding to it.
-/

namespace TypeExport.Units

/-- The id of a location holds a unit at that location. -/
theorem get?_of_find? {us : Units} {location : String} {id : UnitId}
    (h : us.find? location = some id) :
    ∃ unit, us.get? id = some unit ∧ unit.location = location := by
  obtain ⟨i, hi, rfl⟩ := Option.map_eq_some_iff.1 h
  obtain ⟨hlt, hloc, -⟩ := Array.findIdx?_eq_some_iff_getElem.1 hi
  exact ⟨us.all[i], by simp [get?, hlt], by simpa using hloc⟩

/-- Asking for a known location changes nothing. -/
theorem ensure_of_find? {us : Units} {location : String} {id : UnitId}
    (h : us.find? location = some id) : us.ensure location = (id, us) := by
  simp [ensure, h]

/-- Asking for a new location adds an empty unit behind the others. -/
theorem ensure_of_find?_eq_none {us : Units} {location : String}
    (h : us.find? location = none) :
    us.ensure location = (⟨us.size⟩, ⟨us.all.push { location }⟩) := by
  simp [ensure, h, size]

/-- Asking for a location keeps every unit at its id. -/
theorem get?_ensure_of_get? {us : Units} {location : String} {unit : OutputUnit} {id : UnitId}
    (h : us.get? id = some unit) : (us.ensure location).2.get? id = some unit := by
  cases hl : us.find? location with
  | some i =>
    rw [ensure_of_find? hl]
    exact h
  | none =>
    rw [ensure_of_find?_eq_none hl]
    obtain ⟨hlt, rfl⟩ := Array.getElem?_eq_some_iff.1 h
    simp [get?, Array.getElem?_push, Nat.ne_of_lt hlt, hlt]

/-- The id that a location is given is the one it has afterwards. -/
theorem find?_ensure (us : Units) (location : String) :
    (us.ensure location).2.find? location = some (us.ensure location).1 := by
  cases hl : us.find? location with
  | some i =>
    rw [ensure_of_find? hl]
    exact hl
  | none =>
    rw [ensure_of_find?_eq_none hl]
    have hn : us.all.findIdx? (·.location = location) = none := by simpa [find?] using hl
    simp [find?, size, Array.findIdx?_push, hn]

/-- Changing one unit keeps the others. -/
theorem get?_modify (us : Units) (id other : UnitId) (f : OutputUnit → OutputUnit) :
    (us.modify id f).get? other = if id = other then (us.get? other).map f else us.get? other := by
  simp only [modify, get?, Array.getElem?_modify]
  by_cases h : id = other
  · simp [h]
  · have hne : id.index ≠ other.index := fun e => h (by cases id; cases other; simp_all)
    simp [h, hne]

end TypeExport.Units
