import Mathlib.Data.List.Nodup
import TypeExport.Proofs.Output.History
import TypeExport.Proofs.Output.Leading
import TypeExport.Proofs.Run.Governed
import TypeExport.Proofs.Run.Kept

/-!
# The files of a run

A unit is written to the file of its location.  The unit at the empty location
is written to the index, and so is a unit at the location `index`.  These two
are one file, and no other two units are, whatever the locations are and for all
types (`Setup.files_apart`).  So is the specifier by which one of them imports
from the other the one by which it would import itself.

Paths are compared as texts.  The specifier of a file whose path is made of
names alone also leads to the imported file.
-/

namespace TypeExport

namespace Units

variable {us : Units} {k j : UnitId} {U V : OutputUnit}

/-- The locations of the units, in the order of their creation. -/
def locations (us : Units) : List String := us.all.toList.map (·.location)

/-- Whether the registry stays orderly, whatever is asked of a run. -/
theorem keptByBuilding_orderly :
    KeptByBuilding fun st st' => st.units.Orderly → st'.units.Orderly where
  refl _ := id
  trans h h' := h' ∘ h
  event _ _ := id
  unit _ location h := (h.ensure location).orderly
  declaration hus h := by
    obtain ⟨U, -, hplaced⟩ := h.placed_of_declare hus
    exact hplaced.orderly h
  context _ _ := id
  imported hus h := (imported_of_addImport hus).orderly h
  members _ _ p members h := orderly_setMembers h p members
  contexts _ _ := id

/-! ## Stems -/

/-- The stem of a unit at a location. -/
def stemAt (location : String) : String := if location = "" then "index" else location

/-- Whether one of two locations is empty and the other is the index. -/
def BothIndex (l l' : String) : Prop := l = "" ∧ l' = "index" ∨ l = "index" ∧ l' = ""

/-- Two locations have one stem only as the index. -/
theorem stemAt_eq_iff {l l' : String} : stemAt l = stemAt l' ↔ l = l' ∨ BothIndex l l' := by
  unfold stemAt BothIndex
  constructor
  · intro h
    split at h <;> split at h <;> simp_all
  · rintro (rfl | ⟨rfl, rfl⟩ | ⟨rfl, rfl⟩)
    · rfl
    · rfl
    · rfl

/-! ## Paths -/

theorem map_path_render (us : Units) (o : Options) :
    (us.render o).map (·.path) =
      us.locations.map fun location => stemAt location ++ "." ++ o.dialect.extension := by
  refine List.ext_getElem? fun i => ?_
  rw [render, locations, List.getElem?_map, List.getElem?_mapIdx, List.map_map, List.getElem?_map,
    Option.map_map]
  rfl

/-- The paths are distinct unless two units are the index. -/
theorem Orderly.nodup_paths_iff (h : us.Orderly) (o : Options) :
    ((us.render o).map (·.path)).Nodup ↔ ¬ ("" ∈ us.locations ∧ "index" ∈ us.locations) := by
  have hstem : ∀ l l' : String, stemAt l ++ "." ++ o.dialect.extension =
      stemAt l' ++ "." ++ o.dialect.extension → stemAt l = stemAt l' := by
    intro l l' hsame
    rwa [String.append_left_inj, String.append_left_inj] at hsame
  rw [map_path_render, List.nodup_map_iff_inj_on (show us.locations.Nodup from h.nodup_locations)]
  constructor
  · rintro hinj ⟨hempty, hindex⟩
    exact absurd (hinj "" hempty "index" hindex rfl) (by decide)
  · intro hnot l hl l' hl' hsame
    rcases stemAt_eq_iff.1 (hstem l l' hsame) with heq | ⟨rfl, rfl⟩ | ⟨rfl, rfl⟩
    · exact heq
    · exact absurd ⟨hl, hl'⟩ hnot
    · exact absurd ⟨hl', hl⟩ hnot

/-! ## Imports between units -/

/-- Where the specifier leads by which a unit imports from another. -/
structure Leads (us : Units) (k j : UnitId) (U V : OutputUnit) : Prop where
  /-- It is the specifier of the importing file itself only when both are the
  index. -/
  self : us.specifier k (.unit j) = us.specifier k (.unit k) ↔ BothIndex U.location V.location
  /-- It leads to the imported file when the path of the importing file is
  plain. -/
  target : IsPlainPath U.stem.toList →
    follow (directoryOf U.stem.toList) (segments (us.specifier k (.unit j)).toList) =
      placeOf V.stem.toList
  /-- It does not lead back when both paths are plain. -/
  away : IsPlainPath U.stem.toList → IsPlainPath V.stem.toList →
    ¬ BothIndex U.location V.location →
    follow (directoryOf U.stem.toList) (segments (us.specifier k (.unit j)).toList) ≠
      placeOf U.stem.toList

theorem Orderly.leads (h : us.Orderly) (hU : us.get? k = some U) (hV : us.get? j = some V)
    (hne : j ≠ k) : us.Leads k j U V := by
  have stem : ∀ {k : UnitId} {U : OutputUnit}, us.get? k = some U →
      us.stemOf k = stemAt U.location := by
    intro k U hU
    rw [stemOf, hU]
    rfl
  have hstems : V.stem = U.stem ↔ BothIndex U.location V.location := by
    show stemAt V.location = stemAt U.location ↔ _
    rw [eq_comm, stemAt_eq_iff]
    exact or_iff_right fun hsame => hne (h.location hU hV hsame).symm
  have hspecifier : (us.specifier k (.unit j)).toList =
      relativeSpecifier U.stem.toList V.stem.toList := by
    show (String.ofList (relativeSpecifier (us.stemOf k).toList (us.stemOf j).toList)).toList = _
    rw [String.toList_ofList, stem hU, stem hV]
    rfl
  have htarget : IsPlainPath U.stem.toList →
      follow (directoryOf U.stem.toList) (segments (us.specifier k (.unit j)).toList) =
        placeOf V.stem.toList := fun hplain => by
    rw [hspecifier, follow_relativeSpecifier hplain]
  refine ⟨?_, htarget, fun hplain hplain' hnot hback => ?_⟩
  · have hself : us.specifier k (.unit k) =
        String.ofList (relativeSpecifier U.stem.toList U.stem.toList) := by
      show String.ofList (relativeSpecifier (us.stemOf k).toList (us.stemOf k).toList) = _
      rw [stem hU]
      rfl
    rw [hself, ← String.toList_inj, hspecifier, String.toList_ofList,
      relativeSpecifier_eq_self_iff, String.toList_inj, hstems]
  · rw [htarget hplain, placeOf_of_isPlainPath hplain, placeOf_of_isPlainPath hplain'] at hback
    exact hnot (hstems.1 (String.toList_inj.1 (segments_injective (List.reverse_injective hback))))

end Units

namespace Setup

variable {s : Setup} {r : Rules} {us : Units}

/-- The files of a run that succeeds have distinct paths unless one unit is at
the empty location and one at the location `index`.  A unit imports only from
other units, and by the specifier of another file unless these are the two
units. -/
theorem files_apart (h : s.RuledBy r) (hus : s.units = .ok us) :
    (((us.render s.options).map (·.path)).Nodup ↔
        ¬ ("" ∈ us.locations ∧ "index" ∈ us.locations)) ∧
      ∀ {k j U V i}, us.get? k = some U → i ∈ U.imports → i.source = .unit j →
        us.get? j = some V → j ≠ k ∧ us.Leads k j U V := by
  obtain ⟨st, horderly, rfl⟩ := Units.keptByBuilding_orderly.units h hus
  have orderly : st.units.Orderly := horderly Units.orderly_empty
  refine ⟨orderly.nodup_paths_iff s.options, fun {k j U V i} hU hi hsource hV => ?_⟩
  have hne : j ≠ k := by
    rintro rfl
    exact orderly.selfless hU hi hsource
  exact ⟨hne, orderly.leads hU hV hne⟩

theorem shop_locations : (shop.units.map fun us => (us.locations,
    (us.get? ⟨0⟩).map (·.imports.toList), (us.get? ⟨1⟩).isSome)).toOption =
      some (["", "states"], some [⟨"State", .unit ⟨1⟩⟩, ⟨"Person", .external "people"⟩], true) := by
  decide +kernel

/-- The files of the shop have distinct paths, and the first imports from the
second. -/
theorem files_apart_shop : shop.RuledBy shopRules ∧ ∃ us, shop.units = .ok us ∧
    ((us.render shop.options).map (·.path)).Nodup ∧
    ∃ U V, us.get? ⟨0⟩ = some U ∧ ⟨"State", .unit ⟨1⟩⟩ ∈ U.imports ∧ us.get? ⟨1⟩ = some V ∧
      us.Leads ⟨0⟩ ⟨1⟩ U V := by
  have ruled := shop_governed.ruledBy
  obtain ⟨us, hus, hshop⟩ := exists_units_of_toOption shop_locations
  simp only [Prod.mk.injEq, Option.map_eq_some_iff, Option.isSome_iff_exists] at hshop
  obtain ⟨hlocations, ⟨U, hU, himports⟩, V, hV⟩ := hshop
  obtain ⟨hpaths, hleads⟩ := files_apart ruled hus
  have hi : ⟨"State", .unit ⟨1⟩⟩ ∈ U.imports :=
    Array.mem_toList_iff.1 (himports ▸ List.mem_cons_self)
  refine ⟨ruled, us, hus, hpaths.2 ?_, U, V, hU, hi, hV, (hleads hU hi rfl hV).2⟩
  rw [hlocations]
  decide

/-- A document with a class that refers to another. -/
@[irreducible] def coverText : String :=
  r#"[[["object","A",[],[["b","B"]]],["object","B"]],["A"]]"#

/-- Rules that place the second class at the index by its name. -/
def coverRules : Rules where
  locations := [⟨"B", fun _ _ => "index"⟩]

/-- The setup of the document under the rules. -/
def cover : Setup := ofDocument coverText {} coverRules

theorem cover_checks : loads coverText = true ∧ (cover.units.map fun us =>
    ((us.render cover.options).map (·.path), us.specifier ⟨0⟩ (.unit ⟨1⟩),
      us.specifier ⟨0⟩ (.unit ⟨0⟩), (us.get? ⟨0⟩).map (·.imports.toList))).toOption =
        some (["index.ts", "index.ts"], "./index", "./index", some [⟨"B", .unit ⟨1⟩⟩]) := by
  decide +kernel

/-- The files of two units may have one path, and the specifier by which one
imports from the other is the one by which it would import itself. -/
theorem exists_path_twice : cover.Governed coverRules ∧ ∃ us, cover.units = .ok us ∧
    ¬ ((us.render cover.options).map (·.path)).Nodup ∧
    ∃ U, us.get? ⟨0⟩ = some U ∧ ⟨"B", .unit ⟨1⟩⟩ ∈ U.imports ∧
      us.specifier ⟨0⟩ (.unit ⟨1⟩) = us.specifier ⟨0⟩ (.unit ⟨0⟩) := by
  obtain ⟨us, hus, hcover⟩ := exists_units_of_toOption cover_checks.2
  simp only [Prod.mk.injEq, Option.map_eq_some_iff] at hcover
  obtain ⟨hpaths, hspecifier, hself, U, hU, himports⟩ := hcover
  refine ⟨governed_ofDocument {} cover_checks.1 rfl rfl, us, hus, ?_, U, hU,
    Array.mem_toList_iff.1 (himports ▸ List.mem_cons_self), hspecifier.trans hself.symm⟩
  rw [hpaths]
  decide

end Setup

end TypeExport
