import TypeExport.Output.Lemmas

/-!
# Orderly registries

In an orderly registry no two units have one location, a name stands for one
thing in a unit, and no unit imports from itself.  `Units.Placed`,
`Units.Imported` and `Units.remake` say what a new declaration, an import and
new members leave, and why the first two may be refused.  Each leaves an
orderly registry.  `Units.Grows` is what units keep while names are added.
-/

namespace TypeExport

namespace OutputUnit

variable {unit : OutputUnit} {name : String}

/-- The names that stand for something in a unit. -/
def names (unit : OutputUnit) : List String :=
  unit.imports.toList.map (·.name) ++ unit.declarations.toList.map (·.name)

theorem mem_names_iff : name ∈ unit.names ↔
    (∃ i ∈ unit.imports, i.name = name) ∨ ∃ d ∈ unit.declarations, d.name = name := by
  simp [names]

/-- A new declaration adds its name. -/
theorem names_push_declaration (d : Declaration) :
    ({ unit with declarations := unit.declarations.push d } : OutputUnit).names =
      unit.names ++ [d.name] := by
  simp only [names, Array.toList_push, List.map_append, List.map_singleton, List.append_assoc]

/-- A new import adds its name. -/
theorem names_push_import (i : Import) :
    ({ unit with imports := unit.imports.push i } : OutputUnit).names.Perm
      (i.name :: unit.names) := by
  simp only [names, Array.toList_push, List.map_append, List.map_singleton, List.append_assoc]
  exact List.perm_middle

theorem declares_iff : unit.declares name = true ↔ ∃ d ∈ unit.declarations, d.name = name := by
  simp [declares, ← Array.any_toList]

theorem importsName_iff : unit.importsName name = true ↔ ∃ i ∈ unit.imports, i.name = name := by
  simp [importsName, ← Array.any_toList]

theorem importsElsewhere_iff {i : Import} : unit.importsElsewhere i = true ↔
    ∃ other ∈ unit.imports, other.name = i.name ∧ other.source ≠ i.source := by
  simp [importsElsewhere, ← Array.any_toList]

end OutputUnit

namespace Units

variable {us vs ws : Units} {k : UnitId}

/-- Whether a registry is in order. -/
structure Orderly (us : Units) : Prop where
  /-- No two units have one location. -/
  location : ∀ {i j U V}, us.get? i = some U → us.get? j = some V → U.location = V.location → i = j
  /-- A name stands for one thing in a unit. -/
  nodup : ∀ {k U}, us.get? k = some U → U.names.Nodup
  /-- No unit imports from itself. -/
  selfless : ∀ {k U i}, us.get? k = some U → i ∈ U.imports → i.source ≠ .unit k

theorem Orderly.nodup_locations (h : us.Orderly) : (us.all.toList.map (·.location)).Nodup := by
  refine List.pairwise_map.2 (List.pairwise_iff_getElem.2 fun i j hi hj hlt hsame => ?_)
  have get : ∀ {i : Nat} (hi : i < us.all.toList.length),
      us.get? ⟨i⟩ = some (us.all.toList.get ⟨i, hi⟩) := fun hi => by
    rw [Units.get?, ← Array.getElem?_toList]
    exact List.getElem?_eq_getElem hi
  have hindex := congrArg UnitId.index (h.location (get hi) (get hj) hsame)
  exact absurd hindex (Nat.ne_of_lt hlt)

/-- What units keep while names are added. -/
structure Grows (us vs : Units) : Prop where
  /-- A unit keeps its location, its imports and its declarations. -/
  unit : ∀ {k U}, us.get? k = some U → ∃ V, vs.get? k = some V ∧ V.location = U.location ∧
    (∀ i ∈ U.imports, i ∈ V.imports) ∧
    ∀ {p : Nat} {d}, U.declarations[p]? = some d → V.declarations[p]? = some d
  /-- A new unit has a declaration. -/
  fresh : ∀ {k V}, vs.get? k = some V → V.declarations = #[] →
    ∃ U, us.get? k = some U ∧ U.declarations = #[]

namespace Grows

theorem refl (us : Units) : us.Grows us where
  unit h := ⟨_, h, rfl, fun _ hi => hi, fun hd => hd⟩
  fresh h hd := ⟨_, h, hd⟩

theorem trans (h : us.Grows vs) (h' : vs.Grows ws) : us.Grows ws where
  unit hU := by
    obtain ⟨V, hV, hl, hi, hd⟩ := h.unit hU
    obtain ⟨W, hW, hl', hi', hd'⟩ := h'.unit hV
    exact ⟨W, hW, hl'.trans hl, fun i him => hi' i (hi i him), fun hp => hd' (hd hp)⟩
  fresh hW hd := by
    obtain ⟨V, hV, hd'⟩ := h'.fresh hW hd
    exact h.fresh hV hd'

end Grows

theorem orderly_empty : ({} : Units).Orderly where
  location h := by simp [get?] at h
  nodup h := by simp [get?] at h
  selfless h := by simp [get?] at h

/-! ## New declarations -/

/-- What a declaration at a location leaves.  The unit is new when the location
is. -/
structure Placed (us : Units) (location : String) (d : Declaration) (k : UnitId)
    (position : Nat) (vs : Units) : Prop where
  /-- The unit as it was, and as it is. -/
  unit : ∃ U, (us.get? k = some U ∨ us.get? k = none ∧ U = { location }) ∧
    U.location = location ∧ U.declarations.size = position ∧ d.name ∉ U.names ∧
    ∀ j, vs.get? j =
      if k = j then some { U with declarations := U.declarations.push d } else us.get? j
  /-- The unit is the only one of the location. -/
  only : ∀ {j V}, us.get? j = some V → V.location = location → j = k

/-- Why a declaration at a location is refused. -/
def RefusesDeclaration (us : Units) (location : String) (d : Declaration) (e : UnitError) : Prop :=
  ∃ k U, us.get? k = some U ∧ U.location = location ∧ e = .nameTaken U.stem d.name ∧
    ((∃ other ∈ U.declarations, other.name = d.name) ∨ ∃ i ∈ U.imports, i.name = d.name)

/-- The unit that a location has once it was asked for. -/
theorem get?_ensure (us : Units) (location : String) :
    ∃ U, (us.get? (us.ensure location).1 = some U ∨
        us.get? (us.ensure location).1 = none ∧ U = { location }) ∧
      U.location = location ∧
      (∀ j, (us.ensure location).2.get? j =
        if (us.ensure location).1 = j then some U else us.get? j) := by
  cases hl : us.find? location with
  | some id =>
    obtain ⟨U, hU, hloc⟩ := get?_of_find? hl
    rw [ensure_of_find? hl]
    refine ⟨U, .inl hU, hloc, fun j => ?_⟩
    split
    · rename_i hsame
      exact hsame ▸ hU
    · rfl
  | none =>
    rw [ensure_of_find?_eq_none hl]
    refine ⟨{ location }, .inr ⟨by simp [get?, size], rfl⟩, rfl, fun j => ?_⟩
    by_cases hj : j.index = us.all.size
    · have : (⟨us.size⟩ : UnitId) = j := by cases j; simpa [size] using hj.symm
      simp [get?, ← this, size]
    · have : (⟨us.size⟩ : UnitId) ≠ j := fun e => hj (by rw [← e]; rfl)
      simp [get?, Array.getElem?_push, hj, this]

/-- The unit that is asked for is the only one of its location. -/
theorem eq_ensure_of_location (hus : us.Orderly) {location : String} {j : UnitId} {V : OutputUnit}
    (hV : us.get? j = some V) (hl : V.location = location) : j = (us.ensure location).1 := by
  cases hfind : us.find? location with
  | some id =>
    obtain ⟨U, hU, hloc⟩ := get?_of_find? hfind
    rw [ensure_of_find? hfind]
    exact hus.location hV hU (hl.trans hloc.symm)
  | none =>
    have hnone : us.all.findIdx? (·.location = location) = none := by simpa [find?] using hfind
    have := Array.findIdx?_eq_none_iff.1 hnone V (Array.mem_of_getElem? hV)
    simp [hl] at this

theorem placed_of_declare (hus : us.Orderly) {location : String} {d : Declaration}
    {position : Nat}
    (h : (us.ensure location).2.declare (us.ensure location).1 d = .ok (position, vs)) :
    us.Placed location d (us.ensure location).1 position vs := by
  obtain ⟨U, hold, hloc, hget⟩ := get?_ensure us location
  refine ⟨⟨U, hold, hloc, ?_⟩, fun hV hl => eq_ensure_of_location hus hV hl⟩
  have hU : (us.ensure location).2.view (us.ensure location).1 = .ok U := by
    rw [view, hget, if_pos rfl]
  simp only [declare, hU, bind, Except.bind] at h
  split at h
  case isTrue => cases h
  case isFalse hfree =>
    cases h
    refine ⟨rfl, ?_, fun j => ?_⟩
    · rw [OutputUnit.mem_names_iff, or_comm]
      rwa [Bool.or_eq_true, OutputUnit.declares_iff, OutputUnit.importsName_iff] at hfree
    · rw [get?_modify, hget]
      split <;> rfl

theorem refuses_of_declare {location : String} {d : Declaration} {e : UnitError}
    (h : (us.ensure location).2.declare (us.ensure location).1 d = .error e) :
    us.RefusesDeclaration location d e := by
  obtain ⟨U, hold, hloc, hget⟩ := get?_ensure us location
  have hU : (us.ensure location).2.view (us.ensure location).1 = .ok U := by
    rw [view, hget, if_pos rfl]
  simp only [declare, hU, bind, Except.bind] at h
  split at h
  case isFalse => cases h
  case isTrue htaken =>
    cases h
    rw [Bool.or_eq_true, OutputUnit.declares_iff, OutputUnit.importsName_iff] at htaken
    rcases hold with hold | ⟨-, rfl⟩
    · exact ⟨_, U, hold, hloc, rfl, htaken⟩
    · simp at htaken

theorem Placed.orderly {location : String} {d : Declaration} {position : Nat} (hus : us.Orderly)
    (h : us.Placed location d k position vs) : vs.Orderly := by
  obtain ⟨⟨U, hold, hloc, -, hfree, hget⟩, honly⟩ := h
  have old : ∀ {j V}, vs.get? j = some V → k ≠ j → us.get? j = some V := by
    intro j V hV hne
    rwa [hget, if_neg hne] at hV
  have new : ∀ {V}, vs.get? k = some V → V = { U with declarations := U.declarations.push d } := by
    intro V hV
    rw [hget, if_pos rfl] at hV
    exact (Option.some.inj hV).symm
  have hUnodup : U.names.Nodup := by
    rcases hold with hold | ⟨-, rfl⟩
    · exact hus.nodup hold
    · exact List.nodup_nil
  exact {
    location := by
      intro i j V W hV hW hsame
      by_cases hi : k = i <;> by_cases hj : k = j
      · exact hi.symm.trans hj
      · subst hi
        rw [new hV] at hsame
        exact absurd (honly (old hW hj) (hsame.symm.trans hloc)).symm hj
      · subst hj
        rw [new hW] at hsame
        exact absurd (honly (old hV hi) (hsame.trans hloc)).symm hi
      · exact hus.location (old hV hi) (old hW hj) hsame
    nodup := by
      intro j V hV
      by_cases hj : k = j
      · subst hj
        rw [new hV, OutputUnit.names_push_declaration]
        refine List.nodup_append.2
          ⟨hUnodup, List.nodup_cons.2 ⟨List.not_mem_nil, List.nodup_nil⟩, ?_⟩
        rintro name hname _ hsingle rfl
        rw [List.mem_singleton.1 hsingle] at hname
        exact hfree hname
      · exact hus.nodup (old hV hj)
    selfless := by
      intro j V i hV hi
      by_cases hj : k = j
      · subst hj
        rw [new hV] at hi
        rcases hold with hold | ⟨-, rfl⟩
        · exact hus.selfless hold hi
        · simp at hi
      · exact hus.selfless (old hV hj) hi }

theorem Placed.grows {location : String} {d : Declaration} {position : Nat}
    (h : us.Placed location d k position vs) : us.Grows vs := by
  obtain ⟨⟨U, hold, -, -, -, hget⟩, -⟩ := h
  exact {
    unit := by
      intro j V hV
      rw [hget]
      by_cases hj : k = j
      · subst hj
        rcases hold with hold | ⟨hnone, -⟩
        · cases hold.symm.trans hV
          refine ⟨_, if_pos rfl, rfl, fun _ hi => hi, fun hp => ?_⟩
          rw [Array.getElem?_push, if_neg]
          · exact hp
          · exact Nat.ne_of_lt (Array.getElem?_eq_some_iff.1 hp).1
        · rw [hnone] at hV
          cases hV
      · exact ⟨V, by rw [if_neg hj, hV], rfl, fun _ hi => hi, fun hp => hp⟩
    fresh := by
      intro j V hV hempty
      rw [hget] at hV
      split at hV
      · cases hV
        simp at hempty
      · exact ⟨V, hV, hempty⟩ }

/-! ## Imports -/

/-- What an import into a unit leaves. -/
inductive Imported (us : Units) (k : UnitId) (i : Import) : Units → Prop
  | self : i.source = .unit k → Imported us k i us
  | known {U : OutputUnit} : us.get? k = some U → i ∈ U.imports → Imported us k i us
  | new {U : OutputUnit} {vs : Units} : us.get? k = some U → i.source ≠ .unit k →
      i.name ∉ U.names →
      (∀ j, vs.get? j = if k = j then some { U with imports := U.imports.push i } else us.get? j) →
      Imported us k i vs

/-- Why an import into a unit is refused. -/
def RefusesImport (us : Units) (k : UnitId) (i : Import) (e : UnitError) : Prop :=
  ∃ U, us.get? k = some U ∧ i.source ≠ .unit k ∧ e = .nameTaken U.stem i.name ∧
    ((∃ d ∈ U.declarations, d.name = i.name) ∨
      ∃ other ∈ U.imports, other.name = i.name ∧ other.source ≠ i.source)

theorem imported_of_addImport {i : Import} (h : us.addImport k i = .ok vs) :
    us.Imported k i vs := by
  unfold addImport at h
  split at h
  case isTrue hself =>
    cases h
    exact .self hself
  case isFalse hself =>
    cases hU : us.get? k with
    | none => simp [view, hU, bind, Except.bind] at h
    | some U =>
      simp only [view, hU, bind, Except.bind] at h
      split at h
      case isTrue => cases h
      case isFalse hfree =>
        rw [Bool.or_eq_true, OutputUnit.declares_iff, OutputUnit.importsElsewhere_iff] at hfree
        split at h
        case isTrue hin =>
          cases h
          exact .known hU hin
        case isFalse hin =>
          cases h
          refine .new hU hself ?_ fun j => ?_
          · rw [OutputUnit.mem_names_iff]
            rintro (⟨other, hother, hname⟩ | hdeclared)
            · by_cases hsource : other.source = i.source
              · have hsame : other = i := by
                  calc other = ⟨other.name, other.source⟩ := rfl
                    _ = ⟨i.name, i.source⟩ := by rw [hname, hsource]
                exact hin (hsame ▸ hother)
              · exact hfree (.inr ⟨other, hother, hname, hsource⟩)
            · exact hfree (.inl hdeclared)
          · rw [get?_modify]
            split
            · rename_i hsame
              rw [← hsame, hU]
              rfl
            · rfl

theorem refuses_of_addImport {i : Import} {U : OutputUnit} {e : UnitError}
    (hU : us.get? k = some U) (h : us.addImport k i = .error e) : us.RefusesImport k i e := by
  unfold addImport at h
  split at h
  case isTrue => cases h
  case isFalse hself =>
    simp only [view, hU, bind, Except.bind] at h
    split at h
    case isTrue htaken =>
      cases h
      rw [Bool.or_eq_true, OutputUnit.declares_iff, OutputUnit.importsElsewhere_iff] at htaken
      exact ⟨U, hU, hself, rfl, htaken⟩
    case isFalse =>
      split at h <;> cases h

/-- What an import leaves at an id. -/
theorem Imported.get? {i : Import} (h : us.Imported k i vs) {j : UnitId} {V : OutputUnit}
    (hV : vs.get? j = some V) : ∃ U, us.get? j = some U ∧ V.location = U.location ∧
      V.declarations = U.declarations ∧ (∀ x ∈ U.imports, x ∈ V.imports) ∧
      ∀ x ∈ V.imports, x ∈ U.imports ∨ j = k ∧ x = i := by
  have same : us.get? j = some V → ∃ U, us.get? j = some U ∧ V.location = U.location ∧
      V.declarations = U.declarations ∧ (∀ x ∈ U.imports, x ∈ V.imports) ∧
      ∀ x ∈ V.imports, x ∈ U.imports ∨ j = k ∧ x = i :=
    fun hV => ⟨V, hV, rfl, rfl, fun _ hx => hx, fun _ hx => .inl hx⟩
  cases h with
  | self => exact same hV
  | known => exact same hV
  | @new U _ hU _ _ hget =>
    rw [hget] at hV
    split at hV
    case isFalse => exact same hV
    case isTrue hj =>
      cases hV
      subst hj
      refine ⟨U, hU, rfl, rfl, fun x hx => Array.mem_push.2 (.inl hx), fun x hx => ?_⟩
      rcases Array.mem_push.1 hx with hold | rfl
      · exact .inl hold
      · exact .inr ⟨rfl, rfl⟩

theorem Imported.mem {i : Import} (h : us.Imported k i vs) (hself : i.source ≠ .unit k) :
    ∃ V, vs.get? k = some V ∧ i ∈ V.imports := by
  cases h with
  | self h => exact absurd h hself
  | known hU hi => exact ⟨_, hU, hi⟩
  | new _ _ _ hget => exact ⟨_, by rw [hget, if_pos rfl], Array.mem_push_self⟩

theorem Imported.orderly {i : Import} (hus : us.Orderly) (h : us.Imported k i vs) :
    vs.Orderly := by
  cases h with
  | self => exact hus
  | known => exact hus
  | @new U _ hU hself hfree hget =>
    have himported : us.Imported k i vs := .new hU hself hfree hget
    exact {
      location := by
        intro a b V W hV hW hsame
        obtain ⟨V', hV', hlV, -⟩ := himported.get? hV
        obtain ⟨W', hW', hlW, -⟩ := himported.get? hW
        exact hus.location hV' hW' (hlV.symm.trans (hsame.trans hlW))
      nodup := by
        intro j V hV
        rw [hget] at hV
        split at hV
        case isFalse => exact hus.nodup hV
        case isTrue hj =>
          cases hV
          rw [(OutputUnit.names_push_import i).nodup_iff]
          exact List.nodup_cons.2 ⟨hfree, hus.nodup hU⟩
      selfless := by
        intro j V x hV hx
        obtain ⟨V', hV', -, -, -, himports⟩ := himported.get? hV
        rcases himports x hx with hold | ⟨rfl, rfl⟩
        · exact hus.selfless hV' hold
        · exact hself }

theorem Imported.grows {i : Import} (h : us.Imported k i vs) : us.Grows vs where
  unit {j V} hV := by
    cases h with
    | self => exact ⟨V, hV, rfl, fun _ hx => hx, fun hp => hp⟩
    | known => exact ⟨V, hV, rfl, fun _ hx => hx, fun hp => hp⟩
    | @new U _ hU _ _ hget =>
      rw [hget]
      by_cases hj : k = j
      · subst hj
        cases hU.symm.trans hV
        exact ⟨_, if_pos rfl, rfl, fun _ hx => Array.mem_push.2 (.inl hx), fun hp => hp⟩
      · exact ⟨V, by rw [if_neg hj, hV], rfl, fun _ hx => hx, fun hp => hp⟩
  fresh hV hempty := by
    obtain ⟨U, hU, -, hd, -⟩ := h.get? hV
    exact ⟨U, hU, by rw [← hd, hempty]⟩

/-! ## New members -/

/-- The unit at an id when a declaration of a unit has new members. -/
def remake (k : UnitId) (position : Nat) (members : List MemberDeclaration) (j : UnitId)
    (U : OutputUnit) : OutputUnit :=
  if k = j then { U with declarations := U.declarations.modify position (·.withMembers members) }
  else U

section Remake

variable (k j : UnitId) (position : Nat) (members : List MemberDeclaration) (U : OutputUnit)

@[simp] theorem remake_location : (remake k position members j U).location = U.location := by
  unfold remake
  split <;> rfl

@[simp] theorem remake_imports : (remake k position members j U).imports = U.imports := by
  unfold remake
  split <;> rfl

theorem remake_declarations : (remake k position members j U).declarations =
    if k = j then U.declarations.modify position (·.withMembers members) else U.declarations := by
  unfold remake
  split <;> rfl

/-- New members keep the names of a unit. -/
@[simp] theorem remake_names : (remake k position members j U).names = U.names := by
  simp only [OutputUnit.names, remake_imports, remake_declarations]
  congr 1
  apply List.ext_getElem?
  intro p
  split
  · simp only [List.getElem?_map, Array.getElem?_toList, Array.getElem?_modify]
    split
    · cases U.declarations[p]? <;> simp
    · rfl
  · rfl

theorem get?_setMembers (us : Units) : (us.setMembers k position members).get? j =
    (us.get? j).map (remake k position members j) := by
  rw [setMembers, get?_modify]
  cases us.get? j with
  | none => split <;> rfl
  | some U =>
    rw [Option.map_some, Option.map_some, remake]
    split <;> rfl

end Remake

/-- A unit with new members is one that was there. -/
theorem get?_of_setMembers {position : Nat} {members : List MemberDeclaration} {j : UnitId}
    {V : OutputUnit} (h : (us.setMembers k position members).get? j = some V) :
    ∃ U, us.get? j = some U ∧ remake k position members j U = V := by
  rw [get?_setMembers] at h
  exact Option.map_eq_some_iff.1 h

theorem get?_setMembers_of_get? {j : UnitId} {U : OutputUnit} (h : us.get? j = some U)
    (position : Nat) (members : List MemberDeclaration) :
    (us.setMembers k position members).get? j = some (remake k position members j U) := by
  rw [get?_setMembers, h, Option.map_some]

theorem orderly_setMembers (hus : us.Orderly) (position : Nat)
    (members : List MemberDeclaration) : (us.setMembers k position members).Orderly where
  location hV hW hsame := by
    obtain ⟨V, hold, rfl⟩ := get?_of_setMembers hV
    obtain ⟨W, hold', rfl⟩ := get?_of_setMembers hW
    rw [remake_location, remake_location] at hsame
    exact hus.location hold hold' hsame
  nodup hV := by
    obtain ⟨V, hold, rfl⟩ := get?_of_setMembers hV
    rw [remake_names]
    exact hus.nodup hold
  selfless hV hi := by
    obtain ⟨V, hold, rfl⟩ := get?_of_setMembers hV
    rw [remake_imports] at hi
    exact hus.selfless hold hi

end Units

end TypeExport
