import Mathlib.Logic.ExistsUnique
import TypeExport.Proofs.Ends
import TypeExport.Proofs.Output.Registry

/-!
# Histories of a registry

A registry changes by three operations: asking for the unit at a location,
importing a name and adding a declaration.  A unit may refuse a name, and an
operation on an id that was never issued fails.  Whatever the operations are
and however they end, the registry is orderly, and what it had before stands
first in what it has later (`Units.orderly_registryAfter`).

The operations are the steps of a run, so a failure could leave a state that is
half changed.  `Units.Operation.ends_perform` says that it does not.
-/

namespace TypeExport

/-- What a unit keeps while names are added. -/
structure OutputUnit.Precedes (U V : OutputUnit) : Prop where
  location : V.location = U.location
  imports : U.imports.toList <+: V.imports.toList
  declarations : U.declarations.toList <+: V.declarations.toList

namespace OutputUnit.Precedes

variable {U V W : OutputUnit}

theorem refl (U : OutputUnit) : U.Precedes U := ⟨rfl, List.prefix_rfl, List.prefix_rfl⟩

theorem trans (h : U.Precedes V) (h' : V.Precedes W) : U.Precedes W :=
  ⟨h'.location.trans h.location, h.imports.trans h'.imports,
    h.declarations.trans h'.declarations⟩

end OutputUnit.Precedes

namespace Units

variable {us vs ws : Units} {k : UnitId} {U W : OutputUnit} {location : String}

/-- Whether every unit of a registry stands at its id in another, with what it
had in front. -/
structure Precedes (us vs : Units) : Prop where
  unit : ∀ {k U}, us.get? k = some U → ∃ V, vs.get? k = some V ∧ U.Precedes V

namespace Precedes

theorem refl (us : Units) : us.Precedes us := ⟨fun hU => ⟨_, hU, .refl _⟩⟩

theorem trans (h : us.Precedes vs) (h' : vs.Precedes ws) : us.Precedes ws where
  unit hU := by
    obtain ⟨V, hV, hUV⟩ := h.unit hU
    obtain ⟨W, hW, hVW⟩ := h'.unit hV
    exact ⟨W, hW, hUV.trans hVW⟩

/-- One unit that only grows. -/
theorem of_get? (hget : ∀ j, vs.get? j = if k = j then some W else us.get? j)
    (hW : ∀ U, us.get? k = some U → U.Precedes W) : us.Precedes vs where
  unit {j U} hU := by
    rw [hget]
    split
    · rename_i hj
      exact ⟨W, rfl, hW U (hj ▸ hU)⟩
    · exact ⟨U, hU, .refl U⟩

end Precedes

/-! ## Operations -/

/-- What a registry is asked for. -/
inductive Operation where
  /-- The unit at a location. -/
  | unitAt (location : String)
  /-- An import into a unit. -/
  | addImport (into : UnitId) (i : Import)
  /-- A declaration in a unit. -/
  | declare (into : UnitId) (d : Declaration)
  deriving Repr

/-- The steps of an operation. -/
def Operation.perform : Operation → Run Unit
  | .unitAt location => do let _ ← Run.unitAt location
  | .addImport into i => Run.addImport into i
  | .declare into d => do let _ ← Run.declare into d

/-- Whether a registry has what an operation asks for. -/
def Operation.Done (us : Units) : Operation → Prop
  | .unitAt location => ∃ k U, us.get? k = some U ∧ U.location = location
  | .addImport into i => i.source ≠ .unit into → ∃ U, us.get? into = some U ∧ i ∈ U.imports
  | .declare into d => ∃ U, us.get? into = some U ∧ d ∈ U.declarations

/-- What an operation does to an orderly registry. -/
structure Changes (us vs : Units) : Prop where
  orderly : vs.Orderly
  precedes : us.Precedes vs

theorem Orderly.changes (h : us.Orderly) : us.Changes us := ⟨h, .refl us⟩

/-- Asking for the location of a unit gives its id, and changes nothing. -/
theorem Orderly.ensure_eq (h : us.Orderly) (hU : us.get? k = some U) :
    us.ensure U.location = (k, us) := by
  cases hfind : us.find? U.location with
  | some j =>
    obtain ⟨V, hV, hloc⟩ := get?_of_find? hfind
    rw [ensure_of_find? hfind, h.location hV hU hloc]
  | none =>
    have hnone : us.all.findIdx? (·.location = U.location) = none := by
      simpa [find?] using hfind
    have hne := Array.findIdx?_eq_none_iff.1 hnone U (Array.mem_of_getElem? hU)
    simp at hne

theorem Orderly.ensure (h : us.Orderly) (location : String) :
    us.Changes (us.ensure location).2 := by
  obtain ⟨U, hold, hloc, hget⟩ := get?_ensure us location
  have only : ∀ {j V}, us.get? j = some V → V.location = location →
      j = (us.ensure location).1 := fun hV hl => eq_ensure_of_location h hV hl
  -- the unit is there already, or it is empty
  have hU : U.names.Nodup ∧ ∀ i ∈ U.imports, i.source ≠ .unit (us.ensure location).1 := by
    rcases hold with hold | ⟨-, rfl⟩
    · exact ⟨h.nodup hold, fun i hi => h.selfless hold hi⟩
    · exact ⟨List.nodup_nil, by simp⟩
  constructor
  · exact {
      location := by
        intro i j V W hV hW hsame
        rw [hget] at hV hW
        split at hV <;> split at hW
        · rename_i hi hj
          exact hi.symm.trans hj
        · rename_i hi _
          cases hV
          exact hi.symm.trans (only hW (hsame.symm.trans hloc)).symm
        · rename_i _ hj
          cases hW
          exact (only hV (hsame.trans hloc)).trans hj
        · exact h.location hV hW hsame
      nodup := by
        intro j V hV
        rw [hget] at hV
        split at hV
        · cases hV
          exact hU.1
        · exact h.nodup hV
      selfless := by
        intro j V i hV hi
        rw [hget] at hV
        split at hV
        · rename_i hj
          cases hV
          exact hj ▸ hU.2 i hi
        · exact h.selfless hV hi }
  · refine .of_get? hget fun V hV => ?_
    rcases hold with hold | ⟨hnone, -⟩
    · cases hold.symm.trans hV
      exact .refl U
    · cases hnone.symm.trans hV

/-- A declaration that a unit accepts is placed at the location of the unit. -/
theorem Orderly.placed_of_declare (h : us.Orderly) {d : Declaration} {position : Nat}
    (hd : us.declare k d = .ok (position, vs)) :
    ∃ U, us.get? k = some U ∧ us.Placed U.location d k position vs := by
  cases hU : us.get? k with
  | none => simp [Units.declare, view, hU, bind, Except.bind] at hd
  | some U =>
    have hensure := h.ensure_eq hU
    have hd' : (us.ensure U.location).2.declare (us.ensure U.location).1 d =
        .ok (position, vs) := by
      rw [hensure]
      exact hd
    have hplaced := Units.placed_of_declare h hd'
    rw [hensure] at hplaced
    exact ⟨U, rfl, hplaced⟩

theorem Placed.mem {d : Declaration} {position : Nat}
    (h : us.Placed location d k position vs) : ∃ U, vs.get? k = some U ∧ d ∈ U.declarations := by
  obtain ⟨⟨U, -, -, -, -, hget⟩, -⟩ := h
  exact ⟨_, by rw [hget, if_pos rfl], Array.mem_push_self⟩

theorem Placed.precedes {d : Declaration} {position : Nat}
    (h : us.Placed location d k position vs) : us.Precedes vs := by
  obtain ⟨⟨U, hold, -, -, -, hget⟩, -⟩ := h
  refine .of_get? hget fun V hV => ?_
  rcases hold with hold | ⟨hnone, -⟩
  · cases hold.symm.trans hV
    exact ⟨rfl, List.prefix_rfl, by simp⟩
  · cases hnone.symm.trans hV

theorem Imported.precedes {i : Import} (h : us.Imported k i vs) : us.Precedes vs := by
  cases h with
  | self => exact .refl us
  | known => exact .refl us
  | new hU _ _ hget =>
    refine .of_get? hget fun V hV => ?_
    cases hU.symm.trans hV
    exact ⟨rfl, by simp, List.prefix_rfl⟩

/-! ## One operation -/

/-- An operation adds to an orderly registry what it is asked for, or fails and
leaves it as it was. -/
theorem Operation.ends_perform (op : Operation) {st : State} (h : st.units.Orderly) :
    Ends op.perform st (fun _ st' => st.units.Changes st'.units ∧ op.Done st'.units)
      fun _ st' => st'.units = st.units := by
  cases op with
  | unitAt location =>
    obtain ⟨U, hU, hloc⟩ := get?_of_find? (find?_ensure st.units location)
    exact ⟨h.ensure location, _, U, hU, hloc⟩
  | addImport into i =>
    refine ends_bind.2 (ends_get.2 ?_)
    split
    · rename_i units hadd
      have himported := imported_of_addImport hadd
      exact ends_modify.2 ⟨⟨himported.orderly h, himported.precedes⟩, himported.mem⟩
    · exact ends_throw.2 rfl
  | declare into d =>
    refine ends_bind.2 (ends_bind.2 (ends_get.2 ?_))
    split
    · rename_i position units hdeclare
      obtain ⟨U, -, hplaced⟩ := h.placed_of_declare hdeclare
      exact ⟨⟨hplaced.orderly h, hplaced.precedes⟩, hplaced.mem⟩
    · exact ends_throw.2 rfl

theorem Operation.changes (op : Operation) {st : State} (h : st.units.Orderly) :
    st.units.Changes (leaves op.perform st).units :=
  Ends.leaves (p := fun st' => st.units.Changes st'.units)
    ((op.ends_perform h).mono (fun _ _ hc => hc.1) fun _ _ hsame => hsame ▸ h.changes)

/-! ## Histories -/

/-- The state that operations leave, each succeeding or failing. -/
def history (st : State) (ops : List Operation) : State :=
  ops.foldl (fun st op => leaves op.perform st) st

/-- The registry after operations on the empty one. -/
def registryAfter (ops : List Operation) : Units := (history {} ops).units

theorem orderly_initial : ({} : State).units.Orderly := orderly_empty

theorem history_append (st : State) (ops more : List Operation) :
    history st (ops ++ more) = history (history st ops) more := List.foldl_append

theorem changes_history {st : State} (h : st.units.Orderly) (ops : List Operation) :
    st.units.Changes (history st ops).units := by
  induction ops generalizing st with
  | nil => exact h.changes
  | cons op ops ih =>
    have first := op.changes h
    have rest := ih first.orderly
    exact ⟨rest.orderly, first.precedes.trans rest.precedes⟩

/-- A location that was asked for has a unit from then on. -/
theorem exists_unit_of_mem {st : State} (h : st.units.Orderly) {ops : List Operation}
    (hmem : .unitAt location ∈ ops) :
    ∃ k U, (history st ops).units.get? k = some U ∧ U.location = location := by
  induction ops generalizing st with
  | nil => cases hmem
  | cons op ops ih =>
    have first := op.changes h
    rcases List.mem_cons.1 hmem with rfl | hrest
    · obtain ⟨U, hU, hloc⟩ := get?_of_find? (find?_ensure st.units location)
      obtain ⟨V, hV, hUV⟩ := (changes_history first.orderly ops).precedes.unit hU
      exact ⟨_, V, hV, hUV.location.trans hloc⟩
    · exact ih first.orderly hrest

/-- After any operations the registry is orderly, and what it has stands first
in what more operations leave.  A location that was asked for has one unit,
whose id it is given again.  An operation that succeeds leaves what it asks for,
and one that fails changes nothing. -/
theorem orderly_registryAfter (ops : List Operation) :
    (registryAfter ops).Orderly ∧
      (∀ location, .unitAt location ∈ ops →
        ∃! k, ∃ U, (registryAfter ops).get? k = some U ∧ U.location = location) ∧
      (∀ k U, (registryAfter ops).get? k = some U →
        (registryAfter ops).ensure U.location = (k, registryAfter ops)) ∧
      (∀ more, (registryAfter ops).Precedes (registryAfter (ops ++ more))) ∧
      ∀ op : Operation, (∀ st, op.perform (history {} ops) = .ok () st → op.Done st.units) ∧
        ∀ e st, op.perform (history {} ops) = .error e st → st.units = registryAfter ops := by
  have orderly := (changes_history orderly_initial ops).orderly
  refine ⟨orderly, fun location hmem => ?_, fun k U hU => orderly.ensure_eq hU, fun more => ?_,
    fun op => ⟨fun st hok => ((op.ends_perform orderly).good_of_eq hok).2,
      fun e st hfail => (op.ends_perform orderly).bad_of_eq hfail⟩⟩
  · obtain ⟨k, U, hU, hloc⟩ := exists_unit_of_mem orderly_initial hmem
    refine ⟨k, ⟨U, hU, hloc⟩, ?_⟩
    rintro j ⟨V, hV, hloc'⟩
    exact orderly.location hV hU (hloc'.trans hloc.symm)
  · rw [registryAfter, registryAfter, history_append]
    exact (changes_history orderly more).precedes

/-- Whether an operation fails. -/
def Operation.fails (op : Operation) (st : State) : Bool :=
  match op.perform st with
  | .ok .. => false
  | .error .. => true

theorem Operation.exists_error {op : Operation} {st : State} (h : op.fails st = true) :
    ∃ e st', op.perform st = .error e st' := by
  unfold fails at h
  split at h
  · cases h
  · rename_i e st' hfail
    exact ⟨e, st', hfail⟩

/-- A unit that declares a name, and another that imports it. -/
def shared : List Operation :=
  [.unitAt "a", .declare ⟨0⟩ (.enumeration "T" []), .unitAt "b", .addImport ⟨1⟩ ⟨"T", .unit ⟨0⟩⟩]

/-- Both units refuse the name a second time, and stay as they were. -/
theorem orderly_registryAfter_shared : (registryAfter shared).Orderly ∧
    .unitAt "b" ∈ shared ∧ (∃! k, ∃ U, (registryAfter shared).get? k = some U ∧ U.location = "b") ∧
    ∀ op ∈ [.addImport ⟨0⟩ ⟨"T", .external "m"⟩, .declare ⟨1⟩ (.enumeration "T" ["x"])],
      ∃ e st, Operation.perform op (history {} shared) = .error e st ∧
        st.units = registryAfter shared := by
  obtain ⟨orderly, unique, -, -, kept⟩ := orderly_registryAfter shared
  have hmem : .unitAt "b" ∈ shared := by simp [shared]
  refine ⟨orderly, hmem, unique "b" hmem, fun op hop => ?_⟩
  have hfails : op.fails (history {} shared) = true := by
    revert op
    decide +kernel
  obtain ⟨e, st, hfail⟩ := Operation.exists_error hfails
  exact ⟨e, st, hfail, (kept op).2 e st hfail⟩

end Units

end TypeExport
