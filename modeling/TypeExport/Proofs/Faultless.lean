import TypeExport.Proofs.Calls
import TypeExport.Proofs.Outcome

/-!
# Runs without faults

A run ends, whatever cycles the members of its types form.  It uses no id and
no position that does not exist, it finds every type with the structure that it
needs, unless a root is an open container, and it makes no more passes than
there are types (`Setup.faultless_units`).

A model that runs out of depth or of passes says so with a fault, so that there
is no fault also says that the depth and the passes suffice.
-/

namespace TypeExport

namespace Setup

variable {s : Setup} {r : Rules} {e : RunError}

/-- Whether an error is no broken promise, and blames the structure of a type
only for a root that is an open container and not redirected. -/
structure Faultless (s : Setup) (e : RunError) : Prop where
  /-- Every type id and every position exists, and the descent ends. -/
  fault : ∀ cause, e ≠ .fault cause
  /-- Every unit id exists. -/
  unit : ∀ k, e ≠ .unit (.foreignUnit k)
  /-- Every type has the structure it is used with. -/
  shape : ∀ cause, e = .shape cause → ∃ t ∈ s.roots, ∃ d, s.types.get? t = some d ∧
    s.Treats t .container ∧ cause = .openContainer d.key

theorem faultless_ambiguous (key : String) (kinds : List RuleKind) :
    s.Faultless (.ambiguous key kinds) :=
  ⟨by simp, by simp, by simp⟩

/-- What is to blame for a failure is no fault. -/
theorem Blames.faultless (h : s.Governed r) (he : s.Blames e) : s.Faultless e := by
  cases he with
  | misconfigured | member | clash => exact ⟨by simp, by simp, by simp⟩
  | @location t d _ _ _ he =>
    rw [h.location] at he
    rcases r.location_cases s.types d with ⟨-, location, hok⟩ | ⟨-, kinds, herror⟩
    · cases he.symm.trans hok
    · cases he.symm.trans herror
      exact faultless_ambiguous d.key kinds
  | @override t d _ _ _ he =>
    rw [h.override] at he
    rcases Rules.override_cases h.behaviours d with ⟨-, hok⟩ | ⟨rule, -, hok⟩ | ⟨-, kinds, herror⟩
    · cases he.symm.trans hok
    · cases he.symm.trans hok
    · cases he.symm.trans herror
      exact faultless_ambiguous d.key kinds
  | @container t d ht hd htreats =>
    refine ⟨by simp, by simp, ?_⟩
    rintro cause ⟨⟩
    exact ⟨t, ht, d, hd, htreats, rfl⟩

/-- The state in which a run ends proceeds from the empty one. -/
theorem proceeds_finalState (L : s.Lawful) : s.Proceeds {} s.finalState.2 := by
  have ends := ends_build_settles L tidy_empty
  unfold finalState
  cases hrun : s.build {} with
  | ok _ st =>
    rw [EStateM.run, hrun]
    exact (ends.good_of_eq hrun).proceeds
  | error e st =>
    rw [EStateM.run, hrun]
    exact ends.bad_of_eq hrun

/-- A run succeeds in a state that is finished and tidy. -/
theorem finished_of_finalState (L : s.Lawful) {st : State} (h : s.finalState = (none, st)) :
    s.build {} = .ok () st ∧ s.Finished st ∧ s.Tidy st := by
  have htidy := (proceeds_finalState L).tidy
  rw [h] at htidy
  unfold finalState EStateM.run at h
  cases hrun : s.build {} with
  | ok _ st₁ =>
    rw [hrun] at h
    cases h
    exact ⟨rfl, (ends_build L).good_of_eq hrun, htidy⟩
  | error e st₁ =>
    rw [hrun] at h
    cases h

/-- Passes that have ended and contexts that are incomplete are together no more
than there are types.  A pass that has begun and not ended leaves the context at
which it failed incomplete. -/
theorem passed_add_incomplete_le (L : s.Lawful) :
    s.finalState.2.passed + s.finalState.2.incomplete.length ≤ s.types.size := by
  have h := proceeds_finalState L
  have hpassed : s.finalState.2.passed ≤ (builtTypes s.finalState.2).length := by
    simpa [State.passed, builtTypes] using h.passed
  calc s.finalState.2.passed + s.finalState.2.incomplete.length
      ≤ (builtTypes s.finalState.2).length + s.finalState.2.incomplete.length := by omega
    _ = s.finalState.2.contexts.size := length_builtTypes_add _
    _ ≤ s.types.size := length_contexts_le h.tidy.distinct h.tidy.issued

/-- A run ends without a fault, and makes no more passes than there are types. -/
theorem faultless_units (h : s.Governed r) : (∀ e, s.units = .error e → s.Faultless e) ∧
    s.finalState.2.passed + s.finalState.2.incomplete.length ≤ s.types.size :=
  ⟨fun _ he => (blames_of_units h.lawful he).faultless h, passed_add_incomplete_le h.lawful⟩

/-- The run on a shop makes no more passes than there are types. -/
theorem faultless_units_shop : shop.Governed shopRules ∧ (∃ us, shop.units = .ok us) ∧
    shop.finalState.2.passed + shop.finalState.2.incomplete.length ≤ shop.types.size := by
  obtain ⟨us, hus, -⟩ := exists_shop_units
  exact ⟨shop_governed, ⟨us, hus⟩, (faultless_units shop_governed).2⟩

/-! ## An open root -/

theorem openCrate_units :
    (match openCrate.units with
      | .error (.shape (.openContainer key)) => some key
      | _ => none) = some "System.Collections.Generic.List`1" := by
  decide +kernel

/-- A run from an open list blames the structure of a type. -/
theorem exists_shape_openCrate : openCrate.Governed {} ∧
    ∃ key, openCrate.units = .error (.shape (.openContainer key)) := by
  refine ⟨openCrate_governed, "System.Collections.Generic.List`1", ?_⟩
  have h := openCrate_units
  split at h
  · rename_i key hunits
    rw [hunits, Option.some.inj h]
  · cases h

end Setup

end TypeExport
