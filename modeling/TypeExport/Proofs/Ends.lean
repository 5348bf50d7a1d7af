import TypeExport.Run.State
import TypeExport.Universe.Builder

/-!
# How steps end

The steps that build a universe and the steps of a run are programs over a
state.  They may fail, and what they reached before stays.  `Ends x s good bad`
says of a step `x` that starts in `s` what holds when it ends: `good` of its
result and the state it leaves when it succeeds, `bad` of its error and that
state when it fails.

The equations below push `Ends` through the parts of a step.  What a function
does is stated once, as an `Ends`, and its callers continue from there by
`Ends.mono`.  What is said of the state alone holds of the state that the step
leaves (`Ends.leaves`).
-/

namespace TypeExport

variable {ε σ α β : Type}

instance instDecidableEqResult [DecidableEq ε] [DecidableEq σ] [DecidableEq α] :
    DecidableEq (EStateM.Result ε σ α)
  | .ok a s, .ok b t => decidable_of_iff (a = b ∧ s = t) (by simp)
  | .error e s, .error f t => decidable_of_iff (e = f ∧ s = t) (by simp)
  | .ok .., .error .. => isFalse (by simp)
  | .error .., .ok .. => isFalse (by simp)

/-- What holds when a step ends. -/
def Ends (x : EStateM ε σ α) (s : σ) (good : α → σ → Prop) (bad : ε → σ → Prop) : Prop :=
  match x s with
  | .ok a t => good a t
  | .error e t => bad e t

/-- The state that a step leaves, whether it succeeds or fails. -/
def leaves (x : EStateM ε σ α) (s : σ) : σ :=
  match x s with
  | .ok _ t => t
  | .error _ t => t

section Laws

variable {good good' : α → σ → Prop} {bad bad' : ε → σ → Prop} {s : σ}

@[simp] theorem ends_pure {a : α} : Ends (pure a : EStateM ε σ α) s good bad ↔ good a s := Iff.rfl

@[simp] theorem ends_throw {e : ε} : Ends (throw e : EStateM ε σ α) s good bad ↔ bad e s := Iff.rfl

@[simp] theorem ends_bind {x : EStateM ε σ β} {f : β → EStateM ε σ α} :
    Ends (x >>= f) s good bad ↔ Ends x s (fun b t => Ends (f b) t good bad) bad := by
  simp only [Ends, bind, EStateM.bind]
  cases x s <;> exact Iff.rfl

@[simp] theorem ends_get {good : σ → σ → Prop} :
    Ends (get : EStateM ε σ σ) s good bad ↔ good s s := Iff.rfl

@[simp] theorem ends_modify {good : PUnit → σ → Prop} {f : σ → σ} :
    Ends (modify f : EStateM ε σ PUnit) s good bad ↔ good ⟨⟩ (f s) := Iff.rfl

@[simp] theorem ends_modifyGet {f : σ → α × σ} :
    Ends (modifyGet f : EStateM ε σ α) s good bad ↔ good (f s).1 (f s).2 := Iff.rfl

/-- What holds in the end may be weakened. -/
theorem Ends.mono {x : EStateM ε σ α} (h : Ends x s good bad) (hg : ∀ a t, good a t → good' a t)
    (hb : ∀ e t, bad e t → bad' e t) : Ends x s good' bad' := by
  unfold Ends at h ⊢
  cases hx : x s with
  | ok a t =>
    rw [hx] at h
    exact hg a t h
  | error e t =>
    rw [hx] at h
    exact hb e t h

/-- Two things hold in the end. -/
theorem Ends.and {x : EStateM ε σ α} (h : Ends x s good bad) (h' : Ends x s good' bad') :
    Ends x s (fun a t => good a t ∧ good' a t) fun e t => bad e t ∧ bad' e t := by
  unfold Ends at h h' ⊢
  cases hx : x s with
  | ok a t =>
    rw [hx] at h h'
    exact ⟨h, h'⟩
  | error e t =>
    rw [hx] at h h'
    exact ⟨h, h'⟩

/-- A step that is known to succeed. -/
theorem Ends.good_of_eq {x : EStateM ε σ α} {a : α} {t : σ} (h : Ends x s good bad)
    (hx : x s = .ok a t) : good a t := by
  simpa only [Ends, hx] using h

/-- A step that is known to fail. -/
theorem Ends.bad_of_eq {x : EStateM ε σ α} {e : ε} {t : σ} (h : Ends x s good bad)
    (hx : x s = .error e t) : bad e t := by
  simpa only [Ends, hx] using h

/-- What is left in both outcomes. -/
theorem Ends.leaves {x : EStateM ε σ α} {p : σ → Prop} (h : Ends x s (fun _ => p) fun _ => p) :
    p (leaves x s) := by
  unfold Ends at h
  unfold TypeExport.leaves
  cases hx : x s with
  | ok a t =>
    rw [hx] at h
    exact h
  | error e t =>
    rw [hx] at h
    exact h

/-- A step that never fails. -/
theorem Ends.exists_ok {x : EStateM ε σ α} (h : Ends x s good fun _ _ => False) :
    ∃ a t, x s = .ok a t ∧ good a t := by
  unfold Ends at h
  cases hx : x s with
  | ok a t =>
    rw [hx] at h
    exact ⟨a, t, rfl, h⟩
  | error e t =>
    rw [hx] at h
    exact h.elim

end Laws

/-- A step that succeeds goes on from where it ends. -/
theorem bind_of_eq_ok {x : EStateM ε σ β} {f : β → EStateM ε σ α} {s t : σ} {b : β}
    (h : x s = .ok b t) : (x >>= f) s = f b t := by
  simp only [bind, EStateM.bind, h]

/-- A step that fails goes no further. -/
theorem bind_of_eq_error {x : EStateM ε σ β} {f : β → EStateM ε σ α} {s t : σ} {e : ε}
    (h : x s = .error e t) : (x >>= f) s = .error e t := by
  simp only [bind, EStateM.bind, h]

/-- A step that succeeds leaves what the next one leaves. -/
theorem leaves_bind_of_eq_ok {x : EStateM ε σ β} {f : β → EStateM ε σ α} {s t : σ} {b : β}
    (h : x s = .ok b t) : leaves (x >>= f) s = leaves (f b) t := by
  unfold leaves
  rw [bind_of_eq_ok h]

/-- Two steps that succeed, the second from where the first ends. -/
theorem bind_eq_ok_iff {x : EStateM ε σ β} {f : β → EStateM ε σ α} {s t : σ} {a : α} :
    (x >>= f) s = .ok a t ↔ ∃ b m, x s = .ok b m ∧ f b m = .ok a t := by
  simp only [bind, EStateM.bind]
  cases x s with
  | ok b m =>
    constructor
    · intro h
      exact ⟨b, m, rfl, h⟩
    · rintro ⟨b', m', hx, hf⟩
      cases hx
      exact hf
  | error e m => simp

/-- A step that fails, or that succeeds in front of one that fails. -/
theorem bind_eq_error_iff {x : EStateM ε σ β} {f : β → EStateM ε σ α} {s t : σ} {e : ε} :
    (x >>= f) s = .error e t ↔ x s = .error e t ∨ ∃ b m, x s = .ok b m ∧ f b m = .error e t := by
  simp only [bind, EStateM.bind]
  cases x s with
  | ok b m =>
    constructor
    · intro h
      exact .inr ⟨b, m, rfl, h⟩
    · rintro (h | ⟨b', m', hx, hf⟩)
      · cases h
      · cases hx
        exact hf
  | error e' m => simp

end TypeExport
