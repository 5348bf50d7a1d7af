import TypeExport.Proofs.Run.Choosing

/-!
# Requests that a step makes

A step of a run is written against a toolkit.  Whether it makes a request in a
state is told from outside: a toolkit that stops the run at this request then
stops the step (`Makes`).

A step relays errors about competing rules when it fails with such an error only
as a request failed that it makes, apart from errors of its own (`Relays`).  This
is said of steps in all toolkits at once, and steps that do so are composed of
steps that do so.  The programs of hooks that do not invent such an error are
among them (`Program.Relays`).
-/

namespace TypeExport

variable {α β : Type}

/-! ## Requests -/

namespace Toolkit

variable (t : Toolkit) (q q' : Request) (st st' : State) (e : RunError)

open Classical in
/-- The toolkit that fails with an error when it gets a request in a state. -/
noncomputable def refusing : Toolkit where
  types := t.types
  options := t.options
  resolve type st' := if .resolve type = q ∧ st' = st then .error e st' else t.resolve type st'
  reference unit attributes type st' :=
    if .reference unit attributes type = q ∧ st' = st then .error e st'
    else t.reference unit attributes type st'
  resolveMember unit owner m st' :=
    if .member unit owner m = q ∧ st' = st then .error e st' else t.resolveMember unit owner m st'
  build st' := if .build = q ∧ st' = st then .error e st' else t.build st'

theorem answer_refusing_self : (t.refusing q st e).answer q st = .error e st := by
  cases q <;> exact if_pos ⟨rfl, rfl⟩

/-- All other requests are answered as before. -/
theorem answer_refusing (h : ¬ (q' = q ∧ st' = st)) :
    (t.refusing q st e).answer q' st' = t.answer q' st' := by
  cases q' <;> exact if_neg h

end Toolkit

theorem RunError.not_isAmbiguous_of_stopsRun {e : RunError} (h : e.stopsRun = true) :
    ¬ e.IsAmbiguous := by
  cases e with
  | ambiguous => cases h
  | _ => exact id

/-- Whether a step that starts in a state makes a request in a state: an error that
stops the run there is the error of the step. -/
def Makes (f : Toolkit → Run α) (t : Toolkit) (st : State) (q : Request) (st' : State) : Prop :=
  ∀ e : RunError, e.stopsRun = true → f (t.refusing q st' e) st = .error e st'

/-- Whether it makes no difference to a step that a request is refused, unless this
stops the step. -/
def Steady (f : Toolkit → Run α) : Prop :=
  ∀ t q st' e, e.stopsRun = true → ∀ st,
    f (t.refusing q st' e) st = f t st ∨ f (t.refusing q st' e) st = .error e st'

/-- Whether a step fails because rules compete only with an error of its own, or as
a request failed that it makes. -/
structure Relays (own : RunError → Prop) (f : Toolkit → Run α) : Prop where
  steady : Steady f
  relays : ∀ {t st e st'}, f t st = .error e st' → e.IsAmbiguous → own e ∨
    ∃ q st₁ st₂, Makes f t st q st₁ ∧ t.answer q st₁ = .error e st₂

variable {own : RunError → Prop} {f : Toolkit → Run α} {g : α → Toolkit → Run β}
  {t : Toolkit} {st st' st₁ : State} {q : Request} {a : α} {x : Run α} {e : RunError}

/-! ## Composed steps -/

namespace Steady

theorem answer (q : Request) : Steady fun t => t.answer q := by
  intro t q' st' e _ st
  by_cases h : q = q' ∧ st = st'
  · obtain ⟨rfl, rfl⟩ := h
    exact .inr (t.answer_refusing_self q st e)
  · exact .inl (t.answer_refusing q' q st' st e h)

/-- What the second step makes is made when the first step succeeds. -/
theorem makes_bind (h : Steady f) (hok : f t st = .ok a st₁) (hg : Makes (g a) t st₁ q st') :
    Makes (fun t => f t >>= fun a => g a t) t st q st' := by
  intro e he
  rcases h t q st' e he st with hsame | hstops
  · exact (bind_of_eq_ok (hsame.trans hok)).trans (hg e he)
  · exact bind_of_eq_error hstops

theorem bind (hf : Steady f) (hg : ∀ a, Steady (g a)) :
    Steady fun t => f t >>= fun a => g a t := by
  intro t q st' e he st
  rcases hf t q st' e he st with hsame | hstops
  · cases hrun : f t st with
    | ok a st₁ =>
      have hrun' := bind_of_eq_ok (f := fun a => g a (t.refusing q st' e)) (hsame.trans hrun)
      have hrun := bind_of_eq_ok (f := fun a => g a t) hrun
      exact (hg a t q st' e he st₁).imp (fun h => hrun'.trans (h.trans hrun.symm)) hrun'.trans
    | error e₁ st₁ =>
      exact .inl ((bind_of_eq_error (hsame.trans hrun)).trans (bind_of_eq_error hrun).symm)
  · exact .inr (bind_of_eq_error hstops)

end Steady

namespace Relays

/-- A step that makes no requests. -/
theorem alone (hf : ∀ t q st e, f (t.refusing q st e) = f t)
    (h : ∀ t st, Ends (f t) st (fun _ _ => True) fun e _ => e.IsAmbiguous → own e) :
    Relays own f where
  steady t q st' e _ st := .inl (congrFun (hf t q st' e) st)
  relays herror hambiguous := .inl ((h _ _).bad_of_eq herror hambiguous)

/-- A step that has no toolkit. -/
theorem const (h : ∀ st, Ends x st (fun _ _ => True) fun e _ => e.IsAmbiguous → own e) :
    Relays own fun _ => x :=
  alone (fun _ _ _ _ => rfl) fun _ => h

theorem of_isOwn (h : x.IsOwn) : Relays own fun _ => x :=
  const fun st => (h st).mono (fun _ _ _ => trivial) fun _ _ he hambiguous =>
    absurd hambiguous he.2

theorem pure (a : α) : Relays own fun _ => (Pure.pure a : Run α) := of_isOwn (.pure a)

theorem throw (h : ¬ e.IsAmbiguous) : Relays own fun _ => (MonadExcept.throw e : Run α) :=
  of_isOwn (.throw h)

theorem ask (answer : Except Fault α) : Relays own fun _ => Run.ask answer :=
  of_isOwn (.ask answer)

/-- A request is relayed. -/
theorem answer (q : Request) : Relays own fun t => t.answer q where
  steady := .answer q
  relays {t st _ st'} herror _ :=
    .inr ⟨q, st, st', fun e _ => t.answer_refusing_self q st e, herror⟩

theorem resolve (type : TypeId) : Relays own fun t => t.resolve type := answer (.resolve type)

theorem reference (unit : UnitId) (attributes : Option Attributes) (type : TypeId) :
    Relays own fun t => t.reference unit attributes type :=
  answer (.reference unit attributes type)

theorem bind (hf : Relays own f) (hg : ∀ a, Relays own (g a)) :
    Relays own fun t => f t >>= fun a => g a t where
  steady := hf.steady.bind fun a => (hg a).steady
  relays {t st e st'} herror hambiguous := by
    cases hrun : f t st with
    | ok a st₁ =>
      have herror : g a t st₁ = .error e st' := (bind_of_eq_ok hrun).symm.trans herror
      refine ((hg a).relays herror hambiguous).imp_right ?_
      rintro ⟨q, st₂, st₃, hmakes, hanswer⟩
      exact ⟨q, st₂, st₃, hf.steady.makes_bind hrun hmakes, hanswer⟩
    | error e₁ st₁ =>
      cases (bind_of_eq_error hrun).symm.trans herror
      refine (hf.relays hrun hambiguous).imp_right ?_
      rintro ⟨q, st₂, st₃, hmakes, hanswer⟩
      exact ⟨q, st₂, st₃, fun e he => bind_of_eq_error (hmakes e he), hanswer⟩

end Relays

/-! ## Failures that are looked at -/

namespace Run

/-- A fault is not looked at. -/
theorem attempt_of_stopsRun (h : x st = .error e st') (he : e.stopsRun = true) :
    x.attempt st = .error e st' := by
  simp only [attempt, h, he, if_true]

theorem attempt_of_ok (h : x st = .ok a st') : x.attempt st = .ok (.ok a) st' := by
  simp only [attempt, h]

theorem attempt_of_error (h : x st = .error e st') (he : ¬ e.stopsRun = true) :
    x.attempt st = .ok (.error e) st' := by
  simp only [attempt, h, if_neg he]

end Run

theorem Steady.attempt (h : Steady f) : Steady fun t => (f t).attempt := by
  intro t q st' e he st
  refine (h t q st' e he st).imp (fun hsame => ?_) fun hstops => Run.attempt_of_stopsRun hstops he
  simp only [Run.attempt, hsame]

/-- A step that looks at the failure of a request may fail with its error. -/
theorem Relays.attempt {g : Except RunError q.Answer → Toolkit → Run β}
    (hok : ∀ a, Relays own (g (.ok a)))
    (herror : ∀ e, Relays (fun e' => e' = e ∨ own e') (g (.error e))) :
    Relays own fun t => (t.answer q).attempt >>= fun answer => g answer t := by
  have attempted := (Steady.answer q).attempt
  refine ⟨attempted.bind fun answer => ?_, fun {t st e st'} hfails hambiguous => ?_⟩
  · cases answer with
    | ok a => exact (hok a).steady
    | error e => exact (herror e).steady
  · cases hanswer : t.answer q st with
    | ok a st₁ =>
      have hrun := Run.attempt_of_ok hanswer
      have hfails : g (.ok a) t st₁ = .error e st' := (bind_of_eq_ok hrun).symm.trans hfails
      refine ((hok a).relays hfails hambiguous).imp_right ?_
      rintro ⟨q', st₂, st₃, hmakes, hanswer'⟩
      exact ⟨q', st₂, st₃, attempted.makes_bind hrun hmakes, hanswer'⟩
    | error e₁ st₁ =>
      by_cases hstops : e₁.stopsRun = true
      · cases (bind_of_eq_error (Run.attempt_of_stopsRun hanswer hstops)).symm.trans hfails
        exact absurd hambiguous (RunError.not_isAmbiguous_of_stopsRun hstops)
      · have hrun := Run.attempt_of_error hanswer hstops
        have hfails : g (.error e₁) t st₁ = .error e st' :=
          (bind_of_eq_ok hrun).symm.trans hfails
        rcases (herror e₁).relays hfails hambiguous with
          (rfl | hown) | ⟨q', st₂, st₃, hmakes, hanswer'⟩
        · -- the error of the request is passed on
          refine .inr ⟨q, st, st₁, fun e' he' => ?_, hanswer⟩
          exact bind_of_eq_error (Run.attempt_of_stopsRun (t.answer_refusing_self q st e') he')
        · exact .inl hown
        · exact .inr ⟨q', st₂, st₃, attempted.makes_bind hrun hmakes, hanswer'⟩

/-! ## Programs -/

namespace Program

/-- Whether a program fails because rules compete only with an error that it has
seen: a known one, or one that a request of its own was answered with. -/
def Relays (known : RunError → Prop) : Program α → Prop
  | done _ => True
  | fail e => e.IsAmbiguous → known e
  | look next => ∀ types options st, (next types options st).Relays known
  | write _ next => next.Relays known
  | ask _ next => (∀ a, (next (.ok a)).Relays known) ∧
      ∀ e, (next (.error e)).Relays fun e' => e' = e ∨ known e'

variable {known : RunError → Prop} {p : Program α} {f : α → Program β}

theorem Relays.bind (hp : p.Relays known) (hf : ∀ known a, (f a).Relays known) :
    (p >>= f).Relays known := by
  show (p.bind f).Relays known
  induction p generalizing known with
  | done a => exact hf known a
  | fail e => exact hp
  | look next ih => exact fun types options st => ih types options st (hp types options st)
  | write units next ih => exact ih hp
  | ask q next ih => exact ⟨fun a => ih _ (hp.1 a), fun e => ih _ (hp.2 e)⟩

/-- A program may know more errors. -/
theorem Relays.mono {known' : RunError → Prop} (h : p.Relays known)
    (hknown : ∀ e, known e → known' e) : p.Relays known' := by
  induction p generalizing known known' with
  | done a => trivial
  | fail e => exact fun hambiguous => hknown e (h hambiguous)
  | look next ih => exact fun types options st => ih types options st (h types options st) hknown
  | write units next ih => exact ih h hknown
  | ask q next ih =>
    exact ⟨fun a => ih _ (h.1 a) hknown, fun e => ih _ (h.2 e) fun e' => Or.imp_right (hknown e')⟩

/-- An answer that is passed on. -/
theorem relays_ofExcept {answer : Except RunError α}
    (h : ∀ e, answer = .error e → e.IsAmbiguous → known e) : (ofExcept answer).Relays known := by
  cases answer with
  | ok a => trivial
  | error e => exact h e rfl

theorem relays_request (q : Request) : (request q).Relays known :=
  ⟨fun _ => trivial, fun _ _ => .inl rfl⟩

theorem relays_inquire (answer : Universe → Options → Except Fault α) :
    (inquire answer).Relays known := by
  intro types options _
  refine relays_ofExcept fun e he hambiguous => ?_
  cases hanswer : answer types options <;> rw [hanswer] at he <;> cases he
  exact hambiguous.elim

/-- Units refuse names, and never because rules compete. -/
theorem relays_change (f : Units → Except UnitError (α × Units)) :
    (change f).Relays known := by
  intro types options st
  dsimp only
  split
  · trivial
  · exact False.elim

theorem relays_importType (unit : UnitId) (attributes : Option Attributes) (type : TypeId) :
    (importType unit attributes type).Relays known :=
  (relays_inquire _).bind fun _ _ => (relays_request _).bind fun _ _ => trivial

/-- A program relays in the run of every toolkit. -/
theorem Relays.run (h : p.Relays known) : TypeExport.Relays known fun t => p.run t := by
  induction p generalizing known with
  | done a => exact .pure a
  | fail e => exact .const fun _ => h
  | look next ih =>
    have each := fun types options st => ih types options st (h types options st)
    exact ⟨fun t q st' e he st => (each t.types t.options st).steady t q st' e he st,
      fun {t st _ _} herror hambiguous => (each t.types t.options st).relays herror hambiguous⟩
  | write units next ih => exact .bind (.const fun _ => trivial) fun _ => ih h
  | ask q next ih => exact .attempt (fun a => ih _ (h.1 a)) fun e => ih _ (h.2 e)

/-- A program that knows no errors relays beside whatever errors a step has of its
own. -/
theorem Relays.runs (h : p.Relays fun _ => False) : TypeExport.Relays own fun t => p.run t :=
  (h.mono fun _ => False.elim).run

end Program

/-- An answer about types makes no requests. -/
theorem Relays.inquire (answer : Universe → Options → Except Fault α) :
    Relays own fun t => Run.ask (answer t.types t.options) := by
  simpa only [Program.run_inquire] using (Program.relays_inquire answer).run

end TypeExport
