import TypeExport.Proofs.Run.Governed
import TypeExport.Proofs.Run.Relaying

/-!
# Requests that a run makes

A run makes requests, the steps that answer them make more, and so on down
(`Setup.Visits`).  When several rules compete for a request, it is refused
(`Setup.Competes`).  Otherwise a step fails because rules compete only as one of
its own requests has failed, provided that this is so of the programs of the
rules (`Setup.relays_step`).  So a run that fails because rules compete makes a
request for which they do (`Setup.competes_of_units`).
-/

namespace TypeExport

/-! ## Competing rules -/

namespace Rules

variable {r : Rules} {types : Universe} {d : Descriptor} {e : RunError}

/-- The rules that give a type a behaviour. -/
def behaving (r : Rules) (key : String) : List BehaviourRule :=
  r.behaviours.filter (·.key = key)

/-- The rules that declare a member. -/
def declaring (r : Rules) (key member : String) : List MemberRule :=
  r.members.filter fun rule => rule.key = key && rule.member = member

/-- The location of a type is refused when several rules place it. -/
theorem location_eq_error (h : r.location types d = .error e) : 1 < (r.placing d.key).length ∧
    e = .ambiguous d.key (.replicate (r.placing d.key).length .typeLocation) := by
  unfold location at h
  unfold placing
  generalize r.locations.filter (·.key = d.key) = rules at h ⊢
  match rules with
  | [] | [_] => cases h
  | _ :: _ :: _ =>
    cases h
    exact ⟨by simp, by rw [List.map_const']⟩

/-- The strategy of a type is refused when several rules decide about it. -/
theorem override_eq_error (h : r.override d = .error e) :
    1 < (r.redirecting d.key).length + (r.behaving d.key).length ∧
      e = .ambiguous d.key (.replicate (r.redirecting d.key).length .typeRedirect ++
        .replicate (r.behaving d.key).length .typeBehaviour) := by
  unfold override at h
  unfold redirecting behaving
  generalize r.redirects.filter (·.key = d.key) = redirects at h ⊢
  generalize r.behaviours.filter (·.key = d.key) = behaviours at h ⊢
  match redirects, behaviours with
  | [], [] | [_], [] | [], [_] => cases h
  | _ :: _ :: _, _ | [_], _ :: _ | [], _ :: _ :: _ =>
    cases h
    exact ⟨by simp <;> omega, by rw [List.map_const', List.map_const']⟩

/-- A type has the behaviour that a rule gives it, or none. -/
theorem behaviour_cases (r : Rules) (d : Descriptor) :
    (∃ rule ∈ r.behaviours, rule.key = d.key ∧ r.behaviour d = rule.behaviour d) ∨
      r.behaviour d = {} := by
  unfold behaviour
  have hmem : ∀ rule ∈ r.behaviours.filter (·.key = d.key),
      rule ∈ r.behaviours ∧ rule.key = d.key := fun rule hrule => by simpa using hrule
  generalize r.behaviours.filter (·.key = d.key) = behaviours at hmem ⊢
  match behaviours with
  | [rule] =>
    obtain ⟨hrule, hkey⟩ := hmem rule List.mem_cons_self
    exact .inl ⟨rule, hrule, hkey, rfl⟩
  | [] | _ :: _ :: _ => exact .inr rfl

/-- A member is declared by no rule, by one rule, or is refused. -/
theorem member_cases (r : Rules) (unit : UnitId) (owner : Descriptor) (m : Member) :
    r.member unit owner m = pure none ∨
      (∃ rule ∈ r.members, rule.key = owner.key ∧ rule.member = m.name ∧
        r.member unit owner m = do return some (← rule.declare unit owner m)) ∨
      1 < (r.declaring owner.key m.name).length ∧
        r.member unit owner m = .fail (.ambiguous (owner.key ++ "." ++ m.name)
          (.replicate (r.declaring owner.key m.name).length .member)) := by
  unfold member declaring
  have hmem : ∀ rule ∈ r.members.filter fun rule => rule.key = owner.key && rule.member = m.name,
      rule ∈ r.members ∧ rule.key = owner.key ∧ rule.member = m.name :=
    fun rule hrule => by simpa using hrule
  generalize (r.members.filter fun rule => rule.key = owner.key && rule.member = m.name) = rules
    at hmem ⊢
  match rules with
  | [] => exact .inl rfl
  | [rule] =>
    obtain ⟨hrule, hkey, hname⟩ := hmem rule List.mem_cons_self
    exact .inr (.inl ⟨rule, hrule, hkey, hname, rfl⟩)
  | _ :: _ :: _ =>
    refine .inr (.inr ⟨by simp, ?_⟩)
    dsimp only
    rw [List.map_const']

end Rules

/-! ## Programs of rules -/

/-- Whether the programs of a behaviour fail because rules compete only as a request
of theirs fails. -/
structure Behaviour.Relays (b : Behaviour) : Prop where
  prepare : ∀ type, (b.prepare type).Relays fun _ => False
  complete : ∀ type, (b.complete type).Relays fun _ => False
  reference : ∀ type unit attributes, (b.reference type unit attributes).Relays fun _ => False

theorem Behaviour.relays_default : ({} : Behaviour).Relays where
  prepare _ := trivial
  complete _ := trivial
  reference _ _ _ := (Program.relays_inquire _).bind fun _ _ => trivial

/-- Whether the programs of rules fail because rules compete only as a request of
theirs fails. -/
structure Rules.Relays (r : Rules) : Prop where
  behaviour : ∀ rule ∈ r.behaviours, ∀ d : Descriptor, rule.key = d.key → (rule.behaviour d).Relays
  member : ∀ rule ∈ r.members, ∀ (unit : UnitId) (owner : Descriptor) (m : Member),
    rule.key = owner.key → rule.member = m.name →
    (rule.declare unit owner m).Relays fun _ => False

theorem Rules.Relays.of_behaviour {r : Rules} (h : r.Relays) (d : Descriptor) :
    (r.behaviour d).Relays := by
  rcases r.behaviour_cases d with ⟨rule, hrule, hkey, heq⟩ | heq
  · rw [heq]
    exact h.behaviour rule hrule d hkey
  · rw [heq]
    exact Behaviour.relays_default

namespace Setup

/-- The step that answers a request. -/
def step (s : Setup) (below : Toolkit) : (q : Request) → Run q.Answer
  | .resolve type => s.resolveStep below type
  | .reference unit attributes type => s.referenceStep below unit attributes type
  | .member unit owner m => s.memberStep below unit owner m
  | .build => s.buildStep below

theorem answer_toolkit (s : Setup) (fuel : Nat) (q : Request) :
    (s.toolkit (fuel + 1)).answer q = s.step (s.toolkit fuel) q := by
  cases q <;> rfl

/-- Whether several rules compete for a request, which an error tells by its key and
the kinds of these rules. -/
inductive Competes (s : Setup) (r : Rules) : Request → RunError → Prop
  | location {t : TypeId} {d : Descriptor} : s.types.get? t = some d →
      1 < (r.placing d.key).length → Competes s r (.resolve t)
        (.ambiguous d.key (.replicate (r.placing d.key).length .typeLocation))
  | override {t : TypeId} {d : Descriptor} : s.types.get? t = some d →
      1 < (r.redirecting d.key).length + (r.behaving d.key).length → Competes s r (.resolve t)
        (.ambiguous d.key (.replicate (r.redirecting d.key).length .typeRedirect ++
          .replicate (r.behaving d.key).length .typeBehaviour))
  | member {unit : UnitId} {owner : Descriptor} {m : Member} :
      1 < (r.declaring owner.key m.name).length → Competes s r (.member unit owner m)
        (.ambiguous (owner.key ++ "." ++ m.name)
          (.replicate (r.declaring owner.key m.name).length .member))

variable {s : Setup} {r : Rules} {own : RunError → Prop} {t : TypeId} {d : Descriptor}
  {unit : UnitId} {attributes : Option Attributes}

/-! ## Resolving -/

theorem relays_resolveAll (ids : List TypeId) : Relays own fun below => resolveAll below ids := by
  induction ids with
  | nil => exact .pure ()
  | cons id ids ih => exact (Relays.resolve id).bind fun _ => ih

/-- A strategy is refused when rules compete for the type. -/
theorem relays_strategyFor (hooks : s.hooks = r.hooks) (sound : s.types.Sound)
    (hd : s.types.get? t = some d) :
    Relays (s.Competes r (.resolve t)) fun _ => s.strategyFor d := by
  refine .const fun st => (ends_strategyFor_chooses sound hd).mono (fun _ _ _ => trivial) ?_
  rintro e _ (hlocation | hover | hnot) hambiguous
  · rw [hooks] at hlocation
    obtain ⟨hlt, rfl⟩ := Rules.location_eq_error hlocation
    exact .location hd hlt
  · rw [hooks] at hover
    obtain ⟨hlt, rfl⟩ := Rules.override_eq_error hover
    exact .override hd hlt
  · exact absurd hambiguous hnot

theorem relays_resolveParts (hb : ∀ d, (s.hooks.behaviour d).Relays) (type : TypeId)
    (d : Descriptor) (σ : Strategy) : Relays own fun below => s.resolveParts below type d σ := by
  cases σ with
  | array | nullable =>
    simp only [resolveParts]
    cases d.kind.element? with
    | some element => exact relays_resolveAll _
    | none => exact .throw id
  | unwrapped underlying => exact relays_resolveAll _
  | dictionary => exact (Relays.ask _).bind fun _ => relays_resolveAll _
  | genericInstance =>
    exact (Relays.ask _).bind fun _ => (relays_resolveAll _).bind fun _ =>
      (Relays.ask _).bind fun _ => relays_resolveAll _
  | custom => exact ((hb d).prepare type).runs
  | _ => exact .pure ()

theorem relays_resolveStep (hooks : s.hooks = r.hooks) (sound : s.types.Sound)
    (hb : ∀ d, (s.hooks.behaviour d).Relays) (t : TypeId) :
    Relays (s.Competes r (.resolve t)) fun below => s.resolveStep below t := by
  refine .bind (.const fun _ => trivial) fun st => ?_
  cases st.context? t with
  | some c => exact .pure _
  | none =>
    cases hd : s.types.get? t with
    | none =>
      simp only [Universe.view, hd]
      exact .throw id
    | some d =>
      simp only [Universe.view_of_get? hd, Run.ask_ok, pure_bind]
      exact (relays_strategyFor hooks sound hd).bind fun σ =>
        (Relays.of_isOwn (.log _)).bind fun _ => .bind (.const fun _ => trivial) fun _ =>
          (relays_resolveParts hb t d σ).bind fun _ => .pure _

/-! ## Referring -/

theorem relays_argumentReferences (before ids : List TypeId) :
    Relays own fun below => s.argumentReferences below unit attributes before ids := by
  induction ids generalizing before with
  | nil => exact .pure _
  | cons id ids ih =>
    exact (Relays.reference _ _ _).bind fun _ => (Relays.ask _).bind fun _ =>
      (Relays.ask _).bind fun _ => (ih _).bind fun _ => .pure _

theorem relays_referenceFor (hb : ∀ d, (s.hooks.behaviour d).Relays) (type : TypeId)
    (d : Descriptor) (σ : Strategy) :
    Relays own fun below => s.referenceFor below unit attributes type d σ := by
  cases σ with
  | builtin | genericParameter => exact .pure _
  | array =>
    simp only [referenceFor, arrayReference]
    cases d.kind.element? with
    | none => exact .throw id
    | some element =>
      exact (Relays.ask _).bind fun _ => (Relays.reference _ _ _).bind fun _ => .pure _
  | dictionary =>
    refine .bind (.ask _) fun ds => ?_
    split
    · exact (Relays.reference _ _ _).bind fun _ => (Relays.reference _ _ _).bind fun _ =>
        (Relays.ask _).bind fun _ => .pure _
    · exact .throw id
  | nativeEnum | fixedStrings | object | redirect =>
    exact (Relays.of_isOwn (.addImport _ _)).bind fun _ => .pure _
  | nullable =>
    simp only [referenceFor, nullableReference]
    cases d.kind.element? with
    | none => exact .throw id
    | some underlying =>
      exact (Relays.ask _).bind fun _ => (Relays.reference _ _ _).bind fun _ => .pure _
  | unwrapped underlying => exact .reference _ _ _
  | genericInstance =>
    refine .bind (.ask _) fun definition => ?_
    cases definition with
    | none => exact .throw id
    | some definition =>
      exact (Relays.reference _ _ _).bind fun _ => (Relays.ask _).bind fun _ =>
        (relays_argumentReferences _ _).bind fun _ => .pure _
  | custom => exact ((hb d).reference type unit attributes).runs

theorem relays_referenceStep (hb : ∀ d, (s.hooks.behaviour d).Relays) (type : TypeId) :
    Relays own fun below => s.referenceStep below unit attributes type :=
  (Relays.resolve type).bind fun σ => (Relays.ask _).bind fun d => relays_referenceFor hb type d σ

/-! ## Members -/

theorem relays_importType (type : TypeId) :
    Relays own fun below => below.importType unit attributes type :=
  (Relays.inquire fun types options =>
    types.splitNullable options.nullability attributes type).bind fun _ =>
      (Relays.reference _ _ _).bind fun e => .inquire fun _ options => .ok (e.orNullable _ options)

/-- A member is refused when rules compete for it. -/
theorem relays_member (relays : r.Relays) (owner : Descriptor) (m : Member) :
    (r.member unit owner m).Relays (s.Competes r (.member unit owner m)) := by
  rcases r.member_cases unit owner m with heq | ⟨rule, hrule, hkey, hname, heq⟩ | ⟨hlt, heq⟩ <;>
    rw [heq]
  · trivial
  · have declared := relays.member rule hrule unit owner m hkey hname
    exact (declared.mono fun _ => False.elim).bind fun _ _ => trivial
  · exact fun _ => .member hlt

theorem relays_memberStep (hooks : s.hooks = r.hooks) (relays : r.Relays) (owner : Descriptor)
    (m : Member) :
    Relays (s.Competes r (.member unit owner m)) fun below => s.memberStep below unit owner m := by
  have declared : (s.hooks.member unit owner m).Relays (s.Competes r (.member unit owner m)) := by
    rw [hooks]
    exact relays_member relays owner m
  refine declared.run.bind fun declaration => ?_
  cases declaration with
  | some declaration => exact (Relays.of_isOwn (.log _)).bind fun _ => .pure _
  | none =>
    dsimp only
    split
    · exact .pure _
    · exact (Relays.ask _).bind fun _ => (relays_importType _).bind fun _ => .pure _

theorem relays_resolveMembers (owner : Descriptor) (done : List MemberDeclaration)
    (ms : List Member) : Relays own fun below => resolveMembers below unit owner done ms := by
  induction ms generalizing done with
  | nil => exact .pure _
  | cons m ms ih =>
    refine .bind (.answer (.member unit owner m)) fun declaration => ?_
    cases declaration with
    | none => exact ih done
    | some declaration =>
      dsimp only
      split
      · exact .throw id
      · exact ih _

/-! ## Contexts and passes -/

section Passes

theorem relays_markBuilt (type : TypeId) : Relays own fun _ => Run.markBuilt type := by
  refine .bind (.const fun _ => trivial) fun st => ?_
  dsimp only
  split
  · exact .const fun _ => trivial
  · exact .throw id

variable (hb : ∀ d, (s.hooks.behaviour d).Relays)
include hb

theorem relays_completeDeclaration (type : TypeId) (σ : Strategy) :
    Relays own fun below => s.completeDeclaration below type σ := by
  cases σ with
  | object unit name position =>
    exact (Relays.ask _).bind fun d => (relays_resolveMembers d [] d.members).bind
      fun _ => .of_isOwn (.setMembers _ _ _)
  | custom => exact (Relays.ask _).bind fun d => ((hb d).complete type).runs
  | _ => exact .pure ()

theorem relays_completeAll (cs : List Context) :
    Relays own fun below => s.completeAll below cs := by
  induction cs with
  | nil => exact .pure _
  | cons c cs ih =>
    refine .bind (.const fun _ => trivial) fun st => ?_
    split
    · exact ih
    · exact ((relays_completeDeclaration hb c.type c.strategy).bind fun _ =>
        relays_markBuilt c.type).bind fun _ => ih.bind fun _ => .pure _

theorem relays_passes (allowed number : Nat) :
    Relays own fun below => s.passes below allowed number := by
  induction allowed generalizing number with
  | zero =>
    refine .bind (.const fun _ => trivial) fun st => ?_
    split
    · exact .pure _
    · exact .throw id
  | succ allowed ih =>
    refine .bind (.const fun _ => trivial) fun st => ?_
    split
    · exact .pure _
    · exact (relays_completeAll hb _).bind fun _ =>
        (Relays.of_isOwn (.log _)).bind fun _ => ih _

theorem relays_buildStep : Relays own fun below => s.buildStep below := by
  have valid : Relays own fun _ => Run.ofExcept (s.options.validate.mapError .misconfigured) := by
    cases s.options.validate with
    | ok => exact .pure ()
    | error cause => exact .throw id
  exact valid.bind fun _ => (relays_resolveAll _).bind fun _ => relays_passes hb _ _

end Passes

/-! ## Runs -/

/-- A request fails because rules compete only when they compete for it, or as one
of the requests fails that its step makes. -/
theorem relays_step (hooks : s.hooks = r.hooks) (relays : r.Relays) (sound : s.types.Sound)
    (q : Request) : Relays (s.Competes r q) fun below => s.step below q := by
  have hb : ∀ d, (s.hooks.behaviour d).Relays := fun d => by
    rw [hooks]
    exact relays.of_behaviour d
  cases q with
  | resolve type => exact relays_resolveStep hooks sound hb type
  | reference unit attributes type => exact relays_referenceStep hb type
  | member unit owner m => exact relays_memberStep hooks relays owner m
  | build => exact relays_buildStep hb

/-- Whether a run from the empty state makes a request in a state, so many levels
above the end of its descent. -/
inductive VisitsAt (s : Setup) : Nat → Request → State → Prop
  | build : VisitsAt s (s.depth + 2) .build {}
  | step {n : Nat} {q q' : Request} {st st' : State} : VisitsAt s (n + 1) q st →
      Makes (fun below => s.step below q) (s.toolkit n) st q' st' → VisitsAt s n q' st'

/-- Whether a run from the empty state makes a request. -/
def Visits (s : Setup) (q : Request) : Prop := ∃ n st, s.VisitsAt n q st

/-- A request that fails because rules compete leads to one for which they do.  By
induction on the levels of the descent. -/
theorem exists_competes (hooks : s.hooks = r.hooks) (relays : r.Relays) (sound : s.types.Sound)
    {n : Nat} {q : Request} {st st' : State} {e : RunError} (hq : s.VisitsAt n q st)
    (herror : (s.toolkit n).answer q st = .error e st') (hambiguous : e.IsAmbiguous) :
    ∃ q, s.Visits q ∧ s.Competes r q e := by
  induction n generalizing q st st' with
  | zero =>
    cases q <;> cases herror <;> exact hambiguous.elim
  | succ n ih =>
    rw [answer_toolkit] at herror
    rcases (relays_step hooks relays sound q).relays herror hambiguous with
      hcompetes | ⟨q', st₁, st₂, hmakes, hanswer⟩
    · exact ⟨q, ⟨n + 1, st, hq⟩, hcompetes⟩
    · exact ih (hq.step hmakes) hanswer

/-- A run that fails because rules compete makes a request for which they do. -/
theorem competes_of_units (hooks : s.hooks = r.hooks) (relays : r.Relays)
    (sound : s.types.Sound) {e : RunError} (h : s.units = .error e) (hambiguous : e.IsAmbiguous) :
    ∃ q, s.Visits q ∧ s.Competes r q e := by
  unfold units finalState EStateM.run at h
  cases hrun : s.build {} with
  | ok _ st =>
    rw [hrun] at h
    cases h
  | error e' st =>
    rw [hrun] at h
    cases h
    exact exists_competes hooks relays sound .build hrun hambiguous

end Setup

end TypeExport
