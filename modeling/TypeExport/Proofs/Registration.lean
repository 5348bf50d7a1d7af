import TypeExport.Override.Recipe
import TypeExport.Proofs.Run.Visiting

/-!
# The order of registration

A caller registers rules one by one.  Rules that compete for one decision are
refused when the decision is asked for, so which of them was registered first is
never looked at: the same registrations in another order make the same hooks
(`Rules.hooks_ofList`), and so the same run.

A run is refused in this way only when it resolves a type, or asks for a member,
for which rules compete (`Setup.registering_perm`).  The programs of the rules may
resolve types and ask for members themselves, and may build everything.  They must
not invent such an error, and programs that are written as recipes do not
(`BehaviourRecipe.relays`, `MemberRecipe.relays`).
-/

namespace TypeExport

/-! ## Registering -/

/-- A rule that is registered. -/
inductive Registration where
  | location (rule : LocationRule)
  | redirect (rule : RedirectRule)
  | behaviour (rule : BehaviourRule)
  | member (rule : MemberRule)

namespace Registration

/-- The rule that places a type. -/
def location? : Registration → Option LocationRule
  | location rule => some rule
  | _ => none

/-- The rule that redirects a type. -/
def redirect? : Registration → Option RedirectRule
  | redirect rule => some rule
  | _ => none

/-- The rule that gives a type a behaviour. -/
def behaviour? : Registration → Option BehaviourRule
  | behaviour rule => some rule
  | _ => none

/-- The rule that declares a member. -/
def member? : Registration → Option MemberRule
  | member rule => some rule
  | _ => none

/-- Whether the programs of a rule fail because rules compete only as a request of
theirs fails.  They do when they never fail themselves. -/
def Relays : Registration → Prop
  | behaviour rule => ∀ d : Descriptor, rule.key = d.key → (rule.behaviour d).Relays
  | member rule => ∀ (unit : UnitId) (owner : Descriptor) (m : Member), rule.key = owner.key →
      rule.member = m.name → (rule.declare unit owner m).Relays fun _ => False
  | _ => True

end Registration

namespace Rules

/-- Rules with one more behind them. -/
def register (r : Rules) : Registration → Rules
  | .location rule => { r with locations := r.locations ++ [rule] }
  | .redirect rule => { r with redirects := r.redirects ++ [rule] }
  | .behaviour rule => { r with behaviours := r.behaviours ++ [rule] }
  | .member rule => { r with members := r.members ++ [rule] }

/-- The rules that are registered in that order. -/
def ofList (regs : List Registration) : Rules := regs.foldl register {}

theorem foldl_register (r : Rules) (regs : List Registration) : regs.foldl register r =
    { locations := r.locations ++ regs.filterMap (·.location?)
      redirects := r.redirects ++ regs.filterMap (·.redirect?)
      behaviours := r.behaviours ++ regs.filterMap (·.behaviour?)
      members := r.members ++ regs.filterMap (·.member?) } := by
  induction regs generalizing r with
  | nil => simp
  | cons reg regs ih =>
    rw [List.foldl_cons, ih]
    cases reg <;> simp [register, Registration.location?, Registration.redirect?,
      Registration.behaviour?, Registration.member?]

theorem ofList_eq (regs : List Registration) : ofList regs =
    { locations := regs.filterMap (·.location?)
      redirects := regs.filterMap (·.redirect?)
      behaviours := regs.filterMap (·.behaviour?)
      members := regs.filterMap (·.member?) } :=
  foldl_register {} regs

/-- Rules relay that are registered with programs that do. -/
theorem relays_ofList {regs : List Registration} (h : ∀ reg ∈ regs, reg.Relays) :
    (ofList regs).Relays := by
  rw [ofList_eq]
  constructor
  · intro rule hrule
    obtain ⟨reg, hreg, heq⟩ := List.mem_filterMap.1 hrule
    cases reg <;> cases heq
    exact h _ hreg
  · intro rule hrule
    obtain ⟨reg, hreg, heq⟩ := List.mem_filterMap.1 hrule
    cases reg <;> cases heq
    exact h _ hreg

/-! ## Another order -/

/-- Whether rules are the same up to their order. -/
structure Reordered (r r' : Rules) : Prop where
  locations : r.locations.Perm r'.locations
  redirects : r.redirects.Perm r'.redirects
  behaviours : r.behaviours.Perm r'.behaviours
  members : r.members.Perm r'.members

theorem reordered_ofList {regs regs' : List Registration} (h : regs.Perm regs') :
    (ofList regs).Reordered (ofList regs') := by
  rw [ofList_eq, ofList_eq]
  exact ⟨h.filterMap _, h.filterMap _, h.filterMap _, h.filterMap _⟩

/-- Whether two lists are both empty, have the same single element, or have the
same number of several elements. -/
inductive Alike {α : Type} : List α → List α → Prop
  | none : Alike [] []
  | one (x : α) : Alike [x] [x]
  | many {x y x' y' : α} {xs xs' : List α} : xs.length = xs'.length →
      Alike (x :: y :: xs) (x' :: y' :: xs')

theorem alike_of_perm {α : Type} {xs ys : List α} (h : xs.Perm ys) : Alike xs ys := by
  have hlength := h.length_eq
  match xs, ys with
  | [], [] => exact .none
  | [x], [y] =>
    cases h.singleton_eq
    exact .one x
  | _ :: _ :: xs, _ :: _ :: ys => exact .many (by simpa using hlength)
  | [], _ :: _ | _ :: _, [] | [_], _ :: _ :: _ | _ :: _ :: _, [_] => simp at hlength

variable {r r' : Rules}

namespace Reordered

variable (h : r.Reordered r')
include h

theorem location (types : Universe) (d : Descriptor) :
    r'.location types d = r.location types d := by
  unfold Rules.location
  have halike := alike_of_perm (h.locations.filter (·.key = d.key))
  generalize r.locations.filter (·.key = d.key) = rules at halike ⊢
  generalize r'.locations.filter (·.key = d.key) = rules' at halike ⊢
  cases halike with
  | none | one => rfl
  | many hlength => simp [hlength]

theorem override (d : Descriptor) : r'.override d = r.override d := by
  unfold Rules.override
  have hredirects := alike_of_perm (h.redirects.filter (·.key = d.key))
  have hbehaviours := alike_of_perm (h.behaviours.filter (·.key = d.key))
  generalize r.redirects.filter (·.key = d.key) = redirects at hredirects ⊢
  generalize r'.redirects.filter (·.key = d.key) = redirects' at hredirects ⊢
  generalize r.behaviours.filter (·.key = d.key) = behaviours at hbehaviours ⊢
  generalize r'.behaviours.filter (·.key = d.key) = behaviours' at hbehaviours ⊢
  cases hredirects with
  | none | one =>
    cases hbehaviours with
    | none | one => rfl
    | many hlength => simp [hlength]
  | many hlength =>
    cases hbehaviours with
    | none | one => simp [hlength]
    | many hlength' => simp [hlength, hlength']

theorem behaviour (d : Descriptor) : r'.behaviour d = r.behaviour d := by
  unfold Rules.behaviour
  have halike := alike_of_perm (h.behaviours.filter (·.key = d.key))
  generalize r.behaviours.filter (·.key = d.key) = rules at halike ⊢
  generalize r'.behaviours.filter (·.key = d.key) = rules' at halike ⊢
  cases halike <;> rfl

theorem member (unit : UnitId) (owner : Descriptor) (m : Member) :
    r'.member unit owner m = r.member unit owner m := by
  unfold Rules.member
  have halike := alike_of_perm
    (h.members.filter fun rule => rule.key = owner.key && rule.member = m.name)
  generalize (r.members.filter fun rule => rule.key = owner.key && rule.member = m.name) = rules
    at halike ⊢
  generalize (r'.members.filter fun rule => rule.key = owner.key && rule.member = m.name) = rules'
    at halike ⊢
  cases halike with
  | none | one => rfl
  | many hlength => simp [hlength]

/-- Rules in another order make the same hooks. -/
theorem hooks : r'.hooks = r.hooks := by
  rw [Rules.hooks, Rules.hooks, funext fun types => funext (h.location types),
    funext h.override, funext h.behaviour,
    funext fun unit => funext fun owner => funext (h.member unit owner)]

end Reordered

/-- The same registrations in another order make the same hooks. -/
theorem hooks_ofList {regs regs' : List Registration} (h : regs.Perm regs') :
    (ofList regs').hooks = (ofList regs).hooks :=
  (reordered_ofList h).hooks

end Rules

/-! ## Recipes -/

section Recipes

variable {known : RunError → Prop} (site : RecipeSite)

theorem RecipeSite.relays_currentUnit : site.currentUnit.Relays known := by
  unfold currentUnit
  split
  · trivial
  · exact Program.relays_change _

theorem RecipeSource.relays_locate (source : RecipeSource) : source.locate.Relays known := by
  cases source with
  | external specifier => trivial
  | unitAt location => exact (Program.relays_change _).bind fun _ _ => trivial

theorem Action.relays_run (a : Action) : (a.run site).Relays known := by
  cases a with
  | declare location declaration =>
    exact (Program.relays_change _).bind fun _ _ =>
      (Program.relays_change _).bind fun _ _ => trivial
  | importName name source into =>
    refine source.relays_locate.bind fun _ _ => ?_
    cases into with
    | none => exact site.relays_currentUnit.bind fun _ _ => Program.relays_change _
    | some location => exact (Program.relays_change _).bind fun _ _ => Program.relays_change _
  | resolve type => exact (Program.relays_request _).bind fun _ _ => trivial
  | refuse reason => exact False.elim

theorem relays_runActions (as : List Action) : (runActions site as).Relays known := by
  induction as generalizing known with
  | nil => trivial
  | cons a as ih => exact (a.relays_run site).bind fun _ _ => ih

namespace Template

mutual

theorem relays_fill (unit : UnitId) (known : RunError → Prop) (t : Template) :
    (t.fill site unit).Relays known := by
  match t with
  | .reference _ | .literal _ => trivial
  | .generic base arguments =>
    exact (relays_fill unit known base).bind fun known _ =>
      (relays_fillAll unit known arguments).bind fun _ _ => trivial
  | .array inner | .orNull inner | .nullable inner =>
    exact (relays_fill unit known inner).bind fun _ _ => trivial
  | .dictionary key value =>
    exact (relays_fill unit known key).bind fun known _ =>
      (relays_fill unit known value).bind fun _ _ => trivial
  | .union items => exact (relays_fillAll unit known items).bind fun _ _ => trivial
  | .place target .plain | .place target .attributes => exact Program.relays_request _
  | .place target .policy => exact Program.relays_importType _ _ _

theorem relays_fillAll (unit : UnitId) (known : RunError → Prop) (ts : List Template) :
    (fillAll site unit ts).Relays known := by
  match ts with
  | [] => trivial
  | t :: ts =>
    exact (relays_fill unit known t).bind fun known _ =>
      (relays_fillAll unit known ts).bind fun _ _ => trivial

end

end Template

end Recipes

/-- A behaviour that is written as a recipe relays. -/
theorem BehaviourRecipe.relays (r : BehaviourRecipe) : r.behaviour.Relays where
  prepare _ := relays_runActions _ _
  complete _ := relays_runActions _ _
  reference _ _ _ := (relays_runActions _ _).bind fun _ _ => Template.relays_fill _ _ _ _

/-- A declaration that is written as a recipe relays. -/
theorem MemberRecipe.relays (r : MemberRecipe) (unit : UnitId) (owner : Descriptor) (m : Member) :
    (r.declare unit owner m).Relays fun _ => False :=
  (relays_runActions _ _).bind fun _ _ =>
    (Template.relays_fill _ _ _ _).bind fun _ _ => trivial

namespace Setup

/-- A setup under registered rules. -/
def registering (s : Setup) (regs : List Registration) : Setup :=
  { s with hooks := (Rules.ofList regs).hooks }

variable {s : Setup} {r : Rules} {regs regs' : List Registration} {e : RunError}

/-- When rules only place and redirect types, those that make a run fail compete for
a resolved type. -/
theorem Governed.competes_resolved (h : s.Governed r) (herror : s.units = .error e)
    (hambiguous : e.IsAmbiguous) : ∃ t, s.Resolved t ∧ s.Competes r (.resolve t) e := by
  cases blames_of_units h.lawful herror with
  | location ht hd hlocation =>
    rw [h.location] at hlocation
    obtain ⟨hlt, rfl⟩ := Rules.location_eq_error hlocation
    exact ⟨_, ht, .location hd hlt⟩
  | override ht hd hover =>
    rw [h.override] at hover
    obtain ⟨hlt, rfl⟩ := Rules.override_eq_error hover
    exact ⟨_, ht, .override hd hlt⟩
  | misconfigured | container | member | clash => exact hambiguous.elim

theorem units_of_generate_eq_error (h : s.generate = .error e) : s.units = .error e := by
  unfold generate at h
  cases hunits : s.units with
  | ok us =>
    rw [hunits] at h
    cases h
  | error e' =>
    rw [hunits] at h
    cases h
    rfl

/-- Registering in another order makes the same run, with the same units or the
same error.  When it fails because rules compete, and no program of a rule invents
this, then it makes a request for which they do: it resolves a type that several
rules place, or redirect and give behaviours, or it asks for a member that several
rules declare.  Under rules that only place and redirect types, such a type is one
of the resolved types. -/
theorem registering_perm (hload : ∃ text roots, Builder.loadText text {} = .ok roots s.types)
    (hperm : regs.Perm regs') :
    (s.registering regs').finalState = (s.registering regs).finalState ∧
      (s.registering regs').generate = (s.registering regs).generate ∧
      ∀ key kinds, (s.registering regs).generate = .error (.ambiguous key kinds) →
        ((∀ reg ∈ regs, reg.Relays) → ∃ q, (s.registering regs).Visits q ∧
          (s.registering regs).Competes (Rules.ofList regs) q (.ambiguous key kinds)) ∧
        ((s.registering regs).Governed (Rules.ofList regs) → ∃ t,
          (s.registering regs).Resolved t ∧ (s.registering regs).Competes (Rules.ofList regs)
            (.resolve t) (.ambiguous key kinds)) := by
  have hsame : s.registering regs' = s.registering regs := by
    rw [registering, registering, Rules.hooks_ofList hperm]
  refine ⟨by rw [hsame], by rw [hsame], fun key kinds herror => ?_⟩
  have hunits := units_of_generate_eq_error herror
  refine ⟨fun relays => ?_, fun governed => governed.competes_resolved hunits trivial⟩
  obtain ⟨text, roots, hload⟩ := hload
  have sound : (s.registering regs).types.Sound := (Builder.sound_of_loadText hload).1
  exact competes_of_units rfl (Rules.relays_ofList relays) sound hunits trivial

/-! ## A shop with competing rules -/

/-- Asks for the declarations of members. -/
def askMembers (unit : UnitId) (owner : Descriptor) : List Member → Program Unit
  | [] => return ()
  | m :: ms => do
    let _ ← Program.request (.member unit owner m)
    askMembers unit owner ms

theorem relays_askMembers (unit : UnitId) (owner : Descriptor) (known : RunError → Prop)
    (ms : List Member) : (askMembers unit owner ms).Relays known := by
  induction ms generalizing known with
  | nil => trivial
  | cons m ms ih => exact (Program.relays_request _).bind fun known _ => ih known

/-- A behaviour of a type that asks for the declarations of its members. -/
def askingBehaviour (d : Descriptor) : Behaviour where
  complete _ := do
    let unit ← Program.unitAt "pages"
    askMembers unit d d.members

/-- A member that may be left out. -/
def optionalRecipe : MemberRecipe where
  optional := true
  type := .place none .policy

/-- Rules of all kinds, two of them for one member, which a behaviour asks for. -/
def shopRegistrations : List Registration :=
  [.redirect ⟨"User", "Person", "people"⟩, .member ⟨"Page`1", "By", optionalRecipe.declare⟩,
    .location ⟨"State", fun _ _ => "states"⟩, .behaviour ⟨"Page`1", askingBehaviour⟩,
    .member ⟨"Page`1", "By", optionalRecipe.declare⟩]

/-- Rules that redirect a type twice. -/
def twiceRedirected : List Registration :=
  [.redirect ⟨"User", "Person", "people"⟩, .redirect ⟨"User", "Account", "accounts"⟩]

/-- What a run fails with. -/
def failure? (s : Setup) : Option RunError :=
  match s.generate with
  | .ok _ => none
  | .error e => some e

theorem generate_of_failure? (h : s.failure? = some e) : s.generate = .error e := by
  unfold failure? at h
  split at h
  · cases h
  · next herror =>
    cases h
    exact herror

theorem shopRegistrations_checks : (shop.registering shopRegistrations).failure? =
      some (.ambiguous "Page`1.By" [.member, .member]) ∧
    (shop.registering twiceRedirected).failure? =
      some (.ambiguous "User" [.typeRedirect, .typeRedirect]) := by
  decide +kernel

theorem relays_shopRegistrations : ∀ reg ∈ shopRegistrations, reg.Relays := by
  have declared : Registration.Relays (.member ⟨"Page`1", "By", optionalRecipe.declare⟩) :=
    fun unit owner m _ _ => optionalRecipe.relays unit owner m
  have asking : Registration.Relays (.behaviour ⟨"Page`1", askingBehaviour⟩) := fun d _ =>
    { prepare := fun _ => trivial
      complete := fun _ => (Program.relays_change _).bind fun known _ =>
        relays_askMembers _ d known d.members
      reference := Behaviour.relays_default.reference }
  simp only [shopRegistrations, List.forall_mem_cons]
  exact ⟨trivial, declared, trivial, asking, declared, List.forall_mem_nil _⟩

/-- Two rules compete in a shop for a member that a behaviour asks for, in whichever
order they are registered.  Two others compete for a resolved type. -/
theorem registering_perm_shop :
    (∃ text roots, Builder.loadText text {} = .ok roots shop.types) ∧
      (∀ reg ∈ shopRegistrations, reg.Relays) ∧
      shopRegistrations.Perm shopRegistrations.reverse ∧
      (shop.registering shopRegistrations.reverse).generate =
        .error (.ambiguous "Page`1.By" [.member, .member]) ∧
      (∃ q, (shop.registering shopRegistrations).Visits q ∧
        (shop.registering shopRegistrations).Competes (.ofList shopRegistrations) q
          (.ambiguous "Page`1.By" [.member, .member])) ∧
      ∃ t, (shop.registering twiceRedirected).Resolved t ∧
        (shop.registering twiceRedirected).Competes (.ofList twiceRedirected) (.resolve t)
          (.ambiguous "User" [.typeRedirect, .typeRedirect]) := by
  have hload := shop_governed.loaded
  have hperm : shopRegistrations.Perm shopRegistrations.reverse := (List.reverse_perm _).symm
  have herror := generate_of_failure? shopRegistrations_checks.1
  have htwice := generate_of_failure? shopRegistrations_checks.2
  have governed : (shop.registering twiceRedirected).Governed (.ofList twiceRedirected) :=
    ⟨hload, shop_governed.root, rfl, rfl, rfl⟩
  obtain ⟨-, hsame, hcompetes⟩ := registering_perm hload hperm
  obtain ⟨-, -, hresolved⟩ := registering_perm hload (List.Perm.refl twiceRedirected)
  exact ⟨hload, relays_shopRegistrations, hperm, hsame.trans herror,
    (hcompetes _ _ herror).1 relays_shopRegistrations, (hresolved _ _ htwice).2 governed⟩

end Setup

end TypeExport
