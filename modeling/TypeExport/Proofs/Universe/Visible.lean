import TypeExport.Proofs.Universe.Retaining

/-!
# Visible type parameters

A name in a reference means the first type parameter of that name, so of two
parameters with one name the second is never seen.  A reference is resolved in a
scope as it is among the parameters that the scope shows
(`Builder.resolveText_visible`), and these are known by their names
(`Builder.eq_of_mem_visible`).
-/

namespace TypeExport

namespace Builder

open Universe

variable {α β : Type} {u : Universe} {scope scope' : List TypeId} {p q : TypeId}

/-- The type parameters of a scope that are the first of their names. -/
def visible (u : Universe) (scope : List TypeId) : List TypeId :=
  scope.filter fun p => inScope? u scope (u.nameOf p) = some p

theorem visible_subset (u : Universe) (scope : List TypeId) : visible u scope ⊆ scope :=
  List.filter_subset_self _

/-- What is visible is known by its name. -/
theorem eq_of_mem_visible (hp : p ∈ visible u scope) (hq : q ∈ visible u scope)
    (h : u.nameOf p = u.nameOf q) : p = q := by
  have hp' : inScope? u scope (u.nameOf p) = some p := of_decide_eq_true (List.mem_filter.1 hp).2
  have hq' : inScope? u scope (u.nameOf q) = some q := of_decide_eq_true (List.mem_filter.1 hq).2
  rw [h, hq'] at hp'
  exact (Option.some.inj hp').symm

/-- The visible type parameters are those that are found. -/
theorem inScope?_visible (u : Universe) (scope : List TypeId) (name : String) :
    inScope? u (visible u scope) name = inScope? u scope name := by
  cases h : inScope? u scope name with
  | none =>
    refine List.find?_eq_none.2 fun p hp => ?_
    exact List.find?_eq_none.1 h p (visible_subset u scope hp)
  | some p =>
    obtain ⟨hname, before, behind, hscope, hbefore⟩ := List.find?_eq_some_iff_append.1 h
    have found : inScope? u scope (u.nameOf p) = some p := by rw [nameOf_of_inScope? h, h]
    unfold inScope? visible
    rw [List.find?_filter]
    refine List.find?_eq_some_iff_append.2 ⟨by simp [found, hname], before, behind, hscope, ?_⟩
    intro q hq
    simp only [Bool.not_eq_true'] at hbefore
    simp [hbefore q hq]

/-! ## References -/

/-- Whether two scopes of issued type parameters show the same ones. -/
structure ShowsSame (u : Universe) (scope scope' : List TypeId) : Prop where
  issued : ∀ p ∈ scope, u.Issued p
  issued' : ∀ p ∈ scope', u.Issued p
  found : ∀ name, inScope? u scope name = inScope? u scope' name

theorem ShowsSame.grow {v : Universe} (h : ShowsSame u scope scope') (grows : u.Grows v) :
    ShowsSame v scope scope' where
  issued p hp := grows.issued (h.issued p hp)
  issued' p hp := grows.issued (h.issued' p hp)
  found name := by
    rw [inScope?_of_remembers h.issued grows.remembers,
      inScope?_of_remembers h.issued' grows.remembers, h.found]

/-- Steps that agree are followed by what agrees behind them. -/
theorem bind_congr_of_lasts {x y : Builder β} {f g : β → Builder α} (hxy : x u = y u)
    (hx : Lasts x u) (hf : ∀ b v, u.Grows v → f b v = g b v) : (x >>= f) u = (y >>= g) u := by
  show EStateM.bind x f u = EStateM.bind y g u
  unfold EStateM.bind
  rw [← hxy]
  cases hrun : x u with
  | ok b v => exact hf b v (hx b v hrun).1
  | error e v => rfl

mutual

/-- A reference is resolved alike in scopes that show the same. -/
theorem resolve_showsSame {u : Universe} (h : ShowsSame u scope scope') :
    ∀ r : TypeRef, resolve scope r u = resolve scope' r u
  | .array element => by
    rw [resolve, resolve]
    exact bind_congr_of_lasts (resolve_showsSame h element) (lasts_resolve h.issued element)
      fun _ _ _ => rfl
  | .nullable underlying => by
    rw [resolve, resolve]
    exact bind_congr_of_lasts (resolve_showsSame h underlying) (lasts_resolve h.issued underlying)
      fun _ _ _ => rfl
  | .named name [] => by
    rw [resolve, resolve]
    show (match inScope? u scope name with | some id => _ | none => _ : Builder TypeId) u = _
    rw [h.found name]
    rfl
  | .named name (a :: as) => by
    rw [resolve_closed, resolve_closed]
    refine bind_congr_of_lasts rfl (lasts_definitionOf _ _) fun definition v grows => ?_
    have hv := h.grow grows
    refine bind_congr_of_lasts (resolve_showsSame hv a) (lasts_resolve hv.issued a)
      fun x w grows' => ?_
    have hw := hv.grow grows'
    exact bind_congr_of_lasts (resolveAll_showsSame hw as) (lasts_resolveAll hw.issued as)
      fun _ _ _ => rfl

theorem resolveAll_showsSame {u : Universe} (h : ShowsSame u scope scope') :
    ∀ rs : List TypeRef, resolveAll scope rs u = resolveAll scope' rs u
  | [] => by rw [resolveAll, resolveAll]
  | r :: rs => by
    rw [resolveAll, resolveAll]
    refine bind_congr_of_lasts (resolve_showsSame h r) (lasts_resolve h.issued r)
      fun _ v grows => ?_
    have hv := h.grow grows
    exact bind_congr_of_lasts (resolveAll_showsSame hv rs) (lasts_resolveAll hv.issued rs)
      fun _ _ _ => rfl

end

/-- The text of a reference is resolved in a scope as among the type parameters
that the scope shows. -/
theorem resolveText_visible (hs : ∀ p ∈ scope, u.Issued p) (text : String) :
    resolveText (visible u scope) text u = resolveText scope text u := by
  have same : ShowsSame u (visible u scope) scope :=
    ⟨fun p hp => hs p (visible_subset u scope hp), hs, inScope?_visible u scope⟩
  unfold resolveText
  cases TypeRef.parse text with
  | ok r => exact resolve_showsSame same r
  | error cause => rfl

end Builder

end TypeExport
