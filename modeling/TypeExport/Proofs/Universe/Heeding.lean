import TypeExport.Proofs.Universe.Branching
import TypeExport.Proofs.Universe.Maintaining

/-!
# Resolving in two branches

Whatever the steps of resolving are asked to do, they leave branches of the
universe that they started from, also when they fail
(`Builder.composes_isBranch`).

A reference is resolved in two branches side by side.  When the second knows the
open containers that the first knows, both give types with one key or fail with
one error, unless the first overlooks a container that it does not know
(`Builder.heeds_resolve`).
-/

namespace TypeExport

namespace Builder

open Universe

variable {α β : Type} {b u v : Universe}

/-! ## What resolving leaves -/

/-- Whether a step leads from branches of a universe to branches of it. -/
def Branching (b : Universe) (x : Builder α) : Prop :=
  ∀ u, b.IsBranch u → Ends x u (fun _ => b.IsBranch) fun _ => b.IsBranch

theorem arises_brackets {d : Descriptor} {element : TypeId} {key : String}
    (hkind : d.kind = .array element) (hkey : d.key = key ++ "[]") : d.Arises := by
  unfold Descriptor.Arises
  rw [hkind, hkey]
  simp [isPlainKey, isKeyMark]

theorem Closes.arises {definition : TypeId} {arguments : List TypeId} {d : Descriptor}
    (h : Closes u definition arguments d) : d.Arises := by
  unfold Descriptor.Arises
  rw [h.kind, h.key]
  simp [isPlainKey, isKeyMark]

theorem branching_intern {d : Descriptor} (hd : d.Arises) : Branching b (intern d) :=
  Maintains.intern fun _ h => h.intern hd

theorem branching_arrayOf (element : TypeId) : Branching b (arrayOf element) :=
  Maintains.bind (.ask _) fun _ => branching_intern (arises_brackets rfl rfl)

theorem branching_close (definition : TypeId) (arguments : List TypeId) :
    Branching b (close definition arguments) :=
  Maintains.ask_intern fun _ _ h hd => h.intern (closes_of_instanceOf hd).arises

theorem branching_closeContainer (c : Container) (arguments : List TypeId) :
    Branching b (closeContainer c arguments) :=
  Maintains.bind (branching_intern rfl) fun _ => .ask_intern fun _ _ h hd =>
    h.intern (closes_of_instanceOf (mapError_eq_ok_iff.1 hd)).arises

/-- Types are composed in branches. -/
theorem composes_isBranch (b : Universe) : Composes b.IsBranch where
  builtin _ := branching_intern rfl
  container _ := branching_intern rfl
  arrayOf := branching_arrayOf
  close := branching_close
  closeContainer := branching_closeContainer

theorem branching_closeOver (scope : List TypeId) (a : TypeRef) (as : List TypeRef)
    (definition : TypeId) : Branching b (closeOver scope a as definition) :=
  ((composes_isBranch b).resolve scope a).bind fun x =>
    ((composes_isBranch b).resolveAll scope as).bind fun xs => branching_close definition (x :: xs)

/-- Resolving the text of a reference leaves a branch. -/
theorem branching_resolveText (scope : List TypeId) (text : String) :
    Branching b (resolveText scope text) := (composes_isBranch b).resolveText scope text

/-! ## Two branches -/

/-- Whether an error is about the full name of an open container, which is not
known. -/
def Overlooks (e : BuildError) (u : Universe) : Prop :=
  ∃ (name : String) (c : Container), e = .unknownType name ∧
    genericKey name c.arity = c.fullName ∧ u.lookup? c.fullName = none

/-- How steps end in two branches. -/
inductive Heeds (b : Universe) (R : Universe → Universe → α → α → Prop) (x y : Builder α)
    (u v : Universe) : Prop
  | ok {a a' : α} {u' v' : Universe} : x u = .ok a u' → y v = .ok a' v' → Split b u' v' →
      u.Extends u' → v.Extends v' → R u' v' a a' → Heeds b R x y u v
  | error {e : BuildError} {u' v' : Universe} : x u = .error e u' → y v = .error e v' →
      Heeds b R x y u v
  | overlooks {e : BuildError} {u' : Universe} : x u = .error e u' → Overlooks e u' →
      Heeds b R x y u v

namespace Heeds

variable {R : Universe → Universe → α → α → Prop}

theorem pure {a a' : α} (h : Split b u v) (hr : R u v a a') :
    Heeds b R (pure a) (pure a') u v :=
  .ok rfl rfl h (.refl u) (.refl v) hr

theorem throw (e : BuildError) : Heeds b R (throw e) (throw e) u v := .error rfl rfl

theorem bind {Q : Universe → Universe → β → β → Prop} {x y : Builder β} {f g : β → Builder α}
    (hx : Heeds b Q x y u v)
    (hf : ∀ c c' u' v', Split b u' v' → u.Extends u' → v.Extends v' → Q u' v' c c' →
      Heeds b R (f c) (g c') u' v') : Heeds b R (x >>= f) (y >>= g) u v := by
  cases hx with
  | error hxu hyv => exact .error (bind_of_eq_error hxu) (bind_of_eq_error hyv)
  | overlooks hxu hover => exact .overlooks (bind_of_eq_error hxu) hover
  | ok hxu hyv split hu hv hq =>
    cases hf _ _ _ _ split hu hv hq with
    | ok hfu hgv split' hu' hv' hr =>
      exact .ok ((bind_of_eq_ok hxu).trans hfu) ((bind_of_eq_ok hyv).trans hgv) split'
        (hu.trans hu') (hv.trans hv') hr
    | error hfu hgv =>
      exact .error ((bind_of_eq_ok hxu).trans hfu) ((bind_of_eq_ok hyv).trans hgv)
    | overlooks hfu hover => exact .overlooks ((bind_of_eq_ok hxu).trans hfu) hover

end Heeds

theorem heeds_intern {d e : Descriptor} (h : Split b u v) (hd : d.Arises) (he : e.Arises)
    (hkey : d.key = e.key) : Heeds b Twins (intern d) (intern e) u v :=
  .ok rfl rfl (h.intern hd he hkey).1 (extends_intern u d) (extends_intern v e)
    (h.intern hd he hkey).2

theorem heeds_arrayOf {i j : TypeId} (h : Split b u v) (htwins : Twins u v i j) :
    Heeds b Twins (arrayOf i) (arrayOf j) u v := by
  obtain ⟨d, e, hd, he, hkey⟩ := htwins
  have hview : Heeds b (fun u' v' f g => f.key = g.key) (view i) (view j) u v :=
    .ok (view_eq_ok_iff.2 ⟨hd, rfl⟩) (view_eq_ok_iff.2 ⟨he, rfl⟩) h (.refl u) (.refl v) hkey
  refine hview.bind fun f g u' v' split _ _ hfg => ?_
  exact heeds_intern split (arises_brackets rfl rfl) (arises_brackets rfl rfl)
    (congrArg (· ++ "[]") hfg)

/-- Twins are viewed alike. -/
theorem viewAll_of_twins {is js : List TypeId} (h : List.Forall₂ (Twins u v) is js) :
    ∃ ds es, u.viewAll is = .ok ds ∧ v.viewAll js = .ok es ∧
      ds.map (·.key) = es.map (·.key) := by
  have hi : ∀ i ∈ is, u.Issued i := by
    intro i hi
    obtain ⟨j, -, d, e, hd, -⟩ := exists_of_forall₂_mem h hi
    exact issued_of_get? hd
  have hj : ∀ j ∈ js, v.Issued j := by
    intro j hj
    obtain ⟨i, -, d, e, -, he, -⟩ := exists_of_mem_forall₂ h hj
    exact issued_of_get? he
  obtain ⟨ds, hds⟩ := exists_viewAll hi
  obtain ⟨es, hes⟩ := exists_viewAll hj
  refine ⟨ds, es, hds, hes, ?_⟩
  rw [map_key_of_viewAll hds, map_key_of_viewAll hes]
  clear hi hj hds hes
  induction h with
  | nil => rfl
  | cons hfirst _ ih => rw [List.map_cons, List.map_cons, hfirst.keyOf, ih]

/-- Twins are closed over twins alike. -/
theorem instanceOf_of_twins {f g : TypeId} {is js : List TypeId} (h : Split b u v)
    (hdefinition : Twins u v f g) (harguments : List.Forall₂ (Twins u v) is js) :
    (∃ d e, instanceOf f is u = .ok d ∧ instanceOf g js v = .ok e ∧ d.key = e.key) ∨
      ∃ e, instanceOf f is u = .error e ∧ instanceOf g js v = .error e := by
  obtain ⟨d, e, hd, he, hkey⟩ := hdefinition
  obtain ⟨ds, es, hds, hes, hkeys⟩ := viewAll_of_twins harguments
  have harity := h.arity?_eq hd he hkey
  have hlength := harguments.length_eq
  unfold instanceOf
  simp only [view_of_get? hd, view_of_get? he, hds, hes, Except.mapError, bind, Except.bind, pure,
    Except.pure, harity, hlength, hkey, hkeys]
  cases arity? e with
  | none => exact .inr ⟨_, rfl, rfl⟩
  | some expected =>
    by_cases hcount : js.length = expected.1
    · simp only [hcount, if_true]
      exact .inl ⟨_, _, rfl, rfl, rfl⟩
    · simp only [hcount, if_false]
      exact .inr ⟨_, rfl, rfl⟩

theorem heeds_ask_intern {question question' : Universe → Except BuildError Descriptor}
    (h : Split b u v)
    (hq : (∃ d e, question u = .ok d ∧ question' v = .ok e ∧ d.Arises ∧ e.Arises ∧ d.key = e.key) ∨
      ∃ e, question u = .error e ∧ question' v = .error e) :
    Heeds b Twins (do intern (← ask question)) (do intern (← ask question')) u v := by
  rcases hq with ⟨d, e, hd, he, hdarises, hearises, hkey⟩ | ⟨e, hu, hv⟩
  · have hask : Heeds b (fun _ _ f g => f = d ∧ g = e) (ask question) (ask question') u v :=
      .ok (ask_eq_ok_iff.2 ⟨hd, rfl⟩) (ask_eq_ok_iff.2 ⟨he, rfl⟩) h (.refl u) (.refl v) ⟨rfl, rfl⟩
    refine hask.bind ?_
    rintro _ _ u' v' split - - ⟨rfl, rfl⟩
    exact heeds_intern split hdarises hearises hkey
  · have hask : Heeds b (fun _ _ _ _ => False) (ask question) (ask question') u v :=
      .error (by rw [ask, hu]) (by rw [ask, hv])
    exact hask.bind fun _ _ _ _ _ _ _ hfalse => hfalse.elim

theorem heeds_close {f g : TypeId} {is js : List TypeId} (h : Split b u v)
    (hdefinition : Twins u v f g) (harguments : List.Forall₂ (Twins u v) is js) :
    Heeds b Twins (close f is) (close g js) u v := by
  refine heeds_ask_intern h ?_
  rcases instanceOf_of_twins h hdefinition harguments with ⟨d, e, hd, he, hkey⟩ | herror
  · exact .inl ⟨d, e, hd, he, (closes_of_instanceOf hd).arises, (closes_of_instanceOf he).arises,
      hkey⟩
  · exact .inr herror

theorem heeds_nullableOf {i j : TypeId} (h : Split b u v) (htwins : Twins u v i j) :
    Heeds b Twins (nullableOf i) (nullableOf j) u v := by
  have hcontainer : Heeds b Twins (container .nullable) (container .nullable) u v :=
    heeds_intern h rfl rfl rfl
  refine hcontainer.bind fun f g u' v' split hu hv hfg => heeds_ask_intern split ?_
  rcases instanceOf_of_twins split hfg (.cons (htwins.extend hu hv) .nil) with
    ⟨d, e, hd, he, hkey⟩ | ⟨e, hu', hv'⟩
  · exact .inl ⟨d, e, mapError_eq_ok_iff.2 hd, mapError_eq_ok_iff.2 he,
      (closes_of_instanceOf hd).arises, (closes_of_instanceOf he).arises, hkey⟩
  · exact .inr ⟨unclosed e, by rw [hu', Except.mapError], by rw [hv', Except.mapError]⟩

/-! ## References -/

theorem declared_eq {w : Universe} (name : String) (arity : Nat) : declared name arity w =
    match w.lookup? (declaredKey name arity) with
    | some id => .ok id w
    | none => .error (.unknownType name) w := by
  show (match w.lookup? (declaredKey name arity) with
    | some id => (pure id : Builder TypeId)
    | none => throw (BuildError.unknownType name)) w = _
  cases w.lookup? (declaredKey name arity) <;> rfl

/-- A declared type is found in both branches, if it is no open container that
the first does not know. -/
theorem heeds_declared {name : String} {arity : Nat} (h : Split b u v) (hpath : IsPathText name)
    (hbuiltin : ∀ c : Builtin, declaredKey name arity ≠ c.fullName) :
    Heeds b Twins (declared name arity) (declared name arity) u v := by
  have hplain := isPlainKey_declaredKey hpath arity
  cases hu : u.lookup? (declaredKey name arity) with
  | some i =>
    obtain ⟨j, hj, htwins⟩ := h.of_lookup? hplain hbuiltin hu
    exact .ok (by rw [declared_eq, hu]) (by rw [declared_eq, hj]) h (.refl u) (.refl v) htwins
  | none =>
    have hthrow : declared name arity u = .error (.unknownType name) u := by rw [declared_eq, hu]
    cases hv : v.lookup? (declaredKey name arity) with
    | none => exact .error hthrow (by rw [declared_eq, hv])
    | some j =>
      obtain ⟨c, hc⟩ := h.of_lookup?_eq_none hplain hbuiltin hu hv
      -- a path alone is no full name of a container
      have harity : arity ≠ 0 := by
        intro hzero
        rw [declaredKey_of_eq_zero hzero] at hc
        exact isOwnKey_of_no_arity (hpath.not_mem (by decide) (by decide)) c hc
      have hkey := hc
      rw [declaredKey_of_ne_zero harity] at hkey
      refine .overlooks hthrow ⟨name, c, rfl, ?_, hc ▸ hu⟩
      rw [← arity_of_genericKey_eq hkey, hkey]

theorem declaredKey_ne_builtin {name : String} {arity : Nat} (harity : arity ≠ 0) (c : Builtin) :
    declaredKey name arity ≠ c.fullName := by
  rw [declaredKey_of_ne_zero harity]
  intro h
  have haccent : '\x60' ∈ c.fullName.toList := by
    rw [← h]
    simp [genericKey]
  revert haccent
  cases c <;> decide

theorem heeds_definitionOf {name : String} {arity : Nat} (h : Split b u v)
    (hpath : IsPathText name) (harity : arity ≠ 0) :
    Heeds b Twins (definitionOf name arity) (definitionOf name arity) u v := by
  unfold definitionOf
  split
  · exact heeds_intern h rfl rfl rfl
  · exact heeds_declared h hpath (declaredKey_ne_builtin harity)

theorem heeds_resolve_name {name : String} (h : Split b u v) (hpath : IsPathText name) :
    Heeds b Twins (resolve [] (.named name [])) (resolve [] (.named name [])) u v := by
  have hget : Heeds b (fun _ _ _ _ => True) (get : Builder Universe) get u v :=
    .ok rfl rfl h (.refl u) (.refl v) trivial
  rw [resolve]
  refine hget.bind fun _ _ u' v' split _ _ _ => ?_
  simp only [inScope?, List.find?_nil]
  cases hname : Builtin.ofName? name with
  | some c => exact heeds_intern split rfl rfl rfl
  | none =>
    refine heeds_declared split hpath fun c hc => ?_
    rw [declaredKey_of_eq_zero rfl] at hc
    rw [hc, Builtin.ofName?_fullName] at hname
    cases hname

mutual

/-- A reference has the same answer in both branches, or the first overlooks an
open container. -/
theorem heeds_resolve {u v : Universe} (h : Split b u v) :
    ∀ r : TypeRef, r.NamesPaths → Heeds b Twins (resolve [] r) (resolve [] r) u v
  | .array element, hr => by
    rw [resolve]
    exact (heeds_resolve h element (TypeRef.namesPaths_array.1 hr)).bind
      fun _ _ _ _ split _ _ htwins => heeds_arrayOf split htwins
  | .nullable underlying, hr => by
    rw [resolve]
    exact (heeds_resolve h underlying (TypeRef.namesPaths_nullable.1 hr)).bind
      fun _ _ _ _ split _ _ htwins => heeds_nullableOf split htwins
  | .named name [], hr => heeds_resolve_name h (TypeRef.namesPaths_named.1 hr).1
  | .named name (a :: as), hr => by
    obtain ⟨hpath, harguments⟩ := TypeRef.namesPaths_named.1 hr
    obtain ⟨ha, has⟩ := List.forall_mem_cons.1 harguments
    rw [resolve_closed]
    refine (heeds_definitionOf h hpath (Nat.succ_ne_zero _)).bind fun f g u' v' split _ _ hfg => ?_
    refine (heeds_resolve split a ha).bind fun x y u₁ v₁ split₁ hu₁ hv₁ hxy => ?_
    refine (heeds_resolveAll split₁ as has).bind fun xs ys u₂ v₂ split₂ hu₂ hv₂ hxys => ?_
    exact heeds_close split₂ ((hfg.extend hu₁ hv₁).extend hu₂ hv₂)
      (.cons (hxy.extend hu₂ hv₂) hxys)

theorem heeds_resolveAll {u v : Universe} (h : Split b u v) :
    ∀ rs : List TypeRef, (∀ r ∈ rs, r.NamesPaths) →
      Heeds b (fun u v is js => List.Forall₂ (Twins u v) is js) (resolveAll [] rs)
        (resolveAll [] rs) u v
  | [], _ => by
    rw [resolveAll]
    exact .pure h .nil
  | r :: rs, hr => by
    obtain ⟨hfirst, hrest⟩ := List.forall_mem_cons.1 hr
    rw [resolveAll]
    refine (heeds_resolve h r hfirst).bind fun x y u₁ v₁ split₁ _ _ hxy => ?_
    refine (heeds_resolveAll split₁ rs hrest).bind fun xs ys u₂ v₂ split₂ hu₂ hv₂ hxys => ?_
    exact .pure split₂ (.cons (hxy.extend hu₂ hv₂) hxys)

end

/-- The text of a reference has the same answer in both branches, or the first
overlooks an open container. -/
theorem heeds_resolveText (h : Split b u v) (text : String) :
    Heeds b Twins (resolveText [] text) (resolveText [] text) u v := by
  unfold resolveText
  split
  · rename_i r hr
    exact heeds_resolve h r (TypeRef.namesPaths_of_parse hr)
  · exact .throw _

end Builder

end TypeExport
