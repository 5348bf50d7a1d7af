import TypeExport.Proofs.Universe.Completing

/-!
# Containers can be closed

Closing a container interns its open definition first, and is a fault when the
key of the container belongs to a type that takes no arguments.  A document can
bring that about in one way only: it declares a type without parameters under
the full name of the container.  The number of parameters is part of a generic
definition's key, so a definition under the key of a container takes as many
arguments as the container does.

`Universe.Closable` says of a universe which keys of containers are taken so.
Everything that follows the declarations keeps it, and a reference that is
resolved there runs into no other fault (`Builder.ends_resolve_excused`).
-/

namespace TypeExport

/-! ## Keys of generic definitions -/

/-- What stands before and behind the first occurrence of an element. -/
theorem append_cons_inj {α : Type} {x : α} {before before' behind behind' : List α}
    (h : x ∉ before) (h' : x ∉ before') (heq : before ++ x :: behind = before' ++ x :: behind') :
    before = before' ∧ behind = behind' := by
  induction before generalizing before' with
  | nil =>
    cases before' with
    | nil => exact ⟨rfl, (List.cons.inj heq).2⟩
    | cons y ys => exact absurd (List.cons.inj heq).1 fun hx => h' (hx ▸ List.mem_cons_self)
  | cons y ys ih =>
    cases before' with
    | nil => exact absurd (List.cons.inj heq).1 fun hx => h (hx ▸ List.mem_cons_self)
    | cons z zs =>
      obtain ⟨rfl, hrest⟩ := List.cons.inj heq
      obtain ⟨rfl, hbehind⟩ := ih (fun hx => h (List.mem_cons_of_mem _ hx))
        (fun hx => h' (List.mem_cons_of_mem _ hx)) hrest
      exact ⟨rfl, hbehind⟩

/-- The key of a generic definition tells its name and its number of
parameters. -/
theorem genericKey_inj {name name' : String} {arity arity' : Nat} :
    Builder.genericKey name arity = Builder.genericKey name' arity' ↔
      name = name' ∧ arity = arity' := by
  constructor
  · intro h
    have hlist : name.toList ++ '\x60' :: Nat.toDigits 10 arity =
        name'.toList ++ '\x60' :: Nat.toDigits 10 arity' := by
      have := congrArg String.toList h
      simpa [Builder.genericKey] using this
    -- the last accent is the first one from the right
    have hreverse := congrArg List.reverse hlist
    simp only [List.reverse_append, List.reverse_cons, List.append_assoc, List.singleton_append]
      at hreverse
    obtain ⟨hdigits, hname⟩ := append_cons_inj
      (fun hc => not_mem_toDigits rfl arity (List.mem_reverse.1 hc))
      (fun hc => not_mem_toDigits rfl arity' (List.mem_reverse.1 hc)) hreverse
    have harity : arity = arity' := by
      rw [← Nat.ofDigitChars_ten_toDigits (n := arity), List.reverse_inj.1 hdigits,
        Nat.ofDigitChars_ten_toDigits]
    exact ⟨String.toList_inj.1 (List.reverse_inj.1 hname), harity⟩
  · rintro ⟨rfl, rfl⟩
    rfl

/-- A container is a generic definition by its full name. -/
theorem Container.exists_genericKey (c : Container) :
    ∃ name, c.fullName = Builder.genericKey name c.arity := by
  cases c
  · exact ⟨"System.Collections.Generic.List", by decide⟩
  · exact ⟨"System.Collections.Generic.Dictionary", by decide⟩
  · exact ⟨"System.Nullable", by decide⟩

theorem arity_of_genericKey_eq {name : String} {arity : Nat} {c : Container}
    (h : Builder.genericKey name arity = c.fullName) : arity = c.arity := by
  obtain ⟨name', hname'⟩ := c.exists_genericKey
  exact (genericKey_inj.1 (h.trans hname')).2

theorem Container.fullName_injective {c c' : Container} (h : c.fullName = c'.fullName) : c = c' := by
  revert h
  cases c <;> cases c' <;> decide

/-! ## Taken keys -/

namespace Universe

open Builder (arity?)

variable {u v : Universe} {id : TypeId} {d : Descriptor} {c : Container} {taken : Container → Prop}

/-- Whether the key of each container is free, or belongs to a type that takes
as many arguments, or else is taken. -/
def Closable (taken : Container → Prop) (u : Universe) : Prop :=
  ∀ ⦃id d c⦄, u.get? id = some d → d.key = c.fullName →
    d.kind.Takes c.arity ∨ taken c ∧ arity? d = none

/-- A type that needs no declaration takes no key from a container. -/
theorem takes_of_isIntrinsic (h : d.IsIntrinsic) (hkey : d.key = c.fullName) :
    d.kind.Takes c.arity := by
  unfold Descriptor.IsIntrinsic at h
  split at h
  · exact absurd (h.symm.trans hkey) (isOwnKey_builtin _ c)
  · rename_i c' hkind
    rw [hkind, Container.fullName_injective (h.symm.trans hkey)]
    rfl
  · exact absurd hkey (h c)
  · exact absurd hkey (h c)
  · exact h.elim

theorem Closable.retain (h : u.Closable taken) (keeps : u.Retains v) : v.Closable taken := by
  intro id e c he hkey
  rcases keeps.added he with hi | hintrinsic
  · obtain ⟨d, hd⟩ := issued_iff.1 hi
    obtain ⟨ms, context, he'⟩ := keeps.type hd
    cases he.symm.trans he'
    have before : d.kind.Takes c.arity ∨ taken c ∧ arity? d = none := h hd hkey
    exact before
  · exact .inl (takes_of_isIntrinsic hintrinsic hkey)

/-- A declared type without parameters takes no arguments. -/
theorem Declared.arity?_eq_none {t : TypeEntry} (h : u.Declared t id d) (harity : t.arity = 0) :
    arity? d = none := by
  have hshape := h.shape
  cases t with
  | object name names members context =>
    obtain ⟨ids, hkind, -, hids⟩ := hshape
    cases List.length_eq_zero_iff.1 harity
    cases hids
    simp [arity?, hkind]
  | struct => simp [arity?, hshape.1]
  | enumeration => simp [arity?, hshape.1]

/-- A declared type takes as many arguments as it has parameters. -/
theorem Declared.takes {t : TypeEntry} (h : u.Declared t id d) (harity : t.arity ≠ 0) :
    d.kind.Takes t.arity := by
  have hshape := h.shape
  cases t with
  | object name names members context =>
    obtain ⟨ids, hkind, -, hids⟩ := hshape
    have hlength : names.length = ids.length := hids.length_eq
    rw [hkind]
    refine ⟨fun hnil => harity ?_, hlength⟩
    rw [hnil] at hlength
    exact hlength
  | struct => exact absurd rfl harity
  | enumeration => exact absurd rfl harity

theorem exists_of_mem_forall₂ {α β : Type} {r : α → β → Prop} {l : List α} {l' : List β}
    (h : List.Forall₂ r l l') {b : β} (hb : b ∈ l') : ∃ a ∈ l, r a b := by
  induction h with
  | nil => cases hb
  | cons hfirst _ ih =>
    rcases List.mem_cons.1 hb with rfl | hrest
    · exact ⟨_, List.mem_cons_self, hfirst⟩
    · obtain ⟨a, ha, hr⟩ := ih hrest
      exact ⟨a, List.mem_cons_of_mem _ ha, hr⟩

theorem exists_of_forall₂_mem {α β : Type} {r : α → β → Prop} {l : List α} {l' : List β}
    (h : List.Forall₂ r l l') {a : α} (ha : a ∈ l) : ∃ b ∈ l', r a b := by
  obtain ⟨b, hb, hr⟩ := exists_of_mem_forall₂ h.flip ha
  exact ⟨b, hb, hr⟩

/-- The key of a container is taken by the types without parameters that are
declared under it. -/
theorem Closable.declare {ts : List TypeEntry} {owners : List TypeId} (h : u.Closable taken)
    (declares : DeclaresAll u v ts owners)
    (htaken : ∀ t ∈ ts, t.arity = 0 → ∀ c : Container, t.name = c.fullName → taken c) :
    v.Closable taken := by
  intro id d c hd hkey
  rcases declares.other hd with hold | hid | ⟨t, -, owner, -, hparameter⟩
  · exact h hold hkey
  · obtain ⟨t, ht, e, declared, -⟩ := exists_of_mem_forall₂ declares.stored hid
    cases declared.type.symm.trans hd
    have hname : t.key = c.fullName := declared.key.symm.trans hkey
    by_cases harity : t.arity = 0
    · rw [TypeEntry.key, declaredKey_of_eq_zero harity] at hname
      exact .inr ⟨htaken t ht harity c hname, declared.arity?_eq_none harity⟩
    · rw [TypeEntry.key, declaredKey_of_ne_zero harity] at hname
      exact .inl (arity_of_genericKey_eq hname ▸ declared.takes harity)
  · rw [hparameter.key] at hkey
    exact absurd hkey (isOwnKey_parameter _ _ c)

theorem closable_empty : ({} : Universe).Closable taken := by
  intro id d c hd
  simp [get?] at hd

end Universe

namespace Builder

open Universe

variable {α β : Type} {u v : Universe} {scope arguments : List TypeId} {taken : Container → Prop}

/-! ## Closing -/

/-- What follows a step that lasts starts in a universe that has grown. -/
theorem ends_bind_lasts {x : Builder β} {f : β → Builder α} {middle : β → Universe → Prop}
    {good : α → Universe → Prop} {bad : BuildError → Universe → Prop} (hl : Lasts x u)
    (hx : Ends x u middle bad)
    (hf : ∀ b v, u.Grows v → middle b v → Ends (f b) v good bad) : Ends (x >>= f) u good bad := by
  refine ends_bind.2 ?_
  unfold Ends at hx ⊢
  cases hrun : x u with
  | ok b v =>
    rw [hrun] at hx
    exact hf b v (hl b v hrun).1 hx
  | error e v =>
    rw [hrun] at hx
    exact hx

/-- An interned type is issued. -/
theorem ends_intern (d : Descriptor) :
    Ends (intern d) u (fun id v => ∃ e, v.get? id = some e ∧ e.key = d.key) fun _ _ => False :=
  get?_intern u d

/-- Asking ends as the answer says. -/
theorem ends_ask {question : Universe → Except BuildError α} {good : α → Universe → Prop}
    {bad : BuildError → Universe → Prop} :
    Ends (ask question) u good bad ↔
      match question u with
      | .ok a => good a u
      | .error e => bad e u := by
  unfold Ends ask
  cases question u <;> exact Iff.rfl

theorem instanceOf_of_arity?_eq_none {definition : TypeId} {d : Descriptor}
    (hd : u.get? definition = some d) (h : arity? d = none) :
    instanceOf definition arguments u = .error (.shape (.notGeneric d.key)) := by
  simp [instanceOf, view_of_get? hd, h, bind, Except.bind, Except.mapError]

/-- Closing an issued definition over issued arguments fails only by its
shape. -/
theorem instanceOf_eq_error {definition : TypeId} {d : Descriptor} {e : BuildError}
    (hd : u.get? definition = some d) (hi : ∀ a ∈ arguments, u.Issued a)
    (h : instanceOf definition arguments u = .error e) : ∃ cause, e = .shape cause := by
  obtain ⟨ds, hds⟩ := exists_viewAll hi
  simp only [instanceOf, view_of_get? hd, bind, Except.bind, Except.mapError] at h
  split at h
  · cases h
    exact ⟨_, rfl⟩
  · split at h
    · rw [hds] at h
      cases h
    · cases h
      exact ⟨_, rfl⟩

/-- A container is closed over as many issued arguments as it takes, if its key
is not taken. -/
theorem ends_closeContainer (h : u.Closable taken) (c : Container)
    (hi : ∀ a ∈ arguments, u.Issued a) (hlength : arguments.length = c.arity) :
    Ends (closeContainer c arguments) u (fun id v => v.Issued id) fun e _ =>
      taken c ∧ e = .fault (.unclosedContainer (.notGeneric c.fullName)) := by
  refine ends_bind_lasts (lasts_intern rfl rfl) ((ends_intern _).mono (fun _ _ h => h)
    fun _ _ h => h.elim) ?_
  rintro definition v grows ⟨d, hd, hkey : d.key = c.fullName⟩
  rcases h.retain grows.retains hd hkey with htakes | ⟨htaken, hnone⟩
  · obtain ⟨e, he⟩ := exists_instanceOf hd (hlength ▸ htakes) fun a ha => grows.retains.issued (hi a ha)
    refine ends_bind.2 (ends_ask.2 ?_)
    rw [he]
    refine (ends_intern e).mono ?_ fun _ _ h => h.elim
    rintro id w ⟨f, hf, -⟩
    exact issued_of_get? hf
  · refine ends_bind.2 (ends_ask.2 ?_)
    rw [instanceOf_of_arity?_eq_none hd hnone, hkey]
    exact ⟨htaken, rfl⟩

/-! ## References -/

/-- Whether an error is no fault, or the fault that the key of `Nullable` is
taken. -/
def Excused (taken : Container → Prop) (e : BuildError) : Prop :=
  ∀ cause, e = .fault cause →
    taken .nullable ∧ cause = .unclosedContainer (.notGeneric Container.nullable.fullName)

theorem excused_shape (cause : ShapeError) : Excused taken (.shape cause) := by
  rintro _ ⟨⟩

theorem excused_unknownType (name : String) : Excused taken (.unknownType name) := by
  rintro _ ⟨⟩

theorem excused_badReference (text : String) (cause : ParseError) :
    Excused taken (.badReference text cause) := by
  rintro _ ⟨⟩

theorem ends_close_excused {definition : TypeId} (hd : u.Issued definition)
    (hi : ∀ a ∈ arguments, u.Issued a) :
    Ends (close definition arguments) u (fun id v => v.Issued id) fun e _ => Excused taken e := by
  obtain ⟨d, hd⟩ := issued_iff.1 hd
  refine ends_bind.2 (ends_ask.2 ?_)
  cases h : instanceOf definition arguments u with
  | ok e =>
    refine (ends_intern e).mono ?_ fun _ _ h => h.elim
    rintro id v ⟨f, hf, -⟩
    exact issued_of_get? hf
  | error e =>
    obtain ⟨cause, rfl⟩ := instanceOf_eq_error hd hi h
    exact excused_shape cause

theorem ends_declared_excused (name : String) (arity : Nat) :
    Ends (declared name arity) u (fun id v => v.Issued id) fun e _ => Excused taken e := by
  refine ends_bind.2 (ends_get.2 ?_)
  split
  · rename_i id hid
    obtain ⟨d, hd, -⟩ := get?_of_lookup? hid
    exact ends_pure.2 (issued_of_get? hd)
  · exact ends_throw.2 (excused_unknownType name)

theorem ends_intern_excused (d : Descriptor) :
    Ends (intern d) u (fun id v => v.Issued id) fun e _ => Excused taken e := by
  refine (ends_intern d).mono ?_ fun _ _ h => h.elim
  rintro id v ⟨e, he, -⟩
  exact issued_of_get? he

theorem ends_definitionOf_excused (name : String) (arity : Nat) :
    Ends (definitionOf name arity) u (fun id v => v.Issued id) fun e _ => Excused taken e := by
  unfold definitionOf
  split
  · exact ends_intern_excused _
  · exact ends_declared_excused name arity

mutual

/-- A reference is resolved to an issued type, or fails with an excused
error. -/
theorem ends_resolve_excused {u : Universe} (h : u.Closable taken) (hs : ∀ p ∈ scope, u.Issued p) :
    ∀ r : TypeRef, Ends (resolve scope r) u (fun id v => v.Issued id) fun e _ => Excused taken e
  | .array element => by
    rw [resolve]
    refine ends_bind_lasts (lasts_resolve hs element) (ends_resolve_excused h hs element) ?_
    intro e v _ he
    obtain ⟨d, hd⟩ := issued_iff.1 he
    exact ends_bind.2 ((ends_view hd).2 (ends_intern_excused _))
  | .nullable underlying => by
    rw [resolve]
    refine ends_bind_lasts (lasts_resolve hs underlying) (ends_resolve_excused h hs underlying) ?_
    intro x v grows hx
    refine (ends_closeContainer (h.retain grows.retains) .nullable (List.forall_mem_singleton.2 hx)
      rfl).mono (fun _ _ h => h) ?_
    rintro _ _ ⟨htaken, rfl⟩ _ ⟨⟩
    exact ⟨htaken, rfl⟩
  | .named name [] => by
    rw [resolve]
    refine ends_bind.2 (ends_get.2 ?_)
    split
    · rename_i id hid
      exact ends_pure.2 (hs id (mem_of_inScope? hid))
    · split
      · exact ends_intern_excused _
      · exact ends_declared_excused name 0
  | .named name (a :: as) => by
    rw [resolve_closed]
    refine ends_bind_lasts (lasts_definitionOf _ _) (ends_definitionOf_excused _ _) ?_
    intro definition v grows hdefinition
    have hv := fun p hp => grows.retains.issued (hs p hp)
    refine ends_bind_lasts (lasts_resolve hv a)
      (ends_resolve_excused (h.retain grows.retains) hv a) ?_
    intro x w grows' hx
    have hw := fun p hp => grows'.retains.issued (hv p hp)
    refine ends_bind_lasts (lasts_resolveAll hw as)
      (ends_resolveAll_excused (h.retain (grows.trans grows').retains) hw as) ?_
    intro xs z grows'' hxs
    exact ends_close_excused ((grows'.trans grows'').retains.issued hdefinition)
      (List.forall_mem_cons.2 ⟨grows''.retains.issued hx, hxs⟩)

theorem ends_resolveAll_excused {u : Universe} (h : u.Closable taken)
    (hs : ∀ p ∈ scope, u.Issued p) :
    ∀ rs : List TypeRef, Ends (resolveAll scope rs) u (fun ids v => ∀ id ∈ ids, v.Issued id)
      fun e _ => Excused taken e
  | [] => by
    rw [resolveAll]
    exact ends_pure.2 (by simp)
  | r :: rs => by
    rw [resolveAll]
    refine ends_bind_lasts (lasts_resolve hs r) (ends_resolve_excused h hs r) ?_
    intro id v grows hid
    have hv := fun p hp => grows.retains.issued (hs p hp)
    refine ends_bind_lasts (lasts_resolveAll hv rs)
      (ends_resolveAll_excused (h.retain grows.retains) hv rs) ?_
    intro ids w grows' hids
    exact ends_pure.2 (List.forall_mem_cons.2 ⟨grows'.retains.issued hid, hids⟩)

end

/-- The text of a reference fails with an excused error only. -/
theorem fails_excused (h : u.Closable taken) (hs : ∀ p ∈ scope, u.Issued p) (reference : String) :
    Fails (Excused taken) scope reference u := by
  intro v keeps
  unfold resolveText
  split
  · exact (ends_resolve_excused (h.retain keeps) (keeps.issued_all hs) _).mono
      (fun _ _ _ => trivial) fun _ _ h => h
  · exact ends_throw.2 (excused_badReference reference _)

end Builder

end TypeExport
