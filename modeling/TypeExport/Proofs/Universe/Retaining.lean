import TypeExport.Proofs.Universe.Resolving

/-!
# Resolving again

Some types need no declaration: references alone intern them
(`Descriptor.IsIntrinsic`).  Resolving adds no others and leaves the types as
they are (`Universe.Grows`).  Members and default flags that are added later
change a type, but nothing else of it (`Universe.Remembers`), and a reference is
resolved without them.  So once it is resolved, it is resolved to the same type
in every later universe, and resolving it again interns nothing
(`Builder.lasts_resolveText`).
-/

namespace TypeExport

/-- Whether a type needs no declaration.  Only an open container has the key of
one then. -/
def Descriptor.IsIntrinsic (d : Descriptor) : Prop :=
  match d.kind with
  | .builtin b => d.key = b.fullName
  | .container c => d.key = c.fullName
  | .array _ | .closed .. => Universe.IsOwnKey d.key
  | _ => False

namespace Universe

variable {u v w : Universe} {id : TypeId} {d : Descriptor}

/-- Whether a universe has the types of another and perhaps more. -/
structure Extends (u v : Universe) : Prop where
  type : ∀ {id d}, u.get? id = some d → v.get? id = some d
  lookup : ∀ {key id}, u.lookup? key = some id → v.lookup? key = some id

/-- What resolving does to a universe. -/
structure Grows (u v : Universe) : Prop extends Extends u v where
  /-- A new type needs no declaration. -/
  added : ∀ {id d}, v.get? id = some d → u.get? id = some d ∨ d.IsIntrinsic ∧ d.members = []

/-- What a later universe still knows of an earlier one. -/
structure Remembers (u v : Universe) : Prop where
  /-- Everything of a type but its members and their default flag. -/
  type : ∀ {id d}, u.get? id = some d →
    ∃ members context, v.get? id = some { d with members, context }
  /-- The id of a key. -/
  lookup : ∀ {key id}, u.lookup? key = some id → v.lookup? key = some id

/-- What a universe keeps once its types are declared. -/
structure Retains (u v : Universe) : Prop extends Remembers u v where
  /-- A new type needs no declaration. -/
  added : ∀ {id d}, v.get? id = some d → u.Issued id ∨ d.IsIntrinsic

namespace Extends

theorem refl (u : Universe) : u.Extends u := ⟨fun h => h, fun h => h⟩

theorem trans (h : u.Extends v) (h' : v.Extends w) : u.Extends w :=
  ⟨fun hd => h'.type (h.type hd), fun hl => h'.lookup (h.lookup hl)⟩

theorem issued (h : u.Extends v) (hi : u.Issued id) : v.Issued id := by
  obtain ⟨d, hd⟩ := issued_iff.1 hi
  exact issued_of_get? (h.type hd)

theorem remembers (h : u.Extends v) : u.Remembers v := ⟨fun hd => ⟨_, _, h.type hd⟩, h.lookup⟩

end Extends

namespace Grows

theorem refl (u : Universe) : u.Grows u := ⟨.refl u, .inl⟩

theorem trans (h : u.Grows v) (h' : v.Grows w) : u.Grows w where
  toExtends := h.toExtends.trans h'.toExtends
  added hd := by
    rcases h'.added hd with hold | hnew
    · exact h.added hold
    · exact .inr hnew

theorem retains (h : u.Grows v) : u.Retains v where
  toRemembers := h.remembers
  added hd := by
    rcases h.added hd with hold | ⟨hnew, -⟩
    · exact .inl (issued_of_get? hold)
    · exact .inr hnew

end Grows

namespace Remembers

theorem refl (u : Universe) : u.Remembers u := (Extends.refl u).remembers

theorem trans (h : u.Remembers v) (h' : v.Remembers w) : u.Remembers w where
  type hd := by
    obtain ⟨ms, c, he⟩ := h.type hd
    obtain ⟨ms', c', hf⟩ := h'.type he
    exact ⟨ms', c', hf⟩
  lookup hl := h'.lookup (h.lookup hl)

theorem keeps (h : u.Remembers v) : u.Keeps v where
  type hd := by
    obtain ⟨ms, c, he⟩ := h.type hd
    exact ⟨_, he, rfl, rfl, .inl rfl⟩
  lookup := h.lookup

theorem issued (h : u.Remembers v) (hi : u.Issued id) : v.Issued id := h.keeps.issued hi

theorem keyOf (h : u.Remembers v) (hi : u.Issued id) : v.keyOf id = u.keyOf id :=
  h.keeps.keyOf hi

end Remembers

namespace Retains

theorem refl (u : Universe) : u.Retains u := (Grows.refl u).retains

theorem trans (h : u.Retains v) (h' : v.Retains w) : u.Retains w where
  toRemembers := h.toRemembers.trans h'.toRemembers
  added {id f} hf := by
    rcases h'.added hf with hold | hnew
    · obtain ⟨e, he⟩ := issued_iff.1 hold
      refine (h.added he).imp_right fun hintrinsic => ?_
      obtain ⟨ms, c, hf'⟩ := h'.type he
      cases hf.symm.trans hf'
      exact hintrinsic
    · exact .inr hnew

end Retains

/-- Interning leaves nothing new but the descriptor. -/
theorem of_get?_intern {e : Descriptor} (h : (u.intern d).2.get? id = some e) :
    u.get? id = some e ∨ id = (u.intern d).1 ∧ e = d := by
  cases hk : u.lookup? d.key with
  | some i =>
    rw [intern_of_lookup? hk] at h
    exact .inl h
  | none =>
    rw [get?_intern_of_lookup?_eq_none hk] at h
    split at h
    · rename_i hid
      exact .inr ⟨by rw [hid, intern_of_lookup?_eq_none hk], (Option.some.inj h).symm⟩
    · exact .inl h

theorem extends_intern (u : Universe) (d : Descriptor) : u.Extends (u.intern d).2 :=
  ⟨get?_intern_of_get?, lookup?_intern_of_lookup?⟩

theorem grows_intern (u : Universe) (hd : d.IsIntrinsic) (hbare : d.members = []) :
    u.Grows (u.intern d).2 where
  toExtends := extends_intern u d
  added h := by
    rcases of_get?_intern h with hold | ⟨-, rfl⟩
    · exact .inl hold
    · exact .inr ⟨hd, hbare⟩

end Universe

namespace Builder

open Universe

variable {α β : Type} {u v w : Universe} {scope : List TypeId} {id : TypeId}

/-! ## Closing definitions -/

theorem takes_iff_arity? {d : Descriptor} {count : Nat} :
    d.kind.Takes count ↔ ∃ isValueType, arity? d = some (count, isValueType) := by
  unfold arity? TypeKind.Takes
  cases d.kind with
  | container c => simp [eq_comm]
  | object parameters => cases parameters <;> simp [eq_comm]
  | _ => simp

/-- A definition can be closed over issued arguments when it takes that
many. -/
theorem exists_instanceOf {definition : TypeId} {arguments : List TypeId} {d : Descriptor}
    (hd : u.get? definition = some d) (ht : d.kind.Takes arguments.length)
    (hi : ∀ a ∈ arguments, u.Issued a) : ∃ e, instanceOf definition arguments u = .ok e := by
  obtain ⟨isValueType, harity⟩ := takes_iff_arity?.1 ht
  obtain ⟨ds, hds⟩ := exists_viewAll hi
  unfold instanceOf
  simp [view_of_get? hd, harity, hds, bind, Except.bind, Except.mapError, pure, Except.pure]

theorem issued_of_viewAll {ids : List TypeId} {ds : List Descriptor} (h : u.viewAll ids = .ok ds) :
    ∀ id ∈ ids, u.Issued id := by
  have hds := viewAll_eq_ok_iff.1 h
  clear h
  induction hds with
  | nil => simp
  | cons hd _ ih => exact List.forall_mem_cons.2 ⟨issued_of_get? hd, ih⟩

/-- A definition is closed over issued arguments only. -/
theorem issued_of_instanceOf {definition : TypeId} {arguments : List TypeId} {e : Descriptor}
    (h : instanceOf definition arguments u = .ok e) : ∀ a ∈ arguments, u.Issued a := by
  unfold instanceOf at h
  cases hv : u.view definition with
  | error => simp [hv, bind, Except.bind, Except.mapError] at h
  | ok d =>
    simp only [hv, bind, Except.bind, Except.mapError] at h
    split at h
    · cases h
    · split at h
      · cases hds : u.viewAll arguments with
        | error => simp [hds] at h
        | ok ds => exact issued_of_viewAll hds
      · cases h

/-- A closed generic needs no declaration. -/
theorem Closes.intrinsic {definition : TypeId} {arguments : List TypeId} {d : Descriptor}
    (h : Closes u definition arguments d) : d.IsIntrinsic := by
  simp only [Descriptor.IsIntrinsic, h.kind, h.key]
  exact isOwnKey_angles _

/-- A closed generic has the same key in a later universe. -/
theorem instanceOf_of_remembers {definition : TypeId} {arguments : List TypeId} {d : Descriptor}
    (h : instanceOf definition arguments u = .ok d) (hw : u.Remembers w) :
    ∃ e, instanceOf definition arguments w = .ok e ∧ e.key = d.key := by
  have closes := closes_of_instanceOf h
  have hi := issued_of_instanceOf h
  obtain ⟨f, hf, ht⟩ := closes.takes
  obtain ⟨f', hf', ht'⟩ := hw.keeps.takes hf ht
  obtain ⟨e, he⟩ := exists_instanceOf hf' ht' fun a ha => hw.issued (hi a ha)
  have hkeys : arguments.map w.keyOf = arguments.map u.keyOf :=
    List.map_congr_left fun a ha => hw.keyOf (hi a ha)
  refine ⟨e, he, ?_⟩
  rw [(closes_of_instanceOf he).key, closes.key, hw.keyOf (issued_of_get? hf), hkeys]

/-! ## Steps that last -/

/-- Whether a step only adds types, and gives the same result without adding any
when it is repeated later. -/
def Lasts (x : Builder α) (u : Universe) : Prop :=
  ∀ a v, x u = .ok a v → u.Grows v ∧ ∀ w, v.Remembers w → x w = .ok a w

theorem lasts_pure (a : α) : Lasts (pure a) u := by
  rintro _ _ ⟨⟩
  exact ⟨.refl u, fun _ _ => rfl⟩

theorem lasts_throw (e : BuildError) : Lasts (throw e : Builder α) u := by
  rintro _ _ ⟨⟩

theorem lasts_bind {y : Builder β} {f : β → Builder α} (hy : Lasts y u)
    (hf : ∀ b v, u.Grows v → Lasts (f b) v) : Lasts (y >>= f) u := by
  intro a w h
  obtain ⟨b, v, hb, ha⟩ := bind_eq_ok_iff.1 h
  obtain ⟨grows, again⟩ := hy b v hb
  obtain ⟨grows', again'⟩ := hf b v grows a w ha
  refine ⟨grows.trans grows', fun z hz => ?_⟩
  exact bind_eq_ok_iff.2 ⟨b, z, again z (grows'.remembers.trans hz), again' z hz⟩

/-- Interning a known key gives its id. -/
theorem intern_eq_ok {d : Descriptor} (h : u.lookup? d.key = some id) :
    intern d u = .ok id u := by
  simp only [intern, intern_of_lookup? h]

theorem intern_of_remembers {d e : Descriptor} (hkey : e.key = d.key)
    (hw : (u.intern d).2.Remembers w) : intern e w = .ok (u.intern d).1 w :=
  intern_eq_ok (hkey ▸ hw.lookup (lookup?_intern u d))

theorem lasts_intern {d : Descriptor} (hd : d.IsIntrinsic) (hbare : d.members = []) :
    Lasts (intern d) u := by
  rintro _ _ ⟨⟩
  exact ⟨grows_intern u hd hbare, fun _ hw => intern_of_remembers rfl hw⟩

theorem ask_eq_ok_iff {question : Universe → Except BuildError α} {a : α} :
    ask question u = .ok a v ↔ question u = .ok a ∧ u = v := by
  unfold ask
  cases question u with
  | ok b => simp
  | error e => simp

theorem view_eq_ok_iff {d : Descriptor} : view id u = .ok d v ↔ u.get? id = some d ∧ u = v := by
  rw [view, ask_eq_ok_iff, Universe.view]
  cases u.get? id with
  | none => simp [Except.mapError]
  | some e => simp [Except.mapError]

/-- The descriptor of an issued id is found. -/
theorem ends_view {d : Descriptor} {good : Descriptor → Universe → Prop}
    {bad : BuildError → Universe → Prop} (h : u.get? id = some d) :
    Ends (view id) u good bad ↔ good d u := by
  rw [Ends, view_eq_ok_iff.2 ⟨h, rfl⟩]

theorem lasts_arrayOf (element : TypeId) : Lasts (arrayOf element) u := by
  intro a v h
  obtain ⟨d, m, hview, hintern⟩ := bind_eq_ok_iff.1 h
  obtain ⟨hd, rfl⟩ := view_eq_ok_iff.1 hview
  cases hintern
  have grows := grows_intern u (d := {
    key := d.key ++ "[]"
    name := d.name ++ "[]"
    space := d.space
    kind := .array element
    isValueType := false }) (isOwnKey_brackets d.key) rfl
  refine ⟨grows, fun w hw => ?_⟩
  obtain ⟨ms, c, he⟩ := (grows.remembers.trans hw).type hd
  exact bind_eq_ok_iff.2 ⟨_, w, view_eq_ok_iff.2 ⟨he, rfl⟩, intern_of_remembers rfl hw⟩

/-- Interning what a question gives lasts when the later answers have the same
key. -/
theorem lasts_ask_intern {question : Universe → Except BuildError Descriptor}
    (hq : ∀ {d w}, question u = .ok d → u.Remembers w → ∃ e, question w = .ok e ∧ e.key = d.key)
    (hd : ∀ {d}, question u = .ok d → d.IsIntrinsic ∧ d.members = []) :
    Lasts (do intern (← ask question)) u := by
  intro a v h
  obtain ⟨d, m, hask, hintern⟩ := bind_eq_ok_iff.1 h
  obtain ⟨hquestion, rfl⟩ := ask_eq_ok_iff.1 hask
  cases hintern
  have grows := grows_intern u (hd hquestion).1 (hd hquestion).2
  refine ⟨grows, fun w hw => ?_⟩
  obtain ⟨e, he, hkey⟩ := hq hquestion (grows.remembers.trans hw)
  exact bind_eq_ok_iff.2 ⟨e, w, ask_eq_ok_iff.2 ⟨he, rfl⟩, intern_of_remembers hkey hw⟩

theorem lasts_close (definition : TypeId) (arguments : List TypeId) :
    Lasts (close definition arguments) u :=
  lasts_ask_intern instanceOf_of_remembers fun h =>
    ⟨(closes_of_instanceOf h).intrinsic, (closes_of_instanceOf h).bare⟩

theorem mapError_eq_ok_iff {ε ε' : Type} {f : ε → ε'} {x : Except ε α} {a : α} :
    x.mapError f = .ok a ↔ x = .ok a := by
  cases x with
  | ok b => simp [Except.mapError]
  | error e => simp [Except.mapError]

theorem lasts_closeContainer (c : Container) (arguments : List TypeId) :
    Lasts (closeContainer c arguments) u := by
  refine lasts_bind (lasts_intern rfl rfl) fun definition v _ => lasts_ask_intern ?_ ?_
  · intro d w h hw
    obtain ⟨e, he, hkey⟩ := instanceOf_of_remembers (mapError_eq_ok_iff.1 h) hw
    exact ⟨e, mapError_eq_ok_iff.2 he, hkey⟩
  · intro d h
    have closes := closes_of_instanceOf (mapError_eq_ok_iff.1 h)
    exact ⟨closes.intrinsic, closes.bare⟩

/-! ## References -/

/-- A type parameter is found by its name, which it keeps. -/
theorem inScope?_of_remembers (hs : ∀ p ∈ scope, u.Issued p) (hw : u.Remembers w) (name : String) :
    inScope? w scope name = inScope? u scope name := by
  unfold inScope?
  induction scope with
  | nil => rfl
  | cons p ps ih =>
    obtain ⟨hp, hps⟩ := List.forall_mem_cons.1 hs
    obtain ⟨d, hd⟩ := issued_iff.1 hp
    obtain ⟨ms, c, he⟩ := hw.type hd
    rw [List.find?_cons, List.find?_cons, ih hps, hd, he, Option.any_some, Option.any_some]

theorem lasts_declared (name : String) (arity : Nat) : Lasts (declared name arity) u := by
  intro a v h
  obtain ⟨_, _, hget, h⟩ := bind_eq_ok_iff.1 h
  cases hget
  cases hl : declared? u name arity with
  | none =>
    rw [hl] at h
    cases h
  | some id =>
    rw [hl] at h
    cases h
    refine ⟨.refl u, fun w hw => bind_eq_ok_iff.2 ⟨w, w, rfl, ?_⟩⟩
    rw [show declared? w name arity = some a from hw.lookup hl]
    rfl

/-- A step that depends on what a universe keeps. -/
theorem lasts_get_bind {f : Universe → Builder α} (h : Lasts (f u) u)
    (hf : ∀ w, u.Remembers w → f w = f u) : Lasts (get >>= f) u := by
  intro a v hrun
  obtain ⟨grows, again⟩ := h a v hrun
  refine ⟨grows, fun w hw => ?_⟩
  show f w w = _
  rw [hf w (grows.remembers.trans hw), again w hw]

theorem lasts_resolve_name (hs : ∀ p ∈ scope, u.Issued p) (name : String) :
    Lasts (resolve scope (.named name [])) u := by
  rw [resolve]
  refine lasts_get_bind ?_ fun w hw => by rw [inScope?_of_remembers hs hw]
  split
  · exact lasts_pure _
  · split
    · exact lasts_intern rfl rfl
    · exact lasts_declared name 0

theorem lasts_definitionOf (name : String) (arity : Nat) : Lasts (definitionOf name arity) u := by
  unfold definitionOf
  split
  · exact lasts_intern rfl rfl
  · exact lasts_declared name arity

mutual

/-- A reference is resolved to the same type later. -/
theorem lasts_resolve {u : Universe} (hs : ∀ p ∈ scope, u.Issued p) :
    ∀ r : TypeRef, Lasts (resolve scope r) u
  | .array element => by
    rw [resolve]
    exact lasts_bind (lasts_resolve hs element) fun e _ _ => lasts_arrayOf e
  | .nullable underlying => by
    rw [resolve]
    exact lasts_bind (lasts_resolve hs underlying) fun x _ _ => lasts_closeContainer _ [x]
  | .named name [] => lasts_resolve_name hs name
  | .named name (a :: as) => by
    rw [resolve_closed]
    refine lasts_bind (lasts_definitionOf _ _) fun definition v grows => ?_
    have hv : ∀ p ∈ scope, v.Issued p := fun p hp => grows.remembers.issued (hs p hp)
    refine lasts_bind (lasts_resolve hv a) fun x w grows' => ?_
    have hw : ∀ p ∈ scope, w.Issued p := fun p hp => grows'.remembers.issued (hv p hp)
    exact lasts_bind (lasts_resolveAll hw as) fun xs _ _ => lasts_close definition (x :: xs)

theorem lasts_resolveAll {u : Universe} (hs : ∀ p ∈ scope, u.Issued p) :
    ∀ rs : List TypeRef, Lasts (resolveAll scope rs) u
  | [] => by
    rw [resolveAll]
    exact lasts_pure []
  | r :: rs => by
    rw [resolveAll]
    refine lasts_bind (lasts_resolve hs r) fun id v grows => ?_
    have hv : ∀ p ∈ scope, v.Issued p := fun p hp => grows.remembers.issued (hs p hp)
    exact lasts_bind (lasts_resolveAll hv rs) fun ids _ _ => lasts_pure (id :: ids)

end

/-- The text of a reference is resolved to the same type later. -/
theorem lasts_resolveText (hs : ∀ p ∈ scope, u.Issued p) (text : String) :
    Lasts (resolveText scope text) u := by
  unfold resolveText
  split
  · exact lasts_resolve hs _
  · exact lasts_throw _

end Builder

end TypeExport
