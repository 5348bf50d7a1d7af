import TypeExport.Proofs.Document.Closing
import TypeExport.Proofs.Universe.Heeding
import TypeExport.Proofs.Universe.Loading
import TypeExport.Proofs.Universe.Reserved

/-!
# References to built-in types and containers

After a document is loaded, each type comes from the document or from a reference
(`Builder.ends_load_reserves`), and resolving another reference keeps that
(`Builder.keeps_resolve`).  So a short name or a full name of a built-in type means
the built-in type, and `T?`, `Nullable<T>`, `List<T>` and `Dictionary<K, V>` mean
instances of the containers, exactly when the document has not introduced the keys
of what they mean (`Builder.reserved_names`).
-/

namespace TypeExport

/-- Whether a reference closes a container over other references. -/
inductive TypeRef.Writes (c : Container) : List TypeRef → TypeRef → Prop
  | absent {r : TypeRef} (hc : c = .nullable) : Writes c [r] (.nullable r)
  | named {name : String} {a : TypeRef} {as : List TypeRef}
      (hname : Container.ofName? name = some c) : Writes c (a :: as) (.named name (a :: as))

namespace Builder

open Universe

variable {α : Type} {b u v w : Universe} {d : Document} {scope : List TypeId} {c : Container}

/-! ## Resolving -/

/-- Whether a universe has the types of an earlier one, and the others come from
references. -/
structure Kept (d : Document) (b u : Universe) : Prop where
  keeps : b.Extends u
  reserves : u.Reserves d

theorem Kept.trans (h : Kept d u v) (h' : Kept d v w) : Kept d u w :=
  ⟨h.keeps.trans h'.keeps, h'.reserves⟩

theorem Kept.intern {e : Descriptor} (h : Kept d b u) (he : u.Stems e) :
    Kept d b (u.intern e).2 := ⟨h.keeps.trans (extends_intern u e), h.reserves.intern he⟩

/-- A step that goes on from a universe goes on from an earlier one. -/
theorem Kept.goOn {x : Builder α} (h : Kept d b u) (hx : Maintains (Kept d u) x) :
    Ends x u (fun _ => Kept d b) fun _ => Kept d b :=
  (hx u ⟨.refl u, h.reserves⟩).mono (fun _ _ hv => h.trans hv) fun _ _ hv => h.trans hv

theorem keeps_intern_plain {e : Descriptor} (he : ∀ u : Universe, u.Stems e) :
    Maintains (Kept d b) (intern e) := .intern fun u h => h.intern (he u)

theorem keeps_arrayOf (element : TypeId) : Maintains (Kept d b) (arrayOf element) :=
  .bind (.ask _) fun e => keeps_intern_plain fun _ => ⟨e.key, rfl⟩

/-- A generic stems from a reference when the key of its definition has no marks. -/
theorem Closes.stems {definition : TypeId} {arguments : List TypeId} {e g : Descriptor}
    (h : Closes u definition arguments e) (hg : u.get? definition = some g)
    (hplain : isPlainKey g.key = true) : u.Stems e := by
  unfold Stems
  rw [h.kind]
  exact ⟨g, _, hg, hplain, by rw [h.key, keyOf_of_get? hg]⟩

theorem keeps_close {definition : TypeId} {g : Descriptor} (hg : b.get? definition = some g)
    (hplain : isPlainKey g.key = true) (arguments : List TypeId) :
    Maintains (Kept d b) (close definition arguments) :=
  .ask_intern fun _ _ h he =>
    h.intern ((closes_of_instanceOf he).stems (h.keeps.type hg) hplain)

theorem keeps_container (c : Container) : Maintains (Kept d b) (container c) :=
  keeps_intern_plain fun _ => rfl

theorem keeps_closeContainer (c : Container) (arguments : List TypeId) :
    Maintains (Kept d b) (closeContainer c arguments) := by
  intro u h
  apply ends_bind.2
  refine ((keeps_container c u h).and (ends_intern _)).mono ?_ fun _ _ hv => hv.1
  intro definition v hv
  obtain ⟨hkept, g, hg, hkey⟩ := hv
  have hplain : isPlainKey g.key = true := by
    rw [hkey]
    exact c.isPlainKey_fullName
  refine hkept.goOn (.ask_intern fun w e hw he => ?_)
  exact hw.intern ((closes_of_instanceOf (mapError_eq_ok_iff.1 he)).stems (hw.keeps.type hg) hplain)

/-- The definition that a path names has a key without marks. -/
theorem ends_definitionOf_plain {name : String} {arity : Nat} (hname : IsPathText name)
    (harity : arity ≠ 0) : Ends (definitionOf name arity) u
      (fun id v => ∃ g, v.get? id = some g ∧ isPlainKey g.key = true) fun _ _ => True := by
  unfold definitionOf
  split
  · rename_i c _
    refine (ends_intern _).mono ?_ fun _ _ hv => hv.elim
    intro id v hv
    obtain ⟨g, hg, hkey⟩ := hv
    refine ⟨g, hg, ?_⟩
    rw [hkey]
    exact c.isPlainKey_fullName
  · apply ends_bind.2
    apply ends_get.2
    split
    · rename_i id hid
      obtain ⟨g, hg, hkey⟩ := get?_of_lookup? hid
      refine ⟨g, hg, ?_⟩
      rw [hkey, if_neg harity, ← declaredKey_of_ne_zero harity]
      exact isPlainKey_declaredKey hname arity
    · trivial

theorem keeps_definitionOf (name : String) (arity : Nat) :
    Maintains (Kept d b) (definitionOf name arity) := by
  unfold definitionOf
  split
  · exact keeps_container _
  · exact .declared name arity

mutual

/-- Resolving a reference whose names are paths interns what stems from references. -/
theorem keeps_resolve (scope : List TypeId) {b : Universe} :
    ∀ r : TypeRef, r.NamesPaths → Maintains (Kept d b) (resolve scope r)
  | .array element, hr => by
    rw [resolve]
    exact (keeps_resolve scope element (TypeRef.namesPaths_array.1 hr)).bind keeps_arrayOf
  | .nullable underlying, hr => by
    rw [resolve]
    exact (keeps_resolve scope underlying (TypeRef.namesPaths_nullable.1 hr)).bind fun x =>
      keeps_closeContainer _ [x]
  | .named name [], _ => by
    rw [resolve]
    refine .get_bind fun w => ?_
    split
    · exact .pure _
    · split
      · exact keeps_intern_plain fun _ => rfl
      · exact .declared name 0
  | .named name (a :: as), hr => by
    obtain ⟨hpath, harguments⟩ := TypeRef.namesPaths_named.1 hr
    rw [resolve_closed]
    intro u h
    apply ends_bind.2
    refine ((keeps_definitionOf name _ u h).and (ends_definitionOf_plain hpath
      (Nat.succ_ne_zero _))).mono ?_ fun _ _ hv => hv.1
    intro definition v hv
    obtain ⟨hkept, g, hg, hplain⟩ := hv
    refine hkept.goOn ?_
    exact (keeps_resolve scope a (harguments a List.mem_cons_self)).bind fun x =>
      (keeps_resolveAll scope as fun r hr => harguments r (List.mem_cons_of_mem _ hr)).bind fun xs =>
        keeps_close hg hplain (x :: xs)

theorem keeps_resolveAll (scope : List TypeId) {b : Universe} :
    ∀ rs : List TypeRef, (∀ r ∈ rs, r.NamesPaths) → Maintains (Kept d b) (resolveAll scope rs)
  | [], _ => by
    rw [resolveAll]
    exact .pure []
  | r :: rs, hr => by
    rw [resolveAll]
    exact (keeps_resolve scope r (hr r List.mem_cons_self)).bind fun id =>
      (keeps_resolveAll scope rs fun q hq => hr q (List.mem_cons_of_mem _ hq)).bind fun ids =>
        .pure (id :: ids)

end

/-! ## Loading -/

theorem reserves_resolveText (scope : List TypeId) (text : String) :
    Maintains (Reserves d) (resolveText scope text) := by
  intro u h
  unfold resolveText
  split
  · rename_i r hr
    exact (keeps_resolve scope r (TypeRef.namesPaths_of_parse hr) u ⟨.refl u, h⟩).mono
      (fun _ _ hv => hv.reserves) fun _ _ hv => hv.reserves
  · exact h

theorem completes_reserves (owner : TypeId) : Completes (Reserves d) owner where
  member scope m := (reserves_resolveText scope m.reference).bind fun _ =>
    .modify fun _ h => h.modify (fun _ => rfl) (fun _ => rfl) fun _ => rfl
  context _ := .modify fun _ h => h.modify (fun _ => rfl) (fun _ => rfl) fun _ => rfl

/-- Where the types of a document are declared, there are no others. -/
theorem reserves_of_declaresAll {owners : List TypeId} (h : DeclaresAll {} u d.types owners)
    (indexed : u.Indexed) : u.Reserves d where
  indexed := indexed
  known {key} hkey := by
    obtain ⟨t, ht, hkey⟩ := hkey
    obtain ⟨owner, -, e, declared, -⟩ := exists_of_forall₂_mem h.stored ht
    cases hkey with
    | inl hsame => exact ⟨owner, hsame ▸ declared.found⟩
    | inr hparameter =>
      obtain ⟨p, hp, hsame⟩ := hparameter
      cases t with
      | object name names members context =>
        obtain ⟨ids, -, -, hids⟩ := declared.shape
        obtain ⟨id, -, hid⟩ := exists_of_forall₂_mem hids hp
        exact ⟨id, hsame ▸ hid⟩
      | struct | enumeration => cases hp
  origin {id e} he := by
    rcases h.other he with hold | hid | hparameter
    · simp [get?] at hold
    · obtain ⟨t, ht, e', declared, -⟩ := exists_of_mem_forall₂ h.stored hid
      cases declared.type.symm.trans he
      refine .introduced ⟨t, ht, .inl declared.key⟩ ?_
      have hshape := declared.shape
      cases t with
      | object name names members context =>
        obtain ⟨ids, hkind, -⟩ := hshape
        rw [hkind]
        rfl
      | struct | enumeration =>
        rw [hshape.1]
        rfl
    · obtain ⟨t, ht, owner, -, hparameter⟩ := hparameter
      obtain ⟨position, hkind⟩ := hparameter.kind
      refine .introduced ⟨t, ht, .inr ⟨e.name, hparameter.name, hparameter.key⟩⟩ ?_
      rw [hkind]
      rfl

/-- A document that is loaded leaves its own types and those of references. -/
theorem ends_load_reserves (d : Document) :
    Ends (load d) {} (fun _ u => u.Reserves d) fun _ _ => True := by
  apply ends_bind.2
  have declared := (ends_declareEntries (u := {}) d.types).and
    (declaring_spared.declareEntries d.types {} indexed_empty.spared)
  refine declared.mono ?_ fun _ _ _ => trivial
  intro owners v hv
  have completing := (Completes.completeEntries (d.types.zip owners) fun _ _ =>
    completes_reserves (d := d) _).bind fun _ =>
      Maintains.resolveRoots (reserves_resolveText []) d.roots
  exact (completing v (reserves_of_declaresAll hv.1 hv.2.indexed)).mono (fun _ _ hw => hw)
    fun _ _ _ => trivial

/-! ## References that close a container -/

/-- Whether a key reads like an instance of a container. -/
def ReadsAs (c : Container) (key : String) : Prop :=
  ∃ inner, key = c.fullName ++ "<" ++ inner ++ ">"

theorem Closes.readsAs {definition : TypeId} {arguments : List TypeId} {e g : Descriptor}
    (h : Closes u definition arguments e) (hg : u.get? definition = some g)
    (hkey : g.key = c.fullName) : ReadsAs c e.key :=
  ⟨_, by rw [h.key, keyOf_of_get? hg, hkey]⟩

theorem ends_ask_intern_readsAs {question : Universe → Except BuildError Descriptor}
    (hq : ∀ e, question u = .ok e → ReadsAs c e.key) :
    Ends (do intern (← ask question)) u
      (fun id v => ∃ e, v.get? id = some e ∧ ReadsAs c e.key) fun _ _ => True := by
  apply ends_bind.2
  apply ends_ask.2
  split
  · rename_i e he
    refine (ends_intern e).mono ?_ fun _ _ _ => trivial
    intro id v hv
    obtain ⟨f, hf, hkey⟩ := hv
    exact ⟨f, hf, hkey ▸ hq e he⟩
  · trivial

theorem ends_closeContainer_readsAs (c : Container) (arguments : List TypeId) :
    Ends (closeContainer c arguments) u
      (fun id v => ∃ e, v.get? id = some e ∧ ReadsAs c e.key) fun _ _ => True := by
  apply ends_bind.2
  refine (ends_intern _).mono ?_ fun _ _ hv => hv.elim
  intro definition v hv
  obtain ⟨g, hg, hkey⟩ := hv
  exact ends_ask_intern_readsAs fun e he =>
    (closes_of_instanceOf (mapError_eq_ok_iff.1 he)).readsAs hg hkey

/-- A reference that closes a container means a type whose key reads like an instance
of it. -/
theorem ends_resolve_readsAs {r : TypeRef} {rs : List TypeRef} (h : u.Reserves d)
    (hr : r.NamesPaths) (hwrites : r.Writes c rs) : Ends (resolve scope r) u
      (fun id v => ∃ e, v.get? id = some e ∧ ReadsAs c e.key) fun _ _ => True := by
  cases hwrites with
  | @absent x hc =>
    subst hc
    rw [resolve]
    apply ends_bind.2
    refine (keeps_resolve scope x (TypeRef.namesPaths_nullable.1 hr) u
      ⟨.refl u, h⟩).mono ?_ fun _ _ _ => trivial
    exact fun x v _ => ends_closeContainer_readsAs .nullable [x]
  | @named name a as hname =>
    obtain ⟨-, harguments⟩ := TypeRef.namesPaths_named.1 hr
    rw [resolve_closed]
    simp only [definitionOf, hname]
    apply ends_bind.2
    refine ((keeps_container c u ⟨.refl u, h⟩).and (ends_intern _)).mono ?_ fun _ _ _ => trivial
    intro definition v hv
    obtain ⟨hkept, g, hg, hkey⟩ := hv
    have start : Kept d v v := ⟨.refl v, hkept.reserves⟩
    apply ends_bind.2
    refine (keeps_resolve scope a (harguments a List.mem_cons_self) v start).mono ?_
      fun _ _ _ => trivial
    intro x w hw
    apply ends_bind.2
    refine (keeps_resolveAll scope as (fun r hr => harguments r
      (List.mem_cons_of_mem _ hr)) w hw).mono ?_ fun _ _ _ => trivial
    intro xs z hz
    exact ends_ask_intern_readsAs fun e he =>
      (closes_of_instanceOf he).readsAs (hz.keeps.type hg) hkey

theorem ends_ask_intern_ok {question : Universe → Except BuildError Descriptor} {e : Descriptor}
    (hq : question u = .ok e) :
    Ends (do intern (← ask question)) u (fun _ _ => True) fun _ _ => False := by
  apply ends_bind.2
  apply ends_ask.2
  rw [hq]
  trivial

/-- An open container can be closed over as many types as it takes. -/
theorem exists_instanceOf_container {definition : TypeId} {arguments : List TypeId}
    {g : Descriptor} (hg : u.get? definition = some g) (hkind : g.kind = .container c)
    (hi : ∀ a ∈ arguments, u.Issued a) (hlength : arguments.length = c.arity) :
    ∃ e, instanceOf definition arguments u = .ok e := by
  refine exists_instanceOf hg ?_ hi
  rw [hkind]
  exact hlength

/-- A container whose full name is not introduced can be closed. -/
theorem ends_closeContainer_ok {arguments : List TypeId} (h : u.Reserves d)
    (hfree : ¬ d.Introduces c.fullName) (hi : ∀ a ∈ arguments, u.Issued a)
    (hlength : arguments.length = c.arity) :
    Ends (closeContainer c arguments) u (fun _ _ => True) fun _ _ => False := by
  apply ends_bind.2
  refine ((keeps_container c u ⟨.refl u, h⟩).and (ends_intern _)).mono ?_ fun _ _ hv => hv.2
  intro definition v hv
  obtain ⟨hkept, g, hg, hkey⟩ := hv
  have hkind := (hkept.reserves.container_iff hg hkey).2 hfree
  obtain ⟨e, he⟩ := exists_instanceOf_container hg hkind
    (fun a ha => hkept.keeps.issued (hi a ha)) hlength
  exact ends_ask_intern_ok (mapError_eq_ok_iff.2 he)

theorem closeOver_eq (scope : List TypeId) (a : TypeRef) (as : List TypeRef)
    (definition : TypeId) : closeOver scope a as definition =
      (do let xs ← resolveAll scope (a :: as); close definition xs) := by
  simp [closeOver, resolveAll]

theorem length_of_resolveAll {rs : List TypeRef} {ids : List TypeId}
    (h : resolveAll scope rs u = .ok ids v) : ids.length = rs.length := by
  induction rs generalizing u ids with
  | nil =>
    cases h
    rfl
  | cons r rs ih =>
    rw [resolveAll] at h
    obtain ⟨id, w, -, hrest⟩ := bind_eq_ok_iff.1 h
    obtain ⟨ids', w', hids, hpure⟩ := bind_eq_ok_iff.1 hrest
    cases hpure
    rw [List.length_cons, List.length_cons, ih hids]

/-- A reference that closes a container means something when its arguments do, unless
the full name of the container is introduced. -/
theorem exists_resolve_writes {r : TypeRef} {rs : List TypeRef} (sound : u.Sound)
    (h : u.Reserves d) (hs : ∀ p ∈ scope, u.Issued p) (hr : r.NamesPaths)
    (hwrites : r.Writes c rs) (hfree : ¬ d.Introduces c.fullName) (hlength : rs.length = c.arity)
    {ids : List TypeId} (hids : resolveAll scope rs u = .ok ids w) :
    ∃ id v, resolve scope r u = .ok id v := by
  cases hwrites with
  | @absent x hc =>
    subst hc
    rw [resolveAll] at hids
    obtain ⟨i, v, hx, -⟩ := bind_eq_ok_iff.1 hids
    have hkept := (keeps_resolve scope x (TypeRef.namesPaths_nullable.1 hr) u
      ⟨.refl u, h⟩).good_of_eq hx
    have hissued : v.Issued i := (answers_resolve scope x u).good_of_eq hx
    obtain ⟨id, z, hz, -⟩ := (ends_closeContainer_ok hkept.reserves hfree
      (List.forall_mem_singleton.2 hissued) hlength).exists_ok
    refine ⟨id, z, ?_⟩
    rw [resolve, bind_of_eq_ok hx]
    exact hz
  | @named name a as hname =>
    -- the arguments are resolved behind the container
    obtain ⟨definition, v, hv, hkept, g, hg, hkey⟩ :=
      (((keeps_container c u ⟨.refl u, h⟩).and (ends_intern _)).mono (fun _ _ hv => hv)
        fun _ _ hv => hv.2).exists_ok
    have lasts : Lasts (container c) u := lasts_intern rfl rfl
    have grows := (lasts definition v hv).1
    obtain ⟨ids', z, hz, -, -, hext, hpairs⟩ :=
      follows_resolveAll (.of_retains sound hs grows.retains) (a :: as) ids w hids
    have hkind := (hkept.reserves.container_iff hg hkey).2 hfree
    have hissued : ∀ i ∈ ids', z.Issued i := by
      intro i hi
      obtain ⟨j, -, f, e, -, he, -⟩ := exists_of_mem_forall₂ hpairs hi
      exact issued_of_get? he
    obtain ⟨e, he⟩ := exists_instanceOf_container (hext.type hg) hkind hissued
      ((length_of_resolveAll hz).trans hlength)
    obtain ⟨id, t, ht, -⟩ := (ends_ask_intern_ok he).exists_ok
    refine ⟨id, t, ?_⟩
    rw [resolve_closed]
    simp only [definitionOf, hname]
    rw [bind_of_eq_ok hv, closeOver_eq, bind_of_eq_ok hz]
    exact ht

/-! ## Reserved names -/

/-- A name of a built-in type means the type under its full name. -/
theorem exists_resolve_builtin {name : String} {t : Builtin} (h : u.Reserves d)
    (hscope : inScope? u scope name = none) (hname : Builtin.ofName? name = some t) :
    ∃ id v e, resolve scope (.named name []) u = .ok id v ∧ v.get? id = some e ∧
      (e.kind = .builtin t ↔ ¬ d.Introduces t.fullName) := by
  have interned := (keeps_intern_plain (d := d) (b := u) (e := .ofFullName t.fullName t.fullName
    (.builtin t) t.isValueType) (fun _ => rfl) u ⟨.refl u, h⟩).and (ends_intern _)
  obtain ⟨id, v, hv, hkept, e, he, hkey⟩ :=
    (interned.mono (fun _ _ hv => hv) fun _ _ hv => hv.2).exists_ok
  refine ⟨id, v, e, ?_, he, hkept.reserves.builtin_iff he hkey⟩
  rw [resolve, bind_of_eq_ok (x := get) (b := u) (t := u) rfl]
  simp only [hscope, hname]
  exact hv

/-- What the names of built-in types and containers mean after a document is loaded.
The type under the full name of a built-in type is that built-in type, and the type
under the full name of a container is the open container, exactly when the document
does not introduce the name.  So it is with what a name of a built-in type means where
it names no type parameter.  And a reference that closes a container means an instance
of it exactly when the document introduces neither the full name of the container nor
the key of the meant type.  It means something whenever its arguments do, unless the
document introduces the full name. -/
theorem reserved_names {text : String} {roots : List TypeId} (h : loadText text {} = .ok roots u) :
    ∃ d, Document.ofText? text = some d ∧
      (∀ t : Builtin, d.Introduces t.fullName ↔
        ∃ entry ∈ d.types, entry.arity = 0 ∧ entry.name = t.fullName) ∧
      (∀ c : Container, d.Introduces c.fullName ↔ ∃ entry ∈ d.types, entry.key = c.fullName) ∧
      (∀ id e, u.get? id = some e →
        (∀ t : Builtin, e.key = t.fullName → (e.kind = .builtin t ↔ ¬ d.Introduces t.fullName)) ∧
        ∀ c : Container, e.key = c.fullName →
          (e.kind = .container c ↔ ¬ d.Introduces c.fullName)) ∧
      ∀ scope reference r, (∀ p ∈ scope, u.Issued p) → TypeRef.parse reference = .ok r →
        (∀ name t, r = .named name [] → inScope? u scope name = none →
          Builtin.ofName? name = some t →
            ∃ id v e, resolveText scope reference u = .ok id v ∧ v.get? id = some e ∧
              (e.kind = .builtin t ↔ ¬ d.Introduces t.fullName)) ∧
        ∀ c rs, r.Writes c rs →
          (∀ id v, resolveText scope reference u = .ok id v → ∃ e, v.get? id = some e ∧
            ReadsAs c e.key ∧
            (v.IsInstance e c ↔ ¬ d.Introduces c.fullName ∧ ¬ d.Introduces e.key)) ∧
          (¬ d.Introduces c.fullName → rs.length = c.arity →
            (∃ ids w, resolveAll scope rs u = .ok ids w) →
              ∃ id v, resolveText scope reference u = .ok id v) := by
  have sound := (sound_of_loadText h).1
  cases hd : Document.ofText? text with
  | none =>
    rw [loadText, hd] at h
    cases h
  | some d =>
    rw [loadText, hd] at h
    have reserves : u.Reserves d := (ends_load_reserves d).good_of_eq h
    refine ⟨d, rfl, fun t => Document.introduces_builtin_iff t,
      fun c => Document.introduces_container_iff c, fun id e he =>
        ⟨fun t hkey => reserves.builtin_iff he hkey, fun c hkey => reserves.container_iff he hkey⟩,
      fun scope reference r hs hparse => ?_⟩
    have htext : resolveText scope reference = resolve scope r := by
      rw [resolveText, hparse]
    have hr := TypeRef.namesPaths_of_parse hparse
    rw [htext]
    refine ⟨fun name t hname hscope ht => ?_, fun c rs hwrites => ⟨fun id v hok => ?_, ?_⟩⟩
    · rw [hname]
      exact exists_resolve_builtin reserves hscope ht
    · obtain ⟨e, he, hreads⟩ := (ends_resolve_readsAs reserves hr hwrites).good_of_eq hok
      have hkept := (keeps_resolve _ r hr u ⟨.refl u, reserves⟩).good_of_eq hok
      obtain ⟨inner, hkey⟩ := hreads
      exact ⟨e, he, ⟨inner, hkey⟩, hkept.reserves.isInstance_iff he hkey⟩
    · intro hfree hlength hargs
      obtain ⟨ids, w, hids⟩ := hargs
      exact exists_resolve_writes sound reserves hs hr hwrites hfree hlength hids

/-- The key and the kind of the type that a reference means behind a document. -/
def meant? (text reference : String) : Option (String × TypeKind) :=
  match loadText text {} with
  | .error .. => none
  | .ok _ u =>
    match resolveText [] reference u with
    | .error .. => none
    | .ok id v => (v.get? id).map fun e => (e.key, e.kind)

theorem exists_of_meant? {text reference key : String} {kind : TypeKind}
    (h : meant? text reference = some (key, kind)) : ∃ roots u id v e,
      loadText text {} = .ok roots u ∧ resolveText [] reference u = .ok id v ∧
        v.get? id = some e ∧ e.key = key ∧ e.kind = kind := by
  unfold meant? at h
  split at h
  · cases h
  · rename_i roots u hload
    split at h
    · cases h
    · rename_i id v hresolve
      obtain ⟨e, he, heq⟩ := Option.map_eq_some_iff.1 h
      cases heq
      exact ⟨roots, u, id, v, e, hload, hresolve, he, rfl, rfl⟩

/-- A document with a generic class under the name of `Nullable`, and one with a
number that may be absent. -/
@[irreducible] def absentText : String :=
  r#"[[["object","System.Nullable",["T"]],["object","A",[],[["at","List<Guid>"]]]],["int?"]]"#

@[inherit_doc absentText]
def absentDocument : Document where
  types := [.object "System.Nullable" ["T"] [] none,
    .object "A" [] [⟨"at", "List<Guid>", {}⟩] none]
  roots := ["int?"]

theorem absent_checks :
    Document.ofText? absentText = some absentDocument ∧
    meant? absentText "int?" =
      some ("System.Nullable`1<System.Int32>", .closed ⟨0⟩ [⟨6⟩]) ∧
    meant? absentText "List<Guid>" =
      some ("System.Collections.Generic.List`1<System.Guid>", .closed ⟨3⟩ [⟨4⟩]) ∧
    absentDocument.Introduces "System.Nullable`1" ∧
    ¬ absentDocument.Introduces "System.Collections.Generic.List`1" ∧
    ¬ absentDocument.Introduces "System.Collections.Generic.List`1<System.Guid>" := by
  decide +kernel

/-- Behind that document, a list is an instance of the container of lists, but a number
that may be absent is an instance of the class. -/
theorem reserved_names_absent :
    ∃ roots u, loadText absentText {} = .ok roots u ∧
      (∃ id v e, resolveText [] "List<Guid>" u = .ok id v ∧ v.get? id = some e ∧
        v.IsInstance e .list) ∧
      ∃ id v e, resolveText [] "int?" u = .ok id v ∧ v.get? id = some e ∧
        ¬ v.IsInstance e .nullable := by
  obtain ⟨hd, habsent, hlist, hintroduced, hfree, hnew⟩ := absent_checks
  obtain ⟨roots, u, id, v, e, hload, hok, he, hkey, -⟩ := exists_of_meant? hlist
  obtain ⟨roots', u', id', v', e', hload', hok', he', -, -⟩ := exists_of_meant? habsent
  cases hload.symm.trans hload'
  obtain ⟨d, hd', -, -, -, hreferences⟩ := reserved_names hload
  cases hd.symm.trans hd'
  have hscope : ∀ p ∈ ([] : List TypeId), u.Issued p := by simp
  have hlistParse : TypeRef.parse "List<Guid>" = .ok (.named "List" [.named "Guid" []]) := by
    refine TypeRef.parse_eq_ok_iff.2 ⟨?_, ?_⟩
    · simp [TypeRef.IsProper, TypeRef.names, TypeRef.namesAll]
      decide
    · exact .token (t := .path "List") (.token (t := .leftAngle) (.token (t := .path "Guid")
        (.token (t := .rightAngle) .nil)))
  have habsentParse : TypeRef.parse "int?" = .ok (.nullable (.named "int" [])) := by
    refine TypeRef.parse_eq_ok_iff.2 ⟨?_, ?_⟩
    · simp [TypeRef.IsProper, TypeRef.names, TypeRef.namesAll]
      decide
    · exact .token (t := .path "int") (.token (t := .question) .nil)
  refine ⟨roots, u, hload, ⟨id, v, e, hok, he, ?_⟩, id', v', e', hok', he', fun hinstance => ?_⟩
  · have meant := (hreferences [] "List<Guid>" _ hscope hlistParse).2 .list _ (.named rfl)
    obtain ⟨f, hf, -, hiff⟩ := meant.1 id v hok
    cases he.symm.trans hf
    rw [hiff, hkey]
    exact ⟨hfree, hnew⟩
  · have meant := (hreferences [] "int?" _ hscope habsentParse).2 .nullable _ (.absent rfl)
    obtain ⟨f, hf, -, hiff⟩ := meant.1 id' v' hok'
    cases he'.symm.trans hf
    exact (hiff.1 hinstance).1 hintroduced

/-- A document with a class under the full name of a built-in type. -/
@[irreducible] def numberText : String :=
  r#"[[["object","System.Int32",[],[["X","string"]]],["object","A",[],[["b","int"]]]],["A"]]"#

/-- Behind that document, the short name of the built-in type means the class. -/
theorem exists_builtin_taken : ∃ roots u id v e, loadText numberText {} = .ok roots u ∧
    resolveText [] "int" u = .ok id v ∧ v.get? id = some e ∧
      e.key = Builtin.int32.fullName ∧ e.kind = .object [] := by
  have h : meant? numberText "int" = some ("System.Int32", .object []) := by decide +kernel
  exact exists_of_meant? h

end Builder

end TypeExport
