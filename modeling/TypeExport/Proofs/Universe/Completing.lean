import TypeExport.Proofs.Universe.Declaring

/-!
# Completing types

What the rest of a load does once the types of a document are declared: each
gets its members and its default flag, and the roots are resolved.  Members land
on the type that declares them and on no other (`Universe.Amends`), and the type
of a member is what its reference means, then and later (`Universe.Reads`).

The errors of this part are the errors of its references.  So what holds of
them holds of the whole (`Builder.ends_completing`).
-/

namespace TypeExport

open Builder (resolveText)

namespace Universe

variable {u v w : Universe} {id owner : TypeId} {d e : Descriptor} {t : TypeEntry}
  {scope owners : List TypeId} {m : MemberEntry} {m' : Member}

/-- What a universe keeps while some of its types get their members. -/
structure Amends (u v : Universe) (owners : List TypeId) : Prop extends Retains u v where
  /-- Other types stay as they are. -/
  other : ∀ {id d}, id ∉ owners → u.get? id = some d → v.get? id = some d
  /-- Nothing else has members that it had not before. -/
  bare : ∀ {id d}, v.get? id = some d → id ∈ owners ∨ u.get? id = some d ∨ d.members = []

/-- Whether a member is what an entry declares. -/
structure Reads (u : Universe) (scope : List TypeId) (m : MemberEntry) (m' : Member) : Prop where
  name : m'.name = m.name
  annotations : m'.annotations = m.annotations
  /-- The reference means the type, and nothing is missing to resolve it. -/
  type : resolveText scope m.reference u = .ok m'.type u

/-- Whether a type is all that an entry declares. -/
structure Describes (u : Universe) (t : TypeEntry) (id : TypeId) (d : Descriptor) : Prop
    extends Declared u t id d where
  /-- The members are in order, and their references in the scope of the type. -/
  members : List.Forall₂ (u.Reads d.kind.parameters) t.members d.members
  context : d.context = t.context

namespace Amends

theorem of_grows (h : u.Grows v) : u.Amends v owners where
  toRetains := h.retains
  other _ hd := h.type hd
  bare hd := .inr ((h.added hd).imp_right And.right)

theorem of_modify {f : Descriptor → Descriptor} {members : List Member} {context : Option UInt8}
    (hd : u.get? owner = some d) (hf : f d = { d with members, context })
    (hkey : ∀ d, (f d).key = d.key) : u.Amends (u.modify owner f) [owner] where
  type {i e} he := by
    rw [get?_modify]
    split
    · rename_i h
      subst h
      cases hd.symm.trans he
      exact ⟨members, context, by rw [hd, Option.map_some, hf]⟩
    · exact ⟨e.members, e.context, he⟩
  lookup hl := by rwa [lookup?_modify hkey]
  added {i e} he := by
    rw [get?_modify] at he
    split at he
    · rename_i h
      exact .inl (h ▸ issued_of_get? hd)
    · exact .inl (issued_of_get? he)
  other {i e} hi he := by
    rw [get?_modify, if_neg fun h => hi (List.mem_singleton.2 h.symm)]
    exact he
  bare {i e} he := by
    rw [get?_modify] at he
    split at he
    · rename_i h
      exact .inl (List.mem_singleton.2 h.symm)
    · exact .inr (.inl he)

theorem mono {owners' : List TypeId} (h : u.Amends v owners) (hsub : owners ⊆ owners') :
    u.Amends v owners' where
  toRetains := h.toRetains
  other hid := h.other fun hmem => hid (hsub hmem)
  bare hd := (h.bare hd).imp_left fun hmem => hsub hmem

theorem trans (h : u.Amends v owners) (h' : v.Amends w owners) : u.Amends w owners where
  toRetains := h.toRetains.trans h'.toRetains
  other hid hd := h'.other hid (h.other hid hd)
  bare he := by
    rcases h'.bare he with hmem | hv | hbare
    · exact .inl hmem
    · exact h.bare hv
    · exact .inr (.inr hbare)

end Amends

/-! ## What stays read -/

theorem Reads.retain (h : u.Reads scope m m') (hs : ∀ p ∈ scope, u.Issued p)
    (keeps : u.Retains v) : v.Reads scope m m' :=
  ⟨h.name, h.annotations, (Builder.lasts_resolveText hs _ _ _ h.type).2 v keeps.toRemembers⟩

theorem Retains.issued_all (h : u.Retains v) (hs : ∀ p ∈ scope, u.Issued p) :
    ∀ p ∈ scope, v.Issued p := fun p hp => h.issued (hs p hp)

theorem issued_of_lookups {key : String → String} {names : List String} {ids : List TypeId}
    (h : List.Forall₂ (fun name id => u.lookup? (key name) = some id) names ids) :
    ∀ id ∈ ids, u.Issued id := by
  induction h with
  | nil => simp
  | cons hl _ ih =>
    obtain ⟨e, he, -⟩ := get?_of_lookup? hl
    exact List.forall_mem_cons.2 ⟨issued_of_get? he, ih⟩

/-- The type parameters of a declared type are known. -/
theorem Declared.issued_parameters (h : u.Declared t id d) : ∀ p ∈ d.kind.parameters, u.Issued p := by
  have hshape := h.shape
  cases t with
  | object name names members context =>
    obtain ⟨ids, hkind, -, hids⟩ := hshape
    rw [hkind]
    exact issued_of_lookups hids
  | struct =>
    rw [hshape.1]
    simp [TypeKind.parameters]
  | enumeration =>
    rw [hshape.1]
    simp [TypeKind.parameters]

/-- A type stays as it is while others get their members. -/
theorem Declared.amend (h : u.Declared t id d) (amends : u.Amends v owners) (hid : id ∉ owners) :
    v.Declared t id d where
  found := amends.lookup h.found
  type := amends.other hid h.type
  key := h.key
  shape := shapes_of_lookup h.shape rfl rfl amends.lookup

theorem Describes.amend (h : u.Describes t id d) (amends : u.Amends v owners) (hid : id ∉ owners) :
    v.Describes t id d where
  toDeclared := h.toDeclared.amend amends hid
  members := h.members.imp fun _ _ hm => hm.retain h.issued_parameters amends.toRetains
  context := h.context

end Universe

namespace Builder

open Universe

variable {u v w : Universe} {owner : TypeId} {d : Descriptor} {bad : BuildError → Prop}
  {scope owners : List TypeId}

/-! ## Members -/

/-- Whether a reference is resolved in all later universes, or fails there with
certain errors only. -/
def Fails (bad : BuildError → Prop) (scope : List TypeId) (reference : String) (u : Universe) :
    Prop :=
  ∀ v, u.Retains v → Ends (resolveText scope reference) v (fun _ _ => True) fun e _ => bad e

theorem Fails.retain {reference : String} (h : Fails bad scope reference u) (keeps : u.Retains v) :
    Fails bad scope reference v := fun w hw => h w (keeps.trans hw)

theorem fails_anyhow (scope : List TypeId) (reference : String) (u : Universe) :
    Fails (fun _ => True) scope reference u := by
  intro v _
  unfold Ends
  split <;> trivial

/-- A reference that is resolved grows the universe, and means the same type
from then on. -/
theorem Fails.ends {reference : String} (h : Fails bad scope reference u)
    (hs : ∀ p ∈ scope, u.Issued p) : Ends (resolveText scope reference) u
      (fun id v => u.Grows v ∧ resolveText scope reference v = .ok id v) fun e _ => bad e := by
  have ends := h u (.refl u)
  unfold Ends at ends ⊢
  cases hx : resolveText scope reference u with
  | ok id v =>
    obtain ⟨grows, again⟩ := lasts_resolveText hs reference id v hx
    exact ⟨grows, again v (.refl v)⟩
  | error e v =>
    rw [hx] at ends
    exact ends

/-- Members are added behind those that a type has. -/
theorem ends_addMembers (ms : List MemberEntry) (hd : u.get? owner = some d)
    (hs : ∀ p ∈ scope, u.Issued p) (hm : ∀ m ∈ ms, Fails bad scope m.reference u) :
    Ends (addMembers owner scope ms) u (fun _ v => u.Amends v [owner] ∧
      ∃ added, v.get? owner = some { d with members := d.members ++ added } ∧
        List.Forall₂ (v.Reads scope) ms added) fun e _ => bad e := by
  induction ms generalizing u d with
  | nil =>
    refine ⟨.of_grows (.refl u), [], ?_, .nil⟩
    rw [List.append_nil]
    exact hd
  | cons m ms ih =>
    obtain ⟨hfirst, hrest⟩ := List.forall_mem_cons.1 hm
    rw [addMembers]
    refine ends_bind.2 ((hfirst.ends hs).mono ?_ fun _ _ h => h)
    rintro type v ⟨grows, hresolved⟩
    have hdv := grows.type hd
    refine ends_bind.2 ((ends_modify_issued _ hdv).mono ?_ fun _ _ h => h.elim)
    rintro _ _ rfl
    let member : Member := ⟨m.name, type, m.annotations⟩
    have amends : v.Amends (v.modify owner fun d => { d with members := d.members ++ [member] })
        [owner] := .of_modify hdv rfl fun _ => rfl
    have hself : (v.modify owner fun d => { d with members := d.members ++ [member] }).get? owner =
        some { d with members := d.members ++ [member] } := by
      rw [get?_modify, if_pos rfl, hdv]
      rfl
    have before := (Amends.of_grows grows).trans amends
    have hread : v.Reads scope m member := ⟨rfl, rfl, hresolved⟩
    refine (ih hself (before.issued_all hs) fun n hn => (hrest n hn).retain before.toRetains).mono
      ?_ fun _ _ h => h
    rintro _ w ⟨after, added, hadded, hreads⟩
    refine ⟨before.trans after, member :: added, ?_, .cons ?_ hreads⟩
    · rw [hadded]
      simp
    · exact hread.retain (grows.retains.issued_all hs)
        (amends.toRetains.trans after.toRetains)

/-- The type parameters of a type are visible to its members. -/
theorem ends_parametersOf (hd : u.get? owner = some d) :
    Ends (parametersOf owner) u (fun ps v => v = u ∧ ps = d.kind.parameters)
      fun _ _ => False := by
  refine ends_bind.2 ((ends_view hd).2 ?_)
  cases d.kind with
  | object ps => exact ends_pure.2 ⟨rfl, rfl⟩
  | _ => exact ends_pure.2 ⟨rfl, rfl⟩

/-- The default flag is set last. -/
theorem ends_context {t : TypeEntry} (hd : u.get? owner = some d) (hc : d.context = none) :
    Ends (match t.context with
      | some flag => setContext owner flag
      | none => return ()) u (fun _ v => u.Amends v [owner] ∧
        v.get? owner = some { d with context := t.context }) fun _ _ => False := by
  cases t.context with
  | none =>
    refine ends_pure.2 ⟨.of_grows (.refl u), ?_⟩
    rw [hd, ← hc]
  | some flag =>
    refine (ends_modify_issued _ hd).mono ?_ fun _ _ h => h
    rintro _ _ rfl
    refine ⟨.of_modify hd rfl fun _ => rfl, ?_⟩
    rw [get?_modify, if_pos rfl, hd]
    rfl

/-- A declared type gets all that its entry declares. -/
theorem ends_completeEntry {t : TypeEntry} (h : u.Declared t owner d) (hbare : d.members = [])
    (hcontext : d.context = none)
    (hm : ∀ m ∈ t.members, Fails bad d.kind.parameters m.reference u) :
    Ends (completeEntry t owner) u (fun _ v => u.Amends v [owner] ∧ ∃ e, v.Describes t owner e)
      fun e _ => bad e := by
  have object : Ends (do
      addMembers owner (← parametersOf owner) t.members
      match t.context with
      | some flag => setContext owner flag
      | none => return ()) u (fun _ v => u.Amends v [owner] ∧ ∃ e, v.Describes t owner e)
      fun e _ => bad e := by
    refine ends_bind.2 ((ends_parametersOf h.type).mono ?_ fun _ _ h => h.elim)
    rintro _ _ ⟨rfl, rfl⟩
    refine ends_bind.2 ((ends_addMembers t.members h.type h.issued_parameters hm).mono ?_
      fun _ _ h => h)
    rintro _ v ⟨amends, added, hadded, hreads⟩
    refine (ends_context hadded hcontext).mono ?_ fun _ _ h => h.elim
    rintro _ w ⟨amends', hstored⟩
    have keeps := amends.toRetains.trans amends'.toRetains
    refine ⟨amends.trans amends', { d with members := d.members ++ added, context := t.context }, ?_⟩
    exact {
      found := keeps.lookup h.found
      type := hstored
      key := h.key
      shape := shapes_of_lookup h.shape rfl rfl keeps.lookup
      members := by
        rw [hbare]
        exact hreads.imp fun _ _ hread =>
          hread.retain (amends.issued_all h.issued_parameters) amends'.toRetains
      context := rfl }
  cases t with
  | enumeration name values =>
    refine ends_pure.2 ⟨.of_grows (.refl u), d, h, ?_, hcontext⟩
    rw [hbare]
    exact .nil
  | object => exact object
  | struct => exact object

/-- Whether a type waits for members whose references fail with certain errors
only. -/
def Completable (bad : BuildError → Prop) (u : Universe) (t : TypeEntry) (id : TypeId) : Prop :=
  ∃ d, u.Declared t id d ∧ (d.members = [] ∧ d.context = none) ∧
    ∀ m ∈ t.members, Fails bad d.kind.parameters m.reference u

theorem Completable.amend {ts : List TypeEntry} {ids : List TypeId}
    (h : List.Forall₂ (Completable bad u) ts ids) (amends : u.Amends v owners)
    (hids : ∀ id ∈ ids, id ∉ owners) : List.Forall₂ (Completable bad v) ts ids := by
  induction h with
  | nil => exact .nil
  | cons hfirst _ ih =>
    obtain ⟨hid, hrest⟩ := List.forall_mem_cons.1 hids
    obtain ⟨d, declared, hbare, hm⟩ := hfirst
    exact .cons ⟨d, declared.amend amends hid, hbare, fun m hmem => (hm m hmem).retain amends.toRetains⟩
      (ih hrest)

/-- Each declared type gets all that its entry declares. -/
theorem ends_completeEntries (ts : List TypeEntry) (hnodup : owners.Nodup)
    (hstored : List.Forall₂ (Completable bad u) ts owners) :
    Ends (completeEntries (ts.zip owners)) u (fun _ v => u.Amends v owners ∧
      List.Forall₂ (fun t id => ∃ d, v.Describes t id d) ts owners) fun e _ => bad e := by
  induction ts generalizing u owners with
  | nil =>
    cases hstored
    exact ⟨.of_grows (.refl u), .nil⟩
  | cons t ts ih =>
    obtain ⟨owner, owners, ⟨d, declared, ⟨hbare, hcontext⟩, hm⟩, hrest, rfl⟩ :=
      List.forall₂_cons_left_iff.1 hstored
    obtain ⟨hnot, hnodup'⟩ := List.nodup_cons.1 hnodup
    rw [List.zip_cons_cons, completeEntries]
    refine ends_bind.2 ((ends_completeEntry declared hbare hcontext hm).mono ?_ fun _ _ h => h)
    rintro _ v ⟨amends, e, described⟩
    -- the later types are not touched, and wait on
    have waiting := Completable.amend hrest amends fun id hid h =>
      hnot (List.mem_singleton.1 h ▸ hid)
    refine (ih hnodup' waiting).mono ?_ fun _ _ h => h
    rintro _ w ⟨amends', described'⟩
    have first : u.Amends v (owner :: owners) := amends.mono (by simp)
    have later := amends'.mono (List.subset_cons_self owner owners)
    exact ⟨first.trans later, .cons ⟨e, described.amend amends' hnot⟩ described'⟩

/-! ## Roots -/

/-- The references to the roots mean the given types, then and later. -/
theorem ends_resolveRoots (rs : List String) (hr : ∀ r ∈ rs, Fails bad [] r u) :
    Ends (resolveRoots rs) u (fun ids v => u.Grows v ∧
      List.Forall₂ (fun r id => resolveText [] r v = .ok id v) rs ids) fun e _ => bad e := by
  induction rs generalizing u with
  | nil => exact ⟨.refl u, .nil⟩
  | cons r rs ih =>
    obtain ⟨hfirst, hrest⟩ := List.forall_mem_cons.1 hr
    have hscope : ∀ {w : Universe}, ∀ p ∈ ([] : List TypeId), w.Issued p := by simp
    rw [resolveRoots]
    refine ends_bind.2 ((hfirst.ends hscope).mono ?_ fun _ _ h => h)
    rintro id v ⟨grows, hresolved⟩
    refine ends_bind.2 ((ih fun r hmem => (hrest r hmem).retain grows.retains).mono ?_
      fun _ _ h => h)
    rintro ids w ⟨grows', hall⟩
    have hagain := (lasts_resolveText hscope r id v hresolved).2 w grows'.remembers
    exact ⟨grows.trans grows', .cons hagain hall⟩

/-! ## Documents -/

/-- What a load does, with the universe that has all types declared. -/
structure Loads (u v w : Universe) (d : Document) (owners roots : List TypeId) : Prop where
  declares : DeclaresAll u v d.types owners
  amends : v.Amends w owners
  described : List.Forall₂ (fun t id => ∃ d, w.Describes t id d) d.types owners
  roots : List.Forall₂ (fun r id => resolveText [] r w = .ok id w) d.roots roots

/-- Whether the references of a document fail with certain errors only, where
its types are declared. -/
def RefersWith (bad : BuildError → Prop) (v : Universe) (d : Document) : Prop :=
  (∀ t ∈ d.types, ∀ id e, v.Declared t id e → ∀ m ∈ t.members,
    Fails bad e.kind.parameters m.reference v) ∧ ∀ r ∈ d.roots, Fails bad [] r v

/-- The rest of a load fails as the references of the document do. -/
theorem ends_completing {d : Document} (declares : DeclaresAll u v d.types owners)
    (hrefers : RefersWith bad v d) :
    Ends (do completeEntries (d.types.zip owners); resolveRoots d.roots) v
      (fun roots w => Loads u v w d owners roots) fun e _ => bad e := by
  have waiting : List.Forall₂ (Completable bad v) d.types owners := by
    have hboth := (List.forall₂_and_left _ _).2 ⟨hrefers.1, declares.stored⟩
    refine hboth.imp ?_
    rintro t id ⟨hm, e, declared, hbare⟩
    exact ⟨e, declared, hbare, hm id e declared⟩
  refine ends_bind.2 ((ends_completeEntries d.types declares.nodup waiting).mono ?_ fun _ _ h => h)
  rintro _ w ⟨amends, described⟩
  refine (ends_resolveRoots d.roots fun r hr =>
    (hrefers.2 r hr).retain amends.toRetains).mono ?_ fun _ _ h => h
  rintro roots z ⟨grows, hroots⟩
  have amends' : w.Amends z [] := .of_grows grows
  refine ⟨declares, amends.trans (.of_grows grows), described.imp ?_, hroots⟩
  rintro t id ⟨e, he⟩
  exact ⟨e, he.amend amends' List.not_mem_nil⟩

/-- A load fails as its references do once all types are declared, or because
of a type that exists. -/
theorem ends_load (bad : BuildError → Prop) {d : Document}
    (hduplicate : ∀ t ∈ d.types, bad (.duplicateType t.name))
    (hrefers : ∀ owners v, DeclaresAll u v d.types owners → RefersWith bad v d) :
    Ends (load d) u (fun roots w => ∃ owners v, Loads u v w d owners roots) fun e _ => bad e := by
  refine ends_bind.2 ((ends_declareEntries d.types).mono ?_ ?_)
  · intro owners v declares
    exact (ends_completing declares (hrefers owners v declares)).mono
      (fun _ _ h => ⟨owners, v, h⟩) fun _ _ h => h
  · rintro _ _ ⟨t, ht, rfl⟩
    exact hduplicate t ht

/-- What a document that is loaded has done. -/
theorem loads_of_loadText {text : String} {roots : List TypeId}
    (h : loadText text u = .ok roots w) :
    ∃ d owners v, Document.ofText? text = some d ∧ Loads u v w d owners roots := by
  unfold loadText at h
  cases hd : Document.ofText? text with
  | none =>
    rw [hd] at h
    cases h
  | some d =>
    rw [hd] at h
    have refers : ∀ owners v, DeclaresAll u v d.types owners → RefersWith (fun _ => True) v d :=
      fun _ _ _ => ⟨fun _ _ _ _ _ _ _ => fails_anyhow _ _ _, fun _ _ => fails_anyhow _ _ _⟩
    obtain ⟨owners, v, hloads⟩ :=
      (ends_load (fun _ => True) (fun _ _ => trivial) refers).good_of_eq h
    exact ⟨d, owners, v, rfl, hloads⟩

end Builder

end TypeExport
