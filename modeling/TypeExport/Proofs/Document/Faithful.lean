import TypeExport.Proofs.Universe.Covering
import TypeExport.Proofs.Universe.Loading

/-!
# Loading reads a document

A universe that a text loads into is a reading of its document
(`Universe.IsReading`): every entry has a type of its own, which is all that the
entry declares, and nothing else has members.  References are resolved while the
universe still grows, and yet mean in the finished universe what they meant
then.

The order of the declarations does not matter.  A load succeeds when each
reference of the document is resolved where all its types are declared, and
there every declared type can be named (`Builder.reads_document`).
-/

namespace TypeExport

open Universe

/-- Whether a universe is what a document says, with the ids of its types and of
its roots. -/
structure Universe.IsReading (u : Universe) (d : Document) (owners roots : List TypeId) :
    Prop where
  /-- Every entry has a type of its own. -/
  nodup : owners.Nodup
  described : List.Forall₂ (fun t id => ∃ e, u.Describes t id e) d.types owners
  /-- Nothing else has members. -/
  bare : ∀ {id e}, u.get? id = some e → id ∉ owners → e.members = []
  /-- The roots are in order. -/
  roots : List.Forall₂ (fun r id => Builder.resolveText [] r u = .ok id u) d.roots roots

/-- The type parameters of the type that an entry declares. -/
def Universe.scopeOf (u : Universe) (t : TypeEntry) : List TypeId :=
  (((u.lookup? t.key).bind u.get?).map (·.kind.parameters)).getD []

theorem scopeOf_of_declared {u : Universe} {t : TypeEntry} {id : TypeId} {e : Descriptor}
    (h : u.Declared t id e) : u.scopeOf t = e.kind.parameters := by
  simp [Universe.scopeOf, h.found, h.type]

/-- A member has the type that some reference means in the scope of its owner. -/
theorem Universe.IsReading.exists_reference {u : Universe} {d : Document}
    {owners roots : List TypeId} (h : u.IsReading d owners roots) {id : TypeId} {e : Descriptor}
    {m : Member} (he : u.get? id = some e) (hm : m ∈ e.members) :
    ∃ reference, Builder.resolveText e.kind.parameters reference u = .ok m.type u := by
  by_cases hid : id ∈ owners
  · obtain ⟨t, -, e', hdescribes⟩ := exists_of_mem_forall₂ h.described hid
    cases hdescribes.type.symm.trans he
    obtain ⟨entry, -, hreads⟩ := exists_of_mem_forall₂ hdescribes.members hm
    exact ⟨entry.reference, hreads.type⟩
  · rw [h.bare he hid] at hm
    cases hm

namespace Builder

variable {u v : Universe} {d : Document} {owners roots : List TypeId}

/-- What an empty universe loads is a reading of the document. -/
theorem Loads.isReading (h : Loads {} v u d owners roots) : u.IsReading d owners roots where
  nodup := h.declares.nodup
  described := h.described
  bare {id e} he hid := by
    rcases h.amends.bare he with hmem | hold | hbare
    · exact absurd hmem hid
    · rcases h.declares.bare hold with hempty | hbare
      · simp [get?] at hempty
      · exact hbare
    · exact hbare
  roots := h.roots

/-- The name of a declared type without parameters is resolved in any scope. -/
theorem exists_resolve_declared {t : TypeEntry} {id : TypeId} {e : Descriptor}
    (h : v.Declared t id e) (harity : t.arity = 0) (scope : List TypeId) :
    ∃ i w, resolve scope (.named t.name []) v = .ok i w := by
  have hl : declared? v t.name 0 = some id := by
    have hfound := h.found
    rw [TypeEntry.key, declaredKey_of_eq_zero harity] at hfound
    exact hfound
  have ends : Ends (resolve scope (.named t.name [])) v (fun _ _ => True) fun _ _ => False := by
    rw [resolve]
    refine ends_bind.2 (ends_get.2 ?_)
    split
    · exact ends_pure.2 trivial
    · split
      · exact trivial
      · refine ends_bind.2 (ends_get.2 ?_)
        rw [hl]
        exact ends_pure.2 trivial
  obtain ⟨i, w, hrun, -⟩ := ends.exists_ok
  exact ⟨i, w, hrun⟩

/-- Whether a reference is resolved. -/
def Resolves (v : Universe) (scope : List TypeId) (reference : String) : Prop :=
  match resolveText scope reference v with
  | .ok .. => True
  | .error .. => False

instance (v : Universe) (scope : List TypeId) (reference : String) :
    Decidable (Resolves v scope reference) :=
  match h : resolveText scope reference v with
  | .ok .. => .isTrue (by simp [Resolves, h])
  | .error .. => .isFalse (by simp [Resolves, h])

/-- Whether each reference of a document is resolved where its types are
declared. -/
def ResolvesAll (v : Universe) (d : Document) : Prop :=
  (∀ t ∈ d.types, ∀ m ∈ t.members, Resolves v (v.scopeOf t) m.reference) ∧
    ∀ r ∈ d.roots, Resolves v [] r

instance (v : Universe) (d : Document) : Decidable (ResolvesAll v d) :=
  inferInstanceAs (Decidable ((∀ t ∈ d.types, ∀ m ∈ t.members,
    Resolves v (v.scopeOf t) m.reference) ∧ ∀ r ∈ d.roots, Resolves v [] r))

theorem Resolves.exists_ok {scope : List TypeId} {reference : String}
    (h : Resolves v scope reference) : ∃ i w, resolveText scope reference v = .ok i w := by
  unfold Resolves at h
  split at h
  · rename_i i w hrun
    exact ⟨i, w, hrun⟩
  · exact h.elim

/-- A document is loaded when its references are resolved where all its types
are declared. -/
theorem exists_load (hd : declareEntries d.types {} = .ok owners v) (h : ResolvesAll v d) :
    ∃ roots u, load d {} = .ok roots u := by
  have declares := (ends_declareEntries d.types).good_of_eq hd
  have sound : v.Sound := ((builds_declareEntries sound_empty d.types).good_of_eq hd).2.1
  have hrefers : RefersWith (fun _ => False) v d := by
    constructor
    · intro t ht id e declared m hm
      have hresolves := h.1 t ht m hm
      rw [scopeOf_of_declared declared] at hresolves
      exact fails_of_resolves sound declared.issued_parameters hresolves.exists_ok
    · intro r hr
      exact fails_of_resolves sound (by simp) (h.2 r hr).exists_ok
  obtain ⟨roots, u, hrun, -⟩ := (ends_completing declares hrefers).exists_ok
  exact ⟨roots, u, bind_eq_ok_iff.2 ⟨owners, v, hd, hrun⟩⟩

/-- What a text loads into is a reading of its document.  The types of a document
may refer to one another in any order: once all are declared, each can be named,
and the load succeeds when each reference is resolved there. -/
theorem reads_document (text : String) :
    (∀ roots u, loadText text {} = .ok roots u →
      ∃ d owners, Document.ofText? text = some d ∧ u.IsReading d owners roots) ∧
    ∀ d owners v, Document.ofText? text = some d → declareEntries d.types {} = .ok owners v →
      (∀ t ∈ d.types, t.arity = 0 → ∀ scope,
        ∃ i w, resolve scope (.named t.name []) v = .ok i w) ∧
      (ResolvesAll v d → ∃ roots u, loadText text {} = .ok roots u) := by
  constructor
  · intro roots u h
    obtain ⟨d, owners, v, hd, hloads⟩ := loads_of_loadText h
    exact ⟨d, owners, hd, hloads.isReading⟩
  · intro d owners v hd hdeclare
    constructor
    · intro t ht harity scope
      have declares := (ends_declareEntries d.types).good_of_eq hdeclare
      obtain ⟨id, -, e, declared, -⟩ := exists_of_forall₂_mem declares.stored ht
      exact exists_resolve_declared declared harity scope
    · intro hresolves
      obtain ⟨roots, u, hload⟩ := exists_load hdeclare hresolves
      refine ⟨roots, u, ?_⟩
      rw [loadText, hd]
      exact hload

/-- A document whose types refer to themselves and to one another. -/
@[irreducible] def ringText : String :=
  r#"[[["object","Node",["T"],[["Next","Node<T>"],["Of","Tree?"]]],
["struct","Tree",[["Root","Node<Tree>"]]]],["Tree"]]"#

/-- The types of a document are declared, and its references are resolved
there. -/
def isResolved (text : String) : Bool :=
  match Document.ofText? text with
  | some d =>
    match declareEntries d.types {} with
    | .ok _ v => decide (ResolvesAll v d)
    | .error .. => false
  | none => false

theorem reads_document_ring : ∃ d owners v roots u, Document.ofText? ringText = some d ∧
    declareEntries d.types {} = .ok owners v ∧ ResolvesAll v d ∧
    loadText ringText {} = .ok roots u ∧ ∃ d owners, Document.ofText? ringText = some d ∧
      u.IsReading d owners roots := by
  have h : isResolved ringText = true := by decide +kernel
  unfold isResolved at h
  split at h
  · rename_i d hd
    split at h
    · rename_i owners v hdeclare
      have hresolves := of_decide_eq_true h
      obtain ⟨reads, loads⟩ := reads_document ringText
      obtain ⟨roots, u, hload⟩ := (loads d owners v hd hdeclare).2 hresolves
      exact ⟨d, owners, v, roots, u, hd, hdeclare, hresolves, hload, reads roots u hload⟩
    · cases h
  · cases h

end Builder

end TypeExport
