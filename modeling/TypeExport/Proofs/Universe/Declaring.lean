import Mathlib.Data.List.Forall2
import TypeExport.Document.Load
import TypeExport.Proofs.Universe.Retaining

/-!
# Declaring types

What the declaration of an entry leaves in a universe (`Builder.ends_declareEntry`).
The key of the entry is new.  It gets a type of the declared kind without
members, and nothing else is added but type parameters of that type.  The
`i`-th parameter of a generic definition is whatever has the key of the
definition and the `i`-th name, because a parameter whose key is known is not
added again.

A declaration fails only when the key is known.  The types of a document are
declared one by one, each under an id of its own
(`Builder.ends_declareEntries`).
-/

namespace TypeExport

open Universe (Issued)

/-- The key of a declared type of that name and number of parameters. -/
def declaredKey (name : String) (arity : Nat) : String :=
  if arity = 0 then name else Builder.genericKey name arity

theorem declaredKey_of_eq_zero {name : String} {arity : Nat} (h : arity = 0) :
    declaredKey name arity = name := if_pos h

theorem declaredKey_of_ne_zero {name : String} {arity : Nat} (h : arity ≠ 0) :
    declaredKey name arity = Builder.genericKey name arity := if_neg h

namespace TypeEntry

/-- The names of the type parameters. -/
def parameters : TypeEntry → List String
  | object _ parameters .. => parameters
  | _ => []

/-- The key of the declared type. -/
def key (t : TypeEntry) : String := declaredKey t.name t.arity

/-- The key of a type parameter. -/
def parameterKey (t : TypeEntry) (name : String) : String := t.key ++ ":" ++ name

/-- Whether a type is of the kind that an entry declares. -/
def Shapes (t : TypeEntry) (u : Universe) (d : Descriptor) : Prop :=
  match t with
  | .object _ names _ _ => ∃ ids, d.kind = .object ids ∧ d.isValueType = false ∧
      List.Forall₂ (fun name id => u.lookup? (t.parameterKey name) = some id) names ids
  | .struct .. => d.kind = .object [] ∧ d.isValueType = true
  | .enumeration _ values =>
      d.kind = .enumeration (values.mapIdx fun i name => ⟨name, i⟩) ∧ d.isValueType = true

end TypeEntry

namespace Universe

variable {u v w : Universe} {id owner : TypeId} {d e : Descriptor} {t : TypeEntry}

/-- Whether a type is the type of an entry. -/
structure Declared (u : Universe) (t : TypeEntry) (id : TypeId) (d : Descriptor) : Prop where
  found : u.lookup? t.key = some id
  type : u.get? id = some d
  key : d.key = t.key
  shape : t.Shapes u d

/-- Whether a type is declared and waits for its members. -/
def Awaits (u : Universe) (t : TypeEntry) (id : TypeId) : Prop :=
  ∃ d, u.Declared t id d ∧ d.members = [] ∧ d.context = none

/-- Whether a type is a type parameter that the declaration of an entry adds. -/
structure IsParameter (t : TypeEntry) (owner : TypeId) (d : Descriptor) : Prop where
  name : d.name ∈ t.parameters
  kind : ∃ position, d.kind = .parameter owner position
  key : d.key = t.parameterKey d.name

/-- What declaring an entry does. -/
structure Declares (u v : Universe) (t : TypeEntry) (owner : TypeId) : Prop where
  keeps : u.Extends v
  /-- The key is new. -/
  fresh : u.lookup? t.key = none
  /-- The key gets a type without members. -/
  stored : v.Awaits t owner
  /-- Nothing else is added but type parameters. -/
  other : ∀ {id d}, v.get? id = some d → u.get? id = some d ∨ id = owner ∨ IsParameter t owner d
  bare : ∀ {id d}, v.get? id = some d → u.get? id = some d ∨ d.members = []

/-- What declaring several entries does. -/
structure DeclaresAll (u v : Universe) (ts : List TypeEntry) (owners : List TypeId) : Prop where
  keeps : u.Extends v
  /-- Each type has an id of its own. -/
  nodup : owners.Nodup
  new : ∀ id ∈ owners, ¬ u.Issued id
  stored : List.Forall₂ v.Awaits ts owners
  other : ∀ {id d}, v.get? id = some d → u.get? id = some d ∨ id ∈ owners ∨
    ∃ t ∈ ts, ∃ owner, v.lookup? t.key = some owner ∧ IsParameter t owner d
  bare : ∀ {id d}, v.get? id = some d → u.get? id = some d ∨ d.members = []

/-- The type parameters keep their keys. -/
theorem shapes_of_lookup (h : t.Shapes u d) (hkind : e.kind = d.kind)
    (hvalue : e.isValueType = d.isValueType)
    (hl : ∀ {key id}, u.lookup? key = some id → v.lookup? key = some id) : t.Shapes v e := by
  cases t with
  | object name names members context =>
    obtain ⟨ids, hids, hclass, hkeys⟩ := h
    exact ⟨ids, hkind.trans hids, hvalue.trans hclass, hkeys.imp fun _ _ hkey => hl hkey⟩
  | struct => exact ⟨hkind.trans h.1, hvalue.trans h.2⟩
  | enumeration => exact ⟨hkind.trans h.1, hvalue.trans h.2⟩

theorem Declared.extend (h : u.Declared t id d) (keeps : u.Extends v) : v.Declared t id d :=
  ⟨keeps.lookup h.found, keeps.type h.type, h.key, shapes_of_lookup h.shape rfl rfl keeps.lookup⟩

theorem Declared.retain (h : u.Declared t id d) (keeps : u.Retains v) :
    ∃ members context, v.Declared t id { d with members, context } := by
  obtain ⟨ms, c, he⟩ := keeps.type h.type
  exact ⟨ms, c, keeps.lookup h.found, he, h.key, shapes_of_lookup h.shape rfl rfl keeps.lookup⟩

/-- The type of an entry is a new one. -/
theorem Declares.new (h : Declares u v t owner) : ¬ u.Issued owner := by
  intro hi
  obtain ⟨d, hd⟩ := issued_iff.1 hi
  obtain ⟨e, declared, -⟩ := h.stored
  cases (h.keeps.type hd).symm.trans declared.type
  exact lookup?_eq_none_iff.1 h.fresh _ (Array.mem_of_getElem? hd) declared.key

theorem DeclaresAll.nil (u : Universe) : DeclaresAll u u [] [] :=
  ⟨.refl u, .nil, by simp, .nil, .inl, .inl⟩

theorem DeclaresAll.cons {ts : List TypeEntry} {owners : List TypeId}
    (h : Declares u v t owner) (hs : DeclaresAll v w ts owners) :
    DeclaresAll u w (t :: ts) (owner :: owners) where
  keeps := h.keeps.trans hs.keeps
  nodup := by
    obtain ⟨d, declared, -⟩ := h.stored
    exact List.nodup_cons.2 ⟨fun hmem => hs.new owner hmem (issued_of_get? declared.type), hs.nodup⟩
  new := by
    refine List.forall_mem_cons.2 ⟨h.new, fun id hid hi => ?_⟩
    exact hs.new id hid (h.keeps.issued hi)
  stored := by
    obtain ⟨d, declared, hbare⟩ := h.stored
    exact .cons ⟨d, declared.extend hs.keeps, hbare⟩ hs.stored
  other := by
    intro id d hd
    rcases hs.other hd with hold | hid | ⟨t', ht', hparameter⟩
    · rcases h.other hold with hu | rfl | hparameter
      · exact .inl hu
      · exact .inr (.inl List.mem_cons_self)
      · obtain ⟨e, declared, -⟩ := h.stored
        exact .inr (.inr ⟨t, List.mem_cons_self, owner, hs.keeps.lookup declared.found, hparameter⟩)
    · exact .inr (.inl (List.mem_cons_of_mem _ hid))
    · exact .inr (.inr ⟨t', List.mem_cons_of_mem _ ht', hparameter⟩)
  bare := by
    intro id d hd
    rcases hs.bare hd with hold | hbare
    · exact h.bare hold
    · exact .inr hbare

end Universe

namespace Builder

open Universe

variable {u v w : Universe}

/-- What interning a descriptor under a new key does. -/
structure Adds (u v : Universe) (d : Descriptor) (id : TypeId) : Prop where
  keeps : u.Extends v
  new : ¬ u.Issued id
  found : v.lookup? d.key = some id
  stored : v.get? id = some d
  other : ∀ {i e}, v.get? i = some e → u.get? i = some e ∨ i = id ∧ e = d

theorem ends_intern_adds {d : Descriptor} (h : u.lookup? d.key = none) :
    Ends (intern d) u (fun id v => Adds u v d id) fun _ _ => False := by
  have hid : (u.intern d).1 = ⟨u.size⟩ := by rw [intern_of_lookup?_eq_none h]
  have adds : Adds u (u.intern d).2 d (u.intern d).1 := {
    keeps := extends_intern u d
    new := by
      rw [hid]
      exact Nat.lt_irrefl _
    found := lookup?_intern u d
    stored := by
      rw [hid]
      exact (get?_intern_of_lookup?_eq_none h).trans (if_pos rfl)
    other := of_get?_intern }
  exact adds

theorem ends_modify_issued {id : TypeId} {d : Descriptor} (f : Descriptor → Descriptor)
    (h : u.get? id = some d) :
    Ends (modify id f) u (fun _ v => v = u.modify id f) fun _ _ => False := by
  exact ends_bind.2 ((ends_view h).2 (ends_modifyGet.2 rfl))

/-- Declaring a type without parameters. -/
theorem ends_intern_declares {t : TypeEntry} {d : Descriptor} (hkey : d.key = t.key)
    (hshape : ∀ v, t.Shapes v d) (hbare : d.members = []) (hcontext : d.context = none)
    (hfresh : u.lookup? t.key = none) :
    Ends (intern d) u (fun owner v => Declares u v t owner) fun _ _ => False := by
  refine (ends_intern_adds (hkey ▸ hfresh)).mono ?_ fun _ _ h => h
  intro owner v adds
  exact {
    keeps := adds.keeps
    fresh := hfresh
    stored := ⟨d, ⟨hkey ▸ adds.found, adds.stored, hkey, hshape v⟩, hbare, hcontext⟩
    other := fun h => (adds.other h).imp_right fun hnew => .inl hnew.1
    bare := by
      intro i e he
      rcases adds.other he with hold | ⟨-, rfl⟩
      · exact .inl hold
      · exact .inr hbare }

/-- What interning type parameters does. -/
theorem ends_internParameters (t : TypeEntry) (owner : TypeId) (space : String) (position : Nat)
    (names : List String) (hnames : names ⊆ t.parameters) :
    Ends (internParameters owner t.key space position names) u (fun ids v => u.Extends v ∧
      List.Forall₂ (fun name id => v.lookup? (t.parameterKey name) = some id) names ids ∧
      ∀ {id d}, v.get? id = some d → u.get? id = some d ∨ IsParameter t owner d ∧ d.members = [])
      fun _ _ => False := by
  induction names generalizing u position with
  | nil => exact ⟨.refl u, .nil, .inl⟩
  | cons name names ih =>
    obtain ⟨hname, hrest⟩ := List.cons_subset.1 hnames
    rw [internParameters]
    refine ends_bind.2 ?_
    show Ends _ (u.intern _).2 _ _
    refine ends_bind.2 ((ih (position + 1) hrest).mono ?_ fun _ _ h => h)
    rintro ids v ⟨keeps, hids, hother⟩
    refine ⟨(extends_intern u _).trans keeps, .cons (keeps.lookup (lookup?_intern u _)) hids,
      fun h => ?_⟩
    rcases hother h with hold | hparameter
    · rcases of_get?_intern hold with hu | ⟨-, rfl⟩
      · exact .inl hu
      · exact .inr ⟨⟨hname, ⟨position, rfl⟩, rfl⟩, rfl⟩
    · exact .inr hparameter

/-- A new definition is declared when it gets its type parameters, which are all
that was added behind it. -/
theorem Adds.declares {t : TypeEntry} {o : Descriptor} {owner : TypeId} {ids : List TypeId}
    (adds : Adds u v o owner) (hfresh : u.lookup? t.key = none) (hkey : o.key = t.key)
    (hbare : o.members = []) (hcontext : o.context = none) (keeps : v.Extends w)
    (hother : ∀ {i e}, w.get? i = some e →
      v.get? i = some e ∨ IsParameter t owner e ∧ e.members = [])
    (hshape : ∀ z, (∀ {key id}, w.lookup? key = some id → z.lookup? key = some id) →
      t.Shapes z { o with kind := .object ids }) :
    Declares u (w.modify owner ({ · with kind := .object ids })) t owner := by
  have hsame : ∀ key, (w.modify owner ({ · with kind := .object ids })).lookup? key =
      w.lookup? key := lookup?_modify fun _ => rfl
  have hlookup : ∀ {key id}, w.lookup? key = some id →
      (w.modify owner ({ · with kind := .object ids })).lookup? key = some id :=
    fun hl => (hsame _).trans hl
  have hself : (w.modify owner ({ · with kind := .object ids })).get? owner =
      some { o with kind := .object ids } := by
    rw [get?_modify, if_pos rfl, keeps.type adds.stored]
    rfl
  have hbesides : ∀ {i e}, (w.modify owner ({ · with kind := .object ids })).get? i = some e →
      i = owner ∨ u.get? i = some e ∨ IsParameter t owner e ∧ e.members = [] := by
    intro i e he
    rw [get?_modify] at he
    split at he
    · rename_i h
      exact .inl h.symm
    · rcases hother he with hold | hparameter
      · exact (adds.other hold).symm.imp And.left .inl
      · exact .inr (.inr hparameter)
  exact {
    keeps := by
      refine ⟨fun {i e} he => ?_, fun hl => hlookup (keeps.lookup (adds.keeps.lookup hl))⟩
      have hne : owner ≠ i := fun h => adds.new (h ▸ issued_of_get? he)
      rw [get?_modify, if_neg hne]
      exact keeps.type (adds.keeps.type he)
    fresh := hfresh
    stored := by
      have hfound := hlookup (keeps.lookup adds.found)
      rw [hkey] at hfound
      exact ⟨_, ⟨hfound, hself, hkey, hshape _ hlookup⟩, hbare, hcontext⟩
    other := by
      intro i e he
      rcases hbesides he with hid | hold | ⟨hparameter, -⟩
      · exact .inr (.inl hid)
      · exact .inl hold
      · exact .inr (.inr hparameter)
    bare := by
      intro i e he
      rcases hbesides he with rfl | hold | ⟨-, hbare'⟩
      · cases hself.symm.trans he
        exact .inr hbare
      · exact .inl hold
      · exact .inr hbare' }

/-- Declaring a generic definition gives it its type parameters last. -/
theorem ends_genericObject {t : TypeEntry} {name : String} {names : List String}
    {members : List MemberEntry} {context : Option UInt8} (ht : t = .object name names members context)
    (hnames : names ≠ []) (hfresh : u.lookup? t.key = none) :
    Ends (genericObject name names) u (fun owner v => Declares u v t owner) fun _ _ => False := by
  have harity : names.length ≠ 0 := fun h => hnames (List.length_eq_zero_iff.1 h)
  have hkey : genericKey name names.length = t.key := by
    rw [ht]
    exact (declaredKey_of_ne_zero harity).symm
  have hparameters : names ⊆ t.parameters := by
    rw [ht]
    exact List.Subset.refl _
  unfold genericObject
  rw [hkey]
  refine ends_bind.2 (ends_get.2 ?_)
  simp only [hfresh]
  let o := Descriptor.ofFullName name t.key (.object []) false
  have adding : Ends (intern o) u (fun id v => Adds u v o id) _ := ends_intern_adds hfresh
  refine ends_bind.2 (adding.mono ?_ fun _ _ h => h)
  intro owner v adds
  refine ends_bind.2 ((ends_internParameters t owner o.space 0 names hparameters).mono ?_
    fun _ _ h => h)
  rintro ids w ⟨keeps, hids, hother⟩
  refine ends_bind.2 ((ends_modify_issued _ (keeps.type adds.stored)).mono ?_ fun _ _ h => h)
  rintro _ _ rfl
  refine adds.declares hfresh rfl rfl rfl keeps hother fun z hz => ?_
  rw [ht] at hids ⊢
  exact ⟨ids, rfl, rfl, hids.imp fun _ _ hl => hz hl⟩

/-- Declaring an entry fails only when its key is known. -/
theorem ends_declareEntry (t : TypeEntry) : Ends (declareEntry t) u
    (fun owner v => Declares u v t owner) fun e _ => e = .duplicateType t.name := by
  unfold declareEntry
  refine ends_bind.2 (ends_get.2 ?_)
  split
  · exact ends_throw.2 rfl
  · rename_i hnone
    have hfresh : u.lookup? t.key = none := hnone
    cases t with
    | object name names members context =>
      cases names with
      | nil =>
        refine Ends.mono (ends_intern_declares rfl ?_ rfl rfl hfresh) (fun _ _ h => h)
          fun _ _ h => h.elim
        exact fun _ => ⟨[], rfl, rfl, .nil⟩
      | cons name' names =>
        exact (ends_genericObject rfl (by simp) hfresh).mono (fun _ _ h => h) fun _ _ h => h.elim
    | struct name members context =>
      refine Ends.mono (ends_intern_declares rfl ?_ rfl rfl hfresh) (fun _ _ h => h)
        fun _ _ h => h.elim
      exact fun _ => ⟨rfl, rfl⟩
    | enumeration name values =>
      refine Ends.mono (ends_intern_declares rfl ?_ rfl rfl hfresh) (fun _ _ h => h)
        fun _ _ h => h.elim
      exact fun _ => ⟨rfl, rfl⟩

/-- Declaring several entries fails only when a key is known. -/
theorem ends_declareEntries (ts : List TypeEntry) : Ends (declareEntries ts) u
    (fun owners v => DeclaresAll u v ts owners)
    fun e _ => ∃ t ∈ ts, e = .duplicateType t.name := by
  induction ts generalizing u with
  | nil => exact .nil u
  | cons t ts ih =>
    rw [declareEntries]
    refine ends_bind.2 ((ends_declareEntry t).mono ?_ fun _ _ h => ⟨t, List.mem_cons_self, h⟩)
    intro owner v declares
    refine ends_bind.2 (ih.mono ?_ ?_)
    · intro owners w declaresAll
      exact .cons declares declaresAll
    · rintro _ _ ⟨t', ht', h⟩
      exact ⟨t', List.mem_cons_of_mem _ ht', h⟩

end Builder

end TypeExport
