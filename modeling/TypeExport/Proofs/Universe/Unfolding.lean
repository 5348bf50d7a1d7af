import TypeExport.Proofs.Universe.Meaning

/-!
# Unfolding types

What a type of a universe is, read from the descriptors behind its id
(`Universe.Unfolds`).  A type has at most one meaning (`Unfolds.unique`).

In a universe that documents with proper names were loaded into, every type has
one, and its key is the key of that meaning (`Orderly.hasMeaning`).  Keys tell
meanings apart, so types that mean something else have another key and another
id (`Orderly.eq_iff`).
-/

namespace TypeExport

namespace Universe

mutual

/-- Whether a type is what a meaning says. -/
inductive Unfolds (u : Universe) : TypeId → Meaning → Prop
  | builtin {id : TypeId} {d : Descriptor} {b : Builtin} : u.get? id = some d →
      d.kind = .builtin b → Unfolds u id (.builtin b)
  | container {id : TypeId} {d : Descriptor} {c : Container} : u.get? id = some d →
      d.kind = .container c → Unfolds u id (.container c)
  | enumeration {id : TypeId} {d : Descriptor} {values : List EnumValue} : u.get? id = some d →
      d.kind = .enumeration values → Unfolds u id (.declared d.key 0)
  /-- The key of a generic definition ends with the number of its parameters. -/
  | object {id : TypeId} {d : Descriptor} {parameters : List TypeId} {name : String} :
      u.get? id = some d → d.kind = .object parameters →
      d.key = declaredKey name parameters.length →
      Unfolds u id (.declared name parameters.length)
  | parameter {id : TypeId} {d : Descriptor} {owner : TypeId} {position : Nat} {name : String}
      {arity : Nat} : u.get? id = some d → d.kind = .parameter owner position →
      Unfolds u owner (.declared name arity) → Unfolds u id (.parameter name arity d.name)
  | array {id : TypeId} {d : Descriptor} {element : TypeId} {m : Meaning} : u.get? id = some d →
      d.kind = .array element → Unfolds u element m → Unfolds u id (.array m)
  | closed {id : TypeId} {d : Descriptor} {definition : TypeId} {arguments : List TypeId}
      {m : Meaning} {ms : List Meaning} : u.get? id = some d →
      d.kind = .closed definition arguments → Unfolds u definition m →
      UnfoldsAll u arguments ms → Unfolds u id (.closed m ms)

/-- Whether types are what meanings say, in order. -/
inductive UnfoldsAll (u : Universe) : List TypeId → List Meaning → Prop
  | nil : UnfoldsAll u [] []
  | cons {id : TypeId} {ids : List TypeId} {m : Meaning} {ms : List Meaning} : Unfolds u id m →
      UnfoldsAll u ids ms → UnfoldsAll u (id :: ids) (m :: ms)

end

variable {u v : Universe} {id owner : TypeId} {d : Descriptor} {m m' : Meaning} {t : TypeEntry}

/-- What a type means by its kind. -/
def MeansByKind (u : Universe) (d : Descriptor) (m : Meaning) : Prop :=
  match d.kind with
  | .builtin b => m = .builtin b
  | .container c => m = .container c
  | .enumeration _ => m = .declared d.key 0
  | .object parameters =>
    ∃ name, d.key = declaredKey name parameters.length ∧ m = .declared name parameters.length
  | .parameter owner _ =>
    ∃ name arity, u.Unfolds owner (.declared name arity) ∧ m = .parameter name arity d.name
  | .array element => ∃ m', u.Unfolds element m' ∧ m = .array m'
  | .closed definition arguments =>
    ∃ m' ms, u.Unfolds definition m' ∧ u.UnfoldsAll arguments ms ∧ m = .closed m' ms

theorem Unfolds.byKind (h : u.Unfolds id m) (hd : u.get? id = some d) : u.MeansByKind d m := by
  unfold MeansByKind
  cases h with
  | builtin he hkind =>
    cases he.symm.trans hd
    rw [hkind]
  | container he hkind =>
    cases he.symm.trans hd
    rw [hkind]
  | enumeration he hkind =>
    cases he.symm.trans hd
    rw [hkind]
  | object he hkind hkey =>
    cases he.symm.trans hd
    rw [hkind]
    exact ⟨_, hkey, rfl⟩
  | parameter he hkind howner =>
    cases he.symm.trans hd
    rw [hkind]
    exact ⟨_, _, howner, rfl⟩
  | array he hkind helement =>
    cases he.symm.trans hd
    rw [hkind]
    exact ⟨_, helement, rfl⟩
  | closed he hkind hdefinition harguments =>
    cases he.symm.trans hd
    rw [hkind]
    exact ⟨_, _, hdefinition, harguments, rfl⟩

mutual

/-- A type has at most one meaning. -/
theorem Unfolds.unique {u : Universe} : ∀ {id : TypeId} {m m' : Meaning}, u.Unfolds id m →
    u.Unfolds id m' → m = m'
  | _, _, _, .builtin hd hkind, h' => by
    have hmeans := h'.byKind hd
    rw [MeansByKind, hkind] at hmeans
    exact hmeans.symm
  | _, _, _, .container hd hkind, h' => by
    have hmeans := h'.byKind hd
    rw [MeansByKind, hkind] at hmeans
    exact hmeans.symm
  | _, _, _, .enumeration hd hkind, h' => by
    have hmeans := h'.byKind hd
    rw [MeansByKind, hkind] at hmeans
    exact hmeans.symm
  | _, _, _, .object hd hkind hkey, h' => by
    have hmeans := h'.byKind hd
    rw [MeansByKind, hkind] at hmeans
    obtain ⟨name, hname, rfl⟩ := hmeans
    rw [declaredKey_left_inj (hkey.symm.trans hname)]
  | _, _, _, .parameter hd hkind howner, h' => by
    have hmeans := h'.byKind hd
    rw [MeansByKind, hkind] at hmeans
    obtain ⟨name, arity, howner', rfl⟩ := hmeans
    cases Unfolds.unique howner howner'
    rfl
  | _, _, _, .array hd hkind helement, h' => by
    have hmeans := h'.byKind hd
    rw [MeansByKind, hkind] at hmeans
    obtain ⟨m, helement', rfl⟩ := hmeans
    rw [Unfolds.unique helement helement']
  | _, _, _, .closed hd hkind hdefinition harguments, h' => by
    have hmeans := h'.byKind hd
    rw [MeansByKind, hkind] at hmeans
    obtain ⟨m, ms, hdefinition', harguments', rfl⟩ := hmeans
    rw [Unfolds.unique hdefinition hdefinition', UnfoldsAll.unique harguments harguments']

theorem UnfoldsAll.unique {u : Universe} : ∀ {ids : List TypeId} {ms ms' : List Meaning},
    u.UnfoldsAll ids ms → u.UnfoldsAll ids ms' → ms = ms'
  | _, _, _, .nil, .nil => rfl
  | _, _, _, .cons h hs, .cons h' hs' => by rw [Unfolds.unique h h', UnfoldsAll.unique hs hs']

end

mutual

/-- A type keeps its meaning while types are added. -/
theorem Unfolds.extend {u v : Universe} (keeps : u.Extends v) :
    ∀ {id : TypeId} {m : Meaning}, u.Unfolds id m → v.Unfolds id m
  | _, _, .builtin hd hkind => .builtin (keeps.type hd) hkind
  | _, _, .container hd hkind => .container (keeps.type hd) hkind
  | _, _, .enumeration hd hkind => .enumeration (keeps.type hd) hkind
  | _, _, .object hd hkind hkey => .object (keeps.type hd) hkind hkey
  | _, _, .parameter hd hkind howner => .parameter (keeps.type hd) hkind (howner.extend keeps)
  | _, _, .array hd hkind helement => .array (keeps.type hd) hkind (helement.extend keeps)
  | _, _, .closed hd hkind hdefinition harguments =>
    .closed (keeps.type hd) hkind (hdefinition.extend keeps) (harguments.extend keeps)

theorem UnfoldsAll.extend {u v : Universe} (keeps : u.Extends v) :
    ∀ {ids : List TypeId} {ms : List Meaning}, u.UnfoldsAll ids ms → v.UnfoldsAll ids ms
  | _, _, .nil => .nil
  | _, _, .cons h hs => .cons (h.extend keeps) (hs.extend keeps)

end

theorem Unfolds.exists_get? (h : u.Unfolds id m) : ∃ d, u.get? id = some d := by
  cases h with
  | builtin hd => exact ⟨_, hd⟩
  | container hd => exact ⟨_, hd⟩
  | enumeration hd => exact ⟨_, hd⟩
  | object hd => exact ⟨_, hd⟩
  | parameter hd => exact ⟨_, hd⟩
  | array hd => exact ⟨_, hd⟩
  | closed hd => exact ⟨_, hd⟩

end Universe

/-! ## Where types come from -/

/-- Whether the names that an entry declares are proper: a path, identifiers, and
a key that is neither a built-in type's nor an open container's. -/
structure TypeEntry.WellNamed (t : TypeEntry) : Prop where
  name : isPath t.name = true
  parameter : ∀ p ∈ t.parameters, isIdentifier p.toList = true
  builtin : ∀ b : Builtin, t.key ≠ b.fullName
  container : Universe.IsOwnKey t.key

namespace Universe

variable {u v : Universe} {id owner : TypeId} {d : Descriptor} {m m' : Meaning} {t : TypeEntry}

/-- Where a type comes from. -/
inductive Origin (u : Universe) (id : TypeId) (d : Descriptor) : Prop
  | intrinsic : d.IsIntrinsic → Origin u id d
  | declared (t : TypeEntry) : t.WellNamed → u.Declared t id d → Origin u id d
  | parameter (t : TypeEntry) (owner : TypeId) (o : Descriptor) : t.WellNamed →
      u.Declared t owner o → IsParameter t owner d → Origin u id d

/-- Whether a universe is sound, and its types come from entries with proper
names or need none. -/
structure Orderly (u : Universe) : Prop where
  sound : u.Sound
  origin : ∀ {id d}, u.get? id = some d → u.Origin id d

theorem orderly_empty : ({} : Universe).Orderly where
  sound := sound_empty
  origin h := by simp [get?] at h

theorem Origin.extend (h : u.Origin id d) (keeps : u.Extends v) : v.Origin id d := by
  cases h with
  | intrinsic h => exact .intrinsic h
  | declared t ht h => exact .declared t ht (h.extend keeps)
  | parameter t owner o ht ho h => exact .parameter t owner o ht (ho.extend keeps) h

theorem Origin.retain {members : List Member} {context : Option UInt8} (h : u.Origin id d)
    (keeps : u.Retains v) (he : v.get? id = some { d with members, context }) :
    v.Origin id { d with members, context } := by
  cases h with
  | intrinsic h => exact .intrinsic h
  | declared t ht h =>
    obtain ⟨ms, c, declared⟩ := h.retain keeps
    cases he.symm.trans declared.type
    exact .declared t ht declared
  | parameter t owner o ht ho h =>
    obtain ⟨ms, c, declared⟩ := ho.retain keeps
    exact .parameter t owner _ ht declared ⟨h.name, h.kind, h.key⟩

theorem Orderly.grow (h : u.Orderly) (grows : u.Grows v) (sound : v.Sound) : v.Orderly where
  sound := sound
  origin hd := by
    rcases grows.added hd with hold | ⟨hnew, -⟩
    · exact (h.origin hold).extend grows.toExtends
    · exact .intrinsic hnew

/-- Loading a document with proper names leaves an orderly universe. -/
theorem Orderly.load {w : Universe} {d : Document} {owners roots : List TypeId} (h : u.Orderly)
    (hd : ∀ t ∈ d.types, t.WellNamed) (hload : Builder.Loads u v w d owners roots)
    (sound : w.Sound) : w.Orderly where
  sound := sound
  origin {id e} he := by
    have declares := hload.declares
    have origin : ∀ {id e}, v.get? id = some e → v.Origin id e := by
      intro id e he
      rcases declares.other he with hold | hid | ⟨t, ht, owner, hfound, hparameter⟩
      · exact (h.origin hold).extend declares.keeps
      · obtain ⟨t, ht, e', declared, -⟩ := exists_of_mem_forall₂ declares.stored hid
        cases declared.type.symm.trans he
        exact .declared t (hd t ht) declared
      · obtain ⟨owner', -, o, declared, -⟩ := exists_of_forall₂_mem declares.stored ht
        cases declared.found.symm.trans hfound
        exact .parameter t owner o (hd t ht) declared hparameter
    rcases hload.amends.added he with hissued | hintrinsic
    · obtain ⟨e', he'⟩ := issued_iff.1 hissued
      obtain ⟨ms, c, he''⟩ := hload.amends.type he'
      cases he.symm.trans he''
      exact (origin he').retain hload.amends.toRetains he
    · exact .intrinsic hintrinsic

/-! ## Meanings of all types -/

/-- A declared type means what its entry says. -/
theorem Declared.unfolds (h : u.Declared t id d) : u.Unfolds id (.declared t.name t.arity) := by
  have hkey := h.key
  have hshape := h.shape
  cases t with
  | object name names members context =>
    obtain ⟨ids, hkind, -, hids⟩ := hshape
    have hlength : names.length = ids.length := hids.length_eq
    show u.Unfolds id (.declared name names.length)
    rw [hlength]
    refine .object h.type hkind (hkey.trans ?_)
    show declaredKey name names.length = _
    rw [hlength]
  | struct name => exact .object h.type hshape.1 hkey
  | enumeration name values =>
    have hname : d.key = name := hkey
    show u.Unfolds id (.declared name 0)
    rw [← hname]
    exact .enumeration h.type hshape.1

theorem isProper_declared (h : t.WellNamed) : (Meaning.declared t.name t.arity).IsProper :=
  .declared h.name h.builtin h.container

/-- Whether a type has a meaning of proper names under its key. -/
def HasMeaning (u : Universe) (id : TypeId) : Prop :=
  ∃ m, u.Unfolds id m ∧ m.IsProper ∧ m.key = u.keyOf id

theorem exists_unfoldsAll {ids : List TypeId} (h : ∀ id ∈ ids, u.HasMeaning id) :
    ∃ ms, u.UnfoldsAll ids ms ∧ (∀ m ∈ ms, m.IsProper) ∧ Meaning.keys ms = ids.map u.keyOf := by
  induction ids with
  | nil => exact ⟨[], .nil, by simp, rfl⟩
  | cons id ids ih =>
    obtain ⟨⟨m, hm, hproper, hkey⟩, hrest⟩ := List.forall_mem_cons.1 h
    obtain ⟨ms, hms, hpropers, hkeys⟩ := ih hrest
    refine ⟨m :: ms, .cons hm hms, List.forall_mem_cons.2 ⟨hproper, hpropers⟩, ?_⟩
    rw [Meaning.keys, hkey, hkeys, List.map_cons]

theorem UnfoldsAll.length_eq {ids : List TypeId} {ms : List Meaning} (h : u.UnfoldsAll ids ms) :
    ids.length = ms.length := by
  induction ids generalizing ms with
  | nil =>
    cases h
    rfl
  | cons id ids ih =>
    cases h with
    | cons _ hs => rw [List.length_cons, List.length_cons, ih hs]

/-- What can be closed over arguments is a definition, and takes some. -/
theorem Unfolds.isDefinition {count : Nat} (h : u.Unfolds id m) (hd : u.get? id = some d)
    (ht : d.kind.Takes count) : m.IsDefinition ∧ count ≠ 0 := by
  have hmeans := h.byKind hd
  unfold MeansByKind at hmeans
  rcases ht.cases with ⟨c, hkind, hcount⟩ | ⟨parameters, hkind, hne, hcount⟩
  · rw [hkind] at hmeans
    rw [hmeans, hcount]
    exact ⟨trivial, by cases c <;> decide⟩
  · rw [hkind] at hmeans
    obtain ⟨name, -, rfl⟩ := hmeans
    have hlength : parameters.length ≠ 0 := fun h => hne (List.length_eq_zero_iff.1 h)
    exact ⟨hlength, hcount ▸ hlength⟩

/-- A type that needs no declaration has a meaning when the types that it is
composed of have. -/
theorem hasMeaning_of_isIntrinsic (sound : u.Sound) (hd : u.get? id = some d)
    (h : d.IsIntrinsic) (below : ∀ c ∈ d.kind.constituents, u.HasMeaning c) : u.HasMeaning id := by
  have fits := sound hd
  have hspelled := fits.spelled
  have hkey := keyOf_of_get? hd
  unfold Descriptor.IsIntrinsic at h
  unfold KeySpells at hspelled
  cases hkind : d.kind with
  | builtin b =>
    rw [hkind] at h
    exact ⟨_, .builtin hd hkind, .builtin b, h.symm.trans hkey.symm⟩
  | container c =>
    rw [hkind] at h
    exact ⟨_, .container hd hkind, .container c, h.symm.trans hkey.symm⟩
  | array element =>
    rw [hkind] at hspelled below
    obtain ⟨m, hm, hproper, helement⟩ := below element List.mem_cons_self
    refine ⟨_, .array hd hkind hm, .array hproper, ?_⟩
    rw [Meaning.key, helement, hkey]
    exact hspelled.symm
  | closed definition arguments =>
    obtain ⟨e, he, htakes⟩ := fits.closed definition arguments hkind
    rw [hkind] at hspelled below
    obtain ⟨m, hm, hproper, hdefinition⟩ := below definition List.mem_cons_self
    obtain ⟨ms, hms, hpropers, harguments⟩ :=
      exists_unfoldsAll fun a ha => below a (List.mem_cons_of_mem _ ha)
    obtain ⟨isDefinition, hcount⟩ := hm.isDefinition he htakes
    have hne : ms ≠ [] := by
      rintro rfl
      exact hcount (UnfoldsAll.length_eq hms)
    refine ⟨_, .closed hd hkind hm hms, .closed isDefinition hproper hne hpropers, ?_⟩
    rw [Meaning.key, hdefinition, harguments, hkey]
    exact hspelled.symm
  | parameter =>
    rw [hkind] at h
    exact h.elim
  | enumeration =>
    rw [hkind] at h
    exact h.elim
  | object =>
    rw [hkind] at h
    exact h.elim

/-- Every type of an orderly universe has a meaning, and its key is the key of
that meaning.  By induction on the rank, because the structure of a type goes
down in rank. -/
theorem Orderly.hasMeaning (h : u.Orderly) (hd : u.get? id = some d) : u.HasMeaning id := by
  induction hr : u.rank id using Nat.strong_induction_on generalizing id d with
  | _ n ih =>
    cases h.origin hd with
    | intrinsic hintrinsic =>
      refine hasMeaning_of_isIntrinsic h.sound hd hintrinsic fun c hc => ?_
      obtain ⟨hissued, hlt⟩ := (h.sound hd).constituent c hc
      obtain ⟨e, he⟩ := issued_iff.1 hissued
      exact ih _ (hr ▸ hlt) he rfl
    | declared t ht declared =>
      refine ⟨_, declared.unfolds, isProper_declared ht, ?_⟩
      rw [keyOf_of_get? hd, declared.key]
      rfl
    | parameter t owner o ht ho hparameter =>
      obtain ⟨position, hkind⟩ := hparameter.kind
      refine ⟨_, .parameter hd hkind ho.unfolds,
        .parameter ht.name (ht.parameter _ hparameter.name), ?_⟩
      rw [keyOf_of_get? hd, hparameter.key]
      rfl

/-- In an orderly universe a type is what a meaning of proper names says exactly
when its key is the key of that meaning. -/
theorem Orderly.unfolds_iff (h : u.Orderly) (hi : u.Issued id) (hm : m.IsProper) :
    u.Unfolds id m ↔ u.keyOf id = m.key := by
  obtain ⟨d, hd⟩ := issued_iff.1 hi
  obtain ⟨m', hm', hproper, hkey⟩ := h.hasMeaning hd
  constructor
  · intro hunfolds
    rw [hunfolds.unique hm', hkey]
  · intro hkeyOf
    rw [Meaning.key_injective hm hproper (hkeyOf.symm.trans hkey.symm)]
    exact hm'

/-- In an orderly universe two types are the same exactly when their keys are,
and exactly when they mean the same. -/
theorem Orderly.eq_iff {id' : TypeId} (h : u.Orderly) (hm : u.Unfolds id m)
    (hm' : u.Unfolds id' m') : (id = id' ↔ m = m') ∧ (u.keyOf id = u.keyOf id' ↔ m = m') := by
  obtain ⟨d, hd⟩ := hm.exists_get?
  obtain ⟨d', hd'⟩ := hm'.exists_get?
  obtain ⟨n, hn, hproper, hkey⟩ := h.hasMeaning hd
  obtain ⟨n', hn', hproper', hkey'⟩ := h.hasMeaning hd'
  cases hm.unique hn
  cases hm'.unique hn'
  have hkeys : u.keyOf id = u.keyOf id' ↔ m = m' := by
    rw [← hkey, ← hkey']
    constructor
    · exact Meaning.key_injective hproper hproper'
    · rintro rfl
      rfl
  refine ⟨⟨?_, fun heq => ?_⟩, hkeys⟩
  · rintro rfl
    exact hm.unique hm'
  · have hlookup := (h.sound hd).keyed
    rw [← keyOf_of_get? hd, hkeys.2 heq, keyOf_of_get? hd', (h.sound hd').keyed] at hlookup
    exact (Option.some.inj hlookup).symm

end Universe

end TypeExport
