import TypeExport.Proofs.Universe.Sound

/-!
# Growing a sound universe

Each change of a universe keeps what is there and leaves it sound, if what it
adds fits.  Interning asks for a descriptor that the universe admits
(`Sound.intern`).  Adding a member asks for an issued type in the scope of its
owner (`Sound.addMember`).  Giving an object its type parameters asks for
parameters that come before it or are composed of nothing
(`Sound.setParameters`).
-/

namespace TypeExport.Universe

variable {u : Universe} {id : TypeId} {d : Descriptor}

/-! ## Interning -/

/-- Whether a descriptor may be interned under a new key. -/
structure Admits (u : Universe) (d : Descriptor) : Prop where
  constituent : ∀ c ∈ d.kind.constituents, u.Issued c
  /-- A closed generic has as many arguments as its definition takes. -/
  closed : ∀ definition arguments, d.kind = .closed definition arguments →
    ∃ e, u.get? definition = some e ∧ e.kind.Takes arguments.length
  spelled : u.KeySpells d
  container : ∀ c, d.kind = .container c → d.key = c.fullName
  /-- The types that it is composed of are no open containers, its definition
  aside. -/
  operand : ∀ c ∈ d.kind.operands, IsOwnKey (u.keyOf c)
  /-- It has no members yet. -/
  bare : d.members = []

/-- What interning a new key leaves at an id. -/
theorem get?_intern_of_lookup?_eq_none (h : u.lookup? d.key = none) :
    (u.intern d).2.get? id = if id = ⟨u.size⟩ then some d else u.get? id := by
  rw [intern_of_lookup?_eq_none h]
  by_cases hid : id.index = u.size
  · have : id = ⟨u.size⟩ := by cases id; simpa using hid
    simp [get?, size, this]
  · have : id ≠ ⟨u.size⟩ := fun e => hid (by rw [e])
    have hne : id.index ≠ u.types.size := hid
    simp [get?, Array.getElem?_push, hne, this]

/-- A known key keeps its id. -/
theorem lookup?_intern_of_lookup? {key : String} (h : u.lookup? key = some id) :
    (u.intern d).2.lookup? key = some id := by
  cases hk : u.lookup? d.key with
  | some i =>
    rw [intern_of_lookup? hk]
    exact h
  | none =>
    rw [intern_of_lookup?_eq_none hk]
    obtain ⟨i, hi, rfl⟩ := Option.map_eq_some_iff.1 h
    simp [lookup?, Array.findIdx?_push, hi]

theorem keeps_intern (u : Universe) (d : Descriptor) : u.Keeps (u.intern d).2 where
  type h := ⟨_, get?_intern_of_get? h, rfl, rfl, .inl rfl⟩
  lookup := lookup?_intern_of_lookup?

/-- The id that interning gives is issued, and the key it has is the one asked
for. -/
theorem get?_intern (u : Universe) (d : Descriptor) :
    ∃ e, (u.intern d).2.get? (u.intern d).1 = some e ∧ e.key = d.key :=
  get?_of_lookup? (lookup?_intern u d)

/-- An admitted descriptor fits under the id that it gets. -/
theorem Admits.fits (hd : u.Admits d) (hk : u.lookup? d.key = none) :
    (u.intern d).2.Fits ⟨u.size⟩ d := by
  have keeps := keeps_intern u d
  have hself : (u.intern d).2.get? ⟨u.size⟩ = some d := by
    rw [get?_intern_of_lookup?_eq_none hk, if_pos rfl]
  exact {
    keyed := by
      have hnew : (u.intern d).1 = ⟨u.size⟩ := by rw [intern_of_lookup?_eq_none hk]
      rw [← hnew]
      exact lookup?_intern u d
    constituent := by
      intro c hc
      have hci := hd.constituent c hc
      refine ⟨keeps.issued hci, ?_⟩
      rw [keeps.rank hci, rank_of_get? hself]
      -- a type parameter has no constituents, so the new rank is not 0
      have hkind : d.kind.isParameter = false := by
        cases hd' : d.kind <;> first | rfl | (rw [hd'] at hc; cases hc)
      rw [hkind, if_neg Bool.false_ne_true]
      exact Nat.lt_succ_of_le (rank_le_size hci)
    closed := by
      intro definition arguments hkind
      obtain ⟨f, hf, ht⟩ := hd.closed definition arguments hkind
      exact keeps.takes hf ht
    spelled := hd.spelled.keep keeps hd.constituent
    container := hd.container
    operand := by
      intro c hc
      rw [keeps.keyOf (hd.constituent c (mem_constituents_of_mem_operands hc))]
      exact hd.operand c hc
    member := by
      intro m hm
      rw [hd.bare] at hm
      cases hm
    within := by
      intro m hm
      rw [hd.bare] at hm
      cases hm }

/-- Interning an admitted descriptor leaves a sound universe. -/
theorem Sound.intern (h : u.Sound) (hd : u.Admits d) : (u.intern d).2.Sound := by
  cases hk : u.lookup? d.key with
  | some i =>
    rw [intern_of_lookup? hk]
    exact h
  | none =>
    intro id e he
    rw [get?_intern_of_lookup?_eq_none hk] at he
    split at he
    case isFalse => exact (h he).keep he (keeps_intern u d)
    case isTrue hid =>
      obtain rfl : d = e := Option.some.inj he
      subst hid
      exact hd.fits hk

/-! ## Changing a type -/

/-- Changing a descriptor without its key keeps the id of every key. -/
theorem lookup?_modify {f : Descriptor → Descriptor} (hf : ∀ d, (f d).key = d.key) (key : String) :
    (u.modify id f).lookup? key = u.lookup? key := by
  have hsize : (u.types.modify id.index f).size = u.types.size := Array.size_modify
  have hp : ∀ i (hi : i < u.types.size) (_ : i < (u.types.modify id.index f).size),
      (u.types.modify id.index f)[i].key = u.types[i].key := by
    intro i hi hi'
    rw [Array.getElem_modify]
    split
    · exact hf _
    · rfl
  simp only [lookup?, modify]
  congr 1
  apply Option.ext
  intro i
  simp only [Array.findIdx?_eq_some_iff_getElem, hsize, decide_eq_true_eq]
  constructor
  · rintro ⟨hi, hkey, hlt⟩
    refine ⟨hi, by rw [← hp i hi (hsize ▸ hi)]; exact hkey, fun j hj => ?_⟩
    have hj' := Nat.lt_trans hj hi
    rw [← hp j hj' (hsize ▸ hj')]
    exact hlt j hj
  · rintro ⟨hi, hkey, hlt⟩
    refine ⟨hi, by rw [hp i hi (hsize ▸ hi)]; exact hkey, fun j hj => ?_⟩
    have hj' := Nat.lt_trans hj hi
    rw [hp j hj' (hsize ▸ hj')]
    exact hlt j hj

/-- A change keeps everything if it keeps the key, the name and the kind. -/
theorem keeps_modify {f : Descriptor → Descriptor} (hd : u.get? id = some d)
    (hkey : ∀ d, (f d).key = d.key) (hname : (f d).name = d.name)
    (hkind : (f d).kind = d.kind ∨
      d.kind = .object [] ∧ ∃ parameters, (f d).kind = .object parameters) :
    u.Keeps (u.modify id f) where
  type {i e} he := by
    rw [get?_modify]
    split
    case isTrue hid =>
      subst hid
      obtain rfl : d = e := Option.some.inj (hd.symm.trans he)
      exact ⟨f d, by rw [hd]; rfl, hkey d, hname, hkind⟩
    case isFalse => exact ⟨e, he, rfl, rfl, .inl rfl⟩
  lookup hl := by rwa [lookup?_modify hkey]

/-- A change leaves a sound universe if what it leaves at the id fits. -/
theorem Sound.modify (h : u.Sound) {f : Descriptor → Descriptor} (hd : u.get? id = some d)
    (keeps : u.Keeps (u.modify id f)) (hf : (u.modify id f).Fits id (f d)) :
    (u.modify id f).Sound := by
  intro i e he
  rw [get?_modify] at he
  split at he
  case isTrue hid =>
    subst hid
    rw [hd] at he
    obtain rfl : f d = e := Option.some.inj he
    exact hf
  case isFalse => exact (h he).keep he keeps

/-- A member may be added when its type is issued, no open container, and in
the scope of the owner. -/
theorem Sound.addMember (h : u.Sound) {m : Member} (hd : u.get? id = some d)
    (hm : u.Issued m.type) (ho : IsOwnKey (u.keyOf m.type))
    (hw : u.KeyWithin d.kind.parameters (u.keyOf m.type)) :
    let f := fun d : Descriptor => { d with members := d.members ++ [m] }
    u.Keeps (u.modify id f) ∧ (u.modify id f).Sound := by
  intro f
  have keeps : u.Keeps (u.modify id f) := keeps_modify hd (fun _ => rfl) rfl (.inl rfl)
  refine ⟨keeps, h.modify hd keeps ?_⟩
  have fits := (h hd).keep hd keeps
  refine ⟨fits.keyed, fits.constituent, fits.closed, fits.spelled, fits.container, fits.operand,
    ?_, ?_⟩
  · intro n hn
    rcases List.mem_append.1 hn with hold | hnew
    · exact fits.member n hold
    · rw [List.mem_singleton.1 hnew, keeps.keyOf hm]
      exact ⟨keeps.issued hm, ho⟩
  · intro n hn
    rcases List.mem_append.1 hn with hold | hnew
    · exact fits.within n hold
    · rw [List.mem_singleton.1 hnew, keeps.keyOf hm]
      exact hw.keep keeps fun p hp =>
        ((h hd).constituent p (mem_constituents_of_mem_parameters hp)).1

/-- The default flag of the members may be set. -/
theorem Sound.setContext (h : u.Sound) {flag : UInt8} (hd : u.get? id = some d) :
    let f := fun d : Descriptor => { d with context := some flag }
    u.Keeps (u.modify id f) ∧ (u.modify id f).Sound := by
  intro f
  have keeps : u.Keeps (u.modify id f) := keeps_modify hd (fun _ => rfl) rfl (.inl rfl)
  have fits := (h hd).keep hd keeps
  exact ⟨keeps, h.modify hd keeps
    ⟨fits.keyed, fits.constituent, fits.closed, fits.spelled, fits.container, fits.operand,
      fits.member, fits.within⟩⟩

/-- An object without parameters may become a generic definition, when the
parameters come before it or are composed of nothing. -/
theorem Sound.setParameters (h : u.Sound) {ids : List TypeId} (hd : u.get? id = some d)
    (hobject : d.kind = .object [])
    (hids : ∀ p ∈ ids, ∃ e, u.get? p = some e ∧ IsOwnKey e.key ∧
      (p.index < id.index ∨ e.kind.isParameter)) :
    let f := fun d : Descriptor => { d with kind := .object ids }
    u.Keeps (u.modify id f) ∧ (u.modify id f).Sound := by
  intro f
  have keeps : u.Keeps (u.modify id f) :=
    keeps_modify hd (fun _ => rfl) rfl (.inr ⟨hobject, ids, rfl⟩)
  refine ⟨keeps, h.modify hd keeps ?_⟩
  have fits := (h hd).keep hd keeps
  exact {
    keyed := fits.keyed
    constituent := by
      intro c hc
      obtain ⟨e, he, -, hbefore⟩ := hids c hc
      refine ⟨keeps.issued (issued_of_get? he), ?_⟩
      rw [keeps.rank (issued_of_get? he), keeps.rank (issued_of_get? hd), rank_of_get? he,
        rank_of_get? hd, hobject]
      rcases hbefore with hlt | hparameter
      · split
        · exact Nat.succ_pos _
        · exact Nat.succ_lt_succ hlt
      · rw [if_pos hparameter]
        exact Nat.succ_pos _
    closed := by
      intro definition arguments hkind
      cases hkind
    spelled := trivial
    container := by
      intro c hkind
      cases hkind
    operand := by
      intro c hc
      obtain ⟨e, he, hown, -⟩ := hids c hc
      rw [keeps.keyOf (issued_of_get? he), keyOf_of_get? he]
      exact hown
    member := fits.member
    within := by
      -- without parameters no member mentions one
      intro m hm part hp hc
      obtain ⟨p, hmem, -⟩ := fits.within m hm part hp hc
      rw [hobject] at hmem
      cases hmem }

end TypeExport.Universe
