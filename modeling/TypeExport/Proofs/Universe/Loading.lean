import TypeExport.Document.Load
import TypeExport.Proofs.Universe.Resolving

/-!
# Loaded universes are sound

Loading a document declares its types, adds their members and resolves its
roots.  Each part keeps a universe sound, so a universe that a text loads into
is sound (`Builder.sound_of_loadText`).

The type parameters of a definition are interned behind it.  A parameter whose
key was known is older than the definition or a type parameter itself, so no
structure runs in a circle (`Builder.builds_genericObject`).
-/

namespace TypeExport

namespace Builder

open Universe

variable {u v : Universe}

/-! ## Declared types -/

/-- Interning a declared type that is composed of nothing yet. -/
theorem builds_plain (h : u.Sound) (fullName : String) {kind : TypeKind} (isValueType : Bool)
    (hc : kind.constituents = []) (hp : kind.isParameter = false)
    (hk : ∀ c, kind ≠ .container c) :
    Builds (intern (.ofFullName fullName fullName kind isValueType)) u fun id v => v.Issued id :=
  (builds_intern h (admits_ofFullName hc hp fun c hkind => absurd hkind (hk c))).mono
    fun _ _ _ hid => hid.1

/-- Whether everything behind a definition is a type parameter. -/
def ParametersBehind (u : Universe) (owner : TypeId) : Prop :=
  ∀ {id d}, u.get? id = some d → id.index < owner.index ∨ id = owner ∨ d.kind.isParameter = true

/-- What a definition may take for a type parameter. -/
def IsParameterOf (u : Universe) (owner id : TypeId) : Prop :=
  ∃ d, u.get? id = some d ∧ IsOwnKey d.key ∧
    (id.index < owner.index ∨ d.kind.isParameter = true)

/-- Interning a type parameter behind a definition. -/
theorem builds_parameter (h : u.Sound) {owner : TypeId} {o d : Descriptor}
    (ho : u.get? owner = some o) (behind : ParametersBehind u owner) {position : Nat}
    (hkind : d.kind = .parameter owner position) (hkey : d.key = o.key ++ ":" ++ d.name)
    (hbare : d.members = []) :
    Builds (intern d) u fun id v => v.get? owner = some o ∧ ParametersBehind v owner ∧
      IsParameterOf v owner id ∧ ∀ {i e}, u.get? i = some e → v.get? i = some e := by
  have admits : u.Admits d := by
    refine admits_of_no_constituents (by simp [hkind, TypeKind.constituents]) ?_ ?_ hbare
    · simp only [KeySpells, hkind]
      exact ⟨o.key, hkey⟩
    · intro c hc
      rw [hkind] at hc
      cases hc
  have still : ParametersBehind (u.intern d).2 owner := by
    intro i e he
    cases hl : u.lookup? d.key with
    | some j =>
      rw [intern_of_lookup? hl] at he
      exact behind he
    | none =>
      rw [get?_intern_of_lookup?_eq_none hl] at he
      split at he
      · cases he
        exact .inr (.inr (by rw [hkind]; rfl))
      · exact behind he
  refine ⟨keeps_intern u d, h.intern admits, get?_intern_of_get? ho, still, ?_,
    get?_intern_of_get?⟩
  obtain ⟨e, he, hek⟩ := get?_intern u d
  rw [hkey] at hek
  refine ⟨e, he, by rw [hek]; exact isOwnKey_parameter _ _, ?_⟩
  rcases still he with hlt | hsame | hparameter
  · exact .inl hlt
  · -- the key of a parameter is longer than the key of its owner
    have hself : some e = some o := by
      rw [← he, hsame]
      exact get?_intern_of_get? ho
    cases hself
    have hlength := congrArg String.length hek
    rw [String.length_append, String.length_append] at hlength
    have : ":".length = 1 := rfl
    omega
  · exact .inr hparameter

theorem builds_internParameters (h : u.Sound) {owner : TypeId} {o : Descriptor}
    (ho : u.get? owner = some o) (behind : ParametersBehind u owner) (space : String)
    (position : Nat) (names : List String) :
    Builds (internParameters owner o.key space position names) u fun ids v =>
      v.get? owner = some o ∧ (∀ id ∈ ids, IsParameterOf v owner id) ∧
        ∀ {i e}, u.get? i = some e → v.get? i = some e := by
  induction names generalizing u position with
  | nil => exact .pure h ⟨ho, by simp, fun he => he⟩
  | cons name names ih =>
    rw [internParameters]
    refine (builds_parameter h ho behind rfl rfl rfl).bind ?_
    rintro id v - sound ⟨ho', behind', hid, hold⟩
    refine (ih sound ho' behind' (position + 1)).bind ?_
    rintro ids w - sound' ⟨ho'', hids, hold'⟩
    refine .pure sound' ⟨ho'', ?_, fun he => hold' (hold he)⟩
    intro i hi
    rcases List.mem_cons.1 hi with rfl | htail
    · obtain ⟨d, hd, hown, hbefore⟩ := hid
      exact ⟨d, hold' hd, hown, hbefore⟩
    · exact hids i htail

/-- A generic definition gets its type parameters after they are interned. -/
theorem builds_genericObject (h : u.Sound) (fullName : String) (parameters : List String) :
    Builds (genericObject fullName parameters) u fun id v => v.Issued id := by
  unfold genericObject
  refine (builds_get h).bind ?_
  rintro _ _ - sound ⟨rfl, rfl⟩
  split
  · rename_i id hid
    obtain ⟨d, hd, -⟩ := get?_of_lookup? hid
    exact .pure sound (issued_of_get? hd)
  · rename_i hnew
    set d := Descriptor.ofFullName fullName (genericKey fullName parameters.length) (.object [])
      false with hd
    have admits : u.Admits d := admits_ofFullName rfl rfl fun _ hc => by cases hc
    have fresh : Builds (intern d) u fun owner v =>
        v.get? owner = some d ∧ ParametersBehind v owner := by
      have hid : (u.intern d).1 = ⟨u.size⟩ := by rw [intern_of_lookup?_eq_none hnew]
      refine ⟨keeps_intern u d, sound.intern admits, ?_, ?_⟩
      · show (u.intern d).2.get? (u.intern d).1 = some d
        rw [hid, get?_intern_of_lookup?_eq_none hnew, if_pos rfl]
      · intro i e he
        have he : (u.intern d).2.get? i = some e := he
        show i.index < (u.intern d).1.index ∨ i = (u.intern d).1 ∨ _
        rw [hid]
        rw [get?_intern_of_lookup?_eq_none hnew] at he
        split at he
        · rename_i hsame
          exact .inr (.inl hsame)
        · exact .inl (issued_of_get? he)
    refine fresh.bind ?_
    rintro owner v - sound' ⟨howner, behind⟩
    refine (builds_internParameters sound' howner behind d.space 0 parameters).bind ?_
    rintro ids w - sound'' ⟨howner', hids, -⟩
    refine (builds_modify sound'' fun e he => ?_).bind ?_
    · cases howner'.symm.trans he
      exact sound''.setParameters howner' rfl hids
    · rintro _ z keeps sound₃ -
      exact .pure sound₃ (keeps.issued (issued_of_get? howner'))

theorem builds_declareEntry (h : u.Sound) (t : TypeEntry) :
    Builds (declareEntry t) u fun id v => v.Issued id := by
  unfold declareEntry
  refine (builds_get h).bind ?_
  rintro _ _ - sound ⟨rfl, rfl⟩
  split
  · exact .throw
  · split
    · exact builds_plain sound _ _ rfl rfl fun _ hkind => by cases hkind
    · exact builds_genericObject sound _ _
    · exact builds_plain sound _ _ rfl rfl fun _ hkind => by cases hkind
    · exact builds_plain sound _ _ rfl rfl fun _ hkind => by cases hkind

theorem builds_declareEntries (h : u.Sound) (ts : List TypeEntry) :
    Builds (declareEntries ts) u fun ids v => ∀ id ∈ ids, v.Issued id := by
  induction ts generalizing u with
  | nil => exact .pure h (by simp)
  | cons t ts ih =>
    rw [declareEntries]
    refine (builds_declareEntry h t).bind ?_
    rintro id v - sound hid
    refine (ih sound).bind ?_
    intro ids w keeps sound' hids
    refine .pure sound' ?_
    intro i hi
    rcases List.mem_cons.1 hi with rfl | htail
    · exact keeps.issued hid
    · exact hids i htail

/-! ## Members -/

/-- A type keeps its type parameters. -/
theorem parameters_subset {d e : Descriptor} {owner : TypeId} (keeps : u.Keeps v)
    (hd : u.get? owner = some d) (he : v.get? owner = some e) :
    d.kind.parameters ⊆ e.kind.parameters := by
  obtain ⟨e', he', -, -, hkind⟩ := keeps.type hd
  cases he.symm.trans he'
  rcases hkind with hsame | ⟨hempty, -⟩
  · rw [hsame]
    exact fun _ hp => hp
  · rw [hempty]
    exact fun _ hp => by cases hp

/-- The type parameters of a type are in scope for its members. -/
theorem inScope_parameters (h : u.Sound) {owner : TypeId} {d : Descriptor}
    (hd : u.get? owner = some d) : InScope u d.kind.parameters := fun p hp =>
  ⟨((h hd).constituent p (mem_constituents_of_mem_parameters hp)).1,
    (h hd).operand p (mem_operands_of_mem_parameters hp)⟩

theorem builds_addMembers (h : u.Sound) {owner : TypeId} {scope : List TypeId} {d : Descriptor}
    (hs : InScope u scope) (hd : u.get? owner = some d) (hsub : scope ⊆ d.kind.parameters)
    (ms : List MemberEntry) : Builds (addMembers owner scope ms) u fun _ _ => True := by
  induction ms generalizing u d with
  | nil => exact .pure h trivial
  | cons m ms ih =>
    rw [addMembers]
    refine (builds_resolveText h hs m.reference).bind ?_
    intro type v keeps sound htype
    obtain ⟨e, he, -⟩ := keeps.type hd
    have hsub' := List.Subset.trans hsub (parameters_subset keeps hd he)
    refine (builds_modify sound fun f hf => ?_).bind ?_
    · cases he.symm.trans hf
      exact sound.addMember he htype.issued htype.own (htype.within.subset hsub')
    · rintro _ w keeps' sound' -
      obtain ⟨f, hf, -⟩ := keeps'.type he
      exact ih sound' ((hs.keep keeps).keep keeps') hf
        (List.Subset.trans hsub' (parameters_subset keeps' he hf))

theorem builds_completeEntry (h : u.Sound) (t : TypeEntry) (owner : TypeId) :
    Builds (completeEntry t owner) u fun _ _ => True := by
  have parameters : Builds (parametersOf owner) u fun ps v =>
      u = v ∧ ∃ d, u.get? owner = some d ∧ ps = d.kind.parameters := by
    refine (builds_view h owner).bind ?_
    rintro d v - sound ⟨rfl, hd⟩
    split
    · rename_i ps hkind
      exact .pure sound ⟨rfl, d, hd, by rw [hkind]; rfl⟩
    · rename_i hkind
      refine .pure sound ⟨rfl, d, hd, ?_⟩
      cases hk : d.kind <;> first | rfl | exact absurd hk (hkind _)
  unfold completeEntry
  split
  · exact .pure h trivial
  · refine parameters.bind ?_
    rintro ps _ - sound ⟨rfl, d, hd, rfl⟩
    refine (builds_addMembers sound (inScope_parameters sound hd) hd (fun _ hp => hp) _).bind ?_
    rintro _ v - sound' -
    split
    · refine (builds_modify sound' fun e he => ?_).mono fun _ _ _ _ => trivial
      exact sound'.setContext he
    · exact .pure sound' trivial

theorem builds_completeEntries (h : u.Sound) (entries : List (TypeEntry × TypeId)) :
    Builds (completeEntries entries) u fun _ _ => True := by
  induction entries generalizing u with
  | nil => exact .pure h trivial
  | cons entry rest ih =>
    rw [completeEntries]
    refine (builds_completeEntry h entry.1 entry.2).bind ?_
    rintro _ v - sound -
    exact ih sound

/-! ## Documents -/

theorem builds_resolveRoots (h : u.Sound) (roots : List String) :
    Builds (resolveRoots roots) u fun ids v => ∀ id ∈ ids, v.Issued id := by
  induction roots generalizing u with
  | nil => exact .pure h (by simp)
  | cons r rs ih =>
    rw [resolveRoots]
    have hscope : InScope u [] := by simp [InScope]
    refine (builds_resolveText h hscope r).bind ?_
    rintro id v - sound hid
    refine (ih sound).bind ?_
    intro ids w keeps sound' hids
    refine .pure sound' ?_
    intro i hi
    rcases List.mem_cons.1 hi with rfl | htail
    · exact keeps.issued hid.issued
    · exact hids i htail

theorem builds_loadText (h : u.Sound) (text : String) :
    Builds (loadText text) u fun ids v => ∀ id ∈ ids, v.Issued id := by
  unfold loadText
  split
  · refine (builds_declareEntries h _).bind ?_
    rintro owners v - sound -
    refine (builds_completeEntries sound _).bind ?_
    rintro _ w - sound' -
    exact builds_resolveRoots sound' _
  · exact .throw

/-- A universe that a text loads into is sound, and it issued the roots. -/
theorem sound_of_loadText {text : String} {roots : List TypeId}
    (h : loadText text {} = .ok roots u) : u.Sound ∧ ∀ id ∈ roots, u.Issued id :=
  (Ends.good_of_eq (builds_loadText sound_empty text) h).2

end Builder

end TypeExport
