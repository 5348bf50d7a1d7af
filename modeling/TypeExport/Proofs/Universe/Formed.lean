import TypeExport.Proofs.Universe.Operations

/-!
# The structure of built universes

A caller who builds a universe step by step, and interns no descriptor of his own,
gets one that is well formed: its types mention issued ids only, and its structure
has layers.

The layers are by rank.  An array and a closed generic are newer than what they are
composed of.  A generic definition is the other way about: its type parameters are
interned behind it.  They have rank zero, and a parameter whose key was known is
older than the definition (`Universe.Declares.formed`).  So no structure runs in a
circle, and every descent into it ends (`Universe.Layered.wellFounded`).
-/

namespace TypeExport

/-- The types that a kind mentions.  A type parameter mentions its definition, but
is not composed of it. -/
def TypeKind.mentions : TypeKind → List TypeId
  | .parameter owner _ => [owner]
  | kind => kind.constituents

theorem TypeKind.mem_mentions_of_mem_constituents {k : TypeKind} {c : TypeId}
    (h : c ∈ k.constituents) : c ∈ k.mentions := by
  cases k with
  | parameter => cases h
  | _ => exact h

namespace Universe

variable {u v : Universe} {id owner : TypeId} {d e : Descriptor} {t : TypeEntry}

/-! ## Descents into the structure -/

/-- Whether the first type is one that the second is composed of. -/
def PartOf (u : Universe) (c id : TypeId) : Prop :=
  ∃ d, u.get? id = some d ∧ c ∈ d.kind.constituents

/-- Every descent into the structure of types ends. -/
theorem Layered.wellFounded (h : u.Layered) : WellFounded u.PartOf := by
  apply Subrelation.wf (r := InvImage (· < ·) u.rank) ?_ (InvImage.wf u.rank Nat.lt_wfRel.wf)
  intro c id hpart
  obtain ⟨d, hd, hc⟩ := hpart
  exact (h.constituent hd c hc).2

/-- No type is part of itself. -/
theorem Layered.not_transGen (h : u.Layered) (id : TypeId) : ¬ Relation.TransGen u.PartOf id id := by
  intro hcircle
  exact h.wellFounded.transGen.asymmetric _ _ hcircle hcircle

/-! ## Well-formed universes -/

/-- Whether the types that a type mentions fit it. -/
structure Suits (u : Universe) (d : Descriptor) : Prop where
  mention : ∀ c ∈ d.kind.mentions, u.Issued c
  member : ∀ m ∈ d.members, u.Issued m.type
  /-- A closed generic has as many arguments as its definition takes. -/
  closed : ∀ definition arguments, d.kind = .closed definition arguments →
    ∃ e, u.get? definition = some e ∧ e.kind.Takes arguments.length

theorem Suits.keep (h : u.Suits d) (keeps : u.Keeps v) : v.Suits d where
  mention c hc := keeps.issued (h.mention c hc)
  member m hm := keeps.issued (h.member m hm)
  closed definition arguments hkind := by
    obtain ⟨e, he, htakes⟩ := h.closed definition arguments hkind
    exact keeps.takes he htakes

/-- A type without members that is closed over nothing fits when the types that it
mentions are issued. -/
theorem suits_of_bare (hmention : ∀ c ∈ d.kind.mentions, u.Issued c) (hbare : d.members = [])
    (hopen : ∀ definition arguments, d.kind ≠ .closed definition arguments) : u.Suits d where
  mention := hmention
  member m hm := by
    rw [hbare] at hm
    cases hm
  closed definition arguments hkind := absurd hkind (hopen definition arguments)

/-- A type that is composed of nothing fits anywhere. -/
theorem suits_of_no_mentions (hd : d.kind.mentions = []) (hbare : d.members = []) :
    u.Suits d := by
  apply suits_of_bare _ hbare
  · intro definition arguments hkind
    rw [hkind] at hd
    cases hd
  · simp [hd]

/-- Whether the types that a type is composed of are of lower rank. -/
def Below (u : Universe) (id : TypeId) (d : Descriptor) : Prop :=
  ∀ c ∈ d.kind.constituents, u.rank c < u.rank id

theorem Below.keep (h : u.Below id d) (hsuits : u.Suits d) (hd : u.get? id = some d)
    (keeps : u.Keeps v) : v.Below id d := by
  intro c hc
  have hissued := hsuits.mention c (TypeKind.mem_mentions_of_mem_constituents hc)
  rw [keeps.rank hissued, keeps.rank (issued_of_get? hd)]
  exact h c hc

/-- Whether every type fits, and is above the types that it is composed of. -/
structure Formed (u : Universe) : Prop where
  suits : ∀ {id d}, u.get? id = some d → u.Suits d
  below : ∀ {id d}, u.get? id = some d → u.Below id d

theorem formed_empty : ({} : Universe).Formed := by
  constructor <;> intro id d hd <;> simp [get?] at hd

theorem Formed.layered (h : u.Formed) : u.Layered where
  constituent hd c hc :=
    ⟨(h.suits hd).mention c (TypeKind.mem_mentions_of_mem_constituents hc), h.below hd c hc⟩
  closed hd := (h.suits hd).closed

/-- A universe is well formed when the types that it has beyond an earlier one are. -/
theorem Formed.extend (h : u.Formed) (keeps : u.Extends v)
    (hnew : ∀ {id d}, v.get? id = some d → u.get? id = some d ∨ v.Suits d ∧ v.Below id d) :
    v.Formed := by
  constructor
  · intro id d hd
    cases hnew hd with
    | inl hold => exact (h.suits hold).keep keeps.keeps
    | inr new => exact new.1
  · intro id d hd
    cases hnew hd with
    | inl hold => exact (h.below hold).keep (h.suits hold) hold keeps.keeps
    | inr new => exact new.2

/-- A new id is above all older types. -/
theorem rank_lt_of_new {c : TypeId} (hc : u.Issued c) (hid : ¬ u.Issued id) (keeps : u.Keeps v)
    (hd : v.get? id = some d) (hkind : d.kind.isParameter = false) : v.rank c < v.rank id := by
  rw [keeps.rank hc, rank_of_get? hd, hkind]
  exact Nat.lt_succ_of_le ((rank_le_size hc).trans (Nat.le_of_not_lt hid))

/-- What fits may be interned. -/
theorem Formed.intern (h : u.Formed) (hd : u.Suits d) : (u.intern d).2.Formed := by
  cases hk : u.lookup? d.key with
  | some i =>
    rw [intern_of_lookup? hk]
    exact h
  | none =>
    have keeps := extends_intern u d
    have hself : (u.intern d).2.get? ⟨u.size⟩ = some d := by
      rw [get?_intern_of_lookup?_eq_none hk, if_pos rfl]
    refine h.extend keeps fun {id e} he => ?_
    rw [get?_intern_of_lookup?_eq_none hk] at he
    split at he
    case isFalse => exact .inl he
    case isTrue hid =>
      cases he
      subst hid
      refine .inr ⟨hd.keep keeps.keeps, fun c hc => ?_⟩
      -- a type parameter is composed of nothing, so this is none
      have hkind : d.kind.isParameter = false := by
        cases hkind : d.kind with
        | parameter =>
          rw [hkind] at hc
          cases hc
        | _ => rfl
      exact rank_lt_of_new (hd.mention c (TypeKind.mem_mentions_of_mem_constituents hc))
        (Nat.lt_irrefl _) keeps.keeps hself hkind

/-- A type may be changed when its kind stays and its members fit. -/
theorem Formed.modify (h : u.Formed) {f : Descriptor → Descriptor}
    (hkey : ∀ d, (f d).key = d.key) (hname : ∀ d, (f d).name = d.name)
    (hkind : ∀ d, (f d).kind = d.kind)
    (hmember : ∀ d, ∀ m ∈ (f d).members, m ∈ d.members ∨ u.Issued m.type) :
    (u.modify id f).Formed := by
  have keeps := keeps_modify_all u id hkey hname hkind
  have origin : ∀ {i e}, (u.modify id f).get? i = some e → ∃ d, u.get? i = some d ∧
      e.kind = d.kind ∧ ∀ m ∈ e.members, m ∈ d.members ∨ u.Issued m.type := by
    intro i e he
    rw [get?_modify] at he
    split at he
    · obtain ⟨d, hd, hde⟩ := Option.map_eq_some_iff.1 he
      rw [← hde]
      exact ⟨d, hd, hkind d, hmember d⟩
    · exact ⟨e, he, rfl, fun m hm => .inl hm⟩
  constructor
  · intro i e he
    obtain ⟨d, hd, hsame, hmembers⟩ := origin he
    have suits := (h.suits hd).keep keeps
    refine ⟨?_, ?_, ?_⟩
    · rw [hsame]
      exact suits.mention
    · intro m hm
      cases hmembers m hm with
      | inl hold => exact suits.member m hold
      | inr hissued => exact keeps.issued hissued
    · rw [hsame]
      exact suits.closed
  · intro i e he
    obtain ⟨d, hd, hsame, -⟩ := origin he
    have below := (h.below hd).keep (h.suits hd) hd keeps
    rw [Below, hsame]
    exact below

/-- A new type parameter fits, and is composed of nothing. -/
theorem suits_parameter {position : Nat} (hkind : d.kind = .parameter owner position)
    (howner : u.Issued owner) (hbare : d.members = []) : u.Suits d ∧ u.Below id d := by
  constructor
  · apply suits_of_bare _ hbare
    · simp [hkind]
    · simpa [hkind, TypeKind.mentions] using howner
  · intro c hc
    rw [hkind] at hc
    cases hc

namespace Declares

/-- A type parameter of a new definition is older than it, or has rank zero. -/
theorem rank_lt {p : String} {c : TypeId} (h : Declares u v t owner)
    (hd : v.get? owner = some d) (hkind : d.kind.isParameter = false)
    (hc : v.lookup? (t.parameterKey p) = some c) : v.Issued c ∧ v.rank c < v.rank owner := by
  obtain ⟨e, he, hkey⟩ := get?_of_lookup? hc
  refine ⟨issued_of_get? he, ?_⟩
  rcases h.other he with hold | hself | hparameter
  · exact rank_lt_of_new (issued_of_get? hold) h.new h.keeps.keeps hd hkind
  · -- the key of a parameter is longer than the key of its definition
    subst hself
    obtain ⟨o, declared, -⟩ := h.stored
    cases declared.type.symm.trans he
    have hlength := congrArg String.length (declared.key.symm.trans hkey)
    have hcolon : ":".length = 1 := rfl
    rw [TypeEntry.parameterKey, String.length_append, String.length_append] at hlength
    omega
  · obtain ⟨position, hposition⟩ := hparameter.kind
    rw [rank_of_get? he, rank_of_get? hd, hkind, hposition]
    exact Nat.succ_pos _

/-- A type that was just declared fits, and is above its type parameters. -/
theorem suits (h : Declares u v t owner) (hd : v.get? owner = some d) :
    v.Suits d ∧ v.Below owner d := by
  obtain ⟨o, declared, hbare, -⟩ := h.stored
  cases declared.type.symm.trans hd
  cases t with
  | object name names members context =>
    obtain ⟨ids, hkind, -, hids⟩ := declared.shape
    have parameter : ∀ c ∈ ids, v.Issued c ∧ v.rank c < v.rank owner := by
      intro c hc
      obtain ⟨p, -, hp⟩ := exists_of_mem_forall₂ hids hc
      exact h.rank_lt hd (by simp [hkind, TypeKind.isParameter]) hp
    constructor
    · apply suits_of_bare _ hbare
      · simp [hkind]
      · rw [hkind]
        exact fun c hc => (parameter c hc).1
    · intro c hc
      rw [hkind] at hc
      exact (parameter c hc).2
  | struct | enumeration =>
    have hnone : d.kind.mentions = [] := by
      rw [declared.shape.1]
      rfl
    refine ⟨suits_of_no_mentions hnone hbare, fun c hc => ?_⟩
    have hmention := TypeKind.mem_mentions_of_mem_constituents hc
    rw [hnone] at hmention
    cases hmention

/-- Declaring a type leaves a well-formed universe. -/
theorem formed (h : Declares u v t owner) (hu : u.Formed) : v.Formed := by
  refine hu.extend h.keeps fun {id d} hd => ?_
  rcases h.other hd with hold | hid | hparameter
  · exact .inl hold
  · subst hid
    exact .inr (h.suits hd)
  · cases h.bare hd with
    | inl hold => exact .inl hold
    | inr hnone =>
      obtain ⟨position, hposition⟩ := hparameter.kind
      obtain ⟨o, declared, -⟩ := h.stored
      exact .inr (suits_parameter hposition (issued_of_get? declared.type) hnone)

end Declares

end Universe

namespace Builder

open Universe

variable {α β : Type} {u v : Universe}

/-- Whether a step, however it ends, leaves a well-formed universe. -/
abbrev Forms (x : Builder α) : Prop := Maintains Formed x

/-- A type that mentions no other may be interned. -/
theorem forms_intern {d : Descriptor} (hd : d.kind.mentions = []) (hbare : d.members = []) :
    Forms (intern d) := .intern fun _ h => h.intern (suits_of_no_mentions hd hbare)

/-! ## Composed types -/

theorem forms_arrayOf (element : TypeId) : Forms (arrayOf element) := by
  intro u h
  apply ends_bind.2
  cases hd : u.get? element with
  | none =>
    have hfails : view element u = .error (.fault (.foreignType element)) u := by
      simp [view, ask, Universe.view, hd, Except.mapError]
    rw [Ends, hfails]
    exact h
  | some d =>
    apply (ends_view hd).2
    apply h.intern
    apply suits_of_bare _ rfl
    · simp
    · simpa [TypeKind.mentions, TypeKind.constituents] using issued_of_get? hd

/-- A generic that can be closed fits. -/
theorem suits_of_instanceOf {definition : TypeId} {arguments : List TypeId} {d : Descriptor}
    (h : instanceOf definition arguments u = .ok d) : u.Suits d := by
  have closes := closes_of_instanceOf h
  obtain ⟨e, he, htakes⟩ := closes.takes
  refine ⟨fun c hc => ?_, fun m hm => ?_, fun definition' arguments' hkind => ?_⟩
  · rw [closes.kind] at hc
    cases hc with
    | head => exact issued_of_get? he
    | tail _ ha => exact issued_of_instanceOf h c ha
  · rw [closes.bare] at hm
    cases hm
  · rw [closes.kind] at hkind
    cases hkind
    exact ⟨e, he, htakes⟩

/-- Types are composed in well-formed universes. -/
theorem composes_formed : Composes Formed where
  builtin _ := forms_intern rfl rfl
  container _ := forms_intern rfl rfl
  arrayOf := forms_arrayOf
  close _ _ := .ask_intern fun _ _ h hd => h.intern (suits_of_instanceOf hd)
  closeContainer _ _ := (forms_intern rfl rfl).bind fun _ => .ask_intern fun _ _ h hd =>
    h.intern (suits_of_instanceOf (mapError_eq_ok_iff.1 hd))

/-! ## Declarations -/

/-- A generic definition under a new key is declared like an entry of a document. -/
theorem ends_genericObject_declares {fullName : String} {parameters : List String}
    (h : u.lookup? (genericKey fullName parameters.length) = none) :
    ∃ t, Ends (genericObject fullName parameters) u (fun owner v => Declares u v t owner)
      fun _ _ => False := by
  cases parameters with
  | cons p ps => exact ⟨.object fullName (p :: ps) [] none, ends_genericObject rfl (by simp) h⟩
  | nil =>
    -- without type parameters the number is part of a plain name
    refine ⟨.object (genericKey fullName 0) [] [] none, ?_⟩
    unfold genericObject
    apply ends_bind.2
    apply ends_get.2
    simp only [h]
    apply ends_bind.2
    refine (ends_intern_adds h).mono ?_ fun _ _ hv => hv
    intro owner v adds
    apply ends_bind.2
    apply ends_pure.2
    apply ends_bind.2
    refine (ends_modify_issued _ adds.stored).mono ?_ fun _ _ hw => hw
    intro _ w hw
    apply ends_pure.2
    rw [hw]
    exact adds.declares h rfl rfl rfl (.refl v) .inl fun _ _ => ⟨[], rfl, rfl, .nil⟩

theorem forms_genericObject (fullName : String) (parameters : List String) :
    Forms (genericObject fullName parameters) := by
  intro u h
  cases hl : u.lookup? (genericKey fullName parameters.length) with
  | some id =>
    refine (ends_genericObject_known hl).mono ?_ fun _ _ hv => hv.elim
    intro _ v hv
    rw [hv.2]
    exact h
  | none =>
    obtain ⟨t, ht⟩ := ends_genericObject_declares hl
    exact ht.mono (fun _ _ declares => declares.formed h) fun _ _ hv => hv.elim

/-- Types are declared in well-formed universes. -/
theorem declaring_formed : Declaring Formed where
  object _ := forms_intern rfl rfl
  valueObject _ := forms_intern rfl rfl
  genericObject := forms_genericObject
  enumeration _ _ := forms_intern rfl rfl

/-! ## Members -/

/-- A member of an issued type may be added. -/
theorem maintains_addMember (owner : TypeId) (m : Member) :
    Maintains (fun u => u.Formed ∧ u.Issued m.type) (addMember owner m) := by
  apply Maintains.modify
  intro u h
  constructor
  · refine h.1.modify (f := fun d => { d with members := d.members ++ [m] }) (fun _ => rfl)
      (fun _ => rfl) (fun _ => rfl) ?_
    intro d n hn
    cases List.mem_append.1 hn with
    | inl hold => exact .inl hold
    | inr hnew =>
      rw [List.mem_singleton.1 hnew]
      exact .inr h.2
  · simpa [Issued, Universe.size, Universe.modify] using h.2

theorem forms_setContext (owner : TypeId) (flag : UInt8) : Forms (setContext owner flag) :=
  .modify fun _ h => h.modify (fun _ => rfl) (fun _ => rfl) (fun _ => rfl) fun _ _ hm => .inl hm

theorem completes_formed (owner : TypeId) : Completes Formed owner where
  member scope m := by
    intro u h
    apply ends_bind.2
    have resolved := (composes_formed.resolveText scope m.reference u h).and
      (answers_resolveText scope m.reference u)
    refine resolved.mono ?_ fun _ _ hv => hv.1
    intro type v hv
    exact (maintains_addMember owner ⟨m.name, type, m.annotations⟩ v hv).mono
      (fun _ _ hw => hw.1) fun _ _ hw => hw.1
  context := forms_setContext owner

theorem forms_loadText (text : String) : Forms (loadText text) := by
  unfold loadText
  split
  · exact (declaring_formed.declareEntries _).bind fun _ =>
      (Completes.completeEntries _ fun _ _ => completes_formed _).bind fun _ =>
        .resolveRoots (composes_formed.resolveText []) _
  · exact .throw _

end Builder

namespace Universe

variable {u v : Universe} {id : TypeId} {d : Descriptor}

/-! ## Built universes -/

/-- Whether an operation interns no descriptor of the caller's, and a member that
it adds has an issued type. -/
def Operation.Respects (op : Operation) (u : Universe) : Prop :=
  match op with
  | .intern _ => False
  | .addMember _ m => u.Issued m.type
  | _ => True

/-- Whether all operations do, in the universes that they meet. -/
def Respected (u : Universe) : List Operation → Prop
  | [] => True
  | op :: ops => op.Respects u ∧ Respected (leaves op.perform u) ops

instance (op : Operation) (u : Universe) : Decidable (op.Respects u) :=
  match op with
  | .intern _ => isFalse not_false
  | .addMember _ m => Nat.decLt m.type.index u.size
  | .builtin _ | .container _ | .arrayOf _ | .close _ _ | .listOf _ | .dictionaryOf _ _
  | .nullableOf _ | .object _ | .valueObject _ | .genericObject _ _ | .enumeration _ _
  | .setContext _ _ | .resolve _ | .load _ => isTrue trivial

instance decidableRespected (u : Universe) : ∀ ops, Decidable (Respected u ops)
  | [] => isTrue trivial
  | _ :: ops => @instDecidableAnd _ _ inferInstance (decidableRespected _ ops)

/-- An operation leaves a well-formed universe. -/
theorem Formed.perform {op : Operation} (h : u.Formed) (hop : op.Respects u) :
    (leaves op.perform u).Formed := by
  cases op with
  | addMember owner m =>
    -- only here it matters in which universe the operation is asked for
    have added := (Builder.maintains_addMember owner m).bind fun _ =>
      .pure ([] : List TypeId)
    exact (added u ⟨h, hop⟩).leaves.1
  | intern d => exact hop.elim
  | _ =>
    refine (Operation.maintains_perform Builder.composes_formed Builder.declaring_formed
      Builder.forms_loadText ?_ ?_ ?_ u h).leaves
    · simp
    · simp
    · exact fun owner flag _ => Builder.forms_setContext owner flag

theorem Formed.history (h : u.Formed) {ops : List Operation} (hops : Respected u ops) :
    (history u ops).Formed := by
  induction ops generalizing u with
  | nil => exact h
  | cons op ops ih => exact ih (h.perform hops.1) hops.2

/-- The container behind a type is found. -/
theorem Layered.exists_container? (h : u.Layered) (hd : u.get? id = some d) :
    ∃ c, u.container? d = .ok c := by
  cases hkind : d.kind with
  | closed definition arguments =>
    obtain ⟨e, he, htakes⟩ := h.closed hd definition arguments hkind
    exact ⟨_, container?_of_closed hkind he htakes⟩
  | container c => exact ⟨some c, by rw [container?, hkind, containerWithin]⟩
  | _ =>
    refine ⟨none, ?_⟩
    rw [container?, hkind, containerWithin] <;> simp

/-- What holds of a universe after operations that intern no descriptor of the
caller's, each of which succeeded or failed.  Every id in a kind and in a member is
issued.  The definition of a closed generic is an open container or a generic object,
and has at least one argument, as many as it takes.  The structure of types runs in
no circle.  So every descent into it ends, and the questions that descend into it are
answered. -/
theorem structured_universeAfter {ops : List Operation} (hops : Respected {} ops) :
    let u := universeAfter ops
    (∀ id d, u.get? id = some d →
      (∀ c ∈ d.kind.mentions, u.Issued c) ∧ (∀ m ∈ d.members, u.Issued m.type) ∧
      (∀ definition arguments, d.kind = .closed definition arguments →
        ∃ e, u.get? definition = some e ∧ 0 < arguments.length ∧
          ((∃ c, e.kind = .container c ∧ arguments.length = c.arity) ∨
            ∃ parameters, e.kind = .object parameters ∧ parameters ≠ [] ∧
              arguments.length = parameters.length)) ∧
      (∃ c, u.container? d = .ok c) ∧ ∃ n, u.flagCount id = .ok n) ∧
    WellFounded u.PartOf ∧ ∀ id, ¬ Relation.TransGen u.PartOf id id := by
  intro u
  have formed : u.Formed := formed_empty.history hops
  have layered := formed.layered
  refine ⟨fun id d hd => ⟨(formed.suits hd).mention, (formed.suits hd).member, ?_,
    layered.exists_container? hd, layered.exists_flagCount (issued_of_get? hd)⟩,
    layered.wellFounded, layered.not_transGen⟩
  intro definition arguments hkind
  obtain ⟨e, he, htakes⟩ := layered.closed hd definition arguments hkind
  refine ⟨e, he, ?_, htakes.cases⟩
  cases htakes.cases with
  | inl hcontainer =>
    obtain ⟨c, -, hlength⟩ := hcontainer
    rw [hlength]
    cases c <;> decide
  | inr hobject =>
    obtain ⟨parameters, -, hne, hlength⟩ := hobject
    rw [hlength]
    exact List.length_pos_iff.2 hne

/-- A generic class with an array of its own instances, a list of a type of no
universe, and a document that declares the class again. -/
@[irreducible] def nested : List Operation :=
  [.genericObject "Box" ["T"], .resolve "Box<int>[]", .addMember ⟨0⟩ ⟨"boxes", ⟨4⟩, {}⟩,
    .listOf ⟨99⟩, .load r#"[[["object","Box",["T"]]],[]]"#]

/-- The class is part of the array of its instances, but not the other way about. -/
theorem structured_nested :
    Respected {} nested ∧
      ((universeAfter nested).get? ⟨0⟩).map (·.members) = some [⟨"boxes", ⟨4⟩, {}⟩] ∧
      ((universeAfter nested).get? ⟨4⟩).map (·.kind) = some (.array ⟨3⟩) ∧
      ((universeAfter nested).get? ⟨3⟩).map (·.kind) = some (.closed ⟨0⟩ [⟨2⟩]) ∧
      (∃ n, (universeAfter nested).flagCount ⟨4⟩ = .ok n) ∧
      ∀ id, ¬ Relation.TransGen (universeAfter nested).PartOf id id := by
  have checks : Respected {} nested ∧
      ((universeAfter nested).get? ⟨0⟩).map (·.members) = some [⟨"boxes", ⟨4⟩, {}⟩] ∧
      ((universeAfter nested).get? ⟨4⟩).map (·.kind) = some (.array ⟨3⟩) ∧
      ((universeAfter nested).get? ⟨3⟩).map (·.kind) = some (.closed ⟨0⟩ [⟨2⟩]) := by
    decide +kernel
  obtain ⟨hops, hmembers, harray, hclosed⟩ := checks
  have structured := structured_universeAfter hops
  obtain ⟨d, hd, -⟩ := Option.map_eq_some_iff.1 harray
  obtain ⟨-, -, -, -, hcount⟩ := structured.1 _ d hd
  exact ⟨hops, hmembers, harray, hclosed, hcount, structured.2.2⟩

end Universe

end TypeExport
