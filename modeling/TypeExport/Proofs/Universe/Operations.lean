import TypeExport.Proofs.Universe.Sparing

/-!
# Operations on a universe

What a caller may ask of a universe: to intern a descriptor of his own, to build a
type, to add a member, to set a default flag, to resolve a reference and to load a
document.  An operation may fail, also half way through, and what it did until
then stays.

Two operations change a type that was there before: one adds a member behind the
others, one sets the default flag.  Everything else of a type is fixed from the
moment in which a caller may see it (`Universe.Operation.changes_perform`).  So what
a type becomes can be read off the operations that follow
(`Universe.get?_history`).
-/

namespace TypeExport

namespace Universe

variable {u v : Universe} {id : TypeId} {d : Descriptor} {key : String}

/-- What a universe is asked for. -/
inductive Operation where
  /-- A descriptor of the caller's. -/
  | intern (d : Descriptor)
  | builtin (b : Builtin)
  | container (c : Container)
  | arrayOf (element : TypeId)
  /-- A generic definition closed over arguments. -/
  | close (definition : TypeId) (arguments : List TypeId)
  | listOf (element : TypeId)
  | dictionaryOf (key value : TypeId)
  | nullableOf (underlying : TypeId)
  | object (fullName : String)
  | valueObject (fullName : String)
  | genericObject (fullName : String) (parameters : List String)
  | enumeration (fullName : String) (values : List String)
  /-- One more member of a type. -/
  | addMember (owner : TypeId) (m : Member)
  /-- The default flag of the members of a type. -/
  | setContext (owner : TypeId) (flag : UInt8)
  /-- The type that the text of a reference means. -/
  | resolve (reference : String)
  /-- The types of the document that a text spells. -/
  | load (text : String)
  deriving DecidableEq, Repr

namespace Operation

/-- The steps of an operation, with the ids that the caller is given. -/
def perform : Operation → Builder (List TypeId)
  | intern d => do return [← Builder.intern d]
  | builtin b => do return [← Builder.builtin b]
  | container c => do return [← Builder.container c]
  | arrayOf element => do return [← Builder.arrayOf element]
  | close definition arguments => do return [← Builder.close definition arguments]
  | listOf element => do return [← Builder.listOf element]
  | dictionaryOf key value => do return [← Builder.dictionaryOf key value]
  | nullableOf underlying => do return [← Builder.nullableOf underlying]
  | object fullName => do return [← Builder.object fullName]
  | valueObject fullName => do return [← Builder.valueObject fullName]
  | genericObject fullName parameters => do
    return [← Builder.genericObject fullName parameters]
  | enumeration fullName values => do return [← Builder.enumeration fullName values]
  | addMember owner m => do
    Builder.addMember owner m
    return []
  | setContext owner flag => do
    Builder.setContext owner flag
    return []
  | resolve reference => do return [← Builder.resolveText [] reference]
  | load text => Builder.loadText text

/-- The member that an operation adds to a type. -/
def memberFor (id : TypeId) : Operation → Option Member
  | addMember owner m => if owner = id then some m else none
  | _ => none

/-- The default flag that an operation sets for the members of a type. -/
def flagFor (id : TypeId) : Operation → Option UInt8
  | setContext owner flag => if owner = id then some flag else none
  | _ => none

/-- The key of the type that an operation interns, if it can be told from the
operation alone. -/
def key? : Operation → Option String
  | intern d => some d.key
  | builtin b => some b.fullName
  | container c => some c.fullName
  | object fullName | valueObject fullName | enumeration fullName _ => some fullName
  | genericObject fullName parameters => some (Builder.genericKey fullName parameters.length)
  | _ => none

/-- What an operation makes of a type. -/
def change (op : Operation) (id : TypeId) (d : Descriptor) : Descriptor :=
  { d with
    members := d.members ++ (op.memberFor id).toList
    context := (op.flagFor id).or d.context }

end Operation

end Universe

namespace Builder

open Universe

variable {u : Universe} {id : TypeId} {d : Descriptor}

theorem Maintains.answering {I : Universe → Prop} {x : Builder TypeId} (h : Maintains I x) :
    Maintains I (do return [← x] : Builder (List TypeId)) :=
  h.bind fun _ => .pure _

theorem modify_of_get?_eq_none {owner : TypeId} {f : Descriptor → Descriptor}
    (h : u.get? owner = none) : modify owner f u = .error (.fault (.foreignType owner)) u := by
  simp [modify, view, ask, Universe.view, h, Except.mapError, bind, EStateM.bind]

/-- What a change that is asked of one type leaves at another id. -/
theorem ends_modify_get? {owner : TypeId} {f : Descriptor → Descriptor} (h : u.Indexed)
    (hf : ∀ d, (f d).key = d.key) :
    Ends (modify owner f) u
      (fun _ v => v.Indexed ∧
        ∀ {id d}, u.get? id = some d → v.get? id = some (if owner = id then f d else d))
      fun _ v => v = u ∧ ¬ u.Issued owner := by
  cases hd : u.get? owner with
  | none =>
    have hissued : ¬ u.Issued owner := fun hi => by
      obtain ⟨d, hd'⟩ := issued_iff.1 hi
      rw [hd] at hd'
      cases hd'
    rw [Ends, modify_of_get?_eq_none hd]
    exact ⟨rfl, hissued⟩
  | some o =>
    refine (ends_modify_issued f hd).mono ?_ fun _ _ h => h.elim
    intro _ v hv
    rw [hv]
    refine ⟨h.modify hf, fun {id d} he => ?_⟩
    rw [get?_modify]
    split
    · rw [he, Option.map_some]
    · exact he

/-- A type that could be changed is one. -/
theorem answers_modify (owner : TypeId) (f : Descriptor → Descriptor) :
    Answers (do modify owner f; return owner) := by
  intro u
  cases hd : u.get? owner with
  | none =>
    rw [Ends, bind_of_eq_error (modify_of_get?_eq_none hd)]
    trivial
  | some d =>
    refine ends_bind.2 ((ends_modify_issued f hd).mono ?_ fun _ _ h => h.elim)
    intro _ v hv
    apply ends_pure.2
    rw [hv]
    refine issued_of_get? (d := f d) ?_
    rw [get?_modify, if_pos rfl, hd, Option.map_some]

theorem answers_genericObject (fullName : String) (parameters : List String) :
    Answers (genericObject fullName parameters) := by
  intro u
  apply ends_bind.2
  apply ends_get.2
  split
  · rename_i id hid
    obtain ⟨d, hd, -⟩ := get?_of_lookup? hid
    exact issued_of_get? hd
  · exact Answers.bind (fun owner => .bind fun ids => answers_modify owner _) u

/-- Type parameters are always interned. -/
theorem ends_internParameters_extends (owner : TypeId) (key space : String) (position : Nat)
    (names : List String) : Ends (internParameters owner key space position names) u
      (fun _ v => u.Extends v) fun _ _ => False := by
  induction names generalizing u position with
  | nil => exact .refl u
  | cons name names ih =>
    rw [internParameters]
    apply ends_bind.2
    show Ends _ (u.intern _).2 _ _
    apply ends_bind.2
    exact (ih (position + 1)).mono (fun _ _ h => (extends_intern u _).trans h) fun _ _ h => h

/-- A generic definition under a new key gets the next id. -/
theorem ends_genericObject_new {fullName : String} {parameters : List String}
    (h : u.lookup? (genericKey fullName parameters.length) = none) :
    Ends (genericObject fullName parameters) u (fun id v => id = ⟨u.size⟩ ∧
      v.lookup? (genericKey fullName parameters.length) = some id) fun _ _ => False := by
  unfold genericObject
  apply ends_bind.2
  apply ends_get.2
  simp only [h]
  apply ends_bind.2
  have adds := ends_intern_adds (d := .ofFullName fullName
    (genericKey fullName parameters.length) (.object []) false) h
  have hnext : ∀ d : Descriptor, d.key = genericKey fullName parameters.length →
      Ends (intern d) u (fun id _ => id = ⟨u.size⟩) fun _ _ => False := by
    intro d hd
    show (u.intern d).1 = _
    rw [intern_of_lookup?_eq_none (hd ▸ h), Universe.size]
  refine (adds.and (hnext _ rfl)).mono ?_ fun _ _ hv => hv.1
  intro owner v hv
  apply ends_bind.2
  refine (ends_internParameters_extends owner _ _ 0 parameters).mono ?_ fun _ _ hw => hw
  intro ids w hw
  apply ends_bind.2
  refine (ends_modify_issued _ (hw.type hv.1.stored)).mono ?_ fun _ _ hz => hz
  intro _ z hz
  apply ends_pure.2
  have hsame : ∀ key, z.lookup? key = w.lookup? key := by
    rw [hz]
    exact lookup?_modify fun _ => rfl
  exact ⟨hv.2, (hsame _).trans (hw.lookup hv.1.found)⟩

/-- A generic definition under a known key is left as it is. -/
theorem ends_genericObject_known {fullName : String} {parameters : List String}
    (h : u.lookup? (genericKey fullName parameters.length) = some id) :
    Ends (genericObject fullName parameters) u (fun i v => i = id ∧ v = u) fun _ _ => False := by
  unfold genericObject
  apply ends_bind.2
  apply ends_get.2
  simp only [h]
  exact ⟨rfl, rfl⟩

end Builder

namespace Universe

variable {u v : Universe} {id : TypeId} {d : Descriptor} {key : String}

namespace Operation

/-- What composing, declaring and loading keep, every operation keeps, if interning
the caller's descriptors and changing a type keep it as well. -/
theorem maintains_perform {I : Universe → Prop} {op : Operation} (composes : Builder.Composes I)
    (declaring : Builder.Declaring I) (loads : ∀ text, Builder.Maintains I (Builder.loadText text))
    (hintern : ∀ d, op = .intern d → Builder.Maintains I (Builder.intern d))
    (hmember : ∀ owner m, op = .addMember owner m → Builder.Maintains I (Builder.addMember owner m))
    (hcontext : ∀ owner flag, op = .setContext owner flag →
      Builder.Maintains I (Builder.setContext owner flag)) :
    Builder.Maintains I op.perform := by
  cases op with
  | intern d => exact (hintern d rfl).answering
  | builtin b => exact (composes.builtin b).answering
  | container c => exact (composes.container c).answering
  | arrayOf element => exact (composes.arrayOf element).answering
  | close definition arguments => exact (composes.close definition arguments).answering
  | listOf element | nullableOf element => exact (composes.closeContainer _ [element]).answering
  | dictionaryOf key value => exact (composes.closeContainer _ [key, value]).answering
  | object fullName => exact (declaring.object fullName).answering
  | valueObject fullName => exact (declaring.valueObject fullName).answering
  | genericObject fullName parameters =>
    exact (declaring.genericObject fullName parameters).answering
  | enumeration fullName values => exact (declaring.enumeration fullName values).answering
  | addMember owner m => exact (hmember owner m rfl).bind fun _ => .pure []
  | setContext owner flag => exact (hcontext owner flag rfl).bind fun _ => .pure []
  | resolve reference => exact (composes.resolveText [] reference).answering
  | load text => exact loads text

/-- An operation that is asked to change nothing spares every type. -/
theorem spares_perform {op : Operation} (hm : ∀ owner m, op ≠ .addMember owner m)
    (hc : ∀ owner flag, op ≠ .setContext owner flag) : Builder.Spares u op.perform :=
  maintains_perform Builder.composes_spared Builder.declaring_spared Builder.spares_loadText
    (fun d _ => Builder.spares_intern d) (fun owner m h => absurd h (hm owner m))
    fun owner flag h => absurd h (hc owner flag)

/-- Whether what an operation leaves is indexed, and has the old types as the operation
is to change them. -/
def Changes (op : Operation) (u : Universe) : Prop :=
  (leaves op.perform u).Indexed ∧
    ∀ id d, u.get? id = some d → (leaves op.perform u).get? id = some (op.change id d)

/-- An operation that is asked to change one type changes no other, and a foreign id is
the id of none. -/
theorem changes_of_modify {op : Operation} {owner : TypeId} {f : Descriptor → Descriptor}
    (h : u.Indexed) (hkey : ∀ d, (f d).key = d.key)
    (hperform : op.perform = (do Builder.modify owner f; return []))
    (hchange : ∀ id d, op.change id d = if owner = id then f d else d) : op.Changes u := by
  rw [Changes, hperform]
  simp only [hchange]
  refine Ends.leaves (p := fun v : Universe => v.Indexed ∧ ∀ id d, u.get? id = some d →
    v.get? id = some (if owner = id then f d else d)) (ends_bind.2 ?_)
  refine (Builder.ends_modify_get? h hkey).mono (fun _ v hv => ⟨hv.1, fun _ _ => hv.2⟩) ?_
  intro _ v hv
  rw [hv.1]
  refine ⟨h, fun id d hd => ?_⟩
  have hne : owner ≠ id := fun heq => hv.2 (heq ▸ issued_of_get? hd)
  rw [if_neg hne]
  exact hd

/-- What an operation leaves, however it ends. -/
theorem changes_perform (op : Operation) (h : u.Indexed) : op.Changes u := by
  have spared : (∀ owner m, op ≠ .addMember owner m) →
      (∀ owner flag, op ≠ .setContext owner flag) → u.Spared (leaves op.perform u) :=
    fun hm hc => (spares_perform hm hc u h.spared).leaves
  cases op with
  | addMember owner m =>
    refine changes_of_modify (f := fun d => { d with members := d.members ++ [m] }) h
      (fun _ => rfl) rfl ?_
    intro id d
    by_cases hid : owner = id <;> simp [change, memberFor, flagFor, hid]
  | setContext owner flag =>
    refine changes_of_modify (f := ({ · with context := some flag })) h (fun _ => rfl) rfl ?_
    intro id d
    by_cases hid : owner = id <;> simp [change, memberFor, flagFor, hid]
  | _ =>
    have hv := spared (by simp) (by simp)
    refine ⟨hv.indexed, fun id d hd => ?_⟩
    rw [hv.keeps.type hd]
    simp [change, memberFor, flagFor]

/-- The ids that a caller is given are those of types. -/
theorem ends_answers (op : Operation) :
    Ends op.perform u (fun ids v => ∀ id ∈ ids, v.Issued id) fun _ _ => True := by
  have answering : ∀ {x : Builder TypeId}, Builder.Answers x →
      Ends (do return [← x] : Builder (List TypeId)) u (fun ids v => ∀ id ∈ ids, v.Issued id)
        fun _ _ => True := fun hx =>
    ends_bind.2 ((hx u).mono (fun _ _ hid => List.forall_mem_singleton.2 hid) fun _ _ h => h)
  have nothing : ∀ {x : Builder Unit}, Ends (do x; return [] : Builder (List TypeId)) u
      (fun ids v => ∀ id ∈ ids, v.Issued id) fun _ _ => True := by
    intro x
    apply ends_bind.2
    unfold Ends
    cases x u with
    | ok a v => exact fun id hid => absurd hid List.not_mem_nil
    | error e v => trivial
  cases op with
  | intern d => exact answering (Builder.answers_intern d)
  | builtin b => exact answering (Builder.answers_intern _)
  | container c => exact answering (Builder.answers_intern _)
  | object fullName => exact answering (Builder.answers_intern _)
  | valueObject fullName => exact answering (Builder.answers_intern _)
  | enumeration fullName values => exact answering (Builder.answers_intern _)
  | genericObject fullName parameters =>
    exact answering (Builder.answers_genericObject fullName parameters)
  | arrayOf element => exact answering (.bind fun d => Builder.answers_intern _)
  | close definition arguments => exact answering (Builder.answers_close definition arguments)
  | listOf element | nullableOf element =>
    exact answering (Builder.answers_closeContainer _ [element])
  | dictionaryOf key value => exact answering (Builder.answers_closeContainer _ [key, value])
  | resolve reference => exact answering (Builder.answers_resolveText [] reference)
  | addMember owner m => exact nothing
  | setContext owner flag => exact nothing
  | load text =>
    show Ends (Builder.loadText text) u _ _
    unfold Ends
    cases hload : Builder.loadText text u with
    | error e v => trivial
    | ok roots v =>
      obtain ⟨d, owners, w, -, loads⟩ := Builder.loads_of_loadText hload
      intro id hid
      obtain ⟨r, -, hr⟩ := exists_of_mem_forall₂ loads.roots hid
      exact (Builder.answers_resolveText [] r v).good_of_eq hr

/-- Whether an operation interns a type under a key. -/
def Interns (op : Operation) (u : Universe) (key : String) : Prop :=
  (∀ id, u.lookup? key = some id → op.perform u = .ok [id] u) ∧
    (u.lookup? key = none → ∃ v, op.perform u = .ok [⟨u.size⟩] v ∧
      v.lookup? key = some ⟨u.size⟩)

theorem interns_of_intern {op : Operation}
    (hperform : op.perform = (do return [← Builder.intern d])) : op.Interns u d.key := by
  have hintern : op.perform u = .ok [(u.intern d).1] (u.intern d).2 := by
    rw [hperform]
    rfl
  constructor
  · intro id hid
    rw [hintern, intern_of_lookup? hid]
  · intro hnone
    have hfound := lookup?_intern u d
    rw [intern_of_lookup?_eq_none hnone] at hfound hintern
    exact ⟨_, hintern, hfound⟩

/-- A type whose key the operation tells is interned under it. -/
theorem interns_of_key? {op : Operation} (hkey : op.key? = some key) : op.Interns u key := by
  cases op with
  | intern d =>
    cases hkey
    exact interns_of_intern rfl
  | builtin b =>
    cases hkey
    exact interns_of_intern (d := .ofFullName b.fullName b.fullName (.builtin b) _) rfl
  | container c =>
    cases hkey
    exact interns_of_intern (d := { Descriptor.ofFullName c.fullName c.fullName (.container c) _
      with name := c.name }) rfl
  | object fullName | valueObject fullName =>
    cases hkey
    exact interns_of_intern (d := .ofFullName key key (.object []) _) rfl
  | enumeration fullName values =>
    cases hkey
    exact interns_of_intern (d := .ofFullName key key _ true) rfl
  | genericObject fullName parameters =>
    cases hkey
    constructor
    · intro id hid
      obtain ⟨i, v, hv, rfl, rfl⟩ := (Builder.ends_genericObject_known hid).exists_ok
      exact bind_of_eq_ok hv
    · intro hnone
      obtain ⟨id, v, hv, hid, hfound⟩ := (Builder.ends_genericObject_new hnone).exists_ok
      rw [hid] at hv hfound
      exact ⟨v, bind_of_eq_ok hv, hfound⟩
  | _ => cases hkey

end Operation

/-! ## Histories -/

/-- The universe that operations leave, each succeeding or failing. -/
def history (u : Universe) (ops : List Operation) : Universe :=
  ops.foldl (fun u op => leaves op.perform u) u

/-- The universe after operations on the empty one. -/
def universeAfter (ops : List Operation) : Universe := history {} ops

theorem history_append (u : Universe) (ops more : List Operation) :
    history u (ops ++ more) = history (history u ops) more := List.foldl_append

/-- What operations make of a type. -/
theorem get?_history (h : u.Indexed) (ops : List Operation) :
    (history u ops).Indexed ∧ ∀ id d, u.get? id = some d →
      (history u ops).get? id = some { d with
        members := d.members ++ ops.filterMap (·.memberFor id)
        context := (ops.filterMap (·.flagFor id)).getLast?.or d.context } := by
  induction ops generalizing u with
  | nil =>
    refine ⟨h, fun id d hd => ?_⟩
    simpa [history] using hd
  | cons op ops ih =>
    have first := op.changes_perform h
    have rest := ih first.1
    refine ⟨rest.1, fun id d hd => ?_⟩
    have hlast := rest.2 id _ (first.2 id d hd)
    rw [show history u (op :: ops) = history (leaves op.perform u) ops from rfl, hlast]
    cases hm : op.memberFor id <;> cases hf : op.flagFor id <;>
      simp [Operation.change, hm, hf, List.getLast?_cons]

theorem indexed_universeAfter (ops : List Operation) : (universeAfter ops).Indexed :=
  (get?_history indexed_empty ops).1

/-- The keys of a universe stay where they are, and new ones follow. -/
theorem keys_history (h : u.Indexed) (ops : List Operation) :
    u.keys <+: (history u ops).keys := by
  apply List.prefix_iff_getElem?.2
  intro i hi
  have hsize : i < u.size := by simpa [keys, size] using hi
  obtain ⟨d, hd⟩ := issued_iff.1 (show u.Issued ⟨i⟩ from hsize)
  rw [getElem?_keys, (get?_history h ops).2 _ d hd, ← List.getElem?_eq_getElem hi, getElem?_keys, hd]
  rfl

/-- What holds of a universe after any operations, each of which succeeded or
failed.  No two types have one key, and each is found under its own.  A known key
keeps its id, and a new one gets the next.  The ids that a caller was given are
those of types.  A type that a caller may see changes in its members and its
default flag alone, and what these become are the members that the later
operations add, in order, and the last flag that they set.  A load adds none. -/
theorem stable_universeAfter (ops : List Operation) :
    let u := universeAfter ops
    u.keys.Nodup ∧
    (∀ id d, u.get? id = some d → u.lookup? d.key = some id) ∧
    (∀ d id, u.lookup? d.key = some id → Builder.intern d u = .ok id u) ∧
    (∀ d, u.lookup? d.key = none → Builder.intern d u = .ok ⟨u.size⟩ ⟨u.types.push d⟩) ∧
    (∀ op key, Operation.key? op = some key →
      (∀ id, u.lookup? key = some id → op.perform u = .ok [id] u) ∧
      (u.lookup? key = none →
        ∃ v, op.perform u = .ok [⟨u.size⟩] v ∧ v.lookup? key = some ⟨u.size⟩)) ∧
    (∀ op ids v, Operation.perform op u = .ok ids v → ∀ id ∈ ids, v.Issued id) ∧
    (∀ more, u.keys <+: (universeAfter (ops ++ more)).keys ∧
      ∀ id d, u.get? id = some d → (universeAfter (ops ++ more)).get? id = some { d with
        members := d.members ++ more.filterMap (·.memberFor id)
        context := (more.filterMap (·.flagFor id)).getLast?.or d.context }) ∧
    (∀ text id d, u.get? id = some d → (leaves (Builder.loadText text) u).get? id = some d) := by
  intro u
  have indexed : u.Indexed := indexed_universeAfter ops
  have goesOn : ∀ more, universeAfter (ops ++ more) = history u more := history_append {} ops
  refine ⟨indexed.nodup_keys, fun id d hd => indexed hd, ?known, ?new,
    fun op key hkey => Operation.interns_of_key? hkey,
    fun op ids v hv => op.ends_answers.good_of_eq hv, ?later, ?load⟩
  case known =>
    intro d id hid
    simp only [Builder.intern, intern_of_lookup? hid]
  case new =>
    intro d hnone
    simp only [Builder.intern, intern_of_lookup?_eq_none hnone, size]
  case later =>
    intro more
    rw [goesOn]
    exact ⟨keys_history indexed more, (get?_history indexed more).2⟩
  case load =>
    intro text id d hd
    exact (Builder.spares_loadText text u indexed.spared).leaves.keeps.type hd

end Universe

end TypeExport
