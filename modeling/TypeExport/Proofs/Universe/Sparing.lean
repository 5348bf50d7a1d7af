import TypeExport.Proofs.Universe.Declaring
import TypeExport.Proofs.Universe.Heeding

/-!
# Steps that spare the old types

Most steps of building add types and leave the old ones alone, whatever else they
do and however they end.  `Builder.Spares` says so of a step against an earlier
universe, and is composed like steps.  A step that changes a type spares the old
ones when that type is newer.  A generic definition gets its type parameters
right after it was added, and a load completes only the types that it declares
itself (`Builder.spares_load`).

Next to that a step keeps every type under its own key (`Universe.Indexed`).  So a
universe stays indexed through any steps, and a known key keeps its id.
-/

namespace TypeExport

namespace Universe

variable {b u v : Universe} {id : TypeId} {d : Descriptor} {key : String}

/-! ## Indexed universes -/

/-- Whether every type is found under its key. -/
def Indexed (u : Universe) : Prop := ∀ ⦃id d⦄, u.get? id = some d → u.lookup? d.key = some id

/-- The keys, in the order of their ids. -/
def keys (u : Universe) : List String := u.types.toList.map (·.key)

theorem indexed_empty : ({} : Universe).Indexed := by
  intro id d h
  simp [get?] at h

theorem getElem?_keys (u : Universe) (i : Nat) : u.keys[i]? = (u.get? ⟨i⟩).map (·.key) := by
  simp [keys, get?]

/-- No key occurs twice. -/
theorem Indexed.nodup_keys (h : u.Indexed) : u.keys.Nodup := by
  rw [List.Nodup, List.pairwise_iff_getElem]
  intro i j hi hj hlt heq
  have hkeys : u.keys[i]? = u.keys[j]? := by
    rw [List.getElem?_eq_getElem hi, List.getElem?_eq_getElem hj, heq]
  have hsize : j < u.size := by simpa [keys, size] using hj
  obtain ⟨e, he⟩ := issued_iff.1 (show u.Issued ⟨j⟩ from hsize)
  obtain ⟨d, hd⟩ := issued_iff.1 (show u.Issued ⟨i⟩ from Nat.lt_trans hlt hsize)
  rw [getElem?_keys, getElem?_keys, hd, he] at hkeys
  have hsame := h hd
  rw [show d.key = e.key by simpa using hkeys, h he] at hsame
  have hij : j = i := congrArg TypeId.index (Option.some.inj hsame)
  exact absurd hlt (by simp [hij])

theorem Indexed.intern (h : u.Indexed) (d : Descriptor) : (u.intern d).2.Indexed := by
  intro id e he
  rcases of_get?_intern he with hold | ⟨rfl, rfl⟩
  · exact lookup?_intern_of_lookup? (h hold)
  · exact lookup?_intern u e

theorem Indexed.modify {f : Descriptor → Descriptor} (h : u.Indexed)
    (hf : ∀ d, (f d).key = d.key) : (u.modify id f).Indexed := by
  intro i e he
  rw [lookup?_modify hf]
  rw [get?_modify] at he
  split at he
  · obtain ⟨d, hd, rfl⟩ := Option.map_eq_some_iff.1 he
    rw [hf]
    exact h hd
  · exact h he

theorem Extends.keeps (h : u.Extends v) : u.Keeps v where
  type hd := ⟨_, h.type hd, rfl, rfl, .inl rfl⟩
  lookup := h.lookup

/-- A change of members and default flags keeps the types. -/
theorem keeps_modify_all (u : Universe) (id : TypeId) {f : Descriptor → Descriptor}
    (hkey : ∀ d, (f d).key = d.key)
    (hname : ∀ d, (f d).name = d.name) (hkind : ∀ d, (f d).kind = d.kind) :
    u.Keeps (u.modify id f) where
  type {i d} hd := by
    rw [get?_modify, hd]
    split
    · exact ⟨f d, rfl, hkey d, hname d, .inl (hkind d)⟩
    · exact ⟨d, rfl, rfl, rfl, .inl rfl⟩
  lookup hl := (lookup?_modify hkey _).trans hl

/-- Whether a universe has all that an earlier one has, and is indexed. -/
structure Spared (b u : Universe) : Prop where
  keeps : b.Extends u
  indexed : u.Indexed

theorem Indexed.spared (h : u.Indexed) : u.Spared u := ⟨.refl u, h⟩

/-- A newer type may be changed. -/
theorem Spared.modify {f : Descriptor → Descriptor} (h : b.Spared u) (hid : ¬ b.Issued id)
    (hf : ∀ d, (f d).key = d.key) : b.Spared (u.modify id f) where
  keeps := {
    type := by
      intro i d hd
      have hne : id ≠ i := fun heq => hid (heq ▸ issued_of_get? hd)
      rw [get?_modify, if_neg hne]
      exact h.keeps.type hd
    lookup := by
      intro key i hl
      rw [lookup?_modify hf]
      exact h.keeps.lookup hl }
  indexed := h.indexed.modify hf

end Universe

namespace Builder

open Universe

variable {α β : Type} {b u v : Universe}

/-! ## Steps that spare the old types -/

/-- Whether a step, however it ends, leaves the types of an earlier universe as
they are. -/
abbrev Spares (b : Universe) (x : Builder α) : Prop := Maintains b.Spared x

theorem spares_intern (d : Descriptor) : Spares b (intern d) := fun _ h =>
  ⟨h.keeps.trans (extends_intern _ d), h.indexed.intern d⟩

theorem spares_modify {id : TypeId} {f : Descriptor → Descriptor} (hid : ¬ b.Issued id)
    (hf : ∀ d, (f d).key = d.key) : Spares b (modify id f) :=
  .modify fun _ h => h.modify hid hf

/-- A step of resolving leaves a branch of the universe it starts in. -/
theorem spares_of_branching {x : Builder α} (h : ∀ b, Branching b x) : Spares b x := by
  intro u hu
  have start : u.IsBranch u := ⟨.refl u, fun hd => hu.indexed hd, .inl⟩
  have spared : ∀ v, u.IsBranch v → b.Spared v := fun v hv =>
    ⟨hu.keeps.trans hv.keeps, fun _ _ hd => hv.keyed hd⟩
  exact (h u u start).mono (fun _ => spared) fun _ => spared

/-- Composing adds types. -/
theorem composes_spared : Composes b.Spared where
  builtin _ := spares_intern _
  container _ := spares_intern _
  arrayOf element := spares_of_branching fun _ => branching_arrayOf element
  close definition arguments := spares_of_branching fun _ => branching_close definition arguments
  closeContainer c arguments := spares_of_branching fun _ => branching_closeContainer c arguments

/-! ## Declaring -/

theorem spares_internParameters (owner : TypeId) (key space : String) (position : Nat)
    (names : List String) : Spares b (internParameters owner key space position names) := by
  induction names generalizing position with
  | nil => exact .pure []
  | cons name names ih =>
    rw [internParameters]
    exact (spares_intern _).bind fun id => (ih (position + 1)).bind fun ids => .pure (id :: ids)

/-- The definition that gets its type parameters is one that was just added. -/
theorem spares_genericObject (fullName : String) (parameters : List String) :
    Spares b (genericObject fullName parameters) := by
  intro u h
  apply ends_bind.2
  apply ends_get.2
  split
  · exact h
  · rename_i hnew
    apply ends_bind.2
    refine Ends.mono (ends_intern_adds hnew) ?_ fun _ _ h => h.elim
    intro owner v adds
    have hv : b.Spared v := ⟨h.keeps.trans adds.keeps, by
      intro i e he
      cases adds.other he with
      | inl hold => exact adds.keeps.lookup (h.indexed hold)
      | inr hself => rw [hself.1, hself.2]; exact adds.found⟩
    have hid : ¬ b.Issued owner := fun hb => adds.new (h.keeps.issued hb)
    exact (spares_internParameters _ _ _ 0 parameters).bind
      (fun ids => (spares_modify (f := ({ · with kind := .object ids })) hid fun _ => rfl).bind
        fun _ => .pure owner) v hv

/-- Declaring adds types. -/
theorem declaring_spared : Declaring b.Spared where
  object _ := spares_intern _
  valueObject _ := spares_intern _
  genericObject := spares_genericObject
  enumeration _ _ := spares_intern _

/-! ## Completing -/

theorem completes_spared {owner : TypeId} (hid : ¬ b.Issued owner) :
    Completes b.Spared owner where
  member scope m := (composes_spared.resolveText scope m.reference).bind fun _ =>
    spares_modify hid fun _ => rfl
  context _ := spares_modify hid fun _ => rfl

/-- A load completes the types that it declares, and these are new. -/
theorem spares_load (d : Document) : Spares b (load d) := by
  intro u h
  apply ends_bind.2
  have declared := (declaring_spared.declareEntries d.types u h).and (ends_declareEntries d.types)
  refine declared.mono ?_ fun _ _ hv => hv.1
  intro owners v hv
  have hnew : ∀ p ∈ d.types.zip owners, ¬ b.Issued p.2 := fun p hp hb =>
    hv.2.new p.2 (List.of_mem_zip hp).2 (h.keeps.issued hb)
  have completing := Completes.completeEntries _ fun p hp => completes_spared (hnew p hp)
  exact completing.bind (fun _ => .resolveRoots (composes_spared.resolveText []) d.roots) v hv.1

theorem spares_loadText (text : String) : Spares b (loadText text) := by
  unfold loadText
  split
  · exact spares_load _
  · exact .throw _

/-! ## Answers -/

/-- Whether a step gives an issued type if it succeeds. -/
def Answers (x : Builder TypeId) : Prop :=
  ∀ u, Ends x u (fun id v => v.Issued id) fun _ _ => True

theorem Answers.bind {x : Builder β} {f : β → Builder TypeId} (hf : ∀ c, Answers (f c)) :
    Answers (x >>= f) := by
  intro u
  apply ends_bind.2
  unfold Ends
  cases x u with
  | ok c v => exact hf c v
  | error e v => trivial

theorem answers_intern (d : Descriptor) : Answers (intern d) := by
  intro u
  obtain ⟨e, he, -⟩ := get?_intern u d
  exact issued_of_get? he

theorem answers_closeContainer (c : Container) (arguments : List TypeId) :
    Answers (closeContainer c arguments) :=
  .bind fun _ => .bind fun d => answers_intern d

theorem answers_close (definition : TypeId) (arguments : List TypeId) :
    Answers (close definition arguments) := .bind fun d => answers_intern d

/-- A type parameter in scope is an issued type. -/
theorem issued_of_inScope? {scope : List TypeId} {name : String} {id : TypeId}
    (h : inScope? u scope name = some id) : u.Issued id := by
  have hfound := List.find?_some h
  cases hd : u.get? id with
  | none => simp [hd] at hfound
  | some d => exact issued_of_get? hd

theorem answers_resolve (scope : List TypeId) (r : TypeRef) : Answers (resolve scope r) := by
  cases r with
  | array element =>
    rw [resolve]
    exact .bind fun e => .bind fun d => answers_intern _
  | nullable underlying =>
    rw [resolve]
    exact .bind fun x => answers_closeContainer _ _
  | named name arguments =>
    cases arguments with
    | cons a as =>
      rw [resolve_closed]
      exact .bind fun definition => .bind fun x => .bind fun xs => answers_close _ _
    | nil =>
      intro u
      rw [resolve]
      apply ends_bind.2
      apply ends_get.2
      split
      · rename_i id hid
        exact issued_of_inScope? hid
      · split
        · exact answers_intern _ u
        · have excused : Ends (declared name 0) u (fun id v => v.Issued id)
              fun e _ => Excused (fun _ => True) e := ends_declared_excused name 0
          exact excused.mono (fun _ _ hid => hid) fun _ _ _ => trivial

theorem answers_resolveText (scope : List TypeId) (text : String) :
    Answers (resolveText scope text) := by
  unfold resolveText
  split
  · exact answers_resolve scope _
  · exact fun _ => ends_throw.2 trivial

end Builder

end TypeExport
