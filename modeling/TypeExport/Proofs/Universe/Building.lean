import TypeExport.Proofs.Ends
import TypeExport.Proofs.Universe.Answers
import TypeExport.Proofs.Universe.Growth
import TypeExport.Proofs.Universe.Key

/-!
# Building keeps a universe sound

Every step that builds a universe keeps what is there and leaves it sound
(`Builder.Builds`).  What a step gives is an issued type, and of its key it is
said what the caller needs to know: that it is the key of no container, and how
it is written.
-/

namespace TypeExport

/-! ## Keys of containers -/

section OwnKey

open Universe (IsOwnKey)

variable {key : String} {c : Char}

theorem isOwnKey_of_mem (h : c ∈ key.toList) (hc : c ∈ [':', '[', '>']) : IsOwnKey key := by
  rintro x rfl
  simp only [List.mem_cons, List.not_mem_nil, or_false] at hc
  rcases hc with rfl | rfl | rfl <;> revert h <;> cases x <;> decide

theorem isOwnKey_of_no_arity (h : '\x60' ∉ key.toList) : IsOwnKey key := by
  rintro x rfl
  revert h
  cases x <;> decide

theorem isOwnKey_brackets (key : String) : IsOwnKey (key ++ "[]") :=
  isOwnKey_of_mem (c := '[') (by simp) (by decide)

theorem isOwnKey_angles (key : String) : IsOwnKey (key ++ ">") :=
  isOwnKey_of_mem (c := '>') (by simp) (by decide)

theorem isOwnKey_parameter (key name : String) : IsOwnKey (key ++ ":" ++ name) :=
  isOwnKey_of_mem (c := ':') (by simp) (by decide)

theorem isOwnKey_builtin (b : Builtin) : IsOwnKey b.fullName :=
  isOwnKey_of_no_arity (by cases b <;> decide)

end OwnKey

namespace Builder

open Universe

variable {α β : Type} {u : Universe}

/-- What holds when a step of building succeeds. -/
def Builds (x : Builder α) (u : Universe) (good : α → Universe → Prop) : Prop :=
  Ends x u (fun a v => u.Keeps v ∧ v.Sound ∧ good a v) fun _ _ => True

namespace Builds

variable {good good' : α → Universe → Prop} {x : Builder α}

theorem pure {a : α} (h : u.Sound) (hg : good a u) : Builds (pure a) u good :=
  ends_pure.2 ⟨Keeps.refl u, h, hg⟩

theorem throw {e : BuildError} : Builds (throw e) u good := ends_throw.2 trivial

theorem bind {y : Builder β} {middle : β → Universe → Prop} {f : β → Builder α}
    (hy : Builds y u middle)
    (hf : ∀ b v, u.Keeps v → v.Sound → middle b v → Builds (f b) v good) :
    Builds (y >>= f) u good := by
  refine ends_bind.2 (hy.mono ?_ fun _ _ _ => trivial)
  rintro b v ⟨keeps, sound, hb⟩
  refine (hf b v keeps sound hb).mono ?_ fun _ _ _ => trivial
  rintro a w ⟨keeps', sound', ha⟩
  exact ⟨keeps.trans keeps', sound', ha⟩

theorem mono (h : Builds x u good) (hg : ∀ a v, u.Keeps v → good a v → good' a v) :
    Builds x u good' :=
  Ends.mono h (fun a v ⟨keeps, sound, ha⟩ => ⟨keeps, sound, hg a v keeps ha⟩) fun _ _ h => h

end Builds

/-! ## Questions and changes -/

theorem builds_get (h : u.Sound) :
    Builds (get : Builder Universe) u fun w v => u = w ∧ u = v :=
  ends_get.2 ⟨Keeps.refl u, h, rfl, rfl⟩

theorem builds_ask {question : Universe → Except BuildError α} (h : u.Sound) :
    Builds (ask question) u fun a v => v = u ∧ question u = .ok a := by
  unfold Builds Ends ask
  cases hq : question u with
  | ok a => exact ⟨Keeps.refl u, h, rfl, rfl⟩
  | error e => trivial

theorem builds_view (h : u.Sound) (id : TypeId) :
    Builds (view id) u fun d v => v = u ∧ u.get? id = some d := by
  refine (builds_ask h).mono ?_
  rintro d v - ⟨rfl, hd⟩
  refine ⟨rfl, ?_⟩
  unfold Universe.view at hd
  cases hg : v.get? id with
  | none => simp [hg, Except.mapError] at hd
  | some e => simpa [hg, Except.mapError] using hd

theorem builds_modify {f : Descriptor → Descriptor} {id : TypeId} (h : u.Sound)
    (hf : ∀ d, u.get? id = some d → u.Keeps (u.modify id f) ∧ (u.modify id f).Sound) :
    Builds (modify id f) u fun _ v => v = u.modify id f := by
  unfold modify
  refine (builds_view h id).bind ?_
  rintro d v - - ⟨rfl, hd⟩
  exact ends_modifyGet.2 ⟨(hf d hd).1, (hf d hd).2, rfl⟩

theorem builds_intern {d : Descriptor} (h : u.Sound) (hd : u.Admits d) :
    Builds (intern d) u fun id v => v.Issued id ∧ v.keyOf id = d.key := by
  refine ⟨keeps_intern u d, h.intern hd, ?_⟩
  obtain ⟨e, he, hkey⟩ := get?_intern u d
  exact ⟨issued_of_get? he, (keyOf_of_get? he).trans hkey⟩

/-! ## Known types -/

/-- A descriptor that is composed of nothing may be interned, if it is no open
container under another key. -/
theorem admits_of_no_constituents {d : Descriptor} (hc : d.kind.constituents = [])
    (hspelled : u.KeySpells d) (hk : ∀ c, d.kind = .container c → d.key = c.fullName)
    (hm : d.members = []) : u.Admits d where
  constituent c h := by simp [hc] at h
  closed definition arguments h := by simp [h, TypeKind.constituents] at hc
  spelled := hspelled
  container := hk
  operand c h := by
    have := mem_constituents_of_mem_operands h
    rw [hc] at this
    cases this
  bare := hm

theorem admits_ofFullName {fullName key : String} {kind : TypeKind} {isValueType : Bool}
    (hc : kind.constituents = []) (hp : kind.isParameter = false)
    (hk : ∀ c, kind = .container c → key = c.fullName) :
    u.Admits (.ofFullName fullName key kind isValueType) := by
  refine admits_of_no_constituents hc ?_ hk rfl
  show u.KeySpells { Descriptor.ofFullName fullName key kind isValueType with kind := kind }
  cases kind with
  | array => cases hc
  | closed => cases hc
  | parameter => cases hp
  | builtin => trivial
  | container => trivial
  | enumeration => trivial
  | object => trivial

theorem builds_builtin (h : u.Sound) (b : Builtin) :
    Builds (builtin b) u fun id v => v.Issued id ∧ v.keyOf id = b.fullName :=
  builds_intern h (admits_ofFullName rfl rfl fun _ hc => by cases hc)

theorem builds_container (h : u.Sound) (c : Container) :
    Builds (container c) u fun id v => v.Issued id ∧ v.keyOf id = c.fullName :=
  builds_intern h (admits_of_no_constituents rfl trivial (fun _ hc => by cases hc; rfl) rfl)

/-! ## Composed types -/

theorem builds_arrayOf (h : u.Sound) {element : TypeId} (hi : u.Issued element)
    (ho : IsOwnKey (u.keyOf element)) :
    Builds (arrayOf element) u fun id v => v.Issued id ∧ v.keyOf id = u.keyOf element ++ "[]" := by
  refine (builds_view h element).bind ?_
  rintro d v - - ⟨rfl, hd⟩
  rw [keyOf_of_get? hd] at ho ⊢
  refine builds_intern h ⟨?_, ?_, ?_, ?_, ?_, rfl⟩
  · intro c hc
    rw [List.mem_singleton.1 hc]
    exact hi
  · intro _ _ hkind
    cases hkind
  · show d.key ++ "[]" = _
    rw [keyOf_of_get? hd]
  · intro _ hkind
    cases hkind
  · intro c hc
    rw [List.mem_singleton.1 hc, keyOf_of_get? hd]
    exact ho

/-- What closing a definition over arguments asks of them. -/
structure Closes (u : Universe) (definition : TypeId) (arguments : List TypeId)
    (d : Descriptor) : Prop where
  /-- The definition takes that many arguments. -/
  takes : ∃ e, u.get? definition = some e ∧ e.kind.Takes arguments.length
  /-- The kind is the closed generic. -/
  kind : d.kind = .closed definition arguments
  /-- The key spells the parts. -/
  key : d.key = u.keyOf definition ++ "<" ++ ", ".intercalate (arguments.map u.keyOf) ++ ">"
  bare : d.members = []

theorem closes_of_instanceOf {definition : TypeId} {arguments : List TypeId} {d : Descriptor}
    (h : instanceOf definition arguments u = .ok d) : Closes u definition arguments d := by
  unfold instanceOf at h
  simp only [Universe.view] at h
  cases he : u.get? definition with
  | none => simp [he, Except.mapError, bind, Except.bind] at h
  | some e =>
    simp only [he, Except.mapError, bind, Except.bind] at h
    split at h
    · cases h
    · rename_i expected isValueType harity
      split at h
      case isFalse => cases h
      case isTrue hlength =>
        cases hds : u.viewAll arguments with
        | error => simp [hds] at h
        | ok ds =>
          simp only [hds, Except.pure, pure, Except.ok.injEq] at h
          subst h
          refine ⟨⟨e, he, ?_⟩, rfl, ?_, rfl⟩
          · rw [hlength]
            unfold arity? at harity
            cases hkind : e.kind with
            | container c => simp_all [TypeKind.Takes]
            | object parameters =>
              cases parameters <;> simp_all [TypeKind.Takes]
            | builtin => simp [hkind] at harity
            | array => simp [hkind] at harity
            | closed => simp [hkind] at harity
            | parameter => simp [hkind] at harity
            | enumeration => simp [hkind] at harity
          · rw [keyOf_of_get? he, ← map_key_of_viewAll hds]

theorem Closes.admits {definition : TypeId} {arguments : List TypeId} {d : Descriptor}
    (h : Closes u definition arguments d) (hi : ∀ a ∈ arguments, u.Issued a)
    (ho : ∀ a ∈ arguments, IsOwnKey (u.keyOf a)) : u.Admits d where
  constituent c hc := by
    obtain ⟨e, he, -⟩ := h.takes
    rw [h.kind] at hc
    rcases List.mem_cons.1 hc with rfl | hargument
    · exact issued_of_get? he
    · exact hi c hargument
  closed definition' arguments' hkind := by
    rw [h.kind] at hkind
    cases hkind
    exact h.takes
  spelled := by
    unfold KeySpells
    rw [h.kind]
    exact h.key
  container c hkind := by
    rw [h.kind] at hkind
    cases hkind
  operand c hc := by
    rw [h.kind] at hc
    exact ho c hc
  bare := h.bare

theorem builds_close (h : u.Sound) {definition : TypeId} {arguments : List TypeId}
    (hi : ∀ a ∈ arguments, u.Issued a) (ho : ∀ a ∈ arguments, IsOwnKey (u.keyOf a)) :
    Builds (close definition arguments) u fun id v => v.Issued id ∧ v.keyOf id =
      u.keyOf definition ++ "<" ++ ", ".intercalate (arguments.map u.keyOf) ++ ">" := by
  refine (builds_ask h).bind ?_
  rintro d v - - ⟨rfl, hd⟩
  have closes := closes_of_instanceOf hd
  refine (builds_intern h (closes.admits hi ho)).mono ?_
  rintro id v - ⟨hissued, hkey⟩
  exact ⟨hissued, hkey.trans closes.key⟩

theorem builds_nullableOf (h : u.Sound) {underlying : TypeId} (hi : u.Issued underlying)
    (ho : IsOwnKey (u.keyOf underlying)) :
    Builds (nullableOf underlying) u fun id v => v.Issued id ∧
      v.keyOf id = Container.nullable.fullName ++ "<" ++ u.keyOf underlying ++ ">" := by
  refine (builds_container h .nullable).bind ?_
  rintro definition v keeps sound ⟨-, hkey⟩
  refine (builds_ask sound).bind ?_
  rintro d w - - ⟨rfl, hd⟩
  have closes : Closes w definition [underlying] d := by
    refine closes_of_instanceOf ?_
    cases hx : instanceOf definition [underlying] w with
    | ok e => simpa [hx, Except.mapError] using hd
    | error e => simp [hx, Except.mapError] at hd
  have hown : ∀ a ∈ [underlying], IsOwnKey (w.keyOf a) := by
    intro a ha
    rw [List.mem_singleton.1 ha, keeps.keyOf hi]
    exact ho
  have hissued : ∀ a ∈ [underlying], w.Issued a := by
    intro a ha
    rw [List.mem_singleton.1 ha]
    exact keeps.issued hi
  refine (builds_intern sound (closes.admits hissued hown)).mono ?_
  rintro id v - ⟨hid, hkeyId⟩
  refine ⟨hid, hkeyId.trans ?_⟩
  rw [closes.key, hkey, List.map_singleton, String.intercalate_singleton, keeps.keyOf hi]

end Builder

end TypeExport
