import TypeExport.Proofs.Universe.Sound

/-!
# The parts of keys

The key of a composed type is written from the keys of its constituents and
marks between them.  So the parts of the key are the parts of those keys, and
some empty ones.  A part with a colon is never empty, and only the key of a
type parameter brings one in.
-/

namespace TypeExport

variable {part : List Char} {key definition : String} {keys : List String}

theorem keyParts_append (before : String) (c : Char) (behind : String) (hc : isKeyMark c = true) :
    keyParts (before ++ String.singleton c ++ behind) = keyParts before ++ keyParts behind := by
  have h : (before ++ String.singleton c ++ behind).toList =
      before.toList ++ c :: behind.toList := by
    simp
  rw [keyParts, h, List.splitOnP_append_cons _ _ hc]
  rfl

theorem keyParts_brackets (key : String) : keyParts (key ++ "[]") = keyParts key ++ [[], []] := by
  have h : key ++ "[]" = key ++ String.singleton '[' ++ "]" := by
    rw [String.append_assoc]
    rfl
  rw [h, keyParts_append _ _ _ rfl]
  rfl

theorem keyParts_angles (definition inner : String) :
    keyParts (definition ++ "<" ++ inner ++ ">") =
      keyParts definition ++ (keyParts inner ++ [[]]) := by
  have h : definition ++ "<" ++ inner ++ ">" =
      definition ++ String.singleton '<' ++ (inner ++ String.singleton '>' ++ "") := by
    simp only [String.append_assoc]
    rfl
  rw [h, keyParts_append _ _ _ rfl, keyParts_append _ _ _ rfl]
  rfl

theorem keyParts_comma (key rest : String) :
    keyParts (key ++ ", " ++ rest) = keyParts key ++ ([] :: keyParts rest) := by
  have h : key ++ ", " ++ rest =
      key ++ String.singleton ',' ++ ("" ++ String.singleton ' ' ++ rest) := by
    simp only [String.append_assoc]
    rfl
  rw [h, keyParts_append _ _ _ rfl, keyParts_append _ _ _ rfl]
  rfl

/-! ## Parts with a colon -/

theorem mem_keyParts_brackets (hc : ':' ∈ part) :
    part ∈ keyParts (key ++ "[]") ↔ part ∈ keyParts key := by
  have hne : part ≠ [] := List.ne_nil_of_mem hc
  simp [keyParts_brackets, hne]

theorem mem_keyParts_intercalate (hc : ':' ∈ part) :
    part ∈ keyParts (", ".intercalate keys) ↔ ∃ key ∈ keys, part ∈ keyParts key := by
  have hne : part ≠ [] := List.ne_nil_of_mem hc
  induction keys with
  | nil => simp [keyParts, hne]
  | cons key rest ih =>
    cases rest with
    | nil => simp
    | cons key' rest =>
      rw [String.intercalate_cons_cons, keyParts_comma, List.mem_append, List.mem_cons]
      simp [ih, hne]

theorem mem_keyParts_angles (hc : ':' ∈ part) :
    part ∈ keyParts (definition ++ "<" ++ ", ".intercalate keys ++ ">") ↔
      part ∈ keyParts definition ∨ ∃ key ∈ keys, part ∈ keyParts key := by
  have hne : part ≠ [] := List.ne_nil_of_mem hc
  rw [keyParts_angles, List.mem_append, List.mem_append, mem_keyParts_intercalate hc]
  simp [hne]

/-- Splitting makes up no characters. -/
theorem mem_of_mem_splitOnP {p : Char → Bool} {cs : List Char} {c : Char}
    (h : part ∈ cs.splitOnP p) (hc : c ∈ part) : c ∈ cs := by
  induction cs generalizing part with
  | nil =>
    obtain rfl : part = [] := by simpa using h
    exact hc
  | cons d ds ih =>
    rw [List.splitOnP_cons_eq_if_modifyHead] at h
    split at h
    · rcases List.mem_cons.1 h with rfl | hrest
      · cases hc
      · exact List.mem_cons_of_mem _ (ih hrest hc)
    · have hne : ds.splitOnP p ≠ [] := List.splitOnP_ne_nil p ds
      obtain ⟨first, others, hsplit⟩ := List.exists_cons_of_ne_nil hne
      rw [hsplit] at h ih
      rcases List.mem_cons.1 h with rfl | hothers
      · rcases List.mem_cons.1 hc with rfl | hfirst
        · exact List.mem_cons_self
        · exact List.mem_cons_of_mem _ (ih List.mem_cons_self hfirst)
      · exact List.mem_cons_of_mem _ (ih (List.mem_cons_of_mem _ hothers) hc)

/-- Whether a key has no marks. -/
def isPlainKey (key : String) : Bool := key.toList.all (!isKeyMark ·)

/-- A key without marks is its only part. -/
theorem keyParts_of_isPlainKey (h : isPlainKey key = true) : keyParts key = [key.toList] := by
  refine List.splitOnP_eq_singleton fun c hc => ?_
  simpa using List.all_eq_true.1 h c hc

namespace Universe

variable {u : Universe} {scope : List TypeId}

/-- Whether the keys of types have no marks.  A mark comes into the key of a type
parameter with its name, or with the full name of its owner. -/
def PlainKeys (u : Universe) (ids : List TypeId) : Prop :=
  ∀ p ∈ ids, isPlainKey (u.keyOf p) = true

instance (ids : List TypeId) : Decidable (u.PlainKeys ids) :=
  inferInstanceAs (Decidable (∀ p ∈ ids, isPlainKey (u.keyOf p) = true))

theorem plainKeys_cons {x : TypeId} {ids : List TypeId} :
    u.PlainKeys (x :: ids) ↔ isPlainKey (u.keyOf x) = true ∧ u.PlainKeys ids :=
  List.forall_mem_cons

/-! ## Keys within a scope -/

theorem keyWithin_of_no_colon (h : ':' ∉ key.toList) : u.KeyWithin scope key :=
  fun _ hp hc => absurd (mem_of_mem_splitOnP hp hc) h

theorem keyWithin_keyOf {p : TypeId} (h : p ∈ scope) : u.KeyWithin scope (u.keyOf p) :=
  fun _ hp _ => ⟨p, h, hp⟩

theorem KeyWithin.subset {scope' : List TypeId} (h : u.KeyWithin scope key)
    (hsub : scope ⊆ scope') : u.KeyWithin scope' key := by
  intro part hp hc
  obtain ⟨p, hmem, hpart⟩ := h part hp hc
  exact ⟨p, hsub hmem, hpart⟩

theorem KeyWithin.brackets (h : u.KeyWithin scope key) : u.KeyWithin scope (key ++ "[]") :=
  fun part hp hc => h part ((mem_keyParts_brackets hc).1 hp) hc

theorem KeyWithin.angles (hd : u.KeyWithin scope definition)
    (hk : ∀ key ∈ keys, u.KeyWithin scope key) :
    u.KeyWithin scope (definition ++ "<" ++ ", ".intercalate keys ++ ">") := by
  intro part hp hc
  rcases (mem_keyParts_angles hc).1 hp with hdefinition | ⟨key, hkey, hpart⟩
  · exact hd part hdefinition hc
  · exact hk key hkey part hpart hc

end Universe

end TypeExport
