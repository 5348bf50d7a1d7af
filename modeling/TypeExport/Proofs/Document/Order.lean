import TypeExport.Proofs.Document.Closing
import TypeExport.Proofs.Document.Faithful
import TypeExport.Proofs.Universe.Heeding

/-!
# The order of references

Whether a reference is resolved, and to a type of which key, hardly depends on
what was resolved before (`Builder.answers_independent`).  The exception is the
full name of an open container, such as `System.Nullable<int>`.  Names of
containers are compared with full names that end in the number of arguments, so
this one is looked up among the declared types.  It is an unknown type until a
reference has interned the container, and that container from then on.

So the roots of a document are resolved alike in any order, if none of them
overlooks a container in one of the orders (`Builder.exists_order_matters`).
-/

namespace TypeExport

open Universe

namespace Builder

variable {b u v w : Universe} {reference : String} {e : BuildError}

/-- The answer to a reference: the key of the type that is meant, or the
error. -/
def answer (reference : String) (u : Universe) : Except BuildError String :=
  match resolveText [] reference u with
  | .ok id v => .ok (v.keyOf id)
  | .error e _ => .error e

/-- The universe behind a reference. -/
def after (reference : String) (u : Universe) : Universe := leaves (resolveText [] reference) u

/-- Whether an answer is that the full name of an open container is unknown, and
the universe does not know the container. -/
def IsOverlooked (u : Universe) (a : Except BuildError String) : Prop :=
  ∃ e, a = .error e ∧ Overlooks e u

theorem Overlooks.of_extends (h : Overlooks e v) (keeps : u.Extends v) : Overlooks e u := by
  obtain ⟨name, c, rfl, hname, hnone⟩ := h
  refine ⟨name, c, rfl, hname, ?_⟩
  cases hl : u.lookup? c.fullName with
  | none => rfl
  | some i => exact absurd (hnone.symm.trans (keeps.lookup hl)) nofun

theorem isBranch_after (h : b.IsBranch u) (reference : String) : b.IsBranch (after reference u) :=
  (branching_resolveText [] reference u h).leaves

/-- What is resolved in a branch has the answer that it has in a branch which
knows the open containers of the first, unless it overlooks one. -/
theorem answer_of_split (h : Split b u v) (reference : String) :
    answer reference u = answer reference v ∨
      ∃ e, answer reference u = .error e ∧ Overlooks e (after reference u) := by
  unfold answer after leaves
  cases heeds_resolveText h reference with
  | ok hu hv _ _ _ htwins =>
    rw [hu, hv]
    exact .inl (congrArg Except.ok htwins.keyOf)
  | error hu hv =>
    rw [hu, hv]
    exact .inl rfl
  | overlooks hu hover =>
    rw [hu]
    exact .inr ⟨_, rfl, hover⟩

/-- A reference has the same answer behind another, unless it overlooks an open
container. -/
theorem answer_after (h : u.Sound) (r r' : String) :
    answer r (after r' u) = answer r u ∨ IsOverlooked u (answer r u) := by
  have branch := isBranch_after h.isBranch r'
  have split : Split u u (after r' u) :=
    ⟨h.isBranch, branch, fun c hnone => by
      cases hl : u.lookup? c.fullName with
      | none => rfl
      | some i => exact absurd (hnone.symm.trans (branch.keeps.lookup hl)) nofun⟩
  rcases answer_of_split split r with hsame | ⟨e, he, hover⟩
  · exact .inl hsame.symm
  · exact .inr ⟨e, he, hover.of_extends (isBranch_after h.isBranch r).keeps⟩

/-! ## Full names of open containers -/

/-- The full name of a container without the number of arguments. -/
def longName : Container → String
  | .list => "System.Collections.Generic.List"
  | .dictionary => "System.Collections.Generic.Dictionary"
  | .nullable => "System.Nullable"

/-- References to numbers, as many as a container takes arguments behind the
first. -/
def furtherNumbers : Container → List TypeRef
  | .dictionary => [.named "int" []]
  | _ => []

/-- A reference to a container of numbers, by a name of the container. -/
def ofNumbers (name : String) (c : Container) : TypeRef :=
  .named name (.named "int" [] :: furtherNumbers c)

theorem isProper_ofNumbers {name : String} (h : isPath name = true) (c : Container) :
    (ofNumbers name c).IsProper := by
  have hint : isPath "int" = true := by decide
  intro n hn
  cases c <;>
    simp only [ofNumbers, furtherNumbers, TypeRef.names, TypeRef.namesAll, List.append_nil,
      List.cons_append, List.nil_append, List.mem_cons, List.not_mem_nil, or_false] at hn
  all_goals rcases hn with rfl | rfl | rfl <;> first | exact h | exact hint

theorem declaredKey_longName (c : Container) :
    declaredKey (longName c) ((furtherNumbers c).length + 1) = c.fullName := by
  cases c <;> decide

theorem definitionOf_longName (c : Container) :
    definitionOf (longName c) ((furtherNumbers c).length + 1) =
      declared (longName c) ((furtherNumbers c).length + 1) := by
  cases c <;> rfl

theorem definitionOf_name (c : Container) (arity : Nat) :
    definitionOf c.name arity = container c := by
  cases c <;> rfl

theorem resolveText_ofNumbers {name : String} (h : isPath name = true) (c : Container) :
    resolveText [] (ofNumbers name c).text = definitionOf name ((furtherNumbers c).length + 1) >>=
      closeOver [] (.named "int" []) (furtherNumbers c) := by
  rw [resolveText, TypeRef.parse_text (isProper_ofNumbers h c), ofNumbers]
  exact resolve_closed [] name _ _

theorem isPath_longName (c : Container) : isPath (longName c) = true := by
  cases c <;> decide

theorem isPath_name (c : Container) : isPath c.name = true := by
  cases c <;> decide

/-- An unknown container is not found by its full name. -/
theorem answer_longName_of_unknown {c : Container} (h : u.lookup? c.fullName = none) :
    answer (ofNumbers (longName c) c).text u = .error (.unknownType (longName c)) := by
  have hthrow : declared (longName c) ((furtherNumbers c).length + 1) u =
      .error (.unknownType (longName c)) u := by
    rw [declared_eq, declaredKey_longName, h]
  rw [answer, resolveText_ofNumbers (isPath_longName c), definitionOf_longName,
    bind_of_eq_error hthrow]

theorem instanceOf_ne_unknownType {definition : TypeId} {arguments : List TypeId}
    (h : instanceOf definition arguments u = .error e) (name : String) : e ≠ .unknownType name := by
  rintro rfl
  unfold instanceOf at h
  cases hv : u.view definition with
  | error fault =>
    simp only [hv, Except.mapError, bind, Except.bind] at h
    cases h
  | ok d =>
    simp only [hv, Except.mapError, bind, Except.bind] at h
    split at h
    · cases h
    · split at h
      · cases hds : u.viewAll arguments with
        | error fault =>
          simp only [hds] at h
          cases h
        | ok ds =>
          simp only [hds] at h
          cases h
      · cases h

/-- A definition is closed over numbers, or has not the structure for it. -/
theorem ends_closeOver_numbers (c : Container) (definition : TypeId) :
    Ends (closeOver [] (.named "int" []) (furtherNumbers c) definition) u (fun _ _ => True)
      fun e _ => ∀ name, e ≠ .unknownType name := by
  have number : ∀ {w : Universe} {bad : BuildError → Universe → Prop},
      Ends (resolve [] (.named "int" [])) w (fun _ _ => True) bad := by
    intro w bad
    rw [resolve]
    exact ends_bind.2 (ends_get.2 trivial)
  have numbers : ∀ {w : Universe} {bad : BuildError → Universe → Prop},
      Ends (resolveAll [] (furtherNumbers c)) w (fun _ _ => True) bad := by
    intro w bad
    cases c with
    | dictionary =>
      rw [furtherNumbers, resolveAll, resolveAll]
      exact ends_bind.2 (number.mono (fun _ _ _ => ends_bind.2 (ends_pure.2 trivial))
        fun _ _ h => h)
    | list | nullable =>
      show Ends (resolveAll [] []) w _ _
      rw [resolveAll]
      exact ends_pure.2 trivial
  refine ends_bind.2 (number.mono (fun x v _ => ?_) fun _ _ h => h)
  refine ends_bind.2 (numbers.mono (fun xs w _ => ?_) fun _ _ h => h)
  refine ends_bind.2 (ends_ask.2 ?_)
  cases hinstance : instanceOf definition (x :: xs) w with
  | ok d => trivial
  | error e => exact instanceOf_ne_unknownType hinstance

/-- A known container is found by its full name. -/
theorem answer_longName_of_known {c : Container} {id : TypeId} (h : u.lookup? c.fullName = some id)
    (name : String) : answer (ofNumbers (longName c) c).text u ≠ .error (.unknownType name) := by
  have hfound : declared (longName c) ((furtherNumbers c).length + 1) u = .ok id u := by
    rw [declared_eq, declaredKey_longName, h]
  have ends := ends_closeOver_numbers (u := u) c id
  unfold Ends at ends
  rw [answer, resolveText_ofNumbers (isPath_longName c), definitionOf_longName,
    bind_of_eq_ok hfound]
  split
  · exact nofun
  · rename_i e v hrun
    rw [hrun] at ends
    exact fun heq => ends name (Except.error.inj heq)

/-- A container is known behind a reference to it by its short name. -/
theorem exists_lookup_after_name (h : u.Sound) (c : Container) :
    ∃ id, (after (ofNumbers c.name c).text u).lookup? c.fullName = some id := by
  rw [after, resolveText_ofNumbers (isPath_name c), definitionOf_name]
  have hcontainer : container c u = .ok (u.intern _).1 (u.intern _).2 := rfl
  rw [leaves_bind_of_eq_ok hcontainer]
  have branch := (h.isBranch.intern (d := { Descriptor.ofFullName c.fullName c.fullName
    (.container c) (c = .nullable) with name := c.name }) rfl).self
  exact ⟨_, (branching_closeOver [] _ _ _ _ branch).leaves.keeps.lookup (lookup?_intern u _)⟩

/-- Answers do not depend on what was resolved before exactly when every open
container is known. -/
theorem answer_after_iff (h : u.Sound) : (∀ r r', answer r (after r' u) = answer r u) ↔
    ∀ c : Container, u.lookup? c.fullName ≠ none := by
  constructor
  · intro hall c hnone
    obtain ⟨id, hid⟩ := exists_lookup_after_name h c
    refine answer_longName_of_known hid (longName c) ?_
    rw [hall, answer_longName_of_unknown hnone]
  · intro hknown r r'
    rcases answer_after h r r' with hsame | ⟨e, -, name, c, -, -, hnone⟩
    · exact hsame
    · exact absurd hnone (hknown c)

/-! ## Roots -/

/-- A universe with all open containers. -/
def withContainers (u : Universe) : Universe :=
  leaves (container .list) (leaves (container .dictionary) (leaves (container .nullable) u))

theorem exists_lookup_container (c : Container) (u : Universe) :
    ∃ id, (leaves (container c) u).lookup? c.fullName = some id :=
  ⟨_, lookup?_intern u _⟩

theorem isBranch_container (h : b.IsBranch u) (c : Container) :
    b.IsBranch (leaves (container c) u) :=
  h.intern rfl

theorem isBranch_withContainers (h : b.IsBranch u) : b.IsBranch (withContainers u) :=
  isBranch_container (isBranch_container (isBranch_container h _) _) _

theorem lookup?_withContainers (u : Universe) (c : Container) :
    (withContainers u).lookup? c.fullName ≠ none := by
  have keeps : ∀ (c : Container) (v : Universe), v.Extends (leaves (container c) v) :=
    fun c v => extends_intern v _
  obtain ⟨id, hid⟩ : ∃ id, (withContainers u).lookup? c.fullName = some id := by
    cases c with
    | list => exact exists_lookup_container _ _
    | dictionary =>
      obtain ⟨id, hid⟩ := exists_lookup_container .dictionary (leaves (container .nullable) u)
      exact ⟨id, (keeps _ _).lookup hid⟩
    | nullable =>
      obtain ⟨id, hid⟩ := exists_lookup_container .nullable u
      exact ⟨id, (keeps _ _).lookup ((keeps _ _).lookup hid)⟩
  rw [hid]
  exact nofun

/-- No branch knows a container that the base does not have with all of them. -/
theorem split_withContainers (hb : b.IsBranch b) (h : b.IsBranch u) :
    Split b u (withContainers b) :=
  ⟨h, isBranch_withContainers hb, fun c hnone => absurd hnone (lookup?_withContainers b c)⟩

/-- The roots get the answers that they have where all open containers are known,
unless one of them overlooks a container. -/
theorem ends_resolveRoots_answers (hb : b.IsBranch b) (h : b.IsBranch u) (rs : List String) :
    Ends (resolveRoots rs) u
      (fun ids v => u.Extends v ∧
        List.Forall₂ (fun r id => answer r (withContainers b) = .ok (v.keyOf id)) rs ids)
      fun e v => Overlooks e v ∨ ∃ r ∈ rs, answer r (withContainers b) = .error e := by
  induction rs generalizing u with
  | nil => exact ⟨.refl u, .nil⟩
  | cons r rs ih =>
    rw [resolveRoots]
    refine ends_bind.2 ?_
    cases heeds_resolveText (split_withContainers hb h) r with
    | @ok id j v w hu hw split keeps _ htwins =>
      rw [Ends, hu]
      refine ends_bind.2 ((ih split.left).mono ?_ ?_)
      · rintro ids z ⟨keeps', hall⟩
        refine ends_pure.2 ⟨keeps.trans keeps', .cons ?_ hall⟩
        have hkey : v.keyOf id = w.keyOf j := htwins.keyOf
        obtain ⟨d, -, hd, -⟩ := htwins
        rw [answer, hw]
        refine congrArg Except.ok (hkey.symm.trans ?_)
        rw [keyOf_of_get? hd, keyOf_of_get? (keeps'.type hd)]
      · rintro e z (hover | ⟨r', hr', he⟩)
        · exact .inl hover
        · exact .inr ⟨r', List.mem_cons_of_mem _ hr', he⟩
    | error hu hw =>
      rw [Ends, hu]
      exact .inr ⟨r, List.mem_cons_self, by rw [answer, hw]⟩
    | overlooks hu hover =>
      rw [Ends, hu]
      exact .inl hover

/-- The key in an answer. -/
def keyIn (u : Universe) (reference : String) : String := (answer reference u).toOption.getD ""

theorem map_keyOf_of_answers {rs : List String} {ids : List TypeId}
    (h : List.Forall₂ (fun r id => answer r w = .ok (v.keyOf id)) rs ids) :
    ids.map v.keyOf = rs.map (keyIn w) := by
  induction h with
  | nil => rfl
  | cons hfirst _ ih =>
    rw [List.map_cons, List.map_cons, ih, keyIn, hfirst]
    rfl

/-- The roots of a document are resolved to types of the same keys in another
order, unless one of them overlooks an open container. -/
theorem load_permuted {d : Document} {roots : List TypeId} (h : load d {} = .ok roots u) :
    ∃ key : String → String, roots.map u.keyOf = d.roots.map key ∧
      ∀ d' : Document, d'.types = d.types → d'.roots.Perm d.roots →
        Ends (load d') {} (fun roots' u' => roots'.map u'.keyOf = d'.roots.map key)
          fun e u' => Overlooks e u' := by
  obtain ⟨owners, v, hdeclare, h⟩ := bind_eq_ok_iff.1 h
  obtain ⟨⟨⟩, b, hcomplete, hroots⟩ := bind_eq_ok_iff.1 h
  have hv := ((builds_declareEntries sound_empty d.types).good_of_eq hdeclare).2.1
  have sound := ((builds_completeEntries hv _).good_of_eq hcomplete).2.1
  have answers := ((ends_resolveRoots_answers sound.isBranch sound.isBranch d.roots).good_of_eq
    hroots).2
  refine ⟨keyIn (withContainers b), map_keyOf_of_answers answers, fun d' htypes hperm => ?_⟩
  -- the types are declared and completed as before
  rw [load, htypes]
  refine ends_bind.2 ?_
  rw [Ends, hdeclare]
  refine ends_bind.2 ?_
  rw [Ends, hcomplete]
  refine (ends_resolveRoots_answers sound.isBranch sound.isBranch d'.roots).mono ?_ ?_
  · rintro roots' u' ⟨-, answers'⟩
    exact map_keyOf_of_answers answers'
  · rintro e u' (hover | ⟨r, hr, he⟩)
    · exact hover
    · obtain ⟨id, -, hok⟩ := exists_of_forall₂_mem answers (hperm.subset hr)
      cases he.symm.trans hok

/-! ## Documents -/

theorem loadText_of_ofText? {text : String} {d : Document} (hd : Document.ofText? text = some d) :
    loadText text = load d := by
  rw [loadText, hd]

/-- In a universe that a document is loaded into, a reference has the same answer
whatever was resolved before, unless it overlooks an open container, and that
may happen exactly when some container is not known.  The roots of the document
may be resolved in any order in which none of them overlooks a container. -/
theorem answers_independent {text : String} {d : Document} {roots : List TypeId}
    (hd : Document.ofText? text = some d) (h : loadText text {} = .ok roots u) :
    (∀ r r', answer r (after r' u) = answer r u ∨ IsOverlooked u (answer r u)) ∧
    ((∀ r r', answer r (after r' u) = answer r u) ↔
      ∀ c : Container, u.lookup? c.fullName ≠ none) ∧
    ∃ key : String → String, roots.map u.keyOf = d.roots.map key ∧
      ∀ text' d', Document.ofText? text' = some d' → d'.types = d.types →
        d'.roots.Perm d.roots →
        Ends (loadText text') {} (fun roots' u' => roots'.map u'.keyOf = d'.roots.map key)
          fun e u' => Overlooks e u' := by
  have sound := (sound_of_loadText h).1
  refine ⟨answer_after sound, answer_after_iff sound, ?_⟩
  rw [loadText_of_ofText? hd] at h
  obtain ⟨key, hroots, hperm⟩ := load_permuted h
  refine ⟨key, hroots, fun text' d' hd' htypes hroots' => ?_⟩
  rw [loadText_of_ofText? hd']
  exact hperm d' htypes hroots'

/-- A document with a number that may be absent, by its suffix and by the full
name of `Nullable`. -/
@[irreducible] def suffixFirstText : String := r#"[[],["int?","System.Nullable<int>"]]"#

/-- The document with its roots in the other order. -/
@[irreducible] def nameFirstText : String := r#"[[],["System.Nullable<int>","int?"]]"#

/-- What the two texts say. -/
def suffixFirst : Document where
  roots := ["int?", "System.Nullable<int>"]

@[inherit_doc suffixFirst]
def nameFirst : Document where
  roots := ["System.Nullable<int>", "int?"]

theorem nameFirst_perm : nameFirst.roots.Perm suffixFirst.roots := .swap _ _ _

theorem order_checks :
    Document.ofText? suffixFirstText = some suffixFirst ∧
    Document.ofText? nameFirstText = some nameFirst ∧
    failure? suffixFirstText = none ∧
    failure? nameFirstText = some (.unknownType "System.Nullable") := by
  decide +kernel

theorem exists_of_failure?_eq_none {text : String} (h : failure? text = none) :
    ∃ roots u, loadText text {} = .ok roots u := by
  unfold failure? at h
  split at h
  · rename_i roots u hload
    exact ⟨roots, u, hload⟩
  · cases h

theorem exists_of_failure?_eq_some {text : String} (h : failure? text = some e) :
    ∃ u, loadText text {} = .error e u := by
  unfold failure? at h
  split at h
  · cases h
  · rename_i e' u hload
    cases h
    exact ⟨u, hload⟩

/-- The document is loaded when the suffix comes first, and its roots get the
keys that they would get in the other order. -/
theorem answers_independent_suffixFirst :
    Document.ofText? suffixFirstText = some suffixFirst ∧ ∃ roots u,
    loadText suffixFirstText {} = .ok roots u ∧
    (∀ r r', answer r (after r' u) = answer r u ∨ IsOverlooked u (answer r u)) ∧
    ∃ key : String → String, roots.map u.keyOf = suffixFirst.roots.map key ∧
      Document.ofText? nameFirstText = some nameFirst ∧ nameFirst.types = suffixFirst.types ∧
      nameFirst.roots.Perm suffixFirst.roots ∧
      Ends (loadText nameFirstText) {}
        (fun roots' u' => roots'.map u'.keyOf = nameFirst.roots.map key)
        fun e u' => Overlooks e u' := by
  obtain ⟨hd, hd', hok, -⟩ := order_checks
  obtain ⟨roots, u, hload⟩ := exists_of_failure?_eq_none hok
  obtain ⟨hanswer, -, key, hroots, hperm⟩ := answers_independent hd hload
  exact ⟨hd, roots, u, hload, hanswer, key, hroots, hd', rfl, nameFirst_perm,
    hperm nameFirstText nameFirst hd' rfl nameFirst_perm⟩

/-- A document without types is loaded into a universe where an answer depends on
what was resolved before.  A document may be loaded with its roots in one order
and not in another. -/
theorem exists_order_matters :
    (∃ text roots u r r', loadText text {} = .ok roots u ∧
      answer r (after r' u) ≠ answer r u) ∧
    ∃ text text' d d' roots u v name, Document.ofText? text = some d ∧
      Document.ofText? text' = some d' ∧ d'.types = d.types ∧ d'.roots.Perm d.roots ∧
        loadText text {} = .ok roots u ∧ loadText text' {} = .error (.unknownType name) v := by
  constructor
  · have hd : Document.ofText? "[[],[]]" = some {} := by decide +kernel
    have hload : loadText "[[],[]]" {} = .ok [] {} := by
      rw [loadText_of_ofText? hd]
      rfl
    refine ⟨_, _, _, (ofNumbers (longName .nullable) .nullable).text,
      (ofNumbers Container.nullable.name .nullable).text, hload, ?_⟩
    obtain ⟨id, hid⟩ := exists_lookup_after_name sound_empty .nullable
    have hunknown : ({} : Universe).lookup? Container.nullable.fullName = none :=
      lookup?_eq_none_iff.2 (by simp)
    rw [answer_longName_of_unknown hunknown]
    exact answer_longName_of_known hid _
  · obtain ⟨hd, hd', hok, herror⟩ := order_checks
    obtain ⟨roots, u, hload⟩ := exists_of_failure?_eq_none hok
    obtain ⟨v, hload'⟩ := exists_of_failure?_eq_some herror
    exact ⟨suffixFirstText, nameFirstText, suffixFirst, nameFirst, roots, u, v, _, hd, hd', rfl,
      nameFirst_perm, hload, hload'⟩

end Builder

end TypeExport
