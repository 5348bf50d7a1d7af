import TypeExport.Proofs.Universe.Loading
import TypeExport.Proofs.Universe.Unfolding

/-!
# What references mean

A reference means a type that can be told from the reference and the type
parameters it sees, without the universe (`TypeRef.meaning`).  In a universe
that documents with proper names were loaded into, the type that a reference is
resolved to unfolds to just that meaning, so two references are resolved to one
type exactly when they mean the same (`Builder.resolves_to_meaning`).

The key of the type is followed through the resolution
(`Builder.ends_resolve`).  It tells the meaning, whether the type is new or
was interned before.
-/

namespace TypeExport

open Universe

namespace TypeRef

/-- The type parameters that a reference sees: those of a generic definition, or
none. -/
structure Scope where
  definition : String := ""
  parameters : List String := []

/-- The generic definition of a name: a container of that short or full name, or
of that name and number of parameters, else a declared type. -/
def definitionMeaning (name : String) (arity : Nat) : Meaning :=
  match Container.ofName? name with
  | some c => .container c
  | none =>
    match Container.all.find? fun c => c.fullName = Builder.genericKey name arity with
    | some c => .container c
    | none => .declared name arity

mutual

/-- The type that a reference means.  A name without arguments is a type
parameter, else a built-in type, else a declared type. -/
def meaning (s : Scope) : TypeRef → Meaning
  | .named name [] =>
    if name ∈ s.parameters then .parameter s.definition s.parameters.length name
    else
      match Builtin.ofName? name with
      | some b => .builtin b
      | none => .declared name 0
  | .named name (a :: as) =>
    .closed (definitionMeaning name (as.length + 1)) (a.meaning s :: meaningAll s as)
  | .array element => .array (element.meaning s)
  | .nullable underlying => .closed (.container .nullable) [underlying.meaning s]

/-- The types that several references mean. -/
def meaningAll (s : Scope) : List TypeRef → List Meaning
  | [] => []
  | r :: rs => r.meaning s :: meaningAll s rs

end

theorem definitionMeaning_of_container {name : String} {c : Container}
    (h : Container.ofName? name = some c) (arity : Nat) :
    definitionMeaning name arity = .container c := by
  rw [definitionMeaning, h]

/-- A name that is no container's has the key of a declared type, even where an
open container has that key. -/
theorem key_definitionMeaning {name : String} {arity : Nat}
    (h : Container.ofName? name = none) (harity : arity ≠ 0) :
    (definitionMeaning name arity).key = Builder.genericKey name arity := by
  rw [definitionMeaning, h]
  cases hc : Container.all.find? fun c => c.fullName = Builder.genericKey name arity with
  | some c =>
    show c.fullName = _
    simpa using List.find?_some hc
  | none => exact declaredKey_of_ne_zero harity

theorem isProper_declared_of_name {name : String} (hpath : isPath name = true)
    (h : Builtin.ofName? name = none) : (Meaning.declared name 0).IsProper := by
  have hkey : declaredKey name 0 = name := declaredKey_of_eq_zero rfl
  refine .declared hpath ?_ ?_
  · intro b hb
    rw [← hkey, hb, Builtin.ofName?_fullName] at h
    cases h
  · rw [hkey]
    exact isOwnKey_of_no_arity ((isPathText_of_isPath hpath).not_mem (by decide) (by decide))

/-- A generic definition is meant by a proper name. -/
theorem isProper_definitionMeaning {name : String} {arity : Nat} (hpath : isPath name = true)
    (harity : arity ≠ 0) : (definitionMeaning name arity).IsDefinition ∧
      (definitionMeaning name arity).IsProper := by
  unfold definitionMeaning
  split
  · exact ⟨trivial, .container _⟩
  · split
    · exact ⟨trivial, .container _⟩
    · rename_i hnone
      have hkey : declaredKey name arity = Builder.genericKey name arity :=
        declaredKey_of_ne_zero harity
      refine ⟨harity, .declared hpath ?_ ?_⟩
      · intro b hb
        rw [hkey] at hb
        have haccent : '\x60' ∈ b.fullName.toList := by simp [← hb, Builder.genericKey]
        revert haccent
        cases b <;> decide
      · intro c hc
        have hnot := List.find?_eq_none.1 hnone c (by cases c <;> decide)
        simp [← hc, hkey] at hnot

/-- Whether the type parameters of a scope are meant by proper names. -/
def Scope.IsProper (s : Scope) : Prop :=
  ∀ name ∈ s.parameters, (Meaning.parameter s.definition s.parameters.length name).IsProper

theorem isProper_named {name : String} {arguments : List TypeRef} :
    (named name arguments).IsProper ↔ isPath name = true ∧ ∀ r ∈ arguments, r.IsProper :=
  forall_mem_names_named

variable {s : Scope}

mutual

/-- What a reference means, it means by proper names. -/
theorem isProper_meaning (hs : s.IsProper) : ∀ r : TypeRef, r.IsProper → (r.meaning s).IsProper
  | .named name [], hr => by
    rw [meaning]
    split
    · rename_i hmem
      exact hs name hmem
    · split
      · exact .builtin _
      · rename_i hb
        exact isProper_declared_of_name (isProper_named.1 hr).1 hb
  | .named name (a :: as), hr => by
    obtain ⟨hpath, harguments⟩ := isProper_named.1 hr
    obtain ⟨ha, has⟩ := List.forall_mem_cons.1 harguments
    obtain ⟨hdefinition, proper⟩ := isProper_definitionMeaning hpath (Nat.succ_ne_zero as.length)
    exact .closed hdefinition proper (List.cons_ne_nil _ _)
      (List.forall_mem_cons.2 ⟨isProper_meaning hs a ha, isProper_meaningAll hs as has⟩)
  | .array element, hr => .array (isProper_meaning hs element hr)
  | .nullable underlying, hr =>
    .closed trivial (.container _) (List.cons_ne_nil _ _)
      (List.forall_mem_singleton.2 (isProper_meaning hs underlying hr))

theorem isProper_meaningAll (hs : s.IsProper) :
    ∀ rs : List TypeRef, (∀ r ∈ rs, r.IsProper) → ∀ m ∈ meaningAll s rs, m.IsProper
  | [], _ => by simp [meaningAll]
  | r :: rs, hr => by
    obtain ⟨hhead, htail⟩ := List.forall_mem_cons.1 hr
    exact List.forall_mem_cons.2 ⟨isProper_meaning hs r hhead, isProper_meaningAll hs rs htail⟩

end

end TypeRef

namespace Universe

variable {u v : Universe} {ids : List TypeId} {s : TypeRef.Scope} {p : TypeId}

/-- Whether type parameters are those of a definition, or none. -/
inductive IsScope (u : Universe) : List TypeId → TypeRef.Scope → Prop
  | none : IsScope u [] {}
  | parameters {owner : TypeId} {d : Descriptor} {ids : List TypeId} {name : String} :
      u.get? owner = some d → d.kind = .object ids → d.key = declaredKey name ids.length →
      IsScope u ids ⟨name, ids.map u.nameOf⟩

theorem IsScope.parameters_eq (h : u.IsScope ids s) : s.parameters = ids.map u.nameOf := by
  cases h <;> rfl

theorem IsScope.inScope (h : u.IsScope ids s) (sound : u.Sound) : Builder.InScope u ids := by
  cases h with
  | none => simp [Builder.InScope]
  | parameters hd hkind =>
    have hscope := Builder.inScope_parameters sound hd
    rw [hkind] at hscope
    exact hscope

theorem IsScope.extend (h : u.IsScope ids s) (sound : u.Sound) (keeps : u.Extends v) :
    v.IsScope ids s := by
  have hnames : ids.map v.nameOf = ids.map u.nameOf := by
    refine List.map_congr_left fun p hp => ?_
    obtain ⟨d, hd⟩ := issued_iff.1 (h.inScope sound p hp).1
    rw [nameOf_of_get? hd, nameOf_of_get? (keeps.type hd)]
  cases h with
  | none => exact .none
  | parameters hd hkind hkey =>
    rw [← hnames]
    exact .parameters (keeps.type hd) hkind hkey

theorem Unfolds.nameOf {definition name : String} {arity : Nat}
    (h : u.Unfolds p (.parameter definition arity name)) : u.nameOf p = name := by
  cases h with
  | parameter hd => exact nameOf_of_get? hd

/-- The type parameters of a declared type have its key and their names for
keys, and mean what they are declared as. -/
theorem Declared.parameter_unfolds {t : TypeEntry} {owner : TypeId} {d : Descriptor}
    (h : u.Declared t owner d) (ht : t.WellNamed) (orderly : u.Orderly)
    (hkind : d.kind = .object ids) (hp : p ∈ ids) : t.arity = ids.length ∧
      ∃ name, u.Unfolds p (.parameter t.name t.arity name) ∧
        (Meaning.parameter t.name t.arity name).IsProper := by
  have hshape := h.shape
  cases t with
  | object definition names members context =>
    obtain ⟨ids', hkind', -, hids⟩ := hshape
    cases hkind.symm.trans hkind'
    obtain ⟨name, hname, hlookup⟩ := exists_of_mem_forall₂ hids hp
    obtain ⟨e, he, hkey⟩ := get?_of_lookup? hlookup
    have proper : (Meaning.parameter definition names.length name).IsProper :=
      .parameter ht.name (ht.parameter name hname)
    refine ⟨hids.length_eq, name, (orderly.unfolds_iff (issued_of_get? he) proper).2 ?_, proper⟩
    rw [keyOf_of_get? he, hkey]
    rfl
  | struct =>
    cases hkind.symm.trans hshape.1
    cases hp
  | enumeration => cases hkind.symm.trans hshape.1

/-- A type parameter of a scope means the parameter of its name. -/
theorem IsScope.unfolds (h : u.IsScope ids s) (orderly : u.Orderly) (hp : p ∈ ids) :
    u.Unfolds p (.parameter s.definition s.parameters.length (u.nameOf p)) ∧
      (Meaning.parameter s.definition s.parameters.length (u.nameOf p)).IsProper := by
  cases h with
  | none => cases hp
  | @parameters owner d _ name hd hkind hkey =>
    show u.Unfolds p (.parameter name (ids.map u.nameOf).length (u.nameOf p)) ∧
      (Meaning.parameter name (ids.map u.nameOf).length (u.nameOf p)).IsProper
    rw [List.length_map]
    cases orderly.origin hd with
    | intrinsic hintrinsic =>
      rw [Descriptor.IsIntrinsic, hkind] at hintrinsic
      exact hintrinsic.elim
    | parameter _ _ _ _ _ hparameter =>
      obtain ⟨position, hkind'⟩ := hparameter.kind
      cases hkind.symm.trans hkind'
    | declared t ht declared =>
      obtain ⟨harity, parameter, hunfolds, proper⟩ :=
        declared.parameter_unfolds ht orderly hkind hp
      have hkeys := declared.key.symm.trans hkey
      rw [TypeEntry.key, harity] at hkeys
      have hname : t.name = name := declaredKey_left_inj hkeys
      rw [hunfolds.nameOf, ← hname, ← harity]
      exact ⟨hunfolds, proper⟩

theorem IsScope.isProper (h : u.IsScope ids s) (orderly : u.Orderly) : s.IsProper := by
  intro name hname
  rw [h.parameters_eq] at hname
  obtain ⟨p, hp, rfl⟩ := List.mem_map.1 hname
  exact (h.unfolds orderly hp).2

/-- The universes that successful loads of documents with proper names lead to
from the empty one. -/
inductive Assembled : Universe → Prop
  | empty : Assembled {}
  | load {u v : Universe} {text : String} {d : Document} {roots : List TypeId} : Assembled u →
      Document.ofText? text = some d → (∀ t ∈ d.types, t.WellNamed) →
      Builder.loadText text u = .ok roots v → Assembled v

theorem Assembled.orderly (h : Assembled u) : u.Orderly := by
  induction h with
  | empty => exact orderly_empty
  | load _ hd hnamed hload ih =>
    obtain ⟨d', owners, v, hd', hloads⟩ := Builder.loads_of_loadText hload
    cases hd.symm.trans hd'
    exact ih.load hnamed hloads ((Builder.builds_loadText ih.sound _).good_of_eq hload).2.1

end Universe

namespace Builder

variable {u v : Universe} {ids : List TypeId} {s : TypeRef.Scope}

/-! ## Names -/

/-- What is not found is no type parameter of the scope. -/
theorem not_mem_of_inScope? {name : String} (hs : InScope u ids) (h : inScope? u ids name = none) :
    name ∉ ids.map u.nameOf := by
  intro hmem
  obtain ⟨p, hp, rfl⟩ := List.mem_map.1 hmem
  obtain ⟨d, hd⟩ := issued_iff.1 (hs p hp).1
  have hnot := List.find?_eq_none.1 h p hp
  simp [hd, nameOf_of_get? hd] at hnot

/-! ## Keys -/

/-- What a step gives that is known to keep a universe sound. -/
theorem Builds.ends {α : Type} {x : Builder α} {good known : α → Universe → Prop}
    (h : Builds x u good) (hg : ∀ a v, good a v → known a v) : Ends x u known fun _ _ => True :=
  Ends.mono h (fun a v ⟨_, _, ha⟩ => hg a v ha) fun _ _ _ => trivial

/-- What a step gives that only adds types to an orderly universe. -/
theorem ends_orderly {α : Type} {x : Builder α} {good : α → Universe → Prop} (h : u.Orderly)
    (hl : Lasts x u) (hb : Builds x u good) :
    Ends x u (fun a v => u.Grows v ∧ v.Orderly ∧ good a v) fun _ _ => True := by
  unfold Builds Ends at *
  cases hx : x u with
  | ok a v =>
    rw [hx] at hb
    obtain ⟨-, sound, ha⟩ := hb
    obtain ⟨grows, -⟩ := hl a v hx
    exact ⟨grows, h.grow grows sound, ha⟩
  | error e v => trivial

/-- What is known of a type of a certain key that a reference is resolved to. -/
structure Keyed (u : Universe) (ids : List TypeId) (key : String) (id : TypeId) (v : Universe) :
    Prop where
  grows : u.Grows v
  orderly : v.Orderly
  meant : Meant ids id v
  key : v.keyOf id = key

/-- What is known of types of certain keys that references are resolved to. -/
structure KeyedAll (u : Universe) (ids : List TypeId) (keys : List String) (is : List TypeId)
    (v : Universe) : Prop where
  grows : u.Grows v
  orderly : v.Orderly
  meant : ∀ i ∈ is, Meant ids i v
  keys : is.map v.keyOf = keys

theorem ends_keyed {r : TypeRef} {key : String} (h : u.Orderly) (hs : InScope u ids)
    (hr : r.NamesPaths)
    (hk : Ends (resolve ids r) u (fun id v => v.keyOf id = key) fun _ _ => True) :
    Ends (resolve ids r) u (Keyed u ids key) fun _ _ => True := by
  have orderly := ends_orderly h (lasts_resolve (fun p hp => (hs p hp).1) r)
    (builds_resolve h.sound hs r hr)
  refine (orderly.and hk).mono ?_ fun _ _ _ => trivial
  rintro id v ⟨⟨grows, orderly, meant⟩, hkey⟩
  exact ⟨grows, orderly, meant, hkey⟩

/-- A name without arguments is resolved to a type of the key that it means. -/
theorem ends_resolve_name (h : u.Orderly) (hs : u.IsScope ids s) (name : String) :
    Ends (resolve ids (.named name [])) u
      (fun id v => v.keyOf id = ((TypeRef.named name []).meaning s).key) fun _ _ => True := by
  rw [resolve]
  refine ends_bind.2 (ends_get.2 ?_)
  rw [TypeRef.meaning, hs.parameters_eq]
  cases hp : inScope? u ids name with
  | some p =>
    have hmem := mem_of_inScope? hp
    have hname := nameOf_of_inScope? hp
    obtain ⟨hunfolds, proper⟩ := hs.unfolds h hmem
    rw [if_pos (hname ▸ List.mem_map_of_mem hmem)]
    rw [hname, hs.parameters_eq] at hunfolds proper
    exact (h.unfolds_iff (hs.inScope h.sound p hmem).1 proper).1 hunfolds
  | none =>
    rw [if_neg (not_mem_of_inScope? (hs.inScope h.sound) hp)]
    cases hb : Builtin.ofName? name with
    | some b => exact (builds_builtin h.sound b).ends fun _ _ ⟨_, hkey⟩ => hkey
    | none => exact (builds_declared h.sound name 0).ends fun _ _ ⟨_, hkey⟩ => hkey

/-- The definition of a closed generic has the key that is meant. -/
theorem ends_definitionOf (h : u.Orderly) (name : String) {arity : Nat} (harity : arity ≠ 0) :
    Ends (definitionOf name arity) u (fun id v => u.Grows v ∧ v.Orderly ∧ v.Issued id ∧
      v.keyOf id = (TypeRef.definitionMeaning name arity).key) fun _ _ => True := by
  refine ends_orderly h (lasts_definitionOf name arity) ?_
  unfold definitionOf
  cases hc : Container.ofName? name with
  | some c =>
    rw [TypeRef.definitionMeaning_of_container hc]
    exact builds_container h.sound c
  | none =>
    have builds := builds_declared h.sound name arity
    rw [if_neg harity] at builds
    rw [TypeRef.key_definitionMeaning hc harity]
    exact builds

/-- A definition closed over arguments gives a type of the key that is meant,
when the definition and the arguments are of the keys that are meant. -/
theorem ends_closeOver {a : TypeRef} {as : List TypeRef} {definition : TypeId} {m : Meaning}
    (hi : v.Issued definition) (hm : v.keyOf definition = m.key)
    (ha : Ends (resolve ids a) v (Keyed v ids (a.meaning s).key) fun _ _ => True)
    (has : ∀ {w}, v.Grows w → w.Orderly → Ends (resolveAll ids as) w
      (KeyedAll w ids (Meaning.keys (TypeRef.meaningAll s as))) fun _ _ => True) :
    Ends (closeOver ids a as definition) v
      (fun id w => w.keyOf id = (Meaning.closed m (a.meaning s :: TypeRef.meaningAll s as)).key)
      fun _ _ => True := by
  refine ends_bind.2 (ha.mono ?_ fun _ _ _ => trivial)
  intro x w hx
  refine ends_bind.2 ((has hx.grows hx.orderly).mono ?_ fun _ _ _ => trivial)
  intro xs z hxs
  have keeps := hxs.grows.retains.keeps
  have hissued : ∀ y ∈ x :: xs, z.Issued y :=
    List.forall_mem_cons.2 ⟨keeps.issued hx.meant.issued, fun y hy => (hxs.meant y hy).issued⟩
  have hkey : z.keyOf x = (a.meaning s).key := by rw [keeps.keyOf hx.meant.issued, hx.key]
  have hown : ∀ y ∈ x :: xs, IsOwnKey (z.keyOf y) := by
    refine List.forall_mem_cons.2 ⟨?_, fun y hy => (hxs.meant y hy).own⟩
    rw [keeps.keyOf hx.meant.issued]
    exact hx.meant.own
  refine (builds_close hxs.orderly.sound hissued hown).ends ?_
  rintro id t ⟨-, hid⟩
  have hdefinition : z.keyOf definition = m.key := by
    rw [← hm, (hx.grows.trans hxs.grows).retains.keyOf hi]
  rw [hid, hdefinition, List.map_cons, hxs.keys, hkey]
  rfl

mutual

/-- A reference is resolved to a type of the key that it means. -/
theorem ends_resolve {u : Universe} (h : u.Orderly) (hs : u.IsScope ids s) :
    ∀ r : TypeRef, r.NamesPaths →
      Ends (resolve ids r) u (Keyed u ids (r.meaning s).key) fun _ _ => True
  | .array element, hr => by
    refine ends_keyed h (hs.inScope h.sound) hr ?_
    rw [resolve]
    refine ends_bind.2 ((ends_resolve h hs element (TypeRef.namesPaths_array.1 hr)).mono ?_
      fun _ _ _ => trivial)
    intro e v he
    refine (builds_arrayOf he.orderly.sound he.meant.issued he.meant.own).ends ?_
    rintro id w ⟨-, hid⟩
    rw [hid, he.key]
    rfl
  | .nullable underlying, hr => by
    refine ends_keyed h (hs.inScope h.sound) hr ?_
    rw [resolve]
    refine ends_bind.2 ((ends_resolve h hs underlying (TypeRef.namesPaths_nullable.1 hr)).mono ?_
      fun _ _ _ => trivial)
    intro x v hx
    refine (builds_nullableOf hx.orderly.sound hx.meant.issued hx.meant.own).ends ?_
    rintro id w ⟨-, hid⟩
    rw [hid, hx.key]
    simp [TypeRef.meaning, Meaning.key, Meaning.keys]
  | .named name [], hr =>
    ends_keyed h (hs.inScope h.sound) hr (ends_resolve_name h hs name)
  | .named name (a :: as), hr => by
    obtain ⟨-, harguments⟩ := TypeRef.namesPaths_named.1 hr
    refine ends_keyed h (hs.inScope h.sound) hr ?_
    rw [resolve_closed, TypeRef.meaning]
    refine ends_bind.2 ((ends_definitionOf h name (Nat.succ_ne_zero _)).mono ?_
      fun _ _ _ => trivial)
    rintro definition v ⟨grows, orderly, hi, hkey⟩
    have hv := hs.extend h.sound grows.toExtends
    refine ends_closeOver hi hkey (ends_resolve orderly hv a (harguments a List.mem_cons_self)) ?_
    intro w grows' orderly'
    exact ends_resolveAll orderly' (hv.extend orderly.sound grows'.toExtends) as fun r hmem =>
      harguments r (List.mem_cons_of_mem _ hmem)

theorem ends_resolveAll {u : Universe} (h : u.Orderly) (hs : u.IsScope ids s) :
    ∀ rs : List TypeRef, (∀ r ∈ rs, r.NamesPaths) → Ends (resolveAll ids rs) u
      (KeyedAll u ids (Meaning.keys (TypeRef.meaningAll s rs))) fun _ _ => True
  | [], _ => by
    rw [resolveAll]
    exact ends_pure.2 ⟨.refl u, h, by simp, rfl⟩
  | r :: rs, hr => by
    rw [resolveAll]
    refine ends_bind.2 ((ends_resolve h hs r (hr r List.mem_cons_self)).mono ?_
      fun _ _ _ => trivial)
    intro i v hi
    refine ends_bind.2 ((ends_resolveAll hi.orderly (hs.extend h.sound hi.grows.toExtends) rs
      fun q hq => hr q (List.mem_cons_of_mem _ hq)).mono ?_ fun _ _ _ => trivial)
    intro is w his
    have keeps := his.grows.retains.keeps
    refine ends_pure.2 ⟨hi.grows.trans his.grows, his.orderly, ?_, ?_⟩
    · exact List.forall_mem_cons.2
        ⟨hi.meant.keep ((hs.inScope h.sound).keep hi.grows.retains.keeps) keeps, his.meant⟩
    · rw [TypeRef.meaningAll, Meaning.keys, List.map_cons, his.keys,
        keeps.keyOf hi.meant.issued, hi.key]

end

/-- What the text of a reference is resolved to in an orderly universe. -/
theorem unfolds_resolveText {text : String} {t : TypeId} (h : u.Orderly) (hs : u.IsScope ids s)
    (ht : resolveText ids text u = .ok t v) : ∃ r, TypeRef.parse text = .ok r ∧ u.Grows v ∧
      v.Orderly ∧ v.Unfolds t (r.meaning s) := by
  unfold resolveText at ht
  cases hr : TypeRef.parse text with
  | error cause =>
    rw [hr] at ht
    cases ht
  | ok r =>
    rw [hr] at ht
    have keyed := (ends_resolve h hs r (TypeRef.namesPaths_of_parse hr)).good_of_eq ht
    have proper := TypeRef.isProper_meaning (hs.isProper h) r (TypeRef.parse_eq_ok_iff.1 hr).1
    exact ⟨r, rfl, keyed.grows, keyed.orderly,
      (keyed.orderly.unfolds_iff keyed.meant.issued proper).2 keyed.key⟩

/-- In a universe that documents with proper names were loaded into, the type
that a reference is resolved to unfolds to what the reference means, and to
nothing else.  So two references are resolved to one type exactly when they mean
the same.  All types of the universe have meanings, which their keys tell
apart. -/
theorem resolves_to_meaning {text : String} {t : TypeId} (h : Assembled u) (hs : u.IsScope ids s)
    (ht : resolveText ids text u = .ok t v) : ∃ r, TypeRef.parse text = .ok r ∧
      (∀ m, v.Unfolds t m ↔ m = r.meaning s) ∧
      (∀ ids' s' text' t' w, v.IsScope ids' s' → resolveText ids' text' v = .ok t' w →
        ∃ r', TypeRef.parse text' = .ok r' ∧ (t = t' ↔ r.meaning s = r'.meaning s')) ∧
      ∀ a b, v.Issued a → v.Issued b → ∃ m n, v.Unfolds a m ∧ v.Unfolds b n ∧
        (v.keyOf a = v.keyOf b ↔ m = n) ∧ (a = b ↔ m = n) := by
  obtain ⟨r, hr, -, orderly, hunfolds⟩ := unfolds_resolveText h.orderly hs ht
  refine ⟨r, hr, fun m => ⟨fun hm => hm.unique hunfolds, ?_⟩, ?_, ?_⟩
  · rintro rfl
    exact hunfolds
  · intro ids' s' text' t' w hs' ht'
    obtain ⟨r', hr', grows, orderly', hunfolds'⟩ := unfolds_resolveText orderly hs' ht'
    exact ⟨r', hr', (orderly'.eq_iff (hunfolds.extend grows.toExtends) hunfolds').1⟩
  · intro a b ha hb
    obtain ⟨d, hd⟩ := issued_iff.1 ha
    obtain ⟨e, he⟩ := issued_iff.1 hb
    obtain ⟨m, hm, -⟩ := orderly.hasMeaning hd
    obtain ⟨n, hn, -⟩ := orderly.hasMeaning he
    obtain ⟨hid, hkey⟩ := orderly.eq_iff hm hn
    exact ⟨m, n, hm, hn, hkey, hid⟩

/-- A document that declares a generic definition. -/
@[irreducible] def pageText : String :=
  r#"[[["object","Page",["T"],[["Items","List<T>"]]]],[]]"#

/-- What the text of that document says. -/
def pageDocument : Document where
  types := [.object "Page" ["T"] [⟨"Items", "List<T>", {}⟩] none]

/-- What the document is loaded into. -/
def pageUniverse : Universe where
  types := #[
    { key := "Page`1", name := "Page", space := "", kind := .object [⟨1⟩], isValueType := false
      members := [⟨"Items", ⟨3⟩, {}⟩] },
    { key := "Page`1:T", name := "T", space := "", kind := .parameter ⟨0⟩ 0, isValueType := false },
    { key := "System.Collections.Generic.List`1", name := "List"
      space := "System.Collections.Generic", kind := .container .list, isValueType := false },
    { key := "System.Collections.Generic.List`1<Page`1:T>", name := "List"
      space := "System.Collections.Generic", kind := .closed ⟨2⟩ [⟨1⟩], isValueType := false }]

/-- What a step gives and leaves when it succeeds. -/
def succeeded? {α : Type} (x : Builder α) (u : Universe) : Option (α × Universe) :=
  match x u with
  | .ok a v => some (a, v)
  | .error .. => none

theorem eq_ok_of_succeeded? {α : Type} {x : Builder α} {a : α}
    (h : succeeded? x u = some (a, v)) : x u = .ok a v := by
  unfold succeeded? at h
  cases hx : x u with
  | ok b w =>
    rw [hx] at h
    cases h
    rfl
  | error e w =>
    rw [hx] at h
    cases h

theorem assembled_pageUniverse : Assembled pageUniverse := by
  have hd : Document.ofText? pageText = some pageDocument := by decide +kernel
  have hload : succeeded? (loadText pageText) {} = some ([], pageUniverse) := by decide +kernel
  refine .load .empty hd ?_ (eq_ok_of_succeeded? hload)
  intro t ht
  rw [List.mem_singleton.1 ht]
  have hkey : TypeEntry.key (.object "Page" ["T"] [⟨"Items", "List<T>", {}⟩] none) = "Page`1" := by
    decide +kernel
  refine ⟨by decide +kernel, by decide +kernel, ?_, ?_⟩
  · rw [hkey]
    intro b
    cases b <;> decide +kernel
  · rw [hkey]
    intro c
    cases c <;> decide +kernel

/-- Two spellings of a page of its own type parameter that may be absent. -/
theorem resolves_to_meaning_page : ∃ (t t' : TypeId) (v w : Universe), Assembled pageUniverse ∧
    pageUniverse.IsScope [⟨1⟩] ⟨"Page", ["T"]⟩ ∧
    resolveText [⟨1⟩] "Page<T>?" pageUniverse = .ok t v ∧
    v.Unfolds t (.closed (.container .nullable)
      [.closed (.declared "Page" 1) [.parameter "Page" 1 "T"]]) ∧
    v.IsScope [⟨1⟩] ⟨"Page", ["T"]⟩ ∧
    resolveText [⟨1⟩] "Nullable<Page<T> >" v = .ok t' w ∧ t = t' := by
  have hs : pageUniverse.IsScope [⟨1⟩] ⟨"Page", ["T"]⟩ :=
    .parameters (rfl : pageUniverse.get? ⟨0⟩ = some _) rfl (by decide +kernel)
  have hboth : (succeeded? (do
      let t ← resolveText [⟨1⟩] "Page<T>?"
      let t' ← resolveText [⟨1⟩] "Nullable<Page<T> >"
      return (t, t')) pageUniverse).isSome = true := by decide +kernel
  obtain ⟨⟨p, w⟩, hrun⟩ := Option.isSome_iff_exists.1 hboth
  obtain ⟨t, v, ht, hrest⟩ := bind_eq_ok_iff.1 (eq_ok_of_succeeded? hrun)
  obtain ⟨t', z, ht', -⟩ := bind_eq_ok_iff.1 hrest
  have hsound := assembled_pageUniverse.orderly.sound
  have hs' := hs.extend hsound (lasts_resolveText
    (fun p hp => (hs.inScope hsound p hp).1) _ t v ht).1.toExtends
  obtain ⟨r, hr, hunfolds, hsecond, -⟩ := resolves_to_meaning assembled_pageUniverse hs ht
  obtain ⟨r', hr', hsame⟩ := hsecond _ _ _ t' z hs' ht'
  have hproper : (TypeRef.named "Page" [.named "T" []]).IsProper := by
    simp [TypeRef.IsProper, TypeRef.names, TypeRef.namesAll]
    decide
  have hparse : TypeRef.parse "Page<T>?" = .ok (.nullable (.named "Page" [.named "T" []])) := by
    refine TypeRef.parse_eq_ok_iff.2 ⟨hproper, ?_⟩
    exact .token (t := .path "Page") (.token (t := .leftAngle) (.token (t := .path "T")
      (.token (t := .rightAngle) (.token (t := .question) .nil))))
  have hparse' : TypeRef.parse "Nullable<Page<T> >" =
      .ok (.named "Nullable" [.named "Page" [.named "T" []]]) := by
    refine TypeRef.parse_eq_ok_iff.2 ⟨TypeRef.isProper_named.2 ⟨by decide, by simpa⟩, ?_⟩
    exact .token (t := .path "Nullable") (.token (t := .leftAngle) (.token (t := .path "Page")
      (.token (t := .leftAngle) (.token (t := .path "T") (.token (t := .rightAngle)
        (.blank rfl (.token (t := .rightAngle) .nil)))))))
  cases hr.symm.trans hparse
  cases hr'.symm.trans hparse'
  exact ⟨t, t', v, z, assembled_pageUniverse, hs, ht, (hunfolds _).2 rfl, hs', ht', hsame.2 rfl⟩

end Builder

end TypeExport
