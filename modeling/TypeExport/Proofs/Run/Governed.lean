import TypeExport.Override.Rules
import TypeExport.Proofs.Run.Finishing
import TypeExport.Proofs.Run.Kept
import TypeExport.Proofs.Universe.Key
import TypeExport.Proofs.Universe.Loading

/-!
# Setups under rules

The setups that the main results are about: the types are those of a loaded
document, the roots are any of them, and the rules only place and redirect
types (`Setup.Governed`).  Some results ask further that only declared types
are redirected, so that composed types are treated by their forms
(`Setup.RedirectsDeclared`).
-/

namespace TypeExport

/-- Whether a type is declared by a document. -/
def TypeKind.IsDeclared : TypeKind → Prop
  | .object _ | .enumeration _ => True
  | _ => False

instance : DecidablePred TypeKind.IsDeclared
  | .object _ | .enumeration _ => isTrue trivial
  | .builtin _ | .container _ | .array _ | .closed .. | .parameter .. => isFalse id

namespace Rules

variable {r : Rules} {d : Descriptor}

/-- The rules that place a type. -/
def placing (r : Rules) (key : String) : List LocationRule := r.locations.filter (·.key = key)

/-- The rules that redirect a type. -/
def redirecting (r : Rules) (key : String) : List RedirectRule :=
  r.redirects.filter (·.key = key)

/-- A location is found when there is at most one rule for it. -/
theorem location_cases (r : Rules) (types : Universe) (d : Descriptor) :
    ((r.placing d.key).length ≤ 1 ∧ ∃ location, r.location types d = .ok location) ∨
      1 < (r.placing d.key).length ∧
        ∃ kinds, r.location types d = .error (.ambiguous d.key kinds) := by
  unfold location placing
  split
  · rename_i h
    exact .inl ⟨by simp [h], _, rfl⟩
  · rename_i rule h
    exact .inl ⟨by simp [h], _, rfl⟩
  · rename_i hnone hone
    refine .inr ⟨?_, _, rfl⟩
    generalize r.locations.filter (·.key = d.key) = rules at hnone hone
    match rules with
    | [] => exact absurd rfl hnone
    | [rule] => exact absurd rfl (hone rule)
    | _ :: _ :: _ => simp

/-- A decision is found when there is at most one rule for it. -/
theorem override_cases (hb : r.behaviours = []) (d : Descriptor) :
    (r.redirecting d.key = [] ∧ r.override d = .ok .standard) ∨
      (∃ rule, r.redirecting d.key = [rule] ∧
        r.override d = .ok (.redirect rule.name rule.location)) ∨
      1 < (r.redirecting d.key).length ∧
        ∃ kinds, r.override d = .error (.ambiguous d.key kinds) := by
  unfold override redirecting
  simp only [hb, List.filter_nil]
  generalize r.redirects.filter (·.key = d.key) = rules
  match rules with
  | [] => exact .inl ⟨rfl, rfl⟩
  | [rule] => exact .inr (.inl ⟨rule, rfl, rfl⟩)
  | _ :: _ :: _ => exact .inr (.inr ⟨by simp, _, rfl⟩)

end Rules

namespace Setup

/-- Whether a setup is that of a loaded document under rules that only place
and redirect types. -/
structure Governed (s : Setup) (r : Rules) : Prop where
  /-- The types are those of a document. -/
  loaded : ∃ text roots, Builder.loadText text {} = .ok roots s.types
  /-- The roots are any types of the document. -/
  root : ∀ t ∈ s.roots, s.types.Issued t
  /-- The rules decide. -/
  hooks : s.hooks = r.hooks
  /-- No type has a behaviour of the caller's. -/
  behaviours : r.behaviours = []
  /-- No member is declared by the caller. -/
  members : r.members = []

/-- Whether only declared types are redirected. -/
def RedirectsDeclared (s : Setup) (r : Rules) : Prop :=
  ∀ rule ∈ r.redirects, ∀ t d, s.types.get? t = some d → d.key = rule.key → d.kind.IsDeclared

variable {s : Setup} {r : Rules} {t : TypeId} {d : Descriptor} {form : Form}

theorem Governed.override (h : s.Governed r) (d : Descriptor) :
    s.hooks.override d = r.override d := by
  rw [h.hooks]
  rfl

theorem Governed.location (h : s.Governed r) (types : Universe) (d : Descriptor) :
    s.hooks.location types d = r.location types d := by
  rw [h.hooks]
  rfl

theorem Governed.lawful (h : s.Governed r) : s.Lawful where
  sound := by
    obtain ⟨text, roots, hload⟩ := h.loaded
    exact (Builder.sound_of_loadText hload).1
  root := h.root
  override d hcustom := by
    rw [h.override] at hcustom
    rcases Rules.override_cases h.behaviours d with ⟨-, heq⟩ | ⟨rule, -, heq⟩ | ⟨-, kinds, heq⟩ <;>
      rw [heq] at hcustom <;> cases hcustom
  member unit owner m := by
    rw [h.hooks]
    show r.member unit owner m = _
    simp [Rules.member, h.members]

theorem Governed.ruledBy (h : s.Governed r) : s.RuledBy r := ⟨h.hooks, h.behaviours, h.members⟩

/-- A type that is not declared is treated by its form. -/
theorem Governed.treats (h : s.Governed r) (hr : s.RedirectsDeclared r)
    (hd : s.types.get? t = some d) (hkind : ¬ d.kind.IsDeclared) :
    s.Treats t (s.types.formOf d.kind) := by
  refine ⟨d, hd, ?_, rfl⟩
  have none : r.redirecting d.key = [] := by
    refine List.filter_eq_nil_iff.2 fun rule hmem hkey => hkind ?_
    exact hr rule hmem t d hd (of_decide_eq_true hkey).symm
  rw [h.override]
  rcases Rules.override_cases h.behaviours d with ⟨-, heq⟩ | ⟨rule, hrule, -⟩ | ⟨hlt, -⟩
  · exact heq
  · rw [none] at hrule
    cases hrule
  · rw [none] at hlt
    exact absurd hlt (Nat.not_lt_zero 1)

theorem Governed.peelsNullable (h : s.Governed r) (hr : s.RedirectsDeclared r) :
    s.PeelsNullable := by
  intro t underlying hform
  obtain ⟨d, hd, hdform⟩ := Universe.get?_of_form? hform
  rw [← hdform]
  refine h.treats hr hd ?_
  generalize d.kind = kind at hdform ⊢
  cases Universe.hasForm_of_eq hdform
  exact id

/-- A declared type is no `Nullable`. -/
theorem Outlines.bare {d : Declaration} (h : s.Outlines t d) : s.types.bare t = t := by
  obtain ⟨form, ht, ho⟩ := h
  refine Universe.bare_of_ne_absent fun x hx => ?_
  cases Option.some.inj (ht.form?.symm.trans hx)
  cases ho

/-- Under such rules a redirected type is no `Nullable`. -/
theorem Governed.bare_of_redirects (h : s.Governed r) (hr : s.RedirectsDeclared r)
    {name location : String} (ht : s.Redirects t name location) : s.types.bare t = t := by
  refine Universe.bare_of_ne_absent fun x hx => ?_
  exact (h.peelsNullable hr t x hx).not_redirects ht

/-! ## Setups of documents -/

/-- The setup of a document under rules, with the roots of the document. -/
def ofDocument (text : String) (options : Options) (r : Rules) : Setup :=
  match Builder.loadText text {} with
  | .ok roots types => { types, roots, options, hooks := r.hooks }
  | .error _ types => { types, options, hooks := r.hooks }

theorem options_ofDocument (text : String) (options : Options) (r : Rules) :
    (ofDocument text options r).options = options := by
  unfold ofDocument
  split <;> rfl

/-- Whether a text is a document that loads. -/
def loads (text : String) : Bool :=
  match Builder.loadText text {} with
  | .ok .. => true
  | .error .. => false

/-- The types of the setup of a document that loads are those of the document. -/
theorem exists_loadText_ofDocument {text : String} (options : Options) (r : Rules)
    (h : loads text = true) :
    ∃ roots, Builder.loadText text {} = .ok roots (ofDocument text options r).types := by
  unfold loads at h
  unfold ofDocument
  cases hload : Builder.loadText text {} with
  | ok roots types => exact ⟨roots, rfl⟩
  | error e types =>
    rw [hload] at h
    cases h

/-- The setup of a document that loads is governed by its rules. -/
theorem governed_ofDocument {text : String} (options : Options) (h : loads text = true)
    (hb : r.behaviours = []) (hm : r.members = []) : (ofDocument text options r).Governed r := by
  unfold loads at h
  unfold ofDocument
  cases hload : Builder.loadText text {} with
  | ok roots types =>
    exact ⟨⟨text, roots, hload⟩, (Builder.sound_of_loadText hload).2, rfl, hb, hm⟩
  | error e types =>
    rw [hload] at h
    cases h

/-- Whether only declared types are redirected can be decided. -/
theorem redirectsDeclared_of_all
    (h : ∀ rule ∈ r.redirects, ∀ d ∈ s.types.types.toList, d.key = rule.key → d.kind.IsDeclared) :
    s.RedirectsDeclared r :=
  fun rule hrule _ d hd => h rule hrule d (Array.mem_toList_iff.2 (Array.mem_of_getElem? hd))

/-! ## A governed setup -/

/-- A document with a generic definition, an enumeration and a class. -/
@[irreducible] def shopText : String :=
  r#"[[["object","Page",["T"],[["Items","List<T>"],["State","State?"],["By","User"]]],
["enum","State",["Open"]],["object","User"]],["Page<User>"]]"#

/-- Rules that place the enumeration and redirect the class. -/
def shopRules : Rules where
  locations := [⟨"State", fun _ _ => "states"⟩]
  redirects := [⟨"User", "Person", "people"⟩]

/-- The setup of the document under the rules. -/
def shop : Setup := ofDocument shopText {} shopRules

-- one evaluation, because loading the document takes most of the time
theorem shop_checks : loads shopText = true ∧
    (∀ rule ∈ shopRules.redirects, ∀ d ∈ shop.types.types.toList,
      d.key = rule.key → d.kind.IsDeclared) ∧
    (∀ d ∈ shop.types.types.toList, (d.kind.isParameter = true → isPlainKey d.key = true) ∧
      shop.types.PlainKeys d.kind.parameters) ∧
    (shop.units.map (·.all.map (·.imports.size))).toOption = some #[2, 0] := by
  decide +kernel

theorem shop_governed : shop.Governed shopRules :=
  governed_ofDocument {} shop_checks.1 rfl rfl

theorem shop_redirectsDeclared : shop.RedirectsDeclared shopRules :=
  redirectsDeclared_of_all shop_checks.2.1

/-- A run of which something is known succeeds. -/
theorem exists_units_of_toOption {s : Setup} {α : Type} {f : Units → α} {a : α}
    (h : (s.units.map f).toOption = some a) : ∃ us, s.units = .ok us ∧ f us = a := by
  cases hus : s.units with
  | ok us =>
    rw [hus] at h
    exact ⟨us, rfl, Option.some.inj h⟩
  | error e =>
    rw [hus] at h
    cases h

/-- The run on a shop leaves two units, and the first imports two names. -/
theorem exists_shop_units :
    ∃ us, shop.units = .ok us ∧ us.all.map (·.imports.size) = #[2, 0] :=
  exists_units_of_toOption shop_checks.2.2.2

end Setup

end TypeExport
