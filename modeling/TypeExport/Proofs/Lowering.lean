import Mathlib.Data.List.TakeWhile
import TypeExport.Naming
import TypeExport.Proofs.Capitals

/-!
# Lowering the lead of a name

The lead of a name is the longest prefix of capitals.  Lower camel case lowers
the lead and leaves what follows as it is.  Of a lead with two capitals or more
the last one stays, too, when a lower case letter follows the lead, because it
starts the next word.  A name in lower camel case is left alone: either its lead
is gone, or all of it that would be lowered is made of capitals without a lower
case form, as those of the mathematical alphabets.

None of this depends on the version of the character database.  A `Casing` is
all that is asked of one, and the one that names are written by is
`Casing.unicode`, the casing of the case table.
-/

namespace TypeExport

/-- The upper case letters, the lower case letters and the lower case forms of
a character database. -/
structure Casing where
  isUpper : Char → Bool
  isLower : Char → Bool
  /-- The lower case form of an upper case letter. -/
  lowered : Char → List Char
  /-- A lower case form is one scalar or more.  Were that of `A` empty, `ABc`
  would become `Bc`, and that `bc`. -/
  lowered_ne_nil (c : Char) : lowered c ≠ []
  /-- No scalar is both upper and lower case. -/
  not_both (c : Char) : ¬(isUpper c = true ∧ isLower c = true)
  /-- A lower case form is the letter itself or has no upper case letter. -/
  lowered_eq_or (c : Char) :
    isUpper c = true → lowered c = [c] ∨ ∀ d ∈ lowered c, isUpper d = false

namespace Casing

/-- The casing of the case table. -/
def unicode : Casing where
  isUpper := Text.isUpper
  isLower := Text.isLower
  lowered := Text.lowered
  lowered_ne_nil := Text.lowered_ne_nil
  not_both := Text.not_isUpper_and_isLower
  lowered_eq_or _ := Text.lowered_eq_or_not_isUpper

variable (k : Casing)

/-- Lowers the leading run of capitals by a casing. -/
def lowerLead (first : Bool) : List Char → List Char
  | [] => []
  | c :: rest =>
    if k.isUpper c then
      if !first && rest.head?.any k.isLower then c :: rest
      else k.lowered c ++ lowerLead false rest
    else c :: rest

/-- The lower camel case form of a name by a casing. -/
def lowerCamel (s : String) : String := String.ofList (k.lowerLead true s.toList)

/-- A name with its lead lowered, but for the last capital of the lead when that
one starts the next word. -/
def leadLowered (s : String) : String :=
  let lead := s.toList.takeWhile k.isUpper
  let rest := s.toList.dropWhile k.isUpper
  if lead = [] then s
  else if 2 ≤ lead.length ∧ rest.head?.any k.isLower then
    String.ofList (lead.dropLast.flatMap k.lowered ++ s.toList.drop (lead.length - 1))
  else String.ofList (lead.flatMap k.lowered ++ rest)

variable {k} {first : Bool} {c : Char} {cs lead rest : List Char}

theorem isLower_of_isUpper (hc : k.isUpper c = true) : k.isLower c = false := by
  rw [← Bool.not_eq_true]
  exact fun hlower => k.not_both c ⟨hc, hlower⟩

/-! ## One letter -/

theorem lowerLead_of_not_upper (h : cs.head?.any k.isUpper = false) :
    k.lowerLead first cs = cs := by
  cases cs with
  | nil => rfl
  | cons c cs =>
    have hc : k.isUpper c = false := by simpa using h
    simp [lowerLead, hc]

/-- A capital behind the first one stays before a lower case letter. -/
theorem lowerLead_word (hnext : cs.head?.any k.isLower = true) :
    k.lowerLead false (c :: cs) = c :: cs := by
  simp [lowerLead, hnext]

/-- Any other capital is lowered. -/
theorem lowerLead_capital (hc : k.isUpper c = true)
    (h : first = false → cs.head?.any k.isLower = false) :
    k.lowerLead first (c :: cs) = k.lowered c ++ k.lowerLead false cs := by
  cases first with
  | true => simp [lowerLead, hc]
  | false => simp [lowerLead, hc, h rfl]

/-! ## The lead -/

theorem any_isLower_append (hlead : ∀ d ∈ lead, k.isUpper d = true)
    (h : rest.head?.any k.isLower = false) : (lead ++ rest).head?.any k.isLower = false := by
  cases lead with
  | nil => exact h
  | cons d lead => simpa using isLower_of_isUpper (hlead d List.mem_cons_self)

/-- Capitals are lowered one by one up to where a lower case letter comes next. -/
theorem lowerLead_capitals (hlead : ∀ d ∈ lead, k.isUpper d = true)
    (hnext : rest.head?.any k.isLower = false) :
    k.lowerLead false (lead ++ rest) = lead.flatMap k.lowered ++ k.lowerLead false rest := by
  induction lead with
  | nil => rfl
  | cons d lead ih =>
    rw [List.forall_mem_cons] at hlead
    have hstep := any_isLower_append hlead.2 hnext
    rw [List.cons_append, lowerLead_capital hlead.1 (fun _ => hstep), ih hlead.2,
      List.flatMap_cons, List.append_assoc]

/-- Before a lower case letter the last capital stays. -/
theorem lowerLead_capitals_word (hlead : ∀ d ∈ lead, k.isUpper d = true) (hc : k.isUpper c = true)
    (hnext : rest.head?.any k.isLower = true) :
    k.lowerLead false (lead ++ c :: rest) = lead.flatMap k.lowered ++ c :: rest := by
  have hupper : (c :: rest).head?.any k.isLower = false := isLower_of_isUpper hc
  rw [lowerLead_capitals hlead hupper, lowerLead_word hnext]

/-- What becomes of a lead and what follows it.  The first capital is lowered in
any case, so a lead of two is the shortest of which one stays. -/
theorem lowerLead_append (hlead : ∀ d ∈ lead, k.isUpper d = true)
    (hrest : rest.head?.any k.isUpper = false) :
    k.lowerLead true (lead ++ rest) =
      if lead = [] then lead ++ rest
      else if 2 ≤ lead.length ∧ rest.head?.any k.isLower then
        lead.dropLast.flatMap k.lowered ++ (lead ++ rest).drop (lead.length - 1)
      else lead.flatMap k.lowered ++ rest := by
  cases lead with
  | nil => exact lowerLead_of_not_upper hrest
  | cons d lead =>
    rw [List.forall_mem_cons] at hlead
    have hfirst : k.lowerLead true (d :: (lead ++ rest)) =
        k.lowered d ++ k.lowerLead false (lead ++ rest) := lowerLead_capital hlead.1 nofun
    rw [if_neg (List.cons_ne_nil d lead), List.cons_append, hfirst]
    cases hnext : rest.head?.any k.isLower with
    | false =>
      rw [lowerLead_capitals hlead.2 hnext, lowerLead_of_not_upper hrest]
      simp
    | true =>
      rcases lead.eq_nil_or_concat' with rfl | ⟨lead, c, rfl⟩
      · simp [lowerLead_of_not_upper hrest]
      · rw [List.forall_mem_append] at hlead
        have hc : k.isUpper c = true := hlead.2.2 c List.mem_cons_self
        have hword := lowerLead_capitals_word hlead.2.1 hc hnext
        have hdrop : (d :: (lead ++ [c])).dropLast = d :: lead := by
          rw [← List.cons_append, List.dropLast_concat]
        simp [hword, hdrop]

theorem lowerCamel_eq_leadLowered (s : String) : k.lowerCamel s = k.leadLowered s := by
  have hlead : ∀ d ∈ s.toList.takeWhile k.isUpper, k.isUpper d = true := fun d hd =>
    List.mem_takeWhile_imp hd
  have hrest : (s.toList.dropWhile k.isUpper).head?.any k.isUpper = false := by
    have hstop := List.head?_dropWhile_not k.isUpper s.toList
    cases hhead : (s.toList.dropWhile k.isUpper).head? with
    | none => rfl
    | some c => simpa [hhead] using hstop
  have happend := lowerLead_append hlead hrest
  rw [List.takeWhile_append_dropWhile] at happend
  unfold lowerCamel leadLowered
  rw [happend]
  dsimp only
  split
  · exact String.ofList_toList
  · split <;> rfl

/-! ## Lowering twice -/

/-- A capital without a lower case form stays whether it is lowered or not. -/
theorem lowerLead_self (hself : k.lowered c = [c]) (hcs : k.lowerLead false cs = cs) :
    k.lowerLead first (c :: cs) = c :: cs := by
  simp [lowerLead, hself, hcs]

theorem lowerLead_lowerLead (first : Bool) (cs : List Char) :
    k.lowerLead first (k.lowerLead first cs) = k.lowerLead first cs := by
  induction cs generalizing first with
  | nil => rfl
  | cons c cs ih =>
    cases hc : k.isUpper c with
    | false =>
      have hstays : k.lowerLead first (c :: cs) = c :: cs :=
        lowerLead_of_not_upper (by simpa using hc)
      rw [hstays, hstays]
    | true =>
      by_cases hword : first = false ∧ cs.head?.any k.isLower = true
      case pos =>
        obtain ⟨rfl, hnext⟩ := hword
        rw [lowerLead_word hnext, lowerLead_word hnext]
      case neg =>
        have hlowers : first = false → cs.head?.any k.isLower = false := by simpa using hword
        rw [lowerLead_capital hc hlowers]
        rcases k.lowered_eq_or c hc with hself | hnone
        · rw [hself, List.singleton_append]
          exact lowerLead_self hself (ih false)
        · obtain ⟨d, form, hform⟩ := List.exists_cons_of_ne_nil (k.lowered_ne_nil c)
          apply lowerLead_of_not_upper
          simpa [hform] using hnone d (by simp [hform])

theorem lowerCamel_lowerCamel (s : String) : k.lowerCamel (k.lowerCamel s) = k.lowerCamel s := by
  simp only [lowerCamel, String.toList_ofList, lowerLead_lowerLead]

end Casing

/-! ## The case table -/

theorem lowerLead_eq_unicode (first : Bool) (cs : List Char) :
    lowerLead first cs = Casing.unicode.lowerLead first cs := by
  induction cs generalizing first with
  | nil => rfl
  | cons c cs ih =>
    rw [lowerLead, Casing.lowerLead, ih]
    rfl

/-- Lower camel case, which is that of the case table, lowers the lead of a name
by any casing, and a second time changes nothing. -/
theorem lowerCamel_lowers_lead :
    lowerCamel = Casing.unicode.lowerCamel ∧
      ∀ (k : Casing) (s : String),
        k.lowerCamel s = k.leadLowered s ∧ k.lowerCamel (k.lowerCamel s) = k.lowerCamel s := by
  constructor
  · funext s
    rw [lowerCamel, Casing.lowerCamel, lowerLead_eq_unicode]
  · intro k s
    exact ⟨Casing.lowerCamel_eq_leadLowered s, Casing.lowerCamel_lowerCamel s⟩

example : Casing.unicode.leadLowered "URLValue" = "urlValue" := by decide +kernel

end TypeExport
