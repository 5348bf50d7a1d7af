/-!
# Separated items

Reading items that have a separator between any two.  What is an item and what is a
separator is left to the reader of the text.  Items that are written one after another
are read as they are, if each of them is read in front of a separator and in front of
what stands behind the last (`readSeparated_intercalate`).
-/

namespace TypeExport

variable {σ α : Type}

/-- At most so many items, with a separator between any two. -/
def readSeparated (item : List σ → Option (α × List σ)) (separator : List σ → Option (List σ)) :
    Nat → List σ → Option (List α × List σ)
  | 0, _ => none
  | fuel + 1, ts => do
    let (a, rest) ← item ts
    match separator rest with
    | none => return ([a], rest)
    | some rest =>
      let (as, rest) ← readSeparated item separator fuel rest
      return (a :: as, rest)

section Reading

variable {item : List σ → Option (α × List σ)} {separator : List σ → Option (List σ)}
  {a : α} {as : List α} {ts behind rest sep : List σ} {fuel : Nat}

theorem readSeparated_last (hitem : item ts = some (a, rest)) (hend : separator rest = none) :
    readSeparated item separator (fuel + 1) ts = some ([a], rest) := by
  simp [readSeparated, hitem, hend]

theorem readSeparated_cons (hitem : item ts = some (a, behind))
    (hsep : separator behind = some rest) :
    readSeparated item separator (fuel + 1) ts =
      (readSeparated item separator fuel rest).map fun (as, rest) => (a :: as, rest) := by
  simp only [readSeparated, hitem, Option.bind_eq_bind, Option.bind_some, hsep]
  cases readSeparated item separator fuel rest <;> rfl

theorem readSeparated_of_item_eq_none (hitem : item ts = none) :
    readSeparated item separator fuel ts = none := by
  cases fuel with
  | zero => rfl
  | succ fuel => simp [readSeparated, hitem]

/-- Written items are read one after another, and none is read when one is not legible. -/
theorem readSeparated_intercalate {write : α → List σ} {legible : α → Bool}
    (ends : List σ → Prop)
    (hsep : ∀ rest, ends (sep ++ rest) ∧ separator (sep ++ rest) = some rest)
    (hrest : ends rest) (hend : separator rest = none) :
    ∀ {as : List α} {fuel : Nat},
      (∀ a ∈ as, ∀ rest, ends rest →
        item (write a ++ rest) = if legible a then some (a, rest) else none) →
      as ≠ [] → as.length ≤ fuel →
        readSeparated item separator fuel (sep.intercalate (as.map write) ++ rest) =
          if as.all legible then some (as, rest) else none
  | [], _, _, hne, _ => absurd rfl hne
  | _ :: _, 0, _, _, hfuel => absurd hfuel (by simp)
  | [a], fuel + 1, hitem, _, _ => by
    have hread := hitem a (List.mem_singleton_self a) rest hrest
    rw [List.map_singleton, List.intercalate_singleton]
    cases hlegible : legible a with
    | true =>
      rw [if_pos hlegible] at hread
      simp [readSeparated_last hread hend, hlegible]
    | false =>
      rw [hlegible] at hread
      simp [readSeparated_of_item_eq_none hread, hlegible]
  | a :: a' :: as, fuel + 1, hitem, _, hfuel => by
    obtain ⟨hhead, htail⟩ := List.forall_mem_cons.1 hitem
    have hmore := readSeparated_intercalate ends hsep hrest hend htail (List.cons_ne_nil a' as)
      (Nat.le_of_succ_le_succ hfuel)
    have hread := hhead _ (hsep (sep.intercalate ((a' :: as).map write) ++ rest)).1
    rw [List.map_cons, List.map_cons, List.intercalate_cons_cons, List.append_assoc,
      List.append_assoc, ← List.map_cons, List.all_cons]
    cases hlegible : legible a with
    | true =>
      rw [if_pos hlegible] at hread
      rw [readSeparated_cons hread (hsep _).2, hmore, Bool.true_and]
      split <;> rfl
    | false =>
      rw [hlegible] at hread
      exact readSeparated_of_item_eq_none hread

end Reading

/-! ## Lengths -/

/-- Lists with separators are no more than what they have between the separators. -/
theorem length_le_intercalate (sep : List σ) : ∀ {ls : List (List σ)}, (∀ l ∈ ls, l ≠ []) →
    ls.length ≤ (sep.intercalate ls).length
  | [], _ => Nat.zero_le _
  | [l], h => by
    have := List.length_pos_iff.2 (h l (List.mem_singleton_self l))
    rw [List.intercalate_singleton]
    exact this
  | l :: l' :: ls, h => by
    obtain ⟨hl, hls⟩ := List.forall_mem_cons.1 h
    have hpos := List.length_pos_iff.2 hl
    have ih := length_le_intercalate sep hls
    rw [List.intercalate_cons_cons, List.length_append, List.length_append]
    simp only [List.length_cons] at ih ⊢
    omega

theorem length_le_intercalate_of_mem (sep : List σ) {l : List σ} :
    ∀ {ls : List (List σ)}, l ∈ ls → l.length ≤ (sep.intercalate ls).length
  | [l'], h => by
    obtain rfl := List.mem_singleton.1 h
    exact Nat.le_of_eq (by rw [List.intercalate_singleton])
  | l' :: l'' :: ls, h => by
    rw [List.intercalate_cons_cons, List.length_append, List.length_append]
    rcases List.mem_cons.1 h with rfl | h
    · omega
    · have ih := length_le_intercalate_of_mem sep h
      omega

end TypeExport
