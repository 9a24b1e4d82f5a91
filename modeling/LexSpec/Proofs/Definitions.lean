import LexSpec.Definitions

/-! # Looking up definitions

What `Definitions.insert` changes: the name that it is given has the new value, and all other names keep
theirs.
-/

namespace LexSpec.Definitions

universe u

variable {α : Type u}

theorem lookup_insertEntry (name other : String) (value : α) (entries : List (String × α)) :
    (insertEntry name value entries).lookup other =
      if other = name then some value else entries.lookup other := by
  induction entries with
  | nil =>
    by_cases same : other = name
    · simp [insertEntry, same]
    · simp [insertEntry, List.lookup_cons, same, beq_eq_false_iff_ne.2 same]
  | cons entry rest ih =>
    obtain ⟨key, old⟩ := entry
    simp only [insertEntry]
    split
    next less =>
      by_cases here : other = key
      · subst here
        have differ : other ≠ name := fun same => String.lt_irrefl name (same ▸ less)
        simp [differ]
      · simp only [List.lookup_cons, beq_eq_false_iff_ne.2 here, ih]
    next notLess =>
      split
      next same =>
        subst same
        by_cases here : other = key
        · simp [here]
        · simp [List.lookup_cons, here, beq_eq_false_iff_ne.2 here]
      next =>
        by_cases here : other = name
        · simp [here]
        · simp only [List.lookup_cons, beq_eq_false_iff_ne.2 here, here, if_false]

@[simp] theorem find?_insert (d : Definitions α) (name other : String) (value : α) :
    (d.insert name value).find? other = if other = name then some value else d.find? other :=
  lookup_insertEntry name other value d.entries

theorem contains_insert (d : Definitions α) (name other : String) (value : α) :
    (d.insert name value).contains other ↔ other = name ∨ d.contains other := by
  by_cases same : other = name <;> simp [contains, same]

end LexSpec.Definitions
