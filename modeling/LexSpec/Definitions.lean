/-! # Named definitions

`Definitions α` gives values to names, each name at most once. The entries are kept in the order of
their names, so two collections are equal exactly when they give the same values to the same names,
in whatever order the definitions were made.
-/

namespace LexSpec

universe u

/-- Values by name. -/
@[ext] structure Definitions (α : Type u) where
  entries : List (String × α)
  sorted : entries.Pairwise fun a b => a.1 < b.1

namespace Definitions

variable {α : Type u}

instance [DecidableEq α] : DecidableEq (Definitions α) := fun d e =>
  decidable_of_iff (d.entries = e.entries) Definitions.ext_iff.symm

def empty : Definitions α := ⟨[], .nil⟩

instance : EmptyCollection (Definitions α) := ⟨empty⟩

instance : Inhabited (Definitions α) := ⟨empty⟩

/-- Puts an entry in its place, where it takes that of an entry with the same name. -/
def insertEntry (name : String) (value : α) : List (String × α) → List (String × α)
  | [] => [(name, value)]
  | entry :: rest =>
    if entry.1 < name then entry :: insertEntry name value rest
    else if entry.1 = name then (name, value) :: rest
    else (name, value) :: entry :: rest

theorem eq_or_mem_of_mem_insertEntry {name : String} {value : α} {entries : List (String × α)}
    {entry : String × α} (h : entry ∈ insertEntry name value entries) :
    entry = (name, value) ∨ entry ∈ entries := by
  induction entries with
  | nil => simp_all [insertEntry]
  | cons first rest ih =>
    simp only [insertEntry] at h
    split at h
    · rcases List.mem_cons.1 h with rfl | h
      · simp
      · rcases ih h with rfl | h
        · simp
        · exact .inr (List.mem_cons_of_mem _ h)
    · split at h
      · rcases List.mem_cons.1 h with rfl | h
        · simp
        · exact .inr (List.mem_cons_of_mem _ h)
      · rcases List.mem_cons.1 h with rfl | h
        · simp
        · exact .inr h

theorem sorted_insertEntry {entries : List (String × α)}
    (h : entries.Pairwise fun a b => a.1 < b.1) (name : String) (value : α) :
    (insertEntry name value entries).Pairwise fun a b => a.1 < b.1 := by
  induction entries with
  | nil => simp [insertEntry]
  | cons first rest ih =>
    obtain ⟨head, tail⟩ := List.pairwise_cons.1 h
    simp only [insertEntry]
    split
    · next less =>
      refine List.pairwise_cons.2 ⟨fun entry member => ?_, ih tail⟩
      rcases eq_or_mem_of_mem_insertEntry member with rfl | member
      · exact less
      · exact head entry member
    · next notLess =>
      split
      · next same => exact List.pairwise_cons.2 ⟨fun entry member => same ▸ head entry member, tail⟩
      · next other =>
        have less : name < first.1 := by
          rcases Std.lt_trichotomy name first.1 with less | same | greater
          · exact less
          · exact absurd same.symm other
          · exact absurd greater notLess
        refine List.pairwise_cons.2 ⟨fun entry member => ?_, h⟩
        rcases List.mem_cons.1 member with rfl | member
        · exact less
        · exact String.lt_trans less (head entry member)

/-- Gives a value to a name, in place of the one it had. -/
def insert (d : Definitions α) (name : String) (value : α) : Definitions α :=
  ⟨insertEntry name value d.entries, sorted_insertEntry d.sorted name value⟩

def find? (d : Definitions α) (name : String) : Option α := d.entries.lookup name

/-- Gives a value to a name, and tells the one that it had. -/
def define (d : Definitions α) (name : String) (value : α) : Option α × Definitions α :=
  (d.find? name, d.insert name value)

def contains (d : Definitions α) (name : String) : Bool := (d.find? name).isSome

/-- The number of names. -/
def size (d : Definitions α) : Nat := d.entries.length

def isEmpty (d : Definitions α) : Bool := d.entries.isEmpty

/-- Makes the definitions of a list one after the other, so the last one of a name counts. -/
def insertMany (d : Definitions α) (entries : List (String × α)) : Definitions α :=
  entries.foldl (fun d entry => d.insert entry.1 entry.2) d

/-- The definitions of a list, made one after the other. -/
def ofList (entries : List (String × α)) : Definitions α := empty.insertMany entries

end Definitions

end LexSpec
