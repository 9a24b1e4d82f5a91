import Mathlib.Data.Finset.Card
import Mathlib.Data.List.Perm.Subperm
import LexSpec.Proofs.Definitions
import LexSpec.Scope

/-! # Definitions and their history

Definitions are made one at a time, in lists to begin with and in lists added later. However they are put together,
what counts is the last value that each name was given in the whole of it: `reflects_history`.

* `LastIn`: the value that a name is given last in a list of definitions.
* `History`: a list to begin with and the changes since. `History.flat` puts all its definitions in one list.
* `Reflects`: what can be asked of a collection, answered from a list of definitions.
-/

namespace LexSpec.Definitions

universe u

variable {α : Type u}

/-! ## The last value of a name -/

/-- The name is given the value, and nothing behind that gives it another one. -/
def LastIn (entries : List (String × α)) (name : String) (value : α) : Prop :=
  ∃ before after, entries = before ++ (name, value) :: after ∧ name ∉ after.map Prod.fst

theorem forall_bne_iff {entries : List (String × α)} {name : String} :
    (∀ entry ∈ entries, (name != entry.1) = true) ↔ name ∉ entries.map Prod.fst := by
  simp only [bne_iff_ne, List.mem_map, not_exists, not_and, ne_comm, Ne]

theorem lookup_eq_none_iff {entries : List (String × α)} {name : String} :
    entries.lookup name = none ↔ name ∉ entries.map Prod.fst :=
  List.lookup_eq_none_iff.trans forall_bne_iff

theorem lookup_reverse_eq_some_iff {entries : List (String × α)} {name : String} {value : α} :
    entries.reverse.lookup name = some value ↔ LastIn entries name value := by
  simp only [List.lookup_eq_some_iff, forall_bne_iff]
  constructor
  · rintro ⟨after, before, cut, others⟩
    exact ⟨before.reverse, after.reverse, List.reverse_injective (by simp [cut]), by simpa using others⟩
  · rintro ⟨before, after, rfl, others⟩
    exact ⟨after.reverse, before.reverse, by simp, by simpa using others⟩

/-! ## Many definitions -/

theorem insertMany_append (d : Definitions α) (entries others : List (String × α)) :
    d.insertMany (entries ++ others) = (d.insertMany entries).insertMany others :=
  List.foldl_append

theorem find?_insertMany (d : Definitions α) (entries : List (String × α)) (name : String) :
    (d.insertMany entries).find? name = (entries.reverse.lookup name).or (d.find? name) := by
  induction entries generalizing d with
  | nil => rfl
  | cons entry rest ih =>
    obtain ⟨key, value⟩ := entry
    have behind : (d.insertMany ((key, value) :: rest)).find? name =
        (rest.reverse.lookup name).or ((d.insert key value).find? name) := ih _
    rw [behind, find?_insert, List.reverse_cons, List.lookup_append, Option.or_assoc]
    by_cases same : name = key
    · simp [same]
    · simp [same, List.lookup_cons, beq_eq_false_iff_ne.2 same]

theorem find?_ofList (entries : List (String × α)) (name : String) :
    (ofList entries).find? name = entries.reverse.lookup name := by
  rw [ofList, find?_insertMany]
  exact Option.or_none

/-! ## Entries -/

theorem nodup_names (d : Definitions α) : (d.entries.map Prod.fst).Nodup := by
  refine List.pairwise_map.2 (d.sorted.imp fun {a b} less same => ?_)
  rw [same] at less
  exact String.lt_irrefl _ less

/-- A name has one entry at most, so the entry of a name is the one that is found. -/
theorem mem_entries_iff {d : Definitions α} {name : String} {value : α} :
    (name, value) ∈ d.entries ↔ d.find? name = some value := by
  rw [find?, List.lookup_eq_some_iff]
  constructor
  · intro member
    obtain ⟨before, after, cut⟩ := List.append_of_mem member
    refine ⟨before, after, cut, fun entry earlier => bne_iff_ne.2 fun same => ?_⟩
    have sorted := d.sorted
    rw [cut, List.pairwise_append] at sorted
    have less : entry.1 < name := sorted.2.2 entry earlier _ List.mem_cons_self
    exact String.lt_irrefl _ (same ▸ less)
  · rintro ⟨before, after, cut, -⟩
    rw [cut]
    simp

theorem contains_iff_find?_ne_none {d : Definitions α} {name : String} :
    d.contains name = true ↔ d.find? name ≠ none := Option.isSome_iff_ne_none

theorem contains_iff_mem_names {d : Definitions α} {name : String} :
    d.contains name = true ↔ name ∈ d.entries.map Prod.fst := by
  rw [contains_iff_find?_ne_none, Ne, find?, lookup_eq_none_iff, not_not]

/-- Collections are the same when they give the same values to the same names. -/
theorem ext_find? {d e : Definitions α} (same : ∀ name, d.find? name = e.find? name) : d = e := by
  have members : ∀ entry, entry ∈ d.entries ↔ entry ∈ e.entries := fun (name, value) => by
    rw [mem_entries_iff, mem_entries_iff, same]
  have perm : d.entries.Perm e.entries :=
    (List.perm_ext_iff_of_nodup d.nodup_names.of_map e.nodup_names.of_map).2 members
  refine Definitions.ext (perm.eq_of_pairwise (fun a b _ _ less greater => ?_) d.sorted e.sorted)
  exact absurd (String.lt_trans less greater) (String.lt_irrefl _)

/-- Compares the sizes, and looks up the entries of the one in the other. -/
def sameAs [DecidableEq α] (d e : Definitions α) : Bool :=
  d.size == e.size && d.entries.all fun entry => e.find? entry.1 == some entry.2

/-- The order of the entries plays no part when collections are compared. -/
theorem sameAs_iff [DecidableEq α] {d e : Definitions α} : d.sameAs e = true ↔ d = e := by
  constructor
  · intro same
    obtain ⟨size, found⟩ : d.size = e.size ∧ ∀ entry ∈ d.entries, e.find? entry.1 = some entry.2 := by
      simpa [sameAs] using same
    have inside : d.entries ⊆ e.entries := fun entry member => mem_entries_iff.2 (found entry member)
    -- there is no room for more entries in the other one
    have perm : d.entries.Perm e.entries :=
      (List.subperm_of_subset d.nodup_names.of_map inside).perm_of_length_le (le_of_eq size.symm)
    refine ext_find? fun name => Option.ext fun value => ?_
    rw [← mem_entries_iff, ← mem_entries_iff]
    exact perm.mem_iff
  · rintro rfl
    have found : ∀ entry ∈ d.entries, d.find? entry.1 = some entry.2 := fun entry => mem_entries_iff.1
    simpa [sameAs] using found

/-! ## Histories -/

/-- One definition, or a list of definitions made one after the other. -/
inductive Change (α : Type u) where
  | define (name : String) (value : α)
  | extend (entries : List (String × α))

/-- How a collection is put together: a list to begin with, and changes since. -/
structure History (α : Type u) where
  initial : List (String × α)
  changes : List (Change α)

def Change.apply (d : Definitions α) : Change α → Definitions α
  | define name value => (d.define name value).2
  | extend entries => d.insertMany entries

/-- The definitions that a change makes, in order. -/
def Change.entries : Change α → List (String × α)
  | define name value => [(name, value)]
  | extend entries => entries

def History.definitions (history : History α) : Definitions α :=
  history.changes.foldl Change.apply (.ofList history.initial)

/-- All definitions of a history, in order. -/
def History.flat (history : History α) : List (String × α) :=
  history.initial ++ history.changes.flatMap Change.entries

theorem Change.apply_eq (d : Definitions α) (change : Change α) : change.apply d = d.insertMany change.entries := by
  cases change <;> rfl

theorem foldl_apply (d : Definitions α) (changes : List (Change α)) :
    changes.foldl Change.apply d = d.insertMany (changes.flatMap Change.entries) := by
  induction changes generalizing d with
  | nil => rfl
  | cons change rest ih =>
    rw [List.foldl_cons, Change.apply_eq, ih, List.flatMap_cons, insertMany_append]

theorem History.definitions_eq (history : History α) : history.definitions = .ofList history.flat := by
  rw [definitions, foldl_apply, flat, ofList, ofList, insertMany_append]

example : (⟨[("d", 1)], [.define "a" 2, .extend [("d", 3), ("d", 4)]]⟩ : History Nat).definitions.entries =
    [("a", 2), ("d", 4)] := by decide +kernel

/-! ## What can be asked -/

/-- What can be asked of a collection is answered by the last values that a list of definitions gives to its names. -/
structure Reflects (d : Definitions α) (flat : List (String × α)) : Prop where
  find? : ∀ name value, d.find? name = some value ↔ LastIn flat name value
  unknown : ∀ name, d.find? name = none ↔ name ∉ flat.map Prod.fst
  contains : ∀ name, d.contains name = true ↔ name ∈ flat.map Prod.fst
  /-- The next definition tells the value before it. -/
  define : ∀ name value,
    (∀ old, (d.define name value).1 = some old ↔ LastIn flat name old) ∧
    ((d.define name value).1 = none ↔ name ∉ flat.map Prod.fst)
  size : d.size = (flat.map Prod.fst).toFinset.card
  names : (d.entries.map Prod.fst).Nodup
  entries : ∀ name value, (name, value) ∈ d.entries ↔ LastIn flat name value

theorem find?_ofList_eq_some_iff {entries : List (String × α)} {name : String} {value : α} :
    (ofList entries).find? name = some value ↔ LastIn entries name value := by
  rw [find?_ofList, lookup_reverse_eq_some_iff]

theorem find?_ofList_eq_none_iff {entries : List (String × α)} {name : String} :
    (ofList entries).find? name = none ↔ name ∉ entries.map Prod.fst := by
  rw [find?_ofList, lookup_eq_none_iff, List.map_reverse, List.mem_reverse]

theorem contains_ofList_iff {entries : List (String × α)} {name : String} :
    (ofList entries).contains name = true ↔ name ∈ entries.map Prod.fst := by
  rw [contains_iff_find?_ne_none, Ne, find?_ofList_eq_none_iff, not_not]

theorem size_ofList (entries : List (String × α)) :
    (ofList entries).size = (entries.map Prod.fst).toFinset.card := by
  have names : ((ofList entries).entries.map Prod.fst).toFinset = (entries.map Prod.fst).toFinset := by
    ext name
    rw [List.mem_toFinset, List.mem_toFinset, ← contains_iff_mem_names, contains_ofList_iff]
  rw [← names, List.toFinset_card_of_nodup (nodup_names _), List.length_map, size]

theorem reflects_ofList (entries : List (String × α)) : Reflects (ofList entries) entries where
  find? _ _ := find?_ofList_eq_some_iff
  unknown _ := find?_ofList_eq_none_iff
  contains _ := contains_ofList_iff
  define _ _ := ⟨fun _ => find?_ofList_eq_some_iff, find?_ofList_eq_none_iff⟩
  size := size_ofList entries
  names := nodup_names _
  entries _ _ := mem_entries_iff.trans find?_ofList_eq_some_iff

theorem ofList_eq_ofList_iff {entries others : List (String × α)} :
    ofList entries = ofList others ↔ ∀ name value, LastIn entries name value ↔ LastIn others name value := by
  simp only [← find?_ofList_eq_some_iff]
  refine ⟨fun same name value => by rw [same], fun same => ext_find? fun name => Option.ext (same name)⟩

theorem resolveSet_eq_ok_iff {sets : Definitions CharSet} {position : Position} {name : String} {set : CharSet} :
    sets.resolveSet position name = .ok set ↔ sets.find? name = some set := by
  unfold resolveSet
  cases sets.find? name <;> simp

theorem resolveSet_eq_error_iff {sets : Definitions CharSet} {position : Position} {name : String}
    {error : TextError} :
    sets.resolveSet position name = .error error ↔
      sets.find? name = none ∧ error = .unknownSet position name := by
  unfold resolveSet
  cases sets.find? name <;> simp [eq_comm]

theorem resolveRegex_eq_ok_iff {regexes : Definitions Regex} {name : String} {regex : Regex} :
    regexes.resolveRegex name = .ok regex ↔ regexes.find? name = some regex := by
  unfold resolveRegex
  cases regexes.find? name <;> simp

theorem resolveRegex_eq_error_iff {regexes : Definitions Regex} {name : String} {error : TextError} :
    regexes.resolveRegex name = .error error ↔ regexes.find? name = none ∧ error = .unknownRegex name := by
  unfold resolveRegex
  cases regexes.find? name <;> simp [eq_comm]

/-- However a collection is put together, it knows the names of its history, each with the last value that it was
    given, and collections are the same exactly when their histories give the same last values to the same names.
    A reference is resolved to the last value of its name, and a name without one is an error. -/
theorem reflects_history :
    (∀ {α : Type u} (history : History α), Reflects history.definitions history.flat) ∧
    (∀ {α : Type u} (first second : History α),
      first.definitions = second.definitions ↔
        ∀ name value, LastIn first.flat name value ↔ LastIn second.flat name value) ∧
    (∀ {α : Type u} [DecidableEq α] (first second : History α),
      first.definitions.sameAs second.definitions = true ↔ first.definitions = second.definitions) ∧
    (∀ (history : History CharSet) position name,
      (∀ set, history.definitions.resolveSet position name = .ok set ↔ LastIn history.flat name set) ∧
      ∀ error, history.definitions.resolveSet position name = .error error ↔
        name ∉ history.flat.map Prod.fst ∧ error = .unknownSet position name) ∧
    ∀ (history : History Regex) name,
      (∀ regex, history.definitions.resolveRegex name = .ok regex ↔ LastIn history.flat name regex) ∧
      ∀ error, history.definitions.resolveRegex name = .error error ↔
        name ∉ history.flat.map Prod.fst ∧ error = .unknownRegex name := by
  simp only [History.definitions_eq]
  refine ⟨fun history => reflects_ofList _, fun first second => ofList_eq_ofList_iff,
    fun first second => sameAs_iff, fun history position name => ⟨fun set => ?_, fun error => ?_⟩,
    fun history name => ⟨fun regex => ?_, fun error => ?_⟩⟩
  · rw [resolveSet_eq_ok_iff, find?_ofList_eq_some_iff]
  · rw [resolveSet_eq_error_iff, find?_ofList_eq_none_iff]
  · rw [resolveRegex_eq_ok_iff, find?_ofList_eq_some_iff]
  · rw [resolveRegex_eq_error_iff, find?_ofList_eq_none_iff]

end LexSpec.Definitions
