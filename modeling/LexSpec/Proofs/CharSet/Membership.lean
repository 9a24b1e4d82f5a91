import LexSpec.Proofs.CharSet.Canonical

/-! # What sets contain

`CharSet.contains` is a search by halving. It answers as a look at every range would (`contains_eq_any`), so
what a set contains can be told from its members, and what an operation gives from what its operands contain:
`contains_laws`.

Every `CharSet` has its ranges in order by construction, so nothing is asked of the sets here.
-/

namespace LexSpec.CharSet

variable {c : Char} {s t : CharSet}

/-- The search finds what a look at every range finds. -/
theorem contains_eq_any :
    s.contains c = s.ranges.toList.any fun r => decide (r.low ≤ c) && decide (c ≤ r.high) := by
  rw [Bool.eq_iff_iff, contains_iff_mem, List.any_eq_true]
  constructor
  · rintro ⟨r, stored, low, high⟩
    exact ⟨r, stored, by simp [low, high]⟩
  · rintro ⟨r, stored, inside⟩
    obtain ⟨low, high⟩ := (Bool.and_eq_true _ _).mp inside
    exact ⟨r, stored, of_decide_eq_true low, of_decide_eq_true high⟩

@[simp] theorem contains_union : (s.union t).contains c = (s.contains c || t.contains c) := by
  rw [Bool.eq_iff_iff, Bool.or_eq_true]
  simp only [contains_iff_mem, mem_union]

@[simp] theorem contains_complement : s.complement.contains c = !s.contains c := by
  rw [Bool.eq_iff_iff, Bool.not_eq_true', ← Bool.not_eq_true]
  simp only [contains_iff_mem, mem_complement]

@[simp] theorem contains_inter : (s.inter t).contains c = (s.contains c && t.contains c) := by
  simp [inter]

@[simp] theorem contains_diff : (s.diff t).contains c = (s.contains c && !t.contains c) := by
  simp [diff]

theorem contains_ofList {chars : List Char} : (ofList chars).contains c = true ↔ c ∈ chars := by
  rw [contains_iff_mem, mem_ofList]

theorem contains_range {low high : Char} : (range low high).contains c = true ↔ low ≤ c ∧ c ≤ high := by
  rw [contains_iff_mem, mem_range]

/-- Neither the order of the characters nor how often they occur makes a difference. -/
theorem ofList_eq_ofList_iff {chars others : List Char} :
    ofList chars = ofList others ↔ ∀ d, d ∈ chars ↔ d ∈ others := by
  constructor
  · intro same d
    rw [← contains_ofList, same, contains_ofList]
  · intro same
    refine ext_mem fun d => ?_
    rw [mem_ofList, mem_ofList]
    exact same d

/-- A set without ranges has no members, and a range is never empty. -/
theorem isEmpty_iff : s.isEmpty = true ↔ ∀ d, s.contains d = false := by
  simp only [← Bool.not_eq_true, contains_iff_mem]
  constructor
  · intro empty d
    rintro ⟨r, stored, -⟩
    rw [isEmpty, Array.isEmpty_iff] at empty
    simp [empty] at stored
  · intro none
    cases ranges : s.ranges.toList with
    | nil =>
      rw [isEmpty, Array.isEmpty_iff]
      exact Array.toList_eq_nil_iff.mp ranges
    | cons r rest =>
      have stored : r ∈ s.ranges.toList := by
        rw [ranges]
        exact List.mem_cons_self ..
      exact absurd ⟨r, stored, r.low_mem⟩ (none r.low)

/-- What each operation contains. The search by halving is no different from a look at every range. -/
theorem contains_laws (s t : CharSet) (chars : List Char) (low high c : Char) :
    (s.contains c = s.ranges.toList.any fun r => decide (r.low ≤ c) && decide (c ≤ r.high)) ∧
      (s.union t).contains c = (s.contains c || t.contains c) ∧
      s.complement.contains c = !s.contains c ∧
      (s.inter t).contains c = (s.contains c && t.contains c) ∧
      (s.diff t).contains c = (s.contains c && !t.contains c) ∧
      ((ofList chars).contains c = true ↔ c ∈ chars) ∧
      (∀ others, ofList chars = ofList others ↔ ∀ d, d ∈ chars ↔ d ∈ others) ∧
      ((range low high).contains c = true ↔ low ≤ c ∧ c ≤ high) ∧
      (s.isEmpty = true ↔ ∀ d, s.contains d = false) :=
  ⟨contains_eq_any, contains_union, contains_complement, contains_inter, contains_diff, contains_ofList,
    fun _ => ofList_eq_ofList_iff, contains_range, isEmpty_iff⟩

/-- The gap of the surrogates is no gap of a set: what lies on its two sides is next to each other. -/
example : ((range 'a' (Char.ofNat 0xD7FF)).complement.contains (Char.ofNat 0xE000),
    (range 'a' (Char.ofNat 0xD7FF)).complement.contains (Char.ofNat 0xD7FF)) = (true, false) := by
  decide +kernel

end LexSpec.CharSet
