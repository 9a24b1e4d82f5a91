import LexSpec.CharSet.Basic

/-! # Members of character sets

Each operation on sets is told by its members, and `CharSet.contains`, which searches by halving, finds
exactly these. Ranges are compared through the ordinals of their ends.
-/

namespace LexSpec

variable {c : Char} {s t : CharSet}

/-! ## Ranges -/

theorem CharRange.mem_iff {r : CharRange} :
    c ∈ r ↔ r.low.ordinal.val ≤ c.ordinal.val ∧ c.ordinal.val ≤ r.high.ordinal.val := by
  change r.low ≤ c ∧ c ≤ r.high ↔ _
  simp only [Char.le_iff_ordinal_le, Fin.le_def]

theorem CharRange.mem_hull_of_not_before {r s : CharRange} (hrs : ¬r.Before s)
    (hsr : ¬s.Before r) : c ∈ r.hull s ↔ c ∈ r ∨ c ∈ s := by
  have hr := r.ordinal_le
  have hs := s.ordinal_le
  simp only [CharRange.Before, CharRange.mem_iff, CharRange.hull, Char.le_iff_ordinal_le,
    Fin.le_def] at *
  split <;> split <;> omega

theorem exists_mem_joinRanges {last : CharRange} {ranges : List CharRange}
    (ascending : Ascending (last :: ranges)) :
    (∃ x ∈ joinRanges last ranges, c ∈ x) ↔ c ∈ last ∨ ∃ x ∈ ranges, c ∈ x := by
  induction ranges generalizing last with
  | nil => simp [joinRanges]
  | cons r rest ih =>
    obtain ⟨head, tail⟩ := List.pairwise_cons.1 ascending
    simp only [joinRanges]
    split
    · simp only [List.mem_cons, exists_eq_or_imp, ih tail]
    · next touching =>
      have behind : ¬r.Before last := by
        have low := head r (List.mem_cons_self ..)
        have order := r.ordinal_le
        simp only [CharRange.Before]
        omega
      simp only [List.mem_cons, exists_eq_or_imp, ih ascending.hull.2,
        CharRange.mem_hull_of_not_before touching behind]
      exact or_assoc

theorem exists_mem_normalise {ranges : List CharRange} :
    (∃ x ∈ normalise ranges, c ∈ x) ↔ ∃ x ∈ ranges, c ∈ x := by
  have ascending := ascending_sortRanges ranges
  have sorted : (∃ x ∈ sortRanges ranges, c ∈ x) ↔ ∃ x ∈ ranges, c ∈ x := by simp only [mem_sortRanges]
  rw [← sorted]
  unfold normalise
  split
  · next none => rw [none]
  · next first rest some =>
    rw [some] at ascending ⊢
    simp only [exists_mem_joinRanges ascending, List.mem_cons, exists_eq_or_imp]

theorem CharRange.mem_ofOrdinals {first last : Fin Char.numCodePoints} {h : first ≤ last} :
    c ∈ ofOrdinals first last h ↔ first.val ≤ c.ordinal.val ∧ c.ordinal.val ≤ last.val := by
  rw [mem_iff, low_ordinal_ofOrdinals, high_ordinal_ofOrdinals]

/-- A gap holds what is in none of the ranges. -/
theorem exists_mem_gaps {start : Nat} {ranges : List CharRange} (ordered : Separated ranges)
    (h : ∀ r ∈ ranges, start ≤ r.low.ordinal) :
    (∃ x ∈ gaps start ranges, c ∈ x) ↔ start ≤ c.ordinal.val ∧ ¬∃ x ∈ ranges, c ∈ x := by
  have limit := c.ordinal.isLt
  have count : Char.numCodePoints = 1112064 := rfl
  induction ranges generalizing start with
  | nil =>
    simp only [gaps]
    split
    · simp [CharRange.mem_ofOrdinals]
      omega
    · simp
      omega
  | cons r rest ih =>
    obtain ⟨head, tail⟩ := List.pairwise_cons.1 ordered
    have bound := h r (List.mem_cons_self ..)
    have order := r.ordinal_le
    have later : ∀ s ∈ rest, r.high.ordinal.val + 1 ≤ s.low.ordinal.val := fun s hs => by
      have before := head s hs
      simp only [CharRange.Before] at before
      omega
    -- a member of a later range lies behind the end of this one
    have beyond : (∃ x ∈ rest, c ∈ x) → r.high.ordinal.val < c.ordinal.val := by
      rintro ⟨x, hx, member⟩
      have := later x hx
      have := CharRange.mem_iff.1 member
      omega
    have tailGaps := ih tail later
    simp only [gaps]
    split
    · simp only [List.mem_cons, exists_eq_or_imp, tailGaps, CharRange.mem_ofOrdinals,
        CharRange.mem_iff (r := r)]
      by_cases other : ∃ x ∈ rest, c ∈ x
      · have := beyond other
        simp only [other, not_true_eq_false, and_false, or_false, or_true, iff_false]
        omega
      · simp only [other, not_false_eq_true, and_true, or_false]
        omega
    · simp only [List.mem_cons, exists_eq_or_imp, tailGaps, CharRange.mem_iff (r := r)]
      by_cases other : ∃ x ∈ rest, c ∈ x
      · simp [other]
      · simp only [other, not_false_eq_true, and_true, or_false]
        omega

namespace CharSet

/-! ## Operations -/

theorem mem_iff : c ∈ s ↔ ∃ r ∈ s.ranges.toList, c ∈ r := Iff.rfl

@[simp] theorem mem_ofSeparated {ranges : List CharRange} {h : Separated ranges} :
    c ∈ ofSeparated ranges h ↔ ∃ r ∈ ranges, c ∈ r := Iff.rfl

@[simp] theorem not_mem_empty : c ∉ empty := by
  simp [empty]

@[simp] theorem mem_any : c ∈ any := by
  simp only [any, mem_ofSeparated, List.mem_singleton, exists_eq_left, CharRange.mem_iff]
  have := c.ordinal.isLt
  have first : CharRange.all.low.ordinal.val = 0 := rfl
  have last : CharRange.all.high.ordinal.val = Char.numCodePoints - 1 := rfl
  omega

@[simp] theorem mem_singleton {d : Char} : c ∈ singleton d ↔ c = d := by
  simp only [singleton, mem_ofSeparated, List.mem_singleton, exists_eq_left, CharRange.mem_iff,
    CharRange.singleton]
  rw [← Char.ordinal_inj, Fin.ext_iff]
  omega

@[simp] theorem mem_range {low high : Char} : c ∈ range low high ↔ low ≤ c ∧ c ≤ high := by
  simp only [range, CharRange.ofBounds?]
  split
  · next r eq =>
    split at eq
    · cases eq
      simp only [mem_ofSeparated, List.mem_singleton, exists_eq_left]
      exact Iff.rfl
    · cases eq
  · next eq =>
    split at eq
    · cases eq
    · next unordered =>
      simp only [not_mem_empty, false_iff, not_and]
      exact fun hl hh => unordered (Char.le_trans hl hh)

@[simp] theorem mem_ofRanges {ranges : List CharRange} : c ∈ ofRanges ranges ↔ ∃ r ∈ ranges, c ∈ r := by
  rw [ofRanges, mem_ofSeparated, exists_mem_normalise]

@[simp] theorem mem_complement : c ∈ s.complement ↔ c ∉ s := by
  simp only [complement, mem_ofSeparated, exists_mem_gaps s.separated (fun _ _ => Nat.zero_le _),
    Nat.zero_le, true_and]
  exact Iff.rfl

@[simp] theorem mem_union : c ∈ s.union t ↔ c ∈ s ∨ c ∈ t := by
  simp only [union, mem_ofRanges, List.mem_append, or_and_right, exists_or]
  exact Iff.rfl

@[simp] theorem mem_inter : c ∈ s.inter t ↔ c ∈ s ∧ c ∈ t := by
  simp [inter]

@[simp] theorem mem_diff : c ∈ s.diff t ↔ c ∈ s ∧ c ∉ t := by
  simp [diff]

@[simp] theorem mem_ofList {chars : List Char} : c ∈ ofList chars ↔ c ∈ chars := by
  have one : ∀ d, c ∈ CharRange.singleton d ↔ c = d := fun d => by
    rw [← mem_singleton]
    simp only [singleton, mem_ofSeparated, List.mem_singleton, exists_eq_left]
  rw [ofList, mem_ofRanges]
  constructor
  · rintro ⟨r, hr, member⟩
    obtain ⟨d, hd, rfl⟩ := List.mem_map.1 hr
    exact (one d).1 member ▸ hd
  · intro member
    exact ⟨.singleton c, List.mem_map_of_mem member, (one c).2 rfl⟩

/-! ## Bisection -/

/-- Of two ranges of a set, the one with the lower index ends before the other begins. -/
theorem before_of_index_lt {ranges : Array CharRange} (ordered : Separated ranges.toList) {i j : Nat}
    (hi : i < ranges.size) (hj : j < ranges.size) (hij : i < j) : ranges[i].Before ranges[j] := by
  have := List.pairwise_iff_getElem.1 ordered i j (by simpa using hi) (by simpa using hj) hij
  simpa using this

theorem bisect_eq_true_iff {ranges : Array CharRange} (ordered : Separated ranges.toList)
    {low high : Nat} (bound : high ≤ ranges.size) :
    bisect ranges c low high = true ↔
      ∃ i, ∃ h : i < ranges.size, low ≤ i ∧ i < high ∧ c ∈ ranges[i] := by
  fun_induction bisect ranges c low high with
  | case1 low high h middle r above ih =>
    rw [ih bound]
    refine ⟨fun ⟨i, hi, _, _, member⟩ => ⟨i, hi, by omega, by omega, member⟩,
      fun ⟨i, hi, _, _, member⟩ => ⟨i, hi, Nat.lt_of_not_le fun early => ?_, by omega, member⟩⟩
    -- a range at the middle or before it ends too early
    rw [CharRange.mem_iff] at member
    have above : r.high.ordinal.val < c.ordinal.val := Char.lt_iff_ordinal_lt.1 above
    rcases Nat.lt_or_eq_of_le early with early | rfl
    · have before : ranges[i].Before r := before_of_index_lt ordered hi (by omega) early
      have := r.ordinal_le
      simp only [CharRange.Before] at before
      omega
    · exact absurd member.2 (Nat.not_le.2 above)
  | case2 low high h middle r above below ih =>
    rw [ih (by omega)]
    refine ⟨fun ⟨i, hi, _, _, member⟩ => ⟨i, hi, by omega, by omega, member⟩,
      fun ⟨i, hi, _, _, member⟩ => ⟨i, hi, by omega, Nat.lt_of_not_le fun late => ?_, member⟩⟩
    -- a range at the middle or after it begins too late
    rw [CharRange.mem_iff] at member
    have below : c.ordinal.val < r.low.ordinal.val := Char.lt_iff_ordinal_lt.1 below
    rcases Nat.lt_or_eq_of_le late with late | rfl
    · have before : r.Before ranges[i] := before_of_index_lt ordered (by omega) hi late
      have := r.ordinal_le
      simp only [CharRange.Before] at before
      omega
    · exact absurd member.1 (Nat.not_le.2 below)
  | case3 low high h middle r above below =>
    simp only [true_iff]
    exact ⟨middle, by omega, by omega, by omega, Char.not_lt.1 below, Char.not_lt.1 above⟩
  | case4 low high h =>
    simp only [Bool.false_eq_true, false_iff]
    rintro ⟨i, _, _, _, _⟩
    omega

theorem contains_iff_mem : s.contains c = true ↔ c ∈ s := by
  rw [contains, bisect_eq_true_iff s.separated (Nat.le_refl _)]
  constructor
  · rintro ⟨i, hi, _, _, member⟩
    exact ⟨s.ranges[i], by simp, member⟩
  · rintro ⟨r, hr, member⟩
    obtain ⟨i, hi, rfl⟩ := List.getElem_of_mem hr
    exact ⟨i, by simpa using hi, Nat.zero_le i, by simpa using hi, by simpa using member⟩

instance : Decidable (c ∈ s) := decidable_of_iff _ contains_iff_mem

end CharSet

end LexSpec
