import Mathlib.Algebra.Group.Nat.Defs
import Mathlib.Data.List.Basic
import LexSpec.Position

/-! # Counting

The place behind a text counts its characters and its newlines (`offset_foldl_next`, `line_foldl_next`),
and behind a newline the columns begin anew. So the places in what follows whole lines are the places that
it has by itself, shifted by those lines: `Position.shift`.

`Position.advanceOver` gives the place behind a text where the counters reach (`advanceOver_eq_ok_iff`). They
reach over a text of fewer than 2²⁸ characters, and over as many others behind it that are no tabs
(`exists_advanceOver_of_small`). Positions in a text are ordered as their offsets are (`le_of_advanceOver`).
-/

namespace LexSpec.Position

/-- A place in a text, when the text stands behind whole lines. -/
def shift (text : List Char) (p : Position) : Position :=
  ⟨p.offset + text.length, p.line + text.count '\n', p.column⟩

theorem offset_next (p : Position) (c : Char) : (p.next c).offset = p.offset + 1 := by
  unfold next
  split
  · rfl
  · split <;> rfl

theorem line_next (p : Position) (c : Char) : (p.next c).line = p.line + [c].count '\n' := by
  unfold next
  split
  next tab => simp [tab]
  next =>
    split
    next newline => simp [newline]
    next other => simp [other]

/-- A step goes no further than a tab stop, unless the line ends. -/
theorem column_next_le (p : Position) (c : Char) : (p.next c).column ≤ p.column + tabStop := by
  unfold next tabStop
  split
  · dsimp only
    omega
  · split
    · dsimp only
      omega
    · dsimp only
      omega

theorem next_shift (text : List Char) (p : Position) (c : Char) :
    (shift text p).next c = shift text (p.next c) := by
  unfold next shift
  split
  · simp only [Nat.add_right_comm]
  · split
    · simp only [Nat.add_right_comm]
    · simp only [Nat.add_right_comm]

theorem offset_foldl_next (p : Position) (text : List Char) :
    (text.foldl next p).offset = p.offset + text.length := by
  induction text generalizing p with
  | nil => rfl
  | cons c text ih =>
    rw [List.foldl_cons, ih, offset_next, List.length_cons]
    omega

theorem line_foldl_next (p : Position) (text : List Char) :
    (text.foldl next p).line = p.line + text.count '\n' := by
  induction text generalizing p with
  | nil => rfl
  | cons c text ih =>
    have counts : (c :: text).count '\n' = [c].count '\n' + text.count '\n' := by
      rw [← List.count_append, List.singleton_append]
    rw [List.foldl_cons, ih, line_next, counts, Nat.add_assoc]

/-- The place behind whole lines. -/
theorem foldl_next_start {text : List Char} (whole : text = [] ∨ text.getLast? = some '\n') :
    text.foldl next start = shift text start := by
  -- a newline resets the column, so it does not depend on the line before it
  have column : (text.foldl next start).column = start.column := by
    rcases whole with rfl | newline
    · rfl
    · obtain ⟨front, rfl⟩ := List.getLast?_eq_some_iff.1 newline
      rw [List.foldl_append]
      rfl
  have offset := offset_foldl_next start text
  have line := line_foldl_next start text
  cases behind : text.foldl next start with
  | mk a b c =>
    rw [behind] at offset line column
    cases offset
    cases line
    cases column
    rfl

/-- Where the counters reach over `n` characters, both with the text before them and without. -/
structure Room (text : List Char) (p : Position) (n : Nat) : Prop where
  offset : p.offset + text.length + n < UInt64.size
  line : p.line + text.count '\n' + n < UInt32.size
  column : p.column + tabStop * n < UInt32.size

namespace Room

variable {text : List Char} {p : Position} {n : Nat}

theorem fits (room : Room text p (n + 1)) (c : Char) : p.Fits c := by
  obtain ⟨offset, line, column⟩ := room
  refine ⟨by omega, ?_⟩
  unfold tabStop at *
  split
  · omega
  · split <;> omega

theorem fits_shift (room : Room text p (n + 1)) (c : Char) : (shift text p).Fits c := by
  obtain ⟨offset, line, column⟩ := room
  refine ⟨by simp only [shift]; omega, ?_⟩
  unfold tabStop at *
  simp only [shift]
  split
  · omega
  · split <;> omega

theorem next (room : Room text p (n + 1)) (c : Char) : Room text (p.next c) n := by
  obtain ⟨offset, line, column⟩ := room
  have newlines : [c].count '\n' ≤ 1 := List.count_le_length
  have width := column_next_le p c
  refine ⟨?_, ?_, ?_⟩
  · rw [offset_next]
    omega
  · rw [line_next]
    omega
  · unfold tabStop at *
    omega

end Room

/-- The counters reach over any two texts of that size, even if all characters are tabs. -/
theorem room_start {front text : List Char} (small : front.length + text.length < 2 ^ 28) :
    Room front start text.length := by
  have lines : front.count '\n' ≤ front.length := List.count_le_length
  have wide : UInt64.size = 2 ^ 64 := rfl
  have narrow : UInt32.size = 2 ^ 32 := rfl
  refine ⟨?_, ?_, ?_⟩
  · simp only [start, wide]
    omega
  · simp only [start, narrow]
    omega
  · simp only [start, tabStop, narrow]
    omega

/-! ## Counting that stays in bounds -/

theorem advanceOver_cons_eq_ok_iff {p q : Position} {c : Char} {text : List Char} :
    p.advanceOver (c :: text) = .ok q ↔ p.Fits c ∧ (p.next c).advanceOver text = .ok q := by
  rw [advanceOver, List.foldlM_cons, advance]
  split
  next fits => exact (and_iff_right fits).symm
  next unfit =>
    constructor
    · intro broken
      cases broken
    · exact fun fits => absurd fits.1 unfit

theorem advanceOver_append_eq_ok_iff {p q : Position} {text more : List Char} :
    p.advanceOver (text ++ more) = .ok q ↔
      ∃ middle, p.advanceOver text = .ok middle ∧ middle.advanceOver more = .ok q := by
  induction text generalizing p with
  | nil => exact ⟨fun whole => ⟨p, rfl, whole⟩, fun ⟨_, nothing, rest⟩ => by cases nothing; exact rest⟩
  | cons c text ih =>
    simp only [List.cons_append, advanceOver_cons_eq_ok_iff, ih]
    exact ⟨fun ⟨fits, middle, first, rest⟩ => ⟨middle, ⟨fits, first⟩, rest⟩,
      fun ⟨middle, ⟨fits, first⟩, rest⟩ => ⟨fits, middle, first, rest⟩⟩

/-- Where the counters reach, the place behind a text is that of plain counting. -/
theorem eq_foldl_next_of_advanceOver {p q : Position} {text : List Char}
    (reaches : p.advanceOver text = .ok q) : q = text.foldl next p := by
  induction text generalizing p with
  | nil =>
    cases reaches
    rfl
  | cons c text ih => exact ih (advanceOver_cons_eq_ok_iff.1 reaches).2

theorem Room.exists_advanceOver {text : List Char} {p : Position} (room : Room [] p text.length) :
    ∃ q, p.advanceOver text = .ok q := by
  induction text generalizing p with
  | nil => exact ⟨p, rfl⟩
  | cons c text ih =>
    obtain ⟨q, rest⟩ := ih (room.next c)
    exact ⟨q, advanceOver_cons_eq_ok_iff.2 ⟨room.fits c, rest⟩⟩

/-- A text without tabs needs one column for each character. -/
theorem exists_advanceOver_of_no_tab {text : List Char} {p : Position} (noTab : '\t' ∉ text)
    (offset : p.offset + text.length < UInt64.size) (line : p.line + text.length < UInt32.size)
    (column : p.column + text.length < UInt32.size) : ∃ q, p.advanceOver text = .ok q := by
  induction text generalizing p with
  | nil => exact ⟨p, rfl⟩
  | cons c text ih =>
    obtain ⟨other, noTab⟩ : '\t' ≠ c ∧ '\t' ∉ text := by simpa using noTab
    simp only [List.length_cons] at offset line column
    have fits : p.Fits c := by
      refine ⟨by omega, ?_⟩
      rw [if_neg other.symm]
      split <;> omega
    have newlines : [c].count '\n' ≤ 1 := List.count_le_length
    have width : (p.next c).column ≤ p.column + 1 := by
      unfold next
      rw [if_neg other.symm]
      split
      · exact Nat.le_add_left 1 _
      · exact Nat.le_refl _
    have place := offset_next p c
    have lines := line_next p c
    obtain ⟨q, rest⟩ := @ih (p.next c) noTab (by omega) (by omega) (by omega)
    exact ⟨q, advanceOver_cons_eq_ok_iff.2 ⟨fits, rest⟩⟩

theorem column_foldl_next_le (p : Position) (text : List Char) :
    (text.foldl next p).column ≤ p.column + tabStop * text.length := by
  induction text generalizing p with
  | nil => exact Nat.le_refl _
  | cons c text ih =>
    have rest := ih (p.next c)
    have first := column_next_le p c
    rw [List.foldl_cons, List.length_cons, Nat.mul_succ]
    omega

/-- Behind a text of fewer than 2²⁸ characters, the counters reach over any text that is not much longer
    and has no tabs. -/
theorem exists_advanceOver_of_small {text more : List Char} (small : text.length < 2 ^ 28)
    (short : more.length < 2 ^ 30) (noTab : '\t' ∉ more) :
    ∃ q, start.advanceOver (text ++ more) = .ok q := by
  have room : Room [] start text.length := room_start (by simpa using small)
  obtain ⟨middle, first⟩ := room.exists_advanceOver
  have place := eq_foldl_next_of_advanceOver first
  have wide : UInt64.size = 2 ^ 64 := rfl
  have narrow : UInt32.size = 2 ^ 32 := rfl
  have offset : middle.offset = text.length := by
    rw [place, offset_foldl_next]
    exact Nat.zero_add _
  have line : middle.line ≤ 1 + text.length := by
    rw [place, line_foldl_next]
    exact Nat.add_le_add_left List.count_le_length _
  have column : middle.column ≤ 1 + 8 * text.length := by
    rw [place]
    exact column_foldl_next_le start text
  obtain ⟨q, rest⟩ : ∃ q, middle.advanceOver more = .ok q :=
    exists_advanceOver_of_no_tab noTab (by omega) (by omega) (by omega)
  exact ⟨q, advanceOver_append_eq_ok_iff.2 ⟨middle, first, rest⟩⟩

/-! ## The order of positions -/

theorem lt_iff {p q : Position} : p < q ↔ p.offset < q.offset ∨
    p.offset = q.offset ∧ (p.line < q.line ∨ p.line = q.line ∧ p.column < q.column) := by
  change compare p q = .lt ↔ _
  simp only [compare, Ordering.then_eq_lt, Nat.compare_eq_lt, Nat.compare_eq_eq]

theorem lt_of_offset_lt {p q : Position} (before : p.offset < q.offset) : p < q := lt_iff.2 (.inl before)

theorem lt_trans {p q r : Position} (first : p < q) (second : q < r) : p < r := by
  rw [lt_iff] at *
  omega

theorem le_refl (p : Position) : p ≤ p := by
  change (compare p p).isLE
  simp [compare]

theorem le_of_lt {p q : Position} (before : p < q) : p ≤ q := by
  change compare p q = .lt at before
  change (compare p q).isLE
  rw [before]
  rfl

theorem offset_of_advanceOver {text : List Char} {p : Position} (reaches : start.advanceOver text = .ok p) :
    p.offset = text.length := by
  rw [eq_foldl_next_of_advanceOver reaches, offset_foldl_next]
  exact Nat.zero_add _

/-- The place behind a part of a text does not come after the place behind the whole. -/
theorem le_of_advanceOver {front back : List Char} {p q : Position} (part : start.advanceOver front = .ok p)
    (whole : start.advanceOver (front ++ back) = .ok q) : p ≤ q := by
  cases back with
  | nil =>
    rw [List.append_nil, part] at whole
    cases whole
    exact le_refl p
  | cons c back =>
    have first := offset_of_advanceOver part
    have second := offset_of_advanceOver whole
    rw [List.length_append, List.length_cons] at second
    exact le_of_lt (lt_of_offset_lt (by omega))

end LexSpec.Position
