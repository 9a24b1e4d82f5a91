import Mathlib.Data.List.DropRight
import LexSpec.Proofs.Position

/-! # Counting in words

`Position.advance` says once, by `Position.Fits`, how far the counters reach. `Counters` are the counters
themselves, one word of 64 bits and two of 32, and `Counters.advance?` counts with them one operation after the
other, where no sum, difference or product may leave its word. The two agree (`exists_advanceOver?_iff`), so
wherever `advance` gives a place, nothing on the way to it overflows.

Behind a text, the column is bounded by the length of the last line (`column_foldl_next_start_le`). A tab needs more
room than it takes, but over tabs alone the counters still reach as far as 32 bits allow
(`advanceOver_replicate_tab_iff`).
-/

namespace LexSpec.Position

/-! ## Checked operations -/

section Words

variable {width : Nat}

/-- The word for a number, if it has one. -/
def word? (width n : Nat) : Option (BitVec width) := if n < 2 ^ width then some (BitVec.ofNat width n) else none

def sum? (a b : BitVec width) : Option (BitVec width) := word? width (a.toNat + b.toNat)

def difference? (a b : BitVec width) : Option (BitVec width) :=
  if b ≤ a then word? width (a.toNat - b.toNat) else none

def product? (a b : BitVec width) : Option (BitVec width) := word? width (a.toNat * b.toNat)

theorem exists_word {n : Nat} (small : n < 2 ^ width) : ∃ word : BitVec width, word.toNat = n := by
  refine ⟨BitVec.ofNat width n, ?_⟩
  rw [BitVec.toNat_ofNat, Nat.mod_eq_of_lt small]

theorem word?_eq_some_iff {n : Nat} {word : BitVec width} : word? width n = some word ↔ word.toNat = n := by
  unfold word?
  constructor
  · intro made
    split at made
    next small =>
      cases made
      rw [BitVec.toNat_ofNat, Nat.mod_eq_of_lt small]
    next => cases made
  · rintro rfl
    simp [word.isLt]

theorem sum?_eq_some_iff {a b c : BitVec width} : sum? a b = some c ↔ c.toNat = a.toNat + b.toNat :=
  word?_eq_some_iff

theorem product?_eq_some_iff {a b c : BitVec width} : product? a b = some c ↔ c.toNat = a.toNat * b.toNat :=
  word?_eq_some_iff

theorem difference?_eq_some_iff {a b c : BitVec width} : difference? a b = some c ↔ c.toNat + b.toNat = a.toNat := by
  unfold difference?
  split
  next enough =>
    rw [BitVec.le_def] at enough
    rw [word?_eq_some_iff]
    omega
  next less =>
    rw [BitVec.le_def] at less
    simp only [reduceCtorEq, false_iff]
    omega

end Words

/-! ## The column behind a tab -/

/-- The column behind a tab, one operation after the other. -/
def tabbed? (column : BitVec 32) : Option (BitVec 32) := do
  let sum ← sum? column 8
  let before ← difference? sum 1
  let stop ← product? (before / 8) 8
  sum? stop 1

/-- Only the first sum can overflow, since what follows it is no larger. -/
theorem tabbed?_eq_some_iff {column tabbed : BitVec 32} : tabbed? column = some tabbed ↔
    column.toNat + tabStop < UInt32.size ∧
      tabbed.toNat = (column.toNat + tabStop - 1) / tabStop * tabStop + 1 := by
  unfold tabbed? tabStop
  simp only [Option.bind_eq_bind, Option.bind_eq_some_iff, sum?_eq_some_iff, difference?_eq_some_iff,
    product?_eq_some_iff, BitVec.toNat_udiv, BitVec.reduceToNat]
  constructor
  · rintro ⟨sum, counted, before, less, stop, rounded, last⟩
    have bound : sum.toNat < UInt32.size := sum.isLt
    omega
  · rintro ⟨fits, last⟩
    obtain ⟨sum, counted⟩ := @exists_word 32 (column.toNat + 8) fits
    obtain ⟨before, less⟩ := @exists_word 32 (column.toNat + 7) (by omega)
    obtain ⟨stop, rounded⟩ := @exists_word 32 ((column.toNat + 7) / 8 * 8) (by omega)
    exact ⟨sum, counted, before, by omega, stop, by omega, by omega⟩

/-! ## The counters -/

/-- A position as it is kept. -/
@[ext] structure Counters where
  offset : BitVec 64
  line : BitVec 32
  column : BitVec 32
deriving DecidableEq, Repr

namespace Counters

def start : Counters := ⟨0, 1, 1⟩

/-- The position that the counters show. -/
def position (counters : Counters) : Position :=
  ⟨counters.offset.toNat, counters.line.toNat, counters.column.toNat⟩

/-- Counts a character, one operation after the other. -/
def advance? (counters : Counters) (c : Char) : Option Counters := do
  let offset ← sum? counters.offset 1
  if c = '\t' then
    let column ← tabbed? counters.column
    return { counters with offset, column }
  else if c = '\n' then
    let line ← sum? counters.line 1
    return ⟨offset, line, 1⟩
  else
    let column ← sum? counters.column 1
    return { counters with offset, column }

/-- Counts the characters of a text. -/
def advanceOver? (counters : Counters) (text : List Char) : Option Counters := text.foldlM advance? counters

variable {counters counted : Counters} {c : Char} {text : List Char}

theorem eq_iff_toNat_eq : counters = counted ↔ counters.offset.toNat = counted.offset.toNat ∧
    counters.line.toNat = counted.line.toNat ∧ counters.column.toNat = counted.column.toNat := by
  simp only [BitVec.toNat_inj, Counters.ext_iff]

/-- Counting in words goes on exactly where `Fits` says so, to the place of plain counting. -/
theorem advance?_eq_some_iff : counters.advance? c = some counted ↔
    counters.position.Fits c ∧ counted.position = counters.position.next c := by
  -- what `Fits` asks of a sum is that it has a word, and the counters behind the step are words
  have offsetBound : counted.offset.toNat < UInt64.size := counted.offset.isLt
  have lineBound : counted.line.toNat < UInt32.size := counted.line.isLt
  have columnBound : counted.column.toNat < UInt32.size := counted.column.isLt
  unfold advance? Fits Position.next
  split
  next tab =>
    simp only [Option.bind_eq_bind, Option.bind_eq_some_iff, Option.pure_def, Option.some.injEq, sum?_eq_some_iff,
      tabbed?_eq_some_iff, eq_iff_toNat_eq, position, Position.mk.injEq, BitVec.reduceToNat]
    constructor
    · rintro ⟨sum, offset, tabbed, ⟨fits, column⟩, same⟩
      omega
    · rintro ⟨⟨-, fits⟩, offset, line, column⟩
      exact ⟨counted.offset, offset, counted.column, ⟨fits, column⟩, rfl, line.symm, rfl⟩
  next =>
    split
    next newline =>
      simp only [Option.bind_eq_bind, Option.bind_eq_some_iff, Option.pure_def, Option.some.injEq, sum?_eq_some_iff,
        eq_iff_toNat_eq, position, Position.mk.injEq, BitVec.reduceToNat]
      constructor
      · rintro ⟨sum, offset, next, line, same⟩
        omega
      · rintro ⟨-, offset, line, column⟩
        exact ⟨counted.offset, offset, counted.line, line, rfl, rfl, column.symm⟩
    next other =>
      simp only [Option.bind_eq_bind, Option.bind_eq_some_iff, Option.pure_def, Option.some.injEq, sum?_eq_some_iff,
        eq_iff_toNat_eq, position, Position.mk.injEq, BitVec.reduceToNat]
      constructor
      · rintro ⟨sum, offset, next, column, same⟩
        omega
      · rintro ⟨-, offset, line, column⟩
        exact ⟨counted.offset, offset, counted.column, column, rfl, line.symm, rfl⟩

/-- The place behind a character that fits can be shown. -/
theorem exists_position_eq_next (fits : counters.position.Fits c) :
    ∃ counted : Counters, counted.position = counters.position.next c := by
  obtain ⟨offset, rest⟩ := fits
  have wide : UInt64.size = 2 ^ 64 := rfl
  have narrow : UInt32.size = 2 ^ 32 := rfl
  have line : counters.position.line < UInt32.size := counters.line.isLt
  have column : counters.position.column < UInt32.size := counters.column.isLt
  have bounds : (counters.position.next c).offset < 2 ^ 64 ∧ (counters.position.next c).line < 2 ^ 32 ∧
      (counters.position.next c).column < 2 ^ 32 := by
    unfold Position.next tabStop at *
    split
    next tab =>
      rw [if_pos tab] at rest
      dsimp only
      omega
    next other =>
      rw [if_neg other] at rest
      split
      next newline =>
        rw [if_pos newline] at rest
        dsimp only
        omega
      next other =>
        rw [if_neg other] at rest
        dsimp only
        omega
  obtain ⟨offset, offsetEq⟩ := exists_word bounds.1
  obtain ⟨line, lineEq⟩ := exists_word bounds.2.1
  obtain ⟨column, columnEq⟩ := exists_word bounds.2.2
  refine ⟨⟨offset, line, column⟩, ?_⟩
  rw [position, offsetEq, lineEq, columnEq]

/-- A text is counted in words exactly where it is counted in bounds, and to the same place. -/
theorem exists_advanceOver?_iff {place : Position} :
    (∃ counted, counters.advanceOver? text = some counted ∧ counted.position = place) ↔
      counters.position.advanceOver text = .ok place := by
  induction text generalizing counters with
  | nil =>
    constructor
    · rintro ⟨counted, nothing, shown⟩
      cases nothing
      rw [← shown]
      rfl
    · intro nothing
      cases nothing
      exact ⟨counters, rfl, rfl⟩
  | cons c text ih =>
    rw [advanceOver?, List.foldlM_cons, advanceOver_cons_eq_ok_iff]
    constructor
    · rintro ⟨counted, run, shown⟩
      obtain ⟨next, step, rest⟩ := Option.bind_eq_some_iff.1 run
      obtain ⟨fits, behind⟩ := advance?_eq_some_iff.1 step
      rw [← behind]
      exact ⟨fits, ih.1 ⟨counted, rest, shown⟩⟩
    · rintro ⟨fits, rest⟩
      obtain ⟨next, behind⟩ := exists_position_eq_next fits
      rw [← behind] at rest
      obtain ⟨counted, run, shown⟩ := ih.2 rest
      exact ⟨counted, Option.bind_eq_some_iff.2 ⟨next, advance?_eq_some_iff.2 ⟨fits, behind⟩, run⟩, shown⟩

end Counters

/-! ## The column -/

theorem one_le_column_foldl_next_start (text : List Char) : 1 ≤ (text.foldl next start).column := by
  rcases text.eq_nil_or_concat' with rfl | ⟨front, c, rfl⟩
  · exact Nat.le_refl 1
  · rw [List.foldl_concat]
    unfold next
    split
    · exact Nat.le_add_left 1 _
    · split
      · exact Nat.le_refl 1
      · exact Nat.le_add_left 1 _

/-- Behind a text the column is bounded by what stands in its last line, even if that is all tabs. -/
theorem column_foldl_next_start_le (text : List Char) :
    (text.foldl next start).column ≤ tabStop * (text.rtakeWhile (· ≠ '\n')).length + 1 := by
  -- from the end, where the last line grows or begins anew
  induction text using List.reverseRecOn with
  | nil => exact Nat.le_refl 1
  | append_singleton text c ih =>
    rw [List.foldl_concat, List.rtakeWhile_concat]
    split
    next other =>
      have step := column_next_le (text.foldl next start) c
      rw [List.length_append, List.length_singleton, Nat.mul_succ]
      omega
    next newline =>
      obtain rfl : c = '\n' := by simpa using newline
      exact Nat.le_refl 1

/-- Behind a tab the column is one behind a tab stop. -/
theorem column_next_tab (p : Position) : (p.next '\t').column % tabStop = 1 := by
  rw [next, if_pos rfl]
  unfold tabStop
  dsimp only
  omega

theorem foldl_next_replicate_tab (n : Nat) :
    (List.replicate n '\t').foldl next start = ⟨n, 1, tabStop * n + 1⟩ := by
  induction n with
  | zero => rfl
  | succ n ih =>
    rw [List.replicate_succ', List.foldl_concat, ih, next, if_pos rfl]
    simp only [tabStop, Position.mk.injEq, true_and]
    omega

/-! ## Texts that can be counted -/

/-- Tabs alone are counted as long as the column behind them has a word. -/
theorem advanceOver_replicate_tab_iff {n : Nat} :
    (∃ place, start.advanceOver (List.replicate n '\t') = .ok place) ↔ tabStop * n + 1 < UInt32.size := by
  have wide : UInt64.size = 2 ^ 64 := rfl
  have narrow : UInt32.size = 2 ^ 32 := rfl
  constructor
  · rintro ⟨place, reaches⟩
    cases n with
    | zero => decide
    | succ n =>
      -- the last tab has to fit behind the others
      rw [List.replicate_succ'] at reaches
      obtain ⟨middle, others, last⟩ := advanceOver_append_eq_ok_iff.1 reaches
      obtain ⟨⟨-, fits⟩, -⟩ := advanceOver_cons_eq_ok_iff.1 last
      rw [if_pos rfl, eq_foldl_next_of_advanceOver others, foldl_next_replicate_tab] at fits
      unfold tabStop at *
      dsimp only at fits
      omega
  · intro narrowEnough
    refine @Room.exists_advanceOver (List.replicate n '\t') start ⟨?_, ?_, ?_⟩
    all_goals
      unfold tabStop at *
      simp only [start, List.length_nil, List.count_nil, List.length_replicate]
      omega

/-- A text of fewer than 2²⁹ - 1 characters is counted without any overflow: offset and line count its characters
    and its newlines, and the column stays within the tab stops of its last line. -/
theorem exists_counters_of_short {text : List Char} (short : text.length < 2 ^ 29 - 1) :
    ∃ counters : Counters, Counters.start.advanceOver? text = some counters ∧
      start.advanceOver text = .ok counters.position ∧
      counters.position.offset = text.length ∧
      counters.position.line = 1 + text.count '\n' ∧
      1 ≤ counters.position.column ∧
      counters.position.column ≤ 8 * (text.rtakeWhile (· ≠ '\n')).length + 1 ∧
      (text.getLast? = some '\t' → counters.position.column % 8 = 1) := by
  have wide : UInt64.size = 2 ^ 64 := rfl
  have narrow : UInt32.size = 2 ^ 32 := rfl
  have room : Room [] start text.length := by
    refine ⟨?_, ?_, ?_⟩
    all_goals
      simp only [start, List.length_nil, List.count_nil, tabStop]
      omega
  obtain ⟨place, reaches⟩ := room.exists_advanceOver
  obtain ⟨counters, run, rfl⟩ := (@Counters.exists_advanceOver?_iff .start text place).2 reaches
  have shown := eq_foldl_next_of_advanceOver reaches
  refine ⟨counters, run, reaches, offset_of_advanceOver reaches, ?_, ?_, ?_, ?_⟩
  · rw [shown, line_foldl_next]
    rfl
  · rw [shown]
    exact one_le_column_foldl_next_start text
  · rw [shown]
    exact column_foldl_next_start_le text
  · intro tab
    obtain ⟨front, rfl⟩ := List.getLast?_eq_some_iff.1 tab
    rw [shown, List.foldl_concat]
    exact column_next_tab _

/-- The third tab stands in the second line, so the column behind it is that of the first tab stop. -/
theorem exists_counters_of_short_two_lines :
    "a\tb\t\n\t".toList.length < 2 ^ 29 - 1 ∧ "a\tb\t\n\t".toList.getLast? = some '\t' ∧
      ∃ counters : Counters, Counters.start.advanceOver? "a\tb\t\n\t".toList = some counters ∧
        start.advanceOver "a\tb\t\n\t".toList = .ok counters.position ∧
        counters.position.offset = "a\tb\t\n\t".toList.length ∧
        counters.position.line = 1 + "a\tb\t\n\t".toList.count '\n' ∧
        1 ≤ counters.position.column ∧
        counters.position.column ≤ 8 * ("a\tb\t\n\t".toList.rtakeWhile (· ≠ '\n')).length + 1 ∧
        ("a\tb\t\n\t".toList.getLast? = some '\t' → counters.position.column % 8 = 1) :=
  have short : "a\tb\t\n\t".toList.length < 2 ^ 29 - 1 := by decide
  ⟨short, by decide, exists_counters_of_short short⟩

end LexSpec.Position
