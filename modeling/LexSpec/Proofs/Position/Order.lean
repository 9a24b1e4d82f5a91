import Mathlib.Data.Prod.Lex
import LexSpec.Proofs.Position

/-! # Line and column identify a place

Every character leads to a later column of the same line or to a later line, tabs and newlines included
(`lineColumn_lt_next`). So the places behind the prefixes of a text are ordered by line and column as the
prefixes are by length, and as the places are by offset: `order_of_prefixes`. Line and column can be read off the
text that is shown (`text_inj`), since the sign between them is no digit.
-/

namespace LexSpec.Position

variable {p q : Position}

/-- What is shown of a place, ordered by line and then by column. -/
def lineColumn (p : Position) : ℕ ×ₗ ℕ := toLex (p.line, p.column)

theorem lineColumn_lt_iff : p.lineColumn < q.lineColumn ↔ p.line < q.line ∨ p.line = q.line ∧ p.column < q.column :=
  Prod.Lex.toLex_lt_toLex

theorem lineColumn_inj : p.lineColumn = q.lineColumn ↔ p.line = q.line ∧ p.column = q.column :=
  toLex_inj.trans Prod.mk_inj

/-! ## A step and a run -/

theorem lineColumn_lt_next (p : Position) (c : Char) : p.lineColumn < (p.next c).lineColumn := by
  rw [lineColumn_lt_iff]
  unfold next tabStop
  split
  · -- a tab rounds the column up to a multiple of a tab stop and goes one further
    right
    constructor
    · rfl
    · dsimp only
      omega
  · split
    · left
      exact Nat.lt_succ_self p.line
    · right
      exact ⟨rfl, Nat.lt_succ_self p.column⟩

theorem lineColumn_lt_foldl_next (p : Position) {text : List Char} (nonempty : text ≠ []) :
    p.lineColumn < (text.foldl next p).lineColumn := by
  induction text generalizing p with
  | nil => exact absurd rfl nonempty
  | cons c text ih =>
    have first := lineColumn_lt_next p c
    by_cases last : text = []
    · rw [last]
      exact first
    · exact first.trans (ih (p.next c) last)

/-! ## Prefixes of one text -/

section Prefixes

variable {text front back : List Char}

/-- Of two prefixes, the longer one goes on behind the shorter one. -/
theorem lineColumn_lt_of_length_lt (first : front <+: text) (second : back <+: text)
    (shorter : front.length < back.length) :
    (front.foldl next start).lineColumn < (back.foldl next start).lineColumn := by
  obtain ⟨more, rfl⟩ := List.prefix_of_prefix_length_le first second shorter.le
  have nonempty : more ≠ [] := by
    rintro rfl
    simp at shorter
  rw [List.foldl_append]
  exact lineColumn_lt_foldl_next _ nonempty

theorem prefix_eq_iff_length_eq (first : front <+: text) (second : back <+: text) :
    front = back ↔ front.length = back.length := by
  constructor
  · intro same
    rw [same]
  · intro same
    exact (List.prefix_of_prefix_length_le first second same.le).eq_of_length same

theorem compare_lineColumn_eq (first : front <+: text) (second : back <+: text) :
    Ord.compare (front.foldl next start).lineColumn (back.foldl next start).lineColumn =
      Ord.compare front.length back.length := by
  rcases Nat.lt_trichotomy front.length back.length with shorter | same | longer
  · rw [compare_lt_iff_lt.2 shorter, compare_lt_iff_lt.2 (lineColumn_lt_of_length_lt first second shorter)]
  · rw [(prefix_eq_iff_length_eq first second).2 same, compare_eq_iff_eq.2 rfl, compare_eq_iff_eq.2 rfl]
  · rw [compare_gt_iff_gt.2 longer, compare_gt_iff_gt.2 (lineColumn_lt_of_length_lt second first longer)]

end Prefixes

theorem compare_eq_compare_offset (same : p.offset = q.offset → p = q) :
    compare p q = Ord.compare p.offset q.offset := by
  rcases Nat.lt_trichotomy p.offset q.offset with before | equal | behind
  · simp [compare, Nat.compare_eq_lt.2 before]
  · simp [same equal, compare]
  · simp [compare, Nat.compare_eq_gt.2 behind]

/-! ## What is shown -/

theorem toList_text (p : Position) : p.text.toList = Nat.toDigits 10 p.line ++ ':' :: Nat.toDigits 10 p.column := by
  simp [text]

theorem colon_not_mem_toDigits (n : Nat) : ':' ∉ Nat.toDigits 10 n := by
  intro member
  have digit : ':'.isDigit = true := Nat.isDigit_of_mem_toDigits (by decide) (by decide) member
  cases digit

theorem toDigits_ten_inj {m n : Nat} : Nat.toDigits 10 m = Nat.toDigits 10 n ↔ m = n := by
  constructor
  · intro same
    simpa using congrArg (Nat.ofDigitChars 10 · 0) same
  · intro same
    rw [same]

theorem text_inj : p.text = q.text ↔ p.lineColumn = q.lineColumn := by
  rw [← String.toList_inj, toList_text, toList_text,
    List.append_cons_inj_of_notMem (colon_not_mem_toDigits _) (colon_not_mem_toDigits _), toDigits_ten_inj,
    toDigits_ten_inj, lineColumn_inj]
  simp

/-! ## The three orders -/

/-- The places behind two prefixes of a text come in the order of the lengths of the prefixes, by offset as well
    as by line and column, and are shown alike only where they are the same. -/
theorem order_of_prefixes {text front back : List Char} (small : text.length < 2 ^ 28) (first : front <+: text)
    (second : back <+: text) :
    ∃ p q, start.advanceOver front = .ok p ∧ start.advanceOver back = .ok q ∧
      (front.length < back.length → p.lineColumn < q.lineColumn) ∧
      compare p q = Ord.compare front.length back.length ∧
      Ord.compare p.lineColumn q.lineColumn = Ord.compare front.length back.length ∧
      (p.text = q.text ↔ front = back) := by
  have reaches {part : List Char} (inside : part <+: text) :
      start.advanceOver part = .ok (part.foldl next start) := by
    have size : part.length < 2 ^ 28 := lt_of_le_of_lt inside.length_le small
    have room : Room [] start part.length := room_start (by simpa using size)
    obtain ⟨p, counted⟩ := room.exists_advanceOver
    rw [counted, eq_foldl_next_of_advanceOver counted]
  have lengths := prefix_eq_iff_length_eq first second
  have shown := compare_lineColumn_eq first second
  refine ⟨_, _, reaches first, reaches second, lineColumn_lt_of_length_lt first second, ?_, shown, ?_⟩
  · -- the offsets are the lengths, and prefixes of one length lead to one place
    rw [compare_eq_compare_offset]
    · rw [offset_of_advanceOver (reaches first), offset_of_advanceOver (reaches second)]
    · rw [offset_of_advanceOver (reaches first), offset_of_advanceOver (reaches second), ← lengths]
      intro same
      rw [same]
  · rw [text_inj, ← compare_eq_iff_eq, shown, compare_eq_iff_eq, lengths]

theorem order_behind_tab :
    let text := ['a', '\n', 'b', '\t', '\t', 'c']
    let front := ['a', '\n', 'b']
    let back := ['a', '\n', 'b', '\t']
    text.length < 2 ^ 28 ∧ front <+: text ∧ back <+: text ∧
      ∃ p q, start.advanceOver front = .ok p ∧ start.advanceOver back = .ok q ∧ p.lineColumn < q.lineColumn ∧
        compare p q = .lt ∧ p.text ≠ q.text ∧ p = ⟨3, 2, 2⟩ ∧ q = ⟨4, 2, 9⟩ := by
  intro text front back
  have small : text.length < 2 ^ 28 := by decide
  have first : front <+: text := ⟨['\t', '\t', 'c'], rfl⟩
  have second : back <+: text := ⟨['\t', 'c'], rfl⟩
  obtain ⟨p, q, reachesFront, reachesBack, before, offsets, -, shown⟩ := order_of_prefixes small first second
  refine ⟨small, first, second, p, q, reachesFront, reachesBack, before (by decide), offsets, ?_, ?_, ?_⟩
  · exact fun same => absurd (shown.1 same) (by decide)
  · exact eq_foldl_next_of_advanceOver reachesFront
  · exact eq_foldl_next_of_advanceOver reachesBack

end LexSpec.Position
