/-! # Ranges of characters

A `CharRange` is a nonempty interval of characters, both ends included. Characters are compared by
their ordinal, their number among all characters. Ordinals leave no hole at the surrogates, so two
characters are neighbours exactly when their ordinals are.
-/

namespace LexSpec

/-- A nonempty interval of characters. -/
@[ext] structure CharRange where
  low : Char
  high : Char
  low_le_high : low ≤ high := by decide
deriving DecidableEq, Repr

namespace CharRange

/-- Membership: a character lies in a range when it lies between the ends. -/
instance : Membership Char CharRange where
  mem r c := r.low ≤ c ∧ c ≤ r.high

instance (c : Char) (r : CharRange) : Decidable (c ∈ r) :=
  inferInstanceAs (Decidable (r.low ≤ c ∧ c ≤ r.high))

/-- All characters. -/
def all : CharRange := ⟨'\x00', Char.ofNat 0x10FFFF, by decide⟩

/-- The range of one character. -/
def singleton (c : Char) : CharRange := ⟨c, c, Char.le_refl c⟩

/-- The range between two characters, if they are in order. -/
def ofBounds? (low high : Char) : Option CharRange :=
  if h : low ≤ high then some ⟨low, high, h⟩ else none

/-- The range between two ordinals. -/
def ofOrdinals (first last : Fin Char.numCodePoints) (h : first ≤ last) : CharRange :=
  ⟨.ofOrdinal first, .ofOrdinal last, Char.le_iff_ofOrdinal_le.1 h⟩

/-- The smallest range that covers two ranges. -/
def hull (r s : CharRange) : CharRange where
  low := if r.low ≤ s.low then r.low else s.low
  high := if r.high ≤ s.high then s.high else r.high
  low_le_high := by
    have hr := r.low_le_high
    have hs := s.low_le_high
    simp only [Char.le_iff_ordinal_le, Fin.le_def] at *
    split <;> split <;> omega

/-- One range ends before another begins and at least one character lies between them. -/
def Before (r s : CharRange) : Prop := r.high.ordinal.val + 1 < s.low.ordinal.val

instance (r s : CharRange) : Decidable (r.Before s) :=
  inferInstanceAs (Decidable (_ < _))

/-- The order in which ranges are sorted: by the first character, then by the last one. -/
def SortsBefore (r s : CharRange) : Prop := r.low < s.low ∨ r.low = s.low ∧ r.high ≤ s.high

instance (r s : CharRange) : Decidable (r.SortsBefore s) :=
  inferInstanceAs (Decidable (_ ∨ _))

theorem ordinal_le (r : CharRange) : r.low.ordinal.val ≤ r.high.ordinal.val :=
  Char.le_iff_ordinal_le.1 r.low_le_high

theorem SortsBefore.low_le {r s : CharRange} (sorts : r.SortsBefore s) :
    r.low.ordinal.val ≤ s.low.ordinal.val := by
  rcases sorts with less | ⟨same, -⟩
  · exact Nat.le_of_lt (Char.lt_iff_ordinal_lt.1 less)
  · exact Nat.le_of_eq (congrArg (·.ordinal.val) same)

theorem low_le_of_not_sortsBefore {r s : CharRange} (sorts : ¬r.SortsBefore s) :
    s.low.ordinal.val ≤ r.low.ordinal.val :=
  Char.le_iff_ordinal_le.1 (Char.not_lt.1 fun less => sorts (.inl less))

end CharRange

end LexSpec
