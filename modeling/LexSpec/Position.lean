import LexSpec.Fault

/-! # Positions in a text

A position counts what lies before it: characters, lines and columns. `Position.next` is the plain
rule of counting, with tab stops every eight columns. The counters have a width, 64 bits for the
offset and 32 bits for line and column, so `Position.advance` refuses a step whose sums leave it.

Positions are ordered by offset, then line, then column.
-/

namespace LexSpec

/-- A place between two characters of a text. The offset is the number of characters before it; lines
    and columns are counted from one. -/
structure Position where
  offset : Nat
  line : Nat
  column : Nat
deriving DecidableEq, Repr

namespace Position

/-- The place before the first character. -/
def start : Position := ⟨0, 1, 1⟩

instance : Inhabited Position := ⟨start⟩

/-- The distance between tab stops. -/
def tabStop : Nat := 8

/-- The place behind a character: a tab leads to the next column of the form `8 * k + 1`, a newline to
    the first column of the next line, any other character to the next column. -/
def next (p : Position) (c : Char) : Position :=
  if c = '\t' then ⟨p.offset + 1, p.line, (p.column + tabStop - 1) / tabStop * tabStop + 1⟩
  else if c = '\n' then ⟨p.offset + 1, p.line + 1, 1⟩
  else ⟨p.offset + 1, p.line, p.column + 1⟩

/-- Every sum of the step over `c` stays below the width of its counter. A tab adds a whole tab stop to
    the column before it is rounded down, so tabs reach the limit first. -/
def Fits (p : Position) (c : Char) : Prop :=
  p.offset + 1 < UInt64.size ∧
    if c = '\t' then p.column + tabStop < UInt32.size
    else if c = '\n' then p.line + 1 < UInt32.size
    else p.column + 1 < UInt32.size

instance (p : Position) (c : Char) : Decidable (p.Fits c) :=
  inferInstanceAs (Decidable (_ ∧ _))

/-- The place behind a character, as far as the counters reach. -/
def advance (p : Position) (c : Char) : Except Fault Position :=
  if p.Fits c then .ok (p.next c) else .error .overflow

/-- The place behind a text. -/
def advanceOver (p : Position) (text : List Char) : Except Fault Position :=
  text.foldlM advance p

/-- Line and column, as they are shown. -/
def text (p : Position) : String :=
  toString p.line ++ ":" ++ toString p.column

/-- Orders positions by offset, then line, then column. -/
def compare (p q : Position) : Ordering :=
  (Ord.compare p.offset q.offset).then
    ((Ord.compare p.line q.line).then (Ord.compare p.column q.column))

instance : Ord Position := ⟨compare⟩

instance : LT Position := ltOfOrd

instance : LE Position := leOfOrd

end Position

end LexSpec
