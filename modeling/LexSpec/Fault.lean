/-! # Faults

A fault is a use of the library that no text can excuse: a sum beyond the width of its counter, a
character read in the middle of another one, a scanner that stands still. It is kept apart from the
errors that a text can have.
-/

namespace LexSpec

/-- Why a computation broke off. -/
inductive Fault where
  /-- A character was asked for while bytes of the last one were still to be read. -/
  | pendingBytes (count : Nat)
  /-- A position does not fit its counters. -/
  | overflow
  /-- A scanner reported a find without having read anything. -/
  | stalled
deriving DecidableEq, Repr

/-- The text of a fault. -/
def Fault.message : Fault → String
  | .pendingBytes count =>
    "invariant violated: character read with " ++ toString count ++ " pending bytes"
  | .overflow => "attempt to add with overflow"
  | .stalled => "scanner made no progress"

end LexSpec
