import LexSpec.CharSet.Basic

/-! # Regular expressions

Expressions over characters: the empty text, one character of a set, sequences, alternatives and the
three postfix operators. Lists of items are joined to the left.
-/

namespace LexSpec

/-- A regular expression over characters. -/
inductive Regex where
  | empty
  | chars (set : CharSet)
  | seq (left right : Regex)
  | alt (left right : Regex)
  | star (inner : Regex)
  | plus (inner : Regex)
  | optional (inner : Regex)
deriving DecidableEq

namespace Regex

instance : Inhabited Regex := ⟨empty⟩

def char (c : Char) : Regex := chars (.singleton c)

/-- The items of a list in a row, joined to the left. No items are the empty text. -/
def concat : List Regex → Regex
  | [] => empty
  | first :: rest => rest.foldl seq first

/-- A text taken literally, one item for each character. -/
def ofString (text : String) : Regex := concat (text.toList.map char)

/-- Whether the expression matches the empty text. -/
def nullable : Regex → Bool
  | empty => true
  | chars _ => false
  | seq left right => left.nullable && right.nullable
  | alt left right => left.nullable || right.nullable
  | star _ => true
  | plus inner => inner.nullable
  | optional _ => true

/-- Whether the expression is the empty text itself, and not one that happens to match it. -/
def isEmpty : Regex → Bool
  | empty => true
  | _ => false

theorem isEmpty_iff {r : Regex} : r.isEmpty = true ↔ r = .empty := by
  cases r <;> simp [isEmpty]

def isSeq : Regex → Bool
  | seq _ _ => true
  | _ => false

end Regex

end LexSpec
