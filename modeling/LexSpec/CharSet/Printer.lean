import LexSpec.CharSet.Basic
import LexSpec.Text.Alphanumeric
import LexSpec.Text.Escape

/-! # The printed form of a character set

The set of all characters is printed as a dot and the set of a single alphanumeric character as that
character. Any other set is printed as its ranges in brackets, a range of one character as that
character and a longer one as its ends around a dash. Inside brackets unprintable characters, quotes
and backslashes are escaped.
-/

namespace LexSpec

/-- A character as it stands inside brackets. -/
def bracketed (c : Char) : List Char := escape ['"', '\''] c

/-- A range as it stands inside brackets. -/
def CharRange.render (r : CharRange) : List Char :=
  if r.low = r.high then bracketed r.low
  else bracketed r.low ++ '-' :: bracketed r.high

namespace CharSet

/-- Ranges in brackets. -/
def renderBrackets (ranges : List CharRange) : List Char :=
  '[' :: ranges.flatMap CharRange.render ++ [']']

/-- The printed form of a set. -/
def render (s : CharSet) : List Char :=
  if s = any then ['.']
  else
    match s.ranges.toList with
    | [r] => if r.low = r.high ∧ isAlphanumeric r.low then [r.low] else renderBrackets [r]
    | ranges => renderBrackets ranges

/-- The printed form of a set. -/
def text (s : CharSet) : String := String.ofList s.render

end CharSet

end LexSpec
