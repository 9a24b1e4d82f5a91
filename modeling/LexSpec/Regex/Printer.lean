import LexSpec.CharSet.Printer
import LexSpec.Regex.Basic

/-! # The printed form of a regular expression

Sequences are printed without a sign between their parts, alternatives always in parentheses. A
sequence under a postfix operator is put in parentheses, so that the operator takes the whole of it.
-/

namespace LexSpec.Regex

/-- The operand of a postfix operator, from its printed form. -/
def operand (inner : Regex) (printed : List Char) : List Char :=
  if inner.isSeq then '(' :: printed ++ [')'] else printed

/-- The printed form of an expression. -/
def render : Regex → List Char
  | empty => ['(', ')']
  | chars set => set.render
  | seq left right => left.render ++ right.render
  | alt left right => '(' :: left.render ++ '|' :: right.render ++ [')']
  | star inner => inner.operand inner.render ++ ['*']
  | plus inner => inner.operand inner.render ++ ['+']
  | optional inner => inner.operand inner.render ++ ['?']

/-- The printed form of an expression. -/
def text (r : Regex) : String := String.ofList r.render

end LexSpec.Regex
