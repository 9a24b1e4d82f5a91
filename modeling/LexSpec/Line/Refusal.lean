import LexSpec.Token.Stream

/-! # Refusals

Why the tokens of a line are not accepted. A refusal names the token that it is about. Only where the
tokens end too early there is none, and what comes behind the line takes its place.
-/

namespace LexSpec

/-- Why the tokens of a line are refused. -/
inductive Refusal where
  /-- No line continues with this token here. -/
  | unexpected (found : PlacedToken)
  /-- The line ends where it needs another token. -/
  | incomplete
  /-- The token names a set that has no definition. -/
  | unknownSet (found : PlacedToken) (name : String)
  /-- The token names an expression that has no definition. -/
  | unknownRegex (found : PlacedToken) (name : String)
deriving DecidableEq

end LexSpec
