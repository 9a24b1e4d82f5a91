import LexSpec.Text.Alphanumeric

/-! # Tokens of the specification language

The signs that a specification is written in, with what they carry: names, words, characters, numbers.
-/

namespace LexSpec

/-- A token of the specification language. `$name` and `%name` name a set and an expression, a word is
    a name without a sign before it, an escape is a backslash and a character, a start code is a number
    in angle brackets and a turnstile is `:-`. -/
inductive Token where
  | setName (name : String)
  | regexName (name : String)
  | word (text : String)
  | escape (c : Char)
  | startCode (number : Nat)
  | equals
  | turnstile
  | dash
  | dot
  | openParen
  | closeParen
  | bar
  | star
  | plus
  | question
  | newline
deriving DecidableEq, Repr

/-- Names and words consist of letters, digits, underscores and single quotes. -/
def isNameChar (c : Char) : Bool := isAlphanumeric c || c == '_' || c == '\''

/-- Tokens are set apart by spaces, tabs and carriage returns. -/
def isBlank (c : Char) : Bool := c == ' ' || c == '\t' || c == '\r'

namespace Token

/-- The token that a character is by itself. -/
def symbol? (c : Char) : Option Token :=
  if c = '\n' then some newline
  else if c = '=' then some equals
  else if c = '-' then some dash
  else if c = '.' then some dot
  else if c = '(' then some openParen
  else if c = ')' then some closeParen
  else if c = '|' then some bar
  else if c = '*' then some star
  else if c = '+' then some plus
  else if c = '?' then some question
  else none

/-- The character that an escape stands for: a newline for `n`, a tab for `t`, any other character for
    itself. -/
def unescape (c : Char) : Char :=
  if c = 'n' then '\n' else if c = 't' then '\t' else c

/-- The character that a token stands for, if it is an escape or a word of one character. -/
def literal? : Token → Option Char
  | escape c => some (unescape c)
  | word text =>
    match text.toList with
    | [c] => some c
    | _ => none
  | _ => none

end Token

end LexSpec
