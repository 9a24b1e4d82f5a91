import LexSpec.Text.Unprintable

/-! # Escaped characters

A character is shown in a line of text as itself where that is clear and as an escape where it is
not:

* the null character, tab, newline and carriage return as `\0`, `\t`, `\n` and `\r`;
* the backslash, and the quotes that the surroundings use, behind a backslash;
* any other unprintable character by its code point in hexadecimal, as `\u` and the digits in braces.
-/

namespace LexSpec

/-- The letter that stands behind the backslash where a character has an escape of two characters.
    `quotes` are the quotes that the surroundings use. -/
def escapeLetter? (quotes : List Char) (c : Char) : Option Char :=
  if c = '\x00' then some '0'
  else if c = '\t' then some 't'
  else if c = '\n' then some 'n'
  else if c = '\r' then some 'r'
  else if c = '\\' ∨ c ∈ quotes then some c
  else none

/-- The text that shows a character between the given quotes. -/
def escape (quotes : List Char) (c : Char) : List Char :=
  match escapeLetter? quotes c with
  | some letter => ['\\', letter]
  | none =>
    if isUnprintable c then ['\\', 'u', '\x7b'] ++ Nat.toDigits 16 c.toNat ++ ['\x7d']
    else [c]

/-- A character between single quotes. -/
def quoted (c : Char) : String :=
  String.ofList ('\'' :: escape ['\''] c ++ ['\''])

end LexSpec
