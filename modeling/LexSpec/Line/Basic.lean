import LexSpec.Token.Stream

/-! # Lines of tokens

The tokens of a text are cut into lines at the newlines. The last line ends with the text, or where no
further token was found.
-/

namespace LexSpec

/-- What ends a line: a newline, the end of the text, or a place where no token was found. -/
inductive LineEnd where
  | newline (behind : Cursor)
  | endOfFile (final : Cursor)
  | stopped (stop : Stop) (final : Cursor)
deriving DecidableEq

/-- The cursor behind the line. -/
def LineEnd.behind : LineEnd → Cursor
  | newline behind => behind
  | endOfFile final => final
  | stopped _ final => final

/-- The tokens of a line, without the newline, and what ends it. -/
structure Line where
  tokens : List PlacedToken
  ending : LineEnd
deriving DecidableEq

namespace Line

/-- Puts a token in front of a line. -/
def cons (found : PlacedToken) (line : Line) : Line :=
  { line with tokens := found :: line.tokens }

/-- Cuts tokens into lines: the first line and the lines behind it. `last` ends the last line. -/
def split (last : LineEnd) : List PlacedToken → Line × List Line
  | [] => (⟨[], last⟩, [])
  | found :: rest =>
    let (line, others) := split last rest
    if found.token = .newline then (⟨[], .newline found.behind⟩, line :: others)
    else (line.cons found, others)

end Line

namespace TokenStream

/-- What ends the last line. -/
def lastEnd (stream : TokenStream) : LineEnd :=
  match stream.stop? with
  | none => .endOfFile stream.final
  | some stop => .stopped stop stream.final

/-- The lines of the tokens. -/
def lines (stream : TokenStream) : List Line :=
  let (line, others) := Line.split stream.lastEnd stream.tokens
  line :: others

end TokenStream

end LexSpec
