import LexSpec.Line.Basic
import LexSpec.Line.RegexGroups
import LexSpec.Line.SetItems

/-! # Statements

A line says one thing: nothing, the definition of a set or of an expression, the start code of the
rules behind it, or a rule. Names are looked up as the line is read, and nothing is done about a line
before it has been read to its end.
-/

namespace LexSpec

/-- A rule of a specification, with the start code under which it holds and the place of its name. -/
structure Rule where
  startCode : Nat
  name : String
  regex : Regex
  position : Position
deriving DecidableEq

/-- What a line says. Of a rule the places of its name and of its expression are known. -/
inductive Statement where
  | blank
  | setDefinition (name : String) (set : CharSet)
  | regexDefinition (name : String) (regex : Regex)
  | startCode (number : Nat)
  | rule (name : String) (position : Position) (regex : Regex) (body : Position)
deriving DecidableEq

namespace Statement

/-- The tokens behind an expected one. -/
def expect (token : Token) : List PlacedToken → Except Refusal (List PlacedToken)
  | [] => .error .incomplete
  | found :: rest => if found.token = token then .ok rest else .error (.unexpected found)

/-- A rule from the tokens behind its turnstile. -/
def ruleOfTokens (scope : Scope) (name : String) (position : Position) :
    List PlacedToken → Except Refusal Statement
  | [] => .error .incomplete
  | first :: rest => do
    let regex ← Regex.ofTokens scope (first :: rest)
    return .rule name position regex first.position

/-- The statement of the tokens of a line. -/
def ofTokens (scope : Scope) : List PlacedToken → Except Refusal Statement
  | [] => .ok .blank
  | first :: rest =>
    match first.token with
    | .setName name => do
      return .setDefinition name (← CharSet.ofTokens scope (← expect .equals rest))
    | .regexName name => do
      return .regexDefinition name (← Regex.ofTokens scope (← expect .equals rest))
    | .startCode number =>
      match rest with
      | [] => .ok (.startCode number)
      | found :: _ => .error (.unexpected found)
    | .word name => do ruleOfTokens scope name first.position (← expect .turnstile rest)
    | _ => .error (.unexpected first)

/-- Does what a statement says. A rule is warned of if it matches the empty text, and gets the start
    code of the session. -/
def run : Statement → Step (Option Rule)
  | blank => return none
  | setDefinition name set => do
    Step.defineSet name set
    return none
  | regexDefinition name regex => do
    Step.defineRegex name regex
    return none
  | startCode number => do
    Step.setStartCode number
    return none
  | rule name position regex body => do
    Step.warnIfNullable regex body
    return some ⟨← Step.getStartCode, name, regex, position⟩

end Statement

/-- The error of a token that cannot stand where it is, told with the cursor behind it. -/
def unexpectedToken (text : String) (behind : Cursor) : Stop :=
  .error ⟨.user, some behind.position, "parse error: unexpected '" ++ text ++ "'"⟩

namespace Line

/-- Why a line ends too early: its newline is not expected, nor is the end of the text. -/
def earlyEnd : LineEnd → Stop
  | .newline behind => unexpectedToken "\n" behind
  | .endOfFile final =>
    .error ⟨.user, some final.position, "parse error: unexpected end of file"⟩
  | .stopped stop _ => stop

/-- Why a line with a refusal cannot be read, and the cursor behind what was read of it. -/
def refuse (line : Line) : Refusal → Stop × Cursor
  | .unexpected found => (unexpectedToken found.text found.behind, found.behind)
  | .incomplete => (earlyEnd line.ending, line.ending.behind)
  | .unknownSet found name => (.error (.unknownSet found.position name), found.behind)
  | .unknownRegex found name => (.error (.unknownRegex name), found.behind)

/-- The statement of a line, or why there is none and the cursor behind what was read of it. -/
def statement (line : Line) (scope : Scope) : Except (Stop × Cursor) Statement :=
  match Statement.ofTokens scope line.tokens with
  | .error refusal => .error (line.refuse refusal)
  | .ok statement =>
    match line.ending with
    | .stopped stop final => .error (stop, final)
    | _ => .ok statement

/-- Reads a line. Gives its rule, if it is one. -/
def read (line : Line) : Step (Option Rule) := fun session =>
  match line.statement session.scope with
  | .error (stop, input) => .error stop { session with input }
  | .ok statement => statement.run { session with input := line.ending.behind }

end Line

end LexSpec
