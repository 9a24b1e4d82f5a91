import LexSpec.Proofs.Descent.Slicing
import LexSpec.Proofs.Token.Reading
import LexSpec.Specification

/-! # Reading by descent

A specification can be read without a list of its tokens: by functions that call each other, one for each form
of the language, with the next token as their lookahead. This is how a reader is written by hand. What can go
wrong in it is checked here and has a name, a `Halt`: a text that is cut where it cannot be, and a call that does
not come to its end. For this each function that loops or calls itself has fuel, and every call takes one from
it, so the fuel bounds how deep calls are nested.

The names of tokens are cut out of their texts, as are the digits of a start code.
-/

namespace LexSpec

variable {α : Type}

/-- Why a reading by descent breaks off. -/
inductive Halt where
  /-- The reading of the text stops. -/
  | stop (stop : Stop)
  /-- A text is cut outside of it or inside a character. -/
  | outOfBounds
  /-- A call does not end in time. -/
  | outOfFuel
deriving DecidableEq, Repr

/-- A reading by descent. -/
abbrev Descent := EStateM Halt Session

namespace Descent

def ofStep (step : Step α) : Descent α := EStateM.adaptExcept .stop step

def ofFault (result : Except Fault α) : Descent α := ofStep (.ofFault result)

/-- A part that has been cut out of a text. -/
def cutOut : Option α → Descent α
  | some part => pure part
  | none => throw .outOfBounds

/-! ## Scanning -/

/-- Scans a start code behind its opening bracket. Its digits are cut out of the text behind the bracket. -/
def scanStartCode (input : Cursor) : Descent (Scan Token) := do
  let (taken, behind) ← ofFault (input.takeWhile Char.isDigit)
  let (digits, _) ← cutOut (cutAtByte? input.rest taken.length)
  if digits = [] ∨ Token.startCodeLimit ≤ Token.ofDecimal digits then return .error
  match ← ofFault behind.nextChar with
  | some (c, next) =>
    if c = '>' then return .token next (taken.length + 2) (.startCode (Token.ofDecimal digits))
    else return .error
  | none => return .error

/-- Scans at a cursor. -/
def scan (input : Cursor) : Descent (Scan Token) := do
  match ← ofFault input.nextChar with
  | none => return .endOfFile
  | some (first, next) =>
    if first = '<' then scanStartCode next else ofFault (Token.scanFrom first next)

/-- The next lexeme. What can be skipped is skipped before it. -/
def next : Nat → Descent (Lexeme Token)
  | 0 => throw .outOfFuel
  | fuel + 1 => do
    let input ← ofStep .getInput
    match ← scan input with
    | .endOfFile => return .endOfFile input.position
    | .error => ofStep (.lexError "lexical error")
    | .skip behind => do
      ofStep (.setInput behind)
      next fuel
    | .token behind length token => do
      ofStep (.setInput behind)
      let text ← cutOut (takeChars? input.rest length)
      return .token input.position (String.ofList text) token

/-- The next lexeme, with the cursor left where it is. -/
def peek (fuel : Nat) : Descent (Lexeme Token) := do
  let input ← ofStep .getInput
  let lexeme ← next fuel
  ofStep (.setInput input)
  return lexeme

/-- The next token, with the cursor left where it is. At the end of the text there is none. -/
def peekToken (fuel : Nat) : Descent (Option Token) := return (← peek fuel).token?

/-! ## Single tokens -/

/-- Stops because of a lexeme that cannot stand where it is. -/
def unexpected : Lexeme Token → Descent α
  | .token _ text _ => ofStep (.fail ("parse error: unexpected '" ++ text ++ "'"))
  | .endOfFile _ => ofStep (.fail "parse error: unexpected end of file")

def expect (fuel : Nat) (token : Token) : Descent Unit := do
  let lexeme ← next fuel
  if lexeme.token? = some token then return () else unexpected lexeme

def endOfLine (fuel : Nat) : Descent Unit := do
  let lexeme ← next fuel
  if lexeme.token? ∈ [none, some .newline] then return () else unexpected lexeme

/-- The name in the text of a token, behind the sign that tells what it names. -/
def nameOf (text : String) : Descent String := do
  let (_, name) ← cutOut (cutAtByte? text.toList 1)
  return String.ofList name

/-- The set with the name in the text of a token. -/
def namedSet (position : Position) (text : String) : Descent CharSet := do
  ofStep (.lookupSet position (← nameOf text))

/-- The expression with the name in the text of a token. -/
def namedRegex (text : String) : Descent Regex := do ofStep (.lookupRegex (← nameOf text))

/-- The character that the text of an escape stands for. -/
def unescape (text : String) : Char :=
  match text.toList[1]? with
  | some c => Token.unescape c
  | none => '\\'

/-- The character that a token stands for by its text, if it is an escape or a word of one character. -/
def literal? (text : String) : Token → Option Char
  | .escape _ => some (unescape text)
  | .word _ =>
    match text.toList with
    | [c] => some c
    | _ => none
  | _ => none

/-! ## Sets -/

/-- The second end of a range. -/
def rangeEnd (fuel : Nat) : Descent Char := do
  match ← next fuel with
  | .token position text token =>
    match literal? text token with
    | some high => return high
    | none => unexpected (.token position text token)
  | .endOfFile position => unexpected (.endOfFile position)

/-- A single character or the range that it begins. -/
def characterOrRange (fuel : Nat) (c : Char) : Descent CharSet := do
  if (← peekToken fuel) = some .dash then
    let _ ← next fuel
    return .range c (← rangeEnd fuel)
  else return .singleton c

/-- An item of a set that begins with a token, with the cursor behind that token. -/
def setItem (fuel : Nat) (position : Position) (text : String) (token : Token) : Descent CharSet :=
  match token with
  | .setName _ => namedSet position text
  | .dot => return .any
  | .word _ | .escape _ =>
    match literal? text token with
    | some c => characterOrRange fuel c
    | none => return .ofList text.toList
  | _ => unexpected (.token position text token)

/-- The union of a set and the items ahead in the line. -/
def set : Nat → CharSet → Descent CharSet
  | 0, _ => throw .outOfFuel
  | fuel + 1, items => do
    if (← peekToken fuel) ∈ [none, some .newline] then return items
    else
      match ← next fuel with
      | .token position text token =>
        let item ← setItem fuel position text token
        set fuel (items.union item)
      | .endOfFile position => unexpected (.endOfFile position)

/-! ## Expressions -/

/-- What is behind the items of a row. -/
def rowEnds : List (Option Token) := [none, some .newline, some .bar, some .closeParen]

/-- The operator that a token puts on the item before it. -/
def operator? : Option Token → Option (Regex → Regex)
  | some .star => some .star
  | some .plus => some .plus
  | some .question => some .optional
  | _ => none

/-- Puts the operators ahead on an item. -/
def operators : Nat → Regex → Descent Regex
  | 0, _ => throw .outOfFuel
  | fuel + 1, item => do
    match operator? (← peekToken fuel) with
    | none => return item
    | some operator =>
      let _ ← next fuel
      operators fuel (operator item)

/-- The items of a row with one more. -/
def join (row : Option Regex) (item : Regex) : Regex :=
  match row with
  | some previous => .seq previous item
  | none => item

mutual

/-- An expression: alternatives with bars between them. -/
def regex : Nat → Descent Regex
  | 0 => throw .outOfFuel
  | fuel + 1 => do alternatives fuel (← sequence fuel none)

/-- The alternatives that follow on some. -/
def alternatives : Nat → Regex → Descent Regex
  | 0, _ => throw .outOfFuel
  | fuel + 1, before => do
    if (← peekToken fuel) = some .bar then
      let _ ← next fuel
      let last ← sequence fuel none
      alternatives fuel (.alt before last)
    else return before

/-- The items that follow in a row. A row needs an item. -/
def sequence : Nat → Option Regex → Descent Regex
  | 0, _ => throw .outOfFuel
  | fuel + 1, row => do
    if (← peekToken fuel) ∈ rowEnds then
      match row with
      | some row => return row
      | none => unexpected (← next fuel)
    else
      let item ← operated fuel
      sequence fuel (some (join row item))

/-- An item with its operators. -/
def operated : Nat → Descent Regex
  | 0 => throw .outOfFuel
  | fuel + 1 => do operators fuel (← atom fuel)

/-- An item without operators. -/
def atom : Nat → Descent Regex
  | 0 => throw .outOfFuel
  | fuel + 1 => do
    match ← next fuel with
    | .endOfFile position => unexpected (.endOfFile position)
    | .token position text token =>
      match token with
      | .openParen =>
        if (← peekToken fuel) = some .closeParen then
          let _ ← next fuel
          return .empty
        else
          let inner ← regex fuel
          expect fuel .closeParen
          return inner
      | .setName _ => return .chars (← namedSet position text)
      | .regexName _ => namedRegex text
      | .word _ => return .ofString text
      | .escape _ => return .char (unescape text)
      | .dot => return .chars .any
      | _ => unexpected (.token position text token)

end

/-! ## Lines -/

/-- Reads a part of a line and the end of the line behind it. -/
def toEndOfLine (fuel : Nat) (part : Descent α) : Descent α := do
  let value ← part
  endOfLine fuel
  return value

/-- Reads a line that begins with a token, with the cursor behind that token. Gives its rule, if it is one. -/
def line (fuel : Nat) (position : Position) (text : String) (token : Token) : Descent (Option Rule) :=
  match token with
  | .newline => return none
  | .setName _ => do
    expect fuel .equals
    let items ← toEndOfLine fuel (set fuel ∅)
    ofStep (.defineSet (← nameOf text) items)
    return none
  | .regexName _ => do
    expect fuel .equals
    let body ← toEndOfLine fuel (regex fuel)
    ofStep (.defineRegex (← nameOf text) body)
    return none
  | .startCode number => do
    endOfLine fuel
    ofStep (.setStartCode number)
    return none
  | .word _ => do
    expect fuel .turnstile
    let first ← peek fuel
    let body ← toEndOfLine fuel (regex fuel)
    ofStep (.warnIfNullable body first.position)
    return some ⟨← ofStep .getStartCode, text, body, position⟩
  | _ => unexpected (.token position text token)

/-- Reads on to the end of the text. Gives the rules so far and those ahead. -/
def specification : Nat → List Rule → Descent (List Rule)
  | 0, _ => throw .outOfFuel
  | fuel + 1, rules => do
    match ← next fuel with
    | .endOfFile _ => return rules
    | .token position text token =>
      let rule ← line fuel position text token
      specification fuel (rules ++ rule.toList)

/-- Reads a specification, with definitions made beforehand and with fuel. -/
def readWith (fuel : Nat) (source : String) (scope : Scope) : Except Halt Specification :=
  match specification fuel [] (.start source scope) with
  | .ok rules session => .ok ⟨rules, session.warnings⟩
  | .error halt _ => .error halt

end Descent

end LexSpec
