import LexSpec.Regex.Printer
import LexSpec.Scanner
import LexSpec.Scope

/-! # Sessions

A session is what one reading of a text carries along: the cursor, the definitions made so far, the
start code and the warnings. A `Step` works on a session and gives a value, or stops. A step that stops
leaves the session as it had made it by then, so what was read and defined before stays.

Steps are put together with `pure`, `>>=` and `<$>`, and lists of them with `Step.sequence`.
-/

namespace LexSpec

variable {α : Type}

/-- The state of a reading. Warnings stand in the order in which they were given. -/
structure Session where
  warnings : List Warning
  scope : Scope
  startCode : Nat
  input : Cursor
deriving DecidableEq

/-- A session before a text, with definitions made beforehand. -/
def Session.start (source : String) (scope : Scope) : Session := ⟨[], scope, 0, .ofString source⟩

/-- A computation on a session. -/
abbrev Step := EStateM Stop Session

namespace Step

/-- Runs a step on a new session. Gives its value and the warnings. -/
def runOn (step : Step α) (source : String) (scope : Scope) : Except Stop (α × List Warning) :=
  match step.run (.start source scope) with
  | .ok value session => .ok (value, session.warnings)
  | .error stop _ => .error stop

/-- The steps of a list one after the other, with their values. The first one that stops stops the
    whole. -/
def sequence : List (Step α) → Step (List α)
  | [] => pure []
  | step :: rest => do
    let value ← step
    let values ← sequence rest
    return value :: values

/-- A result or a fault, with the session left alone. -/
def ofFault : Except Fault α → Step α
  | .ok value => pure value
  | .error fault => throw (.fault fault)

/-- A result or an error, with the session left alone. -/
def ofError : Except TextError α → Step α
  | .ok value => pure value
  | .error error => throw (.error error)

/-! ## Cursor and start code -/

def getInput : Step Cursor := return (← get).input

def setInput (input : Cursor) : Step Unit := modify fun session => { session with input }

def readChar : Step (Option Char) := do
  let some (c, next) ← ofFault (← getInput).nextChar | return none
  setInput next
  return some c

def readByte : Step (Option UInt8) := do
  let some (byte, next) ← ofFault (← getInput).nextByte | return none
  setInput next
  return some byte

def dropPending : Step Unit := do setInput (← getInput).dropPending

def getStartCode : Step Nat := return (← get).startCode

def setStartCode (startCode : Nat) : Step Unit := modify fun session => { session with startCode }

/-! ## Errors and warnings -/

/-- An error at the cursor. -/
def errorHere (message : String) : Step TextError :=
  return ⟨.user, some (← getInput).position, message⟩

/-- Stops with an error at the cursor. -/
def fail (message : String) : Step α := do throw (.error (← errorHere message))

/-- Stops with an error at the cursor that names the character in the way. -/
def lexError (message : String) : Step α := do throw (.error ((← getInput).lexicalError message))

/-- Warns of an expression that matches the empty text, unless it is written as the empty text. -/
def warnIfNullable (regex : Regex) (position : Position) : Step Unit :=
  if !regex.isEmpty && regex.nullable then
    modify fun session =>
      { session with warnings := session.warnings ++ [.nullableRegex position regex.text] }
  else pure ()

/-! ## Definitions -/

def lookupSet (position : Position) (name : String) : Step CharSet := do
  ofError ((← get).scope.sets.resolveSet position name)

def lookupRegex (name : String) : Step Regex := do
  ofError ((← get).scope.regexes.resolveRegex name)

def defineSet (name : String) (set : CharSet) : Step Unit :=
  modify fun session => { session with scope := session.scope.defineSet name set }

def defineRegex (name : String) (regex : Regex) : Step Unit :=
  modify fun session => { session with scope := session.scope.defineRegex name regex }

/-! ## Tokens -/

/-- The next lexeme under the start code of the session. -/
def lexToken (scanner : Scanner α) : Step (Lexeme α) := fun session =>
  match scanner.next session.startCode session.input with
  | (.ok lexeme, input) => .ok lexeme { session with input }
  | (.error stop, input) => .error stop { session with input }

end Step

end LexSpec
