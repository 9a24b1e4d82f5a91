import LexSpec.Diagnostic
import LexSpec.Text.Escape

/-! # Scanners

A scanner looks at a cursor under a start code and tells what it finds there: a token, something to
skip, the end of the text or nothing it knows. It has to read something to find something, and so
`Scanner.next`, which skips to the next token, comes to an end.
-/

namespace LexSpec

variable {α : Type}

/-- What a scanner finds at a cursor. Text to skip and tokens come with the cursor behind what was read
    for them. The length of a token, in characters, is what the scanner says it is. -/
inductive Scan (α : Type) where
  | endOfFile
  | error
  | skip (next : Cursor)
  | token (next : Cursor) (length : Nat) (action : α)
deriving DecidableEq

/-- The cursor behind what was found, if anything was. -/
def Scan.next? : Scan α → Option Cursor
  | endOfFile => none
  | error => none
  | skip next => some next
  | token next _ _ => some next

/-- A scanner for tokens with actions in `α`. -/
structure Scanner (α : Type) where
  /-- What is found at a cursor under a start code. -/
  scan : Cursor → Nat → Except Fault (Scan α)
  /-- To find something is to read something. -/
  bytesLeft_lt : ∀ {input next code found}, scan input code = .ok found →
    found.next? = some next → next.bytesLeft < input.bytesLeft

/-- The scanner that scans with a given function. A find for which nothing was read is a fault. -/
def Scanner.ofFunction (scan : Cursor → Nat → Except Fault (Scan α)) : Scanner α where
  scan input code :=
    match scan input code with
    | .error fault => .error fault
    | .ok found =>
      if found.next?.all fun next => next.bytesLeft < input.bytesLeft then .ok found
      else .error .stalled
  bytesLeft_lt := by
    intro input next code found h eq
    split at h
    · cases h
    · split at h
      · next progress =>
        cases h
        simpa [eq] using progress
      · cases h

/-! ## Lexemes -/

/-- What a scanner finds next when it skips what it can. -/
inductive Lexeme (α : Type) where
  | token (position : Position) (text : String) (action : α)
  | endOfFile (position : Position)
deriving DecidableEq

def Lexeme.position : Lexeme α → Position
  | token position _ _ => position
  | endOfFile position => position

/-- The character that stands in the way: the one in the middle of which the cursor is, or else the
    next one. -/
def Cursor.obstacle? (input : Cursor) : Option Char :=
  if input.pending.isEmpty then input.rest.head? else some input.last

/-- An error at a cursor that names the character in the way. -/
def Cursor.lexicalError (input : Cursor) (message : String) : TextError where
  kind := .lexical
  position := some input.position
  message :=
    match input.obstacle? with
    | some c => message ++ " at " ++ quoted c
    | none => message ++ " at end of file"

/-- The next lexeme, or why there is none, and the cursor at the end: behind a token, otherwise where
    no token was found. What was skipped stays skipped. The text of a token is as long as the scanner
    says, and no longer than the rest of the text. -/
def Scanner.next (scanner : Scanner α) (code : Nat) (input : Cursor) :
    Except Stop (Lexeme α) × Cursor :=
  match _found : scanner.scan input code with
  | .error fault => (.error (.fault fault), input)
  | .ok .endOfFile => (.ok (.endOfFile input.position), input)
  | .ok .error => (.error (.error (input.lexicalError "lexical error")), input)
  | .ok (.skip next) => scanner.next code next
  | .ok (.token next length action) =>
    (.ok (.token input.position (String.ofList (input.rest.take length)) action), next)
termination_by input.bytesLeft
decreasing_by exact scanner.bytesLeft_lt _found rfl

theorem Scanner.next_of_skip {scanner : Scanner α} {code : Nat} {input next : Cursor}
    (h : scanner.scan input code = .ok (.skip next)) :
    scanner.next code input = scanner.next code next := by
  rw [Scanner.next]
  split <;> simp_all

theorem Scanner.next_of_token {scanner : Scanner α} {code length : Nat} {input next : Cursor}
    {action : α} (h : scanner.scan input code = .ok (.token next length action)) :
    scanner.next code input =
      (.ok (.token input.position (String.ofList (input.rest.take length)) action), next) := by
  rw [Scanner.next]
  split <;> simp_all

theorem Scanner.bytesLeft_lt_of_next {scanner : Scanner α} {code : Nat} {input stop : Cursor}
    {position : Position} {text : String} {action : α}
    (h : scanner.next code input = (.ok (.token position text action), stop)) :
    stop.bytesLeft < input.bytesLeft := by
  fun_induction Scanner.next scanner code input with
  | case1 | case2 | case3 => simp at h
  | case4 input next found ih =>
    have step := scanner.bytesLeft_lt found rfl
    have rest := ih h
    omega
  | case5 input next length action found =>
    have step := scanner.bytesLeft_lt found rfl
    simp only [Prod.mk.injEq] at h
    rw [← h.2]
    exact step

end LexSpec
