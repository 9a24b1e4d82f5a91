import LexSpec.Scanner
import LexSpec.Token.Basic

/-! # Scanning the specification language

The first character decides what is scanned. Blanks are skipped one by one, and so is a comment, which
runs from a hash sign up to the end of its line. Names and words are as long as they can be. The start
code of a scanner has no say here.
-/

namespace LexSpec

namespace Token

/-- The number written in decimal digits. -/
def ofDecimal (digits : List Char) : Nat :=
  digits.foldl (fun number digit => 10 * number + (digit.toNat - '0'.toNat)) 0

/-- Start codes are numbers of 32 bits. -/
def startCodeLimit : Nat := UInt32.size

/-- Skips a comment behind its hash sign. -/
def scanComment (input : Cursor) : Except Fault (Scan Token) := do
  let (_, next) ← input.takeWhile (· ≠ '\n')
  return .skip next

/-- Scans a name behind the sign that tells what it names. -/
def scanName (token : String → Token) (input : Cursor) : Except Fault (Scan Token) := do
  let (name, next) ← input.takeWhile isNameChar
  if name = [] then return .error
  return .token next (name.length + 1) (token (String.ofList name))

/-- Scans a word behind its first character. -/
def scanWord (first : Char) (input : Cursor) : Except Fault (Scan Token) := do
  let (others, next) ← input.takeWhile isNameChar
  return .token next (others.length + 1) (.word (String.ofList (first :: others)))

/-- Scans an escape behind its backslash. -/
def scanEscape (input : Cursor) : Except Fault (Scan Token) := do
  let some (c, next) ← input.nextChar | return .error
  return .token next 2 (.escape c)

/-- Scans a turnstile behind its colon. -/
def scanTurnstile (input : Cursor) : Except Fault (Scan Token) := do
  let some (c, next) ← input.nextChar | return .error
  if c = '-' then return .token next 2 .turnstile
  return .error

/-- Scans a start code behind its opening bracket. -/
def scanStartCode (input : Cursor) : Except Fault (Scan Token) := do
  let (digits, behind) ← input.takeWhile Char.isDigit
  if digits = [] ∨ startCodeLimit ≤ ofDecimal digits then return .error
  let some (c, next) ← behind.nextChar | return .error
  if c = '>' then return .token next (digits.length + 2) (.startCode (ofDecimal digits))
  return .error

/-- Scans what starts with a character, with the cursor behind it. -/
def scanFrom (first : Char) (input : Cursor) : Except Fault (Scan Token) :=
  if isBlank first then .ok (.skip input)
  else if first = '#' then scanComment input
  else if first = '$' then scanName .setName input
  else if first = '%' then scanName .regexName input
  else if first = '\\' then scanEscape input
  else if first = ':' then scanTurnstile input
  else if first = '<' then scanStartCode input
  else if isNameChar first then scanWord first input
  else
    match symbol? first with
    | some token => .ok (.token input 1 token)
    | none => .ok .error

/-- Scans at a cursor. -/
def scan (input : Cursor) : Except Fault (Scan Token) := do
  let some (first, next) ← input.nextChar | return .endOfFile
  scanFrom first next

/-! ## Progress

Whatever is found lies behind the first character. -/

/-- What is found has been read from a cursor on. -/
def FoundBehind (input : Cursor) (result : Except Fault (Scan Token)) : Prop :=
  ∀ found next, result = .ok found → found.next? = some next → next.bytesLeft ≤ input.bytesLeft

theorem foundBehind_takeWhile {p : Char → Bool} {input : Cursor}
    {rest : List Char × Cursor → Except Fault (Scan Token)}
    (h : ∀ taken next, next.bytesLeft ≤ input.bytesLeft → FoundBehind input (rest (taken, next))) :
    FoundBehind input (input.takeWhile p >>= rest) := by
  intro found next eq
  cases read : input.takeWhile p with
  | error fault => simp [read, bind, Except.bind] at eq
  | ok result =>
    simp only [read, bind, Except.bind] at eq
    exact h _ _ (Cursor.bytesLeft_le_of_takeWhile read) found next eq

theorem foundBehind_nextChar {input cursor : Cursor}
    {rest : Option (Char × Cursor) → Except Fault (Scan Token)}
    (behind : cursor.bytesLeft ≤ input.bytesLeft) (none : FoundBehind input (rest none))
    (some : ∀ c next, next.bytesLeft ≤ input.bytesLeft → FoundBehind input (rest (some (c, next)))) :
    FoundBehind input (cursor.nextChar >>= rest) := by
  intro found next eq
  cases read : cursor.nextChar with
  | error fault => simp [read, bind, Except.bind] at eq
  | ok result =>
    simp only [read, bind, Except.bind] at eq
    cases result with
    | none => exact none found next eq
    | some result =>
      have step := Cursor.bytesLeft_lt_of_nextChar read
      exact some _ _ (by omega) found next eq

theorem foundBehind_error {input : Cursor} : FoundBehind input (.ok .error) := by
  intro found next eq some
  cases eq
  cases some

theorem foundBehind_skip {input next : Cursor} (h : next.bytesLeft ≤ input.bytesLeft) :
    FoundBehind input (.ok (.skip next)) := by
  intro found after eq some
  cases eq
  cases some
  exact h

theorem foundBehind_token {input next : Cursor} {length : Nat} {token : Token}
    (h : next.bytesLeft ≤ input.bytesLeft) :
    FoundBehind input (.ok (.token next length token)) := by
  intro found after eq some
  cases eq
  cases some
  exact h

theorem foundBehind_scanName {token : String → Token} {input : Cursor} :
    FoundBehind input (scanName token input) := by
  refine foundBehind_takeWhile fun name next h => ?_
  dsimp only
  split
  · exact foundBehind_error
  · exact foundBehind_token h

theorem foundBehind_scanStartCode {input : Cursor} : FoundBehind input (scanStartCode input) := by
  refine foundBehind_takeWhile fun digits behind h => ?_
  dsimp only
  split
  · exact foundBehind_error
  · refine foundBehind_nextChar h foundBehind_error fun c next h => ?_
    dsimp only
    split
    · exact foundBehind_token h
    · exact foundBehind_error

theorem foundBehind_scanFrom (first : Char) (input : Cursor) :
    FoundBehind input (scanFrom first input) := by
  unfold scanFrom
  split
  · exact foundBehind_skip (Nat.le_refl _)
  split
  · exact foundBehind_takeWhile fun _ _ h => foundBehind_skip h
  split
  · exact foundBehind_scanName
  split
  · exact foundBehind_scanName
  split
  · exact foundBehind_nextChar (Nat.le_refl _) foundBehind_error fun _ _ h => foundBehind_token h
  split
  · refine foundBehind_nextChar (Nat.le_refl _) foundBehind_error fun c _ h => ?_
    dsimp only
    split
    · exact foundBehind_token h
    · exact foundBehind_error
  split
  · exact foundBehind_scanStartCode
  split
  · exact foundBehind_takeWhile fun _ _ h => foundBehind_token h
  split
  · exact foundBehind_token (Nat.le_refl _)
  · exact foundBehind_error

/-- The scanner of the specification language. -/
def scanner : Scanner Token where
  scan input _ := scan input
  bytesLeft_lt := by
    intro input next code found h eq
    cases read : input.nextChar with
    | error fault => simp [scan, read, bind, Except.bind] at h
    | ok result =>
      cases result with
      | none =>
        simp only [scan, read, bind, Except.bind, pure, Except.pure, Except.ok.injEq] at h
        rw [← h] at eq
        cases eq
      | some result =>
        obtain ⟨first, behind⟩ := result
        simp only [scan, read, bind, Except.bind] at h
        have step := Cursor.bytesLeft_lt_of_nextChar read
        have rest := foundBehind_scanFrom first behind found next h eq
        omega

end Token

end LexSpec
