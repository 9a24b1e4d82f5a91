import LexSpec.Proofs.Cursor.Bytes

/-! # Pending bytes in a window

The pending bytes of a cursor are the last ones of one character, so a buffer of four bytes and two places in
it are enough to keep them: a `ByteWindow`. A `WindowCursor` is a cursor that keeps its pending bytes so. Its
reads check each place before they look there, and a place that is not in the buffer is a `Breach`.

There is none. A window cursor reads what the cursor reads that it `Shows`, and breaks off where that one does
(`readStep_mirrors`, `readSteps_mirrors`).
-/

namespace LexSpec

/-- Why a read through a window breaks off: the window does not lie in its buffer, or the read is one that
    no cursor allows. -/
inductive Breach where
  | outOfBounds
  | fault (fault : Fault)
deriving DecidableEq

/-- Bytes in a buffer: those from `start` up to `stop`. -/
structure ByteWindow where
  buffer : List UInt8
  start : Nat
  stop : Nat
deriving DecidableEq

namespace ByteWindow

/-- The size of the buffer, enough for any character. -/
def capacity : Nat := 4

def empty : ByteWindow := ⟨List.replicate capacity 0, 0, 0⟩

def isEmpty (window : ByteWindow) : Bool := window.stop ≤ window.start

/-- The byte at a place of the buffer. -/
def byteAt (window : ByteWindow) (place : Nat) : Except Breach UInt8 :=
  match window.buffer[place]? with
  | some byte => .ok byte
  | none => .error .outOfBounds

/-- The number of bytes. -/
def length (window : ByteWindow) : Except Breach Nat :=
  if window.start ≤ window.stop then .ok (window.stop - window.start) else .error .outOfBounds

/-- The bytes as a list. -/
def bytes (window : ByteWindow) : Except Breach (List UInt8) :=
  if window.start ≤ window.stop ∧ window.stop ≤ window.buffer.length then
    .ok ((window.buffer.take window.stop).drop window.start)
  else .error .outOfBounds

/-- The first byte of a character, and its other bytes. -/
def encode (c : Char) : Except Breach (UInt8 × ByteWindow) := do
  let bytes := String.utf8EncodeChar c
  let window : ByteWindow := ⟨bytes ++ List.replicate (capacity - bytes.length) 0, 1, bytes.length⟩
  return (← window.byteAt 0, window)

/-- Takes the first byte out. -/
def pop (window : ByteWindow) : Except Breach (Option (UInt8 × ByteWindow)) := do
  if window.isEmpty then return none
  return some (← window.byteAt window.start, { window with start := window.start + 1 })

end ByteWindow

/-- A cursor with its pending bytes in a window. -/
structure WindowCursor where
  position : Position
  last : Char
  window : ByteWindow
  rest : List Char
deriving DecidableEq

namespace WindowCursor

/-- The cursor before a text. -/
def ofString (source : String) : WindowCursor := ⟨.start, '\n', .empty, source.toList⟩

/-- Reads one character. -/
def nextChar (input : WindowCursor) : Except Breach (Option (Char × WindowCursor)) := do
  if !input.window.isEmpty then throw (.fault (.pendingBytes (← input.window.length)))
  match input.rest with
  | [] => return none
  | c :: rest =>
    let position ← (input.position.advance c).mapError .fault
    return some (c, ⟨position, c, .empty, rest⟩)

/-- Reads one byte. -/
def nextByte (input : WindowCursor) : Except Breach (Option (UInt8 × WindowCursor)) := do
  match ← input.window.pop with
  | some (byte, window) => return some (byte, { input with window })
  | none =>
    let some (c, next) ← input.nextChar | return none
    let (byte, window) ← ByteWindow.encode c
    return some (byte, { next with window })

/-- Reads on, like `Cursor.readStep`. -/
def readStep (input : WindowCursor) : ReadStep → Except Breach (List UInt8 × WindowCursor)
  | .char => do
    let some (c, next) ← input.nextChar | return ([], input)
    return (String.utf8EncodeChar c, next)
  | .byte => do
    let some (byte, next) ← input.nextByte | return ([], input)
    return ([byte], next)
  | .drop => do return (← input.window.bytes, { input with window := .empty })

/-- Reads on step by step, like `Cursor.readSteps`. -/
def readSteps (input : WindowCursor) : List ReadStep → Except Breach (List UInt8 × WindowCursor)
  | [] => return ([], input)
  | step :: steps => do
    let (bytes, next) ← input.readStep step
    let (more, stop) ← next.readSteps steps
    return (bytes ++ more, stop)

end WindowCursor

/-! ## What a window holds -/

/-- The window lies in its buffer and has the given bytes in it. -/
structure ByteWindow.Holds (window : ByteWindow) (bytes : List UInt8) : Prop where
  size : window.buffer.length = capacity
  ordered : window.start ≤ window.stop
  fits : window.stop ≤ capacity
  content : (window.buffer.take window.stop).drop window.start = bytes

namespace ByteWindow

variable {window : ByteWindow} {byte : UInt8} {pending : List UInt8}

theorem holds_empty : empty.Holds [] := ⟨rfl, Nat.le_refl _, Nat.zero_le _, rfl⟩

namespace Holds

theorem bytes_eq (holds : window.Holds pending) : window.bytes = .ok pending := by
  rw [bytes, if_pos ⟨holds.ordered, holds.size ▸ holds.fits⟩, holds.content]

theorem length_eq (holds : window.Holds pending) : window.length = .ok pending.length := by
  have size := holds.size
  have fits := holds.fits
  rw [length, if_pos holds.ordered, ← holds.content, List.length_drop, List.length_take_of_le (size ▸ fits)]

theorem isEmpty_iff (holds : window.Holds pending) : window.isEmpty = true ↔ pending = [] := by
  obtain ⟨size, ordered, fits, content⟩ := holds
  rw [isEmpty, decide_eq_true_iff, ← content, List.drop_eq_nil_iff, List.length_take_of_le (size ▸ fits)]

theorem pop_eq_of_nil (holds : window.Holds []) : window.pop = .ok none := by
  simp only [pop, holds.isEmpty_iff.2 rfl, if_true]
  rfl

theorem pop_eq_of_cons (holds : window.Holds (byte :: pending)) :
    ∃ popped, window.pop = .ok (some (byte, popped)) ∧ popped.Holds pending := by
  obtain ⟨size, ordered, fits, content⟩ := holds
  have inside : window.start < (window.buffer.take window.stop).length := by
    by_contra outside
    rw [List.drop_eq_nil_of_le (Nat.le_of_not_lt outside)] at content
    cases content
  rw [List.drop_eq_getElem_cons inside] at content
  obtain ⟨first, others⟩ := List.cons.inj content
  rw [List.length_take_of_le (size ▸ fits)] at inside
  have found : window.byteAt window.start = .ok byte := by
    rw [byteAt, List.getElem?_eq_getElem (by omega), ← first, List.getElem_take]
  refine ⟨{ window with start := window.start + 1 }, ?_, size, inside, fits, others⟩
  have filled : window.isEmpty = false := decide_eq_false (Nat.not_le_of_lt inside)
  simp only [pop, filled, found]
  rfl

end Holds

theorem encode_eq (c : Char) :
    ∃ window, encode c = .ok ((String.utf8EncodeChar c).head String.utf8EncodeChar_ne_nil, window) ∧
      window.Holds (String.utf8EncodeChar c).tail := by
  have size := String.length_utf8EncodeChar c
  have positive := c.utf8Size_pos
  have small := c.utf8Size_le_four
  refine ⟨⟨String.utf8EncodeChar c ++ List.replicate (capacity - (String.utf8EncodeChar c).length) 0, 1,
    (String.utf8EncodeChar c).length⟩, ?_, ?_, ?_, ?_, ?_⟩
  · obtain ⟨first, others, bytes⟩ := List.exists_cons_of_ne_nil (@String.utf8EncodeChar_ne_nil c)
    simp only [encode, byteAt, bytes]
    rfl
  · rw [List.length_append, List.length_replicate, capacity]
    omega
  · simp only
    omega
  · simp only [capacity]
    omega
  · simp only [List.take_left, List.drop_one]

end ByteWindow

/-! ## Reading through a window -/

/-- The same cursor, with its pending bytes in a window. -/
structure WindowCursor.Shows (packed : WindowCursor) (input : Cursor) : Prop where
  position : packed.position = input.position
  last : packed.last = input.last
  rest : packed.rest = input.rest
  window : packed.window.Holds input.pending

/-- The same value, and behind it the same cursor. -/
def SameBehind {α : Type} (found : α × WindowCursor) (found' : α × Cursor) : Prop :=
  found.1 = found'.1 ∧ found.2.Shows found'.2

/-- Both break off with the same fault, or both give related values. -/
inductive Mirrors {α β : Type} (related : α → β → Prop) : Except Breach α → Except Fault β → Prop where
  | error {fault : Fault} : Mirrors related (.error (.fault fault)) (.error fault)
  | ok {value : α} {other : β} (same : related value other) : Mirrors related (.ok value) (.ok other)

namespace Mirrors

variable {α β γ δ : Type} {related : α → β → Prop} {later : γ → δ → Prop} {x : Except Breach α}
  {y : Except Fault β}

theorem bind {f : α → Except Breach γ} {g : β → Except Fault δ} (first : Mirrors related x y)
    (rest : ∀ value other, related value other → Mirrors later (f value) (g other)) :
    Mirrors later (x >>= f) (y >>= g) := by
  cases first with
  | error => exact .error
  | ok same => exact rest _ _ same

theorem ne_outOfBounds (mirrors : Mirrors related x y) : x ≠ .error .outOfBounds := by
  cases mirrors <;> simp

end Mirrors

variable {packed : WindowCursor} {input : Cursor}

theorem nextChar_mirrors (shows : packed.Shows input) :
    Mirrors (Option.Rel SameBehind) packed.nextChar input.nextChar := by
  obtain ⟨position, last, window, rest⟩ := packed
  obtain ⟨position, last, pending, rest⟩ := input
  obtain ⟨rfl, rfl, rfl, holds⟩ := shows
  have empty := holds.isEmpty_iff
  cases pending with
  | cons byte pending =>
    have filled : window.isEmpty = false := by simpa using empty
    simp only [WindowCursor.nextChar, Cursor.nextChar, filled, holds.length_eq]
    exact .error
  | nil =>
    simp only [WindowCursor.nextChar, Cursor.nextChar, empty.2 rfl]
    cases rest with
    | nil => exact .ok .none
    | cons c rest =>
      dsimp only
      cases position.advance c with
      | error fault => exact .error
      | ok place => exact .ok (.some ⟨rfl, rfl, rfl, rfl, ByteWindow.holds_empty⟩)

theorem nextByte_mirrors (shows : packed.Shows input) :
    Mirrors (Option.Rel SameBehind) packed.nextByte input.nextByte := by
  have holds := shows.window
  cases ready : input.pending with
  | cons byte pending =>
    rw [ready] at holds
    obtain ⟨popped, takes, others⟩ := holds.pop_eq_of_cons
    rw [Cursor.nextByte_eq_of_cons ready, WindowCursor.nextByte, takes]
    exact .ok (.some ⟨rfl, shows.position, shows.last, shows.rest, others⟩)
  | nil =>
    rw [ready] at holds
    rw [Cursor.nextByte, ready, WindowCursor.nextByte, holds.pop_eq_of_nil]
    refine (nextChar_mirrors shows).bind fun found found' same => ?_
    cases same with
    | none => exact .ok .none
    | @some found found' same =>
      obtain ⟨c, next⟩ := found
      obtain ⟨c, next'⟩ := found'
      obtain ⟨rfl, behind⟩ := same
      obtain ⟨window, encoded, others⟩ := ByteWindow.encode_eq c
      dsimp only
      rw [encoded]
      exact .ok (.some ⟨rfl, behind.position, behind.last, behind.rest, others⟩)

theorem readStep_mirrors (shows : packed.Shows input) (step : ReadStep) :
    Mirrors SameBehind (packed.readStep step) (input.readStep step) := by
  cases step with
  | char =>
    refine (nextChar_mirrors shows).bind fun found found' same => ?_
    cases same with
    | none => exact .ok ⟨rfl, shows⟩
    | some same => exact .ok ⟨congrArg String.utf8EncodeChar same.1, same.2⟩
  | byte =>
    refine (nextByte_mirrors shows).bind fun found found' same => ?_
    cases same with
    | none => exact .ok ⟨rfl, shows⟩
    | some same => exact .ok ⟨congrArg ([·]) same.1, same.2⟩
  | drop =>
    rw [WindowCursor.readStep, shows.window.bytes_eq]
    exact .ok ⟨rfl, shows.position, shows.last, shows.rest, ByteWindow.holds_empty⟩

/-- A run through a window never looks outside of the buffer. -/
theorem readSteps_mirrors (shows : packed.Shows input) (steps : List ReadStep) :
    Mirrors SameBehind (packed.readSteps steps) (input.readSteps steps) := by
  induction steps generalizing packed input with
  | nil => exact .ok ⟨rfl, shows⟩
  | cons step steps ih =>
    refine (readStep_mirrors shows step).bind fun first first' same => ?_
    refine (ih same.2).bind fun others others' sameRest => ?_
    exact .ok ⟨congrArg₂ (· ++ ·) same.1 sameRest.1, sameRest.2⟩

/-- The windows that a cursor of a text can have: whatever has been read up to it, the same reads through a
    window lead to a window with its pending bytes, and no read from there looks outside of the buffer. -/
def Cursor.WindowInBounds (source : String) (input : Cursor) : Prop :=
  ∀ steps bytes, (ofString source).readSteps steps = .ok (bytes, input) → ∃ packed : WindowCursor,
    (WindowCursor.ofString source).readSteps steps = .ok (bytes, packed) ∧ packed.Shows input ∧
      ∀ step, packed.readStep step ≠ .error .outOfBounds

theorem Cursor.windowInBounds (source : String) (input : Cursor) : input.WindowInBounds source := by
  intro steps bytes reads
  have start : (WindowCursor.ofString source).Shows (ofString source) :=
    ⟨rfl, rfl, rfl, ByteWindow.holds_empty⟩
  have run := readSteps_mirrors start steps
  rw [reads] at run
  generalize (WindowCursor.ofString source).readSteps steps = result at run ⊢
  cases run with
  | @ok found _ same =>
    obtain ⟨rfl, shows⟩ := same
    exact ⟨found.2, rfl, shows, fun step => (readStep_mirrors shows step).ne_outOfBounds⟩

end LexSpec
