import LexSpec.Position

/-! # Cursors

A cursor looks at the part of a text that is still to be read. It is a value: reading gives the cursor
behind what was read and leaves the old one as it was. A text can be read by characters or by the bytes
of its UTF-8 form. After a byte read the other bytes of that character are pending, and until they are
read or dropped no character can be read.

Every read makes `Cursor.bytesLeft` smaller, which is why loops over a cursor end.
-/

namespace LexSpec

/-- The unread part of a text, and what is known of the part before it: the place behind the last
    character read, that character, or a newline where none was read, and those of its bytes that are
    still to be read. -/
structure Cursor where
  position : Position
  last : Char
  pending : List UInt8
  rest : List Char
deriving DecidableEq, Repr

namespace Cursor

/-- The cursor before a text. -/
def ofList (source : List Char) : Cursor := ⟨.start, '\n', [], source⟩

def ofString (source : String) : Cursor := ofList source.toList

/-- Neither a character nor a byte is left. -/
def atEnd (input : Cursor) : Bool := input.rest.isEmpty && input.pending.isEmpty

/-- The number of bytes left to read. -/
def bytesLeft (input : Cursor) : Nat :=
  input.pending.length + input.rest.foldr (fun c bytes => c.utf8Size + bytes) 0

/-- Reads one character. At the end of the text there is none. -/
def nextChar (input : Cursor) : Except Fault (Option (Char × Cursor)) :=
  match input.pending with
  | _ :: _ => .error (.pendingBytes input.pending.length)
  | [] =>
    match input.rest with
    | [] => .ok none
    | c :: rest => do
      let position ← input.position.advance c
      return some (c, ⟨position, c, [], rest⟩)

/-- Reads one byte: a pending one, or the first of the next character, whose other bytes are pending
    from then on. -/
def nextByte (input : Cursor) : Except Fault (Option (UInt8 × Cursor)) :=
  match input.pending with
  | byte :: pending => .ok (some (byte, { input with pending }))
  | [] => do
    let some (c, next) ← input.nextChar | return none
    let bytes := String.utf8EncodeChar c
    return some (bytes.head String.utf8EncodeChar_ne_nil, { next with pending := bytes.tail })

/-- Drops the pending bytes, so that characters can be read again. -/
def dropPending (input : Cursor) : Cursor := { input with pending := [] }

/-! ## Reading makes the rest smaller -/

theorem pending_of_nextChar {input next : Cursor} {c : Char}
    (h : input.nextChar = .ok (some (c, next))) : next.pending = [] := by
  unfold nextChar at h
  split at h
  · cases h
  · split at h
    · cases h
    · next d rest text =>
      cases step : input.position.advance d with
      | error fault => simp [step, bind, Except.bind] at h
      | ok position =>
        simp only [step, bind, Except.bind, pure, Except.pure, Except.ok.injEq, Option.some.injEq,
          Prod.mk.injEq] at h
        obtain ⟨-, rfl⟩ := h
        rfl

theorem bytesLeft_add_of_nextChar {input next : Cursor} {c : Char}
    (h : input.nextChar = .ok (some (c, next))) : next.bytesLeft + c.utf8Size = input.bytesLeft := by
  unfold nextChar at h
  split at h
  · cases h
  · next pending =>
    split at h
    · cases h
    · next d rest text =>
      cases step : input.position.advance d with
      | error fault => simp [step, bind, Except.bind] at h
      | ok position =>
        simp only [step, bind, Except.bind, pure, Except.pure, Except.ok.injEq, Option.some.injEq,
          Prod.mk.injEq] at h
        obtain ⟨rfl, rfl⟩ := h
        simp only [bytesLeft, pending, text, List.length_nil, List.foldr_cons]
        omega

theorem bytesLeft_lt_of_nextChar {input next : Cursor} {c : Char}
    (h : input.nextChar = .ok (some (c, next))) : next.bytesLeft < input.bytesLeft := by
  have sum := bytesLeft_add_of_nextChar h
  have positive := c.utf8Size_pos
  omega

theorem bytesLeft_succ_of_nextByte {input next : Cursor} {byte : UInt8}
    (h : input.nextByte = .ok (some (byte, next))) : next.bytesLeft + 1 = input.bytesLeft := by
  unfold nextByte at h
  split at h
  · next pending eq =>
    simp only [Except.ok.injEq, Option.some.injEq, Prod.mk.injEq] at h
    obtain ⟨rfl, rfl⟩ := h
    simp only [bytesLeft, eq, List.length_cons]
    omega
  · cases read : input.nextChar with
    | error fault => simp [read, bind, Except.bind] at h
    | ok found =>
      cases found with
      | none => simp [read, bind, Except.bind, pure, Except.pure] at h
      | some found =>
        obtain ⟨c, after⟩ := found
        simp only [read, bind, Except.bind, pure, Except.pure, Except.ok.injEq, Option.some.injEq,
          Prod.mk.injEq] at h
        obtain ⟨-, rfl⟩ := h
        have sum := bytesLeft_add_of_nextChar read
        have length := String.length_utf8EncodeChar c
        have positive := c.utf8Size_pos
        have none : after.pending = [] := pending_of_nextChar read
        simp only [bytesLeft, none, List.length_nil, List.length_tail] at sum ⊢
        omega

/-! ## Reading while a test holds -/

/-- Reads characters as long as they pass a test. Gives them and the cursor behind them. -/
def takeWhile (p : Char → Bool) (input : Cursor) : Except Fault (List Char × Cursor) :=
  match _read : input.nextChar with
  | .error fault => .error fault
  | .ok none => .ok ([], input)
  | .ok (some (c, next)) =>
    if p c then do
      let (taken, stop) ← next.takeWhile p
      return (c :: taken, stop)
    else .ok ([], input)
termination_by input.bytesLeft
decreasing_by exact bytesLeft_lt_of_nextChar _read

theorem bytesLeft_le_of_takeWhile {p : Char → Bool} {input stop : Cursor} {taken : List Char}
    (h : input.takeWhile p = .ok (taken, stop)) : stop.bytesLeft ≤ input.bytesLeft := by
  fun_induction takeWhile p input generalizing taken with
  | case1 input fault read => cases h
  | case2 input read => cases h; exact Nat.le_refl _
  | case3 input c next read test ih =>
    cases more : next.takeWhile p with
    | error fault => simp [more, bind, Except.bind] at h
    | ok found =>
      simp only [more, bind, Except.bind, pure, Except.pure, Except.ok.injEq, Prod.mk.injEq] at h
      obtain ⟨-, rfl⟩ := h
      have tail := ih more
      have head := bytesLeft_lt_of_nextChar read
      omega
  | case4 input c next read test => cases h; exact Nat.le_refl _

end Cursor

end LexSpec
