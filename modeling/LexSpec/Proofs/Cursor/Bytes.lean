import LexSpec.Proofs.Cursor.Reading

/-! # Reading bytes and characters in turn

`Cursor.readSteps` reads on by any of the three ways to do so: a character, a byte, or past the pending bytes.
Each `ReadStep` passes bytes of the text, and it passes them in their order: what has been passed and what is
still ahead are the bytes of the text, none lost and none twice (`bytes_of_readSteps`).

* `cases_of_readStep`: what one step can do.
* `exists_readStep`: where the counters reach, a step fails only when it is to read a character and bytes are
  pending.
-/

namespace LexSpec

/-- A way to read on. -/
inductive ReadStep where
  /-- A character. -/
  | char
  /-- A byte. -/
  | byte
  /-- Past the pending bytes. -/
  | drop
deriving DecidableEq

namespace Cursor

/-- Reads on. Gives the bytes that are passed and the cursor behind them. At the end of the text nothing is
    passed and the cursor stays. -/
def readStep (input : Cursor) : ReadStep → Except Fault (List UInt8 × Cursor)
  | .char => do
    let some (c, next) ← input.nextChar | return ([], input)
    return (String.utf8EncodeChar c, next)
  | .byte => do
    let some (byte, next) ← input.nextByte | return ([], input)
    return ([byte], next)
  | .drop => return (input.pending, input.dropPending)

/-- Reads on step by step. Gives all bytes that are passed, in their order, and the cursor behind them. -/
def readSteps (input : Cursor) : List ReadStep → Except Fault (List UInt8 × Cursor)
  | [] => return ([], input)
  | step :: steps => do
    let (bytes, next) ← input.readStep step
    let (more, stop) ← next.readSteps steps
    return (bytes ++ more, stop)

/-- Whenever the steps are to read a character, no bytes are pending. -/
def DrainsFirst (input : Cursor) (steps : List ReadStep) : Prop :=
  ∀ before after bytes middle, steps = before ++ .char :: after →
    input.readSteps before = .ok (bytes, middle) → middle.pending = []

/-- The bytes that are still to be read: the pending ones and those of the rest of the text. -/
def bytesAhead (input : Cursor) : List UInt8 := input.pending ++ input.rest.flatMap String.utf8EncodeChar

/-- The counters reach over the rest of the text. -/
def HasRoom (input : Cursor) : Prop := Position.Room [] input.position input.rest.length

variable {input next stop : Cursor} {step : ReadStep} {steps : List ReadStep} {bytes : List UInt8}

/-! ## Single reads -/

theorem nextChar_eq_of_cons {c : Char} {rest : List Char} (drained : input.pending = [])
    (ahead : input.rest = c :: rest) (fits : input.position.Fits c) :
    input.nextChar = .ok (some (c, ⟨input.position.next c, c, [], rest⟩)) :=
  nextChar_eq_some_iff.2 ⟨drained, fits, ahead, rfl⟩

theorem nextByte_eq_of_cons {byte : UInt8} {pending : List UInt8} (ready : input.pending = byte :: pending) :
    input.nextByte = .ok (some (byte, { input with pending })) := by
  simp only [nextByte, ready]

/-- With no bytes pending, the first byte of a character is read with the character. -/
theorem nextByte_eq_of_drained (drained : input.pending = []) :
    input.nextByte = (input.nextChar).map fun found =>
      found.map fun (c, next) => ((String.utf8EncodeChar c).head String.utf8EncodeChar_ne_nil,
        { next with pending := (String.utf8EncodeChar c).tail }) := by
  unfold nextByte
  rw [drained]
  dsimp only
  cases input.nextChar with
  | error fault => rfl
  | ok found => cases found <;> rfl

theorem nextByte_eq_of_nextChar {c : Char} (read : input.nextChar = .ok (some (c, next))) :
    input.nextByte = .ok (some ((String.utf8EncodeChar c).head String.utf8EncodeChar_ne_nil,
      { next with pending := (String.utf8EncodeChar c).tail })) := by
  obtain ⟨drained, -⟩ := nextChar_eq_some_iff.1 read
  rw [nextByte_eq_of_drained drained, read]
  rfl

/-- A byte is a pending one, or it is the first of the next character and the others are pending behind it. -/
theorem nextByte_eq_some_iff {byte : UInt8} :
    input.nextByte = .ok (some (byte, next)) ↔
      input.pending = byte :: next.pending ∧ next = { input with pending := next.pending } ∨
      ∃ c behind, input.nextChar = .ok (some (c, behind)) ∧
        String.utf8EncodeChar c = byte :: next.pending ∧ next = { behind with pending := next.pending } := by
  cases ready : input.pending with
  | cons first pending =>
    rw [nextByte_eq_of_cons ready]
    constructor
    · intro read
      cases read
      exact .inl ⟨rfl, rfl⟩
    · rintro (⟨same, shape⟩ | ⟨c, behind, read, -⟩)
      · obtain ⟨rfl, rest⟩ := List.cons.inj same
        rw [shape, rest]
      · rw [(nextChar_eq_some_iff.1 read).1] at ready
        cases ready
  | nil =>
    constructor
    · intro read
      rw [nextByte_eq_of_drained ready] at read
      cases character : input.nextChar with
      | error fault =>
        rw [character] at read
        cases read
      | ok found =>
        rw [character] at read
        cases found with
        | none => cases read
        | some found =>
          cases read
          exact .inr ⟨_, _, rfl, (List.cons_head_tail _).symm, rfl⟩
    · rintro (⟨same, -⟩ | ⟨c, behind, read, bytes, shape⟩)
      · cases same
      · rw [nextByte_eq_of_nextChar read, shape]
        simp only [bytes, List.head_cons, List.tail_cons]

theorem atEnd_iff : input.atEnd = true ↔ input.pending = [] ∧ input.rest = [] := by
  rw [atEnd, Bool.and_eq_true, List.isEmpty_iff, List.isEmpty_iff]
  exact And.comm

/-- There is a byte to be read unless the text is at its end. -/
theorem nextByte_eq_none_iff : input.nextByte = .ok none ↔ input.atEnd = true := by
  rw [atEnd_iff]
  cases ready : input.pending with
  | cons byte pending => simp [nextByte_eq_of_cons ready]
  | nil =>
    rw [nextByte_eq_of_drained ready]
    have none := @nextChar_eq_none_iff input
    rw [ready] at none
    rw [← none]
    cases input.nextChar with
    | error fault => simp [Except.map]
    | ok found => cases found <;> simp [Except.map]

/-! ## Steps -/

/-- A step passes pending bytes, or it reads a character and passes at least the first of its bytes. What it
    does not pass of them is pending behind it. -/
theorem cases_of_readStep (read : input.readStep step = .ok (bytes, next)) :
    (∃ pending, input.pending = bytes ++ pending ∧ next = { input with pending }) ∨
      ∃ c behind pending, input.nextChar = .ok (some (c, behind)) ∧ bytes ≠ [] ∧
        String.utf8EncodeChar c = bytes ++ pending ∧ next = { behind with pending } := by
  cases step with
  | char =>
    obtain ⟨found, first, result⟩ := bind_eq_ok_iff.1 read
    cases found with
    | none =>
      cases result
      exact .inl ⟨input.pending, rfl, rfl⟩
    | some found =>
      obtain ⟨c, behind⟩ := found
      cases result
      refine .inr ⟨c, next, [], first, String.utf8EncodeChar_ne_nil, (List.append_nil _).symm, ?_⟩
      rw [← pending_of_nextChar first]
  | byte =>
    obtain ⟨found, first, result⟩ := bind_eq_ok_iff.1 read
    cases found with
    | none =>
      cases result
      exact .inl ⟨input.pending, rfl, rfl⟩
    | some found =>
      obtain ⟨byte, behind⟩ := found
      cases result
      rcases nextByte_eq_some_iff.1 first with ⟨ready, shape⟩ | ⟨c, behind, character, encoding, shape⟩
      · exact .inl ⟨next.pending, ready, shape⟩
      · exact .inr ⟨c, behind, next.pending, character, List.cons_ne_nil _ _, encoding, shape⟩
  | drop =>
    cases read
    exact .inl ⟨[], (List.append_nil _).symm, rfl⟩

/-- A step passes the bytes that are next, and the others stay ahead. -/
theorem append_bytesAhead_of_readStep (read : input.readStep step = .ok (bytes, next)) :
    bytes ++ next.bytesAhead = input.bytesAhead := by
  rcases cases_of_readStep read with ⟨pending, ready, rfl⟩ | ⟨c, behind, pending, first, -, encoding, rfl⟩
  · rw [bytesAhead, bytesAhead, ready, List.append_assoc]
  · obtain ⟨drained, -, ahead, -⟩ := nextChar_eq_some_iff.1 first
    rw [bytesAhead, bytesAhead, drained, ahead, List.flatMap_cons, encoding, List.nil_append,
      List.append_assoc]

/-- Where the counters reach, a step can be made unless it is to read a character and bytes are pending. -/
theorem exists_readStep (room : input.HasRoom) (drained : step = .char → input.pending = []) :
    ∃ bytes next, input.readStep step = .ok (bytes, next) ∧ next.HasRoom := by
  have character : input.pending = [] → input.nextChar = .ok none ∨
      ∃ c next, input.nextChar = .ok (some (c, next)) ∧ next.HasRoom := by
    intro drained
    cases ahead : input.rest with
    | nil => exact .inl (nextChar_eq_none_iff.2 ⟨drained, ahead⟩)
    | cons c rest =>
      rw [HasRoom, ahead, List.length_cons] at room
      exact .inr ⟨c, _, nextChar_eq_of_cons drained ahead (room.fits c), room.next c⟩
  cases step with
  | char =>
    rcases character (drained rfl) with none | ⟨c, next, first, roomNext⟩
    · exact ⟨[], input, by rw [readStep, none]; rfl, room⟩
    · exact ⟨_, next, by rw [readStep, first]; rfl, roomNext⟩
  | byte =>
    cases ready : input.pending with
    | cons byte pending =>
      exact ⟨[byte], { input with pending }, by rw [readStep, nextByte_eq_of_cons ready]; rfl, room⟩
    | nil =>
      rcases character ready with none | ⟨c, next, first, roomNext⟩
      · exact ⟨[], input, by rw [readStep, nextByte_eq_of_drained ready, none]; rfl, room⟩
      · exact ⟨_, { next with pending := (String.utf8EncodeChar c).tail },
        by rw [readStep, nextByte_eq_of_nextChar first]; rfl, roomNext⟩
  | drop => exact ⟨input.pending, input.dropPending, rfl, room⟩

/-! ## Runs -/

theorem readSteps_cons_eq_ok_iff :
    input.readSteps (step :: steps) = .ok (bytes, stop) ↔ ∃ first next more,
      input.readStep step = .ok (first, next) ∧ next.readSteps steps = .ok (more, stop) ∧
        bytes = first ++ more := by
  rw [readSteps, bind_eq_ok_iff]
  constructor
  · rintro ⟨⟨first, next⟩, one, rest⟩
    obtain ⟨⟨more, last⟩, others, result⟩ := bind_eq_ok_iff.1 rest
    cases result
    exact ⟨first, next, more, one, others, rfl⟩
  · rintro ⟨first, next, more, one, others, rfl⟩
    exact ⟨_, one, bind_eq_ok_iff.2 ⟨_, others, rfl⟩⟩

theorem drainsFirst_nil : input.DrainsFirst [] := by
  intro before after bytes middle cut
  simp at cut

theorem drainsFirst_cons_iff :
    input.DrainsFirst (step :: steps) ↔ (step = .char → input.pending = []) ∧
      ∀ bytes next, input.readStep step = .ok (bytes, next) → next.DrainsFirst steps := by
  constructor
  · intro drains
    constructor
    · rintro rfl
      exact drains [] steps [] input rfl rfl
    · rintro bytes next read before after passed middle rfl reads
      exact drains (step :: before) after (bytes ++ passed) middle rfl
        (readSteps_cons_eq_ok_iff.2 ⟨_, _, _, read, reads, rfl⟩)
  · rintro ⟨first, rest⟩ before after bytes middle cut reads
    rcases List.cons_eq_append_iff.1 cut with ⟨rfl, here⟩ | ⟨before, rfl, rfl⟩
    · cases here
      cases reads
      exact first rfl
    · obtain ⟨passed, next, more, read, others, -⟩ := readSteps_cons_eq_ok_iff.1 reads
      exact rest passed next read before after more middle rfl others

instance decidableDrainsFirst (input : Cursor) : (steps : List ReadStep) → Decidable (input.DrainsFirst steps)
  | [] => .isTrue drainsFirst_nil
  | step :: steps =>
    match read : input.readStep step with
    | .error _ => decidable_of_iff (step = .char → input.pending = []) (by simp [drainsFirst_cons_iff, read])
    | .ok (_, next) =>
      have := decidableDrainsFirst next steps
      decidable_of_iff ((step = .char → input.pending = []) ∧ next.DrainsFirst steps)
        (by simp [drainsFirst_cons_iff, read])

theorem append_bytesAhead_of_readSteps (reads : input.readSteps steps = .ok (bytes, stop)) :
    bytes ++ stop.bytesAhead = input.bytesAhead := by
  induction steps generalizing input bytes with
  | nil =>
    cases reads
    rfl
  | cons step steps ih =>
    obtain ⟨first, next, more, one, others, rfl⟩ := readSteps_cons_eq_ok_iff.1 reads
    rw [List.append_assoc, ih others]
    exact append_bytesAhead_of_readStep one

theorem exists_readSteps (room : input.HasRoom) (drains : input.DrainsFirst steps) :
    ∃ bytes stop, input.readSteps steps = .ok (bytes, stop) := by
  induction steps generalizing input with
  | nil => exact ⟨[], input, rfl⟩
  | cons step steps ih =>
    obtain ⟨drained, drains⟩ := drainsFirst_cons_iff.1 drains
    obtain ⟨first, next, one, roomNext⟩ := exists_readStep room drained
    obtain ⟨more, stop, others⟩ := ih roomNext (drains first next one)
    exact ⟨first ++ more, stop, readSteps_cons_eq_ok_iff.2 ⟨_, _, _, one, others, rfl⟩⟩

theorem bytesAhead_ofString (source : String) : (ofString source).bytesAhead = source.toUTF8.data.toList := by
  change source.toList.flatMap String.utf8EncodeChar = source.toByteArray.data.toList
  rw [← String.utf8Encode_toList, List.utf8Encode, List.data_toByteArray]

theorem bytesAhead_eq (input : Cursor) :
    input.bytesAhead = input.pending ++ (String.ofList input.rest).toUTF8.data.toList := by
  change _ = input.pending ++ (String.ofList input.rest).toByteArray.data.toList
  rw [String.toByteArray_ofList, List.utf8Encode, List.data_toByteArray]
  rfl

/-- The counters reach over any text of that size, even if all its characters are tabs. -/
theorem hasRoom_ofString {source : String} (small : source.length < 2 ^ 28) : (ofString source).HasRoom := by
  refine Position.room_start ?_
  rw [List.length_nil, Nat.zero_add]
  change source.toList.length < 2 ^ 28
  rw [String.length_toList]
  exact small

/-- However bytes and characters are read in turn, as long as no character is read with bytes pending: what
    has been passed, what is pending and the rest of the text are, one behind the other, the bytes of the
    text. There is another byte to be read unless the text is at its end. -/
theorem bytes_of_readSteps {source : String} {steps : List ReadStep} (small : source.length < 2 ^ 28)
    (drains : (ofString source).DrainsFirst steps) :
    ∃ bytes stop, (ofString source).readSteps steps = .ok (bytes, stop) ∧
      bytes ++ stop.pending ++ (String.ofList stop.rest).toUTF8.data.toList = source.toUTF8.data.toList ∧
      (stop.nextByte = .ok none ↔ stop.atEnd = true) := by
  obtain ⟨bytes, stop, reads⟩ := exists_readSteps (hasRoom_ofString small) drains
  refine ⟨bytes, stop, reads, ?_, nextByte_eq_none_iff⟩
  rw [List.append_assoc, ← bytesAhead_eq, append_bytesAhead_of_readSteps reads, bytesAhead_ofString]

theorem bytes_of_readSteps_euro :
    (ofString "€λ\t𝄞").DrainsFirst [.byte, .drop, .byte, .byte, .char, .byte, .byte] ∧
      ∃ bytes stop, (ofString "€λ\t𝄞").readSteps [.byte, .drop, .byte, .byte, .char, .byte, .byte] =
          .ok (bytes, stop) ∧
        bytes ++ stop.pending ++ (String.ofList stop.rest).toUTF8.data.toList = "€λ\t𝄞".toUTF8.data.toList ∧
        (stop.nextByte = .ok none ↔ stop.atEnd = true) :=
  have drains : (ofString "€λ\t𝄞").DrainsFirst [.byte, .drop, .byte, .byte, .char, .byte, .byte] := by
    decide +kernel
  ⟨drains, bytes_of_readSteps (by decide +kernel) drains⟩

end Cursor

end LexSpec
