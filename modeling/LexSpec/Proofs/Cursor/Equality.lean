import LexSpec.Proofs.Cursor.Consumed
import LexSpec.Proofs.Cursor.Window

/-! # Cursors that are the same

Two cursors are the same if they tell the same of the text and the same bytes are pending. Where these bytes are
kept, and which bytes have been drained from there, does not count: `WindowCursor.same` looks at the windows only
through what is in them.

In one text the offset and the number of pending bytes decide it (`Cursor.ReadsOn.eq_iff`), so it does not matter
how a cursor has been reached. What is read at cursors that are the same is the same, and so are the cursors
behind it (`Alike.of_mirrors`). Both are put together in `same_of_readSteps`.
-/

namespace LexSpec

/-! ## Cursors of one text -/

namespace Cursor

variable {source : String} {consumed others : List Char} {input other next : Cursor}

theorem Consumed.eq_of_length (holds : Consumed source consumed input) (holds' : Consumed source others other)
    (length : consumed.length = others.length) (pending : input.pending.length = other.pending.length) :
    input = other := by
  obtain ⟨rfl, rest⟩ := List.append_inj (holds.text.symm.trans holds'.text) length
  have place : input.position = other.position := Except.ok.inj (holds.position.symm.trans holds'.position)
  have last : input.last = other.last := holds.last.trans holds'.last.symm
  -- of the bytes of one character, the same number is pending
  have suffix : input.pending <:+ other.pending :=
    List.suffix_of_suffix_length_le holds.suffix (last ▸ holds'.suffix) (Nat.le_of_eq pending)
  have bytes := suffix.eq_of_length pending
  cases input
  cases other
  cases place
  cases last
  cases bytes
  cases rest
  rfl

/-- Cursors of one text are equal where the same number of characters has been read and the same number of
    bytes is pending. -/
theorem ReadsOn.eq_iff (reads : (ofString source).ReadsOn input) (reads' : (ofString source).ReadsOn other) :
    input = other ↔
      input.position.offset = other.position.offset ∧ input.pending.length = other.pending.length := by
  constructor
  · rintro rfl
    exact ⟨rfl, rfl⟩
  · rintro ⟨offset, pending⟩
    obtain ⟨consumed, holds⟩ := reads.exists_consumed
    obtain ⟨others, holds'⟩ := reads'.exists_consumed
    rw [Position.offset_of_advanceOver holds.position, Position.offset_of_advanceOver holds'.position] at offset
    exact holds.eq_of_length holds' offset pending

/-- Pending bytes are read one by one. -/
theorem readSteps_of_pending {count : Nat} (ready : count ≤ input.pending.length) :
    input.readSteps (List.replicate count .byte) =
      .ok (input.pending.take count, { input with pending := input.pending.drop count }) := by
  induction count generalizing input with
  | zero => rfl
  | succ count ih =>
    cases bytes : input.pending with
    | nil => simp [bytes] at ready
    | cons byte pending =>
      rw [bytes, List.length_cons] at ready
      have first : input.readStep .byte = .ok ([byte], { input with pending }) := by
        rw [readStep, nextByte_eq_of_cons bytes]
        rfl
      have rest := @ih { input with pending } (Nat.le_of_succ_le_succ ready)
      exact readSteps_cons_eq_ok_iff.2 ⟨_, _, _, first, rest, rfl⟩

/-- The bytes of a character are read one by one, and what is left of them is pending. -/
theorem readSteps_of_nextChar {c : Char} {count : Nat} (read : input.nextChar = .ok (some (c, next)))
    (some : 0 < count) (fewer : count ≤ c.utf8Size) :
    input.readSteps (List.replicate count .byte) = .ok ((String.utf8EncodeChar c).take count,
      { next with pending := (String.utf8EncodeChar c).drop count }) := by
  obtain ⟨count, rfl⟩ := Nat.exists_eq_succ_of_ne_zero (Nat.ne_of_gt some)
  obtain ⟨byte, pending, bytes⟩ := List.exists_cons_of_ne_nil (@String.utf8EncodeChar_ne_nil c)
  have length := String.length_utf8EncodeChar c
  rw [bytes, List.length_cons] at length
  have first : input.readStep .byte = .ok ([byte], { next with pending }) := by
    rw [readStep, nextByte_eq_of_nextChar read]
    simp only [bytes]
    rfl
  have rest : Cursor.readSteps { next with pending } (List.replicate count .byte) = _ :=
    readSteps_of_pending (show count ≤ pending.length by omega)
  rw [bytes]
  exact readSteps_cons_eq_ok_iff.2 ⟨_, _, _, first, rest, rfl⟩

end Cursor

/-! ## Sameness -/

namespace WindowCursor

/-- Drops the pending bytes. -/
def dropPending (input : WindowCursor) : WindowCursor := { input with window := .empty }

/-- The cursors are the same: they tell the same of the text, and the same bytes are pending. -/
def same (input other : WindowCursor) : Except Breach Bool :=
  if input.position = other.position ∧ input.last = other.last then do
    let bytes ← input.window.bytes
    let others ← other.window.bytes
    return decide (bytes = others ∧ input.rest = other.rest)
  else return false

end WindowCursor

/-- Two reads come to the same. Both break off for the same reason, both find nothing, or both find the same and
    the cursors behind it are the same. -/
inductive Alike {α : Type} : Except Breach (Option (α × WindowCursor)) →
    Except Breach (Option (α × WindowCursor)) → Prop where
  | error {breach : Breach} : Alike (.error breach) (.error breach)
  | none : Alike (.ok none) (.ok none)
  | some {value : α} {next next' : WindowCursor} (behind : next.same next' = .ok true) :
      Alike (.ok (some (value, next))) (.ok (some (value, next')))

namespace WindowCursor.Shows

variable {packed other : WindowCursor} {input input' : Cursor}

theorem dropPending (shows : packed.Shows input) : packed.dropPending.Shows input.dropPending :=
  ⟨shows.position, shows.last, shows.rest, ByteWindow.holds_empty⟩

/-- Sameness is equality of the cursors that are shown. -/
theorem same_eq (shows : packed.Shows input) (shows' : other.Shows input') :
    packed.same other = .ok (decide (input = input')) := by
  have fields : input = input' ↔ (input.position = input'.position ∧ input.last = input'.last) ∧
      input.pending = input'.pending ∧ input.rest = input'.rest := by
    cases input
    cases input'
    rw [Cursor.mk.injEq, and_assoc]
  unfold WindowCursor.same
  rw [shows.position, shows.last, shows.rest, shows'.position, shows'.last, shows'.rest, shows.window.bytes_eq,
    shows'.window.bytes_eq]
  split
  next told => simp [fields, told, bind, Except.bind, pure, Except.pure]
  next told => simp [fields, told, pure, Except.pure]

theorem same_self (shows : packed.Shows input) (shows' : other.Shows input) : packed.same other = .ok true := by
  rw [shows.same_eq shows', decide_eq_true rfl]

end WindowCursor.Shows

theorem Alike.of_mirrors {α : Type} {x x' : Except Breach (Option (α × WindowCursor))}
    {y : Except Fault (Option (α × Cursor))} (mirrors : Mirrors (Option.Rel SameBehind) x y)
    (mirrors' : Mirrors (Option.Rel SameBehind) x' y) : Alike x x' := by
  cases mirrors with
  | error =>
    cases mirrors'
    exact .error
  | ok found =>
    cases mirrors' with
    | ok found' =>
      cases found with
      | none =>
        cases found'
        exact .none
      | @some first _ found =>
        cases found' with
        | @some second _ found' =>
          obtain ⟨value, next⟩ := first
          obtain ⟨value', next'⟩ := second
          obtain ⟨rfl, shows⟩ := found
          obtain ⟨rfl, shows'⟩ := found'
          exact .some (shows.same_self shows')

/-! ## Reached cursors -/

theorem Mirrors.exists_right {α : Type} {x : Except Breach (α × WindowCursor)} {y : Except Fault (α × Cursor)}
    {value : α} {packed : WindowCursor} (mirrors : Mirrors SameBehind x y) (given : x = .ok (value, packed)) :
    ∃ input, y = .ok (value, input) ∧ packed.Shows input := by
  subst given
  cases mirrors with
  | @ok _ found same =>
    obtain ⟨rfl, shows⟩ := same
    exact ⟨found.2, rfl, shows⟩

theorem Mirrors.exists_left {α : Type} {x : Except Breach (α × WindowCursor)} {y : Except Fault (α × Cursor)}
    {value : α} {input : Cursor} (mirrors : Mirrors SameBehind x y) (given : y = .ok (value, input)) :
    ∃ packed, x = .ok (value, packed) ∧ packed.Shows input := by
  subst given
  cases mirrors with
  | @ok found _ same =>
    obtain ⟨rfl, shows⟩ := same
    exact ⟨found.2, rfl, shows⟩

namespace WindowCursor

variable {source : String} {steps : List ReadStep} {bytes : List UInt8} {packed : WindowCursor}

theorem shows_ofString (source : String) : (ofString source).Shows (.ofString source) :=
  ⟨rfl, rfl, rfl, ByteWindow.holds_empty⟩

theorem exists_shows_of_readSteps (reads : (ofString source).readSteps steps = .ok (bytes, packed)) :
    ∃ input, (Cursor.ofString source).readSteps steps = .ok (bytes, input) ∧ packed.Shows input :=
  (readSteps_mirrors (shows_ofString source) steps).exists_right reads

/-- Reading bytes of a character leads to the cursor behind the character as soon as all of them are read, or
    those that are left are dropped. -/
theorem Shows.drains {input : Cursor} {c : Char} {next : WindowCursor} (shows : packed.Shows input)
    (read : packed.nextChar = .ok (some (c, next))) {count : Nat} (some : 0 < count)
    (fewer : count ≤ c.utf8Size) :
    ∃ part, packed.readSteps (List.replicate count .byte) = .ok ((String.utf8EncodeChar c).take count, part) ∧
      part.dropPending.same next = .ok true ∧ (count = c.utf8Size → part.same next = .ok true) := by
  have mirrors := nextChar_mirrors shows
  rw [read] at mirrors
  generalize first : input.nextChar = found at mirrors
  cases mirrors with
  | ok found =>
    cases found with
    | @some _ found same =>
      obtain ⟨d, behind⟩ := found
      obtain ⟨rfl, shown⟩ := same
      have drained : behind.pending = [] := Cursor.pending_of_nextChar first
      obtain ⟨part, reads, shownPart⟩ := (readSteps_mirrors shows (List.replicate count .byte)).exists_left
        (Cursor.readSteps_of_nextChar first some fewer)
      refine ⟨part, reads, ?_, fun all => ?_⟩
      · refine shownPart.dropPending.same_self ?_
        simp only [Cursor.dropPending, ← drained]
        exact shown
      · rw [all, List.drop_eq_nil_of_le (Nat.le_of_eq (String.length_utf8EncodeChar _)), ← drained] at shownPart
        exact shownPart.same_self shown

/-- It does not matter how a cursor of a text has been reached. The offset and the number of pending bytes
    decide whether two of them are the same. At cursors that are the same, each way to read on comes to the same.
    All bytes of a character lead to where the character does, and so does any part of them when the rest is
    dropped. -/
theorem same_of_readSteps {others : List ReadStep} {more : List UInt8} {other : WindowCursor}
    (reads : (ofString source).readSteps steps = .ok (bytes, packed))
    (reads' : (ofString source).readSteps others = .ok (more, other)) :
    (∃ input input' : Cursor, (Cursor.ofString source).readSteps steps = .ok (bytes, input) ∧
        (Cursor.ofString source).readSteps others = .ok (more, input') ∧
        packed.same other = .ok (decide (input = input'))) ∧
      (packed.same other = .ok true ↔
        packed.position.offset = other.position.offset ∧ packed.window.length = other.window.length) ∧
      (packed.same other = .ok true → Alike packed.nextChar other.nextChar ∧
        Alike packed.nextByte other.nextByte ∧ packed.dropPending.same other.dropPending = .ok true) ∧
      ∀ c next, packed.nextChar = .ok (some (c, next)) → ∀ count, 0 < count → count ≤ c.utf8Size →
        ∃ part, packed.readSteps (List.replicate count .byte) = .ok ((String.utf8EncodeChar c).take count, part) ∧
          part.dropPending.same next = .ok true ∧ (count = c.utf8Size → part.same next = .ok true) := by
  obtain ⟨input, plain, shows⟩ := exists_shows_of_readSteps reads
  obtain ⟨input', plain', shows'⟩ := exists_shows_of_readSteps reads'
  have decides := Cursor.ReadsOn.eq_iff ⟨_, _, plain⟩ ⟨_, _, plain'⟩
  refine ⟨⟨input, input', plain, plain', shows.same_eq shows'⟩, ?_, fun same => ?_,
    fun c next read count some fewer => shows.drains read some fewer⟩
  · rw [shows.same_eq shows', shows.position, shows'.position, shows.window.length_eq, shows'.window.length_eq,
      Except.ok.injEq, Except.ok.injEq, decide_eq_true_iff, decides]
  · rw [shows.same_eq shows', Except.ok.injEq, decide_eq_true_iff] at same
    subst same
    exact ⟨.of_mirrors (nextChar_mirrors shows) (nextChar_mirrors shows'),
      .of_mirrors (nextByte_mirrors shows) (nextByte_mirrors shows'),
      shows.dropPending.same_self shows'.dropPending⟩

theorem same_of_readSteps_euro :
    ∃ packed other : WindowCursor,
      (ofString "€λ").readSteps [.byte, .byte, .byte] = .ok ([0xE2, 0x82, 0xAC], packed) ∧
      (ofString "€λ").readSteps [.char] = .ok ([0xE2, 0x82, 0xAC], other) ∧ packed.window ≠ other.window ∧
      packed.same other = .ok true ∧ Alike packed.nextByte other.nextByte :=
  have reads : (ofString "€λ").readSteps [.byte, .byte, .byte] =
      .ok ([0xE2, 0x82, 0xAC], ⟨⟨1, 1, 2⟩, '€', ⟨[0xE2, 0x82, 0xAC, 0], 3, 3⟩, ['λ']⟩) := by decide +kernel
  have reads' : (ofString "€λ").readSteps [.char] =
      .ok ([0xE2, 0x82, 0xAC], ⟨⟨1, 1, 2⟩, '€', .empty, ['λ']⟩) := by decide +kernel
  have ⟨_, decides, alike, _⟩ := same_of_readSteps reads reads'
  have same := decides.2 (by decide)
  ⟨_, _, reads, reads', by decide, same, (alike same).2.1⟩

end WindowCursor

end LexSpec
