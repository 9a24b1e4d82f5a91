import LexSpec.Proofs.Cursor.Bytes

/-! # What a cursor knows of its text

However a text has been read, by characters or by bytes, the cursor behind it agrees with the part that has
been consumed: `Consumed source consumed input`. Each `ReadStep` keeps this (`Consumed.readStep`), and so it
holds of every cursor that is read on from the beginning of a text (`ReadsOn.exists_consumed`).

* `ReadsOn`: reading in any way leads from one cursor to another.
* `exists_nextChar_error_iff`: in a text over which the counters reach, only pending bytes keep a character
  from being read.
-/

namespace LexSpec.Cursor

variable {source : String} {consumed : List Char} {input middle next stop : Cursor} {step : ReadStep}
  {bytes : List UInt8} {c : Char}

/-! ## Reading on -/

/-- Reading by characters, by bytes or past pending bytes leads from one cursor to another. -/
def ReadsOn (input stop : Cursor) : Prop := ∃ steps bytes, input.readSteps steps = .ok (bytes, stop)

theorem readSteps_append_eq_ok_iff {front back : List ReadStep} :
    input.readSteps (front ++ back) = .ok (bytes, stop) ↔ ∃ first middle more,
      input.readSteps front = .ok (first, middle) ∧ middle.readSteps back = .ok (more, stop) ∧
        bytes = first ++ more := by
  induction front generalizing input bytes with
  | nil =>
    constructor
    · exact fun reads => ⟨[], input, bytes, rfl, reads, rfl⟩
    · rintro ⟨first, middle, more, nothing, reads, rfl⟩
      cases nothing
      exact reads
  | cons step front ih =>
    rw [List.cons_append, readSteps_cons_eq_ok_iff]
    constructor
    · rintro ⟨first, next, more, one, others, rfl⟩
      obtain ⟨second, middle, last, before, behind, rfl⟩ := ih.1 others
      exact ⟨first ++ second, middle, last, readSteps_cons_eq_ok_iff.2 ⟨_, _, _, one, before, rfl⟩, behind,
        (List.append_assoc ..).symm⟩
    · rintro ⟨all, middle, last, before, behind, rfl⟩
      obtain ⟨first, next, second, one, others, rfl⟩ := readSteps_cons_eq_ok_iff.1 before
      exact ⟨first, next, second ++ last, one, ih.2 ⟨_, _, _, others, behind, rfl⟩, List.append_assoc ..⟩

namespace ReadsOn

theorem refl (input : Cursor) : input.ReadsOn input := ⟨[], [], rfl⟩

theorem trans (first : input.ReadsOn middle) (rest : middle.ReadsOn stop) : input.ReadsOn stop := by
  obtain ⟨steps, bytes, reads⟩ := first
  obtain ⟨others, more, readsMore⟩ := rest
  exact ⟨steps ++ others, bytes ++ more, readSteps_append_eq_ok_iff.2 ⟨_, _, _, reads, readsMore, rfl⟩⟩

theorem of_readStep (read : input.readStep step = .ok (bytes, next)) : input.ReadsOn next :=
  ⟨[step], bytes ++ [], readSteps_cons_eq_ok_iff.2 ⟨_, _, _, read, rfl, rfl⟩⟩

theorem of_nextChar (read : input.nextChar = .ok (some (c, next))) : input.ReadsOn next := by
  refine @of_readStep _ _ .char (String.utf8EncodeChar c) ?_
  rw [readStep, read]
  rfl

theorem of_nextByte {byte : UInt8} (read : input.nextByte = .ok (some (byte, next))) :
    input.ReadsOn next := by
  refine @of_readStep _ _ .byte [byte] ?_
  rw [readStep, read]
  rfl

theorem dropPending (input : Cursor) : input.ReadsOn input.dropPending :=
  @of_readStep _ _ .drop input.pending rfl

theorem of_reads {text : List Char} (reads : input.Reads text stop) : input.ReadsOn stop := by
  induction reads with
  | nil => exact .refl _
  | cons first _ ih => exact (of_nextChar first).trans ih

end ReadsOn

/-! ## The part that has been consumed -/

/-- What a cursor knows of a text of which `consumed` has been read: the rest, the place behind the part that
    has been read and its last character. Pending are bytes at the end of that character, but never all of
    them. -/
structure Consumed (source : String) (consumed : List Char) (input : Cursor) : Prop where
  text : source.toList = consumed ++ input.rest
  position : Position.start.advanceOver consumed = .ok input.position
  last : input.last = consumed.getLast?.getD '\n'
  suffix : input.pending <:+ String.utf8EncodeChar input.last
  proper : input.pending ≠ String.utf8EncodeChar input.last
  drained : consumed = [] → input.pending = []

namespace Consumed

theorem ofString (source : String) : Consumed source [] (ofString source) where
  text := rfl
  position := rfl
  last := rfl
  suffix := List.nil_suffix
  proper := String.utf8EncodeChar_ne_nil.symm
  drained _ := rfl

/-- Of the last character fewer bytes can be pending. -/
theorem of_suffix {pending : List UInt8} (holds : Consumed source consumed input)
    (fewer : pending <:+ input.pending) : Consumed source consumed { input with pending } where
  text := holds.text
  position := holds.position
  last := holds.last
  suffix := fewer.trans holds.suffix
  proper := by
    intro (same : pending = String.utf8EncodeChar input.last)
    exact holds.proper (holds.suffix.eq_of_length_le (same ▸ fewer.length_le))
  drained nothing := List.suffix_nil.1 (holds.drained nothing ▸ fewer)

/-- Behind a character, all its bytes but the first can be pending. -/
theorem of_nextChar {pending : List UInt8} (holds : Consumed source consumed input)
    (read : input.nextChar = .ok (some (c, next))) (suffix : pending <:+ String.utf8EncodeChar c)
    (proper : pending ≠ String.utf8EncodeChar c) :
    Consumed source (consumed ++ [c]) { next with pending } := by
  obtain ⟨-, fits, ahead, shape⟩ := nextChar_eq_some_iff.1 read
  have last : next.last = c := by rw [shape]
  have place : next.position = input.position.next c := by rw [shape]
  refine ⟨?_, ?_, ?_, last ▸ suffix, last ▸ proper, by simp⟩
  · rw [holds.text, ahead, List.append_cons]
  · exact Position.advanceOver_append_eq_ok_iff.2 ⟨_, holds.position,
      Position.advanceOver_cons_eq_ok_iff.2 ⟨fits, place ▸ rfl⟩⟩
  · simp [last]

theorem readStep (holds : Consumed source consumed input) (read : input.readStep step = .ok (bytes, next)) :
    ∃ more, Consumed source (consumed ++ more) next := by
  rcases cases_of_readStep read with ⟨pending, ready, rfl⟩ | ⟨c, behind, pending, first, some, encoding, rfl⟩
  · refine ⟨[], ?_⟩
    rw [List.append_nil]
    exact holds.of_suffix ⟨bytes, ready.symm⟩
  · refine ⟨[c], holds.of_nextChar first ⟨bytes, encoding.symm⟩ fun whole => some ?_⟩
    exact List.append_left_eq_self.1 (encoding.symm.trans whole.symm)

theorem readSteps {steps : List ReadStep} (holds : Consumed source consumed input)
    (reads : input.readSteps steps = .ok (bytes, stop)) :
    ∃ more, Consumed source (consumed ++ more) stop := by
  induction steps generalizing input consumed bytes with
  | nil =>
    cases reads
    exact ⟨[], by rwa [List.append_nil]⟩
  | cons step steps ih =>
    obtain ⟨first, next, others, one, rest, rfl⟩ := readSteps_cons_eq_ok_iff.1 reads
    obtain ⟨text, between⟩ := holds.readStep one
    obtain ⟨more, final⟩ := ih between rest
    exact ⟨text ++ more, by rwa [← List.append_assoc]⟩

theorem readsOn (holds : Consumed source consumed input) (reads : input.ReadsOn stop) :
    ∃ more, Consumed source (consumed ++ more) stop := by
  obtain ⟨steps, bytes, run⟩ := reads
  exact holds.readSteps run

end Consumed

/-- Whatever is read of a text, the cursor knows what has been consumed. -/
theorem ReadsOn.exists_consumed (reads : (ofString source).ReadsOn input) :
    ∃ consumed, Consumed source consumed input :=
  (Consumed.ofString source).readsOn reads

/-- Where the counters reach over a text, only pending bytes keep a character from being read. -/
theorem Consumed.exists_nextChar_error_iff (holds : Consumed source consumed input)
    (small : source.length < 2 ^ 28) : (∃ fault, input.nextChar = .error fault) ↔ input.pending ≠ [] := by
  have room : Position.Room [] .start source.toList.length := hasRoom_ofString small
  obtain ⟨final, whole⟩ := room.exists_advanceOver
  rw [holds.text] at whole
  obtain ⟨middle, first, rest⟩ := Position.advanceOver_append_eq_ok_iff.1 whole
  cases holds.position.symm.trans first
  cases ready : input.pending with
  | cons byte pending => simp [nextChar, ready]
  | nil =>
    cases ahead : input.rest with
    | nil => simp [nextChar_eq_none_iff.2 ⟨ready, ahead⟩]
    | cons c behind =>
      rw [ahead] at rest
      obtain ⟨fits, -⟩ := Position.advanceOver_cons_eq_ok_iff.1 rest
      simp [nextChar_eq_of_cons ready ahead fits]

end LexSpec.Cursor
