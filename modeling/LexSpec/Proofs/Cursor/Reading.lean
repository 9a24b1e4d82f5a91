import LexSpec.Cursor
import LexSpec.Proofs.Agreement
import LexSpec.Proofs.Position

/-! # What has been read

`Cursor.Reads input text stop` says that reading the characters of `text` one by one leads from `input`
to `stop`. It is what every loop over a cursor does, and it fixes the cursor behind the text: what is left
(`Reads.rest_eq`), where it is (`Reads.position_eq`) and the last character (`Reads.last_eq`). A text that
is ahead is read as far as the counters of positions reach over it (`exists_reads`).

`takeWhile_eq_ok_iff` says what a loop with a test reads: characters that pass it, up to where it `Halts`.
-/

namespace LexSpec

namespace Cursor

theorem nextChar_eq_none_iff {input : Cursor} :
    input.nextChar = .ok none ↔ input.pending = [] ∧ input.rest = [] := by
  obtain ⟨position, last, pending, rest⟩ := input
  cases pending with
  | cons byte pending => simp [nextChar]
  | nil =>
    cases rest with
    | nil => simp [nextChar]
    | cons c rest =>
      simp only [nextChar]
      cases position.advance c <;> simp [bind, Except.bind, pure, Except.pure]

theorem nextChar_eq_some_iff {input next : Cursor} {c : Char} :
    input.nextChar = .ok (some (c, next)) ↔ input.pending = [] ∧ input.position.Fits c ∧
      input.rest = c :: next.rest ∧ next = ⟨input.position.next c, c, [], next.rest⟩ := by
  obtain ⟨position, last, pending, rest⟩ := input
  cases pending with
  | cons byte pending => simp [nextChar]
  | nil =>
    cases rest with
    | nil => simp [nextChar]
    | cons d rest =>
      by_cases fits : position.Fits d
      · simp only [nextChar, Position.advance, fits, if_true, bind, Except.bind, pure, Except.pure,
          Except.ok.injEq, Option.some.injEq, Prod.mk.injEq, List.cons.injEq, true_and]
        constructor
        · rintro ⟨rfl, rfl⟩
          exact ⟨fits, ⟨rfl, rfl⟩, rfl⟩
        · rintro ⟨-, ⟨rfl, same⟩, shape⟩
          exact ⟨rfl, by rw [shape, same]⟩
      · simp only [nextChar, Position.advance, fits, if_false, bind, Except.bind, reduceCtorEq,
          List.cons.injEq, true_and, false_iff]
        rintro ⟨fitsOther, ⟨rfl, -⟩, -⟩
        exact fits fitsOther

/-- Reading a text character by character leads from one cursor to another. -/
inductive Reads : Cursor → List Char → Cursor → Prop where
  | nil {input : Cursor} : Reads input [] input
  | cons {input next stop : Cursor} {c : Char} {text : List Char}
      (first : input.nextChar = .ok (some (c, next))) (rest : Reads next text stop) :
      Reads input (c :: text) stop

namespace Reads

variable {input middle stop : Cursor} {text more : List Char}

theorem append (first : Reads input text middle) (rest : Reads middle more stop) :
    Reads input (text ++ more) stop := by
  induction first with
  | nil => exact rest
  | cons step _ ih => exact .cons step (ih rest)

theorem rest_eq (reads : Reads input text stop) : input.rest = text ++ stop.rest := by
  induction reads with
  | nil => rfl
  | cons step _ ih =>
    obtain ⟨-, -, rest, -⟩ := nextChar_eq_some_iff.1 step
    rw [rest, ih, List.cons_append]

theorem pending_eq_nil (reads : Reads input text stop) (drained : input.pending = []) :
    stop.pending = [] := by
  induction reads with
  | nil => exact drained
  | cons step _ ih =>
    obtain ⟨-, -, -, shape⟩ := nextChar_eq_some_iff.1 step
    exact ih (by rw [shape])

theorem position_eq (reads : Reads input text stop) :
    stop.position = text.foldl Position.next input.position := by
  induction reads with
  | nil => rfl
  | cons step _ ih =>
    obtain ⟨-, -, -, shape⟩ := nextChar_eq_some_iff.1 step
    rw [ih, List.foldl_cons, shape]

theorem last_eq (reads : Reads input text stop) : stop.last = text.getLast?.getD input.last := by
  induction reads with
  | nil => rfl
  | @cons input next stop c text step _ ih =>
    obtain ⟨-, -, -, shape⟩ := nextChar_eq_some_iff.1 step
    have last : next.last = c := by rw [shape]
    rw [ih, last]
    cases text with
    | nil => rfl
    | cons d text => simp [List.getLast?_cons]

theorem advanceOver_eq (reads : Reads input text stop) :
    input.position.advanceOver text = .ok stop.position := by
  induction reads with
  | nil => rfl
  | cons step _ ih =>
    obtain ⟨-, fits, -, shape⟩ := nextChar_eq_some_iff.1 step
    rw [shape] at ih
    exact Position.advanceOver_cons_eq_ok_iff.2 ⟨fits, ih⟩

theorem split (reads : Reads input (text ++ more) stop) :
    ∃ middle, Reads input text middle ∧ Reads middle more stop := by
  induction text generalizing input with
  | nil => exact ⟨input, .nil, reads⟩
  | cons c text ih =>
    cases reads with
    | cons first rest =>
      obtain ⟨middle, front, back⟩ := ih rest
      exact ⟨middle, .cons first front, back⟩

end Reads

/-- A text that is ahead is read where the counters reach over it. -/
theorem exists_reads {input : Cursor} {text more : List Char} {position : Position}
    (drained : input.pending = []) (ahead : input.rest = text ++ more)
    (reaches : input.position.advanceOver text = .ok position) :
    ∃ stop, Reads input text stop ∧ stop.rest = more := by
  induction text generalizing input with
  | nil => exact ⟨input, .nil, ahead⟩
  | cons c text ih =>
    obtain ⟨fits, reaches⟩ := Position.advanceOver_cons_eq_ok_iff.1 reaches
    obtain ⟨stop, rest, final⟩ := @ih ⟨input.position.next c, c, [], text ++ more⟩ rfl rfl reaches
    have first : input.nextChar = .ok (some (c, ⟨input.position.next c, c, [], text ++ more⟩)) :=
      nextChar_eq_some_iff.2 ⟨drained, fits, ahead, rfl⟩
    exact ⟨stop, .cons first rest, final⟩

/-! ## Reading while a test holds -/

/-- The next character can be read, if there is one. -/
def Readable (input : Cursor) : Prop := ∃ found, input.nextChar = .ok found

/-- A loop with a test comes to its end here: the next character fails the test, or there is none. -/
structure Halts (p : Char → Bool) (input : Cursor) : Prop where
  readable : input.Readable
  fails : ∀ c ∈ input.rest.head?, p c = false

theorem readable_of_rest_eq_nil {input : Cursor} (drained : input.pending = [])
    (finished : input.rest = []) : input.Readable :=
  ⟨none, nextChar_eq_none_iff.2 ⟨drained, finished⟩⟩

theorem Reads.readable {input stop : Cursor} {text : List Char} (reads : Reads input text stop)
    (readable : stop.Readable) : input.Readable := by
  cases reads with
  | nil => exact readable
  | cons first _ => exact ⟨_, first⟩

theorem takeWhile_eq {p : Char → Bool} (input : Cursor) :
    input.takeWhile p =
      match input.nextChar with
      | .error fault => .error fault
      | .ok none => .ok ([], input)
      | .ok (some (c, next)) =>
        if p c then do
          let (taken, stop) ← next.takeWhile p
          return (c :: taken, stop)
        else .ok ([], input) := by
  rw [takeWhile]
  split <;> simp_all

theorem reads_of_takeWhile {p : Char → Bool} {input stop : Cursor} {taken : List Char}
    (h : input.takeWhile p = .ok (taken, stop)) :
    Reads input taken stop ∧ (∀ c ∈ taken, p c) ∧ stop.Halts p := by
  fun_induction takeWhile p input generalizing taken with
  | case1 input fault read => cases h
  | case2 input read =>
    cases h
    obtain ⟨-, finished⟩ := nextChar_eq_none_iff.1 read
    exact ⟨.nil, by simp, ⟨_, read⟩, by simp [finished]⟩
  | case3 input c next read test ih =>
    obtain ⟨⟨more, stop⟩, rest, result⟩ := bind_eq_ok_iff.1 h
    cases result
    obtain ⟨reads, all, halts⟩ := ih rest
    exact ⟨.cons read reads, List.forall_mem_cons.2 ⟨test, all⟩, halts⟩
  | case4 input c next read test =>
    cases h
    obtain ⟨-, -, ahead, -⟩ := nextChar_eq_some_iff.1 read
    exact ⟨.nil, by simp, ⟨_, read⟩, by simpa [ahead] using test⟩

/-- A loop with a test reads the characters that pass it and no others. -/
theorem takeWhile_eq_ok_iff {p : Char → Bool} {input stop : Cursor} {taken : List Char} :
    input.takeWhile p = .ok (taken, stop) ↔
      Reads input taken stop ∧ (∀ c ∈ taken, p c) ∧ stop.Halts p := by
  refine ⟨reads_of_takeWhile, ?_⟩
  rintro ⟨reads, all, ⟨found, read⟩, fails⟩
  induction reads with
  | @nil input =>
    rw [takeWhile_eq, read]
    cases found with
    | none => rfl
    | some found =>
      obtain ⟨c, next⟩ := found
      obtain ⟨-, -, ahead, -⟩ := nextChar_eq_some_iff.1 read
      have test : p c = false := fails c (by simp [ahead])
      simp only [test, Bool.false_eq_true, if_false]
  | cons first _ ih =>
    obtain ⟨test, others⟩ := List.forall_mem_cons.1 all
    rw [takeWhile_eq, first]
    simp only [test, if_true, ih others fails read]
    rfl

end Cursor

end LexSpec
