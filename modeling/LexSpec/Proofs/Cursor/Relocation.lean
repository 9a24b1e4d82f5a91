import Mathlib.Data.Option.Basic
import LexSpec.Proofs.Agreement
import LexSpec.Proofs.Cursor.Reading

/-! # The same text in another place

A text can stand at another place, before another text. Cursors in the text and in its copy read the same
characters as long as they stay inside, and no loop that stops at newlines leaves a text that ends with
one.

* `Relocation`: how places are moved, and what follows the text and its copy.
* `Inside` and `Behind`: cursors at corresponding places, where the end of the text is not passed.
* `nextChar_agree` and `takeWhile_agree`: reading at such places.
-/

namespace LexSpec

/-- The copy of a text. Where there is room for the characters to come, moving a place commutes with the
    step over a character. `follows` stands behind the text, `follows'` behind the copy. -/
structure Relocation where
  move : Position → Position
  room : Position → Nat → Prop
  follows : List Char
  follows' : List Char
  fits_iff : ∀ {p n c}, room p (n + 1) → ((move p).Fits c ↔ p.Fits c)
  next_eq : ∀ {p n c}, room p (n + 1) → (move p).next c = move (p.next c)
  room_next : ∀ {p n c}, room p (n + 1) → room (p.next c) n

namespace Relocation

variable (relocation : Relocation)

/-- Cursors at corresponding places, with the same text ahead before the two texts that follow. -/
structure Ahead (text : List Char) (cursor copy : Cursor) : Prop where
  rest : cursor.rest = text ++ relocation.follows
  rest' : copy.rest = text ++ relocation.follows'
  position : copy.position = relocation.move cursor.position
  last : cursor.last = copy.last
  pending : cursor.pending = []
  pending' : copy.pending = []
  room : relocation.room cursor.position text.length

/-- Reading stops inside of the text: nothing follows it at all, or it ends with a newline. -/
def Closed (text : List Char) : Prop :=
  relocation.follows = [] ∧ relocation.follows' = [] ∨ text.getLast? = some '\n'

/-- Cursors with some of the text ahead. -/
def Inside (cursor copy : Cursor) : Prop :=
  ∃ text, relocation.Ahead text cursor copy ∧ relocation.Closed text

/-- Cursors with some of the text ahead, or behind it. -/
def Behind (cursor copy : Cursor) : Prop :=
  ∃ text, relocation.Ahead text cursor copy ∧ (text = [] ∨ relocation.Closed text)

variable {relocation} {cursor copy : Cursor}

theorem Inside.behind (inside : relocation.Inside cursor copy) : relocation.Behind cursor copy := by
  obtain ⟨text, ahead, closed⟩ := inside
  exact ⟨text, ahead, .inr closed⟩

theorem Behind.position_eq (behind : relocation.Behind cursor copy) :
    copy.position = relocation.move cursor.position := by
  obtain ⟨text, ahead, -⟩ := behind
  exact ahead.position

theorem Inside.head?_eq (inside : relocation.Inside cursor copy) :
    cursor.rest.head? = copy.rest.head? := by
  obtain ⟨text, ahead, closed⟩ := inside
  rw [ahead.rest, ahead.rest']
  cases text with
  | cons c text => rfl
  | nil =>
    rcases closed with ⟨nothing, nothing'⟩ | newline
    · rw [nothing, nothing']
    · cases newline

/-- What has been read on the way from one place to another is the same in the text and in its copy. -/
theorem Behind.text_eq {next next' : Cursor} {text text' : List Char}
    (start : relocation.Behind cursor copy) (stop : relocation.Behind next next')
    (reads : cursor.Reads text next) (reads' : copy.Reads text' next') : text = text' := by
  obtain ⟨whole, ahead, -⟩ := start
  obtain ⟨rest, behind, -⟩ := stop
  have first := reads.rest_eq
  have second := reads'.rest_eq
  rw [ahead.rest, behind.rest, ← List.append_assoc, List.append_left_inj] at first
  rw [ahead.rest', behind.rest', ← List.append_assoc, List.append_left_inj] at second
  exact List.append_cancel_right (first.symm.trans second)

/-- One character: behind it the text may be at its end, but only behind a newline. -/
def NextLike (read read' : Char × Cursor) : Prop :=
  read.1 = read'.1 ∧ relocation.Behind read.2 read'.2 ∧
    (read.1 ≠ '\n' → relocation.Inside read.2 read'.2)

theorem Inside.nextChar_agree (inside : relocation.Inside cursor copy) :
    Agree Eq (Option.Rel relocation.NextLike) cursor.nextChar copy.nextChar := by
  obtain ⟨text, ahead, closed⟩ := inside
  cases text with
  | nil =>
    -- a text that is closed and at its end has nothing behind it, here or there
    rcases closed with ⟨nothing, nothing'⟩ | newline
    · have stop := Cursor.nextChar_eq_none_iff.2 ⟨ahead.pending, ahead.rest.trans nothing⟩
      have stop' := Cursor.nextChar_eq_none_iff.2 ⟨ahead.pending', ahead.rest'.trans nothing'⟩
      rw [stop, stop']
      exact .ok .none
    · cases newline
  | cons c text =>
    obtain ⟨position, last, pending, rest⟩ := cursor
    obtain ⟨position', last', pending', rest'⟩ := copy
    obtain ⟨rfl, rfl, rfl, rfl, rfl, rfl, room⟩ := ahead
    simp only [List.length_cons] at room
    simp only [Cursor.nextChar, List.cons_append, Position.advance, relocation.fits_iff room,
      relocation.next_eq room]
    by_cases fits : position.Fits c
    · have next : relocation.Ahead text ⟨position.next c, c, [], text ++ relocation.follows⟩
          ⟨relocation.move (position.next c), c, [], text ++ relocation.follows'⟩ :=
        ⟨rfl, rfl, rfl, rfl, rfl, rfl, relocation.room_next room⟩
      rw [if_pos fits, if_pos fits]
      refine .ok (.some ⟨rfl, ⟨text, next, ?_⟩, fun other => ⟨text, next, ?_⟩⟩)
      · rcases closed with nothing | newline
        · exact .inr (.inl nothing)
        · cases text with
          -- the newline that ends the text has been read
          | nil => exact .inl rfl
          | cons d text => exact .inr (.inr newline)
      · rcases closed with nothing | newline
        · exact .inl nothing
        · cases text with
          | nil => exact absurd (Option.some.inj newline) other
          | cons d text => exact .inr newline
    · rw [if_neg fits, if_neg fits]
      exact .error rfl

theorem Inside.takeWhile_agree {p : Char → Bool} (stops : p '\n' = false)
    (inside : relocation.Inside cursor copy) :
    Agree Eq (fun taken taken' => taken.1 = taken'.1 ∧ relocation.Inside taken.2 taken'.2)
      (cursor.takeWhile p) (copy.takeWhile p) := by
  induction size : cursor.bytesLeft using Nat.strongRecOn generalizing cursor copy with
  | ind size ih =>
    have first := inside.nextChar_agree
    rw [Cursor.takeWhile_eq cursor, Cursor.takeWhile_eq copy]
    generalize read : cursor.nextChar = result at first ⊢
    generalize copy.nextChar = result' at first ⊢
    cases first with
    | error same => exact .error same
    | ok found =>
      cases found with
      | none => exact .ok ⟨rfl, inside⟩
      | @some found found' alike =>
        obtain ⟨c, next⟩ := found
        obtain ⟨d, next'⟩ := found'
        obtain ⟨rfl, -, stays⟩ := alike
        by_cases test : p c = true
        · -- the test refuses newlines, so reading stays inside of the text
          have other : c ≠ '\n' := fun newline => by simp [newline, stops] at test
          have shorter := Cursor.bytesLeft_lt_of_nextChar read
          simp only [test, if_true]
          apply (ih _ (size ▸ shorter) (stays other) rfl).bind
          intro taken taken' same
          exact .ok ⟨congrArg (List.cons c) same.1, same.2⟩
        · simp only [test]
          exact .ok ⟨rfl, inside⟩

end Relocation

end LexSpec
