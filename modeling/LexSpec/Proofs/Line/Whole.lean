import LexSpec.Proofs.Position
import LexSpec.Proofs.Token.Tokenising

/-! # Whole lines

A text of whole lines is empty or ends with a newline token. `FirstLines` says that an input begins with
one. The lines of the text are the same whatever follows it (`FirstLines.replace`), and the lines that
follow it are the same as without it, but for their places (`TokenStream.lines_shift`).
-/

namespace LexSpec

namespace Relocation

/-- The text stays where it is, and another text follows it. -/
def replace (follows follows' : List Char) : Relocation where
  move position := position
  room _ _ := True
  follows := follows
  follows' := follows'
  fits_iff _ := Iff.rfl
  next_eq _ := rfl
  room_next _ := trivial

/-- The text is put behind another one, and nothing follows it. -/
def shift (front : List Char) : Relocation where
  move := Position.shift front
  room := Position.Room front
  follows := []
  follows' := []
  fits_iff room := iff_of_true (room.fits_shift _) (room.fits _)
  next_eq _ := Position.next_shift _ _ _
  room_next room := room.next _

end Relocation

namespace TokenStream

/-- Where nothing is left to read there are no tokens. -/
theorem of_eq_of_rest_eq_nil {input : Cursor} (drained : input.pending = []) (finished : input.rest = []) :
    of input = ⟨[], none, input⟩ := by
  have read : input.nextChar = .ok none := Cursor.nextChar_eq_none_iff.2 ⟨drained, finished⟩
  have scanned : Token.scan input = .ok .endOfFile := by
    rw [Token.scan, read]
    rfl
  rw [of_eq, Token.next_eq, scanned]

theorem lines_of_rest_eq_nil {input : Cursor} (drained : input.pending = []) (finished : input.rest = []) :
    (of input).lines = [⟨[], .endOfFile input⟩] := by
  rw [of_eq_of_rest_eq_nil drained finished]
  rfl

end TokenStream

/-! ## The first lines of an input -/

/-- The input begins with a text of whole lines, which has these tokens and lines and ends at a cursor. -/
structure FirstLines (input : Cursor) (text : List Char) (found : List PlacedToken) (lines : List Line)
    (behind : Cursor) : Prop where
  tokenises : Tokenises input found behind
  ends : EndsLine found
  rest : input.rest = text ++ behind.rest
  lines_eq : (TokenStream.of input).lines = lines ++ (TokenStream.of behind).lines

theorem exists_firstLines {input behind : Cursor} {found : List PlacedToken} {text : List Char}
    (tokenises : Tokenises input found behind) (ends : EndsLine found)
    (rest : input.rest = text ++ behind.rest) : ∃ lines, FirstLines input text found lines behind := by
  have same : List.Forall₂ (PlacedToken.Like Eq) found found :=
    List.forall₂_same.2 fun token _ => token.like_itself fun _ => rfl
  obtain ⟨lines, -, -, -, cuts, -⟩ := Line.exists_cut_append same ends
  refine ⟨lines, tokenises, ends, rest, ?_⟩
  rw [TokenStream.lines_of_tokenises tokenises, cuts]
  rfl

namespace FirstLines

variable {input middle behind : Cursor} {text more : List Char} {found others : List PlacedToken}
  {lines next : List Line}

theorem reads (first : FirstLines input text found lines behind) :
    input.Reads text behind ∧ (text = [] ∨ text.getLast? = some '\n') := by
  obtain ⟨read, reads, -, newline⟩ := first.tokenises.exists_reads
  have same : read = text := List.append_cancel_right (reads.rest_eq.symm.trans first.rest)
  subst same
  exact ⟨reads, newline first.ends⟩

theorem append (first : FirstLines input text found lines middle)
    (second : FirstLines middle more others next behind) :
    FirstLines input (text ++ more) (found ++ others) (lines ++ next) behind where
  tokenises := first.tokenises.append second.tokenises
  ends := first.ends.append second.ends
  rest := by rw [first.rest, second.rest, List.append_assoc]
  lines_eq := by rw [first.lines_eq, second.lines_eq, List.append_assoc]

/-- At the end of the text an empty line is left. -/
theorem lines_eq_of_rest_eq_nil (first : FirstLines input text found lines behind)
    (drained : input.pending = []) (finished : behind.rest = []) :
    (TokenStream.of input).lines = lines ++ [⟨[], .endOfFile behind⟩] := by
  obtain ⟨reads, -⟩ := first.reads
  rw [first.lines_eq, TokenStream.lines_of_rest_eq_nil (reads.pending_eq_nil drained) finished]

/-- The lines are the same when another text follows them. -/
theorem replace (first : FirstLines input text found lines behind) (drained : input.pending = [])
    (follows : List Char) :
    ∃ found' lines', FirstLines { input with rest := text ++ follows } text found' lines'
        { behind with rest := follows } ∧
      List.Forall₂ (Line.Like (Relocation.replace behind.rest follows).Moved) lines lines' := by
  obtain ⟨reads, newline⟩ := first.reads
  have ahead : (Relocation.replace behind.rest follows).Ahead text input
      { input with rest := text ++ follows } :=
    ⟨first.rest, rfl, rfl, rfl, drained, drained, trivial⟩
  have start : (Relocation.replace behind.rest follows).Behind input { input with rest := text ++ follows } :=
    ⟨text, ahead, newline.imp_right .inr⟩
  obtain ⟨found', stop, tokenises, final, alike⟩ := first.tokenises.relocate start (Nat.le_refl _)
  -- the copy of the run ends where its text does
  have stopped : stop = { behind with rest := follows } := by
    rw [final.copy_eq rfl, reads.pending_eq_nil drained]
    rfl
  rw [stopped] at tokenises
  obtain ⟨cut, lines', linesAlike, -, cuts, cuts'⟩ := Line.exists_cut_append alike first.ends
  have same : cut = lines := by
    have cuts := cuts (TokenStream.of behind).lastEnd (TokenStream.of behind).tokens
    rw [← TokenStream.lines_of_tokenises first.tokenises, first.lines_eq] at cuts
    exact (List.append_cancel_right cuts).symm
  subst same
  refine ⟨found', lines', ⟨tokenises, first.ends.of_like alike, rfl, ?_⟩, linesAlike⟩
  rw [TokenStream.lines_of_tokenises tokenises, cuts']
  rfl

end FirstLines

/-- A line that is not the last one has been read up to its newline. -/
theorem exists_firstLines_singleton {input : Cursor} {line next : Line} {others : List Line}
    (cuts : (TokenStream.of input).lines = line :: next :: others) :
    ∃ text found behind, text ≠ [] ∧ FirstLines input text found [line] behind := by
  obtain ⟨final, tokenises, finished⟩ := TokenStream.exists_tokenises input
  obtain ⟨front, back, split, nonempty, ends, rest⟩ := Line.exists_front_of_cut cuts
  rw [split] at tokenises
  obtain ⟨behind, first, second⟩ := tokenises.split
  obtain ⟨text, reads, empty_iff, -⟩ := first.exists_reads
  refine ⟨text, front, behind, fun none => nonempty (empty_iff.1 none), first, ends, reads.rest_eq, ?_⟩
  -- both streams end where the input does, so they are cut alike from here on
  have last : (TokenStream.of input).lastEnd = (TokenStream.of final).lastEnd := by
    rw [TokenStream.of_eq_of_tokenises (first.append second)]
    rfl
  rw [cuts, TokenStream.lines_of_tokenises second, finished, List.append_nil, ← last, rest]
  rfl

/-! ## What follows whole lines -/

/-- The lines of a text that is read behind whole lines. -/
theorem TokenStream.lines_shift {front text : List Char} {start behind : Cursor}
    (shape : start.rest = text) (shape' : behind.rest = text)
    (place : behind.position = start.position.shift front) (last : start.last = behind.last)
    (drained : start.pending = []) (drained' : behind.pending = [])
    (room : Position.Room front start.position text.length) :
    List.Forall₂ (Line.Like (Relocation.shift front).Moved) (TokenStream.of start).lines
      (TokenStream.of behind).lines := by
  have ahead : (Relocation.shift front).Ahead text start behind :=
    ⟨by rw [shape]; exact (List.append_nil _).symm, by rw [shape']; exact (List.append_nil _).symm, place,
      last, drained, drained', room⟩
  have inside : (Relocation.shift front).Inside start behind := ⟨text, ahead, .inl ⟨rfl, rfl⟩⟩
  obtain ⟨tokens, ends⟩ := Relocation.streamLike inside rfl rfl
  exact Line.cut_like tokens ends

end LexSpec
