import LexSpec.Proofs.Line.Cutting
import LexSpec.Proofs.Token.Relocation

/-! # Runs of tokens

`Tokenises` reads tokens one after the other. The tokens of a stream are such a run (`of_eq_of_tokenises`,
`exists_tokenises`), and so are the tokens of a text that stands before another one.

* `Tokenises.relocate`: the tokens of a text are those of its copy, whatever follows the two.
* `Relocation.streamLike`: so are the whole streams, where nothing follows.
-/

namespace LexSpec

/-- Reading tokens one by one leads from one cursor to another. -/
inductive Tokenises : Cursor → List PlacedToken → Cursor → Prop where
  | nil {input : Cursor} : Tokenises input [] input
  | cons {input behind stop : Cursor} {position : Position} {text : String} {token : Token}
      {found : List PlacedToken}
      (first : Token.scanner.next 0 input = (.ok (.token position text token), behind))
      (rest : Tokenises behind found stop) :
      Tokenises input (⟨token, text, position, behind⟩ :: found) stop

namespace Tokenises

variable {input middle stop : Cursor} {found others : List PlacedToken}

theorem append (first : Tokenises input found middle) (rest : Tokenises middle others stop) :
    Tokenises input (found ++ others) stop := by
  induction first with
  | nil => exact rest
  | cons token _ ih => exact .cons token (ih rest)

theorem split (tokenises : Tokenises input (found ++ others) stop) :
    ∃ middle, Tokenises input found middle ∧ Tokenises middle others stop := by
  induction found generalizing input with
  | nil => exact ⟨input, .nil, tokenises⟩
  | cons first found ih =>
    cases tokenises with
    | cons token rest =>
      obtain ⟨middle, front, back⟩ := ih rest
      exact ⟨middle, .cons token front, back⟩

/-- The cursor behind a run is the cursor behind its last token. -/
theorem behind_eq {last : PlacedToken} (tokenises : Tokenises input (found ++ [last]) stop) :
    last.behind = stop := by
  obtain ⟨middle, -, back⟩ := tokenises.split
  cases back with
  | cons token rest =>
    cases rest
    rfl

/-- What a run reads. It ends with a newline if its last token is one. -/
theorem exists_reads (tokenises : Tokenises input found stop) :
    ∃ text, input.Reads text stop ∧ (text = [] ↔ found = []) ∧
      (EndsLine found → text = [] ∨ text.getLast? = some '\n') := by
  induction tokenises with
  | nil => exact ⟨[], .nil, iff_of_true rfl rfl, fun _ => .inl rfl⟩
  | @cons input behind stop position spelling token found first rest ih =>
    obtain ⟨skipped, reads, nonempty, newline⟩ := Token.reads_of_next first
    obtain ⟨text, more, empty_iff, ends⟩ := ih
    refine ⟨(skipped ++ spelling.toList) ++ text, reads.append more, by simp [nonempty], fun whole => ?_⟩
    cases rest with
    | nil =>
      -- this is the last token, so it is the newline, which spells itself
      rw [empty_iff.2 rfl, List.append_nil, newline (whole _ rfl)]
      exact .inr (by simp)
    | cons second rest =>
      rcases ends whole.of_cons with empty | newline
      · exact absurd (empty_iff.1 empty) (by simp)
      · exact .inr (by rw [List.getLast?_append, newline, Option.some_or])

theorem text_eq_of_newline (tokenises : Tokenises input found stop) :
    ∀ token ∈ found, token.token = .newline → token.text = "\n" := by
  induction tokenises with
  | nil => simp
  | cons first _ ih =>
    obtain ⟨-, -, -, newline⟩ := Token.reads_of_next first
    exact List.forall_mem_cons.2 ⟨fun token => String.toList_inj.1 (newline token), ih⟩

end Tokenises

/-! ## Streams -/

namespace TokenStream

theorem of_eq (input : Cursor) :
    of input =
      match Token.scanner.next 0 input with
      | (.ok (.token position text token), behind) =>
        { of behind with tokens := ⟨token, text, position, behind⟩ :: (of behind).tokens }
      | (.ok (.endOfFile _), final) => ⟨[], none, final⟩
      | (.error stop, final) => ⟨[], some stop, final⟩ := by
  rw [of]
  split <;> simp_all

theorem of_eq_of_tokenises {input stop : Cursor} {found : List PlacedToken}
    (tokenises : Tokenises input found stop) :
    of input = { of stop with tokens := found ++ (of stop).tokens } := by
  induction tokenises with
  | nil => rfl
  | cons first _ ih => rw [of_token first, ih, List.cons_append]

theorem exists_tokenises (input : Cursor) :
    ∃ stop, Tokenises input (of input).tokens stop ∧ (of stop).tokens = [] := by
  induction size : input.bytesLeft using Nat.strongRecOn generalizing input with
  | ind size ih =>
    rcases found : Token.scanner.next 0 input with ⟨result, behind⟩
    match result, found with
    | .error stop, found => exact ⟨input, by rw [of_eq, found]; exact ⟨.nil, rfl⟩⟩
    | .ok (.endOfFile position), found => exact ⟨input, by rw [of_eq, found]; exact ⟨.nil, rfl⟩⟩
    | .ok (.token position text token), found =>
      have shorter := Scanner.bytesLeft_lt_of_next found
      obtain ⟨stop, tokenises, finished⟩ := ih _ (size ▸ shorter) behind rfl
      refine ⟨stop, ?_, finished⟩
      rw [of_token found]
      exact .cons found tokenises

/-- A stream that is complete ends where the end of the text is found. -/
theorem exists_tokenises_of_complete {input : Cursor} (complete : (of input).stop? = none) :
    ∃ stop position final, Tokenises input (of input).tokens stop ∧
      Token.scanner.next 0 stop = (.ok (.endOfFile position), final) := by
  obtain ⟨stop, tokenises, finished⟩ := exists_tokenises input
  rw [of_eq_of_tokenises tokenises] at complete
  rcases found : Token.scanner.next 0 stop with ⟨result, final⟩
  match result, found with
  | .error stopped, found =>
    rw [of_eq stop, found] at complete
    cases complete
  | .ok (.token position text token), found =>
    rw [of_token found] at finished
    cases finished
  | .ok (.endOfFile position), found => exact ⟨stop, position, final, tokenises, found⟩

theorem of_eq_of_endOfFile {input stop final : Cursor} {position : Position} {found : List PlacedToken}
    (tokenises : Tokenises input found stop)
    (ends : Token.scanner.next 0 stop = (.ok (.endOfFile position), final)) :
    of input = ⟨found, none, final⟩ := by
  rw [of_eq_of_tokenises tokenises, of_eq stop, ends]
  simp only [List.append_nil]

/-- A stream breaks off with an error of the scanner. -/
theorem kind_of_stop? {input : Cursor} {e : TextError} (stopped : (of input).stop? = some (.error e)) :
    e.kind = .lexical := by
  obtain ⟨stop, tokenises, finished⟩ := exists_tokenises input
  rw [of_eq_of_tokenises tokenises] at stopped
  rcases found : Token.scanner.next 0 stop with ⟨result, final⟩
  rw [of_eq stop, found] at stopped
  match result, found with
  | .error reason, found =>
    cases stopped
    exact Token.kind_of_next found
  | .ok (.token position text token), found =>
    rw [of_token found] at finished
    cases finished
  | .ok (.endOfFile position), found => cases stopped

theorem lines_of_tokenises {input stop : Cursor} {found : List PlacedToken}
    (tokenises : Tokenises input found stop) :
    (of input).lines = Line.cut (of stop).lastEnd (found ++ (of stop).tokens) := by
  rw [of_eq_of_tokenises tokenises]
  rfl

end TokenStream

/-! ## In another place -/

variable {relocation : Relocation} {cursor copy : Cursor}

theorem Relocation.Behind.inside (behind : relocation.Behind cursor copy)
    (more : relocation.follows.length < cursor.rest.length) : relocation.Inside cursor copy := by
  obtain ⟨text, ahead, nothing | closed⟩ := behind
  · rw [ahead.rest, nothing, List.nil_append] at more
    exact absurd more (Nat.lt_irrefl _)
  · exact ⟨text, ahead, closed⟩

/-- At the end of the text its copy is at its end, too. -/
theorem Relocation.Behind.copy_eq (behind : relocation.Behind cursor copy)
    (final : cursor.rest = relocation.follows) :
    copy = ⟨relocation.move cursor.position, cursor.last, [], relocation.follows'⟩ := by
  obtain ⟨text, ahead, -⟩ := behind
  have none : text = [] := List.append_left_eq_self.1 (ahead.rest.symm.trans final)
  obtain ⟨position, last, pending, rest⟩ := copy
  obtain ⟨-, rest', place, sameLast, -, drained, -⟩ := ahead
  rw [none] at rest'
  cases rest'
  cases place
  cases sameLast
  cases drained
  rfl

theorem Tokenises.relocate {stop : Cursor} {found : List PlacedToken}
    (tokenises : Tokenises cursor found stop) (behind : relocation.Behind cursor copy)
    (within : relocation.follows.length ≤ stop.rest.length) :
    ∃ found' stop', Tokenises copy found' stop' ∧ relocation.Behind stop stop' ∧
      List.Forall₂ (PlacedToken.Like relocation.Moved) found found' := by
  induction tokenises generalizing copy with
  | nil => exact ⟨[], copy, .nil, behind, .nil⟩
  | @cons cursor next stop position text token found first rest ih =>
    obtain ⟨skipped, reads, nonempty, -⟩ := Token.reads_of_next first
    obtain ⟨others, more, -⟩ := rest.exists_reads
    -- the cursor still has the token ahead, so it is not at the end of the text
    have ahead : relocation.follows.length < cursor.rest.length := by
      have positive := List.length_pos_iff.2 nonempty
      rw [reads.rest_eq, more.rest_eq]
      simp only [List.length_append]
      omega
    have alike := (behind.inside ahead).next_alike
    rw [first] at alike
    generalize found' : Token.scanner.next 0 copy = result at alike
    cases alike with
    | token place =>
      obtain ⟨others', stop', tokenises', final, same⟩ := ih place within
      refine ⟨_, stop', .cons found' tokenises', final, .cons ⟨rfl, rfl, rfl, place.position_eq⟩ same⟩

/-- Streams with the same tokens and the same end. -/
theorem Relocation.streamLike (inside : relocation.Inside cursor copy) (ends : relocation.follows = [])
    (ends' : relocation.follows' = []) :
    List.Forall₂ (PlacedToken.Like relocation.Moved) (TokenStream.of cursor).tokens
        (TokenStream.of copy).tokens ∧
      (TokenStream.of cursor).lastEnd.Like relocation.Moved (TokenStream.of copy).lastEnd := by
  induction size : cursor.bytesLeft using Nat.strongRecOn generalizing cursor copy with
  | ind size ih =>
    have alike := inside.next_alike
    rw [TokenStream.of_eq cursor, TokenStream.of_eq copy]
    generalize found : Token.scanner.next 0 cursor = result at alike ⊢
    generalize Token.scanner.next 0 copy = result' at alike ⊢
    cases alike with
    | endOfFile final => exact ⟨.nil, .endOfFile final.behind.position_eq⟩
    | stopped stops final => exact ⟨.nil, .stopped stops⟩
    | token behind =>
      have shorter := Scanner.bytesLeft_lt_of_next found
      -- with no text behind it, the rest of the text is closed even when it is empty
      obtain ⟨text, ahead, -⟩ := behind
      have next : relocation.Inside _ _ := ⟨text, ahead, .inl ⟨ends, ends'⟩⟩
      obtain ⟨tokens, last⟩ := ih _ (size ▸ shorter) next rfl
      exact ⟨.cons ⟨rfl, rfl, rfl, ahead.position⟩ tokens, last⟩

end LexSpec
