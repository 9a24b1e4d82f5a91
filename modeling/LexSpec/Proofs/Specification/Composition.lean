import Mathlib.Algebra.Group.Nat.Defs
import LexSpec.Proofs.Line.Whole

/-! # Reading one text behind another

Behind whole lines a text is read as it is by itself, from the session that the lines leave:
`specification_append`. The lines are read alike whatever follows them (`sequence_replace`), and what
follows them is read at shifted places (`sequence_move`).
-/

namespace LexSpec

/-! ## Texts of whole lines -/

/-- The text to read is empty, or the last of its tokens is a newline that ends it. -/
def WholeLines (session : Session) : Prop :=
  session.input.rest = [] ∨ ∃ found last behind, Step.tokens.run session = .ok (found ++ [last]) behind ∧
    last.token = .newline ∧ last.behind.rest = []

theorem wholeLines_iff_getLast? {session : Session} :
    WholeLines session ↔ session.input.rest = [] ∨ (TokenStream.of session.input).stop? = none ∧
      ((TokenStream.of session.input).tokens.getLast?.any fun last =>
        last.token = .newline ∧ last.behind.rest = []) = true := by
  refine or_congr Iff.rfl ⟨?_, ?_⟩
  · rintro ⟨found, last, behind, tokens, newline, ends⟩
    obtain ⟨complete, same, -⟩ := tokens_eq_ok_iff.1 tokens
    refine ⟨complete, ?_⟩
    rw [same, List.getLast?_concat]
    simp [newline, ends]
  · rintro ⟨complete, ends⟩
    obtain ⟨last, final, test⟩ := (Option.any_eq_true _ _).1 ends
    obtain ⟨found, same⟩ := List.getLast?_eq_some_iff.1 final
    obtain ⟨newline, ends⟩ := of_decide_eq_true test
    exact ⟨found, last, _, tokens_eq_ok_iff.2 ⟨complete, same, rfl⟩, newline, ends⟩

instance (session : Session) : Decidable (WholeLines session) :=
  decidable_of_iff _ wholeLines_iff_getLast?.symm

/-- A text of whole lines is all first lines. -/
theorem wholeLines_iff {session : Session} (drained : session.input.pending = []) :
    WholeLines session ↔ ∃ found lines behind, behind.rest = [] ∧
      FirstLines session.input session.input.rest found lines behind := by
  constructor
  · rintro (empty | ⟨found, last, _, tokens, newline, finished⟩)
    · have nothing : session.input.rest = session.input.rest ++ session.input.rest := by
        rw [empty]
        rfl
      exact ⟨[], [], session.input, empty, .nil, endsLine_nil, nothing, rfl⟩
    · obtain ⟨-, same, -⟩ := tokens_eq_ok_iff.1 tokens
      obtain ⟨behind, tokenises, -⟩ := TokenStream.exists_tokenises session.input
      rw [same] at tokenises
      rw [tokenises.behind_eq] at finished
      have ends : EndsLine (found ++ [last]) := by
        intro final same
        rw [List.getLast?_concat] at same
        cases same
        exact newline
      have rest : session.input.rest = session.input.rest ++ behind.rest := by
        rw [finished, List.append_nil]
      obtain ⟨lines, first⟩ := exists_firstLines tokenises ends rest
      exact ⟨_, lines, behind, finished, first⟩
  · rintro ⟨found, lines, behind, finished, first⟩
    obtain ⟨reads, -⟩ := first.reads
    have stream := TokenStream.of_eq_of_tokenises first.tokenises
    rw [TokenStream.of_eq_of_rest_eq_nil (reads.pending_eq_nil drained) finished, List.append_nil] at stream
    rcases List.eq_nil_or_concat' found with rfl | ⟨front, last, rfl⟩
    · cases first.tokenises
      exact .inl finished
    · refine .inr ⟨front, last, { session with input := behind }, tokens_eq_ok_iff.2 ?_, ?_, ?_⟩
      · rw [stream]
        exact ⟨rfl, rfl, rfl⟩
      · exact first.ends last (List.getLast?_concat ..)
      · rw [first.tokenises.behind_eq, finished]

/-! ## Runs over lines and what comes behind them -/

theorem specification_eq_of_lines_append {session : Session} {lines others : List Line}
    (cuts : (TokenStream.of session.input).lines = lines ++ others) :
    Step.specification.run session =
      match Step.sequence (lines.map Line.read) session with
      | .error stop last => .error stop last
      | .ok rules middle =>
        match Step.sequence (others.map Line.read) middle with
        | .error stop last => .error stop last
        | .ok more last => .ok (rules.reduceOption ++ more.reduceOption) last := by
  change Step.specification session = _
  rw [specification_eq, cuts, List.map_append, Step.sequence_append]
  cases Step.sequence (lines.map Line.read) session with
  | error stop last => rfl
  | ok rules middle =>
    dsimp only
    cases Step.sequence (others.map Line.read) middle with
    | error stop last => rfl
    | ok more last =>
      dsimp only
      rw [List.reduceOption_append]

/-- The empty line behind whole lines does nothing. -/
theorem specification_eq_of_whole {session : Session} {lines : List Line} {final : Cursor}
    (cuts : (TokenStream.of session.input).lines = lines ++ [⟨[], .endOfFile final⟩]) :
    Step.specification.run session =
      match Step.sequence (lines.map Line.read) session with
      | .error stop last => .error stop last
      | .ok rules middle => .ok rules.reduceOption { middle with input := final } := by
  rw [specification_eq_of_lines_append cuts]
  cases Step.sequence (lines.map Line.read) session with
  | error stop last => rfl
  | ok rules middle =>
    have blank : Step.sequence ([⟨[], .endOfFile final⟩].map Line.read) middle =
        .ok [none] { middle with input := final } := rfl
    dsimp only
    rw [blank]
    simp

/-- Lines that are the same up to what follows them are read alike, whatever the cursor is. -/
theorem sequence_replace {follows follows' : List Char} {lines lines' : List Line}
    (alike : List.Forall₂ (Line.Like (Relocation.replace follows follows').Moved) lines lines')
    (session : Session) (input input' : Cursor) :
    (∀ stop last, Step.sequence (lines.map Line.read) { session with input } = .error stop last →
      ∃ last', Step.sequence (lines'.map Line.read) { session with input := input' } =
        .error stop last') ∧
    ∀ rules last, Step.sequence (lines.map Line.read) { session with input } = .ok rules last →
      ∃ rules' final, Step.sequence (lines'.map Line.read) { session with input := input' } =
          .ok rules' { last with input := final } ∧ rules'.reduceOption = rules.reduceOption := by
  have sessions : Session.Like (Relocation.replace follows follows').Moved []
      { session with input } { session with input := input' } := by
    refine ⟨rfl, rfl, session.warnings, rfl, List.forall₂_same.2 ?_⟩
    intro warning _
    cases warning
    exact .nullableRegex rfl
  obtain ⟨errors, values⟩ := sequence_move alike sessions
  constructor
  · intro stop last fails
    obtain ⟨last', fails'⟩ := errors stop last fails
    have same : stop.move (Relocation.replace follows follows').move = stop := stop.move_id
    rw [same] at fails'
    exact ⟨last', fails'⟩
  · intro rules last reads
    obtain ⟨rules', final, reads', same⟩ := values rules last reads
    have warnings : last.warnings.map (·.move fun position => position) = last.warnings :=
      (List.map_congr_left fun warning _ => warning.move_id).trans (List.map_id _)
    refine ⟨rules', final, reads'.trans ?_, same.trans (List.map_id _)⟩
    rw [List.nil_append]
    exact congrArg (fun given => EStateM.Result.ok rules' (Session.mk given _ _ _)) warnings

/-! ## Composition -/

/-- The lines of a text of whole lines, by itself and before another text. -/
theorem exists_lines_of_append {session : Session} {a b : String}
    (small : a.length + b.length < 2 ^ 28) (whole : WholeLines { session with input := .ofString a }) :
    ∃ final lines lines' others,
      List.Forall₂ (Line.Like (Relocation.replace [] b.toList).Moved) lines lines' ∧
      (TokenStream.of (.ofString a)).lines = lines ++ [⟨[], .endOfFile final⟩] ∧
      (TokenStream.of (.ofString (a ++ b))).lines = lines' ++ others ∧
      List.Forall₂ (Line.Like (Relocation.shift a.toList).Moved) (TokenStream.of (.ofString b)).lines
        others := by
  obtain ⟨found, lines, behind, finished, first⟩ :=
    (@wholeLines_iff { session with input := .ofString a } rfl).1 whole
  change FirstLines (.ofString a) a.toList found lines behind at first
  obtain ⟨reads, newline⟩ := first.reads
  have alone := first.lines_eq_of_rest_eq_nil rfl finished
  obtain ⟨found', lines', both, alike⟩ := first.replace rfl b.toList
  rw [finished] at alike
  have source : Cursor.ofString (a ++ b) = ⟨.start, '\n', [], a.toList ++ b.toList⟩ := by
    simp only [Cursor.ofString, Cursor.ofList, String.toList_append]
  -- the second text begins behind a newline, at the place that the shift gives to its beginning
  have place : behind.position = Position.start.shift a.toList := by
    rw [reads.position_eq]
    exact Position.foldl_next_start newline
  have last : behind.last = '\n' := by
    rw [reads.last_eq]
    rcases newline with empty | newline
    · rw [empty]
      rfl
    · rw [newline]
      rfl
  have room : Position.Room a.toList Position.start b.toList.length :=
    Position.room_start (by rw [String.length_toList, String.length_toList]; exact small)
  have shifted := @TokenStream.lines_shift a.toList b.toList (.ofString b)
    { behind with rest := b.toList } rfl rfl place last.symm rfl (reads.pending_eq_nil rfl) room
  exact ⟨behind, lines, lines', _, alike, alone, by rw [source]; exact both.lines_eq, shifted⟩

/-- The lines behind whole lines are read as the text that they are taken from, at shifted places, with the
    warnings of the whole lines before their own. -/
theorem sequence_of_specification {front : List Char} {b : String} {others : List Line} (middle : Session)
    (input : Cursor)
    (shifted : List.Forall₂ (Line.Like (Relocation.shift front).Moved) (TokenStream.of (.ofString b)).lines
      others) :
    (∀ stop last,
      Step.specification.run ⟨[], middle.scope, middle.startCode, .ofString b⟩ = .error stop last →
      ∃ last', Step.sequence (others.map Line.read) { middle with input } =
        .error (stop.move (Position.shift front)) last') ∧
    ∀ rules last,
      Step.specification.run ⟨[], middle.scope, middle.startCode, .ofString b⟩ = .ok rules last →
      ∃ outcomes final, Step.sequence (others.map Line.read) { middle with input } =
          .ok outcomes ⟨middle.warnings ++ last.warnings.map (·.move (Position.shift front)), last.scope,
            last.startCode, final⟩ ∧
        outcomes.reduceOption = rules.map (·.move (Position.shift front)) := by
  have sessions : Session.Like (Relocation.shift front).Moved middle.warnings
      ⟨[], middle.scope, middle.startCode, .ofString b⟩ { middle with input } :=
    ⟨rfl, rfl, [], (List.append_nil _).symm, .nil⟩
  obtain ⟨errors, values⟩ := sequence_move shifted sessions
  have alone := specification_eq ⟨[], middle.scope, middle.startCode, .ofString b⟩
  cases run : Step.sequence ((TokenStream.of (.ofString b)).lines.map Line.read)
      ⟨[], middle.scope, middle.startCode, .ofString b⟩ with
  | error stop last =>
    rw [run] at alone
    constructor
    · intro _ _ fails
      cases alone.symm.trans fails
      exact errors stop last run
    · intro _ _ reads
      cases alone.symm.trans reads
  | ok rules last =>
    rw [run] at alone
    constructor
    · intro _ _ fails
      cases alone.symm.trans fails
    · intro _ _ reads
      cases alone.symm.trans reads
      exact values rules last run

/-- Behind whole lines a text is read as it is by itself, from the definitions and the start code that the
    lines leave. Its places are shifted, and its rules and warnings come behind those of the lines. An
    error of the lines is an error of the whole. -/
theorem specification_append (session : Session) (a b : String) (small : a.length + b.length < 2 ^ 28)
    (whole : WholeLines { session with input := .ofString a }) :
    (∀ stop last, Step.specification.run { session with input := .ofString a } = .error stop last →
      ∃ last', Step.specification.run { session with input := .ofString (a ++ b) } = .error stop last') ∧
    ∀ rules middle, Step.specification.run { session with input := .ofString a } = .ok rules middle →
      (∀ stop last,
        Step.specification.run ⟨[], middle.scope, middle.startCode, .ofString b⟩ = .error stop last →
        ∃ last', Step.specification.run { session with input := .ofString (a ++ b) } =
          .error (stop.move (Position.shift a.toList)) last') ∧
      ∀ others last,
        Step.specification.run ⟨[], middle.scope, middle.startCode, .ofString b⟩ = .ok others last →
        ∃ input, Step.specification.run { session with input := .ofString (a ++ b) } =
          .ok (rules ++ others.map (·.move (Position.shift a.toList)))
            ⟨middle.warnings ++ last.warnings.map (·.move (Position.shift a.toList)), last.scope,
              last.startCode, input⟩ := by
  obtain ⟨final, lines, lines', back, alike, cuts, cuts', shifted⟩ := exists_lines_of_append small whole
  obtain ⟨errors, values⟩ := sequence_replace alike session (.ofString a) (.ofString (a ++ b))
  have alone := @specification_eq_of_whole { session with input := .ofString a } lines final cuts
  have both := @specification_eq_of_lines_append { session with input := .ofString (a ++ b) } lines' back
    cuts'
  cases first : Step.sequence (lines.map Line.read) { session with input := .ofString a } with
  | error stop last =>
    obtain ⟨last', fails⟩ := errors stop last first
    rw [first] at alone
    rw [fails] at both
    constructor
    · intro _ _ same
      cases alone.symm.trans same
      exact ⟨last', both⟩
    · intro _ _ reads
      cases alone.symm.trans reads
  | ok rules middle =>
    obtain ⟨rules', input, reads, same⟩ := values rules middle first
    rw [first] at alone
    rw [reads] at both
    constructor
    · intro _ _ fails
      cases alone.symm.trans fails
    intro _ _ result
    cases alone.symm.trans result
    obtain ⟨errors, values⟩ := sequence_of_specification middle input shifted
    dsimp only at both
    constructor
    · intro stop last fails
      obtain ⟨last', fails⟩ := errors stop last fails
      rw [fails] at both
      exact ⟨last', both⟩
    · intro others last reads
      obtain ⟨outcomes, final, reads, moved⟩ := values others last reads
      rw [reads] at both
      dsimp only at both
      rw [same, moved] at both
      exact ⟨final, both⟩

theorem specification_append_definition :
    ∃ rules middle others last input,
      Step.specification.run ⟨[], ∅, 0, .ofString "$d = a-b\n"⟩ = .ok rules middle ∧
      Step.specification.run ⟨[], middle.scope, middle.startCode, .ofString "x :- $d*"⟩ =
        .ok others last ∧
      Step.specification.run ⟨[], ∅, 0, .ofString ("$d = a-b\n" ++ "x :- $d*")⟩ =
        .ok (rules ++ others.map (·.move (Position.shift "$d = a-b\n".toList)))
          ⟨middle.warnings ++ last.warnings.map (·.move (Position.shift "$d = a-b\n".toList)), last.scope,
            last.startCode, input⟩ := by
  have accepted : (match Step.specification.run ⟨[], ∅, 0, .ofString "$d = a-b\n"⟩ with
      | .error _ _ => false
      | .ok _ middle =>
        match Step.specification.run ⟨[], middle.scope, middle.startCode, .ofString "x :- $d*"⟩ with
        | .error _ _ => false
        | .ok _ _ => true) = true := by decide +kernel
  obtain ⟨-, values⟩ := specification_append ⟨[], ∅, 0, .ofString ""⟩ "$d = a-b\n" "x :- $d*" (by decide)
    (by decide +kernel)
  cases first : Step.specification.run ⟨[], ∅, 0, .ofString "$d = a-b\n"⟩ with
  | error stop last =>
    rw [first] at accepted
    cases accepted
  | ok rules middle =>
    rw [first] at accepted
    dsimp only at accepted
    cases second : Step.specification.run ⟨[], middle.scope, middle.startCode, .ofString "x :- $d*"⟩ with
    | error stop last =>
      rw [second] at accepted
      cases accepted
    | ok others last =>
      obtain ⟨-, values⟩ := values rules middle first
      obtain ⟨input, both⟩ := values others last second
      exact ⟨rules, middle, others, last, input, rfl, second, both⟩

end LexSpec
