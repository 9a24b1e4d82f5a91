import Mathlib.Data.Nat.Find
import LexSpec.Proofs.Specification.Composition

/-! # Reading that fails

A text that cannot be read has a longest beginning of whole lines that can. Reading stops in the line
behind it, and nothing of that line is left in the session but the cursor:
`specification_error_after_longest`.

An accepted beginning is a run over the first lines of the whole text (`Accepted.exists_firstLines`,
`FirstLines.exists_accepted`), so it could be made longer by a line if that line was read
(`FirstLines.exists_accepted_append`).
-/

namespace LexSpec

/-- The session before another text than the rest of its own. -/
def Session.before (session : Session) (text : List Char) : Session :=
  { session with input := { session.input with rest := text } }

/-- A beginning of the text to read that consists of whole lines and is read by itself, which leads to the
    session `middle`. -/
structure Accepted (session : Session) (text : List Char) (middle : Session) : Prop where
  begins : text <+: session.input.rest
  whole : WholeLines (session.before text)
  reads : ∃ rules, Step.specification.run (session.before text) = .ok rules middle

structure LongestAccepted (session : Session) (text : List Char) (middle : Session) : Prop
    extends Accepted session text middle where
  longest : ∀ other last, Accepted session other last → other.length ≤ text.length

variable {session middle last : Session} {text : List Char} {stop : Stop}

/-- The lines of an accepted text are the first lines of the whole text, and read there as well. -/
theorem Accepted.exists_firstLines (accepted : Accepted session text middle)
    (drained : session.input.pending = []) :
    ∃ found lines behind rules input, FirstLines session.input text found lines behind ∧
      Step.sequence (lines.map Line.read) session = .ok rules { middle with input } := by
  obtain ⟨⟨back, shape⟩, whole, rules, reads⟩ := accepted
  obtain ⟨found, lines, final, finished, first⟩ :=
    (@wholeLines_iff (session.before text) drained).1 whole
  obtain ⟨found', lines', firstWhole, alike⟩ := first.replace drained back
  have input : { (session.before text).input with rest := text ++ back } = session.input := by
    rw [shape]
    rfl
  change FirstLines { (session.before text).input with rest := text ++ back } text found' lines' _
    at firstWhole
  rw [input] at firstWhole
  rw [specification_eq_of_whole (first.lines_eq_of_rest_eq_nil drained finished)] at reads
  cases run : Step.sequence (lines.map Line.read) (session.before text) with
  | error stop last =>
    rw [run] at reads
    cases reads
  | ok outcomes after =>
    rw [run] at reads
    cases reads
    obtain ⟨-, values⟩ := sequence_replace alike session (session.before text).input session.input
    obtain ⟨outcomes', cursor, readsWhole, -⟩ := values outcomes after run
    exact ⟨found', lines', { final with rest := back }, outcomes', cursor, firstWhole, readsWhole⟩

/-- The first lines of the whole text are accepted when they are read. -/
theorem FirstLines.exists_accepted {found : List PlacedToken} {lines : List Line} {behind : Cursor}
    {rules : List (Option Rule)} (first : FirstLines session.input text found lines behind)
    (drained : session.input.pending = [])
    (reads : Step.sequence (lines.map Line.read) session = .ok rules middle) :
    ∃ last, Accepted session text last := by
  obtain ⟨found', lines', alone, alike⟩ := first.replace drained []
  rw [List.append_nil] at alone
  change FirstLines (session.before text).input text found' lines' { behind with rest := [] } at alone
  have whole : WholeLines (session.before text) :=
    (@wholeLines_iff (session.before text) drained).2 ⟨found', lines', _, rfl, alone⟩
  obtain ⟨-, values⟩ := sequence_replace alike session session.input (session.before text).input
  obtain ⟨rules', input, readsAlone, -⟩ := values rules middle reads
  change Step.sequence (lines'.map Line.read) (session.before text) = _ at readsAlone
  have run := specification_eq_of_whole (alone.lines_eq_of_rest_eq_nil drained rfl)
  rw [readsAlone] at run
  exact ⟨_, ⟨_, first.rest.symm⟩, whole, _, run⟩

/-- A line that is read, and is not the last one, can be added to an accepted text. -/
theorem FirstLines.exists_accepted_append {found : List PlacedToken} {lines others : List Line}
    {behind : Cursor} {rules : List (Option Rule)} {line next : Line} {rule : Option Rule}
    {after : Session} (first : FirstLines session.input text found lines behind)
    (drained : session.input.pending = [])
    (reads : Step.sequence (lines.map Line.read) session = .ok rules middle)
    (rest : (TokenStream.of behind).lines = line :: next :: others)
    (readsLine : line.read middle = .ok rule after) :
    ∃ more last, more ≠ [] ∧ Accepted session (text ++ more) last := by
  obtain ⟨more, tokens, stop, nonempty, second⟩ := exists_firstLines_singleton rest
  have readsBoth : Step.sequence ((lines ++ [line]).map Line.read) session = .ok (rules ++ [rule]) after := by
    rw [List.map_append, Step.sequence_append, reads]
    dsimp only
    rw [List.map_singleton, Step.sequence_cons_of_ok readsLine]
    rfl
  obtain ⟨last, accepted⟩ := (first.append second).exists_accepted drained readsBoth
  exact ⟨more, last, nonempty, accepted⟩

theorem accepted_nil (drained : session.input.pending = []) : ∃ middle, Accepted session [] middle := by
  have nothing : FirstLines session.input [] [] [] session.input := ⟨.nil, endsLine_nil, rfl, rfl⟩
  exact nothing.exists_accepted drained rfl

theorem exists_longestAccepted (drained : session.input.pending = []) :
    ∃ text middle, LongestAccepted session text middle := by
  classical
  obtain ⟨middle, accepted⟩ := Nat.findGreatest_spec
    (P := fun n => ∃ middle, Accepted session (session.input.rest.take n) middle)
    (Nat.zero_le session.input.rest.length) (accepted_nil drained)
  refine ⟨_, middle, accepted, ?_⟩
  intro other last more
  have bound := more.begins.length_le
  rw [List.length_take, Nat.min_eq_left (Nat.findGreatest_le _)]
  apply Nat.le_findGreatest bound
  rw [← List.prefix_iff_eq_take.1 more.begins]
  exact ⟨last, more⟩

/-- Where reading a specification fails, the session is the one behind the longest beginning of the text
    that is accepted, but for the cursor. -/
theorem specification_error_after_longest (drained : session.input.pending = [])
    (fails : Step.specification.run session = .error stop last) :
    (∃ text middle, LongestAccepted session text middle) ∧
      ∀ text middle, LongestAccepted session text middle → last = { middle with input := last.input } := by
  refine ⟨exists_longestAccepted drained, ?_⟩
  intro text middle accepted
  obtain ⟨found, lines, behind, rules, input, first, reads⟩ := accepted.exists_firstLines drained
  have run := specification_eq_of_lines_append first.lines_eq
  rw [fails, reads] at run
  dsimp only at run
  cases rest : (TokenStream.of behind).lines with
  | nil => cases rest
  | cons line others =>
    rw [rest] at run
    cases stated : line.statement middle.scope with
    | error refused =>
      -- the line behind the accepted text is the one that fails, and it has only moved the cursor
      have failed := @Line.read_eq_of_error line { middle with input } _ _ stated
      rw [List.map_cons, Step.sequence_cons_of_error failed] at run
      cases run
      rfl
    | ok statement =>
      have readsLine := @Line.read_eq_of_statement line { middle with input } statement stated
      cases others with
      | nil =>
        -- no line would have failed
        rw [List.map_cons, Step.sequence_cons_of_ok readsLine] at run
        cases run
      | cons next others =>
        -- the line could have been added to the accepted text
        obtain ⟨more, final, nonempty, longer⟩ := first.exists_accepted_append drained reads rest readsLine
        have bound := accepted.longest _ _ longer
        have positive := List.length_pos_iff.2 nonempty
        rw [List.length_append] at bound
        omega

theorem specification_error_after_longest_unknown_set :
    ∃ stop last text middle,
      Step.specification.run (.start "$d = a\n$e = b $f\nx :- $d\n" ∅) = .error stop last ∧
      LongestAccepted (.start "$d = a\n$e = b $f\nx :- $d\n" ∅) text middle ∧
      last = { middle with input := last.input } := by
  have refused : (match Step.specification.run (.start "$d = a\n$e = b $f\nx :- $d\n" ∅) with
      | .ok _ _ => false
      | .error _ _ => true) = true := by decide +kernel
  cases fails : Step.specification.run (.start "$d = a\n$e = b $f\nx :- $d\n" ∅) with
  | ok rules last =>
    rw [fails] at refused
    cases refused
  | error stop last =>
    obtain ⟨⟨text, middle, accepted⟩, same⟩ := specification_error_after_longest rfl fails
    exact ⟨stop, last, text, middle, rfl, accepted, same text middle accepted⟩

end LexSpec
