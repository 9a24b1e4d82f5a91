import LexSpec.Proofs.Descent.Expressions
import LexSpec.Proofs.Line.Reading

/-! # Lines by descent

A part that reads up to the end of a line does what the rest of the line comes to when its tokens are read
(`Concludes`). There is one law for each way to put such parts together: something behind an expected token,
something with the end of the line behind it, and a value made of what has been read. With them a line that is
read by descent (`Descent.line`) does what `Line.read` does (`line_eq`).
-/

namespace LexSpec

variable {α β σ : Type}

namespace Line

theorem outcome_congr {line other : Line} (ending : other.ending = line.ending) (result : Except Refusal α) :
    other.outcome result = line.outcome result := by
  unfold outcome refuse
  rw [ending]

theorem outcome_map (line : Line) (result : Except Refusal α) (f : α → β) :
    line.outcome (f <$> result) = f <$> line.outcome result := by
  cases result with
  | error refusal => rfl
  | ok value =>
    obtain ⟨tokens, ending⟩ := line
    cases ending <;> rfl

theorem outcome_ofTokens (line : Line) (scope : Scope) :
    line.outcome (Statement.ofTokens scope line.tokens) = line.statement scope := by
  unfold outcome statement
  cases Statement.ofTokens scope line.tokens <;> rfl

end Line

/-- A part reads up to the end of a line and hands on what the tokens of the line are read to. -/
def Concludes (read : List PlacedToken → Except Refusal α) (session : Session) (input : Cursor)
    (part : Descent α) : Prop :=
  Meets input.line (read input.line.tokens) session
    (fun value next => input.line.outcome (read input.line.tokens) = .ok value ∧ next = input.line.ending.behind)
    input part

namespace Descent

variable {read : List PlacedToken → Except Refusal α} {session : Session} {input : Cursor} {part : Descent α}
  {fuel : Nat} {found : PlacedToken} {rest : List PlacedToken}

/-! ## Putting parts together -/

theorem concludes_map (concludes : Concludes read session input part) (f : α → β) :
    Concludes (fun tokens => f <$> read tokens) session input (f <$> part) := by
  rw [map_eq_pure_bind]
  cases concludes with
  | ok run holds =>
    refine .ok (bind_eq_of_ok run) ⟨?_, holds.2⟩
    rw [Line.outcome_map, holds.1]
    rfl
  | error run fails =>
    refine .error (bind_eq_of_error run) ?_
    rw [Line.outcome_map, fails]
    rfl

theorem ofStep_bind (step : Step α) (rest : α → Step β) :
    ofStep (step >>= rest) = ofStep step >>= fun value => ofStep (rest value) := by
  funext session
  simp only [ofStep, EStateM.adaptExcept, bind, EStateM.bind]
  cases step session <;> rfl

theorem ofStep_pure (value : α) : ofStep (pure value) = pure value := rfl

theorem unexpected_bind (lexeme : Lexeme Token) (more : α → Descent β) :
    (unexpected lexeme >>= more) = unexpected lexeme := by
  cases lexeme <;> rfl

/-- Where the first token of a line is known, what is read behind it concludes the line. -/
theorem concludes_of_begins {whole : Descent α} (begins : input.Begins found rest)
    (concludes : Concludes (fun tokens => read (found :: tokens)) session found.behind part)
    (same : whole.run { session with input } = part.run { session with input := found.behind }) :
    Concludes read session input whole := by
  unfold Concludes at concludes ⊢
  rw [begins.behind] at concludes
  rw [begins.tokens]
  cases concludes with
  | ok run holds => exact .ok (same.trans run) holds
  | error run fails => exact .error (same.trans run) fails

theorem concludes_bind_next {more : Lexeme Token → Descent α} (enough : input.bytesLeft < fuel)
    (missing : read [] = .error .incomplete)
    (needed : ∀ lexeme, lexeme.token? ∈ [none, some .newline] → more lexeme = unexpected lexeme)
    (others : ∀ found rest, input.Begins found rest →
      Concludes (fun tokens => read (found :: tokens)) session found.behind
        (more (.token found.position found.text found.token))) :
    Concludes read session input (next fuel >>= more) := by
  cases tokens : input.line.tokens with
  | nil =>
    refine .error (bind_next_of_nil enough session tokens needed) ?_
    rw [tokens, missing]
    rfl
  | cons found rest =>
    have begins := Cursor.begins_of_cons tokens
    exact concludes_of_begins begins (others found rest begins) (bind_next_of_begins enough session begins more)

/-- What an expected token is followed by is read from there. -/
theorem concludes_bind_expect {token : Token} {others : Descent α} (enough : input.bytesLeft < fuel)
    (inside : token ≠ .newline)
    (behind : ∀ found rest, input.Begins found rest → Concludes read session found.behind others) :
    Concludes (fun tokens => Statement.expect token tokens >>= read) session input
      (expect fuel token >>= fun _ => others) := by
  rw [expect, bind_assoc]
  refine concludes_bind_next enough rfl (fun lexeme ends => ?_) fun found rest begins => ?_
  · have missing : lexeme.token? ≠ some token := by
      intro expected
      rw [expected] at ends
      exact inside (by simpa using ends)
    rw [if_neg missing, unexpected_bind]
  · by_cases expected : found.token = token
    · simp only [Lexeme.token?, Statement.expect, expected, if_true]
      exact behind found rest begins
    · simp only [Lexeme.token?, Option.some.injEq, Statement.expect, expected, if_false]
      exact .error rfl rfl

/-! ## The end of a line -/

/-- Where a line can end and nothing else can follow, the end of the line is read. -/
theorem meets_endOfLine {fold : Fold σ α} {line : Line} {result : Except Refusal α} {state : σ} {value : α}
    (place : fold.At line result state input) (enough : input.bytesLeft < fuel)
    (given : fold.finish state = .ok value)
    (refuses : ∀ found rest, input.Begins found rest → fold.step state found = .error (.unexpected found)) :
    Meets line result session (fun _ next => line.outcome result = .ok value ∧ next = line.ending.behind) input
      (endOfLine fuel) := by
  have here := next_eq enough session
  have ahead := input.ahead_next
  rw [endOfLine]
  generalize Token.scanner.next 0 input = result at ahead here
  cases ahead with
  | @token found rest begins =>
    refine meets_bind_next begins enough ?_
    have inside : some found.token ∉ [none, some .newline] := by simpa using begins.inside
    rw [Lexeme.token?, if_neg inside]
    exact meets_unexpected place begins (refuses found rest begins)
  | newline shown | endOfFile shown =>
    have ending := place.ending
    rw [shown] at ending
    refine .ok (bind_eq_of_ok here) ⟨place.outcome_of_finished (by rw [shown]) given ?_, by rw [← ending]; rfl⟩
    simp [← ending]
  | stopped shown => exact .error (bind_eq_of_error here) (place.outcome_of_stopped shown)

/-- A part that reaches to the end of its line is the whole of it. -/
theorem concludes_toEndOfLine {fold : Fold σ α} {start : σ} (enough : input.bytesLeft < fuel)
    (meets : Meets input.line (fold.run start input.line.tokens) session
      (fun value next => next.bytesLeft ≤ input.bytesLeft ∧ ∃ state,
        fold.At input.line (fold.run start input.line.tokens) state next ∧ fold.finish state = .ok value ∧
        ∀ found rest, next.Begins found rest → fold.step state found = .error (.unexpected found))
      input part) :
    Concludes (fold.run start) session input (toEndOfLine fuel part) := by
  refine .bind meets ?_
  rintro value next ⟨shorter, state, place, given, refuses⟩
  refine .bind (meets_endOfLine place (Nat.lt_of_le_of_lt shorter enough) given refuses) ?_
  rintro - last ⟨outcome, rfl⟩
  exact .pure ⟨outcome, rfl⟩

theorem concludes_set (enough : input.bytesLeft + 1 < fuel) :
    Concludes (CharSet.ofTokens session.scope) session input (toEndOfLine fuel (Descent.set fuel ∅)) := by
  refine @concludes_toEndOfLine _ _ _ _ _ _ (SetItems.fold session.scope) .start (Nat.lt_of_succ_lt enough) ?_
  refine (meets_set ⟨rfl, rfl⟩ rfl (.inl rfl) enough).mono ?_
  rintro value next ⟨shorter, finished, items, place, given⟩
  refine ⟨shorter, items, place, given, fun found rest begins => ?_⟩
  cases finished.symm.trans begins.tokens

theorem concludes_regex (enough : 4 * input.bytesLeft + 5 ≤ fuel) :
    Concludes (Regex.ofTokens session.scope) session input (toEndOfLine fuel (regex fuel)) := by
  refine @concludes_toEndOfLine _ _ _ _ _ _ (OpenGroups.fold session.scope) .start (by omega) ?_
  refine (meets_regex fuel ⟨rfl, rfl⟩ (.inl rfl) enough).mono ?_
  rintro value next ⟨shorter, ends, inner, place, reads⟩
  refine ⟨shorter, ⟨inner, []⟩, place, ?_, fun found rest begins => ?_⟩
  · change OpenGroups.finish ⟨inner, []⟩ = _
    simp only [OpenGroups.finish, reads]
  · -- only a parenthesis can follow, and none is open
    rw [begins.lookahead_eq] at ends
    have closes : found.token = .closeParen := by simpa [begins.inside] using ends
    change OpenGroups.next session.scope ⟨inner, []⟩ found = _
    simp only [OpenGroups.next, closes]
    rfl

/-! ## Statements -/

/-- What a line says that begins with a token, read by descent behind that token. -/
def statement (fuel : Nat) (first : PlacedToken) : Descent Statement :=
  match first.token with
  | .setName name => do
    expect fuel .equals
    .setDefinition name <$> toEndOfLine fuel (set fuel ∅)
  | .regexName name => do
    expect fuel .equals
    .regexDefinition name <$> toEndOfLine fuel (regex fuel)
  | .startCode number => do
    endOfLine fuel
    return .startCode number
  | .word name => do
    expect fuel .turnstile
    let body ← peek fuel
    (.rule name first.position · body.position) <$> toEndOfLine fuel (regex fuel)
  | _ => unexpected (.token first.position first.text first.token)

/-- No token can be read. -/
def nothing : Fold Unit Unit where
  step _ found := .error (.unexpected found)
  finish _ := .ok ()
  incomplete := nofun

theorem concludes_endOfLine (enough : input.bytesLeft < fuel) :
    Concludes (nothing.run ()) session input (endOfLine fuel) :=
  @meets_endOfLine _ _ _ _ _ nothing _ _ () () ⟨rfl, rfl⟩ enough rfl fun _ _ _ => rfl

/-- The rule behind a turnstile. The place of its expression is that of the next token. -/
theorem concludes_rule (enough : 4 * input.bytesLeft + 5 ≤ fuel) (name : String) (position : Position) :
    Concludes (Statement.ruleOfTokens session.scope name position) session input
      (peek fuel >>= fun body =>
        (.rule name position · body.position) <$> toEndOfLine fuel (regex fuel)) := by
  have here := peek_eq (show input.bytesLeft < fuel by omega) session
  have ahead := input.ahead_next
  have body (place : Position) :=
    concludes_map (@concludes_regex session _ _ enough) (Statement.rule name position · place)
  generalize Token.scanner.next 0 input = next at ahead here
  unfold Concludes at body ⊢
  -- what has been seen is read again, so the tokens of the line are those of the expression
  cases ahead with
  | @token found rest begins =>
    rw [begins.tokens] at body ⊢
    exact (body found.position).of_run_eq (bind_eq_of_ok here)
  | @newline place _ shown | @endOfFile place _ shown =>
    rw [shown] at body ⊢
    exact (body place).of_run_eq (bind_eq_of_ok here)
  | stopped shown =>
    rw [shown]
    exact .error (bind_eq_of_error here) rfl

theorem concludes_statement (begins : input.Begins found rest) (enough : 4 * input.bytesLeft + 1 ≤ fuel) :
    Concludes (fun tokens => Statement.ofTokens session.scope (found :: tokens)) session found.behind
      (statement fuel found) := by
  have behind := begins.bytesLeft_lt
  have ahead : found.behind.bytesLeft < fuel := by omega
  unfold statement
  simp only [Statement.ofTokens, bind_pure_comp]
  cases token : found.token with
  | setName name =>
    refine concludes_bind_expect ahead (by decide) fun equals rest next => ?_
    have last := next.bytesLeft_lt
    exact concludes_map (concludes_set (by omega)) _
  | regexName name =>
    refine concludes_bind_expect ahead (by decide) fun equals rest next => ?_
    have last := next.bytesLeft_lt
    exact concludes_map (concludes_regex (by omega)) _
  | word name =>
    refine concludes_bind_expect ahead (by decide) fun turnstile rest next => ?_
    have last := next.bytesLeft_lt
    exact concludes_rule (by omega) name found.position
  | startCode number =>
    convert concludes_map (concludes_endOfLine ahead) fun _ => Statement.startCode number using 2 with tokens
    cases tokens <;> rfl
  | newline => exact absurd token begins.inside
  | _ => exact .error rfl rfl

theorem read_eq_of_concludes {part : Descent Statement} (begins : input.Begins found rest)
    (concludes : Concludes (fun tokens => Statement.ofTokens session.scope (found :: tokens)) session
      found.behind part) :
    (part >>= fun statement => ofStep statement.run).run { session with input := found.behind } =
      (ofStep input.line.read).run { session with input := found.behind } := by
  have stated : Line.outcome ⟨rest, input.line.ending⟩ (Statement.ofTokens session.scope (found :: rest)) =
      input.line.statement session.scope := by
    rw [← Line.outcome_ofTokens, begins.tokens]
    exact Line.outcome_congr rfl _
  unfold Concludes at concludes
  rw [begins.behind] at concludes
  cases concludes with
  | ok run holds =>
    obtain ⟨given, rfl⟩ := holds
    rw [bind_eq_of_ok run]
    simp only [EStateM.run, ofStep, EStateM.adaptExcept, Line.read, stated.symm.trans given]
  | error run fails =>
    rw [bind_eq_of_error run]
    simp only [EStateM.run, ofStep, EStateM.adaptExcept, Line.read, stated.symm.trans fails]

theorem line_eq_bind (begins : input.Begins found rest) :
    Descent.line fuel found.position found.text found.token =
      statement fuel found >>= fun statement => ofStep statement.run := by
  have spells := begins.spells
  unfold statement
  -- a name is what is cut out of the text that spells it
  cases token : found.token with
  | newline => exact absurd token begins.inside
  | setName name =>
    rw [token] at spells
    simp only [Descent.line, nameOf_eq_of_setName spells, map_eq_pure_bind, bind_assoc, pure_bind,
      Statement.run, ofStep_bind, ofStep_pure]
  | regexName name =>
    rw [token] at spells
    simp only [Descent.line, nameOf_eq_of_regexName spells, map_eq_pure_bind, bind_assoc, pure_bind,
      Statement.run, ofStep_bind, ofStep_pure]
  | word name =>
    rw [token] at spells
    have text : found.text = name := String.toList_inj.1 spells.eq_of_word
    simp only [Descent.line, text, map_eq_pure_bind, bind_assoc, pure_bind, Statement.run, ofStep_bind,
      ofStep_pure]
  | startCode number =>
    simp only [Descent.line, bind_assoc, pure_bind, Statement.run, ofStep_bind, ofStep_pure]
  | _ => simp only [Descent.line, unexpected_bind]

/-- A line that begins with a token is read behind it as a whole. -/
theorem line_eq (begins : input.Begins found rest) (enough : 4 * input.bytesLeft + 1 ≤ fuel) :
    (Descent.line fuel found.position found.text found.token).run { session with input := found.behind } =
      (ofStep input.line.read).run { session with input := found.behind } := by
  rw [line_eq_bind begins]
  exact read_eq_of_concludes begins (concludes_statement begins enough)

end Descent

end LexSpec
