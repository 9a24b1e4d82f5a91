import LexSpec.Proofs.Descent.Lookahead
import LexSpec.Proofs.Grammar.Completion

/-! # Parts of a line

The tokens of a line are read one by one, with a state: a `Fold`. A reading by descent reads a part of the
line with a call of its own. The call hands on a value and a cursor, from where the fold goes on in some state
(`Fold.At`), or it breaks off as the line does as a whole (`Line.outcome`). `Meets` says this of a call, and it
is put together along `>>=` (`Meets.bind`).
-/

namespace LexSpec

variable {σ τ α β : Type}

/-- A reading of tokens one by one. Where they end too early another one is missing. -/
structure Fold (σ τ : Type) where
  step : σ → PlacedToken → Except Refusal σ
  finish : σ → Except Refusal τ
  incomplete : ∀ {state refusal}, finish state = .error refusal → refusal = .incomplete

namespace Fold

def run (fold : Fold σ τ) (state : σ) (tokens : List PlacedToken) : Except Refusal τ :=
  tokens.foldlM fold.step state >>= fold.finish

theorem run_nil (fold : Fold σ τ) (state : σ) : fold.run state [] = fold.finish state := rfl

theorem run_cons_of_ok {fold : Fold σ τ} {state next : σ} {found : PlacedToken}
    (taken : fold.step state found = .ok next) (rest : List PlacedToken) :
    fold.run state (found :: rest) = fold.run next rest := by
  rw [run, List.foldlM_cons, taken]
  rfl

theorem run_cons_of_error {fold : Fold σ τ} {state : σ} {found : PlacedToken} {refusal : Refusal}
    (refused : fold.step state found = .error refusal) (rest : List PlacedToken) :
    fold.run state (found :: rest) = .error refusal := by
  rw [run, List.foldlM_cons, refused]
  rfl

end Fold

/-- What a line comes to when its tokens are read with a result: a value, or why it cannot be read and the
    cursor behind what was read of it. -/
def Line.outcome (line : Line) (result : Except Refusal α) : Except (Stop × Cursor) α :=
  match result with
  | .error refusal => .error (line.refuse refusal)
  | .ok value =>
    match line.ending with
    | .stopped stop final => .error (stop, final)
    | _ => .ok value

/-! ## Where the fold goes on -/

/-- The line goes on at a cursor, and its tokens are read from a state on with the result of the whole. -/
structure Fold.At (fold : Fold σ τ) (line : Line) (result : Except Refusal τ) (state : σ) (input : Cursor) :
    Prop where
  ending : input.line.ending = line.ending
  result : fold.run state input.line.tokens = result

namespace Fold.At

variable {fold : Fold σ τ} {line : Line} {result : Except Refusal τ} {state next : σ} {input : Cursor}
  {found : PlacedToken} {rest : List PlacedToken} {refusal : Refusal}

theorem step (place : fold.At line result state input) (begins : input.Begins found rest)
    (taken : fold.step state found = .ok next) : fold.At line result next found.behind where
  ending := by rw [begins.behind, place.ending]
  result := by rw [begins.behind, ← run_cons_of_ok taken, ← begins.tokens, place.result]

theorem outcome_of_refused (place : fold.At line result state input) (begins : input.Begins found rest)
    (refused : fold.step state found = .error refusal) :
    line.outcome result = .error (line.refuse refusal) := by
  rw [← place.result, begins.tokens, run_cons_of_error refused]
  rfl

theorem outcome_of_nil (place : fold.At line result state input) (finished : input.line.tokens = [])
    (refused : fold.finish state = .error refusal) :
    line.outcome result = .error (Line.earlyEnd line.ending, line.ending.behind) := by
  obtain rfl := fold.incomplete refused
  rw [← place.result, finished, run_nil, refused]
  rfl

theorem outcome_of_finished {value : τ} (place : fold.At line result state input)
    (finished : input.line.tokens = []) (given : fold.finish state = .ok value)
    (complete : ∀ stop final, line.ending ≠ .stopped stop final) : line.outcome result = .ok value := by
  rw [← place.result, finished, run_nil, given, Line.outcome]
  cases ending : line.ending with
  | newline | endOfFile => rfl
  | stopped stop final => exact absurd ending (complete stop final)

/-- Where no token can be found, it does not matter in which state. -/
theorem outcome_of_stopped {stop : Stop} {final : Cursor} (place : fold.At line result state input)
    (stopped : input.line = ⟨[], .stopped stop final⟩) : line.outcome result = .error (stop, final) := by
  have ending : line.ending = .stopped stop final := by rw [← place.ending, stopped]
  cases finished : fold.finish state with
  | error refusal =>
    rw [place.outcome_of_nil (by rw [stopped]) finished, ending]
    rfl
  | ok value =>
    rw [← place.result, stopped, run_nil, finished, Line.outcome, ending]

end Fold.At

/-! ## What comes of a call -/

/-- A call at a cursor hands on a value and a cursor, or it breaks off as the line does. -/
inductive Meets (line : Line) (result : Except Refusal τ) (session : Session) (given : α → Cursor → Prop)
    (input : Cursor) (part : Descent α) : Prop where
  | ok {value : α} {next : Cursor}
      (run : part.run { session with input } = .ok value { session with input := next })
      (holds : given value next) : Meets line result session given input part
  | error {stop : Stop} {final : Cursor}
      (run : part.run { session with input } = .error (.stop stop) { session with input := final })
      (fails : line.outcome result = .error (stop, final)) : Meets line result session given input part

namespace Meets

variable {line : Line} {result : Except Refusal τ} {session : Session} {given : α → Cursor → Prop}
  {input : Cursor} {part : Descent α}

theorem mono {weaker : α → Cursor → Prop} (meets : Meets line result session given input part)
    (implies : ∀ value next, given value next → weaker value next) :
    Meets line result session weaker input part := by
  cases meets with
  | ok run holds => exact .ok run (implies _ _ holds)
  | error run fails => exact .error run fails

theorem pure {value : α} (holds : given value input) : Meets line result session given input (Pure.pure value) :=
  .ok rfl holds

theorem of_run_eq {other : Descent α} {start : Cursor} (meets : Meets line result session given start part)
    (same : other.run { session with input } = part.run { session with input := start }) :
    Meets line result session given input other := by
  cases meets with
  | ok run holds => exact .ok (same.trans run) holds
  | error run fails => exact .error (same.trans run) fails

theorem bind {later : β → Cursor → Prop} {rest : α → Descent β}
    (first : Meets line result session given input part)
    (others : ∀ value next, given value next → Meets line result session later next (rest value)) :
    Meets line result session later input (part >>= rest) := by
  cases first with
  | error run fails => exact .error (Descent.bind_eq_of_error run) fails
  | ok run holds => exact (others _ _ holds).of_run_eq (Descent.bind_eq_of_ok run)

end Meets

namespace Descent

variable {fold : Fold σ τ} {line : Line} {result : Except Refusal τ} {state : σ} {session : Session}
  {given : α → Cursor → Prop} {fuel : Nat} {input : Cursor} {found : PlacedToken} {rest : List PlacedToken}
  {refusal : Refusal}

theorem meets_peekToken (place : fold.At line result state input) (enough : input.bytesLeft < fuel) :
    Meets line result session (fun token next => token = input.line.lookahead ∧ next = input) input
      (peekToken fuel) := by
  rcases cases_of_peekToken enough session with shown | ⟨stop, final, line, stops⟩
  · exact .ok shown ⟨rfl, rfl⟩
  · exact .error stops (place.outcome_of_stopped line)

theorem meets_bind_next {more : Lexeme Token → Descent α} (begins : input.Begins found rest)
    (enough : input.bytesLeft < fuel)
    (others : Meets line result session given found.behind
      (more (.token found.position found.text found.token))) :
    Meets line result session given input (next fuel >>= more) :=
  others.of_run_eq (bind_next_of_begins enough session begins more)

/-- Where the line is at its end but another token is needed, the line ends too early. -/
theorem meets_bind_next_of_nil {more : Lexeme Token → Descent α} (place : fold.At line result state input)
    (enough : input.bytesLeft < fuel) (finished : input.line.tokens = [])
    (refused : fold.finish state = .error refusal)
    (needed : ∀ lexeme, lexeme.token? ∈ [none, some .newline] → more lexeme = unexpected lexeme) :
    Meets line result session given input (next fuel >>= more) := by
  have run := bind_next_of_nil enough session finished needed
  rw [place.ending] at run
  exact .error run (place.outcome_of_nil finished refused)

/-- What breaks off behind a token that is refused breaks off as the line does. -/
theorem meets_of_refused {part : Descent α} {stop : Stop} (place : fold.At line result state input)
    (begins : input.Begins found rest) (refused : fold.step state found = .error refusal)
    (told : line.refuse refusal = (stop, found.behind))
    (run : part.run { session with input := found.behind } =
      .error (.stop stop) { session with input := found.behind }) :
    Meets line result session given found.behind part :=
  .error run ((place.outcome_of_refused begins refused).trans (congrArg Except.error told))

theorem meets_unexpected (place : fold.At line result state input) (begins : input.Begins found rest)
    (refused : fold.step state found = .error (.unexpected found)) :
    Meets line result session given found.behind
      (unexpected (.token found.position found.text found.token)) :=
  meets_of_refused place begins refused rfl rfl

/-- What is expected is read, or the line cannot go on. -/
theorem meets_expect {token : Token} (place : fold.At line result state input) (enough : input.bytesLeft < fuel)
    (inside : token ≠ .newline) (missing : fold.finish state = .error refusal)
    (others : ∀ found rest, input.Begins found rest → found.token ≠ token →
      fold.step state found = .error (.unexpected found)) :
    Meets line result session
      (fun _ next => ∃ found rest, input.Begins found rest ∧ found.token = token ∧ next = found.behind) input
      (expect fuel token) := by
  cases tokens : input.line.tokens with
  | nil =>
    refine meets_bind_next_of_nil place enough tokens missing fun lexeme ends => if_neg fun expected => ?_
    rw [expected] at ends
    exact inside (by simpa using ends)
  | cons found rest =>
    have begins := Cursor.begins_of_cons tokens
    refine meets_bind_next begins enough ?_
    by_cases expected : found.token = token
    · rw [Lexeme.token?, if_pos (congrArg some expected)]
      exact .pure ⟨found, rest, begins, expected, rfl⟩
    · rw [Lexeme.token?, if_neg fun same => expected (Option.some.inj same)]
      exact meets_unexpected place begins (others found rest begins expected)

end Descent

end LexSpec
