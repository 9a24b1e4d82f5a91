import LexSpec.Proofs.Session.Sequence
import LexSpec.Specification

/-! # Reading lines

A line that is read changes the session by what it says and in no other way, and the steps of a list of
lines run one after the other until one of them stops.

* `Statement.run_eq`: what a statement does, as a rule and a session.
* `ReadsLines`: a run over lines that are all read, which is `Step.Runs` for lines. It is what `Step.sequence` does
  when it succeeds (`sequence_eq_ok_iff`), and what it has done before the first line that cannot be read
  (`sequence_eq_error_iff`).
* `readWith_eq`: reading a specification is the run over the lines of its text.
-/

namespace LexSpec

/-! ## What a statement does -/

namespace Statement

/-- The rule that a statement adds under a start code. -/
def rule? (startCode : Nat) : Statement → Option Rule
  | rule name position regex _ => some ⟨startCode, name, regex, position⟩
  | _ => none

def warnings : Statement → List Warning
  | rule _ _ regex body =>
    if !regex.isEmpty && regex.nullable then [.nullableRegex body regex.text] else []
  | _ => []

def scopeAfter (scope : Scope) : Statement → Scope
  | setDefinition name set => scope.defineSet name set
  | regexDefinition name regex => scope.defineRegex name regex
  | _ => scope

def startCodeAfter (startCode : Nat) : Statement → Nat
  | .startCode number => number
  | _ => startCode

/-- The session behind a statement. -/
def after (statement : Statement) (session : Session) : Session where
  warnings := session.warnings ++ statement.warnings
  scope := statement.scopeAfter session.scope
  startCode := statement.startCodeAfter session.startCode
  input := session.input

theorem run_eq (statement : Statement) (session : Session) :
    statement.run session = .ok (statement.rule? session.startCode) (statement.after session) := by
  cases statement with
  | rule name position regex body =>
    by_cases nullable : (!regex.isEmpty && regex.nullable) = true
    · simp only [run, after, warnings, Step.warnIfNullable, nullable, if_true]
      rfl
    · simp only [run, after, warnings, Step.warnIfNullable, nullable, Bool.false_eq_true, if_false,
        List.append_nil]
      rfl
  | _ =>
    simp only [after, warnings, List.append_nil]
    rfl

end Statement

/-! ## Lines in a row -/

theorem Line.read_eq_of_statement {line : Line} {session : Session} {statement : Statement}
    (stated : line.statement session.scope = .ok statement) :
    line.read session = .ok (statement.rule? session.startCode)
      (statement.after { session with input := line.ending.behind }) := by
  unfold Line.read
  rw [stated]
  exact statement.run_eq _

theorem Line.read_eq_of_error {line : Line} {session : Session} {stop : Stop} {input : Cursor}
    (refused : line.statement session.scope = .error (stop, input)) :
    line.read session = .error stop { session with input } := by
  unfold Line.read
  rw [refused]

/-- The session behind a line that says something. -/
def Session.afterLine (session : Session) (line : Line) (statement : Statement) : Session :=
  statement.after { session with input := line.ending.behind }

/-- A run over lines that are all read, with the rules that they give. -/
inductive ReadsLines : Session → List Line → List (Option Rule) → Session → Prop where
  | nil {session : Session} : ReadsLines session [] [] session
  | cons {session last : Session} {line : Line} {lines : List Line} {rules : List (Option Rule)}
      {statement : Statement} (stated : line.statement session.scope = .ok statement)
      (rest : ReadsLines (session.afterLine line statement) lines rules last) :
      ReadsLines session (line :: lines) (statement.rule? session.startCode :: rules) last

theorem ReadsLines.split {session last : Session} {front back : List Line}
    {all : List (Option Rule)} (reads : ReadsLines session (front ++ back) all last) :
    ∃ rules middle others, ReadsLines session front rules middle ∧
      ReadsLines middle back others last ∧ all = rules ++ others := by
  induction front generalizing session all with
  | nil => exact ⟨[], session, all, .nil, reads, rfl⟩
  | cons line front ih =>
    cases reads with
    | cons stated rest =>
      obtain ⟨rules, middle, others, first, second, rfl⟩ := ih rest
      exact ⟨_ :: rules, middle, others, .cons stated first, second, rfl⟩

theorem ReadsLines.append {session middle last : Session} {front back : List Line}
    {rules others : List (Option Rule)} (first : ReadsLines session front rules middle)
    (second : ReadsLines middle back others last) :
    ReadsLines session (front ++ back) (rules ++ others) last := by
  induction first with
  | nil => exact second
  | cons stated _ ih => exact .cons stated (ih second)

/-- Lines are steps of a list: they all come to their end exactly when they are all read. -/
theorem runs_map_read_iff {session last : Session} {lines : List Line} {rules : List (Option Rule)} :
    Step.Runs (lines.map Line.read) session rules last ↔ ReadsLines session lines rules last := by
  constructor
  · intro runs
    induction lines generalizing session rules with
    | nil =>
      cases runs
      exact .nil
    | cons line lines ih =>
      cases runs with
      | cons first rest =>
        cases stated : line.statement session.scope with
        | error refused =>
          rw [Line.read_eq_of_error stated] at first
          cases first
        | ok statement =>
          rw [Line.read_eq_of_statement stated] at first
          cases first
          exact .cons stated (ih rest)
  · intro reads
    induction reads with
    | nil => exact .nil
    | cons stated _ ih => exact .cons (Line.read_eq_of_statement stated) ih

theorem sequence_eq_ok_iff {session last : Session} {lines : List Line} {rules : List (Option Rule)} :
    Step.sequence (lines.map Line.read) session = .ok rules last ↔
      ReadsLines session lines rules last :=
  Step.sequence_eq_ok_iff_runs.trans runs_map_read_iff

theorem sequence_eq_error_iff {session last : Session} {lines : List Line} {stop : Stop} :
    Step.sequence (lines.map Line.read) session = .error stop last ↔
      ∃ before line after rules middle input, lines = before ++ line :: after ∧
        ReadsLines session before rules middle ∧ line.statement middle.scope = .error (stop, input) ∧
        last = { middle with input } := by
  constructor
  · intro run
    obtain ⟨-, before, step, after, rules, middle, cut, -, runs, stopped⟩ :=
      Step.sequence_eq_error_iff_stopsAt.1 run
    obtain ⟨front, rest, rfl, rfl, behind⟩ := List.map_eq_append_iff.1 cut
    obtain ⟨line, back, rfl, rfl, rfl⟩ := List.map_eq_cons_iff.1 behind
    cases stated : line.statement middle.scope with
    | error refused =>
      rw [Line.read_eq_of_error stated] at stopped
      cases stopped
      exact ⟨front, line, back, rules, middle, refused.2, rfl, runs_map_read_iff.1 runs, stated, rfl⟩
    | ok statement =>
      rw [Line.read_eq_of_statement stated] at stopped
      cases stopped
  · rintro ⟨before, line, after, rules, middle, input, rfl, reads, refused, rfl⟩
    rw [List.map_append, List.map_cons]
    exact (runs_map_read_iff.2 reads).sequence_append_cons_eq (Line.read_eq_of_error refused) _

/-! ## Specifications -/

theorem specification_eq (session : Session) :
    Step.specification session =
      match Step.sequence ((TokenStream.of session.input).lines.map Line.read) session with
      | .ok rules last => .ok rules.reduceOption last
      | .error stop last => .error stop last := by
  change (Step.sequence ((TokenStream.of session.input).lines.map Line.read) >>=
    fun rules => pure rules.reduceOption) session = _
  rw [Step.bind_eq]
  cases Step.sequence ((TokenStream.of session.input).lines.map Line.read) session <;> rfl

theorem readWith_eq (source : String) (scope : Scope) :
    Specification.readWith source scope =
      match Step.sequence ((TokenStream.of (.ofString source)).lines.map Line.read) (.start source scope) with
      | .ok outcomes last => .ok ⟨outcomes.reduceOption, last.warnings⟩
      | .error stop _ => .error stop := by
  have run : Step.specification.run (.start source scope) =
      match Step.sequence ((TokenStream.of (.ofString source)).lines.map Line.read) (.start source scope) with
      | .ok rules last => .ok rules.reduceOption last
      | .error stop last => .error stop last := specification_eq (.start source scope)
  unfold Specification.readWith Step.runOn
  rw [run]
  cases Step.sequence ((TokenStream.of (.ofString source)).lines.map Line.read) (.start source scope) <;> rfl

theorem readWith_eq_ok_iff {source : String} {scope : Scope} {specification : Specification} :
    Specification.readWith source scope = .ok specification ↔
      ∃ outcomes last,
        ReadsLines (.start source scope) (TokenStream.of (.ofString source)).lines outcomes last ∧
        specification = ⟨outcomes.reduceOption, last.warnings⟩ := by
  simp only [← sequence_eq_ok_iff]
  rw [readWith_eq]
  cases Step.sequence ((TokenStream.of (.ofString source)).lines.map Line.read) (.start source scope) with
  | error stop last => simp
  | ok outcomes last =>
    constructor
    · intro reads
      cases reads
      exact ⟨outcomes, last, rfl, rfl⟩
    · rintro ⟨_, _, same, rfl⟩
      cases same
      rfl

theorem readWith_eq_error_iff {source : String} {scope : Scope} {stop : Stop} :
    Specification.readWith source scope = .error stop ↔
      ∃ last, Step.sequence ((TokenStream.of (.ofString source)).lines.map Line.read) (.start source scope) =
        .error stop last := by
  rw [readWith_eq]
  cases Step.sequence ((TokenStream.of (.ofString source)).lines.map Line.read) (.start source scope) <;>
    simp

theorem tokens_eq_ok_iff {session behind : Session} {found : List PlacedToken} :
    Step.tokens.run session = .ok found behind ↔
      (TokenStream.of session.input).stop? = none ∧ (TokenStream.of session.input).tokens = found ∧
        behind = { session with input := (TokenStream.of session.input).final } := by
  change Step.tokens session = _ ↔ _
  simp only [Step.tokens]
  cases (TokenStream.of session.input).stop? with
  | none => simp [eq_comm]
  | some stop => simp

theorem tokens_runOn_eq_ok_iff {source : String} {scope : Scope} {found : List PlacedToken}
    {warnings : List Warning} :
    Step.tokens.runOn source scope = .ok (found, warnings) ↔
      (TokenStream.of (.ofString source)).stop? = none ∧
        (TokenStream.of (.ofString source)).tokens = found ∧ warnings = [] := by
  unfold Step.runOn
  constructor
  · intro reads
    cases run : Step.tokens.run (.start source scope) with
    | error stop session =>
      rw [run] at reads
      cases reads
    | ok tokens last =>
      rw [run] at reads
      cases reads
      obtain ⟨complete, same, rfl⟩ := tokens_eq_ok_iff.1 run
      exact ⟨complete, same, rfl⟩
  · rintro ⟨complete, same, rfl⟩
    rw [tokens_eq_ok_iff.2 ⟨complete, same, rfl⟩]
    rfl

theorem tokens_runOn_eq_error_iff {source : String} {scope : Scope} {stop : Stop} :
    Step.tokens.runOn source scope = .error stop ↔ (TokenStream.of (.ofString source)).stop? = some stop := by
  simp only [Step.runOn, EStateM.run, Step.tokens, Session.start]
  cases (TokenStream.of (.ofString source)).stop? with
  | none => simp
  | some other => simp

end LexSpec
