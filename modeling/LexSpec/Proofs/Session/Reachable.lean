import LexSpec.Proofs.Cursor.Window
import LexSpec.Proofs.Line.Cursors

/-! # Sessions that can be reached

Whatever is done with a session, its cursor stays one that has been read on from the beginning of the text, and
so it knows what has been consumed: `exists_sound_of_reaches`.

* `Operation`: what can be done with a session without handing out a cursor or taking one. An operation reads
  on and stops where its cursor is (`Operation.onlyReads`).
* `Program`: computations made of operations, which may also hand out the cursor of the session, and put back
  one that has been handed out or is read on from there (`Program.keeps`).
* `Reaches`: the sessions that programs lead to, one after the other, whether they come to their end or stop.
-/

namespace LexSpec

variable {α β : Type}

namespace Step

/-- The step looks for the next lexeme with a scan. Where that comes to no end, it is taken to stop. -/
def LexesBy (scan : Cursor → Nat → Except Fault (Scan α)) (step : Step (Lexeme α)) : Prop :=
  ∀ session : Session,
    (∃ lexeme final, Lexes scan session.startCode session.input (.ok lexeme) final ∧
      step session = .ok lexeme { session with input := final }) ∨
    (∃ stop final, Lexes scan session.startCode session.input (.error stop) final ∧
      step session = .error stop { session with input := final }) ∨
    (∀ result final, ¬ Lexes scan session.startCode session.input result final) ∧
      step session = .error (.fault .stalled) session

theorem lexesBy_lexToken (scanner : Scanner α) : LexesBy scanner.scan (lexToken scanner) := by
  intro session
  have lexes := scanner.lexes_next session.startCode session.input
  unfold lexToken
  rcases found : scanner.next session.startCode session.input with ⟨result, final⟩
  rw [found] at lexes
  cases result with
  | ok lexeme => exact .inl ⟨lexeme, final, lexes, rfl⟩
  | error stop => exact .inr (.inl ⟨stop, final, lexes, rfl⟩)

end Step

/-! ## Operations -/

/-- The operations of a session, without those that hand out a cursor or take one. -/
inductive Operation : {α : Type} → Step α → Prop where
  | readChar : Operation Step.readChar
  | readByte : Operation Step.readByte
  | dropPending : Operation Step.dropPending
  /-- Looks at anything. What comes out can be used in any way, but is no cursor to be put back. -/
  | inspect {α : Type} (view : Session → α) : Operation (view <$> get)
  | getStartCode : Operation Step.getStartCode
  | setStartCode (startCode : Nat) : Operation (Step.setStartCode startCode)
  | errorHere (message : String) : Operation (Step.errorHere message)
  | fail {α : Type} (message : String) : Operation (Step.fail message : Step α)
  | lexError {α : Type} (message : String) : Operation (Step.lexError message : Step α)
  | warnIfNullable (regex : Regex) (position : Position) : Operation (Step.warnIfNullable regex position)
  | lookupSet (position : Position) (name : String) : Operation (Step.lookupSet position name)
  | lookupRegex (name : String) : Operation (Step.lookupRegex name)
  | defineSet (name : String) (set : CharSet) : Operation (Step.defineSet name set)
  | defineRegex (name : String) (regex : Regex) : Operation (Step.defineRegex name regex)
  | lex {α : Type} {scan : Cursor → Nat → Except Fault (Scan α)} {step : Step (Lexeme α)}
      (reads : ReadsOnly scan) (lexes : Step.LexesBy scan step) : Operation step
  | tokens : Operation Step.tokens
  | specification : Operation Step.specification

/-- A run from a cursor on has read on, and if it has stopped with an error, then that stands at the cursor
    that it has come to. -/
inductive ReadFrom (input : Cursor) : EStateM.Result Stop Session α → Prop where
  | ok {value : α} {last : Session} (reads : input.ReadsOn last.input) : ReadFrom input (.ok value last)
  | error {stop : Stop} {last : Session} (reads : input.ReadsOn last.input)
      (stands : stop.StandsAt last.input) : ReadFrom input (.error stop last)

namespace Step

/-- Each run of the step reads on from the cursor of the session. -/
def OnlyReads (step : Step α) : Prop := ∀ session : Session, ReadFrom session.input (step session)

/-- A step that reads once, and leaves the cursor where nothing is left to read. -/
theorem onlyReads_of_read {step : Step (Option α)} {read : Cursor → Except Fault (Option (α × Cursor))}
    (runs : ∀ session, step session =
      match read session.input with
      | .error fault => .error (.fault fault) session
      | .ok none => .ok none session
      | .ok (some (value, next)) => .ok (some value) { session with input := next })
    (reads : ∀ {input value next}, read input = .ok (some (value, next)) → input.ReadsOn next) :
    OnlyReads step := by
  intro session
  rw [runs]
  cases found : read session.input with
  | error fault => exact .error (.refl _) (Stop.standsAt_fault fault _)
  | ok result =>
    cases result with
    | none => exact .ok (.refl _)
    | some result => exact .ok (reads found)

theorem onlyReads_readChar : OnlyReads readChar := by
  refine onlyReads_of_read (fun session => ?_) Cursor.ReadsOn.of_nextChar
  change EStateM.bind (ofFault session.input.nextChar) _ session = _
  cases session.input.nextChar with
  | error fault => rfl
  | ok found => cases found <;> rfl

theorem onlyReads_readByte : OnlyReads readByte := by
  refine onlyReads_of_read (fun session => ?_) Cursor.ReadsOn.of_nextByte
  change EStateM.bind (ofFault session.input.nextByte) _ session = _
  cases session.input.nextByte with
  | error fault => rfl
  | ok found => cases found <;> rfl

/-- A step that stops with an error at the cursor. -/
theorem onlyReads_of_error {step : Step α} {error : Cursor → TextError}
    (runs : ∀ session, step session = .error (.error (error session.input)) session)
    (stands : ∀ input, (error input).position = some input.position) : OnlyReads step := by
  intro session
  rw [runs]
  exact .error (.refl _) (Stop.standsAt_error (stands _))

theorem onlyReads_fail (message : String) : OnlyReads (fail message : Step α) :=
  @onlyReads_of_error _ _ (fun input => ⟨.user, some input.position, message⟩) (fun _ => rfl) fun _ => rfl

theorem onlyReads_lexError (message : String) : OnlyReads (lexError message : Step α) :=
  @onlyReads_of_error _ _ (·.lexicalError message) (fun _ => rfl) fun _ => rfl

theorem onlyReads_warnIfNullable (regex : Regex) (position : Position) :
    OnlyReads (warnIfNullable regex position) := by
  intro session
  unfold warnIfNullable
  split
  · exact .ok (.refl _)
  · exact .ok (.refl _)

/-- The name is looked up, and an unknown one is told of where it is used or nowhere. -/
theorem onlyReads_ofError {lookup : Session → Except TextError α} {step : Step α}
    (runs : ∀ session, step session = ofError (lookup session) session)
    (kind : ∀ session error, lookup session = .error error → error.kind ≠ .user ∧ error.kind ≠ .lexical) :
    OnlyReads step := by
  intro session
  rw [runs]
  cases found : lookup session with
  | ok value => exact .ok (.refl _)
  | error error =>
    obtain ⟨notUser, notLexical⟩ := kind session error found
    exact .error (.refl _) (Stop.standsAt_of_kind notUser notLexical _)

theorem onlyReads_lookupSet (position : Position) (name : String) : OnlyReads (lookupSet position name) := by
  refine onlyReads_ofError (fun _ => rfl) fun session error unknown => ?_
  unfold Definitions.resolveSet at unknown
  split at unknown <;> cases unknown
  exact ⟨by simp [TextError.unknownSet], by simp [TextError.unknownSet]⟩

theorem onlyReads_lookupRegex (name : String) : OnlyReads (lookupRegex name) := by
  refine onlyReads_ofError (fun _ => rfl) fun session error unknown => ?_
  unfold Definitions.resolveRegex at unknown
  split at unknown <;> cases unknown
  exact ⟨by simp [TextError.unknownRegex], by simp [TextError.unknownRegex]⟩

theorem onlyReads_lex {scan : Cursor → Nat → Except Fault (Scan α)} {step : Step (Lexeme α)}
    (reads : ReadsOnly scan) (lexes : LexesBy scan step) : OnlyReads step := by
  intro session
  rcases lexes session with ⟨lexeme, final, found, run⟩ | ⟨stop, final, found, run⟩ | ⟨-, run⟩
  · rw [run]
    exact .ok (found.readsOn reads)
  · rw [run]
    cases stop with
    | fault fault => exact .error (found.readsOn reads) (Stop.standsAt_fault fault _)
    | error error => exact .error (found.readsOn reads) (Stop.standsAt_error found.position_eq)
  · rw [run]
    exact .error (.refl _) (Stop.standsAt_fault _ _)

theorem onlyReads_tokens : OnlyReads tokens := by
  intro session
  have final := TokenStream.readsOn_final session.input
  simp only [tokens]
  cases stopped : (TokenStream.of session.input).stop? with
  | none => exact .ok final
  | some stop =>
    cases stop with
    | fault fault => exact .error final (Stop.standsAt_fault fault _)
    | error error => exact .error final (Stop.standsAt_error (TokenStream.position_of_stop? stopped))

theorem onlyReads_specification : OnlyReads specification := by
  intro session
  have placed := TokenStream.readFrom_of_mem_lines session.input
  rw [specification_eq]
  cases run : sequence ((TokenStream.of session.input).lines.map Line.read) session with
  | ok rules last => exact .ok ((sequence_eq_ok_iff.1 run).readsOn (.refl _) placed)
  | error stop last =>
    obtain ⟨before, line, after, rules, middle, final, cut, -, refused, rfl⟩ := sequence_eq_error_iff.1 run
    obtain ⟨reads, stands⟩ := (placed line (by rw [cut]; simp)).of_statement_error refused
    exact .error reads stands

end Step

/-- To look for a token is an operation, if the scanner gets at the text by reading alone. -/
theorem Operation.lexToken {scanner : Scanner α} (reads : ReadsOnly scanner.scan) :
    Operation (Step.lexToken scanner) :=
  .lex reads (Step.lexesBy_lexToken scanner)

theorem Operation.onlyReads {step : Step α} (operation : Operation step) : Step.OnlyReads step := by
  cases operation with
  | readChar => exact Step.onlyReads_readChar
  | readByte => exact Step.onlyReads_readByte
  | dropPending => exact fun session => .ok (.dropPending session.input)
  | inspect view => exact fun session => .ok (.refl session.input)
  | getStartCode | setStartCode | errorHere | defineSet | defineRegex =>
    exact fun session => .ok (.refl session.input)
  | fail message => exact Step.onlyReads_fail message
  | lexError message => exact Step.onlyReads_lexError message
  | warnIfNullable regex position => exact Step.onlyReads_warnIfNullable regex position
  | lookupSet position name => exact Step.onlyReads_lookupSet position name
  | lookupRegex name => exact Step.onlyReads_lookupRegex name
  | lex reads lexes => exact Step.onlyReads_lex reads lexes
  | tokens => exact Step.onlyReads_tokens
  | specification => exact Step.onlyReads_specification

/-! ## Programs -/

/-- The cursor is one of the given ones or read on from there. -/
def Cursor.StemsFrom (known : List Cursor) (cursor : Cursor) : Prop := ∃ origin ∈ known, origin.ReadsOn cursor

/-- The computations on a session that know certain cursors of it, with the cursors that their values hand out.
    They are made of operations, may ask for the cursor of the session at any time, and may put back a cursor
    that stems from those that they know. They may stop with whatever they make up, and go on from what an
    operation has stopped with. -/
inductive Program : List Cursor → {α : Type} → (α → List Cursor) → Step α → Prop where
  | operation {known : List Cursor} {α : Type} {step : Step α} (operation : Operation step) :
      Program known (fun _ => []) step
  | getInput {known : List Cursor} : Program known (fun input => [input]) Step.getInput
  | setInput {known : List Cursor} {input : Cursor} (obtained : input.StemsFrom known) :
      Program known (fun _ => []) (Step.setInput input)
  | pure {known : List Cursor} {α : Type} {hands : α → List Cursor} {value : α}
      (obtained : ∀ cursor ∈ hands value, cursor.StemsFrom known) : Program known hands (pure value)
  | throw {known : List Cursor} {α : Type} {hands : α → List Cursor} (stop : Stop) :
      Program known hands (throw stop)
  | bind {known : List Cursor} {α β : Type} {hands : α → List Cursor} {later : β → List Cursor}
      {step : Step α} {next : α → Step β} (first : Program known hands step)
      (rest : ∀ value, Program (hands value ++ known) later (next value)) : Program known later (step >>= next)
  | tryCatch {known : List Cursor} {α : Type} {hands : α → List Cursor} {step : Step α}
      {handler : Stop → Step α} (body : Program known hands step)
      (handles : ∀ stop, Program known hands (handler stop)) : Program known hands (tryCatch step handler)

/-- A run leaves a cursor that is read on from another one, and so are the cursors that its value hands out. -/
inductive Keeps (start : Cursor) (hands : α → List Cursor) : EStateM.Result Stop Session α → Prop where
  | ok {value : α} {last : Session} (reads : start.ReadsOn last.input)
      (obtained : ∀ cursor ∈ hands value, start.ReadsOn cursor) : Keeps start hands (.ok value last)
  | error {stop : Stop} {last : Session} (reads : start.ReadsOn last.input) :
      Keeps start hands (.error stop last)

theorem Step.tryCatch_eq (step : Step α) (handler : Stop → Step α) (session : Session) :
    (tryCatch step handler : Step α) session =
      match step session with
      | .ok value last => .ok value last
      | .error stop middle => handler stop middle := by
  change EStateM.tryCatch step handler session = _
  unfold EStateM.tryCatch
  cases step session <;> rfl

/-- Looks for the next token and puts the cursor back. -/
def Step.peekToken : Step (Lexeme Token) := do
  let input ← getInput
  let lexeme ← lexToken Token.scanner
  setInput input
  return lexeme

namespace Program

variable {known : List Cursor} {hands : α → List Cursor} {step : Step α} {start : Cursor} {session : Session}

theorem map {later : β → List Cursor} (program : Program known hands step) (f : α → β)
    (obtained : ∀ value, ∀ cursor ∈ later (f value), cursor.StemsFrom (hands value ++ known)) :
    Program known later (f <$> step) := by
  rw [map_eq_pure_bind]
  exact .bind program fun value => .pure (obtained value)

theorem sequence {steps : List (Step α)} (programs : ∀ step ∈ steps, Program known (fun _ => []) step) :
    Program known (fun _ => []) (Step.sequence steps) := by
  induction steps with
  | nil => exact .pure (by simp)
  | cons step steps ih =>
    obtain ⟨first, rest⟩ := List.forall_mem_cons.1 programs
    exact .bind first fun value => .bind (ih rest) fun values => .pure (by simp)

theorem peekToken : Program known (fun _ => []) Step.peekToken :=
  .bind .getInput fun _ => .bind (.operation (.lexToken Token.readsOnly_scanner)) fun _ =>
    .bind (.setInput ⟨_, List.mem_cons_self .., .refl _⟩) fun _ => .pure (by simp)

/-- Where all cursors that a program knows are read on from one, so are those that it leaves and hands out. -/
theorem keeps (program : Program known hands step) (obtained : ∀ cursor ∈ known, start.ReadsOn cursor)
    (reads : start.ReadsOn session.input) : Keeps start hands (step session) := by
  induction program generalizing session with
  | @operation _ _ step operation =>
    have run := operation.onlyReads session
    generalize step session = result at run ⊢
    cases run with
    | ok further => exact .ok (reads.trans further) (by simp)
    | error further _ => exact .error (reads.trans further)
  | getInput => exact .ok reads (List.forall_mem_singleton.2 reads)
  | setInput stems =>
    obtain ⟨origin, member, further⟩ := stems
    exact .ok ((obtained origin member).trans further) (by simp)
  | pure handed =>
    refine .ok reads fun cursor member => ?_
    obtain ⟨origin, member, further⟩ := handed cursor member
    exact (obtained origin member).trans further
  | throw stop => exact .error reads
  | @bind _ _ _ _ _ step _ _ _ ihFirst ihRest =>
    have first := ihFirst obtained reads
    rw [Step.bind_eq]
    generalize step session = result at first ⊢
    cases first with
    | ok middle handed => exact ihRest _ (List.forall_mem_append.2 ⟨handed, obtained⟩) middle
    | error last => exact .error last
  | @tryCatch _ _ _ step _ _ _ ihBody ihHandles =>
    have body := ihBody obtained reads
    rw [Step.tryCatch_eq]
    generalize step session = result at body ⊢
    cases body with
    | ok last handed => exact .ok last handed
    | error middle => exact ihHandles _ obtained middle

end Program

/-! ## What is reached -/

/-- The sessions that programs lead to from the start, with the cursors that have been handed out. -/
inductive Reaches (source : String) (scope : Scope) : List Cursor → Session → Prop where
  | start : Reaches source scope [] (.start source scope)
  | finish {known : List Cursor} {session last : Session} {α : Type} {hands : α → List Cursor}
      {step : Step α} {value : α} (before : Reaches source scope known session)
      (program : Program known hands step) (run : step session = .ok value last) :
      Reaches source scope (hands value ++ known) last
  | stop {known : List Cursor} {session last : Session} {α : Type} {hands : α → List Cursor} {step : Step α}
      {stop : Stop} (before : Reaches source scope known session) (program : Program known hands step)
      (run : step session = .error stop last) : Reaches source scope known last

theorem Reaches.readsOn {source : String} {scope : Scope} {known : List Cursor} {session : Session}
    (reached : Reaches source scope known session) :
    (Cursor.ofString source).ReadsOn session.input ∧
      ∀ cursor ∈ known, (Cursor.ofString source).ReadsOn cursor := by
  induction reached with
  | start => exact ⟨.refl _, by simp⟩
  | finish _ program run ih =>
    have keeps := program.keeps ih.2 ih.1
    rw [run] at keeps
    cases keeps with
    | ok last handed => exact ⟨last, List.forall_mem_append.2 ⟨handed, ih.2⟩⟩
  | stop _ program run ih =>
    have keeps := program.keeps ih.2 ih.1
    rw [run] at keeps
    cases keeps with
    | error last => exact ⟨last, ih.2⟩

/-- The cursor of a session has been read on from the beginning of the text and knows what has been
    consumed. -/
structure Session.Sound (source : String) (consumed : List Char) (session : Session) : Prop where
  read : (Cursor.ofString source).ReadsOn session.input
  cursor : session.input.Consumed source consumed
  /-- Only pending bytes keep a character from being read. -/
  drained : (∃ fault, session.input.nextChar = .error fault) ↔ session.input.pending ≠ []
  inBounds : session.input.WindowInBounds source
  /-- An error that an operation stops with stands behind what has been consumed by then. -/
  raised : ∀ {α : Type} {step : Step α} {error : TextError} {last : Session}, Operation step →
    step session = .error (.error error) last → error.kind = .user ∨ error.kind = .lexical →
    ∃ more, last.input.Consumed source (consumed ++ more) ∧ error.position = some last.input.position
  /-- An error that is made to be told later stands behind what has been consumed when it is made. -/
  made : ∀ {message : String} {error : TextError} {last : Session},
    Step.errorHere message session = .ok error last → error.position = some session.input.position

/-- However a session is worked on, by operations or by programs that fail or come to their end: its cursor
    knows what has been consumed of the text, and errors stand there. -/
theorem exists_sound_of_reaches {source : String} {scope : Scope} {known : List Cursor} {session : Session}
    (small : source.length < 2 ^ 28) (reached : Reaches source scope known session) :
    ∃ consumed, session.Sound source consumed := by
  obtain ⟨reads, -⟩ := reached.readsOn
  obtain ⟨consumed, cursor⟩ := reads.exists_consumed
  refine ⟨consumed, reads, cursor, cursor.exists_nextChar_error_iff small, Cursor.windowInBounds _ _, ?_, ?_⟩
  · intro α step error last operation stopped told
    have run := operation.onlyReads session
    rw [stopped] at run
    cases run with
    | error reads stands =>
      obtain ⟨more, behind⟩ := cursor.readsOn reads
      exact ⟨more, behind, stands error rfl told⟩
  · intro message error last made
    cases made
    rfl

theorem exists_sound_of_reaches_lambda :
    "λ x".length < 2 ^ 28 ∧ Reaches "λ x" ∅ [] ⟨[], ∅, 0, ⟨⟨1, 1, 2⟩, 'λ', [0xBB], [' ', 'x']⟩⟩ ∧
      ∃ consumed, Session.Sound "λ x" consumed ⟨[], ∅, 0, ⟨⟨1, 1, 2⟩, 'λ', [0xBB], [' ', 'x']⟩⟩ :=
  have small : "λ x".length < 2 ^ 28 := by decide +kernel
  have reached : Reaches "λ x" ∅ [] ⟨[], ∅, 0, ⟨⟨1, 1, 2⟩, 'λ', [0xBB], [' ', 'x']⟩⟩ := by
    have program : Program [] (fun _ => [])
        (Step.peekToken >>= fun _ => Step.readByte >>= fun _ => Step.peekToken) :=
      .bind .peekToken fun _ => .bind (.operation .readByte) fun _ => .peekToken
    -- behind the first byte of the character no token can be looked for
    have stops : (match (Step.peekToken >>= fun _ => Step.readByte >>= fun _ => Step.peekToken)
          (Session.start "λ x" ∅) with
        | .ok _ _ => false
        | .error _ last => decide (last = ⟨[], ∅, 0, ⟨⟨1, 1, 2⟩, 'λ', [0xBB], [' ', 'x']⟩⟩)) = true := by
      decide +kernel
    split at stops
    next => cases stops
    next run =>
      rw [← of_decide_eq_true stops]
      exact .stop .start program run
  ⟨small, reached, exists_sound_of_reaches small reached⟩

end LexSpec
