import LexSpec.Proofs.Descent.Lines

/-! # Whole texts by descent

Line by line, the rules so far and those ahead stay the same (`Step.rulesFrom_of_read_ok`), and so the loop over
the text reads the lines one by one (`Descent.specification_eq`). Reading by descent with enough fuel is reading
line by line (`Descent.readWith_eq_mapError`): every call comes to its end, and no text is cut where it cannot be.
-/

namespace LexSpec

variable {input : Cursor}

namespace Cursor

/-- The other lines are those behind the end of the first one. -/
inductive Continues (input : Cursor) : LineEnd → Prop where
  | newline {behind : Cursor} (others : input.linesBehind = (TokenStream.of behind).lines)
      (shorter : behind.bytesLeft < input.bytesLeft) : Continues input (.newline behind)
  | endOfFile {final : Cursor} (others : input.linesBehind = []) (drained : final.pending = [])
      (finished : final.rest = []) : Continues input (.endOfFile final)
  | stopped {stop : Stop} {final : Cursor} : Continues input (.stopped stop final)

theorem continues (input : Cursor) : input.Continues input.line.ending := by
  induction size : input.bytesLeft using Nat.strongRecOn generalizing input with
  | ind size ih =>
    have ahead := input.ahead_next
    generalize next : Token.scanner.next 0 input = result at ahead
    cases ahead with
    | @token found rest begins =>
      have shorter := begins.bytesLeft_lt
      have behind := ih _ (size ▸ shorter) found.behind rfl
      rw [begins.behind] at behind
      dsimp only at behind
      generalize input.line.ending = ending at behind
      cases behind with
      | newline others more => exact .newline (begins.linesBehind ▸ others) (Nat.lt_trans more shorter)
      | endOfFile others drained finished => exact .endOfFile (begins.linesBehind ▸ others) drained finished
      | stopped => exact .stopped
    | newline line others shorter =>
      rw [line]
      exact .newline others shorter
    | endOfFile line others =>
      obtain ⟨gap, middle, -, -, read⟩ := Token.next_eq_ok_iff.1 next
      rw [line]
      cases read with
      | endOfFile drained finished => exact .endOfFile others drained finished
    | stopped line others =>
      rw [line]
      exact .stopped

theorem bytesLeft_le_of_ending (complete : ∀ stop final, input.line.ending ≠ .stopped stop final) :
    input.line.ending.behind.bytesLeft ≤ input.bytesLeft - 1 := by
  have continues := input.continues
  generalize input.line.ending = ending at continues complete
  cases continues with
  | newline others shorter => exact Nat.le_sub_one_of_lt shorter
  | @endOfFile final others drained finished =>
    have nothing : final.bytesLeft = 0 := by rw [bytesLeft, drained, finished]; rfl
    exact nothing ▸ Nat.zero_le _
  | stopped => exact absurd rfl (complete _ _)

end Cursor

/-! ## Line by line -/

section Lines

variable {session last : Session} {rule : Option Rule}

theorem Line.input_of_read {line : Line} (reads : line.read session = .ok rule last) :
    last.input = line.ending.behind ∧ ∀ stop final, line.ending ≠ .stopped stop final := by
  cases stated : line.statement session.scope with
  | error refused =>
    rw [read_eq_of_error stated] at reads
    cases reads
  | ok statement =>
    rw [read_eq_of_statement stated] at reads
    cases reads
    exact ⟨rfl, (statement_eq_ok_iff.1 stated).2⟩

namespace Step

/-- The rules so far and those ahead. -/
def rulesFrom (rules : List Rule) : Step (List Rule) := (rules ++ ·) <$> specification

theorem rulesFrom_eq (rules : List Rule) (session : Session) :
    rulesFrom rules session =
      ((rules ++ ·.reduceOption) <$> sequence ((TokenStream.of session.input).lines.map Line.read)) session := by
  rw [rulesFrom, map_eq, map_eq, specification_eq]
  cases sequence ((TokenStream.of session.input).lines.map Line.read) session <;> rfl

theorem map_sequence_cons_of_ok {α β : Type} {step : Step α} {steps : List (Step α)} {value : α}
    (first : step session = .ok value last) (f : List α → β) :
    (f <$> sequence (step :: steps)) session = ((f <| value :: ·) <$> sequence steps) last := by
  rw [map_eq, map_eq, sequence_cons_of_ok first]
  cases sequence steps last <;> rfl

theorem rulesFrom_of_rest_eq_nil (rules : List Rule) (drained : session.input.pending = [])
    (finished : session.input.rest = []) : rulesFrom rules session = .ok rules session := by
  rw [rulesFrom_eq, TokenStream.lines_of_rest_eq_nil drained finished]
  exact congrArg (EStateM.Result.ok · session) (List.append_nil rules)

theorem rulesFrom_of_read_error {stop : Stop} (rules : List Rule)
    (reads : session.input.line.read session = .error stop last) :
    rulesFrom rules session = .error stop last := by
  rw [rulesFrom_eq, Cursor.lines_eq, List.map_cons, map_eq, sequence_cons_of_error reads]

/-- Where a line is read, the other lines are read behind it. -/
theorem rulesFrom_of_read_ok (rules : List Rule) (reads : session.input.line.read session = .ok rule last) :
    rulesFrom rules session = rulesFrom (rules ++ rule.toList) last := by
  obtain ⟨input, complete⟩ := Line.input_of_read reads
  have continues := session.input.continues
  have one (others : List (Option Rule)) :
      rules ++ (rule :: others).reduceOption = rules ++ rule.toList ++ others.reduceOption := by
    cases rule <;> simp
  rw [rulesFrom_eq rules, Cursor.lines_eq, List.map_cons, map_sequence_cons_of_ok reads, funext one]
  generalize session.input.line.ending = ending at continues input complete
  -- the other lines are those of the text behind the newline, if there is one
  cases continues with
  | newline others shorter => rw [rulesFrom_eq _ last, input, others]; rfl
  | endOfFile others drained finished =>
    rw [rulesFrom_of_rest_eq_nil _ (by rw [input]; exact drained) (by rw [input]; exact finished), others]
    exact congrArg (EStateM.Result.ok · last) (List.append_nil _)
  | stopped => exact absurd rfl (complete _ _)

end Step

end Lines

namespace Descent

variable {α : Type} {session last : Session} {fuel : Nat}

theorem ofStep_run_of_ok {step : Step α} {value : α} (given : step session = .ok value last) :
    (ofStep step).run session = .ok value last := by
  simp only [EStateM.run, ofStep, EStateM.adaptExcept, given]

theorem ofStep_run_of_error {step : Step α} {stop : Stop} (given : step session = .error stop last) :
    (ofStep step).run session = .error (.stop stop) last := by
  simp only [EStateM.run, ofStep, EStateM.adaptExcept, given]

theorem ofStep_run_congr {step other : Step α} (same : step session = other last) :
    (ofStep step).run session = (ofStep other).run last := by
  simp only [EStateM.run, ofStep, EStateM.adaptExcept, same]

/-- The loop reads on as the lines ahead are read, one after the other. -/
theorem specification_eq {rules : List Rule} (enough : 4 * session.input.bytesLeft + 2 ≤ fuel) :
    (specification fuel rules).run session = (ofStep (.rulesFrom rules)).run session := by
  induction fuel generalizing session rules with
  | zero => omega
  | succ fuel ih =>
    have room : session.input.bytesLeft < fuel := by omega
    have here : (next fuel).run session = _ := next_eq room session
    have ahead := session.input.ahead_next
    rw [specification]
    generalize Token.scanner.next 0 session.input = result at ahead here
    cases ahead with
    | @token found rest begins =>
      have whole : (line fuel found.position found.text found.token).run _ =
          (ofStep session.input.line.read).run session := line_eq begins (by omega)
      rw [bind_eq_of_ok here]
      cases reads : session.input.line.read session with
      | error stop last =>
        rw [bind_eq_of_error (whole.trans (ofStep_run_of_error reads)),
          ofStep_run_of_error (Step.rulesFrom_of_read_error rules reads)]
      | ok rule last =>
        -- the line has been read, so less fuel is needed behind it
        obtain ⟨input, complete⟩ := Line.input_of_read reads
        have shorter := Cursor.bytesLeft_le_of_ending complete
        rw [← input] at shorter
        have behind := begins.bytesLeft_lt
        rw [bind_eq_of_ok (whole.trans (ofStep_run_of_ok reads)), ih (by omega)]
        exact (ofStep_run_congr (Step.rulesFrom_of_read_ok rules reads)).symm
    | @newline position behind shown others shorter =>
      have reads : session.input.line.read session = .ok none { session with input := behind } := by
        rw [shown]
        rfl
      have more : 4 * behind.bytesLeft + 2 ≤ fuel := by omega
      rw [bind_eq_of_ok here]
      change (specification fuel (rules ++ [])).run _ = _
      rw [@ih { session with input := behind } _ more]
      exact (ofStep_run_congr (Step.rulesFrom_of_read_ok rules reads)).symm
    | @endOfFile position final shown others =>
      have reads : session.input.line.read session = .ok none { session with input := final } := by
        rw [shown]
        rfl
      have continues := session.input.continues
      rw [shown] at continues
      cases continues with
      | endOfFile others drained finished =>
        have nothing := @Step.rulesFrom_of_rest_eq_nil { session with input := final } rules drained finished
        have same := Step.rulesFrom_of_read_ok rules reads
        rw [Option.toList_none, List.append_nil] at same
        rw [bind_eq_of_ok here, ofStep_run_of_ok (same.trans nothing)]
        rfl
    | @stopped stop final shown others =>
      have reads : session.input.line.read session = .error stop { session with input := final } := by
        rw [shown]
        rfl
      rw [bind_eq_of_error here, ofStep_run_of_error (Step.rulesFrom_of_read_error rules reads)]

/-- Reading by descent with enough fuel is reading line by line. -/
theorem readWith_eq_mapError {source : String} {scope : Scope} (enough : 4 * source.utf8ByteSize + 2 ≤ fuel) :
    readWith fuel source scope = (Specification.readWith source scope).mapError .stop := by
  rw [← Cursor.bytesLeft_ofString] at enough
  have whole : specification fuel [] (.start source scope) = (ofStep (.rulesFrom [])).run (.start source scope) :=
    specification_eq enough
  have run : Step.specification.run (.start source scope) = Step.specification (.start source scope) := rfl
  rw [readWith, whole, Specification.readWith, Step.runOn, run]
  simp only [EStateM.run, ofStep, EStateM.adaptExcept, Step.rulesFrom, Functor.map, EStateM.map]
  cases Step.specification (.start source scope) <;> rfl

end Descent

end LexSpec
