import LexSpec.Proofs.Text.Escape
import LexSpec.Proofs.Token.Cursors

/-! # The search for a token, turn by turn

`Step.lexToken` skips until something else is found. Here this is a loop on sessions: a `Session.turn` asks the
scanner once, with the cursor and the start code that the session has by then, and `Session.search` takes one turn
after the other and keeps the record of what it asked.

A scanner that finds something only by reading makes every turn but the last shorten the text that is left
(`ReadsSome.bytesLeft_lt`). So the search comes to an end, and this is where `Step.lexToken` ends as well:
`comesTo_lexToken`. `Session.Outcome` lists the ways to end.
-/

namespace LexSpec

variable {α : Type}

/-! ## Scanners that read -/

/-- One character or one byte is read. A byte may leave the rest of the text as it is. -/
inductive Cursor.ReadsOnce (input next : Cursor) : Prop where
  | char {c : Char} (read : input.nextChar = .ok (some (c, next)))
  | byte {byte : UInt8} (read : input.nextByte = .ok (some (byte, next)))

/-- What a scan finds lies behind one read or more. -/
def ReadsSome (scan : Cursor → Nat → Except Fault (Scan α)) : Prop :=
  ∀ {input next code found}, scan input code = .ok found → found.next? = some next →
    Relation.TransGen Cursor.ReadsOnce input next

theorem Cursor.ReadsOnce.bytesLeft_lt {input next : Cursor} (reads : input.ReadsOnce next) :
    next.bytesLeft < input.bytesLeft := by
  cases reads with
  | char read => exact bytesLeft_lt_of_nextChar read
  | byte read =>
    have one := bytesLeft_succ_of_nextByte read
    omega

section Scan

variable {scan : Cursor → Nat → Except Fault (Scan α)}

theorem ReadsSome.bytesLeft_lt {input next : Cursor} {code : Nat} {found : Scan α} (reads : ReadsSome scan)
    (scanned : scan input code = .ok found) (ends : found.next? = some next) :
    next.bytesLeft < input.bytesLeft := by
  have run := reads scanned ends
  clear ends
  induction run with
  | single read => exact read.bytesLeft_lt
  | tail _ read ih => exact read.bytesLeft_lt.trans ih

/-- Such a scan is never stopped for standing still. -/
theorem ReadsSome.scan_ofFunction (reads : ReadsSome scan) : (Scanner.ofFunction scan).scan = scan := by
  funext input code
  unfold Scanner.ofFunction
  dsimp only
  cases scanned : scan input code with
  | error fault => rfl
  | ok found =>
    refine if_pos ?_
    cases ends : found.next? with
    | none => rfl
    | some next => exact decide_eq_true (reads.bytesLeft_lt scanned ends)

/-! ## The loop -/

/-- What the search does after the scanner was asked. -/
inductive Turn (α : Type) where
  | done (result : EStateM.Result Stop Session (Lexeme α))
  | again (session : Session)

namespace Session

/-- Asks the scanner once. -/
def turn (scan : Cursor → Nat → Except Fault (Scan α)) (session : Session) : Turn α :=
  match scan session.input session.startCode with
  | .error fault => .done (.error (.fault fault) session)
  | .ok .endOfFile => .done (.ok (.endOfFile session.input.position) session)
  | .ok .error => .done (Step.lexError "lexical error" session)
  | .ok (.skip next) => .again { session with input := next }
  | .ok (.token next length action) =>
    .done (.ok (.token session.input.position (String.ofList (session.input.rest.take length)) action)
      { session with input := next })

/-- Asks the scanner until the search is done, but not more often than so many times. Gives what the scanner was
    asked and how the search ended, if it did. -/
def search (scan : Cursor → Nat → Except Fault (Scan α)) :
    Nat → Session → List (Cursor × Nat) × Option (EStateM.Result Stop Session (Lexeme α))
  | 0, _ => ([], none)
  | turns + 1, session =>
    let asked := (session.input, session.startCode)
    match session.turn scan with
    | .done result => ([asked], some result)
    | .again next =>
      let (more, result) := next.search scan turns
      (asked :: more, result)

/-- The search ends at a cursor at which nothing is skipped. Definitions, start code and warnings are those of the
    session before it. -/
inductive Outcome (scan : Cursor → Nat → Except Fault (Scan α)) (session : Session) (stop : Cursor) :
    EStateM.Result Stop Session (Lexeme α) → Prop where
  | endOfFile (found : scan stop session.startCode = .ok .endOfFile) :
      Outcome scan session stop (.ok (.endOfFile stop.position) { session with input := stop })
  /-- The text of a token is as long as the scanner says, or all that is left. -/
  | token {next : Cursor} {length : Nat} {action : α}
      (found : scan stop session.startCode = .ok (.token next length action)) :
      Outcome scan session stop
        (.ok (.token stop.position (String.ofList (stop.rest.take (min length stop.rest.length))) action)
          { session with input := next })
  /-- With bytes pending, the character that they belong to is in the way. -/
  | errorInside {name : String} (found : scan stop session.startCode = .ok .error) (inside : stop.pending ≠ [])
      (quotes : Quotes name stop.last) :
      Outcome scan session stop (.error
        (.error ⟨.lexical, some stop.position, "lexical error at " ++ name⟩) { session with input := stop })
  | errorBefore {c : Char} {rest : List Char} {name : String} (found : scan stop session.startCode = .ok .error)
      (drained : stop.pending = []) (ahead : stop.rest = c :: rest) (quotes : Quotes name c) :
      Outcome scan session stop (.error
        (.error ⟨.lexical, some stop.position, "lexical error at " ++ name⟩) { session with input := stop })
  | errorAtEnd (found : scan stop session.startCode = .ok .error) (drained : stop.pending = [])
      (nothing : stop.rest = []) :
      Outcome scan session stop (.error
        (.error ⟨.lexical, some stop.position, "lexical error at end of file"⟩) { session with input := stop })
  | fault {fault : Fault} (found : scan stop session.startCode = .error fault) :
      Outcome scan session stop (.error (.fault fault) { session with input := stop })

/-- A search that is over leaves the session as it was, but for the cursor. -/
def conclude (session : Session) : Except Stop (Lexeme α) × Cursor → EStateM.Result Stop Session (Lexeme α)
  | (.ok lexeme, input) => .ok lexeme { session with input }
  | (.error stop, input) => .error stop { session with input }

theorem lexToken_eq_conclude (scanner : Scanner α) (session : Session) :
    Step.lexToken scanner session = session.conclude (scanner.next session.startCode session.input) := by
  unfold Step.lexToken
  rcases scanner.next session.startCode session.input with ⟨lexeme | stop, input⟩ <;> rfl

variable {session : Session}

theorem outcome_of_error {stop : Cursor} (found : scan stop session.startCode = .ok .error) :
    Outcome scan session stop (session.conclude (.error (.error (stop.lexicalError "lexical error")), stop)) := by
  unfold Cursor.lexicalError Cursor.obstacle?
  cases pending : stop.pending with
  | cons byte others =>
    have inside : stop.pending ≠ [] := by simp [pending]
    exact .errorInside found inside (quotes_iff.2 rfl)
  | nil =>
    cases ahead : stop.rest with
    | nil => exact .errorAtEnd found pending ahead
    | cons c rest => exact .errorBefore found pending ahead (quotes_iff.2 rfl)

theorem outcome_of_token {stop next : Cursor} {length : Nat} {action : α}
    (found : scan stop session.startCode = .ok (.token next length action)) :
    Outcome scan session stop (session.conclude
      (.ok (.token stop.position (String.ofList (stop.rest.take length)) action), next)) := by
  rw [List.take_eq_take_min]
  exact .token found

/-! ## The run -/

/-- What the search from a cursor on comes to: it skips to a cursor at which nothing is skipped, and ends there. It
    takes a turn at each cursor on the way, and no more turns than there are bytes. -/
def ComesTo (scan : Cursor → Nat → Except Fault (Scan α)) (session : Session) (input : Cursor)
    (result : EStateM.Result Stop Session (Lexeme α)) : Prop :=
  ∃ skips stop,
    (input :: skips).IsChain (fun here next => scan here session.startCode = .ok (.skip next)) ∧
    (input :: skips).getLast? = some stop ∧
    session.Outcome scan stop result ∧
    ∀ turns > input.bytesLeft, search scan turns { session with input } =
      ((input :: skips).map (·, session.startCode), some result)

theorem comesTo_of_done {input : Cursor} {result : EStateM.Result Stop Session (Lexeme α)}
    (outcome : session.Outcome scan input result) (ended : turn scan { session with input } = .done result) :
    ComesTo scan session input result := by
  refine ⟨[], input, .singleton input, rfl, outcome, ?_⟩
  intro turns enough
  cases turns with
  | zero => exact absurd enough (Nat.not_lt_zero _)
  | succ turns =>
    rw [search, ended]
    rfl

theorem comesTo_of_skip {input next : Cursor} {result : EStateM.Result Stop Session (Lexeme α)}
    (reads : ReadsSome scan) (found : scan input session.startCode = .ok (.skip next))
    (rest : ComesTo scan session next result) : ComesTo scan session input result := by
  obtain ⟨skips, stop, chain, last, outcome, run⟩ := rest
  refine ⟨next :: skips, stop, .cons_cons found chain, last, outcome, ?_⟩
  intro turns enough
  cases turns with
  | zero => exact absurd enough (Nat.not_lt_zero _)
  | succ turns =>
    -- something has been read, so behind the skip one turn fewer is enough
    have shorter := reads.bytesLeft_lt found rfl
    have goesOn : turn scan { session with input } = .again { session with input := next } := by
      simp only [turn, found]
    rw [search, goesOn]
    dsimp only
    rw [run turns (by omega)]
    rfl

/-- Where a scan for the next lexeme leads, the turns lead as well. -/
theorem comesTo_of_lexes (reads : ReadsSome scan) {input final : Cursor} {found : Except Stop (Lexeme α)}
    (lexes : Lexes scan session.startCode input found final) :
    ComesTo scan session input (session.conclude (found, final)) := by
  induction lexes with
  | fault found => exact comesTo_of_done (.fault found) (by simp only [turn, found, conclude])
  | endOfFile found => exact comesTo_of_done (.endOfFile found) (by simp only [turn, found, conclude])
  | error found =>
    refine comesTo_of_done (outcome_of_error found) ?_
    simp only [turn, found]
    rfl
  | skip found rest ih => exact comesTo_of_skip reads found ih
  | token found => exact comesTo_of_done (outcome_of_token found) (by simp only [turn, found, conclude])

end Session

/-- With a scanner that finds something only by reading, the search for the next lexeme comes to an end. -/
theorem comesTo_lexToken (reads : ReadsSome scan) (session : Session) :
    session.ComesTo scan session.input (Step.lexToken (.ofFunction scan) session) := by
  have lexes := (Scanner.ofFunction scan).lexes_next session.startCode session.input
  rw [reads.scan_ofFunction] at lexes
  rw [Session.lexToken_eq_conclude]
  exact Session.comesTo_of_lexes reads lexes

end Scan

theorem Cursor.Reads.readsOnce {input stop : Cursor} {text : List Char} (reads : input.Reads text stop)
    (nonempty : text ≠ []) : Relation.TransGen Cursor.ReadsOnce input stop := by
  induction reads with
  | nil => exact absurd rfl nonempty
  | @cons input next stop c text first rest ih =>
    have once : input.ReadsOnce next := .char first
    cases rest with
    | nil => exact .single once
    | cons second others => exact .head once (ih (List.cons_ne_nil _ _))

/-- The scanner of the specification language finds something only by reading. -/
theorem Token.readsSome_scanner : ReadsSome Token.scanner.scan := by
  intro input next code found scanned ends
  rcases finds_of_scan scanned with rfl | finds
  · cases ends
  · cases finds with
    | endOfFile => cases ends
    | blank _ reads | comment _ reads _ =>
      cases ends
      exact reads.readsOnce (List.cons_ne_nil _ _)
    | token spells reads _ =>
      cases ends
      exact reads.readsOnce spells.ne_nil

/-- A scanner of bytes: each byte of ASCII is a token, and the first byte of any other character is skipped. -/
def scanByte (input : Cursor) (_ : Nat) : Except Fault (Scan UInt8) :=
  match input.nextByte with
  | .error fault => .error fault
  | .ok none => .ok .endOfFile
  | .ok (some (byte, next)) =>
    .ok (if byte < 0x80 then .token next 1 byte else if byte < 0xc0 then .error else .skip next)

theorem readsSome_scanByte : ReadsSome scanByte := by
  intro input next code found scanned ends
  unfold scanByte at scanned
  split at scanned
  · cases scanned
  · cases scanned
    cases ends
  next byte behind read =>
    cases scanned
    split at ends
    next token =>
      cases ends
      exact .single (.byte read)
    next =>
      split at ends
      next error => cases ends
      next skip =>
        cases ends
        exact .single (.byte read)

/-- The first byte is skipped and the second one is in the way, so the search ends in the middle of a character. -/
theorem comesTo_lexToken_lambda :
    ReadsSome scanByte ∧
      (Session.start "λ" ∅).ComesTo scanByte (.ofString "λ") (Step.lexToken (.ofFunction scanByte) (.start "λ" ∅)) ∧
      (Session.search scanByte 3 (.start "λ" ∅)).1 =
        [(⟨⟨0, 1, 1⟩, '\n', [], ['λ']⟩, 0), (⟨⟨1, 1, 2⟩, 'λ', [0xbb], []⟩, 0)] ∧
      Step.lexToken (.ofFunction scanByte) (.start "λ" ∅) =
        .error (.error ⟨.lexical, some ⟨1, 1, 2⟩, "lexical error at 'λ'"⟩)
          { Session.start "λ" ∅ with input := ⟨⟨1, 1, 2⟩, 'λ', [0xbb], []⟩ } := by
  have comesTo := @comesTo_lexToken _ scanByte readsSome_scanByte (.start "λ" ∅)
  have ⟨_, _, _, _, _, run⟩ := comesTo
  have searched := congrArg Prod.snd (run 3 (by decide))
  have named : "lexical error at " ++ quoted 'λ' = "lexical error at 'λ'" := by decide +kernel
  refine ⟨readsSome_scanByte, comesTo, by decide +kernel, Option.some.inj (searched.symm.trans ?_)⟩
  rw [← named]
  rfl

end LexSpec
