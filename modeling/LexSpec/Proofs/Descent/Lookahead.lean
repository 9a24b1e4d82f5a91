import LexSpec.Proofs.Descent.Reader
import LexSpec.Proofs.Line.Whole

/-! # What is ahead

A reading by descent sees one token at a time. With fuel for the bytes ahead it finds the lexemes that the
scanner finds, and what it cuts out of the text on the way is in bounds (`Descent.next_eq`).

`Cursor.line` is the line that the tokens ahead make up. The lemmas here tell by it what the next token is
(`bind_next_of_begins`), what is seen of it without reading it (`cases_of_peekToken`) and what comes of the end
of the line where a token is needed (`bind_next_of_nil`).
-/

namespace LexSpec

namespace Descent

variable {α β : Type} {session : Session}

/-! ## Scanning -/

theorem ofFault_ok (value : α) : ofFault (.ok value) = pure value := rfl

theorem ofFault_bind (x : Except Fault α) (f : α → Except Fault β) :
    ofFault (x >>= f) = ofFault x >>= fun value => ofFault (f value) := by
  cases x <;> rfl

theorem cutOut_some (part : α) : cutOut (some part) = pure part := rfl

theorem scanStartCode_eq (input : Cursor) : scanStartCode input = ofFault (Token.scanStartCode input) := by
  rw [scanStartCode, Token.scanStartCode, ofFault_bind]
  cases taken : input.takeWhile Char.isDigit with
  | error fault => rfl
  | ok found =>
    obtain ⟨digits, behind⟩ := found
    obtain ⟨reads, chars, -⟩ := Cursor.takeWhile_eq_ok_iff.1 taken
    have cut := cutAtByte?_append_of_ascii (fun c member => utf8Size_of_isDigit (chars c member)) behind.rest
    rw [← reads.rest_eq] at cut
    rw [ofFault_ok, pure_bind, pure_bind]
    dsimp only
    rw [cut, cutOut_some, pure_bind]
    dsimp only
    split
    · rfl
    · rw [ofFault_bind]
      congr 1
      funext result
      cases result with
      | none => rfl
      | some result =>
        dsimp only
        split <;> rfl

theorem scan_eq (input : Cursor) : scan input = ofFault (Token.scan input) := by
  rw [scan, Token.scan, ofFault_bind]
  congr 1
  funext result
  match result with
  | none => rfl
  | some (first, behind) =>
    dsimp only
    split
    next bracket =>
      subst bracket
      rw [scanStartCode_eq]
      rfl
    next => rfl

theorem bind_eq_of_ok {part : Descent α} {rest : α → Descent β} {value : α} {middle : Session}
    (first : part.run session = .ok value middle) : (part >>= rest).run session = (rest value).run middle := by
  simp only [EStateM.run, bind, EStateM.bind] at first ⊢
  rw [first]

theorem bind_eq_of_error {part : Descent α} {rest : α → Descent β} {halt : Halt} {last : Session}
    (first : part.run session = .error halt last) : (part >>= rest).run session = .error halt last := by
  simp only [EStateM.run, bind, EStateM.bind] at first ⊢
  rw [first]

/-- With fuel for all bytes that are left, skipping comes to an end, and the next lexeme is the one that the
    scanner finds. -/
theorem next_eq {input : Cursor} {fuel : Nat} (enough : input.bytesLeft < fuel) (session : Session) :
    (next fuel).run { session with input } =
      match Token.scanner.next 0 input with
      | (.ok lexeme, next) => .ok lexeme { session with input := next }
      | (.error stop, final) => .error (.stop stop) { session with input := final } := by
  induction fuel generalizing input with
  | zero => omega
  | succ fuel ih =>
    have here : (ofStep .getInput).run { session with input } = .ok input { session with input } := rfl
    rw [next, bind_eq_of_ok here, Token.next_eq, scan_eq]
    cases scanned : Token.scan input with
    | error fault => rfl
    | ok found =>
      rw [ofFault_ok, pure_bind]
      cases found with
      | endOfFile => rfl
      | error => rfl
      | skip behind =>
        -- what is skipped has been read, so less fuel is needed behind it
        have shorter : behind.bytesLeft < input.bytesLeft :=
          @Scanner.bytesLeft_lt Token Token.scanner _ _ 0 _ scanned rfl
        have more : behind.bytesLeft < fuel := by omega
        exact ih more
      | token behind length token =>
        dsimp only
        rw [takeChars?_eq]
        rfl

end Descent

/-! ## The line at a cursor -/

/-- The token that is seen first: that of a newline, too, and none at the end of the text. -/
def Line.lookahead (line : Line) : Option Token :=
  match line.tokens, line.ending with
  | found :: _, _ => some found.token
  | [], .newline _ => some .newline
  | [], _ => none

namespace Cursor

/-- The first of the lines from a cursor on. -/
def line (input : Cursor) : Line := (Line.split (TokenStream.of input).lastEnd (TokenStream.of input).tokens).1

/-- The lines behind the first one. -/
def linesBehind (input : Cursor) : List Line :=
  (Line.split (TokenStream.of input).lastEnd (TokenStream.of input).tokens).2

theorem lines_eq (input : Cursor) : (TokenStream.of input).lines = input.line :: input.linesBehind := rfl

/-- The line at a cursor begins with a token, and behind it the line goes on. -/
structure Begins (input : Cursor) (found : PlacedToken) (rest : List PlacedToken) : Prop where
  tokens : input.line.tokens = found :: rest
  next : Token.scanner.next 0 input = (.ok (.token found.position found.text found.token), found.behind)
  inside : found.token ≠ .newline
  behind : found.behind.line = ⟨rest, input.line.ending⟩
  linesBehind : found.behind.linesBehind = input.linesBehind

/-- What the scanner finds at a cursor, told by the line there. -/
inductive Ahead (input : Cursor) : Except Stop (Lexeme Token) × Cursor → Prop where
  | token {found : PlacedToken} {rest : List PlacedToken} (begins : input.Begins found rest) :
      Ahead input (.ok (.token found.position found.text found.token), found.behind)
  | newline {position : Position} {behind : Cursor} (line : input.line = ⟨[], .newline behind⟩)
      (others : input.linesBehind = (TokenStream.of behind).lines)
      (shorter : behind.bytesLeft < input.bytesLeft) :
      Ahead input (.ok (.token position "\n" .newline), behind)
  | endOfFile {position : Position} {final : Cursor} (line : input.line = ⟨[], .endOfFile final⟩)
      (others : input.linesBehind = []) : Ahead input (.ok (.endOfFile position), final)
  | stopped {stop : Stop} {final : Cursor} (line : input.line = ⟨[], .stopped stop final⟩)
      (others : input.linesBehind = []) : Ahead input (.error stop, final)

theorem ahead_next (input : Cursor) : input.Ahead (Token.scanner.next 0 input) := by
  rcases found : Token.scanner.next 0 input with ⟨result, behind⟩
  match result, found with
  | .error stop, found =>
    have stream : TokenStream.of input = ⟨[], some stop, behind⟩ := by rw [TokenStream.of_eq, found]
    exact .stopped (by rw [line, stream]; rfl) (by rw [linesBehind, stream]; rfl)
  | .ok (.endOfFile position), found =>
    have stream : TokenStream.of input = ⟨[], none, behind⟩ := by rw [TokenStream.of_eq, found]
    exact .endOfFile (by rw [line, stream]; rfl) (by rw [linesBehind, stream]; rfl)
  | .ok (.token position text token), found =>
    have stream := TokenStream.of_token found
    have shorter := Scanner.bytesLeft_lt_of_next found
    by_cases newline : token = .newline
    · subst newline
      obtain ⟨-, -, -, spells⟩ := Token.reads_of_next found
      obtain rfl : text = "\n" := String.toList_inj.1 (spells rfl)
      exact .newline (by rw [line, stream]; rfl) (by rw [linesBehind, stream]; rfl) shorter
    · have split : Line.split (TokenStream.of input).lastEnd (TokenStream.of input).tokens =
          (behind.line.cons ⟨token, text, position, behind⟩, behind.linesBehind) := by
        rw [stream, Line.split]
        exact if_neg newline
      have whole : input.line = behind.line.cons ⟨token, text, position, behind⟩ := by rw [line, split]
      refine @Ahead.token input ⟨token, text, position, behind⟩ behind.line.tokens
        ⟨by rw [whole]; rfl, found, newline, by rw [whole]; rfl, by rw [linesBehind.eq_1 input, split]⟩

variable {input : Cursor} {found : PlacedToken} {rest : List PlacedToken}

theorem begins_of_cons (tokens : input.line.tokens = found :: rest) : input.Begins found rest := by
  generalize next : Token.scanner.next 0 input = result
  have ahead := input.ahead_next
  rw [next] at ahead
  cases ahead with
  | token begins =>
    obtain ⟨rfl, rfl⟩ := List.cons.inj (begins.tokens.symm.trans tokens)
    exact begins
  | newline line | endOfFile line | stopped line =>
    rw [line] at tokens
    cases tokens

namespace Begins

theorem bytesLeft_lt (begins : input.Begins found rest) : found.behind.bytesLeft < input.bytesLeft :=
  Scanner.bytesLeft_lt_of_next begins.next

theorem spells (begins : input.Begins found rest) : Spells found.token found.text.toList := by
  obtain ⟨gap, middle, -, -, read⟩ := Token.next_eq_ok_iff.1 begins.next
  generalize shown : Lexeme.token found.position found.text found.token = lexeme at read
  cases read with
  | endOfFile => cases shown
  | token spells _ _ =>
    obtain ⟨-, text, token⟩ := Lexeme.token.inj shown
    rw [token, text, String.toList_ofList]
    exact spells

theorem lookahead_eq (begins : input.Begins found rest) : input.line.lookahead = some found.token := by
  rw [Line.lookahead, begins.tokens]

end Begins

theorem exists_begins_of_lookahead {token : Token} (shown : input.line.lookahead = some token)
    (inside : token ≠ .newline) : ∃ found rest, input.Begins found rest ∧ found.token = token := by
  cases tokens : input.line.tokens with
  | nil =>
    cases ending : input.line.ending with
    | newline =>
      simp only [Line.lookahead, tokens, ending, Option.some.injEq] at shown
      exact absurd shown.symm inside
    | endOfFile | stopped => simp [Line.lookahead, tokens, ending] at shown
  | cons found rest =>
    have begins := begins_of_cons tokens
    exact ⟨found, rest, begins, Option.some.inj (begins.lookahead_eq.symm.trans shown)⟩

theorem exists_begins (goesOn : input.line.lookahead ∉ [none, some .newline]) :
    ∃ found rest, input.Begins found rest := by
  cases shown : input.line.lookahead with
  | none => simp [shown] at goesOn
  | some token =>
    obtain ⟨found, rest, begins, -⟩ := exists_begins_of_lookahead shown (by simpa [shown] using goesOn)
    exact ⟨found, rest, begins⟩

theorem tokens_eq_nil_of_lookahead (shown : input.line.lookahead ∈ [none, some .newline]) :
    input.line.tokens = [] := by
  cases tokens : input.line.tokens with
  | nil => rfl
  | cons found rest =>
    have begins := begins_of_cons tokens
    rw [begins.lookahead_eq] at shown
    exact absurd begins.inside (by simpa using shown)

end Cursor

namespace Descent

variable {α : Type} {input : Cursor} {fuel : Nat} {found : PlacedToken} {rest : List PlacedToken}
  (enough : input.bytesLeft < fuel) (session : Session)

include enough

theorem bind_next_of_begins (begins : input.Begins found rest) (more : Lexeme Token → Descent α) :
    (next fuel >>= more).run { session with input } =
      (more (.token found.position found.text found.token)).run { session with input := found.behind } := by
  have here := next_eq enough session
  rw [begins.next] at here
  exact bind_eq_of_ok here

/-- Where a line is at its end and another token is needed, it ends too early. -/
theorem bind_next_of_nil (finished : input.line.tokens = []) {more : Lexeme Token → Descent α}
    (needed : ∀ lexeme, lexeme.token? ∈ [none, some .newline] → more lexeme = unexpected lexeme) :
    (next fuel >>= more).run { session with input } =
      .error (.stop (Line.earlyEnd input.line.ending)) { session with input := input.line.ending.behind } := by
  have here := next_eq enough session
  have ahead := input.ahead_next
  generalize Token.scanner.next 0 input = result at ahead here
  cases ahead with
  | token begins => cases begins.tokens.symm.trans finished
  | newline line | endOfFile line =>
    rw [bind_eq_of_ok here, needed _ (by simp [Lexeme.token?]), line]
    rfl
  | stopped line =>
    rw [bind_eq_of_error here, line]
    rfl

theorem peek_eq :
    (peek fuel).run { session with input } =
      match Token.scanner.next 0 input with
      | (.ok lexeme, _) => .ok lexeme { session with input }
      | (.error stop, final) => .error (.stop stop) { session with input := final } := by
  have here := next_eq enough session
  change (next fuel >>= fun lexeme => _).run _ = _
  rcases found : Token.scanner.next 0 input with ⟨result, behind⟩
  rw [found] at here
  cases result with
  | error stop => exact bind_eq_of_error here
  | ok lexeme =>
    rw [bind_eq_of_ok here]
    rfl

/-- To look at the next token changes nothing, and where no token can be found the reading stops. -/
theorem cases_of_peekToken :
    (peekToken fuel).run { session with input } = .ok input.line.lookahead { session with input } ∨
      ∃ stop final, input.line = ⟨[], .stopped stop final⟩ ∧
        (peekToken fuel).run { session with input } = .error (.stop stop) { session with input := final } := by
  have here := peek_eq enough session
  have ahead := input.ahead_next
  change (peek fuel >>= fun lexeme => _).run _ = _ ∨ ∃ stop final, _ ∧ (peek fuel >>= _).run _ = _
  generalize Token.scanner.next 0 input = result at ahead here
  cases ahead with
  | token begins =>
    rw [bind_eq_of_ok here, begins.lookahead_eq]
    exact .inl rfl
  | newline line | endOfFile line =>
    rw [bind_eq_of_ok here, line]
    exact .inl rfl
  | stopped line => exact .inr ⟨_, _, line, bind_eq_of_error here⟩

end Descent

end LexSpec
