import LexSpec.Proofs.Grammar.Completion
import LexSpec.Proofs.Specification.Composition
import LexSpec.Proofs.Token.Layout

/-! # Where syntax errors are

A syntax error is told at the first lexeme with which no specification goes on. What comes before it is the
beginning of a specification, and what comes behind it does not matter: `syntax_error_at_first_unexpected`.

* `exists_offence`: a line with a syntax error can be completed up to the token that is in the way
  (`OffendsAt`), or up to the end of the text.
* `readWith_of_placed`: texts with the same tokens in the same places are read alike, so the beginning of a
  text can be tried with another continuation.
* `exists_readWith_of_completable`, `readWith_of_offendsAt`: the continuations that are read, and those that
  are not.
-/

namespace LexSpec

open Grammar Tiles

/-! ## The line that fails -/

/-- Behind the tokens in `front`, which can be completed to a line, a token stands in the way, whatever comes
    behind it. -/
structure OffendsAt (scope : Scope) (front : List PlacedToken) (offender : PlacedToken) (error : TextError) :
    Prop where
  plain : ∀ token ∈ front, token.token ≠ .newline
  completable : Completable (Statement.ofTokens scope) front
  named : unexpectedToken offender.text offender.behind = .error error
  refuses : ∀ last more, ∃ line others input,
    Line.cut last (front ++ offender :: more) = line :: others ∧
      line.statement scope = .error (.error error, input)

theorem Line.statement_of_error {line : Line} {scope : Scope} {refusal : Refusal}
    (refused : Statement.ofTokens scope line.tokens = .error refusal) :
    line.statement scope = .error (line.refuse refusal) := by
  simp only [statement, refused]

section Offence

variable {scope : Scope} {error : TextError} {last : LineEnd} {found : List PlacedToken} {line : Line}
  {others : List Line}

/-- A token that the line does not go on with. -/
theorem exists_offendsAt_of_unexpected {offender : PlacedToken} {tokens : List PlacedToken}
    (plain : ∀ token ∈ tokens, token.token ≠ .newline)
    (refused : Statement.ofTokens scope tokens = .error (.unexpected offender))
    (named : unexpectedToken offender.text offender.behind = .error error) :
    ∃ front back, tokens = front ++ offender :: back ∧ OffendsAt scope front offender error := by
  obtain ⟨front, back, rfl, completable, refuses⟩ := (viableAt_statement tokens).unexpected refused
  rw [List.append_cons] at plain
  have plainFront := fun token member => plain token (List.mem_append_left _ member)
  refine ⟨front, back, rfl, fun token member => plainFront token (List.mem_append_left _ member),
    completable, named, fun last more => ?_⟩
  -- the line of the token begins with the tokens in front of it and goes on behind it
  have ends : Line.cut last more = (Line.split last more).1 :: (Line.split last more).2 := rfl
  have cuts := Line.cut_append_of_plain plainFront ends
  rw [List.append_assoc, List.append_assoc] at cuts
  refine ⟨_, _, offender.behind, cuts, ?_⟩
  rw [Line.statement_of_error (refuses _), ← named]
  rfl

/-- A newline where the line needs another token. -/
theorem offendsAt_of_newline {front : List PlacedToken} {newline : PlacedToken}
    (plain : ∀ token ∈ front, token.token ≠ .newline)
    (refused : Statement.ofTokens scope front = .error .incomplete) (isNewline : newline.token = .newline)
    (text : newline.text = "\n") (named : unexpectedToken "\n" newline.behind = .error error) :
    OffendsAt scope front newline error where
  plain := plain
  completable := (viableAt_statement front).incomplete refused
  named := text.symm ▸ named
  refuses last more := by
    have ends : Line.cut last (newline :: more) = ⟨[], .newline newline.behind⟩ :: Line.cut last more := by
      rw [Line.cut_cons, if_pos isNewline]
    have cuts := Line.cut_append_of_plain plain ends
    rw [List.append_nil] at cuts
    refine ⟨_, _, newline.behind, cuts, ?_⟩
    rw [Line.statement_of_error refused, ← named]
    rfl

/-- A syntax error of a line that is refused, unless its end is the place where the scanner stopped. -/
theorem exists_offence_of_refusal {refusal : Refusal} {input : Cursor}
    (cuts : Line.cut last found = line :: others)
    (refused : Statement.ofTokens scope line.tokens = .error refusal)
    (told : line.refuse refusal = (.error error, input)) (user : error.kind = .user)
    (newlines : ∀ token ∈ found, token.token = .newline → token.text = "\n") :
    (∃ front offender back, found = front ++ offender :: back ∧ OffendsAt scope front offender error) ∨
      found = line.tokens ∧ Completable (Statement.ofTokens scope) found ∧
        Line.earlyEnd last = .error error := by
  obtain ⟨plain, ending⟩ := Line.eq_append_of_cut cuts
  obtain ⟨named, -⟩ := Prod.mk.inj told
  cases refusal with
  | unexpected offender =>
    obtain ⟨front, back, cut, offends⟩ := exists_offendsAt_of_unexpected plain refused named
    rw [cut] at ending
    rcases ending with ⟨rfl, -⟩ | ⟨newline, rest, rfl, -, -⟩
    · exact .inl ⟨front, offender, back, rfl, offends⟩
    · exact .inl ⟨front, offender, back ++ newline :: rest, by simp, offends⟩
  | incomplete =>
    rcases ending with ⟨rfl, ending⟩ | ⟨newline, back, rfl, isNewline, ending⟩
    · exact .inr ⟨rfl, (viableAt_statement _).incomplete refused, ending ▸ named⟩
    · rw [ending] at named
      have text : newline.text = "\n" := newlines newline (by simp) isNewline
      exact .inl ⟨line.tokens, newline, back, rfl, offendsAt_of_newline plain refused isNewline text named⟩
  | unknownSet found name =>
    cases told
    cases user
  | unknownRegex found name =>
    cases told
    cases user

/-- A syntax error in a line is at a token, or else at the end of the text. -/
theorem exists_offence {input : Cursor} (cuts : Line.cut last found = line :: others)
    (stated : line.statement scope = .error (.error error, input)) (user : error.kind = .user)
    (newlines : ∀ token ∈ found, token.token = .newline → token.text = "\n")
    (ends : ∀ behind, last ≠ .newline behind) (notStopped : ∀ final, last ≠ .stopped (.error error) final) :
    (∃ front offender back, found = front ++ offender :: back ∧ OffendsAt scope front offender error) ∨
      (∀ token ∈ found, token.token ≠ .newline) ∧ Completable (Statement.ofTokens scope) found ∧
        ∃ final, last = .endOfFile final ∧ Line.earlyEnd last = .error error := by
  obtain ⟨plain, ending⟩ := Line.eq_append_of_cut cuts
  unfold Line.statement at stated
  split at stated
  next refusal refused =>
    rcases exists_offence_of_refusal cuts refused (Except.error.inj stated) user newlines with
      token | ⟨rfl, completable, named⟩
    · exact .inl token
    · refine .inr ⟨plain, completable, ?_⟩
      cases last with
      | newline behind => exact absurd rfl (ends behind)
      | endOfFile final => exact ⟨final, rfl, named⟩
      | stopped stop final =>
        cases named
        exact absurd rfl (notStopped final)
  next =>
    -- what the scanner stopped at is no error of the reader
    split at stated
    next stop final stopped =>
      cases stated
      rcases ending with ⟨-, ending⟩ | ⟨newline, back, -, -, ending⟩
      · exact absurd (ending.symm.trans stopped) (notStopped _)
      · rw [stopped] at ending
        cases ending
    next => cases stated

end Offence

/-! ## Other texts with the same tokens -/

/-- A text that begins with the same tiles is read as if it had the tokens found before. -/
theorem readWith_of_placed {source source' : String} {scope : Scope} {tiles : List Tile}
    {found found' rest : List PlacedToken} {stream : TokenStream} (placed : Placed [] tiles found)
    (placed' : Placed [] tiles found') (scans : TokenStream.of (.ofString source') = stream)
    (tokens : stream.tokens = found' ++ rest) :
    (∀ stop last,
      Step.sequence ((Line.cut stream.lastEnd (found ++ rest)).map Line.read) (.start source scope) =
        .error stop last → Specification.readWith source' scope = .error stop) ∧
    ∀ outcomes last,
      Step.sequence ((Line.cut stream.lastEnd (found ++ rest)).map Line.read) (.start source scope) =
        .ok outcomes last → ∃ specification, Specification.readWith source' scope = .ok specification := by
  have itself : ∀ p, (Relocation.replace [] []).Moved p p := fun _ => rfl
  have alike : List.Forall₂ (PlacedToken.Like (Relocation.replace [] []).Moved) (found ++ rest)
      (found' ++ rest) :=
    List.rel_append (placed.like placed') (List.forall₂_same.2 fun token _ => token.like_itself itself)
  have lines := Line.cut_like alike (stream.lastEnd.like_itself itself)
  rw [← tokens] at lines
  subst scans
  obtain ⟨errors, values⟩ :=
    sequence_replace lines (.start source scope) (.ofString source) (.ofString source')
  constructor
  · intro stop last fails
    exact readWith_eq_error_iff.2 (errors stop last fails)
  · intro outcomes last reads
    obtain ⟨outcomes', final, reads', -⟩ := values outcomes last reads
    exact ⟨_, readWith_eq_ok_iff.2 ⟨outcomes', _, sequence_eq_ok_iff.1 reads', rfl⟩⟩

/-! ## Continuations -/

/-- How a line is completed: the shortest spellings, with a blank before each. -/
def closerTile (token : Token) : Tile where
  gap := [' ']
  token := token
  spelling :=
    match token with
    | .closeParen => [')']
    | .equals => ['=']
    | .turnstile => [':', '-']
    | _ => ['a']

theorem closerTile_spec {token : Token} (closer : token ∈ closers) :
    (closerTile token).Proper ∧ (closerTile token).text.length ≤ 3 ∧ '\t' ∉ (closerTile token).text := by
  have gap : Gap (some token) [' '] := .blank (.inl rfl) .nil
  simp only [closers, List.mem_cons, List.not_mem_nil, or_false] at closer
  rcases closer with rfl | rfl | rfl | rfl
  · exact ⟨⟨.word (List.cons_ne_nil _ _) (List.all_eq_true.1 rfl), gap⟩, by decide, by decide⟩
  · exact ⟨⟨.sign rfl, gap⟩, by decide, by decide⟩
  · exact ⟨⟨.sign rfl, gap⟩, by decide, by decide⟩
  · exact ⟨⟨.turnstile, gap⟩, by decide, by decide⟩

theorem exists_text_closers (words : List Token) :
    ∃ rest, Tiles.text (words.map closerTile) ++ [' '] = ' ' :: rest := by
  cases words with
  | nil => exact ⟨[], rfl⟩
  | cons word words => exact ⟨_, rfl⟩

theorem greedy_closers (words : List Token) : Greedy [' '] (words.map closerTile) := by
  induction words with
  | nil => trivial
  | cons word words ih =>
    refine ⟨fun _ c head => ?_, ih⟩
    obtain ⟨rest, begins⟩ := exists_text_closers words
    rw [begins] at head
    cases head
    rfl

theorem text_closers_spec {words : List Token} (known : words ⊆ closers) :
    (Tiles.text (words.map closerTile)).length ≤ 3 * words.length ∧
      '\t' ∉ Tiles.text (words.map closerTile) := by
  induction words with
  | nil => simp [Tiles.text]
  | cons word words ih =>
    obtain ⟨closer, known⟩ := List.cons_subset.1 known
    obtain ⟨-, short, noTab⟩ := closerTile_spec closer
    obtain ⟨few, noTabs⟩ := ih known
    have text : Tiles.text ((word :: words).map closerTile) =
        (closerTile word).text ++ Tiles.text (words.map closerTile) := rfl
    rw [text, List.length_append, List.length_cons, List.mem_append]
    exact ⟨by omega, not_or.2 ⟨noTab, noTabs⟩⟩

section Continuation

variable {source : String} {scope : Scope} {before : List Line} {rules : List (Option Rule)}
  {middle : Session} {whole front : List PlacedToken} {tiles : List Tile} {follows : List Char}

theorem Tiles.Placed.length_le {text : List Char} {found : List PlacedToken}
    (placed : Placed text tiles found) (proper : ∀ tile ∈ tiles, tile.Proper) :
    found.length ≤ (Tiles.text tiles).length := by
  induction placed with
  | nil => exact Nat.zero_le _
  | cons _ _ _ _ _ ih =>
    obtain ⟨first, rest⟩ := List.forall_mem_cons.1 proper
    have shorter := ih rest
    have positive := List.length_pos_iff.2 first.spells.ne_nil
    simp only [text_cons, List.length_cons, List.length_append]
    omega

/-- The beginning of a line that can be completed goes on to a specification. -/
theorem exists_readWith_of_completable (reads : ReadsLines (.start source scope) before rules middle)
    (cuts : ∀ last rest, Line.cut last (whole ++ rest) = before ++ Line.cut last rest)
    (plain : ∀ token ∈ front, token.token ≠ .newline)
    (completable : Completable (Statement.ofTokens middle.scope) front)
    (placed : Placed [] tiles (whole ++ front))
    (proper : ∀ tile ∈ tiles, tile.Proper) (greedy : Greedy follows tiles)
    (small : (Tiles.text tiles).length < 2 ^ 28) :
    ∃ more specification,
      Specification.readWith (String.ofList (Tiles.text tiles) ++ " " ++ more) scope = .ok specification := by
  obtain ⟨words, known, few, accepts⟩ := completable
  let layout : Layout := ⟨tiles ++ words.map closerTile, [' ']⟩
  obtain ⟨more, begins⟩ := exists_text_closers words
  have cutText : layout.text = Tiles.text tiles ++ ' ' :: more := by
    rw [← begins, Layout.text, text_append, List.append_assoc]
  have text : (String.ofList (Tiles.text tiles) ++ " " ++ String.ofList more).toList = layout.text := by
    simp [cutText]
  have properLayout : layout.Proper := by
    refine ⟨List.forall_mem_append.2 ⟨proper, fun tile member => ?_⟩, .blank (.inl rfl) .nil⟩
    obtain ⟨word, member', rfl⟩ := List.mem_map.1 member
    exact (closerTile_spec (known member')).1
  have greedyLayout : Greedy layout.lastGap layout.tiles := by
    refine greedy_append.2 ⟨greedy.of_head proper fun c head => ?_, greedy_closers words⟩
    rw [begins] at head
    cases head
    rfl
  obtain ⟨place, reaches⟩ : ∃ place, Position.start.advanceOver layout.text = .ok place := by
    obtain ⟨short, noTab⟩ := text_closers_spec known
    have tokens := placed.length_le proper
    rw [List.length_append] at tokens
    rw [cutText, ← begins]
    refine Position.exists_advanceOver_of_small small ?_ (by simpa using noTab)
    simp only [List.length_append, List.length_singleton]
    omega
  obtain ⟨found, final, stream, placed'⟩ := exists_stream_of_text text reaches properLayout greedyLayout
  obtain ⟨front', closing, rfl, placedFront, placedClosing⟩ := placed'.split
  have closingWords : closing.map (·.token) = words := by
    rw [placedClosing.tokens_eq, List.map_map]
    exact List.map_id words
  obtain ⟨statement, accepted⟩ := accepts closing closingWords
  -- behind the whole lines there is one more, which is complete now
  have plainLine : ∀ token ∈ front ++ closing, token.token ≠ .newline := by
    refine List.forall_mem_append.2 ⟨plain, fun token member newline => ?_⟩
    have closer := known (closingWords ▸ List.mem_map_of_mem member)
    simp [newline, closers] at closer
  have line := Line.cut_append_of_plain plainLine (Line.cut_nil (.endOfFile final))
  rw [List.append_nil] at line
  have stated : Line.statement ⟨front ++ closing, .endOfFile final⟩ middle.scope = .ok statement :=
    Line.statement_eq_ok_iff.2 ⟨accepted, fun _ _ stopped => by cases stopped⟩
  have run := sequence_eq_ok_iff.2 (reads.append (.cons stated .nil))
  rw [← line, ← cuts, ← List.append_assoc] at run
  obtain ⟨-, values⟩ := @readWith_of_placed source _ scope _ _ _ _ _ placed placedFront stream rfl
  obtain ⟨specification, result⟩ := values _ _ run
  exact ⟨String.ofList more, specification, result⟩

/-- Behind a token that stands in the way nothing is looked at. -/
theorem readWith_of_offendsAt {offender : PlacedToken} {error : TextError}
    (reads : ReadsLines (.start source scope) before rules middle)
    (cuts : ∀ last rest, Line.cut last (whole ++ rest) = before ++ Line.cut last rest)
    (offends : OffendsAt middle.scope front offender error)
    (placed : Placed [] tiles (whole ++ front ++ [offender])) (proper : ∀ tile ∈ tiles, tile.Proper)
    (greedy : Greedy follows tiles) (small : (Tiles.text tiles).length < 2 ^ 28) (more : String) :
    Specification.readWith (String.ofList (Tiles.text tiles) ++ " " ++ more) scope =
      .error (.error error) := by
  have text : (String.ofList (Tiles.text tiles) ++ " " ++ more).toList =
      Tiles.text tiles ++ ([' '] ++ more.toList) := by simp
  obtain ⟨place, reaches⟩ : ∃ place, Position.start.advanceOver (Tiles.text tiles ++ [' ']) = .ok place :=
    Position.exists_advanceOver_of_small small (by decide) (by decide)
  have greedy : Greedy ([' '] ++ more.toList) tiles := by
    refine greedy.of_head proper fun c head => ?_
    cases head
    rfl
  obtain ⟨found, stop, -, tokenises, -, -, -, placed'⟩ :=
    exists_tokenises_of_text text reaches proper greedy (fun none => by cases none)
  have stream := TokenStream.of_eq_of_tokenises tokenises
  obtain ⟨errors, -⟩ := @readWith_of_placed source _ scope _ _ _ _ _ placed placed' stream rfl
  obtain ⟨line, others, input, cut, stated⟩ :=
    offends.refuses (TokenStream.of stop).lastEnd (TokenStream.of stop).tokens
  refine errors _ { middle with input } (sequence_eq_error_iff.2 ?_)
  refine ⟨before, line, others, rules, middle, input, ?_, reads, stated, rfl⟩
  rw [← cut, ← cuts, List.append_assoc, List.append_assoc]
  rfl

end Continuation

/-! ## Syntax errors -/

/-- A lexeme of a text: `before` is the text up to the end of the token before it, and `upTo` is the text up to
    its own end. -/
def LexemeAt (source before : String) (lexeme : Lexeme Token) (upTo : String) : Prop :=
  ∃ found cursor behind, Tokenises (.ofString source) found cursor ∧
    Token.scanner.next 0 cursor = (.ok lexeme, behind) ∧
    source.toList = before.toList ++ cursor.rest ∧ source.toList = upTo.toList ++ behind.rest

/-- How a lexeme is named in an error. -/
def Lexeme.shown : Lexeme Token → String
  | .token _ text _ => "'" ++ text ++ "'"
  | .endOfFile _ => "end of file"

/-- An error that tells of the first lexeme with which no specification goes on. -/
structure SyntaxErrorAt (source : String) (scope : Scope) (error : TextError) (before : String)
    (lexeme : Lexeme Token) (upTo : String) : Prop where
  stands : LexemeAt source before lexeme upTo
  /-- The error names the lexeme and has the place behind it. -/
  told : ∃ position, Position.start.advanceOver upTo.toList = .ok position ∧
    error = ⟨.user, some position, "parse error: unexpected " ++ lexeme.shown⟩
  /-- Without the lexeme the text goes on to a specification. -/
  viable : ∃ more specification, Specification.readWith (before ++ " " ++ more) scope = .ok specification
  /-- With the lexeme it does not, unless the lexeme is the end of the text. -/
  decided : match lexeme with
    | .endOfFile _ => upTo = source
    | .token _ _ _ => ∀ more, Specification.readWith (upTo ++ " " ++ more) scope = .error (.error error)

theorem unexpectedToken_eq (place : Position) (text : String) (token : Token) (behind : Cursor) :
    unexpectedToken text behind =
      .error ⟨.user, some behind.position,
        "parse error: unexpected " ++ (Lexeme.token place text token).shown⟩ := by
  have quote : "parse error: unexpected '" = "parse error: unexpected " ++ "'" := rfl
  simp only [unexpectedToken, Lexeme.shown, quote, String.append_assoc]

section Failing

variable {source : String} {scope : Scope} {error : TextError} {before : List Line}
  {rules : List (Option Rule)} {session : Session} {whole front : List PlacedToken} {stop : Cursor}

/-- What is read of a text is no longer than the text. -/
theorem length_lt_of_reads {text : List Char} {n : Nat} (small : source.length < n)
    (reads : (Cursor.ofString source).Reads text stop) : text.length < n := by
  have length := congrArg List.length reads.rest_eq
  rw [List.length_append] at length
  have total : (Cursor.ofString source).rest.length = source.length := String.length_toList
  omega

variable (small : source.length < 2 ^ 28) (reads : ReadsLines (.start source scope) before rules session)
  (cuts : ∀ last rest, Line.cut last (whole ++ rest) = before ++ Line.cut last rest)

include small reads cuts

theorem exists_syntaxErrorAt_token {offender : PlacedToken} {rest : List PlacedToken}
    (offends : OffendsAt session.scope front offender error)
    (tokenises : Tokenises (.ofString source) (whole ++ front ++ offender :: rest) stop) :
    ∃ before lexeme upTo, SyntaxErrorAt source scope error before lexeme upTo := by
  obtain ⟨cursor, first, second⟩ := tokenises.split
  cases second with
  | @cons _ behind _ place text token _ next _ =>
    obtain ⟨tiles, proper, greedy, readsFront, placed⟩ := first.exists_tiles advanceOver_start
    obtain ⟨tilesUpTo, properUpTo, greedyUpTo, readsUpTo, placedUpTo⟩ :=
      (first.append (.cons next .nil)).exists_tiles advanceOver_start
    refine ⟨String.ofList (Tiles.text tiles), .token place text token, String.ofList (Tiles.text tilesUpTo),
      ⟨_, cursor, behind, first, next, ?_, ?_⟩, ⟨behind.position, ?_, ?_⟩, ?_, ?_⟩
    · rw [String.toList_ofList]
      exact readsFront.rest_eq
    · rw [String.toList_ofList]
      exact readsUpTo.rest_eq
    · rw [String.toList_ofList]
      exact readsUpTo.advanceOver_eq
    · exact Stop.error.inj (offends.named.symm.trans (unexpectedToken_eq place text token behind))
    · exact exists_readWith_of_completable reads cuts offends.plain offends.completable placed proper greedy
        (length_lt_of_reads small readsFront)
    · exact readWith_of_offendsAt reads cuts offends placedUpTo properUpTo greedyUpTo
        (length_lt_of_reads small readsUpTo)

theorem exists_syntaxErrorAt_endOfFile {final : Cursor} (plain : ∀ token ∈ front, token.token ≠ .newline)
    (completable : Completable (Statement.ofTokens session.scope) front)
    (tokens : (TokenStream.of (.ofString source)).tokens = whole ++ front)
    (ends : (TokenStream.of (.ofString source)).lastEnd = .endOfFile final)
    (named : Line.earlyEnd (TokenStream.of (.ofString source)).lastEnd = .error error) :
    ∃ before lexeme upTo, SyntaxErrorAt source scope error before lexeme upTo := by
  obtain ⟨complete, atEnd⟩ := TokenStream.lastEnd_eq_endOfFile_iff.1 ends
  obtain ⟨stop, position, behind, tokenises, next⟩ := TokenStream.exists_tokenises_of_complete complete
  rw [TokenStream.of_eq_of_endOfFile tokenises next] at atEnd
  rw [tokens] at tokenises
  obtain ⟨tiles, proper, greedy, readsFront, placed⟩ := tokenises.exists_tiles advanceOver_start
  obtain ⟨gap, middle, readsGap, -, read⟩ := Token.next_eq_ok_iff.1 next
  cases read with
  | endOfFile drained finished =>
    have readsAll := readsFront.append readsGap
    have text : source.toList = Tiles.text tiles ++ gap := by
      have rest := readsAll.rest_eq
      rw [finished, List.append_nil] at rest
      exact rest
    refine ⟨String.ofList (Tiles.text tiles), .endOfFile behind.position, source,
      ⟨_, stop, behind, tokenises, next, ?_, ?_⟩, ⟨behind.position, ?_, ?_⟩, ?_, rfl⟩
    · rw [String.toList_ofList]
      exact readsFront.rest_eq
    · rw [finished, List.append_nil]
    · rw [text]
      exact readsAll.advanceOver_eq
    · rw [ends, ← atEnd] at named
      exact (Stop.error.inj named).symm
    · exact exists_readWith_of_completable reads cuts plain completable placed proper greedy
        (length_lt_of_reads small readsFront)

end Failing

/-- A syntax error is told behind the first lexeme that cannot stand where it is, which it names. The text up to
    the token before that lexeme goes on to a specification, and with the lexeme, if it is a token, every text
    has the same error. -/
theorem syntax_error_at_first_unexpected {source : String} {scope : Scope} {error : TextError}
    (small : source.length < 2 ^ 28) (fails : Specification.readWith source scope = .error (.error error))
    (user : error.kind = .user) :
    ∃ before lexeme upTo, SyntaxErrorAt source scope error before lexeme upTo := by
  obtain ⟨last, run⟩ := readWith_eq_error_iff.1 fails
  obtain ⟨before, line, others, rules, session, input, lines, reads, stated, -⟩ := sequence_eq_error_iff.1 run
  obtain ⟨whole, back, tokens, cutBack, cuts⟩ := Line.exists_whole_of_cut lines
  obtain ⟨stop, tokenises, -⟩ := TokenStream.exists_tokenises (.ofString source)
  rw [tokens] at tokenises
  have newlines : ∀ token ∈ back, token.token = .newline → token.text = "\n" := fun token member =>
    tokenises.text_eq_of_newline token (List.mem_append_right _ member)
  have notStopped (final : Cursor) :
      (TokenStream.of (.ofString source)).lastEnd ≠ .stopped (.error error) final := by
    intro stopped
    rw [TokenStream.kind_of_stop? (TokenStream.lastEnd_eq_stopped_iff.1 stopped).1] at user
    cases user
  rcases exists_offence cutBack stated user newlines (TokenStream.lastEnd_ne_newline _) notStopped with
    ⟨front, offender, rest, rfl, offends⟩ | ⟨plain, completable, final, ends, named⟩
  · rw [← List.append_assoc] at tokenises
    exact exists_syntaxErrorAt_token small reads cuts offends tokenises
  · exact exists_syntaxErrorAt_endOfFile small reads cuts plain completable tokens ends named

theorem syntax_error_at_first_unexpected_plus :
    ∃ error before lexeme upTo,
      Specification.readWith "$d = 0-9\nx :- (a | +) b" ∅ = .error (.error error) ∧
      SyntaxErrorAt "$d = 0-9\nx :- (a | +) b" ∅ error before lexeme upTo := by
  have refused : (match Specification.readWith "$d = 0-9\nx :- (a | +) b" ∅ with
      | .error (.error error) => error.kind == .user
      | _ => false) = true := by decide +kernel
  split at refused
  next error fails =>
    obtain ⟨before, lexeme, upTo, place⟩ :=
      syntax_error_at_first_unexpected (by decide) fails (eq_of_beq refused)
    exact ⟨error, before, lexeme, upTo, fails, place⟩
  next => cases refused

end LexSpec
