import LexSpec.Proofs.Cursor.Relocation
import LexSpec.Proofs.Likeness
import LexSpec.Proofs.Token.Reading

/-! # Tokens in another place

The tokens of a text are the tokens of its copy, at moved positions. A token ends at the newline that ends
the text or before it, so what follows the text is never looked at.
-/

namespace LexSpec

namespace Relocation

variable {relocation : Relocation} {cursor copy : Cursor}

variable (relocation) in
inductive ScanLike : Scan Token → Scan Token → Prop where
  | endOfFile : ScanLike .endOfFile .endOfFile
  | error : ScanLike .error .error
  | skip {next next' : Cursor} (inside : relocation.Inside next next') :
      ScanLike (.skip next) (.skip next')
  | token {next next' : Cursor} {length : Nat} {token : Token}
      (behind : relocation.Behind next next') :
      ScanLike (.token next length token) (.token next' length token)

/-- Scans that find the same. -/
abbrev ScansAgree (relocation : Relocation) : (scan scan' : Except Fault (Scan Token)) → Prop :=
  Agree Eq relocation.ScanLike

theorem Inside.scanComment_agree (inside : relocation.Inside cursor copy) :
    relocation.ScansAgree (Token.scanComment cursor) (Token.scanComment copy) := by
  apply (inside.takeWhile_agree (by decide)).bind
  intro taken taken' same
  exact .ok (.skip same.2)

theorem Inside.scanName_agree (inside : relocation.Inside cursor copy) (token : String → Token) :
    relocation.ScansAgree (Token.scanName token cursor) (Token.scanName token copy) := by
  apply (inside.takeWhile_agree (by decide)).bind
  intro taken taken' same
  obtain ⟨name, next⟩ := taken
  obtain ⟨name', next'⟩ := taken'
  obtain ⟨rfl, stays⟩ := same
  dsimp only
  split
  · exact .ok .error
  · exact .ok (.token stays.behind)

theorem Inside.scanWord_agree (inside : relocation.Inside cursor copy) (first : Char) :
    relocation.ScansAgree (Token.scanWord first cursor) (Token.scanWord first copy) := by
  apply (inside.takeWhile_agree (by decide)).bind
  intro taken taken' same
  obtain ⟨others, next⟩ := taken
  obtain ⟨others', next'⟩ := taken'
  obtain ⟨rfl, stays⟩ := same
  exact .ok (.token stays.behind)

theorem Inside.scanEscape_agree (inside : relocation.Inside cursor copy) :
    relocation.ScansAgree (Token.scanEscape cursor) (Token.scanEscape copy) := by
  apply inside.nextChar_agree.bind
  intro found found' same
  cases same with
  | none => exact .ok .error
  | @some read read' alike =>
    obtain ⟨c, next⟩ := read
    obtain ⟨d, next'⟩ := read'
    obtain ⟨rfl, behind, -⟩ := alike
    exact .ok (.token behind)

theorem Inside.scanTurnstile_agree (inside : relocation.Inside cursor copy) :
    relocation.ScansAgree (Token.scanTurnstile cursor) (Token.scanTurnstile copy) := by
  apply inside.nextChar_agree.bind
  intro found found' same
  cases same with
  | none => exact .ok .error
  | @some read read' alike =>
    obtain ⟨c, next⟩ := read
    obtain ⟨d, next'⟩ := read'
    obtain ⟨rfl, behind, -⟩ := alike
    dsimp only
    split
    · exact .ok (.token behind)
    · exact .ok .error

theorem Inside.scanStartCode_agree (inside : relocation.Inside cursor copy) :
    relocation.ScansAgree (Token.scanStartCode cursor) (Token.scanStartCode copy) := by
  apply (inside.takeWhile_agree (by decide)).bind
  intro taken taken' same
  obtain ⟨digits, next⟩ := taken
  obtain ⟨digits', next'⟩ := taken'
  obtain ⟨rfl, stays⟩ := same
  dsimp only
  split
  · exact .ok .error
  · apply stays.nextChar_agree.bind
    intro found found' same
    cases same with
    | none => exact .ok .error
    | @some read read' alike =>
      obtain ⟨c, next⟩ := read
      obtain ⟨d, next'⟩ := read'
      obtain ⟨rfl, behind, -⟩ := alike
      dsimp only
      split
      · exact .ok (.token behind)
      · exact .ok .error

theorem Behind.scanFrom_agree {first : Char} (behind : relocation.Behind cursor copy)
    (inside : first ≠ '\n' → relocation.Inside cursor copy) :
    relocation.ScansAgree (Token.scanFrom first cursor) (Token.scanFrom first copy) := by
  by_cases newline : first = '\n'
  · -- a newline is a token by itself, and nothing behind it is looked at
    subst newline
    exact .ok (.token behind)
  · have inside := inside newline
    unfold Token.scanFrom
    split
    · exact .ok (.skip inside)
    split
    · exact inside.scanComment_agree
    split
    · exact inside.scanName_agree _
    split
    · exact inside.scanName_agree _
    split
    · exact inside.scanEscape_agree
    split
    · exact inside.scanTurnstile_agree
    split
    · exact inside.scanStartCode_agree
    split
    · exact inside.scanWord_agree first
    split
    · exact .ok (.token behind)
    · exact .ok .error

theorem Inside.scan_agree (inside : relocation.Inside cursor copy) :
    relocation.ScansAgree (Token.scan cursor) (Token.scan copy) := by
  apply inside.nextChar_agree.bind
  intro found found' same
  cases same with
  | none => exact .ok .endOfFile
  | @some read read' alike =>
    obtain ⟨c, next⟩ := read
    obtain ⟨d, next'⟩ := read'
    obtain ⟨rfl, behind, stays⟩ := alike
    exact behind.scanFrom_agree stays

/-! ## The next token -/

variable (relocation) in
/-- Positions that correspond. -/
def Moved (p q : Position) : Prop := q = relocation.move p

variable (relocation) in
/-- The same lexeme, or the same reason for there being none. -/
inductive LexemeLike : Except Stop (Lexeme Token) × Cursor → Except Stop (Lexeme Token) × Cursor → Prop where
  | token {position : Position} {text : String} {token : Token} {next next' : Cursor}
      (behind : relocation.Behind next next') :
      LexemeLike (.ok (.token position text token), next)
        (.ok (.token (relocation.move position) text token), next')
  | endOfFile {position : Position} {final final' : Cursor}
      (inside : relocation.Inside final final') :
      LexemeLike (.ok (.endOfFile position), final) (.ok (.endOfFile (relocation.move position)), final')
  | stopped {stop stop' : Stop} {final final' : Cursor} (alike : stop.Like relocation.Moved stop')
      (inside : relocation.Inside final final') : LexemeLike (.error stop, final) (.error stop', final')

theorem Inside.pending_eq_nil (inside : relocation.Inside cursor copy) :
    cursor.pending = [] ∧ copy.pending = [] := by
  obtain ⟨text, ahead, -⟩ := inside
  exact ⟨ahead.pending, ahead.pending'⟩

theorem Inside.lexicalError_like (inside : relocation.Inside cursor copy) (message : String) :
    (cursor.lexicalError message).Like relocation.Moved (copy.lexicalError message) := by
  obtain ⟨drained, drained'⟩ := inside.pending_eq_nil
  have obstacle : cursor.obstacle? = copy.obstacle? := by
    simp only [Cursor.obstacle?, drained, drained', List.isEmpty_nil, if_true, inside.head?_eq]
  refine ⟨rfl, .some inside.behind.position_eq, ?_⟩
  simp only [Cursor.lexicalError, obstacle]

theorem Inside.next_alike (inside : relocation.Inside cursor copy) :
    relocation.LexemeLike (Token.scanner.next 0 cursor) (Token.scanner.next 0 copy) := by
  induction size : cursor.bytesLeft using Nat.strongRecOn generalizing cursor copy with
  | ind size ih =>
    have found := inside.scan_agree
    rw [Token.next_eq cursor, Token.next_eq copy]
    generalize scanned : Token.scan cursor = result at found ⊢
    generalize scanned' : Token.scan copy = result' at found ⊢
    cases found with
    | error same =>
      subst same
      exact .stopped .fault inside
    | ok alike =>
      cases alike with
      | endOfFile =>
        dsimp only
        rw [inside.behind.position_eq]
        exact .endOfFile inside
      | error => exact .stopped (.error (inside.lexicalError_like _)) inside
      | skip stays =>
        have shorter := @Token.scanner.bytesLeft_lt cursor _ 0 _ scanned rfl
        exact ih _ (size ▸ shorter) stays rfl
      | token behind =>
        -- the text of a token is what has been read for it, on either side
        obtain ⟨text, reads, rfl, -⟩ := Token.reads_of_scan_token scanned
        obtain ⟨text', reads', length, -⟩ := Token.reads_of_scan_token scanned'
        have same := inside.behind.text_eq behind reads reads'
        subst same
        dsimp only
        rw [inside.behind.position_eq, reads.rest_eq, reads'.rest_eq, List.take_left, List.take_left]
        exact .token behind

end Relocation

end LexSpec
