import LexSpec.Proofs.Cursor.Consumed
import LexSpec.Proofs.Token.Tokenising

/-! # Scanners that only read

A scanner that gets at the text by reading alone cannot lead anywhere else: where it goes, the cursor has been
read on (`Lexes.readsOn`), and an error that it stops with is one at the cursor (`Lexes.eq_lexicalError`). The
scanner of the specification language is such a one (`Token.readsOnly_scanner`), and so the tokens of a text
and the place where no further one is found are read on from its beginning (`TokenStream.readsOn_behind`,
`TokenStream.readsOn_final`).
-/

namespace LexSpec

variable {α : Type}

/-- What a scan finds at a cursor lies where reading on leads. -/
def ReadsOnly (scan : Cursor → Nat → Except Fault (Scan α)) : Prop :=
  ∀ {input next code found}, scan input code = .ok found → found.next? = some next → input.ReadsOn next

/-- Scanning for the next lexeme: text to skip is skipped until something else is found. The scan may stand
    still, and then this may lead to nothing at all. -/
inductive Lexes (scan : Cursor → Nat → Except Fault (Scan α)) (code : Nat) :
    Cursor → Except Stop (Lexeme α) → Cursor → Prop where
  | fault {input : Cursor} {fault : Fault} (found : scan input code = .error fault) :
      Lexes scan code input (.error (.fault fault)) input
  | endOfFile {input : Cursor} (found : scan input code = .ok .endOfFile) :
      Lexes scan code input (.ok (.endOfFile input.position)) input
  | error {input : Cursor} (found : scan input code = .ok .error) :
      Lexes scan code input (.error (.error (input.lexicalError "lexical error"))) input
  | skip {input next final : Cursor} {result : Except Stop (Lexeme α)}
      (found : scan input code = .ok (.skip next)) (rest : Lexes scan code next result final) :
      Lexes scan code input result final
  | token {input next : Cursor} {length : Nat} {action : α}
      (found : scan input code = .ok (.token next length action)) :
      Lexes scan code input (.ok (.token input.position (String.ofList (input.rest.take length)) action)) next

namespace Lexes

variable {scan : Cursor → Nat → Except Fault (Scan α)} {code : Nat} {input final : Cursor}
  {result : Except Stop (Lexeme α)}

theorem readsOn (lexes : Lexes scan code input result final) (reads : ReadsOnly scan) :
    input.ReadsOn final := by
  induction lexes with
  | fault | endOfFile | error => exact .refl _
  | skip found _ ih => exact (reads found rfl).trans ih
  | token found => exact reads found rfl

/-- An error names what is in the way where the scan found it. -/
theorem eq_lexicalError {e : TextError} (lexes : Lexes scan code input (.error (.error e)) final) :
    e = final.lexicalError "lexical error" := by
  generalize broken : Except.error (Stop.error e) = result at lexes
  induction lexes with
  | fault | endOfFile | token => cases broken
  | error =>
    cases broken
    rfl
  | skip _ _ ih => exact ih broken

theorem position_eq {e : TextError} (lexes : Lexes scan code input (.error (.error e)) final) :
    e.position = some final.position := by
  rw [lexes.eq_lexicalError]
  rfl

end Lexes

theorem Scanner.lexes_next (scanner : Scanner α) (code : Nat) (input : Cursor) :
    Lexes scanner.scan code input (scanner.next code input).1 (scanner.next code input).2 := by
  fun_induction Scanner.next scanner code input with
  | case1 input fault found => exact .fault found
  | case2 input found => exact .endOfFile found
  | case3 input found => exact .error found
  | case4 input next found ih => exact .skip found ih
  | case5 input next length action found => exact .token found

theorem Token.readsOnly_scanner : ReadsOnly Token.scanner.scan := by
  intro input next code found scanned ends
  rcases finds_of_scan scanned with rfl | finds
  · cases ends
  · cases finds with
    | endOfFile => cases ends
    | blank _ reads | comment _ reads _ | token _ reads _ =>
      cases ends
      exact .of_reads reads

/-! ## The tokens of a text -/

namespace TokenStream

variable {input : Cursor}

theorem readsOn_behind_and_final (input : Cursor) :
    (∀ found ∈ (of input).tokens, input.ReadsOn found.behind) ∧ input.ReadsOn (of input).final := by
  induction size : input.bytesLeft using Nat.strongRecOn generalizing input with
  | ind size ih =>
    have lexes := Token.scanner.lexes_next 0 input
    rw [of_eq]
    rcases found : Token.scanner.next 0 input with ⟨result, behind⟩
    have reads : input.ReadsOn behind := by
      rw [found] at lexes
      exact lexes.readsOn Token.readsOnly_scanner
    match result, found with
    | .error stop, _ | .ok (.endOfFile _), _ => exact ⟨by simp, reads⟩
    | .ok (.token position text token), found =>
      have shorter := Scanner.bytesLeft_lt_of_next found
      obtain ⟨others, final⟩ := ih _ (size ▸ shorter) behind rfl
      exact ⟨List.forall_mem_cons.2 ⟨reads, fun other member => reads.trans (others other member)⟩,
        reads.trans final⟩

theorem readsOn_behind {found : PlacedToken} (member : found ∈ (of input).tokens) :
    input.ReadsOn found.behind :=
  (readsOn_behind_and_final input).1 found member

theorem readsOn_final (input : Cursor) : input.ReadsOn (of input).final := (readsOn_behind_and_final input).2

/-- The error of a stream that breaks off is one at its end. -/
theorem eq_lexicalError_of_stop? {e : TextError} (stopped : (of input).stop? = some (.error e)) :
    e = (of input).final.lexicalError "lexical error" := by
  obtain ⟨stop, tokenises, finished⟩ := exists_tokenises input
  rw [of_eq_of_tokenises tokenises] at stopped ⊢
  have lexes := Token.scanner.lexes_next 0 stop
  rcases found : Token.scanner.next 0 stop with ⟨result, final⟩
  rw [found] at lexes
  rw [of_eq stop, found] at stopped ⊢
  match result, found with
  | .error reason, found =>
    cases stopped
    exact lexes.eq_lexicalError
  | .ok (.token position text token), found =>
    rw [of_token found] at finished
    cases finished
  | .ok (.endOfFile position), found => cases stopped

theorem position_of_stop? {e : TextError} (stopped : (of input).stop? = some (.error e)) :
    e.position = some (of input).final.position := by
  rw [eq_lexicalError_of_stop? stopped]
  rfl

end TokenStream

end LexSpec
