import LexSpec.Proofs.Line.Cursors

/-! # What errors are about

All that an error tells of a text is one of five things: a token or the end of the text that is not expected, a set
or an expression without a definition, or a character that no token begins with. `Diagnosis` lists them with the
tokens that they are about, whichever line they are in (`Diagnosis.of_readWith`).
-/

namespace LexSpec

variable {source : String} {scope : Scope} {error : TextError} {line : Line}

/-- What the error of a text is about. -/
inductive Diagnosis (source : String) : TextError → Prop where
  /-- A token is told with its text and the place behind it. -/
  | unexpected {found : PlacedToken} (member : found ∈ (TokenStream.of (.ofString source)).tokens) :
      Diagnosis source ⟨.user, some found.behind.position, "parse error: unexpected '" ++ found.text ++ "'"⟩
  | endOfFile : Diagnosis source
      ⟨.user, some (TokenStream.of (.ofString source)).final.position, "parse error: unexpected end of file"⟩
  | unknownSet {found : PlacedToken} {name : String} (member : found ∈ (TokenStream.of (.ofString source)).tokens)
      (named : found.token = .setName name) : Diagnosis source (.unknownSet found.position name)
  | unknownRegex {found : PlacedToken} {name : String} (member : found ∈ (TokenStream.of (.ofString source)).tokens)
      (named : found.token = .regexName name) : Diagnosis source (.unknownRegex name)
  | lexical : Diagnosis source ((TokenStream.of (.ofString source)).final.lexicalError "lexical error")

namespace Diagnosis

theorem of_stopped {final : Cursor} (member : line ∈ (TokenStream.of (.ofString source)).lines)
    (stopped : line.ending = .stopped (.error error) final) : Diagnosis source error := by
  rw [TokenStream.eq_lexicalError_of_stop? (TokenStream.stop?_of_mem_lines member stopped).1]
  exact .lexical

/-- A line that ends too early is about its newline, unless it is the last one. -/
theorem of_earlyEnd (member : line ∈ (TokenStream.of (.ofString source)).lines)
    (told : Line.earlyEnd line.ending = .error error) : Diagnosis source error := by
  cases ending : line.ending with
  | newline behind =>
    obtain ⟨newline, among, isNewline, rfl⟩ := TokenStream.exists_newline_of_mem_lines member ending
    obtain ⟨stop, tokenises, -⟩ := TokenStream.exists_tokenises (.ofString source)
    rw [ending, Line.earlyEnd, ← tokenises.text_eq_of_newline newline among isNewline] at told
    cases told
    exact .unexpected among
  | endOfFile final =>
    obtain ⟨-, rfl⟩ := TokenStream.final_of_mem_lines member ending
    rw [ending] at told
    cases told
    exact .endOfFile
  | stopped stop final =>
    rw [ending] at told
    cases told
    exact of_stopped member ending

theorem of_statement_error {input : Cursor} (member : line ∈ (TokenStream.of (.ofString source)).lines)
    (refused : line.statement scope = .error (.error error, input)) : Diagnosis source error := by
  have inside : line.tokens ⊆ (TokenStream.of (.ofString source)).tokens := fun found among =>
    (TokenStream.sublist_tokens_lines _).subset (List.mem_flatMap.2 ⟨line, member, among⟩)
  unfold Line.statement at refused
  split at refused
  next refusal broken =>
    have told : line.refuse refusal = (.error error, input) := Except.error.inj refused
    rcases Refusal.isAmong_of_statement broken with rfl | ⟨found, among, about⟩
    · exact of_earlyEnd member (Prod.mk.inj told).1
    · cases refusal with
      | incomplete => exact about.elim
      | unexpected other =>
        cases about
        cases told
        exact .unexpected (inside among)
      | unknownSet other name =>
        obtain ⟨rfl, named⟩ := about
        cases told
        exact .unknownSet (inside among) named
      | unknownRegex other name =>
        obtain ⟨rfl, named⟩ := about
        cases told
        exact .unknownRegex (inside among) named
  next =>
    split at refused
    next stop final ending =>
      cases refused
      exact of_stopped member ending
    next => cases refused

theorem of_readWith (fails : Specification.readWith source scope = .error (.error error)) :
    Diagnosis source error := by
  obtain ⟨last, run⟩ := readWith_eq_error_iff.1 fails
  obtain ⟨before, line, after, rules, middle, input, lines, -, refused, -⟩ := sequence_eq_error_iff.1 run
  have member : line ∈ (TokenStream.of (.ofString source)).lines := by simp [lines]
  exact of_statement_error member refused

end Diagnosis

end LexSpec
