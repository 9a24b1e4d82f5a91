import LexSpec.Proofs.Grammar.Completion
import LexSpec.Proofs.Line.Reading
import LexSpec.Proofs.Token.Cursors

/-! # Where lines are read

The cursors of a line are read on from the cursor before the text, one behind each token and one behind the
line: `Line.ReadFrom`. A line that cannot be read is refused at one of them, and its error stands there
(`Line.ReadFrom.of_statement_error`).
-/

namespace LexSpec

variable {input final : Cursor} {scope : Scope} {tokens : List PlacedToken}

/-! ## Refusals -/

/-- A refusal is about one of the tokens, unless they end too early. -/
def Refusal.IsAmong (tokens : List PlacedToken) (refusal : Refusal) : Prop :=
  refusal = .incomplete ∨ ∃ found ∈ tokens, refusal.IsAbout found

namespace Refusal

variable {refusal : Refusal} {others : List PlacedToken}

theorem IsAmong.mono (among : refusal.IsAmong tokens) (more : tokens ⊆ others) : refusal.IsAmong others := by
  rcases among with incomplete | ⟨found, member, about⟩
  · exact .inl incomplete
  · exact .inr ⟨found, more member, about⟩

theorem isAmong_of_foldlM {σ α : Type} {next : σ → PlacedToken → Except Refusal σ} {start : σ}
    {finish : σ → Except Refusal α}
    (refuses : ∀ {state found refusal}, next state found = .error refusal → refusal.IsAbout found)
    (finishes : ∀ {state refusal}, finish state = .error refusal → refusal = .incomplete)
    (refused : (tokens.foldlM next start >>= finish) = .error refusal) : refusal.IsAmong tokens := by
  rcases bind_eq_error_iff.1 refused with broken | ⟨state, -, broken⟩
  · obtain ⟨front, found, back, state, rfl, -, broken⟩ := foldlM_eq_error_iff.1 broken
    exact .inr ⟨found, by simp, refuses broken⟩
  · exact .inl (finishes broken)

theorem isAmong_of_set (refused : CharSet.ofTokens scope tokens = .error refusal) :
    refusal.IsAmong tokens :=
  isAmong_of_foldlM Grammar.SetItems.isAbout_of_next Grammar.SetItems.eq_incomplete_of_finish refused

theorem isAmong_of_regex (refused : Regex.ofTokens scope tokens = .error refusal) :
    refusal.IsAmong tokens :=
  isAmong_of_foldlM Grammar.OpenGroups.isAbout_of_next Grammar.OpenGroups.eq_incomplete_of_finish refused

/-- What an expected token is followed by is refused on its own account. -/
theorem isAmong_of_expect {α : Type} {token : Token} {read : List PlacedToken → Except Refusal α}
    (reads : ∀ {rest refusal}, read rest = .error refusal → refusal.IsAmong rest)
    (refused : (Statement.expect token tokens >>= read) = .error refusal) : refusal.IsAmong tokens := by
  cases tokens with
  | nil =>
    cases refused
    exact .inl rfl
  | cons first rest =>
    by_cases expected : first.token = token
    · rw [Statement.expect, if_pos expected] at refused
      exact (reads refused).mono (List.subset_cons_self ..)
    · rw [Statement.expect, if_neg expected] at refused
      cases refused
      exact .inr ⟨first, List.mem_cons_self .., rfl⟩

theorem isAmong_of_statement (refused : Statement.ofTokens scope tokens = .error refusal) :
    refusal.IsAmong tokens := by
  cases tokens with
  | nil => cases refused
  | cons first rest =>
    rw [Statement.ofTokens.eq_2] at refused
    cases token : first.token with
    | setName name =>
      simp only [token] at refused
      refine (isAmong_of_expect (fun broken => ?_) refused).mono (List.subset_cons_self ..)
      exact isAmong_of_set (Grammar.map_eq_error_iff.1 broken)
    | regexName name =>
      simp only [token] at refused
      refine (isAmong_of_expect (fun broken => ?_) refused).mono (List.subset_cons_self ..)
      exact isAmong_of_regex (Grammar.map_eq_error_iff.1 broken)
    | word name =>
      simp only [token] at refused
      refine (isAmong_of_expect (fun {behind _} broken => ?_) refused).mono (List.subset_cons_self ..)
      obtain ⟨f, same⟩ := Grammar.exists_map_ruleOfTokens name first.position behind
      rw [same] at broken
      exact isAmong_of_regex (Grammar.map_eq_error_iff.1 broken)
    | startCode number =>
      simp only [token] at refused
      cases rest with
      | nil => cases refused
      | cons second rest =>
        cases refused
        exact .inr ⟨second, by simp, rfl⟩
    | _ =>
      simp only [token] at refused
      cases refused
      exact .inr ⟨first, List.mem_cons_self .., rfl⟩

end Refusal

/-! ## Errors at a cursor -/

/-- An error that tells where the reading has come to tells this of a cursor. -/
def Stop.StandsAt (input : Cursor) (stop : Stop) : Prop :=
  ∀ error, stop = .error error → error.kind = .user ∨ error.kind = .lexical →
    error.position = some input.position

theorem Stop.standsAt_error {error : TextError} (place : error.position = some input.position) :
    (Stop.error error).StandsAt input := by
  rintro other ⟨⟩ -
  exact place

theorem Stop.standsAt_fault (fault : Fault) (input : Cursor) : (Stop.fault fault).StandsAt input := by
  rintro error ⟨⟩

/-- An error of another kind need not tell where the reading has come to. -/
theorem Stop.standsAt_of_kind {error : TextError} (notUser : error.kind ≠ .user)
    (notLexical : error.kind ≠ .lexical) (input : Cursor) : (Stop.error error).StandsAt input := by
  rintro other ⟨⟩ (user | lexical)
  · exact absurd user notUser
  · exact absurd lexical notLexical

/-! ## Lines -/

/-- The cursors of a line are read on from a cursor, and an error that ends the line stands at its end. -/
structure Line.ReadFrom (input : Cursor) (line : Line) : Prop where
  tokens : ∀ found ∈ line.tokens, input.ReadsOn found.behind
  behind : input.ReadsOn line.ending.behind
  stopped : ∀ {stop final}, line.ending = .stopped stop final → stop.StandsAt final

namespace Line

theorem readFrom_of_mem_cut {last : LineEnd} (reads : ∀ found ∈ tokens, input.ReadsOn found.behind)
    (behind : input.ReadsOn last.behind)
    (stopped : ∀ {stop final}, last = .stopped stop final → stop.StandsAt final) :
    ∀ line ∈ cut last tokens, line.ReadFrom input := by
  induction tokens with
  | nil =>
    rw [cut_nil]
    exact List.forall_mem_singleton.2 ⟨by simp, behind, stopped⟩
  | cons first rest ih =>
    obtain ⟨reads, others⟩ := List.forall_mem_cons.1 reads
    have lines := ih others
    rw [cut_cons]
    split
    · exact List.forall_mem_cons.2 ⟨⟨by simp, reads, by simp⟩, lines⟩
    · rw [cut, List.modifyHead_cons]
      obtain ⟨head, tail⟩ := List.forall_mem_cons.1 lines
      exact List.forall_mem_cons.2
        ⟨⟨List.forall_mem_cons.2 ⟨reads, head.tokens⟩, head.behind, head.stopped⟩, tail⟩

variable {line : Line} {stop : Stop}

theorem earlyEnd_standsAt (reads : line.ReadFrom input) :
    (earlyEnd line.ending).StandsAt line.ending.behind := by
  cases ending : line.ending with
  | newline behind | endOfFile final => exact Stop.standsAt_error rfl
  | stopped stop final => exact reads.stopped ending

theorem ReadFrom.of_statement_error (reads : line.ReadFrom input)
    (refused : line.statement scope = .error (stop, final)) : input.ReadsOn final ∧ stop.StandsAt final := by
  unfold statement at refused
  split at refused
  next refusal among =>
    have told : line.refuse refusal = (stop, final) := Except.error.inj refused
    rcases Refusal.isAmong_of_statement among with rfl | ⟨found, member, about⟩
    · cases told
      exact ⟨reads.behind, earlyEnd_standsAt reads⟩
    · have place := reads.tokens found member
      cases refusal with
      | incomplete => exact about.elim
      | unexpected other =>
        cases about
        cases told
        exact ⟨place, Stop.standsAt_error rfl⟩
      | unknownSet other name | unknownRegex other name =>
        obtain ⟨rfl, -⟩ := about
        cases told
        exact ⟨place, Stop.standsAt_of_kind ErrorKind.noConfusion ErrorKind.noConfusion _⟩
  next =>
    split at refused
    next stop final ending =>
      cases refused
      have behind := reads.behind
      rw [ending] at behind
      exact ⟨behind, reads.stopped ending⟩
    next => cases refused

end Line

theorem TokenStream.readFrom_of_mem_lines (input : Cursor) :
    ∀ line ∈ (of input).lines, line.ReadFrom input := by
  refine Line.readFrom_of_mem_cut (fun found member => readsOn_behind member) ?_ ?_
  · have final := readsOn_final input
    unfold lastEnd
    cases (of input).stop? with
    | none => exact final
    | some stop => exact final
  · intro stop final ending
    obtain ⟨stopped, rfl⟩ := lastEnd_eq_stopped_iff.1 ending
    cases stop with
    | fault fault => exact Stop.standsAt_fault fault _
    | error error => exact Stop.standsAt_error (position_of_stop? stopped)

/-- Lines that are read lead on to where one of them ends. -/
theorem ReadsLines.readsOn {session last : Session} {lines : List Line} {rules : List (Option Rule)}
    (reads : ReadsLines session lines rules last) (start : input.ReadsOn session.input)
    (placed : ∀ line ∈ lines, line.ReadFrom input) : input.ReadsOn last.input := by
  induction reads with
  | nil => exact start
  | cons stated _ ih =>
    obtain ⟨first, others⟩ := List.forall_mem_cons.1 placed
    exact ih first.behind others

end LexSpec
