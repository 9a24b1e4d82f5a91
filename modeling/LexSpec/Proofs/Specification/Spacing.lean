import LexSpec.Proofs.Specification.Totality

/-! # Spacing does not matter

What a text says depends on its tokens alone. Two texts with the same tokens, spelled the same, are read with
the same result, whatever blanks and comments stand between the tokens: `readWith_of_same_tokens`. Only the
places that are told are other ones.
-/

namespace LexSpec

/-- Positions that need not have anything to do with each other. -/
def Anywhere (_ _ : Position) : Prop := True

variable {source other : String} {scope : Scope}

/-- Tokens with the same spelling are alike wherever they stand. -/
theorem PlacedToken.like_anywhere_of_map_eq {found found' : List PlacedToken}
    (same : found.map (fun token => (token.token, token.text)) =
      found'.map fun token => (token.token, token.text)) :
    List.Forall₂ (Like Anywhere) found found' := by
  rw [← List.forall₂_eq_eq_eq, List.forall₂_map_left_iff, List.forall₂_map_right_iff] at same
  refine same.imp fun token token' equal => ?_
  obtain ⟨tokens, texts⟩ := Prod.mk.inj equal
  exact ⟨tokens, texts, trivial, trivial⟩

theorem Rule.like_reduceOption {related : Position → Position → Prop} {rules rules' : List (Option Rule)}
    (alike : List.Forall₂ (Option.Rel (Rule.Like related)) rules rules') :
    List.Forall₂ (Rule.Like related) rules.reduceOption rules'.reduceOption := by
  induction alike with
  | nil => exact .nil
  | cons head _ ih =>
    cases head with
    | none => exact ih
    | some rule =>
      rw [List.reduceOption_cons_of_some, List.reduceOption_cons_of_some]
      exact .cons rule ih

theorem Warning.Like.message_eq {related : Position → Position → Prop} {warning warning' : Warning}
    (alike : warning.Like related warning') : warning.message = warning'.message := by
  cases alike with
  | nullableRegex => exact rfl

theorem Warning.map_message_of_like {related : Position → Position → Prop} {warnings warnings' : List Warning}
    (alike : List.Forall₂ (Warning.Like related) warnings warnings') :
    warnings.map (·.message) = warnings'.map (·.message) := by
  induction alike with
  | nil => rfl
  | cons head _ ih => rw [List.map_cons, List.map_cons, ih, head.message_eq]

/-- Texts whose lines are alike are read alike. -/
theorem readWith_of_lines_like {related : Position → Position → Prop}
    (alike : List.Forall₂ (Line.Like related) (TokenStream.of (.ofString source)).lines
      (TokenStream.of (.ofString other)).lines) (scope : Scope) :
    Agree (Stop.Like related)
      (fun specification specification' =>
        List.Forall₂ (Rule.Like related) specification.rules specification'.rules ∧
          List.Forall₂ (Warning.Like related) specification.warnings specification'.warnings)
      (Specification.readWith source scope) (Specification.readWith other scope) := by
  have sessions : (Session.start source scope).Like related [] (.start other scope) :=
    ⟨rfl, rfl, [], rfl, .nil⟩
  have results := sequence_agree alike sessions
  rw [readWith_eq, readWith_eq]
  generalize Step.sequence ((TokenStream.of (.ofString source)).lines.map Line.read) (.start source scope) =
    result at results ⊢
  generalize Step.sequence ((TokenStream.of (.ofString other)).lines.map Line.read) (.start other scope) =
    result' at results ⊢
  cases results with
  | error stops _ => exact .error stops
  | ok values sessions =>
    obtain ⟨given, shape, warnings⟩ := sessions.warnings
    rw [List.nil_append] at shape
    exact .ok ⟨Rule.like_reduceOption values, shape ▸ warnings⟩

/-- Two texts with the same tokens in the same spelling are both read, and then their rules and warnings agree
    in everything but their places, or both are refused, and then their errors do. -/
theorem readWith_of_same_tokens {named named' : Scope} {found found' : List PlacedToken}
    {given given' : List Warning} (tokens : Step.tokens.runOn source named = .ok (found, given))
    (tokens' : Step.tokens.runOn other named' = .ok (found', given'))
    (same : found.map (fun token => (token.token, token.text)) =
      found'.map fun token => (token.token, token.text)) :
    (∃ specification specification', Specification.readWith source scope = .ok specification ∧
      Specification.readWith other scope = .ok specification' ∧
      List.Forall₂ (fun rule rule' => rule.startCode = rule'.startCode ∧ rule.name = rule'.name ∧
        rule.regex = rule'.regex) specification.rules specification'.rules ∧
      List.Forall₂ (Warning.Like Anywhere) specification.warnings specification'.warnings ∧
      specification.warnings.map (·.message) = specification'.warnings.map (·.message)) ∨
    ∃ error error', Specification.readWith source scope = .error (.error error) ∧
      Specification.readWith other scope = .error (.error error') ∧ error.kind = error'.kind ∧
      error.message = error'.message ∧ error.position.isSome = error'.position.isSome := by
  obtain ⟨complete, rfl, -⟩ := tokens_runOn_eq_ok_iff.1 tokens
  obtain ⟨complete', rfl, -⟩ := tokens_runOn_eq_ok_iff.1 tokens'
  have ends : (TokenStream.of (.ofString source)).lastEnd.Like Anywhere
      (TokenStream.of (.ofString other)).lastEnd := by
    rw [TokenStream.lastEnd_eq_endOfFile_iff.2 ⟨complete, rfl⟩,
      TokenStream.lastEnd_eq_endOfFile_iff.2 ⟨complete', rfl⟩]
    exact .endOfFile trivial
  have results := readWith_of_lines_like
    (Line.cut_like (PlacedToken.like_anywhere_of_map_eq same) ends) scope
  cases read : Specification.readWith source scope with
  | ok specification =>
    cases read' : Specification.readWith other scope with
    | error stop =>
      rw [read, read'] at results
      cases results
    | ok specification' =>
      rw [read, read'] at results
      cases results with
      | ok values =>
        obtain ⟨rules, warnings⟩ := values
        refine .inl ⟨_, _, rfl, rfl, rules.imp fun rule rule' alike => ?_, warnings,
          Warning.map_message_of_like warnings⟩
        exact ⟨alike.startCode, alike.name, alike.regex⟩
  | error stop =>
    cases read' : Specification.readWith other scope with
    | ok specification' =>
      rw [read, read'] at results
      cases results
    | error stop' =>
      rw [read, read'] at results
      cases results with
      | error stops =>
        cases stops with
        | fault => cases complete.symm.trans (stop?_of_readWith_fault read)
        | @error e f alike =>
          refine .inr ⟨e, f, rfl, rfl, alike.kind, alike.message, ?_⟩
          have places := alike.position
          generalize e.position = place at places ⊢
          generalize f.position = place' at places ⊢
          cases places <;> rfl

theorem exists_tokens_of_words {words : List (Token × String)}
    (shown : (Step.tokens.runOn source scope).toOption.map (fun read =>
      (read.1.map fun token => (token.token, token.text), read.2)) = some (words, [])) :
    ∃ found, Step.tokens.runOn source scope = .ok (found, []) ∧
      found.map (fun token => (token.token, token.text)) = words := by
  cases tokens : Step.tokens.runOn source scope with
  | error stop =>
    rw [tokens] at shown
    cases shown
  | ok read =>
    obtain ⟨found, given⟩ := read
    rw [tokens] at shown
    obtain ⟨same, rfl⟩ := Prod.mk.inj (Option.some.inj shown)
    exact ⟨found, rfl, same⟩

theorem readWith_of_same_tokens_comment :
    ∃ found found' specification specification',
      Step.tokens.runOn "<3>  # nullable\n  x :- a *" ∅ = .ok (found, []) ∧
      Step.tokens.runOn "<3>\nx:-a*\t# stays" ∅ = .ok (found', []) ∧
      found.map (fun token => (token.token, token.text)) =
        found'.map (fun token => (token.token, token.text)) ∧
      Specification.readWith "<3>  # nullable\n  x :- a *" ∅ = .ok specification ∧
      Specification.readWith "<3>\nx:-a*\t# stays" ∅ = .ok specification' ∧
      List.Forall₂ (Warning.Like Anywhere) specification.warnings specification'.warnings ∧
      specification.warnings ≠ specification'.warnings := by
  obtain ⟨found, tokens, same⟩ := @exists_tokens_of_words "<3>  # nullable\n  x :- a *" ∅
    [(.startCode 3, "<3>"), (.newline, "\n"), (.word "x", "x"), (.turnstile, ":-"), (.word "a", "a"), (.star, "*")]
    (by decide +kernel)
  obtain ⟨found', tokens', same'⟩ := @exists_tokens_of_words "<3>\nx:-a*\t# stays" ∅
    [(.startCode 3, "<3>"), (.newline, "\n"), (.word "x", "x"), (.turnstile, ":-"), (.word "a", "a"), (.star, "*")]
    (by decide +kernel)
  have same := same.trans same'.symm
  have reads : Specification.readWith "<3>  # nullable\n  x :- a *" ∅ =
      .ok ⟨[⟨3, "x", .star (.char 'a'), ⟨18, 2, 3⟩⟩], [.nullableRegex ⟨23, 2, 8⟩ "a*"]⟩ := by decide +kernel
  have reads' : Specification.readWith "<3>\nx:-a*\t# stays" ∅ =
      .ok ⟨[⟨3, "x", .star (.char 'a'), ⟨4, 2, 1⟩⟩], [.nullableRegex ⟨7, 2, 4⟩ "a*"]⟩ := by decide +kernel
  obtain ⟨specification, specification', given, given', -, warnings, -⟩ | ⟨error, _, fails, -⟩ :=
    @readWith_of_same_tokens _ _ ∅ _ _ _ _ _ _ tokens tokens' same
  · cases given.symm.trans reads
    cases given'.symm.trans reads'
    exact ⟨found, found', _, _, tokens, tokens', same, given, given', warnings, by decide⟩
  · cases reads.symm.trans fails

end LexSpec
