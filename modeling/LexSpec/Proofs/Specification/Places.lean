import LexSpec.Proofs.Specification.Diagnostics
import LexSpec.Proofs.Specification.Warnings
import LexSpec.Proofs.Token.Layout

/-! # Where rules, warnings and errors are

The places that are told of a text are places in it. A rule is where its name is, and rules and warnings come
in the order of their places: each warning behind its own rule and before the next one (`Told`). An error of a
set stands before its name with the sign, an error of an expression has no place, and no other error stands
outside of the text: `places_of_readWith`.

All of it comes from the tokens, which lie in the text one behind the other (`TokenStream.ascending_tokens`).
-/

namespace LexSpec

/-- The position is the place behind a part of the source, and a text comes directly behind that part. -/
def TextAt (source text : String) (position : Position) : Prop :=
  ∃ front back, source.toList = front ++ (text.toList ++ back) ∧
    Position.start.advanceOver front = .ok position

/-! ## Tokens in their places -/

namespace Tiles.Placed

variable {before follows : List Char} {tiles : List Tile} {found : List PlacedToken}

theorem le_offset (placed : Placed before tiles found) :
    ∀ token ∈ found, before.length ≤ token.position.offset := by
  induction placed with
  | nil => simp
  | cons _ _ position _ _ ih =>
    refine List.forall_mem_cons.2 ⟨?_, fun token member => ?_⟩
    · rw [Position.offset_of_advanceOver position, List.length_append]
      exact Nat.le_add_right ..
    · have further := ih token member
      rw [List.length_append] at further
      exact Nat.le_of_add_right_le further

theorem ascending (placed : Placed before tiles found) (proper : ∀ tile ∈ tiles, tile.Proper) :
    found.Pairwise fun token next => token.position < next.position := by
  induction placed with
  | nil => exact .nil
  | cons _ _ position _ rest ih =>
    obtain ⟨⟨spells, -⟩, others⟩ := List.forall_mem_cons.1 proper
    refine List.pairwise_cons.2 ⟨fun next member => Position.lt_of_offset_lt ?_, ih others⟩
    -- the next token lies behind the spelling of this one, which is not empty
    have here := Position.offset_of_advanceOver position
    have there := rest.le_offset next member
    have nonempty := List.length_pos_iff.2 spells.ne_nil
    simp only [Tile.text, List.length_append] at here there
    omega

theorem textAt {source : String} (placed : Placed before tiles found)
    (proper : ∀ tile ∈ tiles, tile.Proper) (whole : source.toList = before ++ (text tiles ++ follows)) :
    ∀ token ∈ found, TextAt source token.text token.position ∧ Spells token.token token.text.toList := by
  induction placed with
  | nil => simp
  | @cons before tile tiles first found token spelled position _ _ ih =>
    obtain ⟨⟨spells, -⟩, others⟩ := List.forall_mem_cons.1 proper
    refine List.forall_mem_cons.2 ⟨⟨⟨before ++ tile.gap, text tiles ++ follows, ?_, position⟩, ?_⟩, ih others ?_⟩
    · rw [whole, text_cons, spelled, String.toList_ofList]
      simp only [List.append_assoc]
    · rw [token, spelled, String.toList_ofList]
      exact spells
    · rw [whole, text_cons, Tile.text]
      simp only [List.append_assoc]

end Tiles.Placed

namespace TokenStream

variable {source : String}

theorem exists_placed (source : String) :
    ∃ tiles follows, (∀ tile ∈ tiles, tile.Proper) ∧ source.toList = Tiles.text tiles ++ follows ∧
      Tiles.Placed [] tiles (of (.ofString source)).tokens := by
  obtain ⟨stop, tokenises, -⟩ := exists_tokenises (.ofString source)
  obtain ⟨tiles, proper, -, reads, placed⟩ := tokenises.exists_tiles advanceOver_start
  exact ⟨tiles, stop.rest, proper, reads.rest_eq, placed⟩

theorem ascending_tokens (source : String) :
    (of (.ofString source)).tokens.Pairwise fun token next => token.position < next.position := by
  obtain ⟨tiles, follows, proper, -, placed⟩ := exists_placed source
  exact placed.ascending proper

theorem textAt_of_mem {found : PlacedToken} (member : found ∈ (of (.ofString source)).tokens) :
    TextAt source found.text found.position ∧ Spells found.token found.text.toList := by
  obtain ⟨tiles, follows, proper, whole, placed⟩ := exists_placed source
  exact placed.textAt proper whole found member

theorem textAt_of_word {found : PlacedToken} {name : String}
    (member : found ∈ (of (.ofString source)).tokens) (word : found.token = .word name) :
    TextAt source name found.position := by
  obtain ⟨place, spells⟩ := textAt_of_mem member
  rw [word] at spells
  rwa [String.toList_inj.1 spells.eq_of_word] at place

theorem textAt_of_setName {found : PlacedToken} {name : String}
    (member : found ∈ (of (.ofString source)).tokens) (named : found.token = .setName name) :
    TextAt source ("$" ++ name) found.position := by
  obtain ⟨place, spells⟩ := textAt_of_mem member
  rw [named] at spells
  rwa [String.toList_inj.1 spells.eq_of_setName] at place

end TokenStream

/-! ## Rules and warnings in their order -/

/-- Rules and warnings, each rule with its own warning if it is warned of. A warning is behind its rule, and
    both are before the next rule. -/
structure Told (rules : List Rule) (warnings : List Warning) (told : List (Rule × Option Warning)) : Prop where
  rules : rules = told.map (·.1)
  warnings : warnings = told.filterMap (·.2)
  warned : ∀ pair ∈ told, pair.2.isSome ↔ pair.1.regex.nullable ∧ pair.1.regex ≠ .empty
  own : ∀ pair ∈ told, ∀ warning ∈ pair.2,
    warning = .nullableRegex warning.position pair.1.regex.text ∧ pair.1.position < warning.position
  ordered : told.Pairwise fun pair next =>
    pair.1.position < next.1.position ∧ ∀ warning ∈ pair.2, warning.position < next.1.position

namespace Told

variable {rules : List Rule} {warnings : List Warning} {told : List (Rule × Option Warning)}

theorem nil : Told [] [] [] := ⟨rfl, rfl, by simp, by simp, .nil⟩

theorem cons {rule : Rule} {body : Position} (rest : Told rules warnings told)
    (behind : rule.position < body) (before : ∀ next ∈ told, body < next.1.position) :
    ∃ warning?, Told (rule :: rules)
      ((if rule.regex.nullable ∧ rule.regex ≠ .empty then [.nullableRegex body rule.regex.text] else []) ++
        warnings) ((rule, warning?) :: told) := by
  by_cases nullable : rule.regex.nullable ∧ rule.regex ≠ .empty
  · refine ⟨some (.nullableRegex body rule.regex.text), by rw [rest.rules]; rfl, ?_, ?_, ?_, ?_⟩
    · rw [if_pos nullable, rest.warnings]
      rfl
    · exact List.forall_mem_cons.2 ⟨iff_of_true rfl nullable, rest.warned⟩
    · refine List.forall_mem_cons.2 ⟨fun warning same => ?_, rest.own⟩
      cases same
      exact ⟨rfl, behind⟩
    · refine List.pairwise_cons.2 ⟨fun next member => ?_, rest.ordered⟩
      refine ⟨Position.lt_trans behind (before next member), fun warning same => ?_⟩
      cases same
      exact before next member
  · refine ⟨none, by rw [rest.rules]; rfl, ?_, ?_, ?_, ?_⟩
    · rw [if_neg nullable, rest.warnings]
      rfl
    · exact List.forall_mem_cons.2 ⟨iff_of_false Bool.false_ne_true nullable, rest.warned⟩
    · exact List.forall_mem_cons.2 ⟨by simp, rest.own⟩
    · refine List.pairwise_cons.2 ⟨fun next member => ?_, rest.ordered⟩
      exact ⟨Position.lt_trans behind (before next member), by simp⟩

theorem ascending_rules (told' : Told rules warnings told) :
    rules.Pairwise fun rule next => rule.position < next.position := by
  rw [told'.rules, List.pairwise_map]
  exact told'.ordered.imp And.left

/-- Between two warnings lies the rule of the second one. -/
theorem ascending_warnings (told' : Told rules warnings told) :
    warnings.Pairwise fun warning next => warning.position < next.position := by
  rw [told'.warnings, List.pairwise_filterMap]
  refine told'.ordered.imp_of_mem fun {pair next} _ member both warning here other there => ?_
  exact Position.lt_trans (both.2 warning here) (told'.own next member other there).2

end Told

theorem ReadsLines.exists_told {session last : Session} {lines : List Line} {outcomes : List (Option Rule)}
    (reads : ReadsLines session lines outcomes last)
    (ascending : (lines.flatMap Line.tokens).Pairwise fun token next => token.position < next.position) :
    ∃ told warnings, Told outcomes.reduceOption warnings told ∧
      last.warnings = session.warnings ++ warnings ∧
      ∀ pair ∈ told, ∃ token ∈ lines.flatMap Line.tokens,
        token.token = .word pair.1.name ∧ token.position = pair.1.position := by
  induction reads with
  | nil => exact ⟨[], [], .nil, (List.append_nil _).symm, by simp⟩
  | @cons session last line lines outcomes statement stated _ ih =>
    rw [List.flatMap_cons] at ascending ⊢
    obtain ⟨inside, behind, across⟩ := List.pairwise_append.1 ascending
    obtain ⟨told, warnings, rest, given, placed⟩ := ih behind
    have logged : last.warnings = session.warnings ++ (statement.warnings ++ warnings) := by
      rw [given, ← List.append_assoc]
      rfl
    have others : ∀ pair ∈ told, ∃ token ∈ line.tokens ++ lines.flatMap Line.tokens,
        token.token = .word pair.1.name ∧ token.position = pair.1.position := by
      intro pair member
      obtain ⟨token, among, same⟩ := placed pair member
      exact ⟨token, List.mem_append_right _ among, same⟩
    cases Line.means_of_statement stated with
    | blank | setDefinition | regexDefinition | startCode => exact ⟨told, warnings, rest, logged, others⟩
    | @rule text regex name turnstile first _ tokens named _ =>
      rw [tokens] at inside across
      have ahead : name.position < first.position :=
        (List.pairwise_cons.1 inside).1 first (by simp)
      have before : ∀ next ∈ told, first.position < next.1.position := by
        intro next member
        obtain ⟨token, among, -, place⟩ := placed next member
        rw [← place]
        exact across first (by simp) token among
      obtain ⟨warning?, whole⟩ :=
        @Told.cons _ _ _ ⟨session.startCode, text, regex, name.position⟩ first.position rest ahead before
      rw [Statement.warnings_rule] at logged
      refine ⟨_, _, whole, logged, List.forall_mem_cons.2 ⟨⟨name, ?_, named, rfl⟩, others⟩⟩
      simp [tokens]

/-- Of a text that can be read, each rule is at a word, its name. -/
theorem exists_told_of_readWith {source : String} {scope : Scope} {specification : Specification}
    (reads : Specification.readWith source scope = .ok specification) :
    ∃ told, Told specification.rules specification.warnings told ∧
      ∀ pair ∈ told, ∃ token ∈ (TokenStream.of (.ofString source)).tokens,
        token.token = .word pair.1.name ∧ token.position = pair.1.position := by
  obtain ⟨outcomes, last, run, rfl⟩ := readWith_eq_ok_iff.1 reads
  have tokens := TokenStream.sublist_tokens_lines (TokenStream.of (.ofString source))
  obtain ⟨told, warnings, whole, given, placed⟩ :=
    run.exists_told ((TokenStream.ascending_tokens source).sublist tokens)
  obtain rfl : last.warnings = warnings := given
  refine ⟨told, whole, fun pair member => ?_⟩
  obtain ⟨token, inside, named⟩ := placed pair member
  exact ⟨token, tokens.subset inside, named⟩

/-! ## Errors -/

section Errors

variable {source : String} {scope : Scope} {error : TextError}

/-- The error of a text misses the definition of a set at a place of its name, or that of an expression, or it
    stands where the reading has come to. -/
theorem cases_of_readWith_error (fails : Specification.readWith source scope = .error (.error error)) :
    (∃ name position, error = .unknownSet position name ∧ TextAt source ("$" ++ name) position) ∨
      (∃ name, error = .unknownRegex name) ∨
      (error.kind = .user ∨ error.kind = .lexical) ∧ ∃ input, (Cursor.ofString source).ReadsOn input ∧
        error.position = some input.position := by
  cases Diagnosis.of_readWith fails with
  | unexpected member => exact .inr (.inr ⟨.inl rfl, _, TokenStream.readsOn_behind member, rfl⟩)
  | endOfFile => exact .inr (.inr ⟨.inl rfl, _, TokenStream.readsOn_final _, rfl⟩)
  | unknownSet member named => exact .inl ⟨_, _, rfl, TokenStream.textAt_of_setName member named⟩
  | unknownRegex _ _ => exact .inr (.inl ⟨_, rfl⟩)
  | lexical => exact .inr (.inr ⟨.inr rfl, _, TokenStream.readsOn_final _, rfl⟩)

/-- A place that an error tells is the place behind a part of the text. -/
theorem exists_front_of_readWith_error {position : Position}
    (fails : Specification.readWith source scope = .error (.error error))
    (place : error.position = some position) :
    ∃ front back, source.toList = front ++ back ∧ Position.start.advanceOver front = .ok position := by
  rcases cases_of_readWith_error fails with
    ⟨name, told, rfl, front, back, text, reaches⟩ | ⟨name, rfl⟩ | ⟨-, input, on, told⟩
  · cases place
    exact ⟨front, _, text, reaches⟩
  · cases place
  · obtain ⟨consumed, holds⟩ := on.exists_consumed
    cases told.symm.trans place
    exact ⟨consumed, input.rest, holds.text, holds.position⟩

end Errors

/-- The places that are told of a text are places in it. If the text can be read, each rule is where its name
    is, and rules and warnings are told in the order of their places, each warning between its own rule and the
    next one. If it cannot be read, a missing expression is told without a place and a missing set at its name
    with the sign, and the place of no other error is behind the end of the text. -/
theorem places_of_readWith {source : String} (small : source.length < 2 ^ 28) (scope : Scope) :
    (∀ specification, Specification.readWith source scope = .ok specification →
      (∀ rule ∈ specification.rules, TextAt source rule.name rule.position) ∧
      (specification.rules.Pairwise fun rule next => rule.position < next.position) ∧
      (specification.warnings.Pairwise fun warning next => warning.position < next.position) ∧
      ∃ told, Told specification.rules specification.warnings told) ∧
    ∀ error, Specification.readWith source scope = .error (.error error) →
      (error.kind = .unknownRegex → error.position = none) ∧
      (error.kind = .unknownSet → ∃ name position, error.position = some position ∧
        error.message = "unknown set macro: $" ++ name ∧ TextAt source ("$" ++ name) position) ∧
      ∀ position, error.position = some position → ∃ front back final, source.toList = front ++ back ∧
        Position.start.advanceOver front = .ok position ∧
        Position.start.advanceOver source.toList = .ok final ∧ position ≤ final := by
  constructor
  · intro specification reads
    obtain ⟨told, whole, placed⟩ := exists_told_of_readWith reads
    refine ⟨fun rule member => ?_, whole.ascending_rules, whole.ascending_warnings, told, whole⟩
    rw [whole.rules] at member
    obtain ⟨pair, among, rfl⟩ := List.mem_map.1 member
    obtain ⟨token, inside, word, place⟩ := placed pair among
    rw [← place]
    exact TokenStream.textAt_of_word inside word
  · intro error fails
    refine ⟨fun kind => ?_, fun kind => ?_, fun position place => ?_⟩
    · rcases cases_of_readWith_error fails with ⟨name, place, rfl, -⟩ | ⟨name, rfl⟩ | ⟨other | other, -⟩
      · cases kind
      · rfl
      · cases kind.symm.trans other
      · cases kind.symm.trans other
    · rcases cases_of_readWith_error fails with ⟨name, place, rfl, there⟩ | ⟨name, rfl⟩ | ⟨other | other, -⟩
      · exact ⟨name, place, rfl, rfl, there⟩
      · cases kind
      · cases kind.symm.trans other
      · cases kind.symm.trans other
    · obtain ⟨front, back, text, reaches⟩ := exists_front_of_readWith_error fails place
      have room : Position.Room [] .start source.toList.length := Cursor.hasRoom_ofString small
      obtain ⟨final, whole⟩ := room.exists_advanceOver
      exact ⟨front, back, final, text, reaches, whole, Position.le_of_advanceOver reaches (text ▸ whole)⟩

theorem places_of_readWith_two_rules :
    "x :- a*\ny :- $d".length < 2 ^ 28 ∧
      (∃ specification told, Specification.readWith "x :- a*\ny :- $d" (Scope.empty.defineSet "d" .any) =
          .ok specification ∧
        specification.rules.map (·.position) = [⟨0, 1, 1⟩, ⟨8, 2, 1⟩] ∧
        specification.warnings = [.nullableRegex ⟨5, 1, 6⟩ "a*"] ∧
        Told specification.rules specification.warnings told) ∧
      (∃ error, Specification.readWith "x :- a*\ny :- $d" ∅ = .error (.error error) ∧
        error.kind = .unknownSet ∧ error.position = some ⟨13, 2, 6⟩ ∧
        error.message = "unknown set macro: $d" ∧ TextAt "x :- a*\ny :- $d" "$d" ⟨13, 2, 6⟩) ∧
      ∃ error, Specification.readWith "x :- %d" ∅ = .error (.error error) ∧
        error.kind = .unknownRegex ∧ error.position = none := by
  have small : "x :- a*\ny :- $d".length < 2 ^ 28 := by decide
  have reads : Specification.readWith "x :- a*\ny :- $d" (Scope.empty.defineSet "d" .any) =
      .ok ⟨[⟨0, "x", .star (.char 'a'), ⟨0, 1, 1⟩⟩, ⟨0, "y", .chars .any, ⟨8, 2, 1⟩⟩],
        [.nullableRegex ⟨5, 1, 6⟩ "a*"]⟩ := by decide +kernel
  have fails : Specification.readWith "x :- a*\ny :- $d" ∅ =
      .error (.error ⟨.unknownSet, some ⟨13, 2, 6⟩, "unknown set macro: $d"⟩) := by decide +kernel
  have fails' : Specification.readWith "x :- %d" ∅ =
      .error (.error ⟨.unknownRegex, none, "unknown regex macro: %d"⟩) := by decide +kernel
  obtain ⟨-, -, -, told, whole⟩ := (places_of_readWith small _).1 _ reads
  obtain ⟨-, missing, -⟩ := (places_of_readWith small ∅).2 _ fails
  obtain ⟨name, position, place, message, there⟩ := missing rfl
  cases place
  have same : "unknown set macro: $" ++ "d" = "unknown set macro: $" ++ name := message
  obtain rfl := (String.append_right_inj _).1 same
  obtain ⟨unplaced, -⟩ := (places_of_readWith (by decide) ∅).2 _ fails'
  exact ⟨small, ⟨_, told, reads, rfl, rfl, whole⟩, ⟨_, fails, rfl, rfl, rfl, there⟩, _, fails', rfl, unplaced rfl⟩

end LexSpec
