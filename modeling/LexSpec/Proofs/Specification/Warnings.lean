import LexSpec.Proofs.Specification.Acceptance

/-! # Rules, their start codes and their warnings

The rules of a specification come from its lines with rules, in their order. Each has the start code that the
lines before it leave, and each that matches the empty text without being that text itself is warned of, at the
first token of its expression. Nothing else is warned of: `warnings_of_readWith`.

* `Line.Means`: what the tokens of a line make it say.
* `ReadsLines.rules_and_warnings`: the rules and the warnings of a run over lines.
-/

namespace LexSpec

open Grammar

namespace Line

/-! ## Lines with rules -/

/-- The line begins with a name and a turnstile. -/
def isRule (line : Line) : Bool :=
  match line.words with
  | .word _ :: .turnstile :: _ => true
  | _ => false

/-- The number of a line that consists of a start code. -/
def startCode? (line : Line) : Option Nat :=
  match line.words with
  | [.startCode number] => some number
  | _ => none

/-- The last start code among lines. Without one it is zero. -/
def startCodeBehind (lines : List Line) : Nat := (lines.filterMap startCode?).getLast?.getD 0

/-- The lines with rules, each with all lines in front of it. -/
def withRules (before : List Line) : List Line → List (List Line × Line)
  | [] => []
  | line :: rest =>
    if line.isRule then (before, line) :: withRules (before ++ [line]) rest
    else withRules (before ++ [line]) rest

/-- A line, with the lines in front of it, declares a rule: it has the name of the rule at the place of the
    rule, and the last start code in front of it is that of the rule. -/
structure Declares (place : List Line × Line) (rule : Rule) : Prop where
  name : ∃ body, place.2.words = .word rule.name :: .turnstile :: body
  position : place.2.tokens.head?.map (·.position) = some rule.position
  startCode : rule.startCode = startCodeBehind place.1

/-- The warning of a rule, at the first token behind the turnstile of its line. -/
def Warns (line : Line) (rule : Rule) (warning : Warning) : Prop :=
  ∃ name turnstile first rest, line.tokens = name :: turnstile :: first :: rest ∧
    turnstile.token = .turnstile ∧ warning = .nullableRegex first.position rule.regex.text ∧
    warning.position = first.position ∧
    warning.message = "Regular expression " ++ rule.regex.text ++ " matches the empty string."

/-- What the tokens of a line make it say. -/
inductive Means (line : Line) : Statement → Prop where
  | blank (words : line.words = []) : Means line .blank
  | setDefinition {name : String} {set : CharSet} {rest : List Token}
      (words : line.words = .setName name :: rest) : Means line (.setDefinition name set)
  | regexDefinition {name : String} {regex : Regex} {rest : List Token}
      (words : line.words = .regexName name :: rest) : Means line (.regexDefinition name regex)
  | startCode {number : Nat} (words : line.words = [.startCode number]) : Means line (.startCode number)
  | rule {text : String} {regex : Regex} {name turnstile first : PlacedToken} {rest : List PlacedToken}
      (tokens : line.tokens = name :: turnstile :: first :: rest) (named : name.token = .word text)
      (signed : turnstile.token = .turnstile) : Means line (.rule text name.position regex first.position)

variable {line : Line} {scope : Scope} {statement : Statement}

theorem means_of_statement (stated : line.statement scope = .ok statement) : line.Means statement := by
  obtain ⟨reads, -⟩ := statement_eq_ok_iff.1 stated
  obtain ⟨tree, written, meaning⟩ := exists_tree_of_statement_ofTokens reads
  cases tree with
  | blank =>
    cases meaning
    exact .blank written.symm
  | setDefinition name items =>
    obtain ⟨set, -, rfl⟩ := Option.map_eq_some_iff.1 meaning
    exact .setDefinition written.symm
  | regexDefinition name body =>
    obtain ⟨regex, -, rfl⟩ := Option.map_eq_some_iff.1 meaning
    exact .regexDefinition written.symm
  | startCode number =>
    cases meaning
    exact .startCode written.symm
  | rule text body =>
    -- the places that the rule keeps are those of the first token and of the third
    obtain ⟨name, others, tokens, named, written⟩ := List.map_eq_cons_iff.1 written.symm
    obtain ⟨turnstile, others, rfl, signed, -⟩ := List.map_eq_cons_iff.1 written
    rw [tokens] at meaning
    cases others with
    | nil => cases meaning
    | cons first rest =>
      obtain ⟨regex, -, rfl⟩ := Option.map_eq_some_iff.1 meaning
      exact .rule tokens named signed

namespace Means

theorem startCodeAfter_eq (means : line.Means statement) (startCode : Nat) :
    statement.startCodeAfter startCode = line.startCode?.getD startCode := by
  cases means with
  | blank words | setDefinition words | regexDefinition words | startCode words =>
    simp only [startCode?, words]
    rfl
  | rule tokens named signed =>
    simp only [startCode?, words, tokens, List.map_cons, named]
    rfl

/-- A line without a rule gives none and is not warned of. -/
theorem rule?_eq_none (means : line.Means statement) (plain : line.isRule = false) :
    (∀ startCode, statement.rule? startCode = none) ∧ statement.warnings = [] := by
  cases means with
  | blank | setDefinition | regexDefinition | startCode => exact ⟨fun _ => rfl, rfl⟩
  | rule tokens named signed => simp [isRule, words, tokens, named, signed] at plain

end Means

theorem startCodeBehind_append (before : List Line) (line : Line) :
    startCodeBehind (before ++ [line]) = line.startCode?.getD (startCodeBehind before) := by
  unfold startCodeBehind
  rw [List.filterMap_append]
  cases code : line.startCode? with
  | none => simp [code]
  | some number => simp [code]

end Line

theorem Statement.warnings_rule (name : String) (position body : Position) (regex : Regex) :
    (rule name position regex body).warnings =
      if regex.nullable ∧ regex ≠ .empty then [.nullableRegex body regex.text] else [] := by
  have same : (!regex.isEmpty && regex.nullable) = true ↔ regex.nullable ∧ regex ≠ .empty := by
    rw [ne_eq, ← Regex.isEmpty_iff, Bool.and_eq_true, Bool.not_eq_true', Bool.not_eq_true]
    exact And.comm
  simp only [warnings, same]

/-! ## Runs over lines -/

theorem ReadsLines.rules_and_warnings {session last : Session} {lines before : List Line}
    {outcomes : List (Option Rule)} (reads : ReadsLines session lines outcomes last)
    (code : session.startCode = Line.startCodeBehind before) :
    List.Forall₂ Line.Declares (Line.withRules before lines) outcomes.reduceOption ∧
      ∃ warnings, last.warnings = session.warnings ++ warnings ∧
        List.Forall₂ (fun (place, rule) warning => place.2.Warns rule warning)
          (((Line.withRules before lines).zip outcomes.reduceOption).filter fun (_, rule) =>
            rule.regex.nullable ∧ rule.regex ≠ .empty)
          warnings := by
  induction reads generalizing before with
  | nil => exact ⟨.nil, [], (List.append_nil _).symm, .nil⟩
  | @cons session last line lines outcomes statement stated _ ih =>
    have means := Line.means_of_statement stated
    have next : (session.afterLine line statement).startCode = Line.startCodeBehind (before ++ [line]) := by
      rw [Line.startCodeBehind_append, ← code, ← means.startCodeAfter_eq]
      rfl
    obtain ⟨rules, warnings, more, warned⟩ := ih next
    have logged : last.warnings = session.warnings ++ (statement.warnings ++ warnings) := by
      rw [more, ← List.append_assoc]
      rfl
    cases shape : line.isRule with
    | false =>
      obtain ⟨noRule, noWarning⟩ := means.rule?_eq_none shape
      rw [noWarning] at logged
      simp only [Line.withRules, shape, noRule, List.reduceOption_cons_of_none]
      exact ⟨rules, warnings, logged, warned⟩
    | true =>
      cases means with
      | blank words | setDefinition words | regexDefinition words | startCode words =>
        simp [Line.isRule, words] at shape
      | @rule text regex name turnstile first rest tokens named signed =>
        have declares : Line.Declares (before, line) ⟨session.startCode, text, regex, name.position⟩ := by
          refine ⟨⟨first.token :: rest.map (·.token), ?_⟩, ?_, code⟩
          · simp [Line.words, tokens, named, signed]
          · simp [tokens]
        rw [Statement.warnings_rule] at logged
        simp only [Line.withRules, shape, if_true, Statement.rule?, List.reduceOption_cons_of_some,
          List.zip_cons_cons, List.filter_cons, decide_eq_true_eq]
        refine ⟨.cons declares rules, _, logged, ?_⟩
        split
        · exact .cons ⟨name, turnstile, first, rest, tokens, signed, rfl, rfl, rfl⟩ warned
        · exact warned

/-- The rules of a specification are, in their order, those of its lines with rules, each with the last start
    code in front of its line. The warnings are, in the same order, those of the rules that match the empty
    text without being the empty text itself. -/
theorem warnings_of_readWith {source : String} {scope : Scope} {specification : Specification}
    (reads : Specification.readWith source scope = .ok specification) :
    List.Forall₂ Line.Declares (Line.withRules [] (TokenStream.of (.ofString source)).lines)
        specification.rules ∧
      List.Forall₂ (fun (place, rule) warning => place.2.Warns rule warning)
        (((Line.withRules [] (TokenStream.of (.ofString source)).lines).zip specification.rules).filter
          fun (_, rule) => rule.regex.nullable ∧ rule.regex ≠ .empty)
        specification.warnings := by
  obtain ⟨outcomes, last, run, rfl⟩ := readWith_eq_ok_iff.1 reads
  have none : (Session.start source scope).startCode = Line.startCodeBehind [] := rfl
  obtain ⟨rules, warnings, same, warned⟩ := run.rules_and_warnings none
  obtain rfl : last.warnings = warnings := same
  exact ⟨rules, warned⟩

theorem warnings_of_readWith_nullable :
    ∃ specification,
      Specification.readWith "<3>\nx :- a*\n%m = b?\n<7>\ny :- ()\nz :- (%m|c)" ∅ = .ok specification ∧
      List.Forall₂ Line.Declares
        (Line.withRules []
          (TokenStream.of (.ofString "<3>\nx :- a*\n%m = b?\n<7>\ny :- ()\nz :- (%m|c)")).lines)
        specification.rules ∧
      specification.rules.map (·.startCode) = [3, 7, 7] ∧
      specification.warnings = [.nullableRegex ⟨9, 2, 6⟩ "a*", .nullableRegex ⟨37, 6, 6⟩ "(b?|c)"] :=
  have reads : Specification.readWith "<3>\nx :- a*\n%m = b?\n<7>\ny :- ()\nz :- (%m|c)" ∅ =
      .ok ⟨[⟨3, "x", .star (.char 'a'), ⟨4, 2, 1⟩⟩, ⟨7, "y", .empty, ⟨24, 5, 1⟩⟩,
          ⟨7, "z", .alt (.optional (.char 'b')) (.char 'c'), ⟨32, 6, 1⟩⟩],
        [.nullableRegex ⟨9, 2, 6⟩ "a*", .nullableRegex ⟨37, 6, 6⟩ "(b?|c)"]⟩ := by decide +kernel
  ⟨_, reads, (warnings_of_readWith reads).1, rfl, rfl⟩

end LexSpec
