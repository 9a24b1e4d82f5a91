import Mathlib.Data.List.ReduceOption
import LexSpec.Proofs.Definitions
import LexSpec.Proofs.Grammar.Lines
import LexSpec.Proofs.Line.Cutting
import LexSpec.Proofs.Line.Reading

/-! # Which texts are specifications

A text is read as a specification exactly when it has tokens, each of its lines has one of the five
forms, and each name is defined before the line that uses it: `exists_specification_iff`. The expressions
of a text that is read have one syntax tree each, and it is the value of that tree that the reader gives
to a rule or to a name: `unique_derivation_of_readWith`.
-/

namespace LexSpec

open Grammar

/-- Every name with a sign that is used behind the first token of a line is known beforehand or defined
    by an earlier line. -/
def DefinedBeforeUse (sign : String → Token) (known : String → Prop) (lines : List (List Token)) : Prop :=
  ∀ earlier line later, lines = earlier ++ line :: later → ∀ name, sign name ∈ line.tail →
    known name ∨ ∃ body, sign name :: .equals :: body ∈ earlier

/-- Lines of tokens that can be read: each has the form of a line, and names are defined before use. -/
structure WellFormed (scope : Scope) (lines : List (List Token)) : Prop where
  form : ∀ line ∈ lines, ∃ tree : LineTree, tree.tokens = line
  sets : DefinedBeforeUse .setName (fun name => scope.sets.contains name) lines
  regexes : DefinedBeforeUse .regexName (fun name => scope.regexes.contains name) lines

theorem definedBeforeUse_nil (sign : String → Token) (known : String → Prop) :
    DefinedBeforeUse sign known [] := by
  intro earlier line later cut
  simp at cut

theorem definedBeforeUse_cons_iff {sign : String → Token} {known behind : String → Prop}
    {line : List Token} {lines : List (List Token)}
    (next : ∀ name, behind name ↔ known name ∨ ∃ body, line = sign name :: .equals :: body) :
    DefinedBeforeUse sign known (line :: lines) ↔
      (∀ name, sign name ∈ line.tail → known name) ∧ DefinedBeforeUse sign behind lines := by
  constructor
  · intro defined
    refine ⟨fun name member => ?_, ?_⟩
    · simpa using defined [] line lines rfl name member
    · rintro earlier other later rfl name member
      rcases defined (line :: earlier) other later rfl name member with before | ⟨body, definition⟩
      · exact .inl ((next name).2 (.inl before))
      · rcases List.mem_cons.1 definition with here | before
        · exact .inl ((next name).2 (.inr ⟨body, here.symm⟩))
        · exact .inr ⟨body, before⟩
  · rintro ⟨first, rest⟩ earlier other later cut name member
    rcases List.cons_eq_append_iff.1 cut with ⟨rfl, here⟩ | ⟨earlier, rfl, rfl⟩
    · cases here
      exact .inl (first name member)
    · rcases rest earlier other later rfl name member with before | ⟨body, definition⟩
      · rcases (next name).1 before with outside | ⟨body, rfl⟩
        · exact .inl outside
        · exact .inr ⟨body, List.mem_cons_self ..⟩
      · exact .inr ⟨body, List.mem_cons_of_mem _ definition⟩

theorem forall_known_iff {scope : Scope} {tokens : List Token} :
    (∀ token ∈ tokens, Known scope token) ↔
      (∀ name, .setName name ∈ tokens → scope.sets.contains name) ∧
        ∀ name, .regexName name ∈ tokens → scope.regexes.contains name := by
  constructor
  · exact fun known => ⟨fun name => known (.setName name), fun name => known (.regexName name)⟩
  · rintro ⟨sets, regexes⟩ token member
    cases token with
    | setName name => exact sets name member
    | regexName name => exact regexes name member
    | _ => trivial

/-- A line is read when it is not broken off, has the form of a line and uses known names only. -/
theorem exists_statement_iff {line : Line} {scope : Scope} :
    (∃ statement, line.statement scope = .ok statement) ↔
      (∀ stop final, line.ending ≠ .stopped stop final) ∧
        (∃ tree : LineTree, tree.tokens = line.words) ∧ ∀ token ∈ line.words.tail, Known scope token := by
  constructor
  · rintro ⟨statement, stated⟩
    obtain ⟨reads, complete⟩ := Line.statement_eq_ok_iff.1 stated
    obtain ⟨tree, written, meaning⟩ := exists_tree_of_statement_ofTokens reads
    have known := (LineTree.exists_statement_iff written).1 ⟨statement, meaning⟩
    rw [written] at known
    exact ⟨complete, ⟨tree, written⟩, known⟩
  · rintro ⟨complete, ⟨tree, written⟩, known⟩
    rw [← written] at known
    obtain ⟨statement, meaning⟩ := (LineTree.exists_statement_iff written).2 known
    exact ⟨statement, Line.statement_eq_ok_iff.2
      ⟨LineTree.ofTokens_eq_ok meaning written.symm, complete⟩⟩

theorem contains_scopeAfter {line : Line} {scope : Scope} {statement : Statement}
    (stated : line.statement scope = .ok statement) :
    (∀ name, (statement.scopeAfter scope).sets.contains name ↔
        scope.sets.contains name ∨ ∃ body, line.words = .setName name :: .equals :: body) ∧
      ∀ name, (statement.scopeAfter scope).regexes.contains name ↔
        scope.regexes.contains name ∨ ∃ body, line.words = .regexName name :: .equals :: body := by
  obtain ⟨reads, -⟩ := Line.statement_eq_ok_iff.1 stated
  obtain ⟨tree, written, meaning⟩ := exists_tree_of_statement_ofTokens reads
  rw [Line.words, ← written]
  cases tree with
  | blank | startCode number =>
    cases meaning
    simp [LineTree.tokens, Statement.scopeAfter]
  | setDefinition defined items =>
    obtain ⟨set, -, rfl⟩ := Option.map_eq_some_iff.1 meaning
    refine ⟨fun name => ?_, by simp [LineTree.tokens, Statement.scopeAfter, Scope.defineSet]⟩
    rw [Statement.scopeAfter, Scope.defineSet, Definitions.contains_insert, or_comm]
    refine or_congr_right ⟨?_, ?_⟩
    · rintro rfl
      exact ⟨_, rfl⟩
    · rintro ⟨behind, same⟩
      cases same
      rfl
  | regexDefinition defined body =>
    obtain ⟨regex, -, rfl⟩ := Option.map_eq_some_iff.1 meaning
    refine ⟨by simp [LineTree.tokens, Statement.scopeAfter, Scope.defineRegex], fun name => ?_⟩
    rw [Statement.scopeAfter, Scope.defineRegex, Definitions.contains_insert, or_comm]
    refine or_congr_right ⟨?_, ?_⟩
    · rintro rfl
      exact ⟨_, rfl⟩
    · rintro ⟨behind, same⟩
      cases same
      rfl
  | rule name body =>
    simp only [LineTree.statement?] at meaning
    split at meaning
    next position second start rest places =>
      obtain ⟨regex, -, rfl⟩ := Option.map_eq_some_iff.1 meaning
      simp [LineTree.tokens, Statement.scopeAfter]
    next => cases meaning

/-- Lines are read from a session exactly when none is broken off and they are well formed. -/
theorem exists_readsLines_iff {session : Session} {lines : List Line} :
    (∃ rules last, ReadsLines session lines rules last) ↔
      (∀ line ∈ lines, ∀ stop final, line.ending ≠ .stopped stop final) ∧
        WellFormed session.scope (lines.map Line.words) := by
  induction lines generalizing session with
  | nil =>
    refine ⟨fun _ => ⟨by simp, by simp, definedBeforeUse_nil _ _, definedBeforeUse_nil _ _⟩, fun _ => ?_⟩
    exact ⟨[], session, .nil⟩
  | cons line lines ih =>
    constructor
    · rintro ⟨rules, last, reads⟩
      cases reads with
      | @cons _ _ _ _ rules statement stated rest =>
        -- the first line counts with the names at its beginning, the others with those behind it
        obtain ⟨complete, tree, known⟩ := exists_statement_iff.1 ⟨statement, stated⟩
        obtain ⟨sets, regexes⟩ := contains_scopeAfter stated
        obtain ⟨knownSets, knownRegexes⟩ := forall_known_iff.1 known
        obtain ⟨others, form, setsBehind, regexesBehind⟩ := ih.1 ⟨rules, last, rest⟩
        refine ⟨List.forall_mem_cons.2 ⟨complete, others⟩, List.forall_mem_cons.2 ⟨tree, form⟩, ?_, ?_⟩
        · exact (definedBeforeUse_cons_iff sets).2 ⟨knownSets, setsBehind⟩
        · exact (definedBeforeUse_cons_iff regexes).2 ⟨knownRegexes, regexesBehind⟩
    · rintro ⟨complete, form, definedSets, definedRegexes⟩
      obtain ⟨complete, others⟩ := List.forall_mem_cons.1 complete
      obtain ⟨tree, form⟩ := List.forall_mem_cons.1 form
      have usesSets : ∀ name, .setName name ∈ line.words.tail → session.scope.sets.contains name :=
        fun name member => by simpa using definedSets [] line.words _ rfl name member
      have usesRegexes :
          ∀ name, .regexName name ∈ line.words.tail → session.scope.regexes.contains name :=
        fun name member => by simpa using definedRegexes [] line.words _ rfl name member
      -- the first line is read, and what it defines is known to the others
      obtain ⟨statement, stated⟩ :=
        exists_statement_iff.2 ⟨complete, tree, forall_known_iff.2 ⟨usesSets, usesRegexes⟩⟩
      obtain ⟨sets, regexes⟩ := contains_scopeAfter stated
      have setsBehind := ((definedBeforeUse_cons_iff sets).1 definedSets).2
      have regexesBehind := ((definedBeforeUse_cons_iff regexes).1 definedRegexes).2
      obtain ⟨rules, last, rest⟩ :=
        (@ih (session.afterLine line statement)).2 ⟨others, form, setsBehind, regexesBehind⟩
      exact ⟨_, last, .cons stated rest⟩

/-- A text is read as a specification exactly when its tokens, cut at the newlines, are well formed. -/
theorem exists_specification_iff (source : String) (scope : Scope) :
    (∃ specification, Specification.readWith source scope = .ok specification) ↔
      ∃ found, Step.tokens.runOn source scope = .ok (found, []) ∧
        WellFormed scope ((found.map (·.token)).splitOn .newline) := by
  have lines :=
    @exists_readsLines_iff (.start source scope) (TokenStream.of (.ofString source)).lines
  rw [← TokenStream.stop?_eq_none_iff, TokenStream.words_lines] at lines
  constructor
  · rintro ⟨specification, reads⟩
    obtain ⟨outcomes, last, run, rfl⟩ := readWith_eq_ok_iff.1 reads
    obtain ⟨complete, wellFormed⟩ := lines.1 ⟨outcomes, last, run⟩
    exact ⟨_, tokens_runOn_eq_ok_iff.2 ⟨complete, rfl, rfl⟩, wellFormed⟩
  · rintro ⟨found, tokens, wellFormed⟩
    obtain ⟨complete, rfl, -⟩ := tokens_runOn_eq_ok_iff.1 tokens
    obtain ⟨outcomes, last, reads⟩ := lines.2 ⟨complete, wellFormed⟩
    exact ⟨_, readWith_eq_ok_iff.2 ⟨outcomes, last, reads, rfl⟩⟩

/-! ## Values

What a line that is read does with its expression. -/

theorem Grammar.existsUnique_tree {tree : Expression} {body : List Token} (written : tree.tokens = body) :
    ∃! tree : Expression, tree.tokens = body :=
  ⟨tree, written, fun _ same => Expression.tokens_injective (same.trans written.symm)⟩

theorem statement_eq_rule {line : Line} {scope : Scope} {statement : Statement} {name : String}
    {body : List Token} (stated : line.statement scope = .ok statement)
    (words : line.words = .word name :: .turnstile :: body) :
    ∃ (tree : Expression) (regex : Regex) (position start : Position), tree.tokens = body ∧
      tree.value scope = some regex ∧ statement = .rule name position regex start := by
  obtain ⟨reads, -⟩ := Line.statement_eq_ok_iff.1 stated
  obtain ⟨tree, written, meaning⟩ := exists_tree_of_statement_ofTokens reads
  have written := written.trans words
  cases tree with
  | rule other tree =>
    cases written
    simp only [LineTree.statement?] at meaning
    split at meaning
    next position second start rest places =>
      obtain ⟨regex, value, rfl⟩ := Option.map_eq_some_iff.1 meaning
      exact ⟨tree, regex, position, start, rfl, value, rfl⟩
    next => cases meaning
  | _ => cases written

theorem statement_eq_regexDefinition {line : Line} {scope : Scope} {statement : Statement}
    {name : String} {body : List Token} (stated : line.statement scope = .ok statement)
    (words : line.words = .regexName name :: .equals :: body) :
    ∃ (tree : Expression) (regex : Regex), tree.tokens = body ∧ tree.value scope = some regex ∧
      statement = .regexDefinition name regex := by
  obtain ⟨reads, -⟩ := Line.statement_eq_ok_iff.1 stated
  obtain ⟨tree, written, meaning⟩ := exists_tree_of_statement_ofTokens reads
  have written := written.trans words
  cases tree with
  | regexDefinition other tree =>
    cases written
    obtain ⟨regex, value, rfl⟩ := Option.map_eq_some_iff.1 meaning
    exact ⟨tree, regex, rfl, value, rfl⟩
  | _ => cases written

/-- A line changes the values of no names but the one that it defines. -/
theorem find?_scopeAfter {line : Line} {scope : Scope} {statement : Statement}
    (stated : line.statement scope = .ok statement) :
    (∀ name, (∀ body, line.words ≠ .setName name :: .equals :: body) →
        (statement.scopeAfter scope).sets.find? name = scope.sets.find? name) ∧
      ∀ name, (∀ body, line.words ≠ .regexName name :: .equals :: body) →
        (statement.scopeAfter scope).regexes.find? name = scope.regexes.find? name := by
  obtain ⟨reads, -⟩ := Line.statement_eq_ok_iff.1 stated
  obtain ⟨tree, written, meaning⟩ := exists_tree_of_statement_ofTokens reads
  rw [Line.words, ← written]
  cases tree with
  | blank | startCode number =>
    cases meaning
    exact ⟨fun _ _ => rfl, fun _ _ => rfl⟩
  | setDefinition defined items =>
    obtain ⟨set, -, rfl⟩ := Option.map_eq_some_iff.1 meaning
    refine ⟨fun name other => ?_, fun _ _ => rfl⟩
    have differ : name ≠ defined := fun same => other _ (by rw [same]; rfl)
    simp [Statement.scopeAfter, Scope.defineSet, differ]
  | regexDefinition defined body =>
    obtain ⟨regex, -, rfl⟩ := Option.map_eq_some_iff.1 meaning
    refine ⟨fun _ _ => rfl, fun name other => ?_⟩
    have differ : name ≠ defined := fun same => other _ (by rw [same]; rfl)
    simp [Statement.scopeAfter, Scope.defineRegex, differ]
  | rule name body =>
    simp only [LineTree.statement?] at meaning
    split at meaning
    next position second start rest places =>
      obtain ⟨regex, -, rfl⟩ := Option.map_eq_some_iff.1 meaning
      exact ⟨fun _ _ => rfl, fun _ _ => rfl⟩
    next => cases meaning

/-- The expression of a rule and that of a definition each have one syntax tree, and what the rule or the
    name gets is the value of that tree in the scope of the session that has read the lines before it. The
    values of names that a line does not define stay what they were. -/
theorem unique_derivation_of_readWith {source : String} {scope : Scope} {specification : Specification}
    (reads : Specification.readWith source scope = .ok specification) {before after : List Line}
    {line : Line} (cut : (TokenStream.of (.ofString source)).lines = before ++ line :: after) :
    ∃ rules session outcome next,
      (Step.sequence (before.map Line.read)).run (.start source scope) = .ok rules session ∧
      line.read.run session = .ok outcome next ∧
      (∀ name body, line.words = .word name :: .turnstile :: body →
        (∃! tree : Expression, tree.tokens = body) ∧
        ∀ tree : Expression, tree.tokens = body → ∃ rule later, outcome = some rule ∧
          specification.rules = rules.reduceOption ++ rule :: later ∧ rule.name = name ∧
          tree.value session.scope = some rule.regex) ∧
      (∀ name body, line.words = .regexName name :: .equals :: body →
        (∃! tree : Expression, tree.tokens = body) ∧
        ∀ tree : Expression, tree.tokens = body → ∃ regex, tree.value session.scope = some regex ∧
          next.scope.regexes.find? name = some regex) ∧
      (∀ name, (∀ body, line.words ≠ .setName name :: .equals :: body) →
        next.scope.sets.find? name = session.scope.sets.find? name) ∧
      ∀ name, (∀ body, line.words ≠ .regexName name :: .equals :: body) →
        next.scope.regexes.find? name = session.scope.regexes.find? name := by
  obtain ⟨outcomes, last, run, rfl⟩ := readWith_eq_ok_iff.1 reads
  rw [cut] at run
  obtain ⟨rules, session, others, first, rest, rfl⟩ := run.split
  cases rest with
  | @cons _ _ _ _ later statement stated rest =>
    obtain ⟨sets, regexes⟩ := find?_scopeAfter stated
    refine ⟨rules, session, _, _, sequence_eq_ok_iff.2 first, Line.read_eq_of_statement stated,
      fun name body words => ?_, fun name body words => ?_, sets, regexes⟩
    · -- no other tree has these tokens, so the value is that of any tree that has
      obtain ⟨tree, regex, position, start, written, value, rfl⟩ := statement_eq_rule stated words
      refine ⟨existsUnique_tree written, fun other same => ?_⟩
      obtain rfl := Expression.tokens_injective (same.trans written.symm)
      refine ⟨⟨session.startCode, name, regex, position⟩, later.reduceOption, rfl, ?_, rfl, value⟩
      rw [List.reduceOption_append]
      rfl
    · obtain ⟨tree, regex, written, value, rfl⟩ := statement_eq_regexDefinition stated words
      refine ⟨existsUnique_tree written, fun other same => ?_⟩
      obtain rfl := Expression.tokens_injective (same.trans written.symm)
      refine ⟨regex, value, ?_⟩
      simp [Statement.after, Statement.scopeAfter, Scope.defineRegex]

theorem unique_derivation_group_plus :
    ∃ specification definition line,
      Specification.readWith "%w = ab|\\n|c\nx :- (%w d .)+?" ∅ = .ok specification ∧
      (TokenStream.of (.ofString "%w = ab|\\n|c\nx :- (%w d .)+?")).lines = [definition, line] ∧
      definition.words = [.regexName "w", .equals, .word "ab", .bar, .escape 'n', .bar, .word "c"] ∧
      line.words = .word "x" :: .turnstile ::
        [.openParen, .regexName "w", .word "d", .dot, .closeParen, .plus, .question] ∧
      (∃! tree : Expression,
        tree.tokens = [.openParen, .regexName "w", .word "d", .dot, .closeParen, .plus, .question]) ∧
      let w : Regex := .alt (.alt (.seq (.char 'a') (.char 'b')) (.char '\n')) (.char 'c')
      (∃ outcome next, definition.read.run (.start "%w = ab|\\n|c\nx :- (%w d .)+?" ∅) = .ok outcome next ∧
        next.scope.regexes.find? "w" = some w) ∧
      ∃ rule ∈ specification.rules, rule.name = "x" ∧
        rule.regex = .optional (.plus (.seq (.seq w (.char 'd')) (.chars .any))) := by
  have accepted : (Specification.readWith "%w = ab|\\n|c\nx :- (%w d .)+?" ∅).isOk = true := by decide +kernel
  have words : (TokenStream.of (.ofString "%w = ab|\\n|c\nx :- (%w d .)+?")).lines.map Line.words =
      [[.regexName "w", .equals, .word "ab", .bar, .escape 'n', .bar, .word "c"],
        [.word "x", .turnstile, .openParen, .regexName "w", .word "d", .dot, .closeParen, .plus, .question]] := by
    decide +kernel
  cases reads : Specification.readWith "%w = ab|\\n|c\nx :- (%w d .)+?" ∅ with
  | error stop =>
    rw [reads] at accepted
    cases accepted
  | ok specification =>
    obtain ⟨definition, others, cut, defines, rest⟩ := List.map_eq_cons_iff.1 words
    obtain ⟨line, after, rfl, spelled, none⟩ := List.map_eq_cons_iff.1 rest
    obtain rfl := List.map_eq_nil_iff.1 none
    obtain ⟨_, _, outcome, next, start, first, -, named, -⟩ :=
      @unique_derivation_of_readWith _ _ _ reads [] [line] definition cut
    obtain ⟨_, session, _, _, run, -, rule, -⟩ :=
      @unique_derivation_of_readWith _ _ _ reads [definition] [] line cut
    -- the session in front of the rule is the one behind the definition
    cases start
    have read : Step.sequence ([definition].map Line.read) _ = .ok [outcome] next := Step.sequence_cons_of_ok first
    cases read.symm.trans run
    obtain ⟨-, derived⟩ := named "w" _ defines
    obtain ⟨w, value, known⟩ := derived (.cons (.last (.mk (.word "ab") []))
      (.cons (.last (.mk (.escape 'n') [])) (.last (.last (.mk (.word "c") []))))) rfl
    cases value
    obtain ⟨unique, derived⟩ := rule "x" _ spelled
    obtain ⟨found, later, -, rules, name, value⟩ := derived (.last (.last (.mk (.group (.last
      (.cons (.mk (.regexName "w") []) (.cons (.mk (.word "d") []) (.last (.mk .dot [])))))) [.plus, .question]))) rfl
    refine ⟨specification, definition, line, rfl, cut, defines, spelled, unique, ⟨outcome, next, first, known⟩,
      found, ?_, name, ?_⟩
    · rw [rules]
      simp
    · simp only [Expression.value, Expression.values, Row.values, Item.value, Atom.value, known] at value
      exact (Option.some.inj value).symm

end LexSpec
