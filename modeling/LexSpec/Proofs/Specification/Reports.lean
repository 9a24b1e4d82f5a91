import LexSpec.Proofs.Specification.Places
import LexSpec.Proofs.Text.OneLine

/-! # The lines of a report

What a specification tells of its rules and warnings has no newline in it, even where its sets have one
(`PlainRule`, `PlainWarning`). So the lines of a report can be told apart: they are those of the rules and then those
of the warnings, one for each. A report that tells nothing is a single empty line.

An error is told on one line as well, with one exception. Names have no newline and characters are escaped as they
are told, but the text of a token that is not expected is told as it stands. It breaks the line when the token is
a newline or an escaped newline, and no other does: `not_oneLine_render_iff`.
-/

namespace LexSpec

variable {source file : String} {scope : Scope} {specification : Specification} {error : TextError}

/-! ## What a line tells -/

/-- Nothing that is told of a rule breaks the line. -/
structure PlainRule (rule : Rule) : Prop where
  name : OneLine rule.name
  position : OneLine rule.position.text
  regex : OneLine rule.regex.text

/-- Nothing that is told of a warning breaks the line. -/
structure PlainWarning (warning : Warning) : Prop where
  position : OneLine warning.position.text
  message : OneLine warning.message

theorem plainRule_of_spells {rule : Rule} {spelling : List Char} (spells : Spells (.word rule.name) spelling) :
    PlainRule rule :=
  ⟨spells.oneLine_of_word, rule.position.oneLine_text, rule.regex.oneLine_text⟩

theorem plainWarning_of_regex (position : Position) (regex : Regex) :
    PlainWarning (.nullableRegex position regex.text) where
  position := position.oneLine_text
  message := by
    have around : OneLine "Regular expression " ∧ OneLine " matches the empty string." := by decide +kernel
    unfold Warning.message
    dsimp only
    rw [oneLine_append, oneLine_append]
    exact ⟨⟨around.1, regex.oneLine_text⟩, around.2⟩

/-- A rule is named by a word of the text, and a warning tells the expression of a rule. -/
theorem plain_of_readWith (reads : Specification.readWith source scope = .ok specification) :
    (∀ rule ∈ specification.rules, PlainRule rule) ∧ ∀ warning ∈ specification.warnings, PlainWarning warning := by
  obtain ⟨told, whole, placed⟩ := exists_told_of_readWith reads
  constructor
  · intro rule member
    rw [whole.rules] at member
    obtain ⟨pair, among, rfl⟩ := List.mem_map.1 member
    obtain ⟨token, inside, word, -⟩ := placed pair among
    obtain ⟨-, spells⟩ := TokenStream.textAt_of_mem inside
    rw [word] at spells
    exact plainRule_of_spells spells
  · intro warning member
    rw [whole.warnings] at member
    obtain ⟨pair, among, own⟩ := List.mem_filterMap.1 member
    rw [(whole.own pair among warning own).1]
    exact plainWarning_of_regex _ _

/-! ## Lines -/

theorem PlainRule.oneLine_text {rule : Rule} (plain : PlainRule rule) : OneLine rule.text := by
  have signs : OneLine " " ∧ OneLine " @ " ∧ OneLine ": " := by decide
  simp [Rule.text, signs, oneLine_repr, plain.name, plain.position, plain.regex]

theorem PlainWarning.oneLine_render {warning : Warning} (plain : PlainWarning warning) (named : OneLine file) :
    OneLine (warning.render file) := by
  have signs : OneLine ":" ∧ OneLine ": warning: " := by decide
  simp [Warning.render, signs, named, plain.position, plain.message]

theorem oneLine_of_mem_reportLines (named : OneLine file)
    (rules : ∀ rule ∈ specification.rules, PlainRule rule)
    (warnings : ∀ warning ∈ specification.warnings, PlainWarning warning) :
    ∀ line ∈ specification.reportLines file, OneLine line := by
  intro line member
  rcases List.mem_append.1 member with told | told
  · obtain ⟨rule, among, rfl⟩ := List.mem_map.1 told
    exact (rules rule among).oneLine_text
  · obtain ⟨warning, among, rfl⟩ := List.mem_map.1 told
    exact (warnings warning among).oneLine_render named

/-- Lines that are put together can be told apart, but for no line and an empty one. -/
theorem splitOn_intercalate_of_oneLine {lines : List String} (plain : ∀ line ∈ lines, OneLine line) :
    ("\n".intercalate lines).toList.splitOn '\n' =
      (if lines = [] then [""] else lines).map String.toList := by
  rw [String.toList_intercalate]
  split
  next nothing =>
    rw [nothing]
    rfl
  next something =>
    refine List.splitOn_intercalate '\n' ?_ (by simpa using something)
    intro line member
    obtain ⟨text, among, rfl⟩ := List.mem_map.1 member
    exact plain text among

/-- The report on a specification that can be read is made of lines: one for each rule and then one for each warning,
    in their order, or else a single empty line. Whatever the text, and whatever is defined beforehand, neither a rule
    nor a warning has anything to tell that would break its line. -/
theorem lines_of_report {file : String} (named : OneLine file) (source : String) :
    (∀ specification, Specification.read source = .ok specification →
      ∃ report, Specification.report file source = .ok report ∧
        report.toList.splitOn '\n' =
          (if specification.rules = [] ∧ specification.warnings = [] then [""]
            else specification.rules.map Rule.text ++ specification.warnings.map (·.render file)).map String.toList) ∧
    ∀ scope specification, Specification.readWith source scope = .ok specification →
      (∀ rule ∈ specification.rules, PlainRule rule) ∧
        ∀ warning ∈ specification.warnings, PlainWarning warning := by
  refine ⟨fun specification reads => ?_, fun scope specification reads => plain_of_readWith reads⟩
  obtain ⟨rules, warnings⟩ := plain_of_readWith reads
  refine ⟨"\n".intercalate (specification.reportLines file), ?_, ?_⟩
  · rw [Specification.report, reads]
  · rw [splitOn_intercalate_of_oneLine (oneLine_of_mem_reportLines named rules warnings)]
    simp [Specification.reportLines]

/-- The set of the first rule has a newline, which is shown as an escape in the lines of the rule and its warning. -/
theorem lines_of_report_newline :
    OneLine "f.x" ∧ ∃ report, Specification.report "f.x" "x :- \\n*\ny :- a" = .ok report ∧
      report.toList.splitOn '\n' = ["0 x @ 1:1: [\\n]*", "0 y @ 2:1: a",
        "f.x:1:6: warning: Regular expression [\\n]* matches the empty string."].map String.toList := by
  have named : OneLine "f.x" := by decide
  have reads : Specification.read "x :- \\n*\ny :- a" =
      .ok ⟨[⟨0, "x", .star (.char '\n'), ⟨0, 1, 1⟩⟩, ⟨0, "y", .char 'a', ⟨9, 2, 1⟩⟩],
        [.nullableRegex ⟨5, 1, 6⟩ "[\\n]*"]⟩ := by decide +kernel
  obtain ⟨report, made, lines⟩ := (lines_of_report named "x :- \\n*\ny :- a").1 _ reads
  refine ⟨named, report, made, lines.trans ?_⟩
  decide +kernel

/-! ## The lines of an error -/

theorem oneLine_render_iff (named : OneLine file) : OneLine (error.render file) ↔ OneLine error.message := by
  have signs : OneLine ":" ∧ OneLine ": " := by decide
  unfold TextError.render
  split <;> simp [named, signs, Position.oneLine_text]

theorem oneLine_lexicalError (input : Cursor) : OneLine (input.lexicalError "lexical error").message := by
  have texts : OneLine "lexical error at " ∧ OneLine "lexical error at end of file" := by decide +kernel
  unfold Cursor.lexicalError
  dsimp only
  split <;> simp [texts, oneLine_quoted]

theorem oneLine_unknownSet {position : Position} {name : String} (plain : OneLine name) :
    OneLine (TextError.unknownSet position name).message := by
  have text : OneLine "unknown set macro: $" := by decide +kernel
  exact oneLine_append.2 ⟨text, plain⟩

theorem oneLine_unknownRegex {name : String} (plain : OneLine name) :
    OneLine (TextError.unknownRegex name).message := by
  have text : OneLine "unknown regex macro: %" := by decide +kernel
  exact oneLine_append.2 ⟨text, plain⟩

theorem oneLine_unexpected_iff {text : String} :
    OneLine ("parse error: unexpected '" ++ text ++ "'") ↔ OneLine text := by
  have around : OneLine "parse error: unexpected '" ∧ OneLine "'" := by decide +kernel
  simp [around]

theorem TokenStream.not_oneLine_text_iff {found : PlacedToken} (member : found ∈ (of (.ofString source)).tokens) :
    ¬ OneLine found.text ↔ found.token = .newline ∨ found.token = .escape '\n' := by
  obtain ⟨-, spells⟩ := textAt_of_mem member
  rw [OneLine, not_not, spells.newline_mem_iff]

/-- The error of a text breaks its line exactly when it is about a newline, or an escaped newline, that is not
    expected. -/
theorem not_oneLine_render_iff (named : OneLine file)
    (fails : Specification.readWith source scope = .error (.error error)) :
    ¬ OneLine (error.render file) ↔ ∃ found ∈ (TokenStream.of (.ofString source)).tokens,
      (found.token = .newline ∨ found.token = .escape '\n') ∧
        error = ⟨.user, some found.behind.position, "parse error: unexpected '" ++ found.text ++ "'"⟩ := by
  rw [oneLine_render_iff named]
  constructor
  · intro breaks
    cases Diagnosis.of_readWith fails with
    | @unexpected found member =>
      rw [oneLine_unexpected_iff] at breaks
      exact ⟨found, member, (TokenStream.not_oneLine_text_iff member).1 breaks, rfl⟩
    | endOfFile =>
      have text : OneLine "parse error: unexpected end of file" := by decide +kernel
      exact absurd text breaks
    | unknownSet member set =>
      obtain ⟨-, spells⟩ := TokenStream.textAt_of_mem member
      rw [set] at spells
      exact absurd (oneLine_unknownSet spells.oneLine_of_setName) breaks
    | unknownRegex member regex =>
      obtain ⟨-, spells⟩ := TokenStream.textAt_of_mem member
      rw [regex] at spells
      exact absurd (oneLine_unknownRegex spells.oneLine_of_regexName) breaks
    | lexical => exact absurd (oneLine_lexicalError _) breaks
  · rintro ⟨found, member, newline, rfl⟩
    rw [oneLine_unexpected_iff]
    exact (TokenStream.not_oneLine_text_iff member).2 newline

/-- An escaped newline where the line needs its turnstile. -/
theorem not_oneLine_render_escape :
    OneLine "f.x" ∧ ∃ error, Specification.readWith "x \\\n" ∅ = .error (.error error) ∧
      error.render "f.x" = "f.x:2:1: parse error: unexpected '\\\n'" ∧
      ∃ found ∈ (TokenStream.of (.ofString "x \\\n")).tokens,
        (found.token = .newline ∨ found.token = .escape '\n') ∧
          error = ⟨.user, some found.behind.position, "parse error: unexpected '" ++ found.text ++ "'"⟩ := by
  have named : OneLine "f.x" := by decide
  have fails : Specification.readWith "x \\\n" ∅ =
      .error (.error ⟨.user, some ⟨4, 2, 1⟩, "parse error: unexpected '\\\n'"⟩) := by decide +kernel
  exact ⟨named, _, fails, by decide +kernel, (not_oneLine_render_iff named fails).1 (by decide +kernel)⟩

/-- An error of two lines: the rule has no expression, and the newline behind it is told as it stands. -/
theorem render_of_early_newline :
    OneLine "f.x" ∧ ∃ error, Specification.readWith "x :-\n" ∅ = .error (.error error) ∧
      error.render "f.x" = "f.x:2:1: parse error: unexpected '\n'" ∧ ¬ OneLine (error.render "f.x") :=
  ⟨by decide, ⟨.user, some ⟨5, 2, 1⟩, "parse error: unexpected '\n'"⟩, by decide +kernel, by decide +kernel,
    by decide +kernel⟩

end LexSpec
