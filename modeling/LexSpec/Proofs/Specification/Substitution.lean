import LexSpec.Proofs.Grammar.ExpressionReading
import LexSpec.Proofs.Specification.Spacing
import LexSpec.Proofs.Token.Splitting

/-! # Names stand for groups

A name in an expression means what its definition says in parentheses: the operators around the name take it as
a whole. So a rule with a name in it can be read exactly when it can be read with the text of the definition, in
parentheses, in place of the name, and then the two rules have the same expression:
`readWith_name_iff_group`. What stands around the name is any text in the same line.

* `ofTokens_name_eq_group`: the same for the tokens of an expression.
* `exists_of_readWith_rule`, `exists_readWith_rule`: a text that consists of one rule, by its tokens.
-/

namespace LexSpec

variable {scope : Scope}

/-! ## In an expression -/

/-- An expression in parentheses is an item. -/
theorem foldlM_group {body : List PlacedToken} {opening closing : PlacedToken} {regex : Regex}
    (reads : Regex.ofTokens scope body = .ok regex) (opens : opening.token = .openParen)
    (closes : closing.token = .closeParen) (groups : OpenGroups) :
    (opening :: (body ++ [closing])).foldlM (OpenGroups.next scope) groups = .ok (groups.push regex) := by
  obtain ⟨tree, written, meaning⟩ := Grammar.exists_tree_of_ofTokens reads
  obtain ⟨values, meant, rfl⟩ := Option.map_eq_some_iff.1 meaning
  obtain ⟨inner, inside, value, nonempty⟩ :=
    Grammar.Expression.read meant written.symm [] (groups.inner :: groups.outer)
  have notStart : inner ≠ .start := fun start => nonempty (by rw [start]; rfl)
  have first : groups.next scope opening = .ok groups.openGroup := by simp only [OpenGroups.next, opens]
  have last : OpenGroups.next scope ⟨inner, groups.inner :: groups.outer⟩ closing =
      .ok (groups.push (.anyOf values)) := by
    simp only [OpenGroups.next, closes, OpenGroups.close?, notStart, if_false, value]
    rfl
  rw [List.foldlM_cons, first]
  change (body ++ [closing]).foldlM (OpenGroups.next scope) ⟨⟨[], []⟩, groups.inner :: groups.outer⟩ = _
  rw [List.foldlM_append, inside]
  change [closing].foldlM (OpenGroups.next scope) _ = _
  rw [List.foldlM_cons, last]
  rfl

/-- A name can be replaced by a group with its value. -/
theorem ofTokens_name_eq_group {front body back : List PlacedToken} {name opening closing : PlacedToken}
    {text : String} {regex : Regex} (named : name.token = .regexName text)
    (defined : scope.regexes.find? text = some regex) (reads : Regex.ofTokens scope body = .ok regex)
    (opens : opening.token = .openParen) (closes : closing.token = .closeParen) :
    Regex.ofTokens scope (front ++ name :: back) =
      Regex.ofTokens scope (front ++ opening :: (body ++ closing :: back)) := by
  have item (groups : OpenGroups) : groups.next scope name = .ok (groups.push regex) := by
    simp only [OpenGroups.next, named, defined]
  have same (groups : OpenGroups) : (name :: back).foldlM (OpenGroups.next scope) groups =
      (opening :: (body ++ closing :: back)).foldlM (OpenGroups.next scope) groups := by
    have group := foldlM_group reads opens closes groups
    have cut : opening :: (body ++ closing :: back) = opening :: (body ++ [closing]) ++ back := by simp
    rw [List.foldlM_cons, item, cut, List.foldlM_append, group]
  simp only [Regex.ofTokens, List.foldlM_append, same]

/-! ## In a rule -/

/-- A token with its spelling, at no place in particular. -/
def PlacedToken.anywhere (spelled : Token × String) : PlacedToken := ⟨spelled.1, spelled.2, .start, .ofList []⟩

theorem PlacedToken.map_anywhere (found : List (Token × String)) :
    (found.map anywhere).map (fun token => (token.token, token.text)) = found := by
  rw [List.map_map]
  exact List.map_id _

/-- The value of an expression does not depend on the places of its tokens. -/
theorem Regex.ofTokens_anywhere {tokens : List PlacedToken} {found : List (Token × String)}
    (same : tokens.map (fun token => (token.token, token.text)) = found) {regex : Regex} :
    Regex.ofTokens scope tokens = .ok regex ↔ Regex.ofTokens scope (found.map .anywhere) = .ok regex := by
  have agree : Agree (Refusal.Like Anywhere) Eq (Regex.ofTokens scope tokens)
      (Regex.ofTokens scope (found.map .anywhere)) :=
    Regex.ofTokens_agree (PlacedToken.like_anywhere_of_map_eq (same.trans (PlacedToken.map_anywhere found).symm))
  generalize Regex.ofTokens scope tokens = result at agree ⊢
  generalize Regex.ofTokens scope (found.map .anywhere) = result' at agree ⊢
  cases agree with
  | error => simp
  | ok equal => rw [equal]

theorem Statement.ofTokens_rule_eq_ok_iff {name turnstile : PlacedToken} {body : List PlacedToken}
    {text : String} (named : name.token = .word text) (signed : turnstile.token = .turnstile)
    {statement : Statement} :
    Statement.ofTokens scope (name :: turnstile :: body) = .ok statement ↔
      ∃ regex start, Regex.ofTokens scope body = .ok regex ∧ body.head?.map (·.position) = some start ∧
        statement = .rule text name.position regex start := by
  have behind : Statement.ofTokens scope (name :: turnstile :: body) =
      ruleOfTokens scope text name.position body := by
    simp only [Statement.ofTokens, named, expect, signed, if_true]
    rfl
  rw [behind]
  cases body with
  | nil =>
    constructor
    · intro reads
      cases reads
    · rintro ⟨regex, start, -, nothing, -⟩
      cases nothing
  | cons first rest =>
    rw [ruleOfTokens, bind_eq_ok_iff]
    constructor
    · rintro ⟨regex, reads, result⟩
      cases result
      exact ⟨regex, first.position, reads, rfl, rfl⟩
    · rintro ⟨regex, start, reads, place, rfl⟩
      cases place
      exact ⟨regex, reads, rfl⟩

/-- What a rule says, without its place. -/
def Rule.content (rule : Rule) : String × Nat × Regex := (rule.name, rule.startCode, rule.regex)

theorem scans_rule {text : List Char} {found : List (Token × String)} {whole : Bool}
    (scans : Scans text found whole) :
    Scans ("x :- ".toList ++ text) ((.word "x", "x") :: (.turnstile, ":-") :: found) whole := by
  have named : Spells (.word (String.ofList ['x'])) ['x'] := .word (by simp) (by simp; rfl)
  have body : Scans (':' :: '-' :: ' ' :: text) ((.turnstile, ":-") :: found) whole :=
    .token ⟨.turnstile, False.elim⟩ (.blank (.inl rfl) scans)
  refine .token ⟨named, fun _ c head => ?_⟩ (.blank (.inl rfl) body)
  cases head
  rfl

section Rules

variable {text : String} {found : List (Token × String)} {whole : Bool}
  (small : ("x :- " ++ text).length < 2 ^ 28) (plain : '\n' ∉ text.toList) (scans : Scans text.toList found whole)

include small plain scans

/-- A text without newlines is one line. -/
theorem exists_lines_rule :
    ∃ (name turnstile : PlacedToken) (body : List PlacedToken) (ending : LineEnd),
      (TokenStream.of (.ofString ("x :- " ++ text))).lines = [⟨name :: turnstile :: body, ending⟩] ∧
      name.token = .word "x" ∧ turnstile.token = .turnstile ∧
      body.map (fun token => (token.token, token.text)) = found ∧
      (whole = true ↔ ∀ stop final, ending ≠ .stopped stop final) := by
  have scans := scans_rule scans
  rw [← String.toList_append] at scans
  obtain ⟨same, complete⟩ := scans.stream (Cursor.Ready.ofString small) rfl
  have newline : '\n' ∉ ("x :- " ++ text).toList := by
    rw [String.toList_append]
    simpa using plain
  generalize TokenStream.of (.ofString ("x :- " ++ text)) = stream at same complete ⊢
  have noNewline : ∀ token ∈ stream.tokens, token.token ≠ .newline := fun token member =>
    scans.ne_newline newline (token.token, token.text) (same ▸ List.mem_map_of_mem member)
  have lines : stream.lines = [⟨stream.tokens, stream.lastEnd⟩] := by
    have cuts := Line.cut_append_of_plain noNewline (Line.cut_nil stream.lastEnd)
    rw [List.append_nil] at cuts
    exact cuts
  have ending : whole = true ↔ ∀ stop final, stream.lastEnd ≠ .stopped stop final := by
    rw [← complete, TokenStream.stop?_eq_none_iff, lines]
    simp
  obtain ⟨name, others, tokens, named, rest⟩ := List.map_eq_cons_iff.1 same
  obtain ⟨turnstile, body, rfl, signed, rest⟩ := List.map_eq_cons_iff.1 rest
  exact ⟨name, turnstile, body, stream.lastEnd, tokens ▸ lines, (Prod.mk.inj named).1, (Prod.mk.inj signed).1, rest,
    ending⟩

/-- A text that is read as a rule is read to its end, and the rule has the value of its expression. -/
theorem exists_of_readWith_rule {specification : Specification}
    (reads : Specification.readWith ("x :- " ++ text) scope = .ok specification) :
    whole = true ∧ ∃ regex, Regex.ofTokens scope (found.map .anywhere) = .ok regex ∧
      specification.rules.map (·.content) = [("x", 0, regex)] := by
  obtain ⟨name, turnstile, body, ending, lines, named, signed, same, complete⟩ :=
    exists_lines_rule small plain scans
  obtain ⟨outcomes, last, run, rfl⟩ := readWith_eq_ok_iff.1 reads
  rw [lines] at run
  cases run with
  | cons stated rest =>
    cases rest
    obtain ⟨said, unstopped⟩ := Line.statement_eq_ok_iff.1 stated
    obtain ⟨regex, start, value, -, rfl⟩ := (Statement.ofTokens_rule_eq_ok_iff named signed).1 said
    exact ⟨complete.2 unstopped, regex, (Regex.ofTokens_anywhere same).1 value, rfl⟩

theorem exists_readWith_rule {regex : Regex} (ends : whole = true)
    (value : Regex.ofTokens scope (found.map .anywhere) = .ok regex) :
    ∃ specification, Specification.readWith ("x :- " ++ text) scope = .ok specification := by
  obtain ⟨name, turnstile, body, ending, lines, named, signed, same, complete⟩ :=
    exists_lines_rule small plain scans
  have value := (Regex.ofTokens_anywhere same).2 value
  cases body with
  | nil => cases value
  | cons first rest =>
    have stated : Line.statement ⟨name :: turnstile :: first :: rest, ending⟩ scope =
        .ok (.rule "x" name.position regex first.position) :=
      Line.statement_eq_ok_iff.2 ⟨(Statement.ofTokens_rule_eq_ok_iff named signed).2
        ⟨regex, first.position, value, rfl, rfl⟩, complete.1 ends⟩
    have run : ReadsLines (.start ("x :- " ++ text) scope) _ _ _ := .cons stated .nil
    rw [← lines] at run
    exact ⟨_, readWith_eq_ok_iff.2 ⟨_, _, run, rfl⟩⟩

/-- Two rules whose expressions have the same value are both read or both refused. -/
theorem exists_readWith_rule_of_same {other : String} {others : List (Token × String)}
    (small' : ("x :- " ++ other).length < 2 ^ 28) (plain' : '\n' ∉ other.toList)
    (scans' : Scans other.toList others whole)
    (same : Regex.ofTokens scope (found.map .anywhere) = Regex.ofTokens scope (others.map .anywhere))
    {specification : Specification}
    (reads : Specification.readWith ("x :- " ++ text) scope = .ok specification) :
    ∃ specification', Specification.readWith ("x :- " ++ other) scope = .ok specification' ∧
      specification.rules.map (·.content) = specification'.rules.map (·.content) := by
  obtain ⟨ends, regex, value, content⟩ := exists_of_readWith_rule small plain scans reads
  have value' := same.symm.trans value
  obtain ⟨specification', reads'⟩ := exists_readWith_rule small' plain' scans' ends value'
  obtain ⟨-, regex', given, content'⟩ := exists_of_readWith_rule small' plain' scans' reads'
  cases given.symm.trans value'
  exact ⟨specification', reads', content.trans content'.symm⟩

end Rules

/-! ## In a text -/

section Texts

variable {u v w m : List Char} {inner back : List (Token × String)} {whole : Bool}

theorem scans_name (nonempty : m ≠ []) (chars : ∀ c ∈ m, isNameChar c) (rest : Scans v back whole) :
    Scans ('%' :: (m ++ ' ' :: v)) ((.regexName (String.ofList m), String.ofList ('%' :: m)) :: back) whole := by
  have spells : Spells (.regexName (String.ofList m)) ('%' :: m) := .regexName nonempty chars
  refine .token ⟨spells, fun _ c head => ?_⟩ (.blank (.inl rfl) rest)
  cases head
  rfl

theorem scans_group (inside : Scans w inner true) (noComment : '#' ∉ w) (rest : Scans v back whole) :
    Scans ('(' :: ' ' :: (w ++ ' ' :: ')' :: ' ' :: v))
      ((.openParen, "(") :: (inner ++ (.closeParen, ")") :: back)) whole := by
  have closed : Scans (')' :: ' ' :: v) ((.closeParen, ")") :: back) whole :=
    .token ⟨.sign rfl, False.elim⟩ (.blank (.inl rfl) rest)
  exact .token ⟨.sign rfl, False.elim⟩ (.blank (.inl rfl) (inside.append_of_no_comment noComment closed))

/-- In any surroundings, a name and the group with its value give expressions with the same value, if the text
    is read to its end at all. -/
theorem exists_scans_name_group {name : String} {regex : Regex} (plainU : '\n' ∉ u) (plainV : '\n' ∉ v)
    (plainW : '\n' ∉ w) (noComment : '#' ∉ w) (nonempty : name.toList ≠ [])
    (chars : ∀ c ∈ name.toList, isNameChar c) (inside : Scans w inner true)
    (reads : Regex.ofTokens scope (inner.map .anywhere) = .ok regex)
    (defined : scope.regexes.find? name = some regex) :
    ∃ found others whole, Scans (u ++ ' ' :: '%' :: (name.toList ++ ' ' :: v)) found whole ∧
      Scans (u ++ ' ' :: '(' :: ' ' :: (w ++ ' ' :: ')' :: ' ' :: v)) others whole ∧
      Regex.ofTokens scope (found.map .anywhere) = Regex.ofTokens scope (others.map .anywhere) := by
  obtain ⟨front, wholeU, scansU⟩ := exists_scans (u ++ [' '])
  obtain ⟨back, wholeV, scansV⟩ := exists_scans v
  have named := scans_name nonempty chars scansV
  have group := scans_group inside noComment scansV
  rw [String.ofList_toList] at named
  -- up to the blank in front of the name both texts are the same
  cases scansU.blankCut plainU with
  | apart rest =>
    refine ⟨_, _, wholeV, rest _ _ _ named, rest _ _ _ group, ?_⟩
    simp only [List.map_append, List.map_cons]
    exact ofTokens_name_eq_group rfl defined reads rfl rfl
  | comment rest =>
    refine ⟨front, front, true, rest _ ?_, rest _ ?_, rfl⟩
    · have plainName : '\n' ∉ name.toList := fun newline => Bool.false_ne_true (chars _ newline)
      simp [plainV, plainName]
    · simp [plainV, plainW]
  | broken rest => exact ⟨front, front, false, rest _, rest _, rfl⟩

end Texts

/-- A name in a rule stands for its definition in parentheses. Whatever is around it in the line, the rule can
    be read with the one exactly when it can be read with the other, and says the same. -/
theorem readWith_name_iff_group {m u v w : String} {rule : Rule} {warnings : List Warning}
    (nonempty : m ≠ "") (chars : ∀ c ∈ m.toList, isNameChar c) (plainW : '\n' ∉ w.toList)
    (noComment : '#' ∉ w.toList) (reads : Specification.readWith ("x :- " ++ w) scope = .ok ⟨[rule], warnings⟩)
    (defined : scope.regexes.find? m = some rule.regex) (plainU : '\n' ∉ u.toList) (plainV : '\n' ∉ v.toList)
    (small : ("x :- " ++ (u ++ " %" ++ m ++ " " ++ v)).length < 2 ^ 28)
    (small' : ("x :- " ++ (u ++ " ( " ++ w ++ " ) " ++ v)).length < 2 ^ 28) :
    ((∃ specification, Specification.readWith ("x :- " ++ (u ++ " %" ++ m ++ " " ++ v)) scope =
        .ok specification) ↔
      ∃ specification, Specification.readWith ("x :- " ++ (u ++ " ( " ++ w ++ " ) " ++ v)) scope =
        .ok specification) ∧
    ∀ specification specification',
      Specification.readWith ("x :- " ++ (u ++ " %" ++ m ++ " " ++ v)) scope = .ok specification →
      Specification.readWith ("x :- " ++ (u ++ " ( " ++ w ++ " ) " ++ v)) scope = .ok specification' →
      specification.rules.map (fun rule => (rule.name, rule.startCode, rule.regex)) =
        specification'.rules.map fun rule => (rule.name, rule.startCode, rule.regex) := by
  have smallW : ("x :- " ++ w).length < 2 ^ 28 := by
    simp only [String.length_append] at small' ⊢
    omega
  obtain ⟨inner, whole, inside⟩ := exists_scans w.toList
  obtain ⟨rfl, regex, value, content⟩ := exists_of_readWith_rule smallW plainW inside reads
  obtain rfl : rule.regex = regex := congrArg (·.2.2) (List.cons.inj content).1
  obtain ⟨found, others, whole, scans, scans', same⟩ := exists_scans_name_group plainU plainV plainW noComment
    (fun empty => nonempty (String.toList_eq_nil_iff.1 empty)) chars inside value defined
  have plainName : '\n' ∉ m.toList := fun newline => Bool.false_ne_true (chars _ newline)
  have scans : Scans (u ++ " %" ++ m ++ " " ++ v).toList found whole := by simpa using scans
  have scans' : Scans (u ++ " ( " ++ w ++ " ) " ++ v).toList others whole := by simpa using scans'
  have plain : '\n' ∉ (u ++ " %" ++ m ++ " " ++ v).toList := by simp [plainU, plainName, plainV]
  have plain' : '\n' ∉ (u ++ " ( " ++ w ++ " ) " ++ v).toList := by simp [plainU, plainW, plainV]
  constructor
  · constructor
    · rintro ⟨specification, reads⟩
      obtain ⟨specification', reads', -⟩ :=
        exists_readWith_rule_of_same small plain scans small' plain' scans' same reads
      exact ⟨specification', reads'⟩
    · rintro ⟨specification, reads⟩
      obtain ⟨specification', reads', -⟩ :=
        exists_readWith_rule_of_same small' plain' scans' small plain scans same.symm reads
      exact ⟨specification', reads'⟩
  · intro specification specification' reads reads'
    obtain ⟨other, given, content⟩ :=
      exists_readWith_rule_of_same small plain scans small' plain' scans' same reads
    cases given.symm.trans reads'
    exact content

/-- The operator behind the name takes both alternatives. -/
theorem readWith_name_iff_group_star :
    ∃ specification specification',
      Specification.readWith ("x :- " ++ ("c" ++ " %" ++ "e" ++ " " ++ "* # )"))
        (Scope.empty.defineRegex "e" (.alt (.char 'a') (.char 'b'))) = .ok specification ∧
      Specification.readWith ("x :- " ++ ("c" ++ " ( " ++ "a|b" ++ " ) " ++ "* # )"))
        (Scope.empty.defineRegex "e" (.alt (.char 'a') (.char 'b'))) = .ok specification' ∧
      specification.rules.map (fun rule => (rule.name, rule.startCode, rule.regex)) =
        specification'.rules.map (fun rule => (rule.name, rule.startCode, rule.regex)) ∧
      specification'.rules.map (·.regex) =
        [.seq (.char 'c') (.star (.alt (.char 'a') (.char 'b')))] := by
  have defined : Specification.readWith ("x :- " ++ "a|b")
      (Scope.empty.defineRegex "e" (.alt (.char 'a') (.char 'b'))) =
      .ok ⟨[⟨0, "x", .alt (.char 'a') (.char 'b'), ⟨0, 1, 1⟩⟩], []⟩ := by decide +kernel
  have group : Specification.readWith ("x :- " ++ ("c" ++ " ( " ++ "a|b" ++ " ) " ++ "* # )"))
      (Scope.empty.defineRegex "e" (.alt (.char 'a') (.char 'b'))) =
      .ok ⟨[⟨0, "x", .seq (.char 'c') (.star (.alt (.char 'a') (.char 'b'))), ⟨0, 1, 1⟩⟩], []⟩ := by
    decide +kernel
  obtain ⟨iff, same⟩ := @readWith_name_iff_group _ "e" "c" "* # )" "a|b" _ _ (by decide)
    (List.forall_mem_singleton.2 rfl) (by decide) (by decide) defined (by decide +kernel) (by decide) (by decide)
    (by decide) (by decide)
  obtain ⟨specification, reads⟩ := iff.2 ⟨_, group⟩
  exact ⟨specification, _, reads, group, same _ _ reads group, rfl⟩

end LexSpec
