import LexSpec.Line.Statement
import LexSpec.Proofs.Agreement
import LexSpec.Proofs.Grammar.ExpressionReading
import LexSpec.Proofs.Grammar.SetItems

/-! # Syntax of lines

A `LineTree` is a line by its form: nothing, a definition, a start code or a rule. `statement?` is what it
says in a scope, and `Statement.ofTokens` accepts exactly the tokens of the trees that say something
(`statement_ofTokens_eq_ok_iff`). A tree says something when the scope knows every name that stands
behind the first token of its line (`LineTree.exists_statement_iff`).
-/

namespace LexSpec.Grammar

inductive LineTree where
  | blank
  | setDefinition (name : String) (items : List SetItem)
  | regexDefinition (name : String) (body : Expression)
  | startCode (number : Nat)
  | rule (name : String) (body : Expression)

namespace LineTree

def tokens : LineTree → List Token
  | blank => []
  | setDefinition name items => .setName name :: .equals :: items.flatMap SetItem.tokens
  | regexDefinition name body => .regexName name :: .equals :: body.tokens
  | startCode number => [.startCode number]
  | rule name body => .word name :: .turnstile :: body.tokens

/-- What a line says in a scope. Of the places of its tokens a rule keeps that of its name and that of
    the first token behind the turnstile. -/
def statement? (scope : Scope) (places : List Position) : LineTree → Option Statement
  | blank => some .blank
  | setDefinition name items => (SetItem.union scope items).map (.setDefinition name)
  | regexDefinition name body => (body.value scope).map (.regexDefinition name)
  | startCode number => some (.startCode number)
  | rule name body =>
    match places with
    | position :: _ :: start :: _ => (body.value scope).map (.rule name position · start)
    | _ => none

end LineTree

variable {scope : Scope}

theorem expect_eq_ok_iff {token : Token} {found rest : List PlacedToken} :
    Statement.expect token found = .ok rest ↔ ∃ first, found = first :: rest ∧ first.token = token := by
  cases found with
  | nil => simp [Statement.expect]
  | cons first others =>
    by_cases expected : first.token = token
    · simp [Statement.expect, expected, eq_comm]
    · simp [Statement.expect, expected]

theorem exists_tree_of_statement_ofTokens {found : List PlacedToken} {statement : Statement}
    (reads : Statement.ofTokens scope found = .ok statement) :
    ∃ tree : LineTree, tree.tokens = found.map (·.token) ∧
      tree.statement? scope (found.map (·.position)) = some statement := by
  unfold Statement.ofTokens at reads
  cases found with
  | nil =>
    cases reads
    exact ⟨.blank, rfl, rfl⟩
  | cons first rest =>
    cases token : first.token with
    | setName name =>
      simp only [token, bind_eq_ok_iff, expect_eq_ok_iff] at reads
      obtain ⟨body, ⟨equals, rfl, expected⟩, set, items, result⟩ := reads
      cases result
      obtain ⟨row, written, meaning⟩ := exists_items_of_ofTokens items
      exact ⟨.setDefinition name row, by simp [LineTree.tokens, token, expected, written],
        by simp [LineTree.statement?, meaning]⟩
    | regexName name =>
      simp only [token, bind_eq_ok_iff, expect_eq_ok_iff] at reads
      obtain ⟨body, ⟨equals, rfl, expected⟩, regex, items, result⟩ := reads
      cases result
      obtain ⟨tree, written, meaning⟩ := exists_tree_of_ofTokens items
      exact ⟨.regexDefinition name tree, by simp [LineTree.tokens, token, expected, written],
        by simp [LineTree.statement?, meaning]⟩
    | startCode number =>
      simp only [token] at reads
      cases rest with
      | nil =>
        cases reads
        exact ⟨.startCode number, by simp [LineTree.tokens, token], rfl⟩
      | cons second rest => cases reads
    | word name =>
      simp only [token, bind_eq_ok_iff, expect_eq_ok_iff] at reads
      obtain ⟨body, ⟨turnstile, rfl, expected⟩, rule⟩ := reads
      cases body with
      | nil => cases rule
      | cons start body =>
        simp only [Statement.ruleOfTokens, bind_eq_ok_iff] at rule
        obtain ⟨regex, items, result⟩ := rule
        cases result
        obtain ⟨tree, written, meaning⟩ := exists_tree_of_ofTokens items
        exact ⟨.rule name tree, by simpa [LineTree.tokens, token, expected] using written,
          by simp [LineTree.statement?, meaning]⟩
    | _ =>
      simp only [token] at reads
      cases reads

theorem LineTree.ofTokens_eq_ok {tree : LineTree} {found : List PlacedToken} {statement : Statement}
    (meaning : tree.statement? scope (found.map (·.position)) = some statement)
    (written : found.map (·.token) = tree.tokens) :
    Statement.ofTokens scope found = .ok statement := by
  cases tree with
  | blank =>
    obtain rfl := List.map_eq_nil_iff.1 written
    cases meaning
    rfl
  | setDefinition name items =>
    obtain ⟨first, rest, rfl, token, written⟩ := List.map_eq_cons_iff.1 written
    obtain ⟨second, body, rfl, equals, written⟩ := List.map_eq_cons_iff.1 written
    obtain ⟨set, union, rfl⟩ := Option.map_eq_some_iff.1 meaning
    simp only [Statement.ofTokens, token, bind_eq_ok_iff, expect_eq_ok_iff]
    exact ⟨body, ⟨second, rfl, equals⟩, set, SetItem.ofTokens_eq_ok union written, rfl⟩
  | regexDefinition name body =>
    obtain ⟨first, rest, rfl, token, written⟩ := List.map_eq_cons_iff.1 written
    obtain ⟨second, behind, rfl, equals, written⟩ := List.map_eq_cons_iff.1 written
    obtain ⟨regex, value, rfl⟩ := Option.map_eq_some_iff.1 meaning
    simp only [Statement.ofTokens, token, bind_eq_ok_iff, expect_eq_ok_iff]
    exact ⟨behind, ⟨second, rfl, equals⟩, regex, Expression.ofTokens_eq_ok value written, rfl⟩
  | startCode number =>
    obtain ⟨first, rfl, token⟩ := List.map_eq_singleton_iff.1 written
    cases meaning
    simp only [Statement.ofTokens, token]
  | rule name body =>
    obtain ⟨first, rest, rfl, token, written⟩ := List.map_eq_cons_iff.1 written
    obtain ⟨second, behind, rfl, turnstile, written⟩ := List.map_eq_cons_iff.1 written
    cases behind with
    | nil => cases meaning
    | cons start behind =>
      obtain ⟨regex, value, rfl⟩ := Option.map_eq_some_iff.1 meaning
      simp only [Statement.ofTokens, token, bind_eq_ok_iff, expect_eq_ok_iff]
      refine ⟨start :: behind, ⟨second, rfl, turnstile⟩, ?_⟩
      simp only [Statement.ruleOfTokens, bind_eq_ok_iff]
      exact ⟨regex, Expression.ofTokens_eq_ok value written, rfl⟩

/-- The statements of the tokens of a line are those of the trees that are written with them. -/
theorem statement_ofTokens_eq_ok_iff {found : List PlacedToken} {statement : Statement} :
    Statement.ofTokens scope found = .ok statement ↔
      ∃ tree : LineTree, tree.tokens = found.map (·.token) ∧
        tree.statement? scope (found.map (·.position)) = some statement :=
  ⟨exists_tree_of_statement_ofTokens,
    fun ⟨_, written, meaning⟩ => LineTree.ofTokens_eq_ok meaning written.symm⟩

/-! ## Names in scope -/

/-- A token that names something names what the scope defines. -/
def Known (scope : Scope) : Token → Prop
  | .setName name => scope.sets.contains name
  | .regexName name => scope.regexes.contains name
  | _ => True

theorem Operator.known_tokens (operators : List Operator) :
    ∀ token ∈ operators.map Operator.token, Known scope token := by
  intro token member
  obtain ⟨operator, -, rfl⟩ := List.mem_map.1 member
  cases operator <;> trivial

mutual

theorem Atom.isSome_value (atom : Atom) :
    (atom.value scope).isSome ↔ ∀ token ∈ atom.tokens, Known scope token := by
  match atom with
  | .group body =>
    have inside := Expression.isSome_values body
    have openParen : Known scope .openParen := trivial
    have closeParen : Known scope .closeParen := trivial
    simp only [Atom.value, Atom.tokens, Option.isSome_map, inside, List.forall_mem_cons,
      List.forall_mem_append, openParen, closeParen, List.not_mem_nil, false_implies, implies_true,
      and_true, true_and]
  | .emptyGroup | .word _ | .escape _ | .dot => simp [Atom.value, Atom.tokens, Known]
  | .setName name | .regexName name =>
    simp [Atom.value, Atom.tokens, Known, Definitions.contains]

theorem Item.isSome_value (item : Item) :
    (item.value scope).isSome ↔ ∀ token ∈ item.tokens, Known scope token := by
  match item with
  | .mk atom operators =>
    have inside := Atom.isSome_value atom
    have operating : ∀ token ∈ operators.map Operator.token, Known scope token :=
      Operator.known_tokens operators
    simp only [Item.value, Item.tokens, Option.isSome_map, inside, List.forall_mem_append]
    exact ⟨fun known => ⟨known, operating⟩, And.left⟩

theorem Row.isSome_values (row : Row) :
    (row.values scope).isSome ↔ ∀ token ∈ row.tokens, Known scope token := by
  match row with
  | .last item =>
    rw [Row.values, Option.isSome_map]
    exact Item.isSome_value item
  | .cons item others =>
    have first := Item.isSome_value item
    have rest := Row.isSome_values others
    simp only [Row.values, Row.tokens, List.forall_mem_append, ← first, ← rest]
    cases item.value scope <;> cases others.values scope <;> simp

theorem Expression.isSome_values (tree : Expression) :
    (tree.values scope).isSome ↔ ∀ token ∈ tree.tokens, Known scope token := by
  match tree with
  | .last row =>
    rw [Expression.values, Option.isSome_map]
    exact Row.isSome_values row
  | .cons row others =>
    have first := Row.isSome_values row
    have rest := Expression.isSome_values others
    have bar : Known scope .bar := trivial
    simp only [Expression.values, Expression.tokens, List.forall_mem_append, List.forall_mem_cons,
      ← first, ← rest, bar, true_and]
    cases row.values scope <;> cases others.values scope <;> simp

end

theorem Expression.isSome_value (tree : Expression) :
    (tree.value scope).isSome ↔ ∀ token ∈ tree.tokens, Known scope token := by
  rw [Expression.value, Option.isSome_map]
  exact tree.isSome_values

theorem SetItem.isSome_value (item : SetItem) :
    (item.value scope).isSome ↔ ∀ token ∈ item.tokens, Known scope token := by
  cases item with
  | range low high =>
    cases low <;> cases high <;> simp [SetItem.value, SetItem.tokens, Literal.token, Known]
  | _ => simp [SetItem.value, SetItem.tokens, Known, Definitions.contains]

theorem SetItem.isSome_foldlM (items : List SetItem) (set : CharSet) :
    (items.foldlM (fun set (item : SetItem) => (item.value scope).map set.union) set).isSome ↔
      ∀ token ∈ items.flatMap SetItem.tokens, Known scope token := by
  induction items generalizing set with
  | nil => simp
  | cons item items ih =>
    rw [List.foldlM_cons, List.flatMap_cons, List.forall_mem_append, ← item.isSome_value]
    cases item.value scope with
    | none => simp
    | some value => simpa using ih (set.union value)

/-- A line says something when every name behind its first token is known. -/
theorem LineTree.exists_statement_iff {tree : LineTree} {found : List PlacedToken}
    (written : tree.tokens = found.map (·.token)) :
    (∃ statement, tree.statement? scope (found.map (·.position)) = some statement) ↔
      ∀ token ∈ tree.tokens.tail, Known scope token := by
  have equals : Known scope .equals := trivial
  have turnstile : Known scope .turnstile := trivial
  rw [← Option.isSome_iff_exists]
  cases tree with
  | blank | startCode number => simp [LineTree.statement?, LineTree.tokens]
  | setDefinition name items =>
    simp only [LineTree.statement?, LineTree.tokens, Option.isSome_map, SetItem.union,
      SetItem.isSome_foldlM, List.tail_cons, List.forall_mem_cons, equals, true_and]
  | regexDefinition name body =>
    simp only [LineTree.statement?, LineTree.tokens, Option.isSome_map, Expression.isSome_value,
      List.tail_cons, List.forall_mem_cons, equals, true_and]
  | rule name body =>
    -- a body has a first token, whose place the rule keeps
    obtain ⟨token, rest, eq, -⟩ := body.tokens_eq_cons
    rw [LineTree.tokens, eq] at written
    obtain ⟨first, others, rfl, -, written⟩ := List.map_eq_cons_iff.1 written.symm
    obtain ⟨second, others, rfl, -, written⟩ := List.map_eq_cons_iff.1 written
    obtain ⟨third, others, rfl, -, written⟩ := List.map_eq_cons_iff.1 written
    simp only [LineTree.statement?, List.map_cons, LineTree.tokens, Option.isSome_map,
      Expression.isSome_value, List.tail_cons, List.forall_mem_cons, turnstile, true_and]

end LexSpec.Grammar
