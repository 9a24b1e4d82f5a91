import Mathlib.Data.List.Forall2
import LexSpec.Proofs.Agreement
import LexSpec.Proofs.Grammar.Expression

/-! # Reading expressions

`Regex.ofTokens` folds over the tokens of an expression with the open groups as its state. Here it is
measured against the syntax trees: it accepts the tokens of a tree whose names are in scope, with the
value of that tree, and no others.

In one direction the induction is on the tree: reading its tokens pushes its value. In the other it is
on the tokens, with `GroupsSpelled` as the invariant: whatever has been read so far is spelled by
trees that have the values in the state, with an open parenthesis for each group around the innermost.
-/

namespace LexSpec

/-! ## Joining to the left -/

theorem Regex.concat_concat {values : List Regex} (nonempty : values ≠ []) (last : Regex) :
    Regex.concat (values ++ [last]) = .seq (Regex.concat values) last := by
  cases values with
  | nil => exact absurd rfl nonempty
  | cons first rest => simp [Regex.concat, List.foldl_append]

theorem Regex.anyOf_concat {values : List Regex} (nonempty : values ≠ []) (last : Regex) :
    Regex.anyOf (values ++ [last]) = .alt (Regex.anyOf values) last := by
  cases values with
  | nil => exact absurd rfl nonempty
  | cons first rest => simp [Regex.anyOf, List.foldl_append]

theorem Regex.ofRow_eq_concat (last : Regex) (earlier : List Regex) :
    Regex.ofRow last earlier = .concat (last :: earlier).reverse := by
  induction earlier generalizing last with
  | nil => rfl
  | cons previous earlier ih =>
    rw [List.reverse_cons, Regex.concat_concat (by simp), ← ih, Regex.ofRow]

theorem Regex.ofAlternatives_eq_anyOf (last : Regex) (earlier : List Regex) :
    Regex.ofAlternatives last earlier = .anyOf (last :: earlier).reverse := by
  induction earlier generalizing last with
  | nil => rfl
  | cons previous earlier ih =>
    rw [List.reverse_cons, Regex.anyOf_concat (by simp), ← ih, Regex.ofAlternatives]

/-! ## Open groups -/

namespace OpenGroup

theorem foldl_push (values : List Regex) (group : OpenGroup) :
    values.foldl push group = { group with items := values.reverse ++ group.items } := by
  induction values generalizing group with
  | nil => rfl
  | cons value values ih => simp [ih, push]

theorem row?_eq_some_iff {group : OpenGroup} {row : Regex} :
    group.row? = some row ↔ group.items ≠ [] ∧ row = .concat group.items.reverse := by
  unfold row?
  cases items : group.items with
  | nil => simp
  | cons last earlier => simp [Regex.ofRow_eq_concat, eq_comm]

theorem value?_eq_some_iff {group : OpenGroup} {value : Regex} :
    group.value? = some value ↔ group.items ≠ [] ∧
      value = .anyOf (group.alternatives.reverse ++ [.concat group.items.reverse]) := by
  rw [value?, Option.map_eq_some_iff]
  constructor
  · rintro ⟨row, found, rfl⟩
    obtain ⟨nonempty, rfl⟩ := row?_eq_some_iff.1 found
    exact ⟨nonempty, by rw [Regex.ofAlternatives_eq_anyOf, List.reverse_cons]⟩
  · rintro ⟨nonempty, rfl⟩
    refine ⟨_, row?_eq_some_iff.2 ⟨nonempty, rfl⟩, ?_⟩
    rw [Regex.ofAlternatives_eq_anyOf, List.reverse_cons]

end OpenGroup

namespace OpenGroups

theorem foldl_push (values : List Regex) (groups : OpenGroups) :
    values.foldl push groups = { groups with inner := values.foldl OpenGroup.push groups.inner } := by
  induction values generalizing groups with
  | nil => rfl
  | cons value values ih => exact ih (groups.push value)

end OpenGroups

namespace Grammar

variable {scope : Scope}

/-! ## The tokens of a tree are read -/

theorem operators_read {operators : List Operator} {found : List PlacedToken}
    (written : found.map (·.token) = operators.map Operator.token) (groups : OpenGroups)
    (value : Regex) :
    found.foldlM (OpenGroups.next scope) (groups.push value) =
      .ok (groups.push (operators.foldl (fun regex operator => operator.apply regex) value)) := by
  induction operators generalizing found value with
  | nil =>
    obtain rfl := List.map_eq_nil_iff.1 written
    rfl
  | cons operator operators ih =>
    obtain ⟨first, rest, rfl, token, written⟩ := List.map_eq_cons_iff.1 written
    have step : OpenGroups.next scope (groups.push value) first =
        .ok (groups.push (operator.apply value)) := by
      cases operator <;> simp only [OpenGroups.next, token, Operator.token] <;> rfl
    rw [List.foldlM_cons, step]
    exact ih written (operator.apply value)

mutual

theorem Atom.read {atom : Atom} {value : Regex} {found : List PlacedToken}
    (meaning : atom.value scope = some value) (written : found.map (·.token) = atom.tokens)
    (groups : OpenGroups) :
    found.foldlM (OpenGroups.next scope) groups = .ok (groups.push value) := by
  match atom with
  | .emptyGroup =>
    obtain ⟨first, rest, rfl, openParen, written⟩ := List.map_eq_cons_iff.1 written
    obtain ⟨second, rest, rfl, closeParen, written⟩ := List.map_eq_cons_iff.1 written
    obtain rfl := List.map_eq_nil_iff.1 written
    cases meaning
    simp only [List.foldlM_cons, OpenGroups.next, openParen, closeParen]
    rfl
  | .group body =>
    obtain ⟨values, meant, rfl⟩ := Option.map_eq_some_iff.1 meaning
    obtain ⟨first, rest, rfl, openParen, written⟩ := List.map_eq_cons_iff.1 written
    obtain ⟨inside, behind, rfl, writtenInside, closing⟩ := List.map_eq_append_iff.1 written
    obtain ⟨last, nothing, rfl, closeParen, closing⟩ := List.map_eq_cons_iff.1 closing
    obtain rfl := List.map_eq_nil_iff.1 closing
    -- between its parentheses the body is read into a group of its own
    obtain ⟨inner, body, result, items⟩ :=
      Expression.read meant writtenInside [] (groups.inner :: groups.outer)
    have opened : OpenGroups.next scope groups first = .ok groups.openGroup := by
      simp only [OpenGroups.next, openParen]
    -- a body has items, so this is not the empty pair of parentheses
    have notStart : inner ≠ .start := fun start => items (by rw [start]; rfl)
    rw [List.foldlM_cons, opened]
    change (inside ++ [last]).foldlM (OpenGroups.next scope) groups.openGroup = _
    rw [List.foldlM_append, OpenGroups.openGroup, OpenGroup.start, body]
    change [last].foldlM (OpenGroups.next scope) _ = _
    simp only [List.foldlM_cons, OpenGroups.next, closeParen, OpenGroups.close?, notStart, result]
    rfl
  | .setName name =>
    obtain ⟨set, defined, rfl⟩ := Option.map_eq_some_iff.1 meaning
    obtain ⟨first, rfl, token⟩ := List.map_eq_singleton_iff.1 written
    simp only [List.foldlM_cons, OpenGroups.next, token, defined]
    rfl
  | .regexName name =>
    rw [Atom.value] at meaning
    obtain ⟨first, rfl, token⟩ := List.map_eq_singleton_iff.1 written
    simp only [List.foldlM_cons, OpenGroups.next, token, meaning]
    rfl
  | .word _ | .escape _ | .dot =>
    obtain ⟨first, rfl, token⟩ := List.map_eq_singleton_iff.1 written
    cases meaning
    simp only [List.foldlM_cons, OpenGroups.next, token]
    rfl

theorem Item.read {item : Item} {value : Regex} {found : List PlacedToken}
    (meaning : item.value scope = some value) (written : found.map (·.token) = item.tokens)
    (groups : OpenGroups) :
    found.foldlM (OpenGroups.next scope) groups = .ok (groups.push value) := by
  match item with
  | .mk atom operators =>
    obtain ⟨inner, meant, rfl⟩ := Option.map_eq_some_iff.1 meaning
    obtain ⟨front, back, rfl, written, operating⟩ := List.map_eq_append_iff.1 written
    rw [List.foldlM_append, Atom.read meant written groups]
    exact operators_read operating groups inner

theorem Row.read {row : Row} {values : List Regex} {found : List PlacedToken}
    (meaning : row.values scope = some values) (written : found.map (·.token) = row.tokens)
    (groups : OpenGroups) :
    values ≠ [] ∧ found.foldlM (OpenGroups.next scope) groups = .ok (values.foldl .push groups) := by
  match row with
  | .last item =>
    obtain ⟨value, meant, rfl⟩ := Option.map_eq_some_iff.1 meaning
    exact ⟨by simp, Item.read meant written groups⟩
  | .cons item others =>
    simp only [Row.values, Option.bind_eq_bind, Option.bind_eq_some_iff, Option.pure_def,
      Option.some.injEq] at meaning
    obtain ⟨value, first, values, meaning, rfl⟩ := meaning
    obtain ⟨front, back, rfl, writtenFirst, written⟩ := List.map_eq_append_iff.1 written
    refine ⟨by simp, ?_⟩
    rw [List.foldlM_append, Item.read first writtenFirst groups]
    exact (Row.read meaning written (groups.push value)).2

theorem Expression.read {tree : Expression} {values : List Regex} {found : List PlacedToken}
    (meaning : tree.values scope = some values) (written : found.map (·.token) = tree.tokens)
    (alternatives : List Regex) (outer : List OpenGroup) :
    ∃ inner : OpenGroup,
      found.foldlM (OpenGroups.next scope) ⟨⟨alternatives, []⟩, outer⟩ = .ok ⟨inner, outer⟩ ∧
        inner.value? = some (.anyOf (alternatives.reverse ++ values)) ∧ inner.items ≠ [] := by
  match tree with
  | .last row =>
    obtain ⟨items, meant, rfl⟩ := Option.map_eq_some_iff.1 meaning
    obtain ⟨nonempty, reads⟩ := Row.read meant written ⟨⟨alternatives, []⟩, outer⟩
    rw [OpenGroups.foldl_push, OpenGroup.foldl_push] at reads
    exact ⟨_, reads, OpenGroup.value?_eq_some_iff.2 ⟨by simpa using nonempty, by simp⟩,
      by simpa using nonempty⟩
  | .cons row others =>
    simp only [Expression.values, Option.bind_eq_bind, Option.bind_eq_some_iff, Option.pure_def,
      Option.some.injEq] at meaning
    obtain ⟨items, first, values, meaning, rfl⟩ := meaning
    obtain ⟨front, back, rfl, writtenFirst, written⟩ := List.map_eq_append_iff.1 written
    obtain ⟨bar, back, rfl, token, written⟩ := List.map_eq_cons_iff.1 written
    -- the bar makes an alternative of the row before it and leaves an empty row
    obtain ⟨nonempty, reads⟩ := Row.read first writtenFirst ⟨⟨alternatives, []⟩, outer⟩
    rw [OpenGroups.foldl_push, OpenGroup.foldl_push] at reads
    have row : OpenGroup.row? ⟨alternatives, items.reverse ++ []⟩ = some (.concat items) :=
      OpenGroup.row?_eq_some_iff.2 ⟨by simpa using nonempty, by simp⟩
    have step : OpenGroups.next scope ⟨⟨alternatives, items.reverse ++ []⟩, outer⟩ bar =
        .ok ⟨⟨.concat items :: alternatives, []⟩, outer⟩ := by
      simp only [OpenGroups.next, token, OpenGroups.update?, OpenGroup.bar?, row]
      rfl
    obtain ⟨inner, rest, result, left⟩ :=
      Expression.read meaning written (.concat items :: alternatives) outer
    refine ⟨inner, ?_, by simpa using result, left⟩
    rw [List.foldlM_append, reads]
    change (bar :: back).foldlM (OpenGroups.next scope) _ = _
    rw [List.foldlM_cons, step]
    exact rest

end

theorem Expression.ofTokens_eq_ok {tree : Expression} {regex : Regex} {found : List PlacedToken}
    (meaning : tree.value scope = some regex) (written : found.map (·.token) = tree.tokens) :
    Regex.ofTokens scope found = .ok regex := by
  obtain ⟨values, meant, rfl⟩ := Option.map_eq_some_iff.1 meaning
  obtain ⟨inner, reads, result, -⟩ := Expression.read meant written [] []
  change (found.foldlM (OpenGroups.next scope) ⟨⟨[], []⟩, []⟩ >>= OpenGroups.finish) = _
  rw [reads]
  simp only [bind, Except.bind, OpenGroups.finish, result]
  rfl

/-! ## What has been read is spelled by trees -/

theorem exists_row {items : List Item} {values : List Regex}
    (meanings : List.Forall₂ (fun item value => item.value scope = some value) items values)
    (nonempty : values ≠ []) :
    ∃ row : Row, row.tokens = items.flatMap Item.tokens ∧ row.values scope = some values := by
  induction meanings with
  | nil => exact absurd rfl nonempty
  | @cons item value items values meaning meanings ih =>
    cases meanings with
    | nil => exact ⟨.last item, by simp [Row.tokens], by simp [Row.values, meaning]⟩
    | cons other others =>
      obtain ⟨row, written, meant⟩ := ih (by simp)
      exact ⟨.cons item row, by simp only [Row.tokens, written, List.flatMap_cons],
        by simp [Row.values, meaning, meant]⟩

/-- The meaning of a row. -/
def Row.value (scope : Scope) (row : Row) : Option Regex := (row.values scope).map .concat

/-- Rows before a last one, each with its bar. -/
def rowsTokens (rows : List Row) : List Token := rows.flatMap fun row => row.tokens ++ [.bar]

theorem exists_expression {rows : List Row} {values : List Regex} {last : Row} {lastValue : Regex}
    (meanings : List.Forall₂ (fun row value => row.value scope = some value) rows values)
    (meaning : last.value scope = some lastValue) :
    ∃ tree : Expression, tree.tokens = rowsTokens rows ++ last.tokens ∧
      tree.values scope = some (values ++ [lastValue]) := by
  induction meanings with
  | nil =>
    obtain ⟨items, meant, rfl⟩ := Option.map_eq_some_iff.1 meaning
    exact ⟨.last last, by simp [Expression.tokens, rowsTokens], by simp [Expression.values, meant]⟩
  | @cons row value rows values first meanings ih =>
    obtain ⟨tree, written, meant⟩ := ih
    obtain ⟨items, meantFirst, rfl⟩ := Option.map_eq_some_iff.1 first
    refine ⟨.cons row tree, ?_, by simp [Expression.values, meantFirst, meant]⟩
    simp [Expression.tokens, written, rowsTokens, List.append_assoc]

/-- A group is spelled by rows and items with the values that it holds. As in the group, the latest of
    them comes first. -/
def GroupSpelled (scope : Scope) (group : OpenGroup) (tokens : List Token) : Prop :=
  ∃ (rows : List Row) (items : List Item),
    List.Forall₂ (fun row value => row.value scope = some value) rows group.alternatives ∧
      List.Forall₂ (fun item value => item.value scope = some value) items group.items ∧
      tokens = rowsTokens rows.reverse ++ items.reverse.flatMap Item.tokens

/-- Groups around the innermost one, from the inside out, each with the parenthesis that opens the next
    group behind it. -/
def OuterSpelled (scope : Scope) : List OpenGroup → List Token → Prop
  | [], tokens => tokens = []
  | group :: outer, tokens =>
    ∃ before inside, OuterSpelled scope outer before ∧ GroupSpelled scope group inside ∧
      tokens = before ++ inside ++ [.openParen]

/-- The invariant of the fold: the tokens so far spell the open groups. -/
def GroupsSpelled (scope : Scope) (groups : OpenGroups) (tokens : List Token) : Prop :=
  ∃ before inside, OuterSpelled scope groups.outer before ∧ GroupSpelled scope groups.inner inside ∧
    tokens = before ++ inside

theorem groupSpelled_start : GroupSpelled scope .start [] := ⟨[], [], .nil, .nil, rfl⟩

theorem eq_nil_of_groupSpelled_start {tokens : List Token} (spelled : GroupSpelled scope .start tokens) :
    tokens = [] := by
  obtain ⟨rows, items, alternatives, values, rfl⟩ := spelled
  cases alternatives
  cases values
  rfl

theorem GroupSpelled.push {group : OpenGroup} {tokens : List Token} {value : Regex}
    (spelled : GroupSpelled scope group tokens) (item : Item) (meaning : item.value scope = some value) :
    GroupSpelled scope (group.push value) (tokens ++ item.tokens) := by
  obtain ⟨rows, items, alternatives, values, rfl⟩ := spelled
  exact ⟨rows, item :: items, alternatives, .cons meaning values, by simp⟩

theorem GroupSpelled.row {group : OpenGroup} {tokens : List Token} {value : Regex}
    (spelled : GroupSpelled scope group tokens) (complete : group.row? = some value) :
    ∃ (rows : List Row) (row : Row),
      List.Forall₂ (fun row value => row.value scope = some value) rows group.alternatives ∧
        row.value scope = some value ∧ tokens = rowsTokens rows.reverse ++ row.tokens := by
  obtain ⟨rows, items, alternatives, values, rfl⟩ := spelled
  obtain ⟨nonempty, rfl⟩ := OpenGroup.row?_eq_some_iff.1 complete
  obtain ⟨row, written, meant⟩ := exists_row (List.forall₂_reverse_iff.2 values) (by simpa using nonempty)
  exact ⟨rows, row, alternatives, by rw [Row.value, meant]; rfl, by rw [written]⟩

theorem GroupSpelled.bar {group changed : OpenGroup} {tokens : List Token}
    (spelled : GroupSpelled scope group tokens) (bar : group.bar? = some changed) :
    GroupSpelled scope changed (tokens ++ [.bar]) := by
  obtain ⟨value, complete, rfl⟩ := Option.map_eq_some_iff.1 bar
  obtain ⟨rows, row, alternatives, meaning, rfl⟩ := spelled.row complete
  exact ⟨row :: rows, [], .cons meaning alternatives, .nil, by simp [rowsTokens]⟩

theorem GroupSpelled.operate (operator : Operator) {group changed : OpenGroup} {tokens : List Token}
    (spelled : GroupSpelled scope group tokens) (operate : group.operate? operator.apply = some changed) :
    GroupSpelled scope changed (tokens ++ [operator.token]) := by
  obtain ⟨alternatives, held⟩ := group
  obtain ⟨rows, items, alternatives, values, rfl⟩ := spelled
  cases values with
  | nil => simp [OpenGroup.operate?] at operate
  | @cons item value items earlier meaning values =>
    obtain ⟨atom, operators⟩ := item
    obtain ⟨inner, meant, rfl⟩ := Option.map_eq_some_iff.1 meaning
    simp only [OpenGroup.operate?, Option.some.injEq] at operate
    subst operate
    -- the latest item gets one more operator, behind those that it has
    refine ⟨rows, .mk atom (operators ++ [operator]) :: items, alternatives, .cons ?_ values, ?_⟩
    · simp [Item.value, meant, List.foldl_append]
    · simp [Item.tokens]

theorem GroupSpelled.value {group : OpenGroup} {tokens : List Token} {value : Regex}
    (spelled : GroupSpelled scope group tokens) (complete : group.value? = some value) :
    ∃ tree : Expression, tree.tokens = tokens ∧ tree.value scope = some value := by
  obtain ⟨last, row, rfl⟩ := Option.map_eq_some_iff.1 complete
  obtain ⟨rows, row, alternatives, meaning, rfl⟩ := spelled.row row
  obtain ⟨tree, written, meant⟩ := exists_expression (List.forall₂_reverse_iff.2 alternatives) meaning
  refine ⟨tree, written, ?_⟩
  rw [Expression.value, meant, Regex.ofAlternatives_eq_anyOf, List.reverse_cons]
  rfl

theorem groupsSpelled_start : GroupsSpelled scope .start [] := ⟨[], [], rfl, groupSpelled_start, rfl⟩

theorem GroupsSpelled.push {groups : OpenGroups} {tokens : List Token} {value : Regex}
    (spelled : GroupsSpelled scope groups tokens) (item : Item) (meaning : item.value scope = some value) :
    GroupsSpelled scope (groups.push value) (tokens ++ item.tokens) := by
  obtain ⟨before, inside, outer, inner, rfl⟩ := spelled
  exact ⟨before, inside ++ item.tokens, outer, inner.push item meaning, List.append_assoc ..⟩

theorem GroupsSpelled.update {groups changed : OpenGroups} {tokens : List Token} {token : Token}
    {change : OpenGroup → Option OpenGroup} (spelled : GroupsSpelled scope groups tokens)
    (kept : ∀ {group changed : OpenGroup} {tokens : List Token}, GroupSpelled scope group tokens →
      change group = some changed → GroupSpelled scope changed (tokens ++ [token]))
    (update : groups.update? change = some changed) :
    GroupsSpelled scope changed (tokens ++ [token]) := by
  obtain ⟨before, inside, outer, inner, rfl⟩ := spelled
  obtain ⟨group, changed, rfl⟩ := Option.map_eq_some_iff.1 update
  exact ⟨before, inside ++ [token], outer, kept inner changed, List.append_assoc ..⟩

theorem GroupsSpelled.openGroup {groups : OpenGroups} {tokens : List Token}
    (spelled : GroupsSpelled scope groups tokens) :
    GroupsSpelled scope groups.openGroup (tokens ++ [.openParen]) := by
  obtain ⟨before, inside, outer, inner, rfl⟩ := spelled
  exact ⟨before ++ inside ++ [.openParen], [], ⟨before, inside, outer, inner, rfl⟩, groupSpelled_start,
    (List.append_nil _).symm⟩

theorem GroupsSpelled.close {groups changed : OpenGroups} {tokens : List Token}
    (spelled : GroupsSpelled scope groups tokens) (close : groups.close? = some changed) :
    GroupsSpelled scope changed (tokens ++ [.closeParen]) := by
  obtain ⟨innermost, outer⟩ := groups
  obtain ⟨before, inside, outerSpelled, inner, rfl⟩ := spelled
  cases outer with
  | nil => simp [OpenGroups.close?] at close
  | cons around outer =>
    obtain ⟨earlier, row, outerSpelled, aroundSpelled, rfl⟩ := outerSpelled
    simp only [OpenGroups.close?] at close
    split at close
    next start =>
      -- nothing was read behind the open parenthesis
      subst start
      cases close
      obtain rfl := eq_nil_of_groupSpelled_start inner
      have item := aroundSpelled.push (.mk .emptyGroup []) rfl
      exact ⟨earlier, _, outerSpelled, item, by simp [Item.tokens, Atom.tokens]⟩
    next notStart =>
      obtain ⟨value, complete, rfl⟩ := Option.map_eq_some_iff.1 close
      obtain ⟨tree, rfl, meaning⟩ := inner.value complete
      -- the body becomes an item of the group around it
      have meaning : Item.value scope (.mk (.group tree) []) = some value := by
        rw [Expression.value] at meaning
        simp [Item.value, Atom.value, meaning]
      have item := aroundSpelled.push _ meaning
      exact ⟨earlier, _, outerSpelled, item, by simp [Item.tokens, Atom.tokens]⟩

theorem OpenGroups.orUnexpected_eq_ok {found : PlacedToken} {result : Option OpenGroups}
    {groups : OpenGroups} (h : OpenGroups.next.orUnexpected found result = .ok groups) :
    result = some groups := by
  cases result with
  | none => cases h
  | some groups => cases h; rfl

/-- What one token does keeps the invariant. -/
theorem GroupsSpelled.next {groups changed : OpenGroups} {tokens : List Token} {found : PlacedToken}
    (spelled : GroupsSpelled scope groups tokens)
    (reads : OpenGroups.next scope groups found = .ok changed) :
    GroupsSpelled scope changed (tokens ++ [found.token]) := by
  unfold OpenGroups.next at reads
  cases token : found.token with
  | setName name =>
    simp only [token] at reads
    split at reads
    next set defined =>
      cases reads
      exact spelled.push (.mk (.setName name) []) (by simp [Item.value, Atom.value, defined])
    next => cases reads
  | regexName name =>
    simp only [token] at reads
    split at reads
    next regex defined =>
      cases reads
      exact spelled.push (.mk (.regexName name) []) (by simp [Item.value, Atom.value, defined])
    next => cases reads
  | word text =>
    simp only [token, Except.ok.injEq] at reads
    exact reads ▸ spelled.push (.mk (.word text) []) rfl
  | escape c =>
    simp only [token, Except.ok.injEq] at reads
    exact reads ▸ spelled.push (.mk (.escape c) []) rfl
  | dot =>
    simp only [token, Except.ok.injEq] at reads
    exact reads ▸ spelled.push (.mk .dot []) rfl
  | openParen =>
    simp only [token, Except.ok.injEq] at reads
    exact reads ▸ spelled.openGroup
  | closeParen =>
    simp only [token] at reads
    exact spelled.close (OpenGroups.orUnexpected_eq_ok reads)
  | bar =>
    simp only [token] at reads
    exact spelled.update .bar (OpenGroups.orUnexpected_eq_ok reads)
  | star =>
    simp only [token] at reads
    exact spelled.update (.operate .star) (OpenGroups.orUnexpected_eq_ok reads)
  | plus =>
    simp only [token] at reads
    exact spelled.update (.operate .plus) (OpenGroups.orUnexpected_eq_ok reads)
  | question =>
    simp only [token] at reads
    exact spelled.update (.operate .question) (OpenGroups.orUnexpected_eq_ok reads)
  | _ =>
    simp only [token] at reads
    cases reads

theorem groupsSpelled_of_foldlM {found : List PlacedToken} {groups : OpenGroups}
    (reads : found.foldlM (OpenGroups.next scope) .start = .ok groups) :
    GroupsSpelled scope groups (found.map (·.token)) := by
  refine foldlM_induction (fun groups seen => GroupsSpelled scope groups (seen.map (·.token)))
    groupsSpelled_start (fun spelled step => ?_) reads
  rw [List.map_append]
  exact spelled.next step

theorem exists_tree_of_ofTokens {found : List PlacedToken} {regex : Regex}
    (reads : Regex.ofTokens scope found = .ok regex) :
    ∃ tree : Expression, tree.tokens = found.map (·.token) ∧ tree.value scope = some regex := by
  obtain ⟨groups, fold, finish⟩ := bind_eq_ok_iff.1 reads
  obtain ⟨before, inside, outer, inner, written⟩ := groupsSpelled_of_foldlM fold
  unfold OpenGroups.finish at finish
  split at finish
  next value noOuter complete =>
    cases finish
    rw [noOuter] at outer
    obtain rfl : before = [] := outer
    obtain ⟨tree, rfl, meaning⟩ := inner.value complete
    exact ⟨tree, by simpa using written.symm, meaning⟩
  next => cases finish

/-- The reader of expressions accepts exactly the tokens of the trees that have a value, and gives that
    value. -/
theorem ofTokens_eq_ok_iff {found : List PlacedToken} {regex : Regex} :
    Regex.ofTokens scope found = .ok regex ↔
      ∃ tree : Expression, tree.tokens = found.map (·.token) ∧ tree.value scope = some regex :=
  ⟨exists_tree_of_ofTokens, fun ⟨_, written, meaning⟩ => Expression.ofTokens_eq_ok meaning written.symm⟩

end Grammar

end LexSpec
