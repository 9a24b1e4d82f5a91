import LexSpec.Proofs.Descent.Sets

/-! # Expressions by descent

Each function reads its part of an expression, and the groups that are open before and behind it are known. An
item is put into the row of the innermost group (`Pushes`), items complete a row (`Completes`), and alternatives
complete the group (`Closes`). The functions call each other, and so do the theorems about them.

A call takes one from the fuel and reads a token at least every fourth time, from an expression over a row and
an item to the expression in parentheses. So the fuel lasts if it is four times the bytes ahead, and a little
more.
-/

namespace LexSpec

/-- Expressions are read token by token. -/
def OpenGroups.fold (scope : Scope) : Fold OpenGroups Regex :=
  ⟨next scope, finish, Grammar.OpenGroups.eq_incomplete_of_finish⟩

namespace OpenGroups

variable {scope : Scope} {groups : OpenGroups} {found : PlacedToken}

theorem next_of_operator {operator : Regex → Regex}
    (shown : Descent.operator? (some found.token) = some operator) :
    groups.next scope found = next.orUnexpected found (groups.update? (·.operate? operator)) := by
  cases token : found.token <;> rw [token] at shown <;> cases shown <;> simp only [next, token]

theorem next_push_of_operator {operator : Regex → Regex} {item : Regex}
    (shown : Descent.operator? (some found.token) = some operator) :
    (groups.push item).next scope found = .ok (groups.push (operator item)) := by
  rw [next_of_operator shown]
  rfl

theorem next_of_operator_of_nil {operator : Regex → Regex}
    (shown : Descent.operator? (some found.token) = some operator) (empty : groups.inner.items = []) :
    groups.next scope found = .error (.unexpected found) := by
  rw [next_of_operator shown, update?, OpenGroup.operate?, empty]
  rfl

theorem finish_of_row_none {inner : OpenGroup} {outer : List OpenGroup} (empty : inner.row? = none) :
    finish ⟨inner, outer⟩ = .error .incomplete := by
  cases outer with
  | nil => simp only [finish, OpenGroup.value?, empty, Option.map_none]
  | cons => rfl

/-- An empty row cannot end, unless it is all there is in a pair of parentheses. -/
theorem next_of_row_none {inner : OpenGroup} {outer : List OpenGroup} (empty : inner.row? = none)
    (opened : inner ≠ .start ∨ outer = [] ∨ found.token ≠ .closeParen)
    (ends : found.token = .bar ∨ found.token = .closeParen) :
    next scope ⟨inner, outer⟩ found = .error (.unexpected found) := by
  rcases ends with bar | closes
  · simp only [next, bar, update?, OpenGroup.bar?, empty, Option.map_none, next.orUnexpected]
  · have stays : close? ⟨inner, outer⟩ = none := by
      cases outer with
      | nil => rfl
      | cons around outer =>
        have begun : inner ≠ .start := by simpa [closes] using opened
        simp only [close?, if_neg begun, OpenGroup.value?, empty, Option.map_none]
    simp only [next, closes, stays, next.orUnexpected]

theorem next_openGroup_of_closeParen (closes : found.token = .closeParen) :
    groups.openGroup.next scope found = .ok (groups.push .empty) := by
  simp only [next, closes]
  rfl

theorem next_of_closeParen {inner : OpenGroup} {value : Regex} (reads : inner.value? = some value)
    (closes : found.token = .closeParen) :
    next scope ⟨inner, groups.inner :: groups.outer⟩ found = .ok (groups.push value) := by
  have begun : inner ≠ .start := by
    rintro rfl
    cases reads
  simp only [next, closes, close?, if_neg begun, reads]
  rfl

theorem next_of_bar {inner : OpenGroup} {outer : List OpenGroup} {row : Regex} (reads : inner.row? = some row)
    (bar : found.token = .bar) :
    next scope ⟨inner, outer⟩ found = .ok ⟨⟨row :: inner.alternatives, []⟩, outer⟩ := by
  simp only [next, bar, update?, OpenGroup.bar?, reads, Option.map_some, next.orUnexpected]

end OpenGroups

theorem OpenGroup.items_eq_nil_of_row? {group : OpenGroup} (empty : group.row? = none) : group.items = [] := by
  obtain ⟨alternatives, items⟩ := group
  cases items with
  | nil => rfl
  | cons => cases empty

theorem OpenGroup.row?_push (group : OpenGroup) (item : Regex) :
    (group.push item).row? = some (Descent.join group.row? item) := by
  obtain ⟨alternatives, items⟩ := group
  cases items <;> rfl

namespace Descent

variable {line : Line} {result : Except Refusal Regex} {session : Session} {fuel : Nat} {groups : OpenGroups}
  {input : Cursor} {found : PlacedToken} {rest : List PlacedToken}

/-! ## Items with operators -/

/-- The line goes on behind an item that has been put into the row of the innermost group. -/
structure Pushes (line : Line) (result : Except Refusal Regex) (scope : Scope) (groups : OpenGroups)
    (bytes : Nat) (item : Regex) (next : Cursor) : Prop where
  shorter : next.bytesLeft < bytes
  place : (OpenGroups.fold scope).At line result (groups.push item) next

theorem goesOn_of_operator {operator : Regex → Regex} {lookahead : Option Token}
    (shown : operator? lookahead = some operator) : lookahead ∉ [none, some .newline] := by
  intro ends
  rcases List.mem_pair.1 ends with rfl | rfl <;> cases shown

theorem meets_operators {item : Regex} {bytes : Nat}
    (place : (OpenGroups.fold session.scope).At line result (groups.push item) input)
    (shorter : input.bytesLeft < bytes) (enough : input.bytesLeft + 1 < fuel) :
    Meets line result session
      (fun item next => Pushes line result session.scope groups bytes item next ∧
        operator? next.line.lookahead = none)
      input (operators fuel item) := by
  induction fuel generalizing input item with
  | zero => omega
  | succ fuel ih =>
    have ahead : input.bytesLeft < fuel := by omega
    refine .bind (meets_peekToken place ahead) ?_
    rintro _ next ⟨rfl, rfl⟩
    cases shown : operator? next.line.lookahead with
    | none => exact .pure ⟨⟨shorter, place⟩, shown⟩
    | some operator =>
      obtain ⟨found, rest, begins⟩ := Cursor.exists_begins (goesOn_of_operator shown)
      have behind := begins.bytesLeft_lt
      rw [begins.lookahead_eq] at shown
      have operated := place.step begins (OpenGroups.next_push_of_operator shown)
      exact meets_bind_next begins ahead (ih operated (by omega) (by omega))

/-! ## Rows and groups -/

/-- The line goes on behind a row, with the alternatives before it as they were. -/
structure Completes (line : Line) (result : Except Refusal Regex) (scope : Scope) (inner : OpenGroup)
    (outer : List OpenGroup) (bytes : Nat) (row : Regex) (next : Cursor) : Prop where
  shorter : next.bytesLeft ≤ bytes
  ends : next.line.lookahead ∈ rowEnds
  place : ∃ items, (OpenGroups.fold scope).At line result ⟨⟨inner.alternatives, items⟩, outer⟩ next ∧
    (OpenGroup.mk inner.alternatives items).row? = some row

/-- The line goes on behind all that is in a group. -/
structure Closes (line : Line) (result : Except Refusal Regex) (scope : Scope) (outer : List OpenGroup)
    (bytes : Nat) (value : Regex) (next : Cursor) : Prop where
  shorter : next.bytesLeft ≤ bytes
  ends : next.line.lookahead ∈ [none, some .newline, some .closeParen]
  place : ∃ inner, (OpenGroups.fold scope).At line result ⟨inner, outer⟩ next ∧ inner.value? = some value

/-- Where a row ends without an item, the line cannot go on. -/
theorem meets_bind_next_of_row_none {inner : OpenGroup} {outer : List OpenGroup} {given : Regex → Cursor → Prop}
    (place : (OpenGroups.fold session.scope).At line result ⟨inner, outer⟩ input) (empty : inner.row? = none)
    (opened : inner ≠ .start ∨ outer = [] ∨ input.line.lookahead ≠ some .closeParen)
    (ends : input.line.lookahead ∈ rowEnds) (enough : input.bytesLeft < fuel) :
    Meets line result session given input (next fuel >>= unexpected) := by
  cases tokens : input.line.tokens with
  | nil =>
    exact meets_bind_next_of_nil place enough tokens (OpenGroups.finish_of_row_none empty) fun _ _ => rfl
  | cons found rest =>
    have begins := Cursor.begins_of_cons tokens
    rw [begins.lookahead_eq] at opened ends
    refine meets_bind_next begins enough (meets_unexpected place begins ?_)
    refine OpenGroups.next_of_row_none empty (by simpa using opened) ?_
    simpa [rowEnds, begins.inside] using ends

/-- An expression in parentheses is closed, or the line cannot go on. -/
theorem meets_expect_closeParen {value : Regex} {bytes : Nat}
    (closes : Closes line result session.scope (groups.inner :: groups.outer) bytes value input)
    (enough : input.bytesLeft < fuel) :
    Meets line result session (fun _ => Pushes line result session.scope groups bytes value) input
      (expect fuel .closeParen) := by
  obtain ⟨shorter, ends, inner, place, reads⟩ := closes
  refine (meets_expect place enough Token.noConfusion rfl fun found rest begins other => ?_).mono ?_
  · rw [begins.lookahead_eq] at ends
    simp [other, begins.inside] at ends
  · rintro _ _ ⟨found, rest, begins, token, rfl⟩
    exact ⟨Nat.lt_of_lt_of_le begins.bytesLeft_lt shorter,
      place.step begins (OpenGroups.next_of_closeParen reads token)⟩

theorem exists_begins_of_rowEnds (goesOn : input.line.lookahead ∉ rowEnds) :
    ∃ found rest, input.Begins found rest :=
  Cursor.exists_begins fun ends => goesOn (List.mem_append_left [some Token.bar, some .closeParen] ends)

mutual

theorem meets_regex {input : Cursor} {outer : List OpenGroup} (fuel : Nat)
    (place : (OpenGroups.fold session.scope).At line result ⟨.start, outer⟩ input)
    (opened : outer = [] ∨ input.line.lookahead ≠ some .closeParen) (enough : 4 * input.bytesLeft + 5 ≤ fuel) :
    Meets line result session (Closes line result session.scope outer input.bytesLeft) input (regex fuel) := by
  cases fuel with
  | zero => omega
  | succ fuel =>
    refine .bind (meets_sequence fuel none place rfl (.inr opened) (.inl rfl) (by omega)) ?_
    rintro row next ⟨shorter, ends, items, place, reads⟩
    have value : (OpenGroup.mk [] items).value? = some row := congrArg (Option.map _) reads
    exact meets_alternatives fuel place value ends shorter (by omega)
termination_by fuel

theorem meets_alternatives {input : Cursor} {inner : OpenGroup} {outer : List OpenGroup} {before : Regex}
    {bytes : Nat} (fuel : Nat) (place : (OpenGroups.fold session.scope).At line result ⟨inner, outer⟩ input)
    (reads : inner.value? = some before) (ends : input.line.lookahead ∈ rowEnds)
    (shorter : input.bytesLeft ≤ bytes) (enough : 4 * input.bytesLeft + 4 ≤ fuel) :
    Meets line result session (Closes line result session.scope outer bytes) input
      (alternatives fuel before) := by
  cases fuel with
  | zero => omega
  | succ fuel =>
    have ahead : input.bytesLeft < fuel := by omega
    refine .bind (meets_peekToken place ahead) ?_
    rintro _ next ⟨rfl, rfl⟩
    split
    next bar =>
      obtain ⟨found, rest, begins, token⟩ := Cursor.exists_begins_of_lookahead bar Token.noConfusion
      have behind := begins.bytesLeft_lt
      -- the row before the bar is complete, and behind the bar another one begins
      obtain ⟨row, complete, rfl⟩ := Option.map_eq_some_iff.1 reads
      have barred := place.step begins (OpenGroups.next_of_bar complete token)
      have begun : OpenGroup.mk (row :: inner.alternatives) [] ≠ .start := by simp [OpenGroup.start]
      refine meets_bind_next begins ahead ?_
      refine .bind (meets_sequence fuel none barred rfl (.inl begun) (.inl rfl) (by omega)) ?_
      rintro last next ⟨shorter', ends, items, place, reads⟩
      have value : (OpenGroup.mk (row :: inner.alternatives) items).value? =
          some (.alt (.ofAlternatives row inner.alternatives) last) := congrArg (Option.map _) reads
      exact meets_alternatives fuel place value ends (by omega) (by omega)
    next noBar => exact .pure ⟨shorter, by simpa [rowEnds, noBar] using ends, inner, place, reads⟩
termination_by fuel

theorem meets_sequence {input : Cursor} {inner : OpenGroup} {outer : List OpenGroup} (fuel : Nat)
    (row : Option Regex) (place : (OpenGroups.fold session.scope).At line result ⟨inner, outer⟩ input)
    (reads : inner.row? = row)
    (opened : inner ≠ .start ∨ outer = [] ∨ input.line.lookahead ≠ some .closeParen)
    (operand : row = none ∨ operator? input.line.lookahead = none) (enough : 4 * input.bytesLeft + 4 ≤ fuel) :
    Meets line result session (Completes line result session.scope inner outer input.bytesLeft) input
      (sequence fuel row) := by
  cases fuel with
  | zero => omega
  | succ fuel =>
    have ahead : input.bytesLeft < fuel := by omega
    refine .bind (meets_peekToken place ahead) ?_
    rintro _ next ⟨rfl, rfl⟩
    split
    next ends =>
      cases row with
      | some row => exact .pure ⟨Nat.le_refl _, ends, inner.items, place, reads⟩
      | none => exact meets_bind_next_of_row_none place reads opened ends ahead
    next goesOn =>
      have empty := operand.imp_left fun none => OpenGroup.items_eq_nil_of_row? (reads.trans none)
      refine .bind (meets_operated fuel place goesOn empty (by omega)) ?_
      rintro item next ⟨⟨shorter, place⟩, noOperator⟩
      -- the row is not empty from here on
      have more : (inner.push item).row? = some (join row item) := by rw [OpenGroup.row?_push, reads]
      have begun : inner.push item ≠ .start := by simp [OpenGroup.start, OpenGroup.push]
      refine (meets_sequence fuel _ place more (.inl begun) (.inr noOperator) (by omega)).mono ?_
      rintro value last ⟨shorter', ends, place⟩
      exact ⟨by omega, ends, place⟩
termination_by fuel

theorem meets_operated {input : Cursor} {groups : OpenGroups} (fuel : Nat)
    (place : (OpenGroups.fold session.scope).At line result groups input)
    (goesOn : input.line.lookahead ∉ rowEnds)
    (operand : groups.inner.items = [] ∨ operator? input.line.lookahead = none)
    (enough : 4 * input.bytesLeft + 3 ≤ fuel) :
    Meets line result session
      (fun item next => Pushes line result session.scope groups input.bytesLeft item next ∧
        operator? next.line.lookahead = none)
      input (operated fuel) := by
  cases fuel with
  | zero => omega
  | succ fuel =>
    refine .bind (meets_atom fuel place goesOn operand (by omega)) ?_
    rintro item next ⟨shorter, place⟩
    exact meets_operators place shorter (by omega)
termination_by fuel

theorem meets_atom {input : Cursor} {groups : OpenGroups} (fuel : Nat)
    (place : (OpenGroups.fold session.scope).At line result groups input)
    (goesOn : input.line.lookahead ∉ rowEnds)
    (operand : groups.inner.items = [] ∨ operator? input.line.lookahead = none)
    (enough : 4 * input.bytesLeft + 2 ≤ fuel) :
    Meets line result session (Pushes line result session.scope groups input.bytesLeft) input (atom fuel) := by
  cases fuel with
  | zero => omega
  | succ fuel =>
    obtain ⟨found, rest, begins⟩ := exists_begins_of_rowEnds goesOn
    have spells := begins.spells
    have behind := begins.bytesLeft_lt
    rw [begins.lookahead_eq] at goesOn operand
    have pushes {item : Regex} (taken : groups.next session.scope found = .ok (groups.push item)) :
        Pushes line result session.scope groups input.bytesLeft item found.behind :=
      ⟨behind, place.step begins taken⟩
    refine meets_bind_next begins (by omega) ?_
    cases token : found.token with
    | openParen =>
      have step : groups.next session.scope found = .ok groups.openGroup := by simp only [OpenGroups.next, token]
      have entered := place.step begins step
      have ahead : found.behind.bytesLeft < fuel := by omega
      -- `()` is an item of its own, and all else is an expression in a new group
      refine .bind (meets_peekToken entered ahead) ?_
      rintro _ _ ⟨rfl, rfl⟩
      split
      next closes =>
        obtain ⟨last, rest, ends, closing⟩ := Cursor.exists_begins_of_lookahead closes Token.noConfusion
        have closed := entered.step ends (OpenGroups.next_openGroup_of_closeParen closing)
        exact meets_bind_next ends ahead (.pure ⟨Nat.lt_trans ends.bytesLeft_lt behind, closed⟩)
      next inside =>
        refine .bind (meets_regex fuel entered (.inr inside) (by omega)) fun value next closes => ?_
        have shorter := closes.shorter
        refine .bind (meets_expect_closeParen closes (by omega)) fun _ last pushed => ?_
        exact .pure ⟨Nat.lt_trans pushed.shorter behind, pushed.place⟩
    | setName name =>
      refine .bind (meets_namedSet place begins token fun undefined => ?_) ?_
      · exact by simp only [OpenGroups.fold, OpenGroups.next, token, undefined]
      · rintro set _ ⟨rfl, defined⟩
        exact .pure (pushes (by simp only [OpenGroups.next, token, defined]))
    | regexName name =>
      refine (meets_namedRegex place begins token fun undefined => ?_).mono ?_
      · exact by simp only [OpenGroups.fold, OpenGroups.next, token, undefined]
      · rintro regex _ ⟨rfl, defined⟩
        exact pushes (by simp only [OpenGroups.next, token, defined])
    | word text =>
      rw [token] at spells
      rw [String.toList_inj.1 spells.eq_of_word]
      exact .pure (pushes (by simp only [OpenGroups.next, token]))
    | escape c =>
      rw [token] at spells
      dsimp only
      rw [unescape_eq spells]
      exact .pure (pushes (by simp only [OpenGroups.next, token]))
    | dot => exact .pure (pushes (by simp only [OpenGroups.next, token]))
    | bar | closeParen => simp [token, rowEnds] at goesOn
    | star | plus | question =>
      -- no item is there to put the operator on, or it would have been read with the item
      have refused : groups.next session.scope found = .error (.unexpected found) := by
        rw [token] at operand
        refine OpenGroups.next_of_operator_of_nil (by rw [token]; rfl) ?_
        simpa [operator?] using operand
      exact meets_of_refused place begins refused rfl rfl
    | startCode | equals | turnstile | dash | newline =>
      have refused : groups.next session.scope found = .error (.unexpected found) := by
        simp only [OpenGroups.next, token]
      exact meets_of_refused place begins refused rfl rfl
termination_by fuel

end

end Descent

end LexSpec
