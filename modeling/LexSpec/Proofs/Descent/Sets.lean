import LexSpec.Proofs.Descent.Parts

/-! # Sets by descent

A set is read in a loop, one item at a time. A single character is followed by another look ahead, and only a
dash makes it the beginning of a range. The fold over the tokens holds the character back instead, so its state
is `OpenItem.single` where the loop has already added the character.
-/

namespace LexSpec

/-- Sets are read token by token. -/
def SetItems.fold (scope : Scope) : Fold SetItems CharSet :=
  ⟨next scope, finish, Grammar.SetItems.eq_incomplete_of_finish⟩

/-- What can be read next begins an item. -/
def SetItems.Complete (items : SetItems) (lookahead : Option Token) : Prop :=
  items.item = .none ∨ ∃ c, items.item = .single c ∧ lookahead ≠ some .dash

namespace SetItems

variable {scope : Scope} {items : SetItems} {found : PlacedToken}

theorem Complete.next_eq (complete : items.Complete (some found.token)) :
    items.next scope found = beginItem scope items.closed found := by
  obtain ⟨set, item⟩ := items
  rcases complete with rfl | ⟨c, rfl, noDash⟩
  · rfl
  · exact if_neg fun dash => noDash (congrArg some dash)

theorem Complete.finish_eq {lookahead : Option Token} (complete : items.Complete lookahead) :
    items.finish = .ok items.closed := by
  obtain ⟨set, item⟩ := items
  rcases complete with rfl | ⟨c, rfl, -⟩
  · rfl
  · rfl

theorem beginItem_of_literal {set : CharSet} {c : Char} (literal : found.token.literal? = some c) :
    beginItem scope set found = .ok ⟨set, .single c⟩ := by
  unfold beginItem
  cases token : found.token with
  | word text =>
    rw [token] at literal
    simp only [literal]
  | escape d =>
    rw [token] at literal
    cases literal
    rfl
  | _ =>
    rw [token] at literal
    cases literal

theorem next_rangeFrom_of_some {set : CharSet} {low high : Char} (literal : found.token.literal? = some high) :
    (fold scope).step ⟨set, .rangeFrom low⟩ found = .ok ⟨set.union (.range low high), .none⟩ := by
  simp only [fold, next, literal]

theorem next_rangeFrom_of_none {set : CharSet} {low : Char} (literal : found.token.literal? = none) :
    (fold scope).step ⟨set, .rangeFrom low⟩ found = .error (.unexpected found) := by
  simp only [fold, next, literal]

end SetItems

namespace Descent

/-! ## Texts of tokens -/

section Texts

variable {token : Token} {name text : String} {session : Session}

theorem unescape_eq {c : Char} (spells : Spells (.escape c) text.toList) : unescape text = Token.unescape c := by
  rw [unescape, spells.eq_of_escape]
  rfl

theorem literal?_eq (spells : Spells token text.toList) : literal? text token = token.literal? := by
  cases token with
  | word spelled => rw [String.toList_inj.1 spells.eq_of_word]; rfl
  | escape c => exact congrArg some (unescape_eq spells)
  | _ => rfl

theorem nameOf_eq_of_setName (spells : Spells (.setName name) text.toList) : nameOf text = pure name := by
  rw [nameOf, spells.cutAtByte?_of_setName, cutOut_some, pure_bind]
  exact congrArg pure String.ofList_toList

theorem nameOf_eq_of_regexName (spells : Spells (.regexName name) text.toList) : nameOf text = pure name := by
  rw [nameOf, spells.cutAtByte?_of_regexName, cutOut_some, pure_bind]
  exact congrArg pure String.ofList_toList

theorem namedSet_eq (position : Position) (spells : Spells (.setName name) text.toList) :
    (namedSet position text).run session =
      match session.scope.sets.find? name with
      | some set => .ok set session
      | none => .error (.stop (.error (.unknownSet position name))) session := by
  rw [namedSet, nameOf_eq_of_setName spells, pure_bind]
  change (ofStep (.ofError (session.scope.sets.resolveSet position name))).run session = _
  rw [Definitions.resolveSet]
  cases session.scope.sets.find? name <;> rfl

theorem namedRegex_eq (spells : Spells (.regexName name) text.toList) :
    (namedRegex text).run session =
      match session.scope.regexes.find? name with
      | some regex => .ok regex session
      | none => .error (.stop (.error (.unknownRegex name))) session := by
  rw [namedRegex, nameOf_eq_of_regexName spells, pure_bind]
  change (ofStep (.ofError (session.scope.regexes.resolveRegex name))).run session = _
  rw [Definitions.resolveRegex]
  cases session.scope.regexes.find? name <;> rfl

end Texts

/-! ## Names -/

section Names

variable {σ τ : Type} {fold : Fold σ τ} {line : Line} {result : Except Refusal τ} {state : σ} {session : Session}
  {input : Cursor} {found : PlacedToken} {rest : List PlacedToken} {name : String}

/-- The set of a name is handed on, if there is one, and otherwise the line stops at the name. -/
theorem meets_namedSet (place : fold.At line result state input) (begins : input.Begins found rest)
    (named : found.token = .setName name)
    (unknown : session.scope.sets.find? name = none → fold.step state found = .error (.unknownSet found name)) :
    Meets line result session
      (fun set next => next = found.behind ∧ session.scope.sets.find? name = some set) found.behind
      (namedSet found.position found.text) := by
  have run := @namedSet_eq name found.text { session with input := found.behind } found.position
    (named ▸ begins.spells)
  cases defined : session.scope.sets.find? name with
  | none =>
    rw [defined] at run
    exact meets_of_refused place begins (unknown defined) rfl run
  | some set =>
    rw [defined] at run
    exact .ok run ⟨rfl, rfl⟩

theorem meets_namedRegex (place : fold.At line result state input) (begins : input.Begins found rest)
    (named : found.token = .regexName name)
    (unknown : session.scope.regexes.find? name = none →
      fold.step state found = .error (.unknownRegex found name)) :
    Meets line result session
      (fun regex next => next = found.behind ∧ session.scope.regexes.find? name = some regex) found.behind
      (namedRegex found.text) := by
  have run := @namedRegex_eq name found.text { session with input := found.behind } (named ▸ begins.spells)
  cases defined : session.scope.regexes.find? name with
  | none =>
    rw [defined] at run
    exact meets_of_refused place begins (unknown defined) rfl run
  | some regex =>
    rw [defined] at run
    exact .ok run ⟨rfl, rfl⟩

end Names

/-! ## Items -/

variable {line : Line} {result : Except Refusal CharSet} {session : Session} {fuel : Nat} {items : SetItems}
  {set : CharSet} {input : Cursor} {found : PlacedToken} {rest : List PlacedToken}

theorem meets_rangeEnd {low : Char}
    (place : (SetItems.fold session.scope).At line result ⟨set, .rangeFrom low⟩ input)
    (enough : input.bytesLeft < fuel) :
    Meets line result session
      (fun high next => next.bytesLeft ≤ input.bytesLeft ∧
        (SetItems.fold session.scope).At line result ⟨set.union (.range low high), .none⟩ next)
      input (rangeEnd fuel) := by
  cases tokens : input.line.tokens with
  | nil =>
    refine meets_bind_next_of_nil place enough tokens rfl fun lexeme ends => ?_
    cases lexeme with
    | endOfFile => rfl
    | token position text token =>
      obtain rfl : token = .newline := by simpa [Lexeme.token?] using ends
      rfl
  | cons found rest =>
    have begins := Cursor.begins_of_cons tokens
    refine meets_bind_next begins enough ?_
    dsimp only
    rw [literal?_eq begins.spells]
    cases literal : found.token.literal? with
    | none => exact meets_unexpected place begins (SetItems.next_rangeFrom_of_none literal)
    | some high =>
      have ranges := place.step begins (SetItems.next_rangeFrom_of_some literal)
      exact .pure ⟨Nat.le_of_lt begins.bytesLeft_lt, ranges⟩

/-- The line goes on behind an item that has been added to a set. -/
structure Adds (line : Line) (result : Except Refusal CharSet) (scope : Scope) (set : CharSet) (bytes : Nat)
    (item : CharSet) (next : Cursor) : Prop where
  shorter : next.bytesLeft ≤ bytes
  place : ∃ items, (SetItems.fold scope).At line result items next ∧ items.closed = set.union item ∧
    items.Complete next.line.lookahead

theorem meets_characterOrRange {c : Char}
    (place : (SetItems.fold session.scope).At line result ⟨set, .single c⟩ input)
    (enough : input.bytesLeft < fuel) :
    Meets line result session (Adds line result session.scope set input.bytesLeft) input
      (characterOrRange fuel c) := by
  refine .bind (meets_peekToken place enough) ?_
  rintro _ next ⟨rfl, rfl⟩
  split
  next dash =>
    obtain ⟨found, rest, begins, token⟩ := Cursor.exists_begins_of_lookahead dash Token.noConfusion
    have behind := begins.bytesLeft_lt
    have ranges := place.step begins (if_pos token)
    refine meets_bind_next begins enough (.bind (meets_rangeEnd ranges (Nat.lt_trans behind enough)) ?_)
    rintro high next ⟨shorter, place⟩
    exact .pure ⟨Nat.le_trans shorter (Nat.le_of_lt behind), _, place, rfl, .inl rfl⟩
  next noDash => exact .pure ⟨Nat.le_refl _, _, place, rfl, .inr ⟨c, rfl, noDash⟩⟩

theorem meets_setItem (place : (SetItems.fold session.scope).At line result items input)
    (begins : input.Begins found rest) (complete : items.Complete (some found.token))
    (enough : found.behind.bytesLeft < fuel) :
    Meets line result session (Adds line result session.scope items.closed found.behind.bytesLeft) found.behind
      (setItem fuel found.position found.text found.token) := by
  have step : (SetItems.fold session.scope).step items found =
      SetItems.beginItem session.scope items.closed found := complete.next_eq
  have adds {item : CharSet}
      (taken : SetItems.beginItem session.scope items.closed found = .ok ⟨items.closed.union item, .none⟩) :
      Adds line result session.scope items.closed found.behind.bytesLeft item found.behind :=
    ⟨Nat.le_refl _, _, place.step begins (step.trans taken), rfl, .inl rfl⟩
  have single {c : Char} (literal : found.token.literal? = some c) :=
    meets_characterOrRange (place.step begins (step.trans (SetItems.beginItem_of_literal literal))) enough
  have spells := begins.spells
  cases token : found.token with
  | setName name =>
    refine (meets_namedSet place begins token fun undefined => step.trans ?_).mono ?_
    · simp only [SetItems.beginItem, token, undefined]
    · rintro named _ ⟨rfl, defined⟩
      exact adds (by simp only [SetItems.beginItem, token, defined])
  | dot => exact .pure (adds (by simp only [SetItems.beginItem, token]))
  | word text =>
    rw [token] at spells
    rw [setItem, literal?_eq spells]
    cases literal : (Token.word text).literal? with
    | some c => exact single (token ▸ literal)
    | none =>
      rw [spells.eq_of_word]
      exact .pure (adds (by simp only [SetItems.beginItem, token, literal]))
  | escape c =>
    rw [token] at spells
    rw [setItem, literal?_eq spells]
    exact single (by rw [token]; rfl)
  | _ =>
    have refused : SetItems.beginItem session.scope items.closed found = .error (.unexpected found) := by
      simp only [SetItems.beginItem, token]
    exact meets_of_refused place begins (step.trans refused) rfl rfl

/-- The loop over the items ends where the line does. -/
theorem meets_set (place : (SetItems.fold session.scope).At line result items input)
    (closed : items.closed = set) (complete : items.Complete input.line.lookahead) (enough : input.bytesLeft + 1 < fuel) :
    Meets line result session
      (fun value next => next.bytesLeft ≤ input.bytesLeft ∧ next.line.tokens = [] ∧
        ∃ items, (SetItems.fold session.scope).At line result items next ∧ items.finish = .ok value)
      input (Descent.set fuel set) := by
  induction fuel generalizing input items set with
  | zero => omega
  | succ fuel ih =>
    have ahead : input.bytesLeft < fuel := by omega
    refine .bind (meets_peekToken place ahead) ?_
    rintro _ next ⟨rfl, rfl⟩
    split
    next ends =>
      have finished := Cursor.tokens_eq_nil_of_lookahead ends
      exact .pure ⟨Nat.le_refl _, finished, items, place, closed ▸ complete.finish_eq⟩
    next goesOn =>
      obtain ⟨found, rest, begins⟩ := Cursor.exists_begins goesOn
      have behind := begins.bytesLeft_lt
      rw [begins.lookahead_eq] at complete
      subst closed
      -- the token that begins the item pays for the next turn
      refine meets_bind_next begins ahead (.bind (meets_setItem place begins complete (by omega)) ?_)
      rintro item next ⟨shorter, others, place, closed, complete⟩
      refine (ih place closed complete (by omega)).mono fun value last given => ⟨?_, given.2⟩
      exact Nat.le_trans given.1 (by omega)

end Descent

end LexSpec
