import LexSpec.Line.SetItems
import LexSpec.Proofs.Agreement

/-! # Syntax of sets

A set is written as a row of items. `SetItem.tokens` writes an item down, `SetItem.value` is the set that
it stands for, and `SetItem.union` is the union of a row of them. `CharSet.ofTokens` accepts exactly the
tokens of the rows that have a union, and gives it.

A single character is held back by the reader until the next token shows whether it begins a range, so
the invariant of its fold, `ItemsSpelled`, knows the tokens that are not part of a complete item.
-/

namespace LexSpec.Grammar

/-- A word of one letter or an escape. -/
inductive Literal where
  | letter (c : Char)
  | escape (c : Char)

def Literal.token : Literal → Token
  | letter c => .word (String.singleton c)
  | escape c => .escape c

def Literal.char : Literal → Char
  | letter c => c
  | escape c => Token.unescape c

inductive SetItem where
  | named (name : String)
  | any
  | word (text : String)
  | escape (c : Char)
  | range (low high : Literal)

namespace SetItem

def tokens : SetItem → List Token
  | named name => [.setName name]
  | any => [.dot]
  | word text => [.word text]
  | escape c => [.escape c]
  | range low high => [low.token, .dash, high.token]

/-- The set that an item stands for. A name that the scope does not define stands for none. -/
def value (scope : Scope) : SetItem → Option CharSet
  | named name => scope.sets.find? name
  | any => some .any
  | word text => some (.ofList text.toList)
  | escape c => some (.singleton (Token.unescape c))
  | range low high => some (.range low.char high.char)

def union (scope : Scope) (items : List SetItem) : Option CharSet :=
  items.foldlM (fun set item => (item.value scope).map set.union) ∅

end SetItem

/-- A literal as an item of its own. -/
def Literal.item : Literal → SetItem
  | letter c => .word (String.singleton c)
  | escape c => .escape c

theorem Literal.tokens_item (literal : Literal) : literal.item.tokens = [literal.token] := by
  cases literal <;> rfl

theorem Literal.value_item (scope : Scope) (literal : Literal) :
    literal.item.value scope = some (.singleton literal.char) := by
  cases literal with
  | letter c => simp only [item, SetItem.value, String.toList_singleton]; rfl
  | escape c => rfl

theorem Literal.literal?_token (literal : Literal) : literal.token.literal? = some literal.char := by
  cases literal with
  | letter c => simp only [token, Token.literal?, String.toList_singleton]; rfl
  | escape c => rfl

theorem exists_literal {token : Token} {c : Char} (h : token.literal? = some c) :
    ∃ literal : Literal, literal.token = token ∧ literal.char = c := by
  cases token with
  | escape d =>
    cases h
    exact ⟨.escape d, rfl, rfl⟩
  | word text =>
    simp only [Token.literal?] at h
    split at h
    next letters =>
      cases h
      refine ⟨.letter c, ?_, rfl⟩
      rw [Literal.token, ← String.ofList_toList (s := text), letters]
      rfl
    next => cases h
  | _ => simp [Token.literal?] at h

variable {scope : Scope}

/-! ## The tokens of items are read -/

/-- Between two items no range has been begun. -/
def Settled (items : SetItems) : Prop := ∀ low, items.item ≠ .rangeFrom low

theorem SetItems.next_of_settled {items : SetItems} (settled : Settled items) {found : PlacedToken}
    (notDash : found.token ≠ .dash) :
    SetItems.next scope items found = SetItems.beginItem scope items.closed found := by
  obtain ⟨set, item⟩ := items
  cases item with
  | none => rfl
  | single c => simp only [SetItems.next, notDash]; rfl
  | rangeFrom low => exact absurd rfl (settled low)

theorem SetItems.foldlM_of_settled {items : SetItems} (settled : Settled items) {found : PlacedToken}
    (notDash : found.token ≠ .dash) :
    [found].foldlM (SetItems.next scope) items = SetItems.beginItem scope items.closed found := by
  rw [List.foldlM_cons, SetItems.next_of_settled settled notDash]
  cases SetItems.beginItem scope items.closed found <;> rfl

theorem SetItem.read {item : SetItem} {set : CharSet} {found : List PlacedToken}
    (meaning : item.value scope = some set) (written : found.map (·.token) = item.tokens)
    {items : SetItems} (settled : Settled items) :
    ∃ behind, found.foldlM (SetItems.next scope) items = .ok behind ∧
      behind.closed = items.closed.union set ∧ Settled behind := by
  cases item with
  | named name =>
    obtain ⟨first, rfl, token⟩ := List.map_eq_singleton_iff.1 written
    simp only [SetItem.value] at meaning
    refine ⟨⟨items.closed.union set, .none⟩, ?_, rfl, fun low => by simp⟩
    rw [SetItems.foldlM_of_settled settled (by simp [token])]
    simp only [SetItems.beginItem, token, meaning]
  | any =>
    obtain ⟨first, rfl, token⟩ := List.map_eq_singleton_iff.1 written
    cases meaning
    refine ⟨⟨items.closed.union .any, .none⟩, ?_, rfl, fun low => by simp⟩
    rw [SetItems.foldlM_of_settled settled (by simp [token])]
    simp only [SetItems.beginItem, token]
  | word text =>
    obtain ⟨first, rfl, token⟩ := List.map_eq_singleton_iff.1 written
    cases meaning
    rw [SetItems.foldlM_of_settled settled (by simp [token])]
    simp only [SetItems.beginItem, token]
    cases single : (Token.word text).literal? with
    | none => exact ⟨_, rfl, rfl, fun low => by simp⟩
    | some c =>
      -- a word of one letter is held back, and closing adds the same set
      obtain ⟨literal, word, rfl⟩ := exists_literal single
      refine ⟨_, rfl, ?_, fun low => by simp⟩
      cases literal with
      | letter c =>
        obtain rfl : text = String.singleton c := by simpa [Literal.token] using word.symm
        simp only [SetItems.closed, String.toList_singleton]
        rfl
      | escape c => cases word
  | escape c =>
    obtain ⟨first, rfl, token⟩ := List.map_eq_singleton_iff.1 written
    cases meaning
    rw [SetItems.foldlM_of_settled settled (by simp [token])]
    simp only [SetItems.beginItem, token]
    exact ⟨_, rfl, rfl, fun low => by simp⟩
  | range low high =>
    obtain ⟨first, rest, rfl, lowToken, written⟩ := List.map_eq_cons_iff.1 written
    obtain ⟨second, rest, rfl, dash, written⟩ := List.map_eq_cons_iff.1 written
    obtain ⟨third, rest, rfl, highToken, written⟩ := List.map_eq_cons_iff.1 written
    obtain rfl := List.map_eq_nil_iff.1 written
    cases meaning
    -- the dash turns the low end, which was held back, into the beginning of a range
    have begins : SetItems.next scope items first = .ok ⟨items.closed, .single low.char⟩ := by
      rw [SetItems.next_of_settled settled (by rw [lowToken]; cases low <;> simp [Literal.token])]
      have single := low.literal?_token
      cases low <;> simp_all [SetItems.beginItem, Literal.token, Literal.char]
    have ends : SetItems.next scope ⟨items.closed, .rangeFrom low.char⟩ third =
        .ok ⟨items.closed.union (.range low.char high.char), .none⟩ := by
      simp only [SetItems.next, highToken, high.literal?_token]
    refine ⟨⟨items.closed.union (.range low.char high.char), .none⟩, ?_, rfl, fun low => by simp⟩
    rw [List.foldlM_cons, begins]
    change [second, third].foldlM (SetItems.next scope) _ = _
    rw [List.foldlM_cons]
    simp only [SetItems.next, dash]
    change [third].foldlM (SetItems.next scope) _ = _
    rw [List.foldlM_cons, ends]
    rfl

theorem SetItem.foldlM_read {row : List SetItem} {found : List PlacedToken} {items : SetItems}
    {set : CharSet} (settled : Settled items)
    (meaning : row.foldlM (fun set item => (item.value scope).map set.union) items.closed = some set)
    (written : found.map (·.token) = row.flatMap SetItem.tokens) :
    ∃ behind, found.foldlM (SetItems.next scope) items = .ok behind ∧ behind.closed = set ∧
      Settled behind := by
  induction row generalizing found items with
  | nil =>
    obtain rfl := List.map_eq_nil_iff.1 written
    cases meaning
    exact ⟨items, rfl, rfl, settled⟩
  | cons item row ih =>
    rw [List.foldlM_cons, Option.bind_eq_bind, Option.bind_eq_some_iff] at meaning
    obtain ⟨joined, first, meaning⟩ := meaning
    obtain ⟨value, meant, rfl⟩ := Option.map_eq_some_iff.1 first
    obtain ⟨front, back, rfl, writtenFirst, written⟩ := List.map_eq_append_iff.1 written
    obtain ⟨middle, reads, closed, settled⟩ := SetItem.read meant writtenFirst settled
    obtain ⟨behind, rest, result⟩ := ih settled (by rw [closed]; exact meaning) written
    refine ⟨behind, ?_, result⟩
    rw [List.foldlM_append, reads]
    exact rest

theorem SetItem.ofTokens_eq_ok {row : List SetItem} {found : List PlacedToken} {set : CharSet}
    (meaning : SetItem.union scope row = some set)
    (written : found.map (·.token) = row.flatMap SetItem.tokens) :
    CharSet.ofTokens scope found = .ok set := by
  obtain ⟨behind, reads, closed, settled⟩ :=
    @SetItem.foldlM_read _ _ _ .start _ (fun low => by simp [SetItems.start]) meaning written
  change (found.foldlM (SetItems.next scope) .start >>= SetItems.finish) = _
  rw [reads, ← closed]
  change behind.finish = _
  unfold SetItems.finish
  split
  next low range => exact absurd range (settled low)
  next => rfl

/-! ## What has been read is spelled by items -/

/-- The tokens of an item that is not complete. -/
inductive OpenItemSpelled : OpenItem → List Token → Prop where
  | none : OpenItemSpelled .none []
  | single (literal : Literal) : OpenItemSpelled (.single literal.char) [literal.token]
  | rangeFrom (literal : Literal) : OpenItemSpelled (.rangeFrom literal.char) [literal.token, .dash]

/-- The invariant of the fold: the tokens so far are those of complete items with the union in the state
    and those of the item that has been begun. -/
def ItemsSpelled (scope : Scope) (items : SetItems) (tokens : List Token) : Prop :=
  ∃ row begun, SetItem.union scope row = some items.set ∧ OpenItemSpelled items.item begun ∧
    tokens = row.flatMap SetItem.tokens ++ begun

theorem itemsSpelled_start : ItemsSpelled scope .start [] := ⟨[], [], rfl, .none, rfl⟩

theorem ItemsSpelled.item {set value : CharSet} {tokens : List Token}
    (spelled : ItemsSpelled scope ⟨set, .none⟩ tokens) (item : SetItem)
    (meaning : item.value scope = some value) :
    ItemsSpelled scope ⟨set.union value, .none⟩ (tokens ++ item.tokens) := by
  obtain ⟨row, begun, union, opened, rfl⟩ := spelled
  cases opened
  refine ⟨row ++ [item], [], ?_, .none, by simp⟩
  rw [SetItem.union] at union
  simp [SetItem.union, List.foldlM_append, union, meaning]

theorem ItemsSpelled.closed {items : SetItems} {tokens : List Token}
    (spelled : ItemsSpelled scope items tokens) (settled : Settled items) :
    ItemsSpelled scope ⟨items.closed, .none⟩ tokens := by
  obtain ⟨set, item⟩ := items
  obtain ⟨row, begun, union, opened, rfl⟩ := spelled
  cases opened with
  | none => exact ⟨row, [], union, .none, rfl⟩
  | single literal =>
    -- no range follows, so the character is an item of its own
    have spelled : ItemsSpelled scope ⟨set, .none⟩ (row.flatMap SetItem.tokens) :=
      ⟨row, [], union, .none, (List.append_nil _).symm⟩
    have added := spelled.item literal.item (literal.value_item scope)
    rwa [literal.tokens_item] at added
  | rangeFrom literal => exact absurd rfl (settled literal.char)

theorem ItemsSpelled.beginItem {set : CharSet} {tokens : List Token} {found : PlacedToken}
    {items : SetItems} (spelled : ItemsSpelled scope ⟨set, .none⟩ tokens)
    (reads : SetItems.beginItem scope set found = .ok items) :
    ItemsSpelled scope items (tokens ++ [found.token]) := by
  -- a single character leaves the complete items as they are
  have held : ∀ literal : Literal,
      ItemsSpelled scope ⟨set, .single literal.char⟩ (tokens ++ [literal.token]) := by
    obtain ⟨row, begun, union, opened, rfl⟩ := spelled
    cases opened
    exact fun literal => ⟨row, [literal.token], union, .single literal, by simp⟩
  unfold SetItems.beginItem at reads
  cases token : found.token with
  | setName name =>
    simp only [token] at reads
    split at reads
    next named defined =>
      cases reads
      exact spelled.item (.named name) defined
    next => cases reads
  | dot =>
    simp only [token] at reads
    cases reads
    exact spelled.item .any rfl
  | escape c =>
    simp only [token] at reads
    cases reads
    exact held (.escape c)
  | word text =>
    simp only [token] at reads
    split at reads
    next c single =>
      cases reads
      obtain ⟨literal, word, rfl⟩ := exists_literal single
      rw [← word]
      exact held literal
    next =>
      cases reads
      exact spelled.item (.word text) rfl
  | _ =>
    simp only [token] at reads
    cases reads

theorem ItemsSpelled.next {items behind : SetItems} {tokens : List Token} {found : PlacedToken}
    (spelled : ItemsSpelled scope items tokens) (reads : SetItems.next scope items found = .ok behind) :
    ItemsSpelled scope behind (tokens ++ [found.token]) := by
  obtain ⟨set, item⟩ := items
  cases item with
  | none => exact spelled.beginItem reads
  | single c =>
    simp only [SetItems.next] at reads
    split at reads
    next dash =>
      cases reads
      obtain ⟨row, begun, union, opened, rfl⟩ := spelled
      cases opened with
      | single literal =>
        exact ⟨row, [literal.token, .dash], union, .rangeFrom literal, by simp [dash]⟩
    next => exact (spelled.closed fun low => by simp).beginItem reads
  | rangeFrom low =>
    simp only [SetItems.next] at reads
    split at reads
    next high second =>
      cases reads
      obtain ⟨row, begun, union, opened, rfl⟩ := spelled
      cases opened with
      | rangeFrom literal =>
        obtain ⟨other, token, rfl⟩ := exists_literal second
        have spelled : ItemsSpelled scope ⟨set, .none⟩ (row.flatMap SetItem.tokens) :=
          ⟨row, [], union, .none, (List.append_nil _).symm⟩
        have added := spelled.item (.range literal other) rfl
        simpa [SetItem.tokens, token] using added
    next => cases reads

theorem itemsSpelled_of_foldlM {found : List PlacedToken} {items : SetItems}
    (reads : found.foldlM (SetItems.next scope) .start = .ok items) :
    ItemsSpelled scope items (found.map (·.token)) := by
  refine foldlM_induction (fun items seen => ItemsSpelled scope items (seen.map (·.token))) itemsSpelled_start
    (fun spelled step => ?_) reads
  rw [List.map_append]
  exact spelled.next step

theorem exists_items_of_ofTokens {found : List PlacedToken} {set : CharSet}
    (reads : CharSet.ofTokens scope found = .ok set) :
    ∃ row : List SetItem, row.flatMap SetItem.tokens = found.map (·.token) ∧
      SetItem.union scope row = some set := by
  obtain ⟨items, fold, finish⟩ := bind_eq_ok_iff.1 reads
  unfold SetItems.finish at finish
  split at finish
  next => cases finish
  next settled =>
    cases finish
    obtain ⟨row, begun, union, opened, written⟩ := (itemsSpelled_of_foldlM fold).closed settled
    cases opened
    exact ⟨row, by simpa using written.symm, union⟩

/-- The reader of sets accepts exactly the tokens of the rows of items that have a union, and gives that
    union. -/
theorem charSet_ofTokens_eq_ok_iff {found : List PlacedToken} {set : CharSet} :
    CharSet.ofTokens scope found = .ok set ↔
      ∃ row : List SetItem, row.flatMap SetItem.tokens = found.map (·.token) ∧
        SetItem.union scope row = some set :=
  ⟨exists_items_of_ofTokens, fun ⟨_, written, meaning⟩ => SetItem.ofTokens_eq_ok meaning written.symm⟩

end LexSpec.Grammar
