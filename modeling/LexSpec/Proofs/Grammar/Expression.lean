import LexSpec.Line.RegexGroups

/-! # Syntax trees of expressions

The grammar of expressions as trees, one type for each of its rules: an `Expression` is one or more rows
with bars between them, a `Row` one or more items, an `Item` an atom with operators behind it, and an
`Atom` a single token or a group in parentheses. `tokens` writes a tree down and `value` says which
regular expression it stands for in a scope.

The grammar is unambiguous: `Expression.tokens_injective` says that no two trees are written alike.
-/

namespace LexSpec

/-- Alternatives, joined to the left. -/
def Regex.anyOf : List Regex → Regex
  | [] => .empty
  | first :: rest => rest.foldl .alt first

namespace Grammar

/-! ## Trees -/

inductive Operator where
  | star
  | plus
  | question
deriving DecidableEq

def Operator.token : Operator → Token
  | star => .star
  | plus => .plus
  | question => .question

def Operator.apply : Operator → Regex → Regex
  | star => .star
  | plus => .plus
  | question => .optional

mutual

inductive Atom where
  | emptyGroup
  | group (body : Expression)
  | setName (name : String)
  | regexName (name : String)
  | word (text : String)
  | escape (c : Char)
  | dot

/-- An atom and the operators behind it, in the order in which they are written. -/
inductive Item where
  | mk (atom : Atom) (operators : List Operator)

inductive Row where
  | last (item : Item)
  | cons (item : Item) (rest : Row)

inductive Expression where
  | last (row : Row)
  | cons (row : Row) (rest : Expression)

end

mutual

def Atom.tokens : Atom → List Token
  | .emptyGroup => [.openParen, .closeParen]
  | .group body => .openParen :: (body.tokens ++ [.closeParen])
  | .setName name => [.setName name]
  | .regexName name => [.regexName name]
  | .word text => [.word text]
  | .escape c => [.escape c]
  | .dot => [.dot]

def Item.tokens : Item → List Token
  | .mk atom operators => atom.tokens ++ operators.map Operator.token

def Row.tokens : Row → List Token
  | .last item => item.tokens
  | .cons item rest => item.tokens ++ rest.tokens

def Expression.tokens : Expression → List Token
  | .last row => row.tokens
  | .cons row rest => row.tokens ++ .bar :: rest.tokens

end

mutual

/-- The meaning of an atom. A name that the scope does not define has none. -/
def Atom.value (scope : Scope) : Atom → Option Regex
  | .emptyGroup => some .empty
  | .group body => (body.values scope).map .anyOf
  | .setName name => (scope.sets.find? name).map .chars
  | .regexName name => scope.regexes.find? name
  | .word text => some (.ofString text)
  | .escape c => some (.char (Token.unescape c))
  | .dot => some (.chars .any)

/-- The operators work from the inside out. -/
def Item.value (scope : Scope) : Item → Option Regex
  | .mk atom operators =>
    (atom.value scope).map fun inner => operators.foldl (fun regex operator => operator.apply regex) inner

/-- The meanings of the items of a row. -/
def Row.values (scope : Scope) : Row → Option (List Regex)
  | .last item => (item.value scope).map ([·])
  | .cons item rest => do return (← item.value scope) :: (← rest.values scope)

/-- The meanings of the rows of an expression. -/
def Expression.values (scope : Scope) : Expression → Option (List Regex)
  | .last row => (row.values scope).map ([.concat ·])
  | .cons row rest => do return .concat (← row.values scope) :: (← rest.values scope)

end

/-- The regular expression that a tree stands for in a scope. -/
def Expression.value (scope : Scope) (tree : Expression) : Option Regex :=
  (tree.values scope).map .anyOf

/-! ## First tokens -/

def BeginsAtom : Token → Prop
  | .setName _ | .regexName _ | .word _ | .escape _ | .dot | .openParen => True
  | _ => False

theorem Atom.tokens_eq_cons (atom : Atom) :
    ∃ first rest, atom.tokens = first :: rest ∧ BeginsAtom first := by
  cases atom <;> exact ⟨_, _, rfl, trivial⟩

theorem Item.tokens_eq_cons (item : Item) :
    ∃ first rest, item.tokens = first :: rest ∧ BeginsAtom first := by
  obtain ⟨atom, operators⟩ := item
  obtain ⟨first, rest, eq, begins⟩ := atom.tokens_eq_cons
  exact ⟨first, rest ++ operators.map Operator.token, by rw [Item.tokens, eq, List.cons_append], begins⟩

theorem Row.tokens_eq_cons (row : Row) :
    ∃ first rest, row.tokens = first :: rest ∧ BeginsAtom first := by
  cases row with
  | last item => exact item.tokens_eq_cons
  | cons item others =>
    obtain ⟨first, rest, eq, begins⟩ := item.tokens_eq_cons
    exact ⟨first, rest ++ others.tokens, by rw [Row.tokens, eq, List.cons_append], begins⟩

theorem Expression.tokens_eq_cons (tree : Expression) :
    ∃ first rest, tree.tokens = first :: rest ∧ BeginsAtom first := by
  cases tree with
  | last row => exact row.tokens_eq_cons
  | cons row others =>
    obtain ⟨first, rest, eq, begins⟩ := row.tokens_eq_cons
    exact ⟨first, rest ++ .bar :: others.tokens, by rw [Expression.tokens, eq, List.cons_append], begins⟩

/-! ## One tree for a row of tokens

What may stand behind a tree decides where it ends: no operator behind an item, a bar or a parenthesis
behind a row, only a parenthesis behind an expression. -/

def EndsItem (rest : List Token) : Prop :=
  ∀ token ∈ rest.head?, ∀ operator : Operator, token ≠ operator.token

def EndsRow (rest : List Token) : Prop :=
  ∀ token ∈ rest.head?, token = .bar ∨ token = .closeParen

def EndsExpression (rest : List Token) : Prop := ∀ token ∈ rest.head?, token = .closeParen

theorem EndsExpression.endsRow {rest : List Token} (ends : EndsExpression rest) : EndsRow rest :=
  fun token member => .inr (ends token member)

theorem EndsRow.endsItem {rest : List Token} (ends : EndsRow rest) : EndsItem rest := by
  intro token member operator
  rcases ends token member with rfl | rfl <;> cases operator <;> simp [Operator.token]

theorem Row.endsItem_tokens (row : Row) (rest : List Token) : EndsItem (row.tokens ++ rest) := by
  obtain ⟨first, others, eq, begins⟩ := row.tokens_eq_cons
  intro token member operator
  rw [eq, List.cons_append, List.head?_cons, Option.mem_some_iff] at member
  subst member
  rintro rfl
  cases operator <;> exact begins

theorem Row.not_endsRow_tokens (row : Row) (rest : List Token) : ¬ EndsRow (row.tokens ++ rest) := by
  obtain ⟨first, others, eq, begins⟩ := row.tokens_eq_cons
  intro ends
  rcases ends first (by rw [eq]; rfl) with rfl | rfl <;> exact begins

theorem operators_append_inj {left right : List Operator} {u v : List Token} (hu : EndsItem u)
    (hv : EndsItem v) (h : left.map Operator.token ++ u = right.map Operator.token ++ v) :
    left = right ∧ u = v := by
  induction left generalizing right with
  | nil =>
    cases right with
    | nil => exact ⟨rfl, h⟩
    | cons operator right =>
      -- an operator on one side stands where the other side says that the item ends
      subst h
      exact absurd rfl (hu operator.token rfl operator)
  | cons operator left ih =>
    cases right with
    | nil =>
      subst h
      exact absurd rfl (hv operator.token rfl operator)
    | cons other right =>
      simp only [List.map_cons, List.cons_append, List.cons.injEq] at h
      obtain ⟨same, rest⟩ := h
      have same : operator = other := by cases operator <;> cases other <;> first | rfl | cases same
      obtain ⟨rfl, rfl⟩ := ih rest
      exact ⟨by rw [same], rfl⟩

mutual

theorem Atom.append_inj {left right : Atom} {u v : List Token}
    (h : left.tokens ++ u = right.tokens ++ v) : left = right ∧ u = v := by
  match left with
  | .group body =>
    cases right with
    | group other =>
      simp only [Atom.tokens, List.cons_append, List.append_assoc, List.cons.injEq, true_and] at h
      have closed : ∀ rest, EndsExpression ([.closeParen] ++ rest) := fun rest token member => by
        simpa using member.symm
      obtain ⟨rfl, rest⟩ := @Expression.append_inj body other _ _ (closed u) (closed v) h
      exact ⟨rfl, List.append_cancel_left rest⟩
    | emptyGroup =>
      -- a body begins with an atom, the empty pair goes on with a closing parenthesis
      obtain ⟨first, rest, eq, begins⟩ := body.tokens_eq_cons
      simp only [Atom.tokens, eq, List.cons_append, List.cons.injEq, true_and] at h
      rw [h.1] at begins
      exact begins.elim
    | _ => simp [Atom.tokens] at h
  | .emptyGroup =>
    cases right with
    | group other =>
      obtain ⟨first, rest, eq, begins⟩ := other.tokens_eq_cons
      simp only [Atom.tokens, eq, List.cons_append, List.cons.injEq, true_and] at h
      rw [← h.1] at begins
      exact begins.elim
    | _ => simp_all [Atom.tokens]
  | .setName _ | .regexName _ | .word _ | .escape _ | .dot => cases right <;> simp_all [Atom.tokens]

theorem Item.append_inj {left right : Item} {u v : List Token} (hu : EndsItem u) (hv : EndsItem v)
    (h : left.tokens ++ u = right.tokens ++ v) : left = right ∧ u = v := by
  match left, right with
  | .mk atom operators, .mk other others =>
    simp only [Item.tokens, List.append_assoc] at h
    obtain ⟨rfl, rest⟩ := Atom.append_inj h
    obtain ⟨rfl, rfl⟩ := operators_append_inj hu hv rest
    exact ⟨rfl, rfl⟩

theorem Row.append_inj {left right : Row} {u v : List Token} (hu : EndsRow u) (hv : EndsRow v)
    (h : left.tokens ++ u = right.tokens ++ v) : left = right ∧ u = v := by
  match left, right with
  | .last item, .last other =>
    obtain ⟨rfl, rfl⟩ := Item.append_inj hu.endsItem hv.endsItem h
    exact ⟨rfl, rfl⟩
  | .last item, .cons other more =>
    -- the right row goes on where the left one ends, but no item begins with what ends a row
    simp only [Row.tokens, List.append_assoc] at h
    obtain ⟨-, rfl⟩ := Item.append_inj hu.endsItem (more.endsItem_tokens v) h
    exact absurd hu (more.not_endsRow_tokens v)
  | .cons item rest, .last other =>
    simp only [Row.tokens, List.append_assoc] at h
    obtain ⟨-, rfl⟩ := Item.append_inj (rest.endsItem_tokens u) hv.endsItem h
    exact absurd hv (rest.not_endsRow_tokens u)
  | .cons item rest, .cons other more =>
    simp only [Row.tokens, List.append_assoc] at h
    obtain ⟨rfl, tail⟩ := Item.append_inj (rest.endsItem_tokens u) (more.endsItem_tokens v) h
    obtain ⟨rfl, rfl⟩ := Row.append_inj hu hv tail
    exact ⟨rfl, rfl⟩

theorem Expression.append_inj {left right : Expression} {u v : List Token} (hu : EndsExpression u)
    (hv : EndsExpression v) (h : left.tokens ++ u = right.tokens ++ v) : left = right ∧ u = v := by
  have bar : ∀ rest : List Token, EndsRow (.bar :: rest) := fun rest token member =>
    .inl (by simpa using member.symm)
  have notBar : ∀ rest : List Token, ¬ EndsExpression (.bar :: rest) := fun rest ends =>
    absurd (ends .bar rfl) (by decide)
  match left, right with
  | .last row, .last other =>
    obtain ⟨rfl, rfl⟩ := Row.append_inj hu.endsRow hv.endsRow h
    exact ⟨rfl, rfl⟩
  | .last row, .cons other more =>
    -- likewise with a bar, which does not end an expression
    simp only [Expression.tokens, List.append_assoc] at h
    obtain ⟨-, rfl⟩ := Row.append_inj hu.endsRow (bar _) h
    exact absurd hu (notBar _)
  | .cons row rest, .last other =>
    simp only [Expression.tokens, List.append_assoc] at h
    obtain ⟨-, rfl⟩ := Row.append_inj (bar _) hv.endsRow h
    exact absurd hv (notBar _)
  | .cons row rest, .cons other more =>
    simp only [Expression.tokens, List.append_assoc] at h
    obtain ⟨rfl, tail⟩ := Row.append_inj (bar _) (bar _) h
    obtain ⟨rfl, rfl⟩ := Expression.append_inj hu hv (List.cons.inj tail).2
    exact ⟨rfl, rfl⟩

end

/-- No two trees are written alike. -/
theorem Expression.tokens_injective {left right : Expression} (h : left.tokens = right.tokens) :
    left = right :=
  (Expression.append_inj (u := []) (v := []) (fun _ member => by simp at member)
    (fun _ member => by simp at member) (by rw [h])).1

end Grammar

end LexSpec
