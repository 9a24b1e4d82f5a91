import LexSpec.Proofs.CharSet.Printing
import LexSpec.Proofs.Grammar.ExpressionReading
import LexSpec.Proofs.Regex.Language
import LexSpec.Proofs.Token.Spelling
import LexSpec.Regex.Printer

/-! # The printed form determines the expression

Where an expression is printed without brackets, because each of its sets is that of all characters or of one
alphanumeric character, its printed form can be read: it is written by a syntax tree whose value is the
expression with its sequences joined to the left (`Plain.exists_tree`). The grammar is unambiguous, so expressions
printed alike are the same but for the grouping of their sequences, and match the same texts:
`text_eq_text_iff_regrouped`.

* `Regrouped`: the least congruence under which the grouping of sequences makes no difference.
* `items`: the parts of an expression in a row, each with its own sequences joined to the left.
-/

namespace LexSpec

open Grammar

namespace Regex

/-- Each set of the expression is the set of all characters or that of a single alphanumeric one. -/
def Plain : Regex → Prop
  | empty => True
  | chars set => set = .any ∨ ∃ c, isAlphanumeric c = true ∧ set = .singleton c
  | seq left right => left.Plain ∧ right.Plain
  | alt left right => left.Plain ∧ right.Plain
  | star inner => inner.Plain
  | plus inner => inner.Plain
  | optional inner => inner.Plain

/-- Two expressions are the same but for the grouping of the sequences in them. -/
inductive Regrouped : Regex → Regex → Prop where
  | refl (r : Regex) : Regrouped r r
  | symm {r s : Regex} (same : Regrouped r s) : Regrouped s r
  | trans {r s t : Regex} (first : Regrouped r s) (second : Regrouped s t) : Regrouped r t
  | assoc (r s t : Regex) : Regrouped (.seq r (.seq s t)) (.seq (.seq r s) t)
  | seq {r r' s s' : Regex} (left : Regrouped r r') (right : Regrouped s s') :
      Regrouped (.seq r s) (.seq r' s')
  | alt {r r' s s' : Regex} (left : Regrouped r r') (right : Regrouped s s') :
      Regrouped (.alt r s) (.alt r' s')
  | star {r r' : Regex} (inner : Regrouped r r') : Regrouped (.star r) (.star r')
  | plus {r r' : Regex} (inner : Regrouped r r') : Regrouped (.plus r) (.plus r')
  | optional {r r' : Regex} (inner : Regrouped r r') : Regrouped (.optional r) (.optional r')

variable {r s : Regex}

/-! ## What grouping leaves alone -/

namespace Regrouped

theorem language_eq (same : r.Regrouped s) : r.language = s.language := by
  induction same with
  | refl => rfl
  | symm _ ih => exact ih.symm
  | trans _ _ first second => exact first.trans second
  | assoc r s t => simp only [language_seq, mul_assoc]
  | seq _ _ left right => rw [language_seq, language_seq, left, right]
  | alt _ _ left right => rw [language_alt, language_alt, left, right]
  | star _ inner => rw [language_star, language_star, inner]
  | plus _ inner => rw [language_plus, language_plus, language_star, language_star, inner]
  | optional _ inner => rw [language_optional, language_optional, inner]

theorem isSeq_eq (same : r.Regrouped s) : r.isSeq = s.isSeq := by
  induction same with
  | symm _ ih => exact ih.symm
  | trans _ _ first second => exact first.trans second
  | _ => rfl

theorem render_eq (same : r.Regrouped s) : r.render = s.render := by
  induction same with
  | refl => rfl
  | symm _ ih => exact ih.symm
  | trans _ _ first second => exact first.trans second
  | assoc r s t => simp only [render, List.append_assoc]
  | seq _ _ left right | alt _ _ left right => simp only [render, left, right]
  | star same inner | plus same inner | optional same inner =>
    simp only [render, operand, inner, same.isSeq_eq]

end Regrouped

/-! ## Sequences joined to the left -/

/-- The parts of an expression in a row. In each part, sequences are joined to the left. -/
def items : Regex → List Regex
  | empty => [empty]
  | chars set => [chars set]
  | seq left right => left.items ++ right.items
  | alt left right => [alt (concat left.items) (concat right.items)]
  | star inner => [star (concat inner.items)]
  | plus inner => [plus (concat inner.items)]
  | optional inner => [optional (concat inner.items)]

theorem items_ne_nil (r : Regex) : r.items ≠ [] := by
  cases r with
  | seq left right => exact List.append_ne_nil_of_left_ne_nil left.items_ne_nil _
  | _ => exact List.cons_ne_nil _ _

theorem items_of_not_seq (single : r.isSeq = false) : ∃ item, r.items = [item] := by
  cases r with
  | seq => cases single
  | _ => exact ⟨_, rfl⟩

theorem regrouped_concat_append {front back : List Regex} (front_ne : front ≠ []) (back_ne : back ≠ []) :
    (seq (concat front) (concat back)).Regrouped (concat (front ++ back)) := by
  induction back using List.reverseRecOn with
  | nil => exact absurd rfl back_ne
  | append_singleton back last ih =>
    rw [← List.append_assoc, concat_concat (List.append_ne_nil_of_left_ne_nil front_ne back)]
    by_cases more : back = []
    · simp only [more, List.append_nil, List.nil_append]
      exact .refl _
    · -- the last part leaves the group of those at the back, which then joins the front
      rw [concat_concat more]
      exact (Regrouped.assoc _ _ _).trans (.seq (ih more) (.refl _))

theorem regrouped_concat_items (r : Regex) : r.Regrouped (concat r.items) := by
  induction r with
  | empty => exact .refl _
  | chars set => exact .refl _
  | seq left right first second =>
    exact (first.seq second).trans (regrouped_concat_append left.items_ne_nil right.items_ne_nil)
  | alt left right first second => exact first.alt second
  | star inner ih => exact ih.star
  | plus inner ih => exact ih.plus
  | optional inner ih => exact ih.optional

end Regex

/-! ## The printed form is written by a tree -/

/-- The token that a printed character is: a sign by itself, or else a word of one character. -/
def Token.ofPrinted (c : Char) : Token := (symbol? c).getD (.word (String.singleton c))

theorem Token.ofPrinted_of_alphanumeric {c : Char} (alphanumeric : isAlphanumeric c = true) :
    ofPrinted c = .word (String.singleton c) := by
  -- no sign is a letter or a digit
  have none : symbol? c = none := by
    refine Option.eq_none_iff_forall_ne_some.2 fun token found => ?_
    have sign := symbol?_eq_some_iff.1 found
    cases token <;> cases sign <;> exact absurd alphanumeric (by decide)
  rw [ofPrinted, none, Option.getD_none]

namespace Regex

variable {scope : Scope} {printed : List Char} {values : List Regex}

/-- Items in a row write a printed form and have the given meanings. -/
def Written (scope : Scope) (printed : List Char) (values : List Regex) : Prop :=
  ∃ items : List Item, items.flatMap Item.tokens = printed.map Token.ofPrinted ∧
    List.Forall₂ (fun item value => item.value scope = some value) items values

namespace Written

theorem atom {value : Regex} (atom : Atom) (tokens : atom.tokens = printed.map Token.ofPrinted)
    (meaning : atom.value scope = some value) : Written scope printed [value] := by
  refine ⟨[.mk atom []], ?_, .cons ?_ .nil⟩
  · simpa [Item.tokens] using tokens
  · simpa [Item.value] using meaning

theorem append {more : List Char} {others : List Regex} (front : Written scope printed values)
    (back : Written scope more others) : Written scope (printed ++ more) (values ++ others) := by
  obtain ⟨items, tokens, meanings⟩ := front
  obtain ⟨rest, tokensRest, meaningsRest⟩ := back
  refine ⟨items ++ rest, ?_, List.rel_append meanings meaningsRest⟩
  rw [List.flatMap_append, tokens, tokensRest, List.map_append]

theorem operate {value : Regex} (operand : Written scope printed [value]) (operator : Operator) {sign : Char}
    (token : Token.ofPrinted sign = operator.token) :
    Written scope (printed ++ [sign]) [operator.apply value] := by
  obtain ⟨items, tokens, meanings⟩ := operand
  -- one value belongs to one item, so the sign is one more operator behind its atom
  obtain ⟨item, rfl⟩ := List.length_eq_one_iff.1 meanings.length_eq
  obtain ⟨meaning, -⟩ := List.forall₂_cons.1 meanings
  obtain ⟨atom, operators⟩ := item
  refine ⟨[.mk atom (operators ++ [operator])], ?_, .cons ?_ .nil⟩
  · rw [List.map_append, ← tokens]
    simp [Item.tokens, token]
  · obtain ⟨inner, meant, rfl⟩ := Option.map_eq_some_iff.1 meaning
    simp [Item.value, meant]

theorem exists_row (written : Written scope printed values) (nonempty : values ≠ []) :
    ∃ row : Row, row.tokens = printed.map Token.ofPrinted ∧ row.values scope = some values := by
  obtain ⟨items, tokens, meanings⟩ := written
  obtain ⟨row, tokensRow, meant⟩ := Grammar.exists_row meanings nonempty
  exact ⟨row, tokensRow.trans tokens, meant⟩

/-- Items in a row, with nothing else in the parentheses around them. -/
theorem group (written : Written scope printed values) (nonempty : values ≠ []) :
    Written scope ('(' :: printed ++ [')']) [concat values] := by
  obtain ⟨row, tokens, meant⟩ := written.exists_row nonempty
  refine atom (.group (.last row)) ?_ ?_
  · simp only [Atom.tokens, Expression.tokens, tokens, List.map_append, List.map_cons, List.cons_append]
    rfl
  · simp [Atom.value, Expression.values, meant, anyOf]

theorem alternatives {more : List Char} {others : List Regex} (left : Written scope printed values)
    (right : Written scope more others) (nonemptyLeft : values ≠ []) (nonemptyRight : others ≠ []) :
    Written scope ('(' :: printed ++ '|' :: more ++ [')']) [alt (concat values) (concat others)] := by
  obtain ⟨row, tokens, meant⟩ := left.exists_row nonemptyLeft
  obtain ⟨other, tokensOther, meantOther⟩ := right.exists_row nonemptyRight
  refine atom (.group (.cons row (.last other))) ?_ ?_
  · simp only [Atom.tokens, Expression.tokens, tokens, tokensOther, List.map_append, List.map_cons,
      List.cons_append, List.append_assoc]
    rfl
  · simp [Atom.value, Expression.values, meant, meantOther, anyOf]

/-- What a postfix operator takes is a single item. -/
theorem operand {inner : Regex} (written : Written scope inner.render inner.items) :
    Written scope (inner.operand inner.render) [concat inner.items] := by
  unfold Regex.operand
  split
  · exact written.group inner.items_ne_nil
  next single =>
    obtain ⟨item, only⟩ := items_of_not_seq (Bool.not_eq_true _ ▸ single)
    rw [only] at written ⊢
    exact written

end Written

/-- The printed form of a plain expression is written by its items. -/
theorem Plain.written {r : Regex} (plain : r.Plain) (scope : Scope) : Written scope r.render r.items := by
  induction r with
  | empty => exact .atom .emptyGroup rfl rfl
  | chars set =>
    rcases plain with rfl | ⟨c, alphanumeric, rfl⟩
    · refine .atom .dot ?_ rfl
      rw [render, CharSet.render_any]
      rfl
    · refine .atom (.word (String.singleton c)) ?_ ?_
      · rw [render, CharSet.render_singleton alphanumeric, List.map_singleton,
          Token.ofPrinted_of_alphanumeric alphanumeric, Atom.tokens]
      · rw [Atom.value, ofString, String.toList_singleton]
        rfl
  | seq left right first second => exact (first plain.1).append (second plain.2)
  | alt left right first second =>
    exact (first plain.1).alternatives (second plain.2) left.items_ne_nil right.items_ne_nil
  | star inner ih => exact (ih plain).operand.operate .star rfl
  | plus inner ih => exact (ih plain).operand.operate .plus rfl
  | optional inner ih => exact (ih plain).operand.operate .question rfl

theorem Plain.exists_tree {r : Regex} (plain : r.Plain) (scope : Scope) :
    ∃ tree : Expression, tree.tokens = r.render.map Token.ofPrinted ∧
      tree.value scope = some (concat r.items) := by
  obtain ⟨row, tokens, meant⟩ := (plain.written scope).exists_row r.items_ne_nil
  exact ⟨.last row, tokens, by simp [Expression.value, Expression.values, meant, anyOf]⟩

/-- Trees that are written alike are the same, and so are their values. -/
theorem Plain.regrouped_of_render_eq {r s : Regex} (plainR : r.Plain) (plainS : s.Plain)
    (same : r.render = s.render) : r.Regrouped s := by
  obtain ⟨tree, tokens, value⟩ := plainR.exists_tree .empty
  obtain ⟨other, tokensOther, valueOther⟩ := plainS.exists_tree .empty
  obtain rfl : tree = other := Expression.tokens_injective (by rw [tokens, tokensOther, same])
  have joined : concat r.items = concat s.items := Option.some.inj (value.symm.trans valueOther)
  exact (regrouped_concat_items r).trans (joined ▸ (regrouped_concat_items s).symm)

/-- Plain expressions are printed alike exactly when they are the same but for the grouping of their sequences, and
    then they match the same texts. -/
theorem text_eq_text_iff_regrouped {r s : Regex} (plainR : r.Plain) (plainS : s.Plain) :
    (r.text = s.text ↔ r.Regrouped s) ∧ (r.text = s.text → ∀ text, r.Matches text ↔ s.Matches text) := by
  have same : r.text = s.text ↔ r.Regrouped s := by
    rw [text, text, String.ofList_inj]
    exact ⟨plainR.regrouped_of_render_eq plainS, Regrouped.render_eq⟩
  refine ⟨same, fun printed text => ?_⟩
  exact Set.ext_iff.1 (same.1 printed).language_eq text

theorem text_eq_of_both_groupings :
    let repeated := star (seq (char 'b') (chars .any))
    let right := seq (char 'a') (seq repeated (char 'c'))
    let left := seq (seq (char 'a') repeated) (char 'c')
    right ≠ left ∧ right.text = "a(b.)*c" ∧ right.text = left.text ∧
      ∀ text, right.Matches text ↔ left.Matches text := by
  intro repeated right left
  have plain (c : Char) (alphanumeric : isAlphanumeric c = true) : (char c).Plain :=
    .inr ⟨c, alphanumeric, rfl⟩
  have plainRepeated : repeated.Plain := ⟨plain 'b' (by decide), .inl rfl⟩
  have main := text_eq_text_iff_regrouped (r := right) (s := left)
    ⟨plain 'a' (by decide), plainRepeated, plain 'c' (by decide)⟩
    ⟨⟨plain 'a' (by decide), plainRepeated⟩, plain 'c' (by decide)⟩
  have same : right.text = left.text := main.1.2 (.assoc _ _ _)
  exact ⟨by decide, by decide, same, main.2 same⟩

end Regex

end LexSpec
