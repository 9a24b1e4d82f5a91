import LexSpec.Regex.Printer
import LexSpec.Proofs.Position.Order
import LexSpec.Proofs.Text.Escape
import LexSpec.Proofs.Token.Spelling

/-! # What is printed on one line

A newline in a text that is shown would break the line that the text stands in. Numbers and escaped characters have
none, and a set shows a character without an escape only where that is alphanumeric. So neither a set nor an
expression has one, whatever characters are in them (`Regex.newline_not_mem_render`).
-/

namespace LexSpec

/-- The text does not break the line that it stands in. -/
def OneLine (text : String) : Prop := '\n' ∉ text.toList

instance (text : String) : Decidable (OneLine text) := inferInstanceAs (Decidable (_ ∉ _))

@[simp] theorem oneLine_append {a b : String} : OneLine (a ++ b) ↔ OneLine a ∧ OneLine b := by
  simp [OneLine]

@[simp] theorem oneLine_ofList {text : List Char} : OneLine (String.ofList text) ↔ '\n' ∉ text := by
  simp [OneLine]

/-! ## Numbers and places -/

theorem newline_not_mem_toDigits {base : Nat} (large : 1 < base) (n : Nat) : '\n' ∉ Nat.toDigits base n :=
  not_mem_toDigits (fun _ => Nat.digitChar_ne _ rfl) large n

theorem oneLine_repr (n : Nat) : OneLine n.repr := by
  simp [OneLine, newline_not_mem_toDigits]

theorem Position.oneLine_text (p : Position) : OneLine p.text := by
  have digits (n : Nat) : '\n' ∉ Nat.toDigits 10 n := newline_not_mem_toDigits (by decide) n
  simp [OneLine, toList_text, digits]

/-! ## Characters -/

theorem newline_ne_escapeLetter {quotes : List Char} {c letter : Char}
    (found : escapeLetter? quotes c = some letter) : '\n' ≠ letter := by
  unfold escapeLetter? at found
  repeat' split at found
  all_goals cases found
  any_goals decide
  -- a character that stands for itself behind the backslash is no newline, since that has a letter
  next newline _ _ => exact Ne.symm newline

theorem newline_not_mem_escape (quotes : List Char) (c : Char) : '\n' ∉ escape quotes c := by
  unfold escape
  split
  next letter found => simp [newline_ne_escapeLetter found]
  next plain =>
    split
    next => simp [newline_not_mem_toDigits]
    next =>
      have other : c ≠ '\n' := by
        rintro rfl
        cases plain
      simp [other.symm]

theorem oneLine_quoted (c : Char) : OneLine (quoted c) := by
  have inside := newline_not_mem_escape ['\''] c
  rw [quoted, oneLine_ofList]
  simp [inside]

theorem newline_ne_of_isAlphanumeric {c : Char} (alphanumeric : isAlphanumeric c) : '\n' ≠ c := by
  rintro rfl
  cases alphanumeric

theorem newline_ne_of_isNameChar {c : Char} (named : isNameChar c) : '\n' ≠ c := by
  rintro rfl
  cases named

/-! ## Sets and expressions -/

theorem CharRange.newline_not_mem_render (r : CharRange) : '\n' ∉ r.render := by
  have low := newline_not_mem_escape ['"', '\''] r.low
  have high := newline_not_mem_escape ['"', '\''] r.high
  unfold render bracketed
  split
  · exact low
  · simp [low, high]

namespace CharSet

theorem newline_not_mem_renderBrackets (ranges : List CharRange) : '\n' ∉ renderBrackets ranges := by
  simp [renderBrackets, CharRange.newline_not_mem_render]

theorem newline_not_mem_render (set : CharSet) : '\n' ∉ set.render := by
  unfold render
  split
  · decide
  · split
    next r _ =>
      split
      next single => simp [newline_ne_of_isAlphanumeric single.2]
      next => exact newline_not_mem_renderBrackets [r]
    next => exact newline_not_mem_renderBrackets _

end CharSet

namespace Regex

theorem newline_not_mem_operand {inner : Regex} {printed : List Char} (plain : '\n' ∉ printed) :
    '\n' ∉ inner.operand printed := by
  unfold operand
  split
  · simp [plain]
  · exact plain

theorem newline_not_mem_render (regex : Regex) : '\n' ∉ regex.render := by
  induction regex with
  | empty => decide
  | chars set => exact set.newline_not_mem_render
  | seq left right first second => simp [render, first, second]
  | alt left right first second => simp [render, first, second]
  | star inner ih => simp [render, newline_not_mem_operand ih]
  | plus inner ih => simp [render, newline_not_mem_operand ih]
  | optional inner ih => simp [render, newline_not_mem_operand ih]

theorem oneLine_text (regex : Regex) : OneLine regex.text := oneLine_ofList.2 regex.newline_not_mem_render

end Regex

/-! ## Spellings -/

namespace Spells

variable {token : Token} {spelling : List Char}

theorem newline_not_mem_of_names {name : List Char} (chars : ∀ c ∈ name, isNameChar c) : '\n' ∉ name :=
  fun member => newline_ne_of_isNameChar (chars _ member) rfl

/-- Two tokens are written over the end of a line: the newline itself and the escaped one. -/
theorem newline_mem_iff (spells : Spells token spelling) :
    '\n' ∈ spelling ↔ token = .newline ∨ token = .escape '\n' := by
  cases spells with
  | setName _ chars | regexName _ chars => simp [newline_not_mem_of_names chars]
  | word _ chars => simp [newline_not_mem_of_names chars]
  | escape => simp [eq_comm]
  | @startCode digits _ chars _ =>
    have plain : '\n' ∉ digits := fun member => absurd (chars _ member) (by decide)
    simp [plain]
  | turnstile => simp
  | @sign token c sign =>
    rw [List.mem_singleton]
    constructor
    · rintro rfl
      rw [← Token.symbol?_eq_some_iff] at sign
      cases sign
      exact .inl rfl
    · rintro (rfl | rfl)
      · cases sign
        rfl
      · cases sign

theorem oneLine_of_word {name : String} (spells : Spells (.word name) spelling) : OneLine name := by
  rw [OneLine, ← spells.eq_of_word, spells.newline_mem_iff]
  simp

theorem oneLine_of_setName {name : String} (spells : Spells (.setName name) spelling) : OneLine name := by
  have signed : OneLine ("$" ++ name) := by
    rw [OneLine, ← spells.eq_of_setName, spells.newline_mem_iff]
    simp
  exact (oneLine_append.1 signed).2

theorem oneLine_of_regexName {name : String} (spells : Spells (.regexName name) spelling) : OneLine name := by
  have signed : OneLine ("%" ++ name) := by
    rw [OneLine, ← spells.eq_of_regexName, spells.newline_mem_iff]
    simp
  exact (oneLine_append.1 signed).2

end Spells

end LexSpec
