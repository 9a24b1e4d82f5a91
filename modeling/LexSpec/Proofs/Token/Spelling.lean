import Mathlib.Data.Nat.Digits.Defs
import LexSpec.Token.Scanner

/-! # Spellings of tokens

`Spells token text` says that a token can be written as a text, and `Gap next text` that a text can stand
between two tokens, the second of which is `next`. Neither mentions the scanner, so they are what it is
measured against.

How a text goes on decides where a name or a word ends, so the lemmas here tell what a spelling or a gap can
begin with.
-/

namespace LexSpec

namespace Token

/-- Tokens that are written as a name and are as long as they can be. -/
def IsNamed : Token → Prop
  | setName _ => True
  | regexName _ => True
  | word _ => True
  | _ => False

def IsWord : Token → Prop
  | word _ => True
  | _ => False

/-- The character that a token is written as, if it is a single one and always the same. -/
def sign? : Token → Option Char
  | equals => some '='
  | dash => some '-'
  | dot => some '.'
  | openParen => some '('
  | closeParen => some ')'
  | bar => some '|'
  | star => some '*'
  | plus => some '+'
  | question => some '?'
  | newline => some '\n'
  | _ => none

/-- The number that decimal digits stand for, by the weights of their places. -/
def decimalValue (digits : List Char) : Nat :=
  Nat.ofDigits 10 (digits.reverse.map fun digit => digit.toNat - '0'.toNat)

end Token

/-- A token can be written as a text. -/
inductive Spells : Token → List Char → Prop where
  | setName {name : List Char} (nonempty : name ≠ []) (chars : ∀ c ∈ name, isNameChar c) :
      Spells (.setName (String.ofList name)) ('$' :: name)
  | regexName {name : List Char} (nonempty : name ≠ []) (chars : ∀ c ∈ name, isNameChar c) :
      Spells (.regexName (String.ofList name)) ('%' :: name)
  | word {text : List Char} (nonempty : text ≠ []) (chars : ∀ c ∈ text, isNameChar c) :
      Spells (.word (String.ofList text)) text
  | escape {c : Char} : Spells (.escape c) ['\\', c]
  | startCode {digits : List Char} (nonempty : digits ≠ []) (chars : ∀ c ∈ digits, c.isDigit)
      (limit : Token.decimalValue digits < 2 ^ 32) :
      Spells (.startCode (Token.decimalValue digits)) ('<' :: (digits ++ ['>']))
  | turnstile : Spells .turnstile [':', '-']
  | sign {token : Token} {c : Char} (sign : token.sign? = some c) : Spells token [c]

/-- A text can stand before a token, or before the end of the text: blanks, and a comment if the line ends
    behind it. -/
inductive Gap (next : Option Token) : List Char → Prop where
  | nil : Gap next []
  | blank {c : Char} {text : List Char} (blank : c = ' ' ∨ c = '\t' ∨ c = '\r') (rest : Gap next text) :
      Gap next (c :: text)
  | comment {body : List Char} (inside : '\n' ∉ body) (ends : next = none ∨ next = some .newline) :
      Gap next ('#' :: body)

namespace Token

theorem ofDecimal_eq (digits : List Char) : ofDecimal digits = decimalValue digits := by
  rw [decimalValue, Nat.ofDigits_eq_foldr, List.map_reverse, List.foldr_reverse, List.foldl_map, ofDecimal]
  congr 1
  funext number digit
  exact Nat.add_comm ..

theorem symbol?_eq_some_iff {c : Char} {token : Token} : symbol? c = some token ↔ token.sign? = some c := by
  constructor
  · intro found
    unfold symbol? at found
    repeat' split at found
    all_goals cases found
    all_goals simp_all [sign?]
  · intro sign
    cases token <;> simp only [sign?, reduceCtorEq, Option.some.injEq] at sign <;> subst sign <;> rfl

/-- A word has no sign, and neither has a name. -/
theorem not_isNamed_of_sign {token : Token} {c : Char} (sign : token.sign? = some c) : ¬ token.IsNamed := by
  intro named
  cases token <;> first | exact named | cases sign

end Token

theorem isBlank_iff {c : Char} : isBlank c ↔ c = ' ' ∨ c = '\t' ∨ c = '\r' := by
  simp [isBlank, or_assoc]

/-! ## Spellings and gaps, and how they begin -/

namespace Spells

variable {token : Token} {spelling : List Char}

theorem ne_nil (spells : Spells token spelling) : spelling ≠ [] := by
  cases spells with
  | word nonempty _ => exact nonempty
  | _ => exact List.cons_ne_nil _ _

theorem eq_of_word {name : String} (spells : Spells (.word name) spelling) : spelling = name.toList := by
  cases spells with
  | word _ _ => exact String.toList_ofList.symm
  | sign sign => cases sign

theorem eq_of_setName {name : String} (spells : Spells (.setName name) spelling) :
    spelling = ("$" ++ name).toList := by
  cases spells with
  | setName _ _ => simp
  | sign sign => cases sign

theorem eq_of_regexName {name : String} (spells : Spells (.regexName name) spelling) :
    spelling = ("%" ++ name).toList := by
  cases spells with
  | regexName _ _ => simp
  | sign sign => cases sign

theorem eq_of_escape {c : Char} (spells : Spells (.escape c) spelling) : spelling = ['\\', c] := by
  cases spells with
  | escape => rfl
  | sign sign => cases sign

/-- Only a word can begin with a character of a name. -/
theorem isNameChar_head (spells : Spells token spelling) (other : ¬ token.IsWord) :
    ∀ c ∈ spelling.head?, isNameChar c = false := by
  intro c head
  cases spells with
  | word _ _ => exact absurd trivial other
  | @sign token d sign =>
    cases head
    cases token <;> simp only [Token.sign?, reduceCtorEq, Option.some.injEq] at sign <;> subst sign <;>
      rfl
  | _ =>
    cases head
    rfl

/-- Only a newline can begin with one. -/
theorem eq_newline {rest : List Char} (spells : Spells token ('\n' :: rest)) :
    token = .newline ∧ rest = [] := by
  cases spells with
  | word _ chars =>
    have first : isNameChar '\n' = true := chars _ (List.mem_cons_self ..)
    exact absurd first Bool.false_ne_true
  | sign sign =>
    rw [← Token.symbol?_eq_some_iff] at sign
    cases sign
    exact ⟨rfl, rfl⟩

theorem newline_iff : Spells .newline spelling ↔ spelling = ['\n'] := by
  constructor
  · intro spells
    cases spells with
    | sign sign =>
      cases sign
      rfl
  · rintro rfl
    exact .sign rfl

end Spells

theorem Gap.isNameChar_head {next : Option Token} {text : List Char} (gap : Gap next text) :
    ∀ c ∈ text.head?, isNameChar c = false := by
  intro c head
  cases gap with
  | nil => cases head
  | blank blank rest =>
    cases head
    rcases blank with rfl | rfl | rfl <;> rfl
  | comment inside ends =>
    cases head
    rfl

theorem not_gap_newline_cons {next : Option Token} {text : List Char} : ¬ Gap next ('\n' :: text) := by
  intro gap
  cases gap with
  | blank blank rest => simp at blank

end LexSpec
