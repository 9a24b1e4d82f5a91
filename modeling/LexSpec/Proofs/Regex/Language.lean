import Mathlib.Computability.Language
import LexSpec.Session
import LexSpec.CharSet.Lemmas

/-! # What an expression matches

`Regex.Matches` says which texts an expression stands for, by one rule or two for each way to build it, and knows
nothing of `Regex.nullable`. The texts of an expression are a regular language: `language_star` and its like say
that the rules for the operators are the usual operations on languages.

`nullable` decides whether the empty text is one of them, and so an expression is warned of exactly when it
matches the empty text without being written as the empty text: `nullable_and_warning`.
-/

namespace LexSpec

open scoped Computability

namespace Regex

/-- A text is matched by an expression. -/
inductive Matches : Regex → List Char → Prop where
  | empty : Matches .empty []
  | chars {set : CharSet} {c : Char} (member : c ∈ set) : Matches (.chars set) [c]
  | seq {left right : Regex} {u v : List Char} (first : Matches left u) (second : Matches right v) :
      Matches (.seq left right) (u ++ v)
  | altLeft {left right : Regex} {u : List Char} (here : Matches left u) : Matches (.alt left right) u
  | altRight {left right : Regex} {u : List Char} (there : Matches right u) : Matches (.alt left right) u
  | starNil {inner : Regex} : Matches (.star inner) []
  | starCons {inner : Regex} {u v : List Char} (first : Matches inner u) (rest : Matches (.star inner) v) :
      Matches (.star inner) (u ++ v)
  | plusOnce {inner : Regex} {u : List Char} (once : Matches inner u) : Matches (.plus inner) u
  | plusCons {inner : Regex} {u v : List Char} (first : Matches inner u) (rest : Matches (.plus inner) v) :
      Matches (.plus inner) (u ++ v)
  | optionalNil {inner : Regex} : Matches (.optional inner) []
  | optionalOnce {inner : Regex} {u : List Char} (once : Matches inner u) : Matches (.optional inner) u

variable {left right inner r : Regex} {text : List Char}

/-! ## The empty text -/

/-- A match of the empty text has parts that match the empty text, down to where the text is empty by rule. -/
theorem Matches.nullable (matched : r.Matches text) (nothing : text = []) : r.nullable = true := by
  induction matched with
  | empty | starNil | starCons | optionalNil | optionalOnce => rfl
  | chars => cases nothing
  | seq _ _ first second =>
    obtain ⟨rfl, rfl⟩ := List.append_eq_nil_iff.1 nothing
    exact Bool.and_eq_true_iff.2 ⟨first rfl, second rfl⟩
  | altLeft _ here => exact Bool.or_eq_true_iff.2 (.inl (here nothing))
  | altRight _ there => exact Bool.or_eq_true_iff.2 (.inr (there nothing))
  | plusOnce _ once => exact once nothing
  | plusCons _ _ first _ => exact first (List.append_eq_nil_iff.1 nothing).1

theorem matches_nil_of_nullable (nullable : r.nullable = true) : r.Matches [] := by
  induction r with
  | empty => exact .empty
  | chars set => cases nullable
  | seq left right first second =>
    obtain ⟨nullableLeft, nullableRight⟩ := Bool.and_eq_true_iff.1 nullable
    exact .seq (first nullableLeft) (second nullableRight)
  | alt left right first second =>
    rcases Bool.or_eq_true_iff.1 nullable with here | there
    · exact .altLeft (first here)
    · exact .altRight (second there)
  | star inner => exact .starNil
  | plus inner once => exact .plusOnce (once nullable)
  | optional inner => exact .optionalNil

theorem nullable_iff_matches_nil : r.nullable = true ↔ r.Matches [] :=
  ⟨matches_nil_of_nullable, fun matched => matched.nullable rfl⟩

instance (r : Regex) : Decidable (r.Matches []) := decidable_of_iff _ nullable_iff_matches_nil

/-- `nullable` decides whether the empty text is matched. One warning is given for an expression that matches it,
    unless the expression is the empty text itself, and otherwise nothing happens. -/
theorem nullable_and_warning (r : Regex) (position : Position) (session : Session) :
    (r.nullable = true ↔ r.Matches []) ∧
      (Step.warnIfNullable r position).run session = .ok () { session with
        warnings := session.warnings ++
          if r.Matches [] ∧ r ≠ .empty then [.nullableRegex position r.text] else [] } := by
  refine ⟨nullable_iff_matches_nil, ?_⟩
  have same : (!r.isEmpty && r.nullable) = true ↔ r.Matches [] ∧ r ≠ .empty := by
    rw [ne_eq, ← isEmpty_iff, Bool.and_eq_true, Bool.not_eq_true', Bool.not_eq_true, nullable_iff_matches_nil]
    exact And.comm
  unfold Step.warnIfNullable
  simp only [same]
  split
  · rfl
  · rw [List.append_nil]
    rfl

/-- Not all that matches the empty text is the empty text. -/
example : (plus (seq (star (char 'a')) empty)).Matches [] ∧ ¬(seq (star (char 'a')) (char 'b')).Matches [] := by
  decide

/-! ## The language of an expression -/

/-- The texts that an expression matches. -/
def language (r : Regex) : Language Char := {text | r.Matches text}

theorem matches_star_iff :
    (star inner).Matches text ↔ ∃ parts : List (List Char), text = parts.flatten ∧ ∀ u ∈ parts, inner.Matches u := by
  constructor
  · intro matched
    generalize whole : star inner = r at matched
    induction matched with
    | starNil => exact ⟨[], rfl, by simp⟩
    | @starCons _ u v first _ _ ih =>
      cases whole
      obtain ⟨parts, rfl, each⟩ := ih rfl
      exact ⟨u :: parts, rfl, List.forall_mem_cons.2 ⟨first, each⟩⟩
    | _ => cases whole
  · rintro ⟨parts, rfl, each⟩
    induction parts with
    | nil => exact .starNil
    | cons u parts ih =>
      obtain ⟨first, rest⟩ := List.forall_mem_cons.1 each
      exact .starCons first (ih rest)

theorem matches_plus_iff :
    (plus inner).Matches text ↔ ∃ u v, inner.Matches u ∧ (star inner).Matches v ∧ u ++ v = text := by
  constructor
  · intro matched
    generalize whole : plus inner = r at matched
    induction matched with
    | @plusOnce _ u once =>
      cases whole
      exact ⟨u, [], once, .starNil, List.append_nil u⟩
    | @plusCons _ u v first _ _ ih =>
      cases whole
      obtain ⟨w, x, second, rest, rfl⟩ := ih rfl
      exact ⟨u, w ++ x, first, .starCons second rest, rfl⟩
    | _ => cases whole
  · rintro ⟨u, v, first, rest, rfl⟩
    obtain ⟨parts, rfl, each⟩ := matches_star_iff.1 rest
    clear rest
    induction parts generalizing u with
    | nil =>
      rw [List.flatten_nil, List.append_nil]
      exact .plusOnce first
    | cons w parts ih =>
      obtain ⟨second, each⟩ := List.forall_mem_cons.1 each
      exact .plusCons first (ih w second each)

theorem language_seq : (seq left right).language = left.language * right.language := by
  refine Language.ext fun text => ⟨fun matched => ?_, fun parts => ?_⟩
  · cases matched with
    | seq first second => exact Language.append_mem_mul first second
  · obtain ⟨u, first, v, second, rfl⟩ := Language.mem_mul.1 parts
    exact .seq first second

theorem language_alt : (alt left right).language = left.language + right.language := by
  refine Language.ext fun text => ⟨fun matched => ?_, fun either => ?_⟩
  · cases matched with
    | altLeft here => exact .inl here
    | altRight there => exact .inr there
  · rcases (Language.mem_add ..).1 either with here | there
    · exact .altLeft here
    · exact .altRight there

theorem language_star : (star inner).language = inner.language∗ :=
  Language.ext fun _ => matches_star_iff.trans Language.mem_kstar.symm

theorem language_plus : (plus inner).language = inner.language * (star inner).language := by
  refine Language.ext fun text => matches_plus_iff.trans ?_
  rw [Language.mem_mul]
  exact ⟨fun ⟨u, v, first, rest, same⟩ => ⟨u, first, v, rest, same⟩,
    fun ⟨u, first, v, rest, same⟩ => ⟨u, v, first, rest, same⟩⟩

theorem language_optional : (optional inner).language = 1 + inner.language := by
  refine Language.ext fun text => ⟨fun matched => ?_, fun either => ?_⟩
  · cases matched with
    | optionalNil => exact .inl rfl
    | optionalOnce once => exact .inr once
  · rcases (Language.mem_add ..).1 either with nothing | once
    · cases (Language.mem_one _).1 nothing
      exact .optionalNil
    · exact .optionalOnce once

end Regex

end LexSpec
