import LexSpec.Proofs.Descent.Whole
import LexSpec.Proofs.Token.Faults

/-! # Reading comes to a result

A text that is not too long for the counters of a position is read to a specification or to an error, and this is
so if it is read by descent, too, where every call and every cut of a text is checked: `readWith_total`.

Reading a specification breaks off with a fault only where the scanning of its text does
(`stop?_of_readWith_fault`), and there a text that is not too long has none. Reading by descent gives the same
(`Descent.readWith_eq_mapError`).
-/

namespace LexSpec

variable {source : String} {scope : Scope} {fault : Fault}

/-- A line breaks off with a fault where its tokens do. -/
theorem Line.ending_of_fault {line : Line} {input : Cursor}
    (broken : line.statement scope = .error (.fault fault, input)) :
    ∃ final, line.ending = .stopped (.fault fault) final := by
  have early (told : earlyEnd line.ending = .fault fault) :
      ∃ final, line.ending = .stopped (.fault fault) final := by
    cases ending : line.ending with
    | newline behind | endOfFile final =>
      rw [ending] at told
      cases told
    | stopped stop final =>
      rw [ending] at told
      cases told
      exact ⟨final, rfl⟩
  unfold statement at broken
  split at broken
  next refusal _ =>
    cases refusal with
    | incomplete => exact early (Prod.mk.inj (Except.error.inj broken)).1
    | unexpected | unknownSet | unknownRegex => cases broken
  next =>
    split at broken
    next stop final ending =>
      cases broken
      exact ⟨_, ending⟩
    next => cases broken

theorem stop?_of_readWith_fault (broken : Specification.readWith source scope = .error (.fault fault)) :
    (TokenStream.of (.ofString source)).stop? = some (.fault fault) := by
  obtain ⟨last, run⟩ := readWith_eq_error_iff.1 broken
  obtain ⟨before, line, after, rules, middle, input, lines, -, refused, -⟩ := sequence_eq_error_iff.1 run
  obtain ⟨final, ending⟩ := Line.ending_of_fault refused
  have member : line ∈ (TokenStream.of (.ofString source)).lines := by simp [lines]
  exact (TokenStream.stop?_of_mem_lines member ending).1

/-- A text is read to a specification or to an error. Reading it by descent gives the same result as soon as the
    fuel is linear in the bytes of the text: no call runs out of it, no text is cut out of bounds or inside a
    character, no character is read while bytes are pending, and no position leaves its counters. -/
theorem readWith_total (source : String) (scope : Scope) (small : source.length < 2 ^ 28) :
    (∃ specification, Specification.readWith source scope = .ok specification ∧
      ∀ fuel, 4 * source.utf8ByteSize + 2 ≤ fuel → Descent.readWith fuel source scope = .ok specification) ∨
    ∃ error, Specification.readWith source scope = .error (.error error) ∧
      ∀ fuel, 4 * source.utf8ByteSize + 2 ≤ fuel →
        Descent.readWith fuel source scope = .error (.stop (.error error)) := by
  have descends {fuel : Nat} (enough : 4 * source.utf8ByteSize + 2 ≤ fuel) :=
    @Descent.readWith_eq_mapError fuel source scope enough
  cases reads : Specification.readWith source scope with
  | ok specification => exact .inl ⟨specification, rfl, fun fuel enough => by rw [descends enough, reads]; rfl⟩
  | error stop =>
    cases stop with
    | error error => exact .inr ⟨error, rfl, fun fuel enough => by rw [descends enough, reads]; rfl⟩
    | fault fault =>
      exact absurd (stop?_of_readWith_fault reads) ((Cursor.Ready.ofString small).stop?_ne_fault fault)

theorem readWith_total_range :
    "$λ = a-z\n<10>\nx :- $λ+".length < 2 ^ 28 ∧
      Specification.readWith "$λ = a-z\n<10>\nx :- $λ+" ∅ =
        .ok ⟨[⟨10, "x", .plus (.chars (.range 'a' 'z')), ⟨14, 3, 1⟩⟩], []⟩ ∧
      ∀ fuel, 98 ≤ fuel → Descent.readWith fuel "$λ = a-z\n<10>\nx :- $λ+" ∅ =
        .ok ⟨[⟨10, "x", .plus (.chars (.range 'a' 'z')), ⟨14, 3, 1⟩⟩], []⟩ := by
  have small : "$λ = a-z\n<10>\nx :- $λ+".length < 2 ^ 28 := by decide
  have reads : Specification.readWith "$λ = a-z\n<10>\nx :- $λ+" ∅ =
      .ok ⟨[⟨10, "x", .plus (.chars (.range 'a' 'z')), ⟨14, 3, 1⟩⟩], []⟩ := by decide +kernel
  rcases readWith_total _ ∅ small with ⟨specification, given, descends⟩ | ⟨error, broken, -⟩
  · cases reads.symm.trans given
    exact ⟨small, reads, fun fuel enough => descends fuel (Nat.le_trans (by decide +kernel) enough)⟩
  · cases reads.symm.trans broken

end LexSpec
