import Mathlib.Data.List.Basic
import LexSpec.Text.Escape

/-! # Escaped texts are read in one way

The escapes of characters are a prefix code: what an escape stands for and where it ends can be told from its
first characters, whatever follows (`escape_append_inj`). So no two texts are escaped alike
(`flatMap_escape_injective`), as long as no quote of the surroundings is one of the letters that escapes use.
`Quotes` lists what stands between single quotes, and `quoted` writes it (`quotes_iff`).

A character that is no escape stands for itself and is not a backslash. Of the escapes, one for a code point has
a `u` behind the backslash, and its digits end at the closing brace.
-/

namespace LexSpec

/-! ## Hexadecimal digits -/

theorem digitChar_inj {m n : Nat} (hm : m < 16) (hn : n < 16) (same : m.digitChar = n.digitChar) : m = n := by
  have each : ∀ i j : Fin 16, Nat.digitChar i = Nat.digitChar j → i = j := by decide
  exact congrArg Fin.val (each ⟨m, hm⟩ ⟨n, hn⟩ same)

theorem singleton_ne_toDigits_append {n : Nat} {c d : Char} : [c] ≠ Nat.toDigits 16 n ++ [d] := by
  intro same
  have lengths := congrArg List.length same
  have positive := @Nat.length_toDigits_pos 16 n
  rw [List.length_append, List.length_singleton, List.length_singleton] at lengths
  omega

theorem toDigits_sixteen_inj {m n : Nat} (same : Nat.toDigits 16 m = Nat.toDigits 16 n) : m = n := by
  -- the last digit is the remainder and the digits before it are those of the quotient
  induction m using Nat.strongRecOn generalizing n with
  | ind m ih =>
    rw [Nat.toDigits_eq_if (by decide), Nat.toDigits_eq_if (n := n) (by decide)] at same
    split at same
    next small =>
      split at same
      next small' => exact digitChar_inj small small' (List.singleton_inj.1 same)
      next => exact absurd same singleton_ne_toDigits_append
    next large =>
      split at same
      next => exact absurd same.symm singleton_ne_toDigits_append
      next =>
        obtain ⟨front, last⟩ := List.append_singleton_inj.1 same
        have quotient := ih (m / 16) (by omega) front
        have remainder := digitChar_inj (Nat.mod_lt m (by decide)) (Nat.mod_lt n (by decide)) last
        omega

/-- A number is written with digits only. -/
theorem not_mem_toDigits {base : Nat} {c : Char} (other : ∀ digit, Nat.digitChar digit ≠ c) (large : 1 < base)
    (n : Nat) : c ∉ Nat.toDigits base n := by
  induction n using Nat.strongRecOn with
  | ind n ih =>
    rw [Nat.toDigits_eq_if large]
    split
    next => simp [(other n).symm]
    next =>
      have smaller : n / base < n := Nat.div_lt_self (by omega) large
      simp [ih _ smaller, (other _).symm]

theorem brace_not_mem_toDigits (n : Nat) : '\x7d' ∉ Nat.toDigits 16 n :=
  not_mem_toDigits (fun _ => Nat.digitChar_ne _ rfl) (by decide) n

/-- Where a mark ends two texts that do not have it, the texts and what follows the mark are the same. -/
theorem append_cons_inj_of_not_mem {mark : Char} {front front' back back' : List Char} (free : mark ∉ front)
    (free' : mark ∉ front') (same : front ++ mark :: back = front' ++ mark :: back') :
    front = front' ∧ back = back' := by
  induction front generalizing front' with
  | nil =>
    cases front' with
    | nil => exact ⟨rfl, (List.cons.inj same).2⟩
    | cons c front' =>
      obtain ⟨rfl, -⟩ := List.cons.inj same
      exact absurd (List.mem_cons_self ..) free'
  | cons c front ih =>
    cases front' with
    | nil =>
      obtain ⟨rfl, -⟩ := List.cons.inj same
      exact absurd (List.mem_cons_self ..) free
    | cons d front' =>
      obtain ⟨rfl, rest⟩ := List.cons.inj same
      obtain ⟨rfl, rfl⟩ := ih (fun member => free (List.mem_cons_of_mem _ member))
        (fun member => free' (List.mem_cons_of_mem _ member)) rest
      exact ⟨rfl, rfl⟩

/-! ## Escapes -/

/-- The character that a letter behind a backslash stands for. -/
def ofEscapeLetter (letter : Char) : Char :=
  if letter = '0' then '\x00'
  else if letter = 't' then '\t'
  else if letter = 'n' then '\n'
  else if letter = 'r' then '\r'
  else letter

/-- A text shows a character: by itself, by a letter behind a backslash or by its code point. -/
inductive Shows : Char → List Char → Prop where
  | itself {c : Char} (other : c ≠ '\\') : Shows c [c]
  | letter {c letter : Char} (means : ofEscapeLetter letter = c) (notCode : letter ≠ 'u') :
      Shows c ['\\', letter]
  | codePoint (c : Char) : Shows c ('\\' :: 'u' :: '\x7b' :: (Nat.toDigits 16 c.toNat ++ ['\x7d']))

/-- No quote is one of the letters that stand behind a backslash. -/
def ProperQuotes (quotes : List Char) : Prop := ∀ letter ∈ ['0', 't', 'n', 'r', 'u'], letter ∉ quotes

instance (quotes : List Char) : Decidable (ProperQuotes quotes) := List.decidableBAll (· ∉ quotes) _

variable {quotes : List Char} {c d : Char}

theorem shows_of_escapeLetter? (proper : ProperQuotes quotes) {letter : Char}
    (found : escapeLetter? quotes c = some letter) : Shows c ['\\', letter] := by
  unfold escapeLetter? at found
  repeat' split at found
  all_goals cases found
  next is => exact .letter (is ▸ rfl) (by decide)
  next is => exact .letter (is ▸ rfl) (by decide)
  next is => exact .letter (is ▸ rfl) (by decide)
  next is => exact .letter (is ▸ rfl) (by decide)
  next quote =>
    -- a backslash or a quote stands for itself
    have other : c ∉ ['0', 't', 'n', 'r', 'u'] := by
      rcases quote with rfl | member
      · decide
      · exact fun letter => proper c letter member
    simp only [List.mem_cons, List.not_mem_nil, or_false, not_or] at other
    obtain ⟨zero, tab, newline, carriageReturn, code⟩ := other
    have itself : ofEscapeLetter c = c := by simp [ofEscapeLetter, zero, tab, newline, carriageReturn]
    exact .letter itself code

theorem shows_escape (proper : ProperQuotes quotes) (c : Char) : Shows c (escape quotes c) := by
  unfold escape
  split
  next letter found => exact shows_of_escapeLetter? proper found
  next none =>
    split
    · exact .codePoint c
    · refine .itself fun is => ?_
      rw [is] at none
      simp [escapeLetter?] at none

/-- The character that is shown and the end of what shows it can be told from its first characters. -/
theorem Shows.append_inj {text text' rest rest' : List Char} (first : Shows c text) (second : Shows d text')
    (same : text ++ rest = text' ++ rest') : c = d ∧ rest = rest' := by
  cases first with
  | itself other =>
    cases second with
    | itself => exact List.cons.inj same
    | letter | codePoint => exact absurd (List.cons.inj same).1 other
  | letter means notCode =>
    cases second with
    | itself other => exact absurd (List.cons.inj same).1.symm other
    | letter means' =>
      obtain ⟨rfl, rest⟩ := List.cons.inj (List.cons.inj same).2
      exact ⟨means.symm.trans means', rest⟩
    | codePoint => exact absurd (List.cons.inj (List.cons.inj same).2).1 notCode
  | codePoint =>
    cases second with
    | itself other => exact absurd (List.cons.inj same).1.symm other
    | letter _ notCode => exact absurd (List.cons.inj (List.cons.inj same).2).1.symm notCode
    | codePoint =>
      simp only [List.cons_append, List.append_assoc, List.cons.injEq, true_and, List.nil_append] at same
      obtain ⟨digits, rest⟩ :=
        append_cons_inj_of_not_mem (brace_not_mem_toDigits _) (brace_not_mem_toDigits _) same
      exact ⟨Char.toNat_inj.1 (toDigits_sixteen_inj digits), rest⟩

theorem escape_append_inj (proper : ProperQuotes quotes) {rest rest' : List Char}
    (same : escape quotes c ++ rest = escape quotes d ++ rest') : c = d ∧ rest = rest' :=
  (shows_escape proper c).append_inj (shows_escape proper d) same

theorem escape_ne_nil (proper : ProperQuotes quotes) (c : Char) : escape quotes c ≠ [] := by
  have shown := shows_escape proper c
  generalize escape quotes c = text at shown
  cases shown <;> exact List.cons_ne_nil _ _

/-- No two texts are escaped alike. -/
theorem flatMap_escape_injective (proper : ProperQuotes quotes) {chars others : List Char}
    (same : chars.flatMap (escape quotes) = others.flatMap (escape quotes)) : chars = others := by
  induction chars generalizing others with
  | nil =>
    cases others with
    | nil => rfl
    | cons d others => simp [escape_ne_nil proper] at same
  | cons c chars ih =>
    cases others with
    | nil => simp [escape_ne_nil proper] at same
    | cons d others =>
      obtain ⟨rfl, rest⟩ := escape_append_inj proper same
      rw [ih rest]

/-! ## Characters between single quotes -/

/-- The characters that have an escape of two characters between single quotes. -/
def quotedSpecially : List Char := ['\x00', '\t', '\n', '\r', '\\', '\'']

/-- A text quotes a character: it has the character itself between single quotes if that is printable, and
    otherwise its escape. -/
inductive Quotes : String → Char → Prop where
  | null : Quotes "'\\0'" '\x00'
  | tab : Quotes "'\\t'" '\t'
  | newline : Quotes "'\\n'" '\n'
  | carriageReturn : Quotes "'\\r'" '\r'
  | backslash : Quotes "'\\\\'" '\\'
  | quote : Quotes "'\\''" '\''
  | codePoint {c : Char} (plain : c ∉ quotedSpecially) (unprintable : isUnprintable c = true) :
      Quotes (String.ofList (['\'', '\\', 'u', '\x7b'] ++ Nat.toDigits 16 c.toNat ++ ['\x7d', '\''])) c
  | itself {c : Char} (plain : c ∉ quotedSpecially) (printable : isUnprintable c = false) :
      Quotes (String.ofList ['\'', c, '\'']) c

theorem quotes_iff {text : String} : Quotes text c ↔ text = quoted c := by
  have unlisted : c ∉ quotedSpecially → escapeLetter? ['\''] c = none := by
    intro plain
    simp only [quotedSpecially, List.mem_cons, List.not_mem_nil, or_false, not_or] at plain
    simp [escapeLetter?, plain]
  constructor
  · intro quotes
    cases quotes with
    | codePoint plain unprintable => simp [quoted, escape, unlisted plain, unprintable]
    | itself plain printable => simp [quoted, escape, unlisted plain, printable]
    | _ => decide
  · rintro rfl
    by_cases plain : c ∈ quotedSpecially
    · simp only [quotedSpecially, List.mem_cons, List.not_mem_nil, or_false] at plain
      rcases plain with rfl | rfl | rfl | rfl | rfl | rfl
      · exact .null
      · exact .tab
      · exact .newline
      · exact .carriageReturn
      · exact .backslash
      · exact .quote
    · cases printable : isUnprintable c with
      | true => simpa [quoted, escape, unlisted plain, printable] using Quotes.codePoint plain printable
      | false => simpa [quoted, escape, unlisted plain, printable] using Quotes.itself plain printable

end LexSpec
