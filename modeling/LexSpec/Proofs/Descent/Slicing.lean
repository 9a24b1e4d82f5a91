import Mathlib.Algebra.BigOperators.Group.List.Basic
import LexSpec.Proofs.Cursor.Bytes
import LexSpec.Proofs.Token.Spelling

/-! # Cutting texts at bytes

A text is cut at a byte index, and there is something to cut only if the index lies in the text and does not
lie inside a character. `cutAtByte?` checks this. The index of a character passes (`takeChars?_eq`), and so does
the index behind characters that are one byte long each (`cutAtByte?_append_of_ascii`).
-/

namespace LexSpec

/-- The number of bytes of a text. -/
def byteLength (text : List Char) : Nat := (text.map Char.utf8Size).sum

/-- The two parts of a text at a byte index. There are none if the index is out of range or inside a
    character. -/
def cutAtByte? : List Char → Nat → Option (List Char × List Char)
  | text, 0 => some ([], text)
  | [], _ + 1 => none
  | c :: rest, index + 1 =>
    if c.utf8Size ≤ index + 1 then
      (cutAtByte? rest (index + 1 - c.utf8Size)).map fun (front, back) => (c :: front, back)
    else none

/-- The byte index of a character, if there are that many. -/
def byteIndex? : List Char → Nat → Option Nat
  | [], _ => none
  | _ :: _, 0 => some 0
  | c :: rest, count + 1 => (byteIndex? rest count).map (c.utf8Size + ·)

/-- As many characters of a text as a length says, or all of them if there are fewer. -/
def takeChars? (text : List Char) (length : Nat) : Option (List Char) :=
  (cutAtByte? text ((byteIndex? text length).getD (byteLength text))).map Prod.fst

theorem byteLength_cons (c : Char) (text : List Char) :
    byteLength (c :: text) = c.utf8Size + byteLength text := by
  simp only [byteLength, List.map_cons, List.sum_cons]

theorem cutAtByte?_append (front back : List Char) :
    cutAtByte? (front ++ back) (byteLength front) = some (front, back) := by
  induction front with
  | nil => cases back <;> rfl
  | cons c front ih =>
    have positive := c.utf8Size_pos
    obtain ⟨index, length⟩ : ∃ index, byteLength (c :: front) = index + 1 :=
      Nat.exists_eq_add_one.2 (by rw [byteLength_cons]; omega)
    have behind : index + 1 - c.utf8Size = byteLength front := by
      rw [← length, byteLength_cons]
      omega
    have inside : c.utf8Size ≤ index + 1 := by
      rw [← length, byteLength_cons]
      omega
    rw [length, List.cons_append, cutAtByte?, if_pos inside, behind, ih]
    rfl

theorem getD_byteIndex? (text : List Char) (length : Nat) :
    (byteIndex? text length).getD (byteLength text) = byteLength (text.take length) := by
  induction text generalizing length with
  | nil => rw [List.take_nil]; rfl
  | cons c rest ih =>
    cases length with
    | zero => rfl
    | succ length =>
      rw [List.take_succ_cons, byteLength_cons, byteLength_cons, ← ih length, byteIndex?]
      cases byteIndex? rest length <;> rfl

/-- The index of a character never lies inside one. -/
theorem takeChars?_eq (text : List Char) (length : Nat) : takeChars? text length = some (text.take length) := by
  have cut := cutAtByte?_append (text.take length) (text.drop length)
  rw [List.take_append_drop] at cut
  rw [takeChars?, getD_byteIndex?, cut]
  rfl

/-- Where each character is one byte long, their number is a byte index. -/
theorem cutAtByte?_append_of_ascii {front : List Char} (ascii : ∀ c ∈ front, c.utf8Size = 1)
    (back : List Char) : cutAtByte? (front ++ back) front.length = some (front, back) := by
  have length : byteLength front = front.length := by
    rw [byteLength, List.map_congr_left ascii, List.map_const', List.sum_replicate_nat, Nat.mul_one]
  rw [← length, cutAtByte?_append]

theorem utf8Size_of_isDigit {c : Char} (digit : c.isDigit) : c.utf8Size = 1 := by
  rw [Char.utf8Size_eq_one_iff]
  simp only [Char.isDigit, Bool.and_eq_true, decide_eq_true_eq] at digit
  exact UInt32.le_trans digit.2 (by decide)

/-! ## The text of a name is cut behind its sign -/

theorem Spells.cutAtByte?_of_setName {name : String} {text : List Char} (spells : Spells (.setName name) text) :
    cutAtByte? text 1 = some (['$'], name.toList) := by
  cases spells with
  | setName =>
    rw [String.toList_ofList]
    exact @cutAtByte?_append_of_ascii ['$'] (List.forall_mem_singleton.2 rfl) _
  | sign sign => cases sign

theorem Spells.cutAtByte?_of_regexName {name : String} {text : List Char}
    (spells : Spells (.regexName name) text) : cutAtByte? text 1 = some (['%'], name.toList) := by
  cases spells with
  | regexName =>
    rw [String.toList_ofList]
    exact @cutAtByte?_append_of_ascii ['%'] (List.forall_mem_singleton.2 rfl) _
  | sign sign => cases sign

/-! ## Bytes of a source -/

theorem Cursor.bytesLeft_eq (input : Cursor) : input.bytesLeft = input.bytesAhead.length := by
  rw [bytesLeft, bytesAhead, List.length_append]
  congr 1
  induction input.rest with
  | nil => rfl
  | cons c rest ih =>
    rw [List.foldr_cons, ih, List.flatMap_cons, List.length_append, String.length_utf8EncodeChar]

theorem Cursor.bytesLeft_ofString (source : String) : (ofString source).bytesLeft = source.utf8ByteSize := by
  rw [bytesLeft_eq, bytesAhead_ofString]
  exact String.size_toByteArray

end LexSpec
