import LexSpec.Line.Refusal

/-! # Sets written as items

A set is written as a row of items and is their union: the name of a set, a dot for all characters, a
range with a dash between two single characters, a single character, or a word for its characters. A
single character is an escape or a word of one character. It is held back until the next token shows
whether it begins a range.
-/

namespace LexSpec

/-- The beginning of an item that is not complete yet: nothing, a single character that may begin a
    range, or a single character and a dash. -/
inductive OpenItem where
  | none
  | single (c : Char)
  | rangeFrom (low : Char)
deriving DecidableEq

/-- A row of items that has been read in part: the union of the complete items and the beginning of
    the next one. -/
structure SetItems where
  set : CharSet
  item : OpenItem
deriving DecidableEq

namespace SetItems

def start : SetItems := ⟨∅, .none⟩

/-- The set, with a single character that begins no range. -/
def closed (items : SetItems) : CharSet :=
  match items.item with
  | .single c => items.set.union (.singleton c)
  | _ => items.set

/-- Reads a token that begins an item behind the items in `set`. -/
def beginItem (scope : Scope) (set : CharSet) (found : PlacedToken) : Except Refusal SetItems :=
  match found.token with
  | .setName name =>
    match scope.sets.find? name with
    | some named => .ok ⟨set.union named, .none⟩
    | none => .error (.unknownSet found name)
  | .dot => .ok ⟨set.union .any, .none⟩
  | .escape c => .ok ⟨set, .single (Token.unescape c)⟩
  | .word text =>
    match (Token.word text).literal? with
    | some c => .ok ⟨set, .single c⟩
    | none => .ok ⟨set.union (.ofList text.toList), .none⟩
  | _ => .error (.unexpected found)

/-- Reads a token behind the items so far. -/
def next (scope : Scope) (items : SetItems) (found : PlacedToken) : Except Refusal SetItems :=
  match items.item with
  | .none => beginItem scope items.set found
  | .single c =>
    -- only here is a dash a sign of its own
    if found.token = .dash then .ok { items with item := .rangeFrom c }
    else beginItem scope items.closed found
  | .rangeFrom low =>
    match found.token.literal? with
    | some high => .ok ⟨items.set.union (.range low high), .none⟩
    | none => .error (.unexpected found)

/-- The set of the items. A range needs its second end. -/
def finish (items : SetItems) : Except Refusal CharSet :=
  match items.item with
  | .rangeFrom _ => .error .incomplete
  | _ => .ok items.closed

end SetItems

/-- The set that tokens describe. -/
def CharSet.ofTokens (scope : Scope) (tokens : List PlacedToken) : Except Refusal CharSet := do
  (← tokens.foldlM (SetItems.next scope) .start).finish

end LexSpec
