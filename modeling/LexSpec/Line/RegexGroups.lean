import LexSpec.Line.Refusal

/-! # Expressions written as tokens

An expression is written as alternatives with bars between them, each a row of one or more items. An
item is a name, a word, an escape, a dot or a group in parentheses, with any number of postfix operators
behind it. An empty pair of parentheses is the empty text.

Tokens are read from left to right. The groups that are open at a place are kept in a list, the
innermost first. In each group the items of the row and the alternatives before it are known, the
latest first, and a postfix operator takes the latest item.
-/

namespace LexSpec

/-- Items in a row, the latest first, joined to the left. -/
def Regex.ofRow (last : Regex) : List Regex → Regex
  | [] => last
  | previous :: earlier => .seq (ofRow previous earlier) last

/-- Alternatives, the latest first, joined to the left. -/
def Regex.ofAlternatives (last : Regex) : List Regex → Regex
  | [] => last
  | previous :: earlier => .alt (ofAlternatives previous earlier) last

/-- A group that has been read in part: the complete alternatives and the items of the row behind
    them, both the latest first. -/
structure OpenGroup where
  alternatives : List Regex
  items : List Regex
deriving DecidableEq

namespace OpenGroup

def start : OpenGroup := ⟨[], []⟩

def push (group : OpenGroup) (item : Regex) : OpenGroup :=
  { group with items := item :: group.items }

/-- The row as one expression. An empty row is none. -/
def row? (group : OpenGroup) : Option Regex :=
  match group.items with
  | [] => none
  | last :: earlier => some (.ofRow last earlier)

/-- The group as one expression. -/
def value? (group : OpenGroup) : Option Regex :=
  group.row?.map fun row => .ofAlternatives row group.alternatives

/-- Starts a new alternative. -/
def bar? (group : OpenGroup) : Option OpenGroup :=
  group.row?.map fun row => ⟨row :: group.alternatives, []⟩

/-- Puts an operator on the latest item. -/
def operate? (group : OpenGroup) (operator : Regex → Regex) : Option OpenGroup :=
  match group.items with
  | [] => none
  | last :: earlier => some { group with items := operator last :: earlier }

end OpenGroup

/-- The groups that are open at a place: the innermost one and those around it, from the inside out. -/
structure OpenGroups where
  inner : OpenGroup
  outer : List OpenGroup
deriving DecidableEq

namespace OpenGroups

/-- Only the group of the whole expression, with nothing read. -/
def start : OpenGroups := ⟨.start, []⟩

def push (groups : OpenGroups) (item : Regex) : OpenGroups :=
  { groups with inner := groups.inner.push item }

/-- Changes the innermost group, where it can be changed. -/
def update? (groups : OpenGroups) (change : OpenGroup → Option OpenGroup) : Option OpenGroups :=
  (change groups.inner).map fun inner => { groups with inner }

def openGroup (groups : OpenGroups) : OpenGroups := ⟨.start, groups.inner :: groups.outer⟩

/-- Closes the innermost group, which becomes an item of the group around it. -/
def close? (groups : OpenGroups) : Option OpenGroups :=
  match groups.outer with
  | [] => none
  | around :: outer =>
    -- nothing has been read since the parenthesis opened
    if groups.inner = .start then some ⟨around.push .empty, outer⟩
    else groups.inner.value?.map fun item => ⟨around.push item, outer⟩

/-- Reads a token. -/
def next (scope : Scope) (groups : OpenGroups) (found : PlacedToken) : Except Refusal OpenGroups :=
  match found.token with
  | .setName name =>
    match scope.sets.find? name with
    | some set => .ok (groups.push (.chars set))
    | none => .error (.unknownSet found name)
  | .regexName name =>
    match scope.regexes.find? name with
    | some regex => .ok (groups.push regex)
    | none => .error (.unknownRegex found name)
  | .word text => .ok (groups.push (.ofString text))
  | .escape c => .ok (groups.push (.char (Token.unescape c)))
  | .dot => .ok (groups.push (.chars .any))
  | .openParen => .ok groups.openGroup
  | .closeParen => orUnexpected groups.close?
  | .bar => orUnexpected (groups.update? OpenGroup.bar?)
  | .star => orUnexpected (groups.update? (·.operate? .star))
  | .plus => orUnexpected (groups.update? (·.operate? .plus))
  | .question => orUnexpected (groups.update? (·.operate? .optional))
  | _ => .error (.unexpected found)
where
  /-- The groups, or the refusal of the token. -/
  orUnexpected : Option OpenGroups → Except Refusal OpenGroups
    | some groups => .ok groups
    | none => .error (.unexpected found)

/-- The expression, if no group is left open. -/
def finish (groups : OpenGroups) : Except Refusal Regex :=
  match groups.outer, groups.inner.value? with
  | [], some regex => .ok regex
  | _, _ => .error .incomplete

end OpenGroups

/-- The expression that tokens describe. -/
def Regex.ofTokens (scope : Scope) (tokens : List PlacedToken) : Except Refusal Regex := do
  (← tokens.foldlM (OpenGroups.next scope) .start).finish

end LexSpec
