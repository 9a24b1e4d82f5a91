import LexSpec.Cursor

/-! # Errors and warnings

What can be wrong with a text is told in errors, which end the reading, and warnings, which do not.
Both are shown behind the name of the file and, if they have one, their position.
-/

namespace LexSpec

/-! ## Errors -/

/-- The sort of an error: a set or an expression without a definition, a place where no token starts,
    or whatever the reader of a text makes an error. -/
inductive ErrorKind where
  | unknownSet
  | unknownRegex
  | lexical
  | user
deriving DecidableEq, Repr

/-- Why a text cannot be read. -/
structure TextError where
  kind : ErrorKind
  position : Option Position
  message : String
deriving DecidableEq, Repr

namespace TextError

/-- A set without a definition, used at a position. -/
def unknownSet (position : Position) (name : String) : TextError :=
  ⟨.unknownSet, some position, "unknown set macro: $" ++ name⟩

/-- A regular expression without a definition. References to expressions are not located, so the error
    has no position. -/
def unknownRegex (name : String) : TextError :=
  ⟨.unknownRegex, none, "unknown regex macro: %" ++ name⟩

/-- The error as one text. -/
def render (e : TextError) (file : String) : String :=
  match e.position with
  | some position => file ++ ":" ++ position.text ++ ": " ++ e.message
  | none => file ++ ": " ++ e.message

end TextError

/-- What ends a computation before its result: an error of the text or a fault. -/
inductive Stop where
  | error (error : TextError)
  | fault (fault : Fault)
deriving DecidableEq, Repr

/-! ## Warnings -/

/-- What is doubtful about a text that can be read. -/
inductive Warning where
  /-- A rule whose expression, shown as `regex`, matches the empty text. -/
  | nullableRegex (position : Position) (regex : String)
deriving DecidableEq, Repr

namespace Warning

def position : Warning → Position
  | nullableRegex position _ => position

def message : Warning → String
  | nullableRegex _ regex => "Regular expression " ++ regex ++ " matches the empty string."

/-- The warning as one text. -/
def render (w : Warning) (file : String) : String :=
  file ++ ":" ++ w.position.text ++ ": warning: " ++ w.message

end Warning

end LexSpec
