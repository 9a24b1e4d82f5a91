import LexSpec.CharSet.Basic
import LexSpec.Definitions
import LexSpec.Diagnostic
import LexSpec.Regex.Basic

/-! # Names in scope

Sets and regular expressions are named apart, so one name can stand for both. A name without a
definition is an error: for a set at the place of its use, for an expression without a place.
-/

namespace LexSpec

/-- The set of a name, used at a position. -/
def Definitions.resolveSet (sets : Definitions CharSet) (position : Position) (name : String) :
    Except TextError CharSet :=
  match sets.find? name with
  | some set => .ok set
  | none => .error (.unknownSet position name)

def Definitions.resolveRegex (regexes : Definitions Regex) (name : String) :
    Except TextError Regex :=
  match regexes.find? name with
  | some regex => .ok regex
  | none => .error (.unknownRegex name)

/-- The definitions that a text can refer to. -/
@[ext] structure Scope where
  sets : Definitions CharSet
  regexes : Definitions Regex
deriving DecidableEq

namespace Scope

def empty : Scope := ⟨∅, ∅⟩

instance : EmptyCollection Scope := ⟨empty⟩

instance : Inhabited Scope := ⟨empty⟩

def defineSet (scope : Scope) (name : String) (set : CharSet) : Scope :=
  { scope with sets := scope.sets.insert name set }

def defineRegex (scope : Scope) (name : String) (regex : Regex) : Scope :=
  { scope with regexes := scope.regexes.insert name regex }

end Scope

end LexSpec
