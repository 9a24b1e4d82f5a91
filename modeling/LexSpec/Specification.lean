import LexSpec.Line.Statement

/-! # Reading specifications

A specification is read line by line. Its rules come out in their order, each under the start code that
holds at its place, and definitions count from the line behind their own.
-/

namespace LexSpec

/-- Reads a specification up to the end of the text. -/
def Step.specification : Step (List Rule) := do
  let lines := (TokenStream.of (← getInput)).lines
  let rules ← sequence (lines.map Line.read)
  return rules.reduceOption

/-- A specification that has been read. -/
structure Specification where
  /-- The rules in their order. -/
  rules : List Rule
  /-- The warnings in their order. -/
  warnings : List Warning
deriving DecidableEq

/-- A rule in a report. -/
def Rule.text (rule : Rule) : String :=
  toString rule.startCode ++ " " ++ rule.name ++ " @ " ++ rule.position.text ++ ": " ++
    rule.regex.text

namespace Specification

/-- Reads a specification, with definitions made beforehand. -/
def readWith (source : String) (scope : Scope) : Except Stop Specification := do
  let (rules, warnings) ← Step.specification.runOn source scope
  return ⟨rules, warnings⟩

/-- Reads a specification. -/
def read (source : String) : Except Stop Specification := readWith source ∅

/-- The lines of a report: the rules and then the warnings. -/
def reportLines (file : String) (specification : Specification) : List String :=
  specification.rules.map Rule.text ++ specification.warnings.map (·.render file)

/-- A report on a specification: its rules and warnings, or the error that ended the reading. -/
def report (file source : String) : Except Fault String :=
  match read source with
  | .ok specification => .ok ("\n".intercalate (specification.reportLines file))
  | .error (.error error) => .ok (error.render file)
  | .error (.fault fault) => .error fault

end Specification

end LexSpec
