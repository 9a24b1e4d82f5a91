import LexSpec.CharSet.Lemmas
import LexSpec.Specification
import LexSpec.Proofs.Grammar.Expression
import LexSpec.Proofs.Grammar.ExpressionReading
import LexSpec.Proofs.Definitions
import LexSpec.Proofs.Definitions.History
import LexSpec.Proofs.Grammar.Lines
import LexSpec.Proofs.Line.Reading
import LexSpec.Proofs.Line.Cutting
import LexSpec.Proofs.Specification.Acceptance
import LexSpec.Proofs.Cursor.Reading
import LexSpec.Proofs.Token.Reading
import LexSpec.Proofs.Cursor.Relocation
import LexSpec.Proofs.Line.Whole
import LexSpec.Proofs.Specification.Composition
import LexSpec.Proofs.Specification.Failure
import LexSpec.Proofs.CharSet.Canonical
import LexSpec.Proofs.Specification.Viability
import LexSpec.Proofs.CharSet.Membership
import LexSpec.Proofs.Session.Reachable
import LexSpec.Proofs.Specification.Warnings
import LexSpec.Proofs.Specification.Substitution
import LexSpec.Proofs.Specification.Places
import LexSpec.Proofs.Specification.Totality
import LexSpec.Proofs.Cursor.Equality
import LexSpec.Proofs.Session.Growth
import LexSpec.Proofs.Specification.SetDefinitions
import LexSpec.Proofs.Token.Failure
import LexSpec.Proofs.Regex.Language
import LexSpec.Proofs.Text.Escape
import LexSpec.Proofs.CharSet.Printing
import LexSpec.Proofs.Regex.Printing
import LexSpec.Proofs.Position.Order
import LexSpec.Proofs.Position.Counters
import LexSpec.Proofs.Session.Turns
import LexSpec.Proofs.Text.OneLine
import LexSpec.Proofs.Specification.Reports
import LexSpec.Proofs.Specification.Diagnostics
