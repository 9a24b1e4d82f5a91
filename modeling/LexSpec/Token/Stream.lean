import LexSpec.Session
import LexSpec.Token.Scanner

/-! # The tokens of a text

`TokenStream.of` scans a text to its end, or up to where no token can be found. Each token keeps the
place where it starts and the cursor behind it, so that a reader of the list can tell where it stopped.
-/

namespace LexSpec

/-- A token in its place: how it is spelled, where it starts, and the cursor behind it. -/
structure PlacedToken where
  token : Token
  text : String
  position : Position
  behind : Cursor
deriving DecidableEq

/-- The tokens from a cursor on. `final` is the cursor where no further token was found and `stop?` the
    reason, if that is not the end of the text. -/
structure TokenStream where
  tokens : List PlacedToken
  stop? : Option Stop
  final : Cursor
deriving DecidableEq

namespace TokenStream

/-- Scans all tokens from a cursor on. -/
def of (input : Cursor) : TokenStream :=
  match _found : Token.scanner.next 0 input with
  | (.ok (.token position text token), behind) =>
    let rest := of behind
    { rest with tokens := ⟨token, text, position, behind⟩ :: rest.tokens }
  | (.ok (.endOfFile _), final) => ⟨[], none, final⟩
  | (.error stop, final) => ⟨[], some stop, final⟩
termination_by input.bytesLeft
decreasing_by exact Scanner.bytesLeft_lt_of_next _found

theorem of_token {input behind : Cursor} {position : Position} {text : String} {token : Token}
    (h : Token.scanner.next 0 input = (.ok (.token position text token), behind)) :
    of input =
      { of behind with tokens := ⟨token, text, position, behind⟩ :: (of behind).tokens } := by
  rw [of]
  split <;> simp_all

end TokenStream

/-- Reads all tokens up to the end of the text. -/
def Step.tokens : Step (List PlacedToken) := fun session =>
  let stream := TokenStream.of session.input
  match stream.stop? with
  | none => .ok stream.tokens { session with input := stream.final }
  | some stop => .error stop { session with input := stream.final }

end LexSpec
