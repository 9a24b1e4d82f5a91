import LexSpec.Proofs.Token.Cursors

/-! # Scanning without faults

A cursor is ready when no bytes are pending and the counters reach over the rest of the text. At a ready cursor
every character that is ahead can be read, and the cursor behind it is ready again (`Cursor.Ready.behind`). So
no scan at a ready cursor breaks off with a fault (`Cursor.Ready.exists_scan`), and neither does the stream of
the tokens from there on (`Cursor.Ready.stop?_ne_fault`).
-/

namespace LexSpec

/-- Characters can be read up to the end of the text. -/
structure Cursor.Ready (input : Cursor) : Prop where
  drained : input.pending = []
  room : input.HasRoom

namespace Cursor.Ready

variable {input next stop : Cursor} {text more : List Char}

theorem ofString {source : String} (small : source.length < 2 ^ 28) : (Cursor.ofString source).Ready :=
  ⟨rfl, hasRoom_ofString small⟩

/-! ## Reading -/

theorem behind {c : Char} (ready : input.Ready) (read : input.nextChar = .ok (some (c, next))) :
    next.Ready := by
  obtain ⟨-, -, ahead, shape⟩ := nextChar_eq_some_iff.1 read
  have room := ready.room
  rw [HasRoom, ahead, List.length_cons] at room
  rw [shape]
  exact ⟨rfl, room.next c⟩

theorem of_reads (ready : input.Ready) (reads : input.Reads text stop) : stop.Ready := by
  induction reads with
  | nil => exact ready
  | cons first _ ih => exact ih (ready.behind first)

theorem exists_reads (ready : input.Ready) (ahead : input.rest = text ++ more) :
    ∃ stop, input.Reads text stop ∧ stop.rest = more := by
  have room : Position.Room [] input.position input.rest.length := ready.room
  obtain ⟨final, reaches⟩ := room.exists_advanceOver
  rw [ahead] at reaches
  obtain ⟨middle, front, -⟩ := Position.advanceOver_append_eq_ok_iff.1 reaches
  exact Cursor.exists_reads ready.drained ahead front

theorem readable (ready : input.Ready) : input.Readable := by
  cases ahead : input.rest with
  | nil => exact readable_of_rest_eq_nil ready.drained ahead
  | cons c rest =>
    obtain ⟨stop, reads, -⟩ := @exists_reads input [c] rest ready ahead
    cases reads with
    | cons first _ => exact ⟨_, first⟩

theorem exists_takeWhile (ready : input.Ready) (p : Char → Bool) :
    ∃ found, input.takeWhile p = .ok found := by
  obtain ⟨stop, reads, rest⟩ := ready.exists_reads (List.takeWhile_append_dropWhile (p := p)).symm
  refine ⟨(_, stop), takeWhile_eq_ok_iff.2 ⟨reads, fun c member => ?_, ?_⟩⟩
  · exact List.all_eq_true.1 List.all_takeWhile c member
  · refine ⟨(ready.of_reads reads).readable, fun c head => ?_⟩
    have fails := List.head?_dropWhile_not p input.rest
    rw [← rest, head] at fails
    exact fails

/-! ## Scanning -/

theorem exists_scanName (ready : input.Ready) (token : String → Token) :
    ∃ found, Token.scanName token input = .ok found := by
  refine exists_bind_eq_ok (ready.exists_takeWhile isNameChar) fun (name, next) _ => ?_
  dsimp only
  split
  · exact ⟨_, rfl⟩
  · exact ⟨_, rfl⟩

theorem exists_scanEscape (ready : input.Ready) : ∃ found, Token.scanEscape input = .ok found := by
  refine exists_bind_eq_ok ready.readable fun result _ => ?_
  cases result with
  | none => exact ⟨_, rfl⟩
  | some result => exact ⟨_, rfl⟩

theorem exists_scanTurnstile (ready : input.Ready) : ∃ found, Token.scanTurnstile input = .ok found := by
  refine exists_bind_eq_ok ready.readable fun result _ => ?_
  cases result with
  | none => exact ⟨_, rfl⟩
  | some result =>
    dsimp only
    split
    · exact ⟨_, rfl⟩
    · exact ⟨_, rfl⟩

theorem exists_scanStartCode (ready : input.Ready) : ∃ found, Token.scanStartCode input = .ok found := by
  refine exists_bind_eq_ok (ready.exists_takeWhile Char.isDigit) fun (digits, behind) taken => ?_
  obtain ⟨reads, -, -⟩ := takeWhile_eq_ok_iff.1 taken
  dsimp only
  split
  · exact ⟨_, rfl⟩
  refine exists_bind_eq_ok (ready.of_reads reads).readable fun result _ => ?_
  cases result with
  | none => exact ⟨_, rfl⟩
  | some result =>
    dsimp only
    split
    · exact ⟨_, rfl⟩
    · exact ⟨_, rfl⟩

theorem exists_scanFrom (ready : input.Ready) (first : Char) :
    ∃ found, Token.scanFrom first input = .ok found := by
  -- one case for each kind of first character, in the order in which they are told apart
  unfold Token.scanFrom
  split
  · exact ⟨_, rfl⟩
  split
  · exact exists_bind_eq_ok (ready.exists_takeWhile _) fun _ _ => ⟨_, rfl⟩
  split
  · exact ready.exists_scanName _
  split
  · exact ready.exists_scanName _
  split
  · exact ready.exists_scanEscape
  split
  · exact ready.exists_scanTurnstile
  split
  · exact ready.exists_scanStartCode
  split
  · exact exists_bind_eq_ok (ready.exists_takeWhile _) fun _ _ => ⟨_, rfl⟩
  split
  · exact ⟨_, rfl⟩
  · exact ⟨_, rfl⟩

theorem exists_scan (ready : input.Ready) : ∃ found, Token.scan input = .ok found := by
  refine exists_bind_eq_ok ready.readable fun result read => ?_
  cases result with
  | none => exact ⟨_, rfl⟩
  | some result => exact (ready.behind read).exists_scanFrom result.1

theorem behind_scan {found : Scan Token} (ready : input.Ready) (scanned : Token.scan input = .ok found)
    (ends : found.next? = some next) : next.Ready := by
  rcases Token.finds_of_scan scanned with rfl | finds
  · cases ends
  · cases finds with
    | endOfFile => cases ends
    | blank _ reads | comment _ reads _ | token _ reads _ =>
      cases ends
      exact ready.of_reads reads

/-! ## From token to token -/

theorem next_ne_fault (ready : input.Ready) (fault : Fault) :
    (Token.scanner.next 0 input).1 ≠ .error (.fault fault) := by
  fun_induction Scanner.next Token.scanner 0 input with
  | case1 input other scanned =>
    obtain ⟨found, given⟩ := ready.exists_scan
    cases given.symm.trans scanned
  | case2 | case3 | case5 => simp
  | case4 input next scanned ih => exact ih (ready.behind_scan scanned rfl)

theorem stop?_ne_fault (ready : input.Ready) (fault : Fault) :
    (TokenStream.of input).stop? ≠ some (.fault fault) := by
  intro stopped
  obtain ⟨stop, tokenises, finished⟩ := TokenStream.exists_tokenises input
  obtain ⟨text, reads, -⟩ := tokenises.exists_reads
  rw [TokenStream.of_eq_of_tokenises tokenises] at stopped
  have faultless := (ready.of_reads reads).next_ne_fault fault
  rcases found : Token.scanner.next 0 stop with ⟨result, final⟩
  rw [found] at faultless
  rw [TokenStream.of_eq stop, found] at stopped
  match result, found with
  | .error reason, found =>
    cases stopped
    exact faultless rfl
  | .ok (.token position text token), found =>
    rw [TokenStream.of_token found] at finished
    cases finished
  | .ok (.endOfFile position), found => cases stopped

end Cursor.Ready

end LexSpec
