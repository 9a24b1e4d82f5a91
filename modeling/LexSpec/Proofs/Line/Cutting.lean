import Mathlib.Data.List.Forall2
import LexSpec.Line.Statement
import LexSpec.Proofs.Likeness

/-! # Cutting tokens into lines

The lines of a token stream are its tokens cut at the newlines (`TokenStream.words_lines`). All but the
last end with one, and the last line ends where the stream does. Tokens that end with a newline are cut
apart from whatever comes behind them: `Line.exists_cut_append`.
-/

namespace LexSpec

/-! ## The lines of tokens -/

namespace Line

/-- The tokens of a line, without their places. -/
def words (line : Line) : List Token := line.tokens.map (·.token)

/-- The lines of tokens, the last of which ends with `last`. -/
def cut (last : LineEnd) (found : List PlacedToken) : List Line :=
  (split last found).1 :: (split last found).2

theorem cut_nil (last : LineEnd) : cut last [] = [⟨[], last⟩] := rfl

theorem cut_cons (last : LineEnd) (first : PlacedToken) (rest : List PlacedToken) :
    cut last (first :: rest) =
      if first.token = .newline then ⟨[], .newline first.behind⟩ :: cut last rest
      else (cut last rest).modifyHead (cons first) := by
  by_cases newline : first.token = .newline
  · simp only [cut, split, newline, if_true]
  · simp only [cut, split, newline, if_false, List.modifyHead]

theorem words_cut (last : LineEnd) (found : List PlacedToken) :
    (cut last found).map words = (found.map (·.token)).splitOn .newline := by
  induction found with
  | nil => rfl
  | cons first rest ih =>
    rw [List.map_cons, List.splitOn_cons_eq_if_modifyHead, ← ih, cut_cons]
    by_cases newline : first.token = .newline
    · simp only [newline, if_true, beq_self_eq_true, List.map_cons]
      rfl
    · simp only [newline, if_false, beq_eq_false_iff_ne.2 newline, Bool.false_eq_true]
      rfl

/-- A line ends with a newline among the tokens, or with what ends the last line. -/
theorem ending_of_mem_cut {last : LineEnd} {found : List PlacedToken} :
    ∀ line ∈ cut last found, line.ending = last ∨
      ∃ newline ∈ found, newline.token = .newline ∧ line.ending = .newline newline.behind := by
  induction found with
  | nil => simp [cut_nil]
  | cons first rest ih =>
    have later : ∀ line ∈ cut last rest, line.ending = last ∨
        ∃ newline ∈ first :: rest, newline.token = .newline ∧ line.ending = .newline newline.behind := by
      intro line member
      rcases ih line member with ends | ⟨newline, among, ends⟩
      · exact .inl ends
      · exact .inr ⟨newline, List.mem_cons_of_mem _ among, ends⟩
    rw [cut_cons]
    by_cases newline : first.token = .newline
    · rw [if_pos newline]
      exact List.forall_mem_cons.2 ⟨.inr ⟨first, List.mem_cons_self .., newline, rfl⟩, later⟩
    · rw [if_neg newline, cut, List.modifyHead_cons]
      obtain ⟨head, tail⟩ := List.forall_mem_cons.1 later
      exact List.forall_mem_cons.2 ⟨head, tail⟩

theorem exists_ending_eq_last (last : LineEnd) (found : List PlacedToken) :
    ∃ line ∈ cut last found, line.ending = last := by
  induction found with
  | nil => simp [cut_nil]
  | cons first rest ih =>
    obtain ⟨line, member, ends⟩ := ih
    rw [cut_cons]
    by_cases newline : first.token = .newline
    · rw [if_pos newline]
      exact ⟨line, List.mem_cons_of_mem _ member, ends⟩
    · rw [if_neg newline, cut, List.modifyHead_cons]
      rcases List.mem_cons.1 member with rfl | behind
      · exact ⟨_, List.mem_cons_self .., ends⟩
      · exact ⟨line, List.mem_cons_of_mem _ behind, ends⟩

/-- The tokens of the lines are the tokens that are cut, without the newlines. -/
theorem sublist_cut (last : LineEnd) (found : List PlacedToken) :
    ((cut last found).flatMap tokens).Sublist found := by
  induction found with
  | nil => exact List.Sublist.refl _
  | cons first rest ih =>
    rw [cut_cons]
    by_cases newline : first.token = .newline
    · rw [if_pos newline, List.flatMap_cons]
      exact ih.cons first
    · rw [if_neg newline, cut, List.modifyHead_cons, List.flatMap_cons, cons, List.cons_append]
      exact ih.cons_cons first

theorem statement_eq_ok_iff {line : Line} {scope : Scope} {statement : Statement} :
    line.statement scope = .ok statement ↔ Statement.ofTokens scope line.tokens = .ok statement ∧
      ∀ stop final, line.ending ≠ .stopped stop final := by
  unfold Line.statement
  cases Statement.ofTokens scope line.tokens with
  | error refusal => simp
  | ok said => cases line.ending <;> simp

end Line

namespace TokenStream

theorem lastEnd_ne_newline (stream : TokenStream) (behind : Cursor) : stream.lastEnd ≠ .newline behind := by
  unfold lastEnd
  split <;> simp

theorem lastEnd_eq_endOfFile_iff {stream : TokenStream} {final : Cursor} :
    stream.lastEnd = .endOfFile final ↔ stream.stop? = none ∧ stream.final = final := by
  unfold lastEnd
  cases stream.stop? <;> simp

theorem lastEnd_eq_stopped_iff {stream : TokenStream} {stop : Stop} {final : Cursor} :
    stream.lastEnd = .stopped stop final ↔ stream.stop? = some stop ∧ stream.final = final := by
  unfold lastEnd
  cases stream.stop? <;> simp

theorem words_lines (stream : TokenStream) :
    stream.lines.map Line.words = (stream.tokens.map (·.token)).splitOn .newline :=
  Line.words_cut stream.lastEnd stream.tokens

theorem sublist_tokens_lines (stream : TokenStream) :
    (stream.lines.flatMap Line.tokens).Sublist stream.tokens :=
  Line.sublist_cut stream.lastEnd stream.tokens

/-- A line is broken off where the stream is. -/
theorem stop?_of_mem_lines {stream : TokenStream} {line : Line} {stop : Stop} {final : Cursor}
    (member : line ∈ stream.lines) (stopped : line.ending = .stopped stop final) :
    stream.stop? = some stop ∧ stream.final = final := by
  rcases Line.ending_of_mem_cut line member with last | ⟨newline, -, -, ends⟩
  · exact lastEnd_eq_stopped_iff.1 (last.symm.trans stopped)
  · cases ends.symm.trans stopped

/-- A line that goes up to the end of the text ends where the stream does. -/
theorem final_of_mem_lines {stream : TokenStream} {line : Line} {final : Cursor} (member : line ∈ stream.lines)
    (ends : line.ending = .endOfFile final) : stream.stop? = none ∧ stream.final = final := by
  rcases Line.ending_of_mem_cut line member with last | ⟨newline, -, -, ending⟩
  · exact lastEnd_eq_endOfFile_iff.1 (last.symm.trans ends)
  · cases ending.symm.trans ends

/-- A line that goes up to a newline goes up to a token. -/
theorem exists_newline_of_mem_lines {stream : TokenStream} {line : Line} {behind : Cursor}
    (member : line ∈ stream.lines) (ends : line.ending = .newline behind) :
    ∃ newline ∈ stream.tokens, newline.token = .newline ∧ newline.behind = behind := by
  rcases Line.ending_of_mem_cut line member with last | ⟨newline, among, isNewline, ending⟩
  · exact absurd (last.symm.trans ends) (lastEnd_ne_newline stream behind)
  · exact ⟨newline, among, isNewline, LineEnd.newline.inj (ending.symm.trans ends)⟩

/-- No line is broken off exactly when the stream is not. -/
theorem stop?_eq_none_iff (stream : TokenStream) :
    stream.stop? = none ↔ ∀ line ∈ stream.lines, ∀ stop final, line.ending ≠ .stopped stop final := by
  constructor
  · intro complete line member stop final stopped
    cases complete.symm.trans (stop?_of_mem_lines member stopped).1
  · -- the last line ends with what the stream stopped at
    intro none
    obtain ⟨line, member, ends⟩ := Line.exists_ending_eq_last stream.lastEnd stream.tokens
    cases stopped : stream.stop? with
    | none => rfl
    | some stop =>
      have last : stream.lastEnd = .stopped stop stream.final := lastEnd_eq_stopped_iff.2 ⟨stopped, rfl⟩
      exact absurd (ends.trans last) (none line member stop stream.final)

end TokenStream

/-! ## Whole lines -/

/-- The last token, if there is one, is a newline. -/
def EndsLine (found : List PlacedToken) : Prop :=
  ∀ last, found.getLast? = some last → last.token = .newline

theorem endsLine_nil : EndsLine [] := by
  intro last final
  cases final

theorem EndsLine.cons {first : PlacedToken} {rest : List PlacedToken} (nonempty : rest ≠ [])
    (whole : EndsLine rest) : EndsLine (first :: rest) := by
  intro last final
  cases rest with
  | nil => exact absurd rfl nonempty
  | cons second rest =>
    rw [List.getLast?_cons_cons] at final
    exact whole last final

theorem EndsLine.of_cons {first : PlacedToken} {rest : List PlacedToken} (whole : EndsLine (first :: rest)) :
    EndsLine rest := by
  intro last final
  cases rest with
  | nil => cases final
  | cons second rest => exact whole last (by rw [List.getLast?_cons_cons, final])

theorem EndsLine.append {found others : List PlacedToken} (whole : EndsLine found)
    (wholeOthers : EndsLine others) : EndsLine (found ++ others) := by
  intro last final
  rw [List.getLast?_append] at final
  cases ends : others.getLast? with
  | none =>
    rw [ends, Option.none_or] at final
    exact whole last final
  | some other =>
    rw [ends, Option.some_or] at final
    cases final
    exact wholeOthers _ ends

theorem EndsLine.of_like {related : Position → Position → Prop} {found found' : List PlacedToken}
    (alike : List.Forall₂ (PlacedToken.Like related) found found') (whole : EndsLine found) :
    EndsLine found' := by
  induction alike with
  | nil => exact whole
  | @cons first first' rest rest' head tail ih =>
    cases tail with
    | nil =>
      intro last final
      cases final
      exact head.token.symm.trans (whole first rfl)
    | cons next tail => exact (ih whole.of_cons).cons (List.cons_ne_nil _ _)

/-- Up to the end of a line that is not the last one. -/
theorem Line.exists_front_of_cut {last : LineEnd} {found : List PlacedToken} {line next : Line}
    {others : List Line} (cuts : cut last found = line :: next :: others) :
    ∃ front back, found = front ++ back ∧ front ≠ [] ∧ EndsLine front ∧
      cut last back = next :: others := by
  induction found generalizing line with
  | nil => cases cuts
  | cons first rest ih =>
    rw [cut_cons] at cuts
    by_cases newline : first.token = .newline
    · rw [if_pos newline] at cuts
      obtain ⟨-, rest⟩ := List.cons_eq_cons.1 cuts
      refine ⟨[first], _, rfl, by simp, fun final same => ?_, rest⟩
      cases same
      exact newline
    · rw [if_neg newline] at cuts
      cases lines : cut last rest with
      | nil => rw [lines] at cuts; cases cuts
      | cons head tail =>
        rw [lines, List.modifyHead_cons] at cuts
        obtain ⟨-, rfl⟩ := List.cons_eq_cons.1 cuts
        obtain ⟨front, back, rfl, nonempty, whole, rest⟩ := ih lines
        exact ⟨first :: front, back, rfl, by simp, whole.cons nonempty, rest⟩

/-- The first line ends at the first newline, or goes on to the end. -/
theorem Line.eq_append_of_cut {last : LineEnd} {found : List PlacedToken} {line : Line} {others : List Line}
    (cuts : cut last found = line :: others) :
    (∀ token ∈ line.tokens, token.token ≠ .newline) ∧
      (found = line.tokens ∧ line.ending = last ∨ ∃ newline back, found = line.tokens ++ newline :: back ∧
        newline.token = .newline ∧ line.ending = .newline newline.behind) := by
  induction found generalizing line with
  | nil =>
    rw [cut_nil] at cuts
    cases cuts
    exact ⟨by simp, .inl ⟨rfl, rfl⟩⟩
  | cons first rest ih =>
    rw [cut_cons] at cuts
    by_cases newline : first.token = .newline
    · rw [if_pos newline] at cuts
      cases cuts
      exact ⟨by simp, .inr ⟨first, rest, rfl, newline, rfl⟩⟩
    · rw [if_neg newline] at cuts
      cases lines : cut last rest with
      | nil =>
        rw [lines] at cuts
        cases cuts
      | cons head tail =>
        rw [lines, List.modifyHead_cons] at cuts
        obtain ⟨rfl, rfl⟩ := List.cons_eq_cons.1 cuts
        obtain ⟨plain, ends⟩ := ih lines
        refine ⟨List.forall_mem_cons.2 ⟨newline, plain⟩, ?_⟩
        rcases ends with ⟨rfl, ending⟩ | ⟨found, back, rfl, token, ending⟩
        · exact .inl ⟨rfl, ending⟩
        · exact .inr ⟨found, back, rfl, token, ending⟩

/-- Tokens that are no newlines go to the front of the first line. -/
theorem Line.cut_append_of_plain {front : List PlacedToken} (plain : ∀ token ∈ front, token.token ≠ .newline)
    {last : LineEnd} {rest : List PlacedToken} {line : Line} {others : List Line}
    (cuts : cut last rest = line :: others) :
    cut last (front ++ rest) = ⟨front ++ line.tokens, line.ending⟩ :: others := by
  induction front with
  | nil => exact cuts
  | cons first front ih =>
    obtain ⟨notNewline, plain⟩ := List.forall_mem_cons.1 plain
    rw [List.cons_append, cut_cons, if_neg notNewline, ih plain, List.modifyHead_cons]
    rfl

/-- The lines in front of a line are those of the tokens in front of it, whatever follows them. -/
theorem Line.exists_whole_of_cut {last : LineEnd} {found : List PlacedToken} {before others : List Line}
    {line : Line} (cuts : cut last found = before ++ line :: others) :
    ∃ whole back, found = whole ++ back ∧ cut last back = line :: others ∧
      ∀ last rest, cut last (whole ++ rest) = before ++ cut last rest := by
  induction found generalizing before with
  | nil =>
    cases before with
    | nil => exact ⟨[], [], rfl, cuts, fun _ _ => rfl⟩
    | cons first before => simp [cut_nil] at cuts
  | cons first rest ih =>
    cases before with
    | nil => exact ⟨[], first :: rest, rfl, cuts, fun _ _ => rfl⟩
    | cons head before =>
      rw [cut_cons, List.cons_append] at cuts
      by_cases newline : first.token = .newline
      · rw [if_pos newline] at cuts
        obtain ⟨rfl, more⟩ := List.cons_eq_cons.1 cuts
        obtain ⟨whole, back, rfl, behind, front⟩ := ih more
        refine ⟨first :: whole, back, rfl, behind, fun last rest => ?_⟩
        rw [List.cons_append, cut_cons, if_pos newline, front]
        rfl
      · rw [if_neg newline] at cuts
        cases lines : cut last rest with
        | nil =>
          rw [lines] at cuts
          cases cuts
        | cons next tail =>
          rw [lines, List.modifyHead_cons] at cuts
          obtain ⟨rfl, rfl⟩ := List.cons_eq_cons.1 cuts
          obtain ⟨whole, back, rfl, behind, front⟩ := @ih (next :: before) lines
          refine ⟨first :: whole, back, rfl, behind, fun last rest => ?_⟩
          rw [List.cons_append, cut_cons, if_neg newline, front]
          rfl

/-! ## Lines that are alike -/

namespace Line

variable {related : Position → Position → Prop} {found found' : List PlacedToken}

theorem Like.cons {first first' : PlacedToken} {line line' : Line} (head : first.Like related first')
    (alike : line.Like related line') : (Line.cons first line).Like related (Line.cons first' line') :=
  ⟨.cons head alike.tokens, alike.ending⟩

theorem forall₂_modifyHead_cons {first first' : PlacedToken} {lines lines' : List Line}
    (head : first.Like related first') (alike : List.Forall₂ (Like related) lines lines') :
    List.Forall₂ (Like related) (lines.modifyHead (Line.cons first))
      (lines'.modifyHead (Line.cons first')) := by
  cases alike with
  | nil => exact .nil
  | cons line rest => exact .cons (line.cons head) rest

/-- Tokens that are alike are cut into lines that are alike. -/
theorem cut_like {last last' : LineEnd} (alike : List.Forall₂ (PlacedToken.Like related) found found')
    (ends : last.Like related last') : List.Forall₂ (Like related) (cut last found) (cut last' found') := by
  induction alike with
  | nil => exact .cons ⟨.nil, ends⟩ .nil
  | cons head _ ih =>
    rw [cut_cons, cut_cons, ← head.token]
    split
    · exact .cons ⟨.nil, .newline head.behind⟩ ih
    · exact forall₂_modifyHead_cons head ih

/-- Behind a newline the next line begins, whatever its tokens are. -/
theorem exists_cut_append (alike : List.Forall₂ (PlacedToken.Like related) found found')
    (whole : EndsLine found) :
    ∃ lines lines', List.Forall₂ (Like related) lines lines' ∧ (found ≠ [] → lines ≠ []) ∧
      (∀ last rest, cut last (found ++ rest) = lines ++ cut last rest) ∧
      ∀ last rest, cut last (found' ++ rest) = lines' ++ cut last rest := by
  induction alike with
  | nil => exact ⟨[], [], .nil, by simp, fun _ _ => rfl, fun _ _ => rfl⟩
  | @cons first first' rest rest' head tail ih =>
    obtain ⟨lines, lines', linesAlike, nonempty, cuts, cuts'⟩ := ih whole.of_cons
    by_cases newline : first.token = .newline
    · have newline' : first'.token = .newline := head.token ▸ newline
      refine ⟨⟨[], .newline first.behind⟩ :: lines, ⟨[], .newline first'.behind⟩ :: lines',
        .cons ⟨.nil, .newline head.behind⟩ linesAlike, by simp, fun last more => ?_, fun last more => ?_⟩
      · rw [List.cons_append, cut_cons, if_pos newline, cuts, List.cons_append]
      · rw [List.cons_append, cut_cons, if_pos newline', cuts', List.cons_append]
    · have newline' : first'.token ≠ .newline := head.token ▸ newline
      -- a token that is no newline is not the last one
      have more : rest ≠ [] := by
        rintro rfl
        exact newline (whole first rfl)
      cases linesAlike with
      | nil => exact absurd rfl (nonempty more)
      | @cons line line' lines lines' lineAlike linesAlike =>
        refine ⟨Line.cons first line :: lines, Line.cons first' line' :: lines',
          .cons (lineAlike.cons head) linesAlike, by simp, fun last others => ?_, fun last others => ?_⟩
        · rw [List.cons_append, cut_cons, if_neg newline, cuts, List.cons_append, List.modifyHead_cons,
            List.cons_append]
        · rw [List.cons_append, cut_cons, if_neg newline', cuts', List.cons_append, List.modifyHead_cons,
            List.cons_append]

end Line

end LexSpec
