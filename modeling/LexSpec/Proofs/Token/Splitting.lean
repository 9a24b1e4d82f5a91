import LexSpec.Proofs.Line.Whole
import LexSpec.Proofs.Token.Faults

/-! # The tokens of a text, without their places

`Scans text found whole` says by the characters of a text alone what its tokens are, how they are spelled, and
whether they go on to its end. Each text has such a scan (`exists_scans`), and the stream of tokens before the
text is that scan (`Scans.stream`).

A text can be cut behind a blank. The tokens in front of the blank do not depend on what comes behind it, and
they go on with the tokens of that, unless a comment has begun or no token was found: `Scans.blankCut`.
-/

namespace LexSpec

/-- A token begins a text. If it is a name or a word, it is as long as it can be. -/
structure Begins (token : Token) (spelling rest : List Char) : Prop where
  spells : Spells token spelling
  maximal : token.IsNamed → ∀ c ∈ rest.head?, isNameChar c = false

/-- The tokens of a text with their spellings. `whole` tells whether they go on to the end of the text. -/
inductive Scans : List Char → List (Token × String) → Bool → Prop where
  | nil : Scans [] [] true
  | blank {c : Char} {text : List Char} {found : List (Token × String)} {whole : Bool}
      (blank : c = ' ' ∨ c = '\t' ∨ c = '\r') (rest : Scans text found whole) : Scans (c :: text) found whole
  | comment {body text : List Char} {found : List (Token × String)} {whole : Bool} (inside : '\n' ∉ body)
      (ends : ∀ c ∈ text.head?, c = '\n') (rest : Scans text found whole) :
      Scans ('#' :: (body ++ text)) found whole
  | token {token : Token} {spelling text : List Char} {found : List (Token × String)} {whole : Bool}
      (begins : Begins token spelling text) (rest : Scans text found whole) :
      Scans (spelling ++ text) ((token, String.ofList spelling) :: found) whole
  | broken {first : Char} {text : List Char} (solid : isBlank first = false) (noComment : first ≠ '#')
      (nothing : ∀ token spelling rest, first :: text = spelling ++ rest → ¬ Begins token spelling rest) :
      Scans (first :: text) [] false

variable {text front back : List Char} {found others : List (Token × String)} {whole : Bool}

theorem exists_scans (text : List Char) : ∃ found whole, Scans text found whole := by
  induction size : text.length using Nat.strongRecOn generalizing text with
  | ind size ih =>
    cases text with
    | nil => exact ⟨[], true, .nil⟩
    | cons first rest =>
      have next : ∀ back : List Char, back.length ≤ rest.length → ∃ found whole, Scans back found whole :=
        fun back shorter => ih back.length (by simp at size; omega) back rfl
      by_cases blank : isBlank first
      · obtain ⟨found, whole, scans⟩ := next rest (Nat.le_refl _)
        exact ⟨found, whole, .blank (isBlank_iff.1 blank) scans⟩
      by_cases hash : first = '#'
      · obtain ⟨found, whole, scans⟩ :=
          next (rest.dropWhile (· ≠ '\n')) (List.dropWhile_sublist _).length_le
        subst hash
        rw [← List.takeWhile_append_dropWhile (p := (· ≠ '\n')) (l := rest)]
        refine ⟨found, whole, .comment (fun newline => ?_) (fun c head => ?_) scans⟩
        · simpa using List.all_eq_true.1 List.all_takeWhile _ newline
        · have fails := List.head?_dropWhile_not (· ≠ '\n') rest
          rw [head] at fails
          simpa using fails
      by_cases starts : ∃ token spelling back, first :: rest = spelling ++ back ∧ Begins token spelling back
      · obtain ⟨token, spelling, back, cut, begins⟩ := starts
        have nonempty := List.length_pos_iff.2 begins.spells.ne_nil
        have lengths := congrArg List.length cut
        rw [List.length_cons, List.length_append] at lengths
        obtain ⟨found, whole, scans⟩ := next back (by omega)
        rw [cut]
        exact ⟨_, whole, .token begins scans⟩
      · exact ⟨[], false, .broken (by simpa using blank) hash fun token spelling back cut begins =>
          starts ⟨token, spelling, back, cut, begins⟩⟩

theorem Scans.of_nil (scans : Scans [] found whole) : found = [] ∧ whole = true := by
  generalize empty : [] = text at scans
  cases scans with
  | nil => exact ⟨rfl, rfl⟩
  | token begins _ => exact absurd (List.append_eq_nil_iff.1 empty.symm).1 begins.spells.ne_nil
  | blank | comment | broken => cases empty

/-! ## Streams -/

namespace TokenStream

variable {input next : Cursor}

theorem of_eq_of_skip (scanned : Token.scan input = .ok (.skip next)) : of input = of next := by
  have skips : Token.scanner.next 0 input = Token.scanner.next 0 next := Scanner.next_of_skip scanned
  rw [of_eq input, skips, ← of_eq next]

theorem of_eq_of_error (scanned : Token.scan input = .ok .error) :
    (of input).tokens = [] ∧ (of input).stop? ≠ none := by
  rw [of_eq, Token.next_eq, scanned]
  exact ⟨rfl, by simp⟩

end TokenStream

/-- Where neither a gap nor a token begins, a scan finds an error. -/
theorem Token.scan_eq_error_of_not_begins {input : Cursor} {first : Char} (ready : input.Ready)
    (ahead : input.rest = first :: text) (solid : isBlank first = false) (noComment : first ≠ '#')
    (nothing : ∀ token spelling rest, first :: text = spelling ++ rest → ¬ Begins token spelling rest) :
    scan input = .ok .error := by
  obtain ⟨result, scanned⟩ := ready.exists_scan
  obtain rfl : result = .error := by
    refine (finds_of_scan scanned).resolve_right fun finds => ?_
    cases finds with
    | endOfFile _ finished => cases ahead.symm.trans finished
    | blank blank reads =>
      obtain ⟨rfl, -⟩ := List.cons.inj (ahead.symm.trans reads.rest_eq)
      rw [isBlank_iff.2 blank] at solid
      cases solid
    | comment _ reads _ => exact noComment (List.cons.inj (ahead.symm.trans reads.rest_eq)).1
    | token spells reads maximal =>
      exact nothing _ _ _ (ahead.symm.trans reads.rest_eq) ⟨spells, fun named => (maximal named).fails⟩
  exact scanned

/-- The stream of tokens before a text is the scan of the text. -/
theorem Scans.stream {input : Cursor} (scans : Scans text found whole) (ready : input.Ready)
    (ahead : input.rest = text) :
    (TokenStream.of input).tokens.map (fun token => (token.token, token.text)) = found ∧
      ((TokenStream.of input).stop? = none ↔ whole = true) := by
  induction scans generalizing input with
  | nil =>
    rw [TokenStream.of_eq_of_rest_eq_nil ready.drained ahead]
    exact ⟨rfl, iff_of_true rfl rfl⟩
  | @blank c text found whole blank _ ih =>
    obtain ⟨next, reads, rest⟩ := @Cursor.Ready.exists_reads input [c] text ready ahead
    rw [TokenStream.of_eq_of_skip (Token.Finds.blank blank reads).scan_eq]
    exact ih (ready.of_reads reads) rest
  | @comment body text found whole inside ends _ ih =>
    obtain ⟨next, reads, rest⟩ := @Cursor.Ready.exists_reads input ('#' :: body) text ready ahead
    have halts : next.Halts (· ≠ '\n') :=
      ⟨(ready.of_reads reads).readable, fun c head => by simpa using ends c (rest ▸ head)⟩
    rw [TokenStream.of_eq_of_skip (Token.Finds.comment inside reads halts).scan_eq]
    exact ih (ready.of_reads reads) rest
  | @token token spelling text found whole begins _ ih =>
    obtain ⟨next, reads, rest⟩ := ready.exists_reads ahead
    have halts : token.IsNamed → next.Halts isNameChar := fun named =>
      ⟨(ready.of_reads reads).readable, by rw [rest]; exact begins.maximal named⟩
    have first : Token.scanner.next 0 input = _ := (Token.ReadsLexeme.token begins.spells reads halts).next_eq
    obtain ⟨same, complete⟩ := ih (ready.of_reads reads) rest
    rw [TokenStream.of_token first]
    exact ⟨by rw [List.map_cons, same], complete⟩
  | @broken first text solid noComment nothing =>
    have failed := Token.scan_eq_error_of_not_begins ready ahead solid noComment nothing
    obtain ⟨none, stopped⟩ := TokenStream.of_eq_of_error failed
    exact ⟨by rw [none]; rfl, iff_of_false stopped Bool.false_ne_true⟩

/-! ## Cutting behind a blank -/

/-- A blank is in no spelling but that of an escape, at its end. -/
theorem Spells.of_blank {token : Token} (spells : Spells token (front ++ ' ' :: back)) :
    back = [] ∧ ¬ token.IsNamed := by
  have inside : ' ' ∈ front ++ ' ' :: back := by simp
  have unnamed : isNameChar ' ' = false := rfl
  generalize text : front ++ ' ' :: back = spelling at spells inside
  cases spells with
  | setName _ chars | regexName _ chars =>
    rcases List.mem_cons.1 inside with sign | inside
    · cases sign
    · cases unnamed.symm.trans (chars _ inside)
  | word _ chars => cases unnamed.symm.trans (chars _ inside)
  | @startCode digits _ chars _ =>
    have digit : ' ' ∈ digits := by simpa using inside
    cases chars _ digit
  | turnstile => simp at inside
  | @sign token c sign =>
    obtain rfl := List.mem_singleton.1 inside
    cases token <;> cases sign
  | escape =>
    refine ⟨?_, id⟩
    rcases List.cons_eq_append_iff.1 text.symm with ⟨-, first⟩ | ⟨front, rfl, rest⟩
    · cases first
    · rcases List.cons_eq_append_iff.1 rest with ⟨-, second⟩ | ⟨front, rfl, rest⟩
      · exact (List.cons.inj second).2
      · simp at rest

namespace Begins

variable {token : Token} {spelling rest more : List Char}

/-- What comes behind a blank does not matter to a token in front of it. -/
theorem append_iff (cut : front ++ [' '] = spelling ++ more) :
    Begins token spelling (more ++ back) ↔ Begins token spelling more := by
  have same (spells : Spells token spelling) :
      (token.IsNamed → ∀ c ∈ (more ++ back).head?, isNameChar c = false) ↔
        (token.IsNamed → ∀ c ∈ more.head?, isNameChar c = false) := by
    cases more with
    | nil =>
      rw [List.append_nil] at cut
      rw [← cut] at spells
      exact iff_of_true (fun named => absurd named spells.of_blank.2) (fun named => absurd named spells.of_blank.2)
    | cons c more => rfl
  exact ⟨fun begins => ⟨begins.spells, (same begins.spells).1 begins.maximal⟩,
    fun begins => ⟨begins.spells, (same begins.spells).2 begins.maximal⟩⟩

/-- A token at the beginning ends behind the first blank at the latest. -/
theorem exists_more (begins : Begins token spelling rest) (cut : front ++ ' ' :: back = spelling ++ rest) :
    ∃ more, front ++ [' '] = spelling ++ more ∧ rest = more ++ back := by
  rw [List.append_cons] at cut
  rcases List.append_eq_append_iff.1 cut with ⟨beyond, rfl, rfl⟩ | ⟨more, same, rest⟩
  · have spells := begins.spells
    rw [List.append_assoc] at spells
    obtain rfl : beyond = [] := spells.of_blank.1
    exact ⟨[], by simp, rfl⟩
  · exact ⟨more, same, rest⟩

end Begins

/-- What becomes of a text in front of a blank, whatever comes behind the blank. -/
inductive BlankCut (front : List Char) (found : List (Token × String)) : Prop where
  /-- The text is read to its end, and what comes behind the blank is read by itself. -/
  | apart (rest : ∀ back others whole, Scans back others whole →
      Scans (front ++ ' ' :: back) (found ++ others) whole)
  /-- A comment has begun, which goes on to the end of the line. -/
  | comment (rest : ∀ back, '\n' ∉ back → Scans (front ++ ' ' :: back) found true)
  /-- At some place no token is found. -/
  | broken (rest : ∀ back, Scans (front ++ ' ' :: back) found false)

theorem Scans.blankCut (scans : Scans (front ++ [' ']) found whole) (plain : '\n' ∉ front) :
    BlankCut front found := by
  generalize shape : front ++ [' '] = text at scans
  induction scans generalizing front with
  | nil => simp at shape
  | @blank c text found whole blank rest ih =>
    cases front with
    | nil =>
      obtain ⟨rfl, rfl⟩ := List.cons.inj shape
      obtain ⟨rfl, -⟩ := rest.of_nil
      exact .apart fun back others whole scans => .blank (.inl rfl) scans
    | cons d front =>
      obtain ⟨rfl, tail⟩ := List.cons.inj shape
      cases ih (fun newline => plain (List.mem_cons_of_mem _ newline)) tail with
      | apart rest => exact .apart fun back others whole scans => .blank blank (rest back others whole scans)
      | comment rest => exact .comment fun back line => .blank blank (rest back line)
      | broken rest => exact .broken fun back => .blank blank (rest back)
  | @comment body text found whole inside ends rest ih =>
    -- the line goes on to the end of the text, and the comment with it
    obtain rfl : text = [] := by
      cases text with
      | nil => rfl
      | cons c text =>
        obtain rfl := ends c rfl
        have newline : '\n' ∈ front ++ [' '] := by simp [shape]
        exact absurd (by simpa using newline) plain
    obtain ⟨rfl, -⟩ := rest.of_nil
    cases front with
    | nil => simp at shape
    | cons c front =>
      obtain ⟨rfl, tail⟩ := List.cons.inj shape
      refine .comment fun back line => ?_
      have inside : '\n' ∉ front ++ ' ' :: back := by simp at plain; simp [plain, line]
      have scans := @Scans.comment (front ++ ' ' :: back) [] [] true inside (by simp) .nil
      rwa [List.append_nil] at scans
  | @token token spelling text found whole begins rest ih =>
    rcases List.eq_nil_or_concat text with rfl | ⟨more, last, rfl⟩
    · -- the blank is part of the token, so it is escaped and nothing of the token comes behind it
      obtain ⟨rfl, -⟩ := rest.of_nil
      rw [List.append_nil] at shape
      have spells := begins.spells
      rw [← shape] at spells
      refine .apart fun back others whole scans => ?_
      rw [List.append_cons, shape]
      exact .token ⟨begins.spells, fun named => absurd named spells.of_blank.2⟩ scans
    · -- the token is over before the blank, whatever comes behind that
      rw [List.concat_eq_append] at *
      rw [← List.append_assoc] at shape
      obtain ⟨rfl, same⟩ := List.append_inj' shape rfl
      obtain rfl := List.head_eq_of_cons_eq same
      have goesOn (back : List Char) : Begins token spelling (more ++ ' ' :: back) := by
        rw [List.append_cons]
        exact (Begins.append_iff (List.append_assoc spelling more [' '])).2 begins
      cases ih (fun newline => plain (List.mem_append_right _ newline)) rfl with
      | apart rest =>
        refine .apart fun back others whole scans => ?_
        rw [List.append_assoc]
        exact .token (goesOn back) (rest back others whole scans)
      | comment rest =>
        refine .comment fun back line => ?_
        rw [List.append_assoc]
        exact .token (goesOn back) (rest back line)
      | broken rest =>
        refine .broken fun back => ?_
        rw [List.append_assoc]
        exact .token (goesOn back) (rest back)
  | @broken first text solid noComment nothing =>
    cases front with
    | nil =>
      obtain ⟨rfl, -⟩ := List.cons.inj shape
      cases solid
    | cons c front =>
      obtain ⟨rfl, tail⟩ := List.cons.inj shape
      -- a token that is found with another text behind the blank ends there, and had been found before
      refine .broken fun back => .broken solid noComment fun token spelling rest cut begins => ?_
      obtain ⟨more, same, rfl⟩ := @Begins.exists_more (c :: front) _ _ _ _ begins cut
      exact nothing token spelling more (shape ▸ same) ((Begins.append_iff same).1 begins)

/-- Without a comment, a text that is read to its end is cut apart from what comes behind a blank. -/
theorem Scans.append_of_no_comment (scans : Scans front found true) (noComment : '#' ∉ front)
    (rest : Scans back others whole) : Scans (front ++ ' ' :: back) (found ++ others) whole := by
  generalize complete : true = known at scans
  induction scans with
  | nil => exact .blank (.inl rfl) rest
  | blank blank _ ih => exact .blank blank (ih (fun hash => noComment (List.mem_cons_of_mem _ hash)) complete)
  | comment => simp at noComment
  | @token token spelling text found whole begins _ ih =>
    have others := ih (fun hash => noComment (List.mem_append_right _ hash)) complete
    rw [List.append_assoc]
    refine .token ⟨begins.spells, fun named c head => ?_⟩ others
    cases text with
    | nil =>
      cases head
      rfl
    | cons d text => exact begins.maximal named c head
  | broken => cases complete

/-- A text without newlines has no newlines among its tokens. -/
theorem Scans.ne_newline (scans : Scans text found whole) (plain : '\n' ∉ text) :
    ∀ token ∈ found, token.1 ≠ .newline := by
  induction scans with
  | nil | broken => simp
  | blank _ _ ih => exact ih fun newline => plain (List.mem_cons_of_mem _ newline)
  | comment _ _ _ ih => exact ih fun newline => plain (List.mem_cons_of_mem _ (List.mem_append_right _ newline))
  | token begins _ ih =>
    refine List.forall_mem_cons.2 ⟨?_, ih fun newline => plain (List.mem_append_right _ newline)⟩
    rintro rfl
    obtain rfl := Spells.newline_iff.1 begins.spells
    simp at plain

end LexSpec
