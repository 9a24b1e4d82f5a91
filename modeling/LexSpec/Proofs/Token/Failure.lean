import LexSpec.Proofs.Token.Layout
import LexSpec.Proofs.Token.Splitting

/-! # Where no token can be found

`StartsNothing c rest` says by the characters of a text that neither a token nor a gap starts with `c` when the
text goes on with `rest` (`startsNothing_iff`). There, and at no other place, a scan finds an error
(`Token.scan_eq_error_iff`), and the scanner has skipped nothing but blanks before it
(`Token.next_eq_error_iff`): a comment goes on to the end of its line, whatever is in it.

So a text whose tokens cannot be read is laid out up to such a character, in a layout that ends outside of a
comment. `Layout.exists_open_iff` says without a layout which texts have one, and with that
`tokens_error_where_nothing_starts` says of a text where reading it fails.
-/

namespace LexSpec

/-- The characters that tokens other than words start with. -/
def tokenStarts : List Char :=
  ['\n', '=', '-', '.', '(', ')', '|', '*', '+', '?', ':', '\\', '$', '%', '<']

/-- Neither a token nor a gap starts with a character that is followed like that. -/
inductive StartsNothing : Char → List Char → Prop where
  | unknown {c : Char} {rest : List Char} (solid : isBlank c = false) (noComment : c ≠ '#')
      (unnamed : isNameChar c = false) (noStart : c ∉ tokenStarts) : StartsNothing c rest
  | colon {rest : List Char} (noDash : rest.head? ≠ some '-') : StartsNothing ':' rest
  | backslash : StartsNothing '\\' []
  | sign {c : Char} {rest : List Char} (sign : c = '$' ∨ c = '%')
      (unnamed : ∀ d ∈ rest.head?, isNameChar d = false) : StartsNothing c rest
  | bracket {rest : List Char}
      (noCode : ∀ digits behind, rest = digits ++ '>' :: behind → digits ≠ [] → (∀ d ∈ digits, d.isDigit) →
        2 ^ 32 ≤ Token.decimalValue digits) : StartsNothing '<' rest

namespace StartsNothing

variable {c : Char} {rest : List Char}

theorem isBlank_eq_false (nothing : StartsNothing c rest) : isBlank c = false := by
  cases nothing with
  | unknown solid => exact solid
  | sign sign => rcases sign with rfl | rfl <;> rfl
  | _ => rfl

theorem ne_hash (nothing : StartsNothing c rest) : c ≠ '#' := by
  rintro rfl
  cases nothing with
  | unknown _ noComment => exact noComment rfl
  | sign sign => simp at sign

theorem isNameChar_eq_false (nothing : StartsNothing c rest) : isNameChar c = false := by
  cases nothing with
  | unknown _ _ unnamed => exact unnamed
  | sign sign => rcases sign with rfl | rfl <;> rfl
  | _ => rfl

theorem symbol?_eq_none (nothing : StartsNothing c rest) : Token.symbol? c = none := by
  cases nothing with
  | unknown _ _ _ noStart =>
    simp only [tokenStarts, List.mem_cons, not_or] at noStart
    simp [Token.symbol?, noStart]
  | sign sign => rcases sign with rfl | rfl <;> rfl
  | _ => rfl

/-- A name behind its sign begins with a character of a name. -/
theorem not_name (nothing : StartsNothing c rest) (sign : c = '$' ∨ c = '%') {name more : List Char}
    (cut : rest = name ++ more) (nonempty : name ≠ []) : ¬ ∀ d ∈ name, isNameChar d := by
  intro chars
  cases name with
  | nil => exact nonempty rfl
  | cons d name =>
    subst cut
    have named : isNameChar d := chars d (List.mem_cons_self ..)
    cases nothing with
    | unknown _ _ _ noStart => rcases sign with rfl | rfl <;> exact noStart (by decide)
    | sign _ unnamed => exact absurd (named.symm.trans (unnamed d rfl)) (by simp)
    | _ => simp at sign

theorem not_spells (nothing : StartsNothing c rest) {token : Token} {spelling more : List Char}
    (cut : c :: rest = spelling ++ more) : ¬ Spells token spelling := by
  intro spells
  cases spells with
  | setName nonempty chars =>
    obtain ⟨rfl, tail⟩ := List.cons.inj cut
    exact nothing.not_name (.inl rfl) tail nonempty chars
  | regexName nonempty chars =>
    obtain ⟨rfl, tail⟩ := List.cons.inj cut
    exact nothing.not_name (.inr rfl) tail nonempty chars
  | word nonempty chars =>
    cases spelling with
    | nil => exact nonempty rfl
    | cons d name =>
      obtain ⟨rfl, -⟩ := List.cons.inj cut
      exact absurd ((chars c (List.mem_cons_self ..)).symm.trans nothing.isNameChar_eq_false) (by simp)
  | escape =>
    obtain ⟨rfl, rfl⟩ := List.cons.inj cut
    cases nothing with
    | unknown _ _ _ noStart => exact noStart (by decide)
    | sign sign => simp at sign
  | startCode nonempty chars limit =>
    obtain ⟨rfl, rfl⟩ := List.cons.inj cut
    cases nothing with
    | unknown _ _ _ noStart => exact noStart (by decide)
    | sign sign => simp at sign
    | bracket noCode => exact absurd limit (Nat.not_lt.2 (noCode _ more (by simp) nonempty chars))
  | turnstile =>
    obtain ⟨rfl, rfl⟩ := List.cons.inj cut
    cases nothing with
    | unknown _ _ _ noStart => exact noStart (by decide)
    | sign sign => simp at sign
    | colon noDash => exact noDash rfl
  | sign sign =>
    obtain ⟨rfl, -⟩ := List.cons.inj cut
    cases (Token.symbol?_eq_some_iff.2 sign).symm.trans nothing.symbol?_eq_none

end StartsNothing

/-- A text that begins with a character of a name begins with a name as long as it can be. -/
theorem exists_longest_name {c : Char} {rest : List Char} (named : isNameChar c) :
    ∃ name more, c :: rest = name ++ more ∧ name ≠ [] ∧ (∀ d ∈ name, isNameChar d) ∧
      ∀ d ∈ more.head?, isNameChar d = false := by
  refine ⟨(c :: rest).takeWhile isNameChar, (c :: rest).dropWhile isNameChar,
    List.takeWhile_append_dropWhile.symm, by simp [named], fun d member => ?_, fun d head => ?_⟩
  · exact List.all_eq_true.1 List.all_takeWhile d member
  · have fails := List.head?_dropWhile_not isNameChar (c :: rest)
    rw [head] at fails
    exact fails

section Begins

variable {c : Char} {rest : List Char}
  (noToken : ∀ token spelling more, c :: rest = spelling ++ more → ¬ Begins token spelling more)

include noToken

theorem isNameChar_eq_false_of_not_begins : isNameChar c = false := by
  by_contra named
  obtain ⟨name, more, cut, nonempty, chars, longest⟩ :=
    @exists_longest_name _ rest (Bool.eq_true_of_not_eq_false named)
  exact noToken _ name more cut ⟨.word nonempty chars, fun _ => longest⟩

/-- A sign before a name has no name behind it. -/
theorem isNameChar_head_of_not_begins {token : String → Token}
    (spells : ∀ name, name ≠ [] → (∀ d ∈ name, isNameChar d) → Spells (token (String.ofList name)) (c :: name)) :
    ∀ d ∈ rest.head?, isNameChar d = false := by
  intro d head
  obtain ⟨rest, rfl⟩ := List.head?_eq_some_iff.1 head
  by_contra named
  obtain ⟨name, more, cut, nonempty, chars, longest⟩ :=
    @exists_longest_name _ rest (Bool.eq_true_of_not_eq_false named)
  exact noToken _ (c :: name) more (by rw [cut]; rfl) ⟨spells name nonempty chars, fun _ => longest⟩

/-- Where neither a gap nor a token begins, nothing starts. -/
theorem startsNothing_of_not_begins (solid : isBlank c = false) (noComment : c ≠ '#') :
    StartsNothing c rest := by
  by_cases member : c ∈ [':', '\\', '$', '%', '<']
  · simp only [List.mem_cons, List.not_mem_nil, or_false] at member
    rcases member with rfl | rfl | rfl | rfl | rfl
    · refine .colon fun dash => ?_
      obtain ⟨more, rfl⟩ := List.head?_eq_some_iff.1 dash
      exact noToken .turnstile [':', '-'] more rfl ⟨.turnstile, False.elim⟩
    · cases rest with
      | nil => exact .backslash
      | cons d rest => exact absurd ⟨.escape, False.elim⟩ (noToken (.escape d) ['\\', d] rest rfl)
    · exact .sign (.inl rfl) (isNameChar_head_of_not_begins noToken fun _ => .setName)
    · exact .sign (.inr rfl) (isNameChar_head_of_not_begins noToken fun _ => .regexName)
    · refine .bracket fun digits behind cut nonempty chars => Nat.le_of_not_lt fun limit => ?_
      exact noToken _ ('<' :: (digits ++ ['>'])) behind (by simp [cut])
        ⟨.startCode nonempty chars limit, False.elim⟩
  · refine .unknown solid noComment (isNameChar_eq_false_of_not_begins noToken) fun start => ?_
    -- the other characters that tokens start with are tokens by themselves
    have others : ∀ c ∈ tokenStarts, c ∈ [':', '\\', '$', '%', '<'] ∨ (Token.symbol? c).isSome := by
      simp [tokenStarts, Token.symbol?]
    obtain ⟨token, symbol⟩ := Option.isSome_iff_exists.1 ((others c start).resolve_left member)
    have sign := Token.symbol?_eq_some_iff.1 symbol
    exact noToken token [c] rest rfl ⟨.sign sign, fun named => absurd named (Token.not_isNamed_of_sign sign)⟩

end Begins

theorem startsNothing_iff {c : Char} {rest : List Char} :
    StartsNothing c rest ↔ isBlank c = false ∧ c ≠ '#' ∧
      ∀ token spelling more, c :: rest = spelling ++ more → ¬ Begins token spelling more :=
  ⟨fun nothing => ⟨nothing.isBlank_eq_false, nothing.ne_hash, fun _ _ _ cut begins =>
    nothing.not_spells cut begins.spells⟩,
    fun ⟨solid, noComment, noToken⟩ => startsNothing_of_not_begins noToken solid noComment⟩

/-! ## Scanning -/

theorem Cursor.lexicalError_eq {input : Cursor} {c : Char} {rest : List Char} (drained : input.pending = [])
    (ahead : input.rest = c :: rest) :
    input.lexicalError "lexical error" = ⟨.lexical, some input.position, "lexical error at " ++ quoted c⟩ := by
  simp only [lexicalError, obstacle?, drained, ahead, List.isEmpty_nil, if_true, List.head?_cons]
  rfl

namespace Token

variable {input final : Cursor} {stop : Stop}

theorem scan_eq_error_iff (ready : input.Ready) :
    scan input = .ok .error ↔ ∃ c rest, input.rest = c :: rest ∧ StartsNothing c rest := by
  constructor
  · intro failed
    have other {found : Scan Token} (finds : Finds input found) : found = .error :=
      Except.ok.inj (finds.scan_eq.symm.trans failed)
    cases ahead : input.rest with
    | nil => cases other (.endOfFile ready.drained ahead)
    | cons c rest =>
      refine ⟨c, rest, rfl, startsNothing_iff.2
        ⟨Bool.eq_false_iff.2 fun blank => ?_, ?_, fun token spelling more cut begins => ?_⟩⟩
      · obtain ⟨next, reads, -⟩ := @Cursor.Ready.exists_reads input [c] rest ready ahead
        cases other (.blank (isBlank_iff.1 blank) reads)
      · rintro rfl
        obtain ⟨next, reads, -⟩ := @Cursor.Ready.exists_reads input ['#'] rest ready ahead
        cases reads with
        | cons first _ =>
          obtain ⟨⟨body, behind⟩, taken⟩ := (ready.behind first).exists_takeWhile (· ≠ '\n')
          rw [scan_eq_of_nextChar first] at failed
          change scanComment _ = _ at failed
          rw [scanComment, taken] at failed
          cases failed
      · obtain ⟨next, reads, left⟩ := ready.exists_reads (ahead.trans cut)
        have halts : token.IsNamed → next.Halts isNameChar := fun named =>
          ⟨(ready.of_reads reads).readable, left ▸ begins.maximal named⟩
        cases other (.token begins.spells reads halts)
  · rintro ⟨c, rest, ahead, nothing⟩
    obtain ⟨solid, noComment, noToken⟩ := startsNothing_iff.1 nothing
    exact scan_eq_error_of_not_begins ready ahead solid noComment noToken

/-- The scanner gives up at a character that nothing starts with. It has skipped nothing but blanks by then:
    a comment goes on to the end of its line, which is a token or the end of the text. -/
theorem next_eq_error_iff (ready : input.Ready) :
    scanner.next 0 input = (.error stop, final) ↔
      ∃ gap, (∀ c ∈ gap, isBlank c) ∧ input.Reads gap final ∧
        (∃ c rest, final.rest = c :: rest ∧ StartsNothing c rest) ∧
          stop = .error (final.lexicalError "lexical error") := by
  constructor
  · intro failed
    fun_induction Scanner.next scanner 0 input with
    | case1 input fault scanned =>
      obtain ⟨found, given⟩ := ready.exists_scan
      cases given.symm.trans scanned
    | case2 | case5 => simp at failed
    | case3 input scanned =>
      cases failed
      exact ⟨[], by simp, .nil, (scan_eq_error_iff ready).1 scanned, rfl⟩
    | case4 input next scanned ih =>
      obtain ⟨gap, blanks, reads, broken, same⟩ := ih (ready.behind_scan scanned rfl) failed
      cases (scan_eq_ok_iff (by simp)).1 scanned with
      | blank blank first =>
        exact ⟨_ :: gap, List.forall_mem_cons.2 ⟨isBlank_iff.2 blank, blanks⟩, first.append reads, broken, same⟩
      | comment _ _ halts =>
        -- the newline behind a comment is no blank, and a token starts with it
        obtain ⟨c, rest, ahead, nothing⟩ := broken
        have newline : ∀ d ∈ next.rest.head?, d = '\n' := fun d head => by simpa using halts.fails d head
        rw [reads.rest_eq, ahead] at newline
        cases gap with
        | nil =>
          obtain rfl := newline c rfl
          cases nothing.symbol?_eq_none
        | cons d gap =>
          obtain rfl := newline d rfl
          cases blanks '\n' (List.mem_cons_self ..)
  · rintro ⟨gap, blanks, reads, broken, rfl⟩
    induction reads with
    | nil => rw [next_eq, (scan_eq_error_iff ready).2 broken]
    | cons first _ ih =>
      obtain ⟨blank, blanks⟩ := List.forall_mem_cons.1 blanks
      have scanned : scanner.scan _ 0 = _ := (Finds.blank (isBlank_iff.1 blank) (.cons first .nil)).scan_eq
      rw [Scanner.next_of_skip scanned]
      exact ih (ready.behind first) blanks broken

/-- At the end of the text, the scanner does not give up. -/
theorem message_ne_of_next {code : Nat} {e : TextError}
    (failed : scanner.next code input = (.error (.error e), final)) :
    e.message ≠ "lexical error at end of file" := by
  fun_induction Scanner.next scanner code input with
  | case1 | case2 | case5 => simp at failed
  | case3 input scanned =>
    cases failed
    obtain ⟨result, read, rest⟩ := bind_eq_ok_iff.1 scanned
    cases result with
    | none => cases rest
    | some result =>
      obtain ⟨drained, -, ahead, -⟩ := Cursor.nextChar_eq_some_iff.1 read
      rw [Cursor.lexicalError_eq drained ahead]
      -- a quote stands where the end of the file has a letter
      intro same
      simpa [quoted] using congrArg String.toList same
  | case4 input next scanned ih => exact ih failed

end Token

/-! ## Layouts of whole streams -/

/-- The same tokens take up texts of the same length. -/
theorem Tiles.Placed.length_eq {before before' : List Char} {tiles tiles' : List Tile} {found : List PlacedToken}
    (placed : Placed before tiles found) (placed' : Placed before' tiles' found)
    (same : before.length = before'.length) :
    (before ++ text tiles).length = (before' ++ text tiles').length := by
  induction placed generalizing before' tiles' with
  | nil =>
    cases placed'
    simpa [text] using same
  | cons _ _ _ behind _ ih =>
    cases placed' with
    | cons _ _ _ behind' rest' =>
      have ends := (Position.offset_of_advanceOver behind).symm.trans (Position.offset_of_advanceOver behind')
      simpa [text] using ih rest' ends

/-- How the tokens of a text come to an end behind the last gap: at the end of the text, or where nothing
    starts. -/
inductive Ending (gap : List Char) (final : Cursor) : Option Stop → Prop where
  | complete (spaces : Gap none gap) (finished : final.rest = []) : Ending gap final none
  | broken {c : Char} {rest : List Char} (blanks : ∀ c ∈ gap, isBlank c) (ahead : final.rest = c :: rest)
      (nothing : StartsNothing c rest) : Ending gap final (some (.error (final.lexicalError "lexical error")))

/-- A stream of tokens that ends at a cursor takes up a layout, up to there. -/
structure TokenStream.LaidOut (stream : TokenStream) (input : Cursor) (layout : Layout) : Prop where
  tiles : ∀ tile ∈ layout.tiles, tile.Proper
  greedy : Tiles.Greedy (layout.lastGap ++ stream.final.rest) layout.tiles
  reads : input.Reads layout.text stream.final
  placed : Tiles.Placed [] layout.tiles stream.tokens
  ending : Ending layout.lastGap stream.final stream.stop?

open Tiles

/-- The tokens of a text that is not too long take up all of it up to the end or to where nothing starts. -/
theorem TokenStream.exists_laidOut {source : String} (small : source.length < 2 ^ 28) :
    ∃ layout, (TokenStream.of (.ofString source)).LaidOut (.ofString source) layout := by
  obtain ⟨stop, tokenises, finished⟩ := exists_tokenises (.ofString source)
  obtain ⟨tiles, proper, greedy, front, placed⟩ := tokenises.exists_tiles advanceOver_start
  have ready : stop.Ready := (Cursor.Ready.ofString small).of_reads front
  rw [of_eq_of_tokenises tokenises, finished, List.append_nil]
  rcases found : Token.scanner.next 0 stop with ⟨result, final⟩
  rw [of_eq stop, found] at finished ⊢
  match result, found with
  | .ok (.token position text token), _ => cases finished
  | .ok (.endOfFile position), found =>
    obtain ⟨gap, middle, spaces, fits, read⟩ := Token.next_eq_ok_iff.1 found
    cases read with
    | endOfFile drained nothing =>
      exact ⟨⟨tiles, gap⟩, proper, spaces.rest_eq ▸ greedy, front.append spaces, placed, .complete fits nothing⟩
  | .error reason, found =>
    obtain ⟨gap, blanks, spaces, ⟨c, rest, ahead, nothing⟩, rfl⟩ := (Token.next_eq_error_iff ready).1 found
    exact ⟨⟨tiles, gap⟩, proper, spaces.rest_eq ▸ greedy, front.append spaces, placed,
      .broken blanks ahead nothing⟩

theorem TokenStream.LaidOut.of_complete {stream : TokenStream} {input : Cursor} {layout : Layout}
    (laidOut : stream.LaidOut input layout) (complete : stream.stop? = none) :
    Gap none layout.lastGap ∧ stream.final.rest = [] := by
  have ending := laidOut.ending
  rw [complete] at ending
  cases ending with
  | complete spaces finished => exact ⟨spaces, finished⟩

/-! ## Texts that can be continued -/

/-- The text ends inside a comment: its tokens can be read up to a hash sign with no newline behind it. -/
def EndsInComment (scope : Scope) (text : List Char) : Prop :=
  ∃ front body result, text = front ++ '#' :: body ∧ '\n' ∉ body ∧
    Step.tokens.runOn (String.ofList front) scope = .ok result

/-- A layout that ends outside of a comment. -/
structure Layout.Open (layout : Layout) : Prop where
  tiles : ∀ tile ∈ layout.tiles, tile.Proper
  greedy : Tiles.Greedy layout.lastGap layout.tiles
  blank : ∀ c ∈ layout.lastGap, isBlank c

namespace Gap

variable {next : Option Token} {gap body : List Char}

theorem of_blanks (blanks : ∀ c ∈ gap, isBlank c) : Gap next gap := by
  induction gap with
  | nil => exact .nil
  | cons c gap ih =>
    obtain ⟨blank, blanks⟩ := List.forall_mem_cons.1 blanks
    exact .blank (isBlank_iff.1 blank) (ih blanks)

/-- A gap at the end of a text is blank, but for a comment behind the blanks. -/
theorem blanks_or_comment (spaces : Gap next gap) :
    (∀ c ∈ gap, isBlank c) ∨
      ∃ blanks body, gap = blanks ++ '#' :: body ∧ (∀ c ∈ blanks, isBlank c) ∧ '\n' ∉ body := by
  induction spaces with
  | nil => exact .inl (by simp)
  | @blank c gap blank _ ih =>
    have first := isBlank_iff.2 blank
    rcases ih with blanks | ⟨blanks, body, rfl, all, inside⟩
    · exact .inl (List.forall_mem_cons.2 ⟨first, blanks⟩)
    · exact .inr ⟨c :: blanks, body, rfl, List.forall_mem_cons.2 ⟨first, all⟩, inside⟩
  | @comment body inside _ => exact .inr ⟨[], body, rfl, by simp, inside⟩

theorem append_comment (spaces : Gap none gap) (inside : '\n' ∉ body) : Gap none (gap ++ '#' :: body) := by
  induction spaces with
  | nil => exact .comment inside (.inl rfl)
  | blank blank _ ih => exact .blank blank ih
  | comment before _ => exact .comment (by simp [before, inside]) (.inl rfl)

end Gap

namespace Layout

variable {layout : Layout} {text rest : List Char} {c : Char} {scope : Scope}

/-- A text that can be read, and is not too long, is laid out. -/
theorem exists_of_tokens {result : List PlacedToken × List Warning} (small : text.length < 2 ^ 28)
    (reads : Step.tokens.runOn (String.ofList text) scope = .ok result) :
    ∃ layout : Layout, layout.text = text ∧ layout.Proper ∧ Greedy layout.lastGap layout.tiles := by
  obtain ⟨complete, -, -⟩ := tokens_runOn_eq_ok_iff.1 reads
  obtain ⟨layout, laidOut⟩ := @TokenStream.exists_laidOut (String.ofList text) (by simpa using small)
  obtain ⟨spaces, finished⟩ := laidOut.of_complete complete
  have greedy := laidOut.greedy
  have cut : (String.ofList text).toList = _ := laidOut.reads.rest_eq
  rw [finished, List.append_nil] at greedy cut
  exact ⟨layout, cut.symm.trans String.toList_ofList, ⟨laidOut.tiles, spaces⟩, greedy⟩

theorem exists_tokens (proper : layout.Proper) (greedy : Greedy layout.lastGap layout.tiles)
    (small : layout.text.length < 2 ^ 28) (scope : Scope) :
    ∃ found, Step.tokens.runOn (String.ofList layout.text) scope = .ok (found, []) ∧
      Placed [] layout.tiles found := by
  obtain ⟨place, reaches⟩ : ∃ place, Position.start.advanceOver layout.text = .ok place :=
    (Position.room_start (by simpa using small)).exists_advanceOver
  obtain ⟨found, final, stream, placed⟩ := exists_stream_of_text String.toList_ofList reaches proper greedy
  refine ⟨found, tokens_runOn_eq_ok_iff.2 ?_, placed⟩
  rw [stream]
  exact ⟨rfl, rfl, rfl⟩

theorem Open.proper (isOpen : layout.Open) : layout.Proper := ⟨isOpen.tiles, .of_blanks isOpen.blank⟩

/-- Two layouts of a text end with the same gap, since the tokens of the text say where that begins. -/
theorem lastGap_eq {layout' : Layout} (proper : layout.Proper) (greedy : Greedy layout.lastGap layout.tiles)
    (proper' : layout'.Proper) (greedy' : Greedy layout'.lastGap layout'.tiles)
    (same : layout.text = layout'.text) (small : layout.text.length < 2 ^ 28) :
    layout.lastGap = layout'.lastGap := by
  obtain ⟨found, reads, placed⟩ := exists_tokens proper greedy small ∅
  obtain ⟨found', reads', placed'⟩ := exists_tokens proper' greedy' (same ▸ small) ∅
  rw [same, reads'] at reads
  cases reads
  exact (List.append_inj same (placed.length_eq placed' rfl)).2

theorem Open.not_endsInComment (isOpen : layout.Open) (small : layout.text.length < 2 ^ 28) :
    ¬ EndsInComment scope layout.text := by
  rintro ⟨front, body, result, cut, inside, before⟩
  have shorter : front.length < 2 ^ 28 := by
    rw [cut, List.length_append] at small
    omega
  obtain ⟨⟨tiles, gap⟩, rfl, proper, greedy⟩ := exists_of_tokens shorter before
  -- the text has another layout, with the comment in its last gap
  have spaces : Gap none (gap ++ '#' :: body) := proper.lastGap.append_comment inside
  have other : Layout.Proper ⟨tiles, gap ++ '#' :: body⟩ := ⟨proper.tiles, spaces⟩
  have same : layout.text = text ⟨tiles, gap ++ '#' :: body⟩ := by rw [cut, text, text, List.append_assoc]
  have hash : '#' ∈ layout.lastGap := by
    rw [lastGap_eq isOpen.proper isOpen.greedy other (greedy.of_head proper.tiles spaces.isNameChar_head) same
      small]
    simp
  cases isOpen.blank _ hash

theorem exists_open {result : List PlacedToken × List Warning} (small : text.length < 2 ^ 28)
    (reads : Step.tokens.runOn (String.ofList text) scope = .ok result) (outside : ¬ EndsInComment scope text) :
    ∃ layout : Layout, layout.Open ∧ layout.text = text := by
  obtain ⟨⟨tiles, gap⟩, rfl, proper, greedy⟩ := exists_of_tokens small reads
  rcases proper.lastGap.blanks_or_comment with blanks | ⟨blanks, body, rfl, all, inside⟩
  · exact ⟨⟨tiles, gap⟩, ⟨proper.tiles, greedy, blanks⟩, rfl⟩
  · -- the tokens before the comment can be read without it
    have spaces : Gap none blanks := .of_blanks all
    have front : Layout.Proper ⟨tiles, blanks⟩ := ⟨proper.tiles, spaces⟩
    have shorter : (text ⟨tiles, blanks⟩).length < 2 ^ 28 := by
      simp only [text, List.length_append] at small ⊢
      omega
    obtain ⟨found, before, -⟩ :=
      exists_tokens front (greedy.of_head proper.tiles spaces.isNameChar_head) shorter scope
    exact absurd ⟨_, body, _, by simp [text], inside, before⟩ outside

/-- What can be read and does not end inside a comment is what has an open layout. -/
theorem exists_open_iff (small : text.length < 2 ^ 28) :
    (∃ layout : Layout, layout.Open ∧ layout.text = text) ↔
      (∃ result, Step.tokens.runOn (String.ofList text) scope = .ok result) ∧ ¬ EndsInComment scope text := by
  constructor
  · rintro ⟨layout, isOpen, rfl⟩
    obtain ⟨found, reads, -⟩ := exists_tokens isOpen.proper isOpen.greedy small scope
    exact ⟨⟨_, reads⟩, isOpen.not_endsInComment small⟩
  · rintro ⟨⟨result, reads⟩, outside⟩
    exact exists_open small reads outside

/-- Behind an open layout, nothing is found where nothing starts. -/
theorem Open.exists_stream {source : String} (isOpen : layout.Open) (small : source.length < 2 ^ 28)
    (cut : source.toList = layout.text ++ c :: rest) (nothing : StartsNothing c rest) :
    ∃ found final, TokenStream.of (.ofString source) =
        ⟨found, some (.error (final.lexicalError "lexical error")), final⟩ ∧
      Placed [] layout.tiles found ∧ Cursor.Reads (.ofString source) layout.text final ∧
        final.rest = c :: rest := by
  have ready := Cursor.Ready.ofString small
  obtain ⟨final, reads, ahead⟩ := ready.exists_reads cut
  obtain ⟨stop, front, back⟩ := reads.split
  have greedy : Greedy stop.rest layout.tiles := by
    refine isOpen.greedy.of_head isOpen.tiles fun d head => ?_
    rw [back.rest_eq, ahead] at head
    cases gap : layout.lastGap with
    | nil =>
      rw [gap] at head
      cases head
      exact nothing.isNameChar_eq_false
    | cons b gap' =>
      rw [gap] at head
      exact isOpen.proper.lastGap.isNameChar_head d (by rw [gap]; exact head)
  obtain ⟨found, tokenises, placed⟩ :=
    exists_tokenises_of_tiles front advanceOver_start isOpen.tiles greedy (ready.of_reads front).readable
  have failed : Token.scanner.next 0 stop = _ :=
    (Token.next_eq_error_iff (ready.of_reads front)).2 ⟨_, isOpen.blank, back, ⟨c, rest, ahead, nothing⟩, rfl⟩
  refine ⟨found, final, ?_, placed, reads, ahead⟩
  rw [TokenStream.of_eq_of_tokenises tokenises, TokenStream.of_eq stop, failed]
  simp only [List.append_nil]

end Layout

/-! ## Where reading fails -/

/-- A text is cut at a character that nothing starts with. The tokens before it can be read, and they do not end
    inside a comment. -/
structure BreaksAt (scope : Scope) (text front : List Char) (c : Char) (rest : List Char) : Prop where
  cut : text = front ++ c :: rest
  reads : ∃ result, Step.tokens.runOn (String.ofList front) scope = .ok result
  outside : ¬ EndsInComment scope front
  nothing : StartsNothing c rest

/-- A token as it is listed: where it starts, what it is and how it is spelled. -/
def PlacedToken.listed (token : PlacedToken) : Position × Token × String :=
  (token.position, token.token, token.text)

theorem PlacedToken.listed_eq_of_like {found found' : List PlacedToken}
    (alike : List.Forall₂ (PlacedToken.Like fun p q => q = p) found found') :
    found.map listed = found'.map listed := by
  induction alike with
  | nil => rfl
  | cons first _ ih => simp only [List.map_cons, ih, listed, first.token, first.text, first.position]

namespace BreaksAt

variable {source : String} {scope : Scope} {front rest : List Char} {c : Char}

theorem length_lt (breaks : BreaksAt scope source.toList front c rest) (small : source.length < 2 ^ 28) :
    front.length < 2 ^ 28 := by
  have lengths := congrArg List.length breaks.cut
  rw [String.length_toList, List.length_append] at lengths
  omega

/-- A stream that breaks off takes up an open layout up to where nothing starts. -/
theorem exists_of_stop? (small : source.length < 2 ^ 28) {stop : Stop}
    (failed : (TokenStream.of (.ofString source)).stop? = some stop) :
    ∃ front c rest, BreaksAt scope source.toList front c rest := by
  obtain ⟨layout, proper, greedy, reads, -, ending⟩ := TokenStream.exists_laidOut small
  rw [failed] at ending
  cases ending with
  | @broken c rest blanks ahead nothing =>
    have cut : source.toList = layout.text ++ c :: rest := ahead ▸ reads.rest_eq
    have shorter : layout.text.length < 2 ^ 28 := by
      rw [← String.length_toList, cut, List.length_append] at small
      omega
    have spaces : Gap none layout.lastGap := .of_blanks blanks
    have isOpen : layout.Open := ⟨proper, greedy.of_head proper spaces.isNameChar_head, blanks⟩
    obtain ⟨succeeds, outside⟩ := (Layout.exists_open_iff shorter).1 ⟨layout, isOpen, rfl⟩
    exact ⟨layout.text, c, rest, cut, succeeds, outside, nothing⟩

/-- The error is at the character that nothing starts with, and so is the cursor. -/
theorem exists_failure (breaks : BreaksAt scope source.toList front c rest) (small : source.length < 2 ^ 28) :
    ∃ place found, Position.start.advanceOver front = .ok place ∧
      Step.tokens.runOn source scope =
        .error (.error ⟨.lexical, some place, "lexical error at " ++ quoted c⟩) ∧
      Step.tokens.runOn (String.ofList front) scope = .ok (found, []) ∧
      (TokenStream.of (.ofString source)).tokens.map PlacedToken.listed = found.map PlacedToken.listed ∧
      (TokenStream.of (.ofString source)).final.rest = c :: rest := by
  have shorter := breaks.length_lt small
  obtain ⟨layout, isOpen, rfl⟩ := (Layout.exists_open_iff shorter).2 ⟨breaks.reads, breaks.outside⟩
  obtain ⟨before, final, stream, placed, reads, ahead⟩ := isOpen.exists_stream small breaks.cut breaks.nothing
  obtain ⟨found, succeeds, placed'⟩ := Layout.exists_tokens isOpen.proper isOpen.greedy shorter scope
  refine ⟨final.position, found, reads.advanceOver_eq, tokens_runOn_eq_error_iff.2 ?_, succeeds, ?_, ?_⟩
  · rw [stream, Cursor.lexicalError_eq (reads.pending_eq_nil rfl) ahead]
  · rw [stream]
    exact PlacedToken.listed_eq_of_like (placed.like placed')
  · rw [stream]
    exact ahead

end BreaksAt

/-- The tokens of a text cannot be read if and only if somewhere nothing starts, with no comment begun. The error
    names the character there and its place. What was found before are the tokens of the text before it, and the
    cursor is left there. -/
theorem tokens_error_where_nothing_starts {source : String} (small : source.length < 2 ^ 28) (scope : Scope) :
    ((∃ stop, Step.tokens.runOn source scope = .error stop) ↔
      ∃ front c rest, BreaksAt scope source.toList front c rest) ∧
    (∀ front c rest, BreaksAt scope source.toList front c rest →
      ∃ place found, Position.start.advanceOver front = .ok place ∧
        Step.tokens.runOn source scope =
          .error (.error ⟨.lexical, some place, "lexical error at " ++ quoted c⟩) ∧
        Step.tokens.runOn (String.ofList front) scope = .ok (found, []) ∧
        (TokenStream.of (.ofString source)).tokens.map PlacedToken.listed = found.map PlacedToken.listed ∧
        (TokenStream.of (.ofString source)).final.rest = c :: rest) ∧
    ∀ code input e final, Token.scanner.next code input = (.error (.error e), final) →
      e.message ≠ "lexical error at end of file" := by
  refine ⟨⟨fun ⟨stop, failed⟩ => BreaksAt.exists_of_stop? small (tokens_runOn_eq_error_iff.1 failed), ?_⟩,
    fun front c rest breaks => breaks.exists_failure small, fun code input e final => Token.message_ne_of_next⟩
  rintro ⟨front, c, rest, breaks⟩
  obtain ⟨place, found, -, failed, -⟩ := breaks.exists_failure small
  exact ⟨_, failed⟩

/-- A start code is too large, behind a comment, a newline and an escaped hash sign. -/
theorem tokens_error_where_nothing_starts_startCode :
    "a # $\n\\#<4294967296>".length < 2 ^ 28 ∧
      BreaksAt ∅ "a # $\n\\#<4294967296>".toList "a # $\n\\#".toList '<' "4294967296>".toList ∧
      Step.tokens.runOn "a # $\n\\#<4294967296>" ∅ =
        .error (.error ⟨.lexical, some ⟨8, 2, 3⟩, "lexical error at '<'"⟩) := by
  have small : "a # $\n\\#<4294967296>".length < 2 ^ 28 := by decide
  have fails : Step.tokens.runOn "a # $\n\\#<4294967296>" ∅ =
      .error (.error ⟨.lexical, some ⟨8, 2, 3⟩, "lexical error at '<'"⟩) := by decide +kernel
  obtain ⟨fails_iff, pinpointed, -⟩ := tokens_error_where_nothing_starts small ∅
  obtain ⟨front, c, rest, breaks⟩ := fails_iff.1 ⟨_, fails⟩
  obtain ⟨place, found, reaches, failed, -⟩ := pinpointed front c rest breaks
  -- the place of the error tells how long the text before it is
  have same := failed.symm.trans fails
  simp only [Except.error.injEq, Stop.error.injEq, TextError.mk.injEq, Option.some.injEq, true_and] at same
  obtain ⟨rfl, -⟩ := same
  have length : front.length = 8 := (Position.offset_of_advanceOver reaches).symm
  have cut : "a # $\n\\#".toList ++ '<' :: "4294967296>".toList = front ++ c :: rest := breaks.cut
  obtain ⟨rfl, tail⟩ := List.append_inj cut length.symm
  obtain ⟨rfl, rfl⟩ := List.cons.inj tail
  exact ⟨small, breaks, fails⟩

end LexSpec
