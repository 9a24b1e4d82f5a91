import Mathlib.Data.List.Chain
import LexSpec.Proofs.Line.Reading
import LexSpec.Proofs.Token.Tokenising

/-! # Tokens and the texts they are laid out in

A `Layout` is a text that is cut into tokens and the gaps between them. Reading the tokens of a text cuts it
into such tiles and loses nothing (`exists_layout_of_tokens`). Conversely it undoes every layout whose gaps keep
names and words apart from the words behind them (`exists_tokens_of_layout`).

Both come from what a run of tokens reads: `Tokenises.exists_tiles` and `exists_tokenises_of_tiles`.
-/

namespace LexSpec

/-- A token as it is written, with the gap before it. -/
structure Tile where
  gap : List Char
  token : Token
  spelling : List Char

namespace Tile

def text (tile : Tile) : List Char := tile.gap ++ tile.spelling

/-- The token has its spelling, and the gap can stand before it. -/
structure Proper (tile : Tile) : Prop where
  spells : Spells tile.token tile.spelling
  gap : Gap (some tile.token) tile.gap

end Tile

namespace Tiles

def text (tiles : List Tile) : List Char := tiles.flatMap Tile.text

/-- Names and words are as long as they can be: what comes behind them does not begin with another character
    of a name. `follows` comes behind the last tile. -/
def Greedy (follows : List Char) : List Tile → Prop
  | [] => True
  | tile :: tiles =>
    (tile.token.IsNamed → ∀ c ∈ (text tiles ++ follows).head?, isNameChar c = false) ∧ Greedy follows tiles

/-- Tokens are the tokens of tiles, each spelled as its tile says, at the place behind the text before it.
    `before` is the text before the first tile. -/
inductive Placed : List Char → List Tile → List PlacedToken → Prop where
  | nil {before : List Char} : Placed before [] []
  | cons {before : List Char} {tile : Tile} {tiles : List Tile} {first : PlacedToken}
      {found : List PlacedToken} (token : first.token = tile.token)
      (text : first.text = String.ofList tile.spelling)
      (position : Position.start.advanceOver (before ++ tile.gap) = .ok first.position)
      (behind : Position.start.advanceOver (before ++ tile.text) = .ok first.behind.position)
      (rest : Placed (before ++ tile.text) tiles found) : Placed before (tile :: tiles) (first :: found)

end Tiles

/-- A text as it is cut into tiles, with the gap behind the last of them. -/
structure Layout where
  tiles : List Tile
  lastGap : List Char

namespace Layout

def text (layout : Layout) : List Char := Tiles.text layout.tiles ++ layout.lastGap

/-- All spellings and gaps are possible where they are. -/
structure Proper (layout : Layout) : Prop where
  tiles : ∀ tile ∈ layout.tiles, tile.Proper
  lastGap : Gap none layout.lastGap

/-- Between a name or a word and a word directly behind it the gap is not empty. -/
def Separate (layout : Layout) : Prop :=
  layout.tiles.IsChain fun tile next => tile.token.IsNamed → next.token.IsWord → next.gap ≠ []

end Layout

/-! ## Tiles in a row -/

namespace Tiles

variable {before follows other : List Char} {tile : Tile} {tiles others : List Tile}
  {found found' : List PlacedToken}

theorem text_cons : text (tile :: tiles) = tile.gap ++ (tile.spelling ++ text tiles) := by
  rw [text, List.flatMap_cons, Tile.text, List.append_assoc]
  rfl

theorem text_append : text (tiles ++ others) = text tiles ++ text others := List.flatMap_append

theorem text_ne_nil (proper : tile.Proper) : text (tile :: tiles) ≠ [] := by
  rw [text_cons]
  simp [proper.spells.ne_nil]

theorem greedy_append :
    Greedy follows (tiles ++ others) ↔ Greedy (text others ++ follows) tiles ∧ Greedy follows others := by
  induction tiles with
  | nil => exact (and_iff_right trivial).symm
  | cons tile tiles ih => simp only [List.cons_append, Greedy, ih, text_append, List.append_assoc, and_assoc]

/-- What comes behind the tiles matters to the last one only. -/
theorem Greedy.of_head (proper : ∀ tile ∈ tiles, tile.Proper) (greedy : Greedy follows tiles)
    (ends : ∀ c ∈ other.head?, isNameChar c = false) : Greedy other tiles := by
  induction tiles with
  | nil => trivial
  | cons tile tiles ih =>
    obtain ⟨-, rest⟩ := List.forall_mem_cons.1 proper
    refine ⟨fun named c head => ?_, ih rest greedy.2⟩
    cases tiles with
    | nil => exact ends c head
    | cons next tiles =>
      have nonempty : text (next :: tiles) ≠ [] := text_ne_nil (rest next (List.mem_cons_self ..))
      rw [List.head?_append_of_ne_nil _ nonempty] at head
      refine greedy.1 named c ?_
      rw [List.head?_append_of_ne_nil _ nonempty]
      exact head

theorem Placed.tokens_eq (placed : Placed before tiles found) :
    found.map (·.token) = tiles.map (·.token) := by
  induction placed with
  | nil => rfl
  | cons token _ _ _ _ ih => rw [List.map_cons, List.map_cons, token, ih]

theorem Placed.split (placed : Placed before (tiles ++ others) found) :
    ∃ front back, found = front ++ back ∧ Placed before tiles front ∧
      Placed (before ++ text tiles) others back := by
  induction tiles generalizing before found with
  | nil => exact ⟨[], found, rfl, .nil, by simpa [text] using placed⟩
  | cons tile tiles ih =>
    cases placed with
    | cons token text position behind rest =>
      obtain ⟨front, back, rfl, first, second⟩ := ih rest
      refine ⟨_ :: front, back, rfl, .cons token text position behind first, ?_⟩
      rwa [List.append_assoc] at second

/-- Only one list of tokens is placed like that, but for the texts that follow. -/
theorem Placed.like (placed : Placed before tiles found) (placed' : Placed before tiles found') :
    List.Forall₂ (PlacedToken.Like fun p q => q = p) found found' := by
  induction placed generalizing found' with
  | nil =>
    cases placed'
    exact .nil
  | cons token text position behind _ ih =>
    cases placed' with
    | cons token' text' position' behind' rest' =>
      refine .cons ⟨token.trans token'.symm, text.trans text'.symm, ?_, ?_⟩ (ih rest')
      · exact Except.ok.inj (position'.symm.trans position)
      · exact Except.ok.inj (behind'.symm.trans behind)

end Tiles

/-! ## Runs of tokens -/

open Tiles

variable {input stop : Cursor} {before : List Char} {tiles : List Tile} {found : List PlacedToken}

/-- A run of tokens reads tiles. -/
theorem Tokenises.exists_tiles (tokenises : Tokenises input found stop)
    (place : Position.start.advanceOver before = .ok input.position) :
    ∃ tiles, (∀ tile ∈ tiles, tile.Proper) ∧ Greedy stop.rest tiles ∧ input.Reads (Tiles.text tiles) stop ∧
      Placed before tiles found := by
  induction tokenises generalizing before with
  | nil => exact ⟨[], by simp, trivial, .nil, .nil⟩
  | @cons input behind stop position text token found first rest ih =>
    obtain ⟨gap, middle, spaces, fits, read⟩ := Token.next_eq_ok_iff.1 first
    cases read with
    | @token _ spelling _ spells reads halts =>
      have atToken : Position.start.advanceOver (before ++ gap) = .ok middle.position :=
        Position.advanceOver_append_eq_ok_iff.2 ⟨_, place, spaces.advanceOver_eq⟩
      have atEnd : Position.start.advanceOver (before ++ (gap ++ spelling)) = .ok behind.position :=
        Position.advanceOver_append_eq_ok_iff.2 ⟨_, place, (spaces.append reads).advanceOver_eq⟩
      obtain ⟨tiles, proper, greedy, more, placed⟩ := ih atEnd
      refine ⟨⟨gap, token, spelling⟩ :: tiles, List.forall_mem_cons.2 ⟨⟨spells, fits⟩, proper⟩,
        ⟨fun named => ?_, greedy⟩, ?_, .cons rfl rfl atToken atEnd placed⟩
      · rw [← more.rest_eq]
        exact (halts named).fails
      · exact (spaces.append reads).append more

/-- Tiles are read as a run of tokens. -/
theorem exists_tokenises_of_tiles (reads : input.Reads (Tiles.text tiles) stop)
    (place : Position.start.advanceOver before = .ok input.position)
    (proper : ∀ tile ∈ tiles, tile.Proper) (greedy : Greedy stop.rest tiles) (readable : stop.Readable) :
    ∃ found, Tokenises input found stop ∧ Placed before tiles found := by
  induction tiles generalizing input before with
  | nil =>
    cases reads
    exact ⟨[], .nil, .nil⟩
  | cons tile tiles ih =>
    obtain ⟨⟨spells, fits⟩, others⟩ := List.forall_mem_cons.1 proper
    obtain ⟨long, greedy⟩ := greedy
    rw [text_cons] at reads
    obtain ⟨middle, spaces, reads⟩ := reads.split
    obtain ⟨behind, spelled, more⟩ := reads.split
    have atToken : Position.start.advanceOver (before ++ tile.gap) = .ok middle.position :=
      Position.advanceOver_append_eq_ok_iff.2 ⟨_, place, spaces.advanceOver_eq⟩
    have atEnd : Position.start.advanceOver (before ++ tile.text) = .ok behind.position :=
      Position.advanceOver_append_eq_ok_iff.2 ⟨_, place, (spaces.append spelled).advanceOver_eq⟩
    have halts : tile.token.IsNamed → behind.Halts isNameChar := fun named =>
      ⟨more.readable readable, by rw [more.rest_eq]; exact long named⟩
    obtain ⟨found, rest, placed⟩ := ih more atEnd others greedy
    have first : Token.scanner.next 0 input =
        (.ok (.token middle.position (String.ofList tile.spelling) tile.token), behind) :=
      Token.next_eq_ok_iff.2 ⟨tile.gap, middle, spaces, fits, .token spells spelled halts⟩
    exact ⟨_, .cons first rest, .cons rfl rfl atToken atEnd placed⟩

/-! ## Whole texts -/

theorem advanceOver_start : Position.start.advanceOver [] = .ok .start := rfl

/-- Tiles at the beginning of a text are its first tokens, and some text behind the tiles can be read. -/
theorem exists_tokenises_of_text {source : String} {ahead follows : List Char} {place : Position}
    (text : source.toList = Tiles.text tiles ++ (ahead ++ follows))
    (reaches : Position.start.advanceOver (Tiles.text tiles ++ ahead) = .ok place)
    (proper : ∀ tile ∈ tiles, tile.Proper) (greedy : Greedy (ahead ++ follows) tiles)
    (more : ahead = [] → follows = []) :
    ∃ found stop final, Tokenises (.ofString source) found stop ∧ stop.Reads ahead final ∧
      final.rest = follows ∧ final.pending = [] ∧ Placed [] tiles found := by
  rw [← List.append_assoc] at text
  obtain ⟨final, reads, finished⟩ := @Cursor.exists_reads (.ofString source) _ _ _ rfl text reaches
  have drained : final.pending = [] := reads.pending_eq_nil rfl
  obtain ⟨stop, front, back⟩ := reads.split
  have readable : stop.Readable := by
    cases back with
    | nil => exact Cursor.readable_of_rest_eq_nil drained (finished.trans (more rfl))
    | cons first _ => exact ⟨_, first⟩
  have greedy : Greedy stop.rest tiles := by
    rw [back.rest_eq, finished]
    exact greedy
  obtain ⟨found, tokenises, placed⟩ :=
    exists_tokenises_of_tiles front advanceOver_start proper greedy readable
  exact ⟨found, stop, final, tokenises, back, finished, drained, placed⟩

/-- A text that is laid out has the tokens of its tiles and no others. -/
theorem exists_stream_of_text {source : String} {layout : Layout} {place : Position}
    (text : source.toList = layout.text) (reaches : Position.start.advanceOver layout.text = .ok place)
    (proper : layout.Proper) (greedy : Greedy layout.lastGap layout.tiles) :
    ∃ found final, TokenStream.of (.ofString source) = ⟨found, none, final⟩ ∧
      Placed [] layout.tiles found := by
  have whole : layout.lastGap ++ [] = layout.lastGap := List.append_nil _
  obtain ⟨found, stop, final, tokenises, reads, finished, drained, placed⟩ :=
    exists_tokenises_of_text (by rw [text, whole]; rfl) reaches proper.tiles (whole.symm ▸ greedy)
      fun _ => rfl
  have ends : Token.scanner.next 0 stop = (.ok (.endOfFile final.position), final) :=
    Token.next_eq_ok_iff.2 ⟨layout.lastGap, final, reads, proper.lastGap, .endOfFile drained finished⟩
  exact ⟨found, final, TokenStream.of_eq_of_endOfFile tokenises ends, placed⟩

/-- The tokens of a text lie in it one behind the other, each at its place, with nothing but gaps between
    them. A name or a word is as long as it can be. The length that a scan reports of a token is the number
    of characters that it reads. -/
theorem exists_layout_of_tokens {source : String} {scope : Scope} {found : List PlacedToken}
    {warnings : List Warning} (reads : Step.tokens.runOn source scope = .ok (found, warnings)) :
    (∃ layout : Layout, layout.text = source.toList ∧ layout.Proper ∧
      Greedy layout.lastGap layout.tiles ∧ Placed [] layout.tiles found ∧
      ∀ tile ∈ layout.tiles, tile.spelling ≠ []) ∧
    ∀ (input next : Cursor) (length : Nat) (token : Token),
      Token.scan input = .ok (.token next length token) →
        ∃ spelling, input.Reads spelling next ∧ length = spelling.length ∧ Spells token spelling := by
  refine ⟨?_, fun input next length token => Token.reads_of_scan_token⟩
  obtain ⟨complete, rfl, -⟩ := tokens_runOn_eq_ok_iff.1 reads
  obtain ⟨stop, position, final, tokenises, ends⟩ :=
    TokenStream.exists_tokenises_of_complete complete
  obtain ⟨tiles, proper, greedy, reads, placed⟩ := tokenises.exists_tiles advanceOver_start
  obtain ⟨lastGap, middle, spaces, gap, read⟩ := Token.next_eq_ok_iff.1 ends
  cases read with
  | endOfFile drained finished =>
    have rest : stop.rest = lastGap := by
      rw [spaces.rest_eq, finished, List.append_nil]
    refine ⟨⟨tiles, lastGap⟩, ?_, ⟨proper, gap⟩, rest ▸ greedy, placed,
      fun tile member => (proper tile member).spells.ne_nil⟩
    rw [Layout.text, ← rest]
    exact reads.rest_eq.symm

theorem exists_layout_of_tokens_comment :
    ∃ (found : List PlacedToken) (layout : Layout), Step.tokens.runOn "a\t<007># $" ∅ = .ok (found, []) ∧
      layout.text = "a\t<007># $".toList ∧ layout.Proper ∧ Greedy layout.lastGap layout.tiles ∧
      Placed [] layout.tiles found := by
  have accepted : (match Step.tokens.runOn "a\t<007># $" ∅ with
      | .ok (_, warnings) => warnings == []
      | .error _ => false) = true := by decide +kernel
  cases reads : Step.tokens.runOn "a\t<007># $" ∅ with
  | error stop =>
    rw [reads] at accepted
    cases accepted
  | ok result =>
    obtain ⟨found, warnings⟩ := result
    rw [reads] at accepted
    obtain rfl : warnings = [] := eq_of_beq accepted
    obtain ⟨⟨layout, text, proper, greedy, placed, -⟩, -⟩ := exists_layout_of_tokens reads
    exact ⟨found, layout, rfl, text, proper, greedy, placed⟩

theorem Layout.Separate.greedy {layout : Layout} (separate : layout.Separate) (proper : layout.Proper) :
    Greedy layout.lastGap layout.tiles := by
  obtain ⟨tiles, lastGap⟩ := layout
  obtain ⟨proper, last⟩ := proper
  induction tiles with
  | nil => trivial
  | cons tile tiles ih =>
    obtain ⟨-, others⟩ := List.forall_mem_cons.1 proper
    refine ⟨fun named => ?_, ih separate.tail others last⟩
    cases tiles with
    | nil => exact last.isNameChar_head
    | cons next tiles =>
      obtain ⟨⟨spells, gap⟩, -⟩ := List.forall_mem_cons.1 others
      have apart : next.token.IsWord → next.gap ≠ [] := (List.isChain_cons_cons.1 separate).1 named
      rw [text_cons]
      -- the next text begins with its gap or, where that is empty, with a token that is no word
      by_cases empty : next.gap = []
      · rw [empty, List.nil_append, List.append_assoc, List.head?_append_of_ne_nil _ spells.ne_nil]
        exact spells.isNameChar_head fun word => apart word empty
      · rw [List.append_assoc, List.head?_append_of_ne_nil _ empty]
        exact gap.isNameChar_head

/-- Reading the tokens of a text that is laid out with gaps where they are needed gives the tokens, each at
    its place. -/
theorem exists_tokens_of_layout {layout : Layout} (proper : layout.Proper) (separate : layout.Separate)
    (small : layout.text.length < 2 ^ 28) (scope : Scope) :
    ∃ found, Step.tokens.runOn (String.ofList layout.text) scope = .ok (found, []) ∧
      Placed [] layout.tiles found := by
  obtain ⟨position, reaches⟩ : ∃ position, Position.start.advanceOver layout.text = .ok position :=
    (Position.room_start (by simpa using small)).exists_advanceOver
  obtain ⟨found, final, stream, placed⟩ :=
    exists_stream_of_text String.toList_ofList reaches proper (separate.greedy proper)
  refine ⟨found, tokens_runOn_eq_ok_iff.2 ?_, placed⟩
  rw [stream]
  exact ⟨rfl, rfl, rfl⟩

theorem exists_tokens_of_layout_comment :
    ∃ found, Step.tokens.runOn "a_'\t<007># $" ∅ = .ok (found, []) ∧
      found.map (·.token) = [.word "a_'", .startCode 7] ∧ found.map (·.position.text) = ["1:1", "1:9"] := by
  let layout : Layout :=
    ⟨[⟨[], .word "a_'", ['a', '_', '\'']⟩, ⟨['\t'], .startCode 7, ['<', '0', '0', '7', '>']⟩], ['#', ' ', '$']⟩
  have word : Spells (.word "a_'") ['a', '_', '\''] := .word (by decide) (List.all_eq_true.1 rfl)
  have startCode : Spells (.startCode 7) ['<', '0', '0', '7', '>'] :=
    @Spells.startCode ['0', '0', '7'] (by decide) (List.all_eq_true.1 rfl) (by decide)
  have proper : layout.Proper := by
    refine ⟨List.forall_mem_cons.2 ⟨⟨word, .nil⟩, List.forall_mem_singleton.2 ⟨startCode, ?_⟩⟩, ?_⟩
    · exact .blank (.inr (.inl rfl)) .nil
    · exact .comment (by decide) (.inl rfl)
  have separate : layout.Separate := by simp [Layout.Separate, layout]
  obtain ⟨found, reads, placed⟩ := exists_tokens_of_layout proper separate (by decide) ∅
  refine ⟨found, reads, placed.tokens_eq, ?_⟩
  cases placed with
  | cons _ _ first _ rest =>
    cases rest with
    | cons _ _ second _ rest =>
      cases rest
      rw [List.map_cons, List.map_singleton, ← Except.ok.inj first, ← Except.ok.inj second]
      decide

end LexSpec
