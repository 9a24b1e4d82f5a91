import LexSpec.Proofs.Cursor.Reading
import LexSpec.Proofs.Token.Spelling
import LexSpec.Token.Stream

/-! # What tokens are read from

`Finds input found` tells by the characters ahead what there is to be found at a cursor: a blank, a comment, a
token or the end. It is what a scan finds, unless it finds an error (`scan_eq_ok_iff`).

From there the scanner goes on to the next token. It finds the token that is ahead behind a gap
(`next_eq_ok_iff`).
-/

namespace LexSpec

/-- The token that a lexeme is. The end of the text is none. -/
def Lexeme.token? : Lexeme Token → Option Token
  | .token _ _ action => some action
  | .endOfFile _ => none

namespace Token

variable {input behind next : Cursor}

/-! ## What a scan finds -/

/-- What there is to be found at a cursor. -/
inductive Finds (input : Cursor) : Scan Token → Prop where
  | endOfFile (drained : input.pending = []) (finished : input.rest = []) : Finds input .endOfFile
  | blank {c : Char} {next : Cursor} (blank : c = ' ' ∨ c = '\t' ∨ c = '\r') (reads : input.Reads [c] next) :
      Finds input (.skip next)
  | comment {body : List Char} {next : Cursor} (inside : '\n' ∉ body) (reads : input.Reads ('#' :: body) next)
      (halts : next.Halts (· ≠ '\n')) : Finds input (.skip next)
  | token {token : Token} {spelling : List Char} {next : Cursor} (spells : Spells token spelling)
      (reads : input.Reads spelling next) (maximal : token.IsNamed → next.Halts isNameChar) :
      Finds input (.token next spelling.length token)

theorem scan_eq_of_nextChar {first : Char} (read : input.nextChar = .ok (some (first, behind))) :
    scan input = scanFrom first behind := by
  rw [scan, read]
  rfl

section Sound

variable {first : Char} {found : Scan Token} (read : input.nextChar = .ok (some (first, behind)))

include read

theorem finds_of_scanComment (hash : first = '#') (scanned : scanComment behind = .ok found) :
    Finds input found := by
  obtain ⟨⟨body, next⟩, taken, result⟩ := bind_eq_ok_iff.1 scanned
  cases result
  obtain ⟨reads, inside, halts⟩ := Cursor.takeWhile_eq_ok_iff.1 taken
  subst hash
  exact .comment (fun newline => by simpa using inside _ newline) (.cons read reads) halts

theorem finds_of_scanName {token : String → Token}
    (spells : ∀ name, name ≠ [] → (∀ c ∈ name, isNameChar c) →
      Spells (token (String.ofList name)) (first :: name))
    (scanned : scanName token behind = .ok found) : found = .error ∨ Finds input found := by
  obtain ⟨⟨name, next⟩, taken, result⟩ := bind_eq_ok_iff.1 scanned
  obtain ⟨reads, chars, halts⟩ := Cursor.takeWhile_eq_ok_iff.1 taken
  dsimp only at result
  split at result
  next =>
    cases result
    exact .inl rfl
  next nonempty =>
    cases result
    exact .inr (.token (spells name nonempty chars) (.cons read reads) fun _ => halts)

theorem finds_of_scanWord (named : isNameChar first) (scanned : scanWord first behind = .ok found) :
    Finds input found := by
  obtain ⟨⟨others, next⟩, taken, result⟩ := bind_eq_ok_iff.1 scanned
  cases result
  obtain ⟨reads, chars, halts⟩ := Cursor.takeWhile_eq_ok_iff.1 taken
  exact .token (.word (List.cons_ne_nil _ _) (List.forall_mem_cons.2 ⟨named, chars⟩)) (.cons read reads)
    fun _ => halts

theorem finds_of_scanEscape (backslash : first = '\\') (scanned : scanEscape behind = .ok found) :
    found = .error ∨ Finds input found := by
  obtain ⟨result, second, rest⟩ := bind_eq_ok_iff.1 scanned
  subst backslash
  cases result with
  | none =>
    cases rest
    exact .inl rfl
  | some result =>
    cases rest
    exact .inr (.token .escape (.cons read (.cons second .nil)) False.elim)

theorem finds_of_scanTurnstile (colon : first = ':') (scanned : scanTurnstile behind = .ok found) :
    found = .error ∨ Finds input found := by
  obtain ⟨result, second, rest⟩ := bind_eq_ok_iff.1 scanned
  subst colon
  cases result with
  | none =>
    cases rest
    exact .inl rfl
  | some result =>
    obtain ⟨c, next⟩ := result
    dsimp only at rest
    split at rest
    next dash =>
      subst dash
      cases rest
      exact .inr (.token .turnstile (.cons read (.cons second .nil)) False.elim)
    next =>
      cases rest
      exact .inl rfl

theorem finds_of_scanStartCode (bracket : first = '<') (scanned : scanStartCode behind = .ok found) :
    found = .error ∨ Finds input found := by
  obtain ⟨⟨digits, last⟩, taken, result⟩ := bind_eq_ok_iff.1 scanned
  obtain ⟨reads, chars, -⟩ := Cursor.takeWhile_eq_ok_iff.1 taken
  subst bracket
  dsimp only at result
  split at result
  next =>
    cases result
    exact .inl rfl
  next number =>
    obtain ⟨nonempty, limit⟩ := not_or.1 number
    obtain ⟨closing, second, rest⟩ := bind_eq_ok_iff.1 result
    cases closing with
    | none =>
      cases rest
      exact .inl rfl
    | some closing =>
      obtain ⟨c, next⟩ := closing
      dsimp only at rest
      split at rest
      next bracket =>
        subst bracket
        cases rest
        rw [ofDecimal_eq] at limit ⊢
        have spells : Spells (.startCode (decimalValue digits)) ('<' :: (digits ++ ['>'])) :=
          .startCode nonempty chars (Nat.lt_of_not_le limit)
        have whole := Finds.token spells (.cons read (reads.append (.cons second .nil))) False.elim
        rw [List.length_cons, List.length_append] at whole
        exact .inr whole
      next =>
        cases rest
        exact .inl rfl

theorem finds_of_scanFrom (scanned : scanFrom first behind = .ok found) :
    found = .error ∨ Finds input found := by
  unfold scanFrom at scanned
  split at scanned
  next blank =>
    cases scanned
    exact .inr (.blank (isBlank_iff.1 blank) (.cons read .nil))
  split at scanned
  next hash => exact .inr (finds_of_scanComment read hash scanned)
  split at scanned
  next dollar =>
    subst dollar
    exact finds_of_scanName read (fun _ => .setName) scanned
  split at scanned
  next percent =>
    subst percent
    exact finds_of_scanName read (fun _ => .regexName) scanned
  split at scanned
  next backslash => exact finds_of_scanEscape read backslash scanned
  split at scanned
  next colon => exact finds_of_scanTurnstile read colon scanned
  split at scanned
  next bracket => exact finds_of_scanStartCode read bracket scanned
  split at scanned
  next named => exact .inr (finds_of_scanWord read named scanned)
  split at scanned
  next token symbol =>
    cases scanned
    have sign : token.sign? = some first := symbol?_eq_some_iff.1 symbol
    exact .inr (.token (.sign sign) (.cons read .nil) fun named => absurd named (not_isNamed_of_sign sign))
  next =>
    cases scanned
    exact .inl rfl

end Sound

theorem finds_of_scan {found : Scan Token} (scanned : scan input = .ok found) :
    found = .error ∨ Finds input found := by
  obtain ⟨result, read, rest⟩ := bind_eq_ok_iff.1 scanned
  cases result with
  | none =>
    cases rest
    obtain ⟨drained, finished⟩ := Cursor.nextChar_eq_none_iff.1 read
    exact .inr (.endOfFile drained finished)
  | some result => exact finds_of_scanFrom read rest

/-! ## What is ahead is found -/

theorem scanName_eq {token : String → Token} {name : List Char} (reads : input.Reads name next)
    (nonempty : name ≠ []) (chars : ∀ c ∈ name, isNameChar c) (halts : next.Halts isNameChar) :
    scanName token input = .ok (.token next (name.length + 1) (token (String.ofList name))) := by
  rw [scanName, Cursor.takeWhile_eq_ok_iff.2 ⟨reads, chars, halts⟩]
  exact if_neg nonempty

theorem scanFrom_eq_scanWord {first : Char} (named : isNameChar first) (input : Cursor) :
    scanFrom first input = scanWord first input := by
  have other : ∀ c, isNameChar c = false → first ≠ c := by
    rintro c unnamed rfl
    exact absurd (named.symm.trans unnamed) (by simp)
  have solid : isBlank first = false := by
    simp [isBlank, other ' ' rfl, other '\t' rfl, other '\r' rfl]
  simp only [scanFrom, solid, other '#' rfl, other '$' rfl, other '%' rfl, other '\\' rfl, other ':' rfl,
    other '<' rfl, named, Bool.false_eq_true, if_false, if_true]

theorem scanFrom_eq_of_sign {first : Char} {token : Token} (sign : token.sign? = some first)
    (input : Cursor) : scanFrom first input = .ok (.token input 1 token) := by
  cases token <;> simp only [sign?, reduceCtorEq, Option.some.injEq] at sign <;> subst sign <;> rfl

theorem scanStartCode_eq {digits : List Char} (reads : input.Reads (digits ++ ['>']) next)
    (nonempty : digits ≠ []) (chars : ∀ c ∈ digits, c.isDigit) (limit : decimalValue digits < 2 ^ 32) :
    scanStartCode input = .ok (.token next (digits.length + 2) (.startCode (decimalValue digits))) := by
  obtain ⟨middle, front, back⟩ := reads.split
  cases back with
  | cons closing nothing =>
    cases nothing
    obtain ⟨-, -, ahead, -⟩ := Cursor.nextChar_eq_some_iff.1 closing
    have halts : middle.Halts Char.isDigit := by
      refine ⟨⟨_, closing⟩, fun c head => ?_⟩
      rw [ahead] at head
      cases head
      rfl
    have number : ¬ (digits = [] ∨ startCodeLimit ≤ decimalValue digits) :=
      not_or.2 ⟨nonempty, Nat.not_le_of_lt limit⟩
    rw [scanStartCode, Cursor.takeWhile_eq_ok_iff.2 ⟨front, chars, halts⟩]
    change (if digits = [] ∨ startCodeLimit ≤ ofDecimal digits then _ else _) = _
    rw [ofDecimal_eq, if_neg number, closing]
    rfl

theorem Finds.scan_eq {found : Scan Token} (finds : Finds input found) : scan input = .ok found := by
  cases finds with
  | endOfFile drained finished =>
    rw [scan, Cursor.nextChar_eq_none_iff.2 ⟨drained, finished⟩]
    rfl
  | blank blank reads =>
    cases reads with
    | cons first nothing =>
      cases nothing
      rw [scan_eq_of_nextChar first]
      exact if_pos (isBlank_iff.2 blank)
  | comment inside reads halts =>
    cases reads with
    | cons first rest =>
      have chars : ∀ c ∈ _, decide (c ≠ '\n') = true := fun c member =>
        decide_eq_true fun newline => inside (newline ▸ member)
      rw [scan_eq_of_nextChar first]
      change scanComment _ = _
      rw [scanComment, Cursor.takeWhile_eq_ok_iff.2 ⟨rest, chars, halts⟩]
      rfl
  | token spells reads maximal =>
    cases reads with
    | nil => exact absurd rfl spells.ne_nil
    | cons first rest =>
      rw [scan_eq_of_nextChar first]
      cases spells with
      | setName nonempty chars => exact scanName_eq rest nonempty chars (maximal trivial)
      | regexName nonempty chars => exact scanName_eq rest nonempty chars (maximal trivial)
      | word nonempty chars =>
        obtain ⟨named, others⟩ := List.forall_mem_cons.1 chars
        rw [scanFrom_eq_scanWord named, scanWord,
          Cursor.takeWhile_eq_ok_iff.2 ⟨rest, others, maximal trivial⟩]
        rfl
      | escape =>
        cases rest with
        | cons second nothing =>
          cases nothing
          change scanEscape _ = _
          rw [scanEscape, second]
          rfl
      | startCode nonempty chars limit =>
        rw [List.length_cons, List.length_append]
        exact scanStartCode_eq rest nonempty chars limit
      | turnstile =>
        cases rest with
        | cons second nothing =>
          cases nothing
          change scanTurnstile _ = _
          rw [scanTurnstile, second]
          rfl
      | sign sign =>
        cases rest
        exact scanFrom_eq_of_sign sign _

/-- A scan finds what there is to be found. -/
theorem scan_eq_ok_iff {found : Scan Token} (known : found ≠ .error) :
    scan input = .ok found ↔ Finds input found :=
  ⟨fun scanned => (finds_of_scan scanned).resolve_left known, Finds.scan_eq⟩

/-- The length that is reported of a token is the number of characters read for it. -/
theorem reads_of_scan_token {length : Nat} {token : Token}
    (scanned : scan input = .ok (.token next length token)) :
    ∃ spelling, input.Reads spelling next ∧ length = spelling.length ∧ Spells token spelling := by
  cases (scan_eq_ok_iff (by simp)).1 scanned with
  | token spells reads _ => exact ⟨_, reads, rfl, spells⟩

/-! ## From one token to the next -/

theorem next_eq (input : Cursor) :
    scanner.next 0 input =
      match scan input with
      | .error fault => (.error (.fault fault), input)
      | .ok .endOfFile => (.ok (.endOfFile input.position), input)
      | .ok .error => (.error (.error (input.lexicalError "lexical error")), input)
      | .ok (.skip next) => scanner.next 0 next
      | .ok (.token next length token) =>
        (.ok (.token input.position (String.ofList (input.rest.take length)) token), next) := by
  have scans : scan input = scanner.scan input 0 := rfl
  rw [Scanner.next, scans]
  split <;> simp_all

/-- A lexeme is read right here, and ends at a cursor. -/
inductive ReadsLexeme (input : Cursor) : Lexeme Token → Cursor → Prop where
  | token {token : Token} {spelling : List Char} {behind : Cursor} (spells : Spells token spelling)
      (reads : input.Reads spelling behind) (maximal : token.IsNamed → behind.Halts isNameChar) :
      ReadsLexeme input (.token input.position (String.ofList spelling) token) behind
  | endOfFile (drained : input.pending = []) (finished : input.rest = []) :
      ReadsLexeme input (.endOfFile input.position) input

variable {lexeme : Lexeme Token}

/-- Where a comment stops, only a newline or the end of the text can follow. -/
theorem ReadsLexeme.of_halts {middle : Cursor} {gap : List Char} (reads : input.Reads gap middle)
    (spaces : Gap lexeme.token? gap) (read : ReadsLexeme middle lexeme behind)
    (halts : input.Halts (· ≠ '\n')) :
    gap = [] ∧ (lexeme.token? = none ∨ lexeme.token? = some .newline) := by
  have newline : ∀ c ∈ input.rest.head?, c = '\n' := fun c head => by simpa using halts.fails c head
  cases reads with
  | @cons _ _ _ c text first rest =>
    obtain ⟨-, -, ahead, -⟩ := Cursor.nextChar_eq_some_iff.1 first
    obtain rfl := newline c (by rw [ahead]; rfl)
    exact absurd spaces not_gap_newline_cons
  | nil =>
    refine ⟨rfl, ?_⟩
    cases read with
    | endOfFile => exact .inl rfl
    | token spells reads _ =>
      cases reads with
      | nil => exact absurd rfl spells.ne_nil
      | cons first rest =>
        obtain ⟨-, -, ahead, -⟩ := Cursor.nextChar_eq_some_iff.1 first
        obtain rfl := newline _ (by rw [ahead]; rfl)
        obtain ⟨rfl, -⟩ := spells.eq_newline
        exact .inr rfl

theorem exists_gap_of_next (found : scanner.next 0 input = (.ok lexeme, behind)) :
    ∃ gap middle, input.Reads gap middle ∧ Gap lexeme.token? gap ∧ ReadsLexeme middle lexeme behind := by
  fun_induction Scanner.next scanner 0 input with
  | case1 | case3 => simp at found
  | case2 input scanned =>
    cases (scan_eq_ok_iff (by simp)).1 scanned with
    | endOfFile drained finished =>
      simp only [Prod.mk.injEq, Except.ok.injEq] at found
      obtain ⟨rfl, rfl⟩ := found
      exact ⟨[], _, .nil, .nil, .endOfFile drained finished⟩
  | case4 input next scanned ih =>
    obtain ⟨gap, middle, reads, spaces, read⟩ := ih found
    cases (scan_eq_ok_iff (by simp)).1 scanned with
    | blank blank first => exact ⟨_, middle, first.append reads, .blank blank spaces, read⟩
    | @comment body _ inside first halts =>
      obtain ⟨rfl, ends⟩ := read.of_halts reads spaces halts
      exact ⟨'#' :: body ++ [], middle, first.append reads, by simpa using .comment inside ends, read⟩
  | case5 input next length action scanned =>
    cases (scan_eq_ok_iff (by simp)).1 scanned with
    | token spells reads maximal =>
      rw [reads.rest_eq, List.take_left] at found
      cases found
      exact ⟨[], input, .nil, .nil, .token spells reads maximal⟩

theorem ReadsLexeme.next_eq (read : ReadsLexeme input lexeme behind) :
    scanner.next 0 input = (.ok lexeme, behind) := by
  cases read with
  | token spells reads maximal =>
    have scanned : scanner.scan input 0 = _ := (Finds.token spells reads maximal).scan_eq
    rw [Scanner.next_of_token scanned, reads.rest_eq, List.take_left]
  | endOfFile drained finished => rw [Token.next_eq, (Finds.endOfFile drained finished).scan_eq]

/-- Behind a comment, what ends the line is ahead. -/
theorem ReadsLexeme.halts (read : ReadsLexeme input lexeme behind)
    (ends : lexeme.token? = none ∨ lexeme.token? = some .newline) : input.Halts (· ≠ '\n') := by
  cases read with
  | endOfFile drained finished =>
    exact ⟨Cursor.readable_of_rest_eq_nil drained finished, by simp [finished]⟩
  | token spells reads maximal =>
    obtain rfl : _ = Token.newline := by simpa [Lexeme.token?] using ends
    obtain rfl := Spells.newline_iff.1 spells
    cases reads with
    | cons first rest =>
      obtain ⟨-, -, ahead, -⟩ := Cursor.nextChar_eq_some_iff.1 first
      exact ⟨⟨_, first⟩, by simp [ahead]⟩

theorem next_eq_of_gap {gap : List Char} {middle : Cursor} (reads : input.Reads gap middle)
    (spaces : Gap lexeme.token? gap) (read : ReadsLexeme middle lexeme behind) :
    scanner.next 0 input = (.ok lexeme, behind) := by
  induction spaces generalizing input with
  | nil =>
    cases reads
    exact read.next_eq
  | blank blank _ ih =>
    cases reads with
    | cons first rest =>
      have scanned : scanner.scan input 0 = _ := (Finds.blank blank (.cons first .nil)).scan_eq
      rw [Scanner.next_of_skip scanned]
      exact ih rest
  | comment inside ends =>
    have scanned : scanner.scan input 0 = _ := (Finds.comment inside reads (read.halts ends)).scan_eq
    rw [Scanner.next_of_skip scanned]
    exact read.next_eq

/-- The next lexeme is the one that is ahead behind a gap. -/
theorem next_eq_ok_iff :
    scanner.next 0 input = (.ok lexeme, behind) ↔
      ∃ gap middle, input.Reads gap middle ∧ Gap lexeme.token? gap ∧ ReadsLexeme middle lexeme behind :=
  ⟨exists_gap_of_next, fun ⟨_, _, reads, spaces, read⟩ => next_eq_of_gap reads spaces read⟩

theorem kind_of_next {e : TextError} (found : scanner.next 0 input = (.error (.error e), behind)) :
    e.kind = .lexical := by
  fun_induction Scanner.next scanner 0 input with
  | case1 | case2 | case5 => simp at found
  | case3 =>
    cases found
    rfl
  | case4 _ _ _ ih => exact ih found

/-- What is read up to a token: text that is skipped, and the text of the token. -/
theorem reads_of_next {position : Position} {text : String} {token : Token}
    (found : scanner.next 0 input = (.ok (.token position text token), behind)) :
    ∃ skipped, input.Reads (skipped ++ text.toList) behind ∧ text.toList ≠ [] ∧
      (token = .newline → text.toList = ['\n']) := by
  obtain ⟨gap, middle, reads, -, read⟩ := next_eq_ok_iff.1 found
  cases read with
  | token spells more _ =>
    rw [String.toList_ofList]
    refine ⟨gap, reads.append more, spells.ne_nil, ?_⟩
    rintro rfl
    exact Spells.newline_iff.1 spells

end Token

end LexSpec
