import LexSpec.Proofs.CharSet.Membership
import LexSpec.Proofs.Session.Growth
import LexSpec.Proofs.Specification.Acceptance

/-! # What defined sets contain

A set that a line defines is the union of its items: `contains_of_readWith`. `SetItem.Has` says what belongs to an
item, with the sets that the names in it have at that place. A name has there what the latest line in front has
given it, or else what was known beforehand. What an escape stands for is told by `Literal.Means`.

There is only one way to cut the tokens of the line into items (`SetItem.tokens_injective`), since a dash stands in
the middle of a range and nowhere else.
-/

namespace LexSpec

namespace Grammar

/-! ## Items -/

/-- The character that a literal stands for. A letter stands for itself. Behind a backslash `n` stands for a newline,
    `t` for a tab and any other character for itself. -/
inductive Literal.Means : Literal → Char → Prop where
  | letter (c : Char) : Means (.letter c) c
  | newline : Means (.escape 'n') '\n'
  | tab : Means (.escape 't') '\t'
  | other {c : Char} (notNewline : c ≠ 'n') (notTab : c ≠ 't') : Means (.escape c) c

/-- A character belongs to an item. `current` gives the sets that are named. -/
def SetItem.Has (current : String → Option CharSet) (c : Char) : SetItem → Prop
  | named name => ∃ set, current name = some set ∧ set.contains c = true
  | any => True
  | word text => c ∈ text.toList
  | escape d => (Literal.escape d).Means c
  | range low high => ∃ first last, low.Means first ∧ high.Means last ∧ first ≤ c ∧ c ≤ last

theorem Literal.token_inj {literal other : Literal} (same : literal.token = other.token) :
    literal = other := by
  cases literal <;> cases other <;> simp_all [Literal.token]

theorem Literal.means_iff {literal : Literal} {c : Char} : literal.Means c ↔ c = literal.char := by
  constructor
  · intro means
    cases means with
    | letter | newline | tab => rfl
    | other notNewline notTab => simp [char, Token.unescape, notNewline, notTab]
  · rintro rfl
    cases literal with
    | letter c => exact .letter c
    | escape c =>
      by_cases newline : c = 'n'
      · subst newline
        exact .newline
      · by_cases tab : c = 't'
        · subst tab
          exact .tab
        · have itself : (Literal.escape c).char = c := by simp [char, Token.unescape, newline, tab]
          rw [itself]
          exact .other newline tab

namespace SetItem

variable {scope : Scope} {item other : SetItem} {set : CharSet} {row others : List SetItem} {c : Char}

theorem contains_value_iff (meaning : item.value scope = some set) :
    set.contains c = true ↔ item.Has scope.sets.find? c := by
  cases item with
  | named name =>
    have known : scope.sets.find? name = some set := meaning
    simp [Has, known]
  | any | word | escape | range =>
    cases meaning
    simp [Has, CharSet.contains_iff_mem, Literal.means_iff, Literal.char]

/-- The union has what belongs to one of the items, or to the set that they are added to. -/
theorem contains_foldlM_iff {start : CharSet}
    (meaning : row.foldlM (fun set item => (item.value scope).map set.union) start = some set) :
    set.contains c = true ↔ start.contains c = true ∨ ∃ item ∈ row, item.Has scope.sets.find? c := by
  induction row generalizing start with
  | nil =>
    cases meaning
    simp
  | cons item row ih =>
    rw [List.foldlM_cons, Option.bind_eq_bind, Option.bind_eq_some_iff] at meaning
    obtain ⟨joined, first, meaning⟩ := meaning
    obtain ⟨value, meant, rfl⟩ := Option.map_eq_some_iff.1 first
    rw [ih meaning, CharSet.contains_union, Bool.or_eq_true, contains_value_iff meant, or_assoc]
    simp only [List.mem_cons, exists_eq_or_imp]

theorem contains_union_iff (meaning : SetItem.union scope row = some set) :
    set.contains c = true ↔ ∃ item ∈ row, item.Has scope.sets.find? c := by
  have nothing : ¬ CharSet.contains ∅ c = true := by
    rw [CharSet.contains_iff_mem]
    exact CharSet.not_mem_empty
  rw [contains_foldlM_iff meaning, or_iff_right nothing]

/-! ## The items are determined by their tokens -/

/-- No item begins with a dash. -/
theorem head?_tokens_append_ne (item : SetItem) (more : List Token) :
    (item.tokens ++ more).head? ≠ some .dash := by
  cases item with
  | range low => cases low <;> simp [tokens, Literal.token]
  | _ => simp [tokens]

theorem head?_flatMap_tokens_ne (row : List SetItem) : (row.flatMap tokens).head? ≠ some .dash := by
  cases row with
  | nil => simp
  | cons item row => exact item.head?_tokens_append_ne _

/-- A single character is an item of its own or the beginning of a range. What comes behind it tells which. -/
theorem append_inj {more rest : List Token} (ends : more.head? ≠ some .dash) (ends' : rest.head? ≠ some .dash)
    (same : item.tokens ++ more = other.tokens ++ rest) : item = other ∧ more = rest := by
  cases item with
  | range low high =>
    cases other with
    | range low' high' =>
      simp only [tokens, List.cons_append, List.nil_append, List.cons.injEq, true_and] at same
      obtain ⟨first, second, rfl⟩ := same
      exact ⟨by rw [Literal.token_inj first, Literal.token_inj second], rfl⟩
    | _ => exact absurd (congrArg (·.tail.head?) same).symm ends'
  | _ =>
    cases other with
    | range => exact absurd (congrArg (·.tail.head?) same) ends
    | _ => simp_all [tokens]

theorem tokens_injective (same : row.flatMap tokens = others.flatMap tokens) : row = others := by
  induction row generalizing others with
  | nil =>
    cases others with
    | nil => rfl
    | cons other others => cases other <;> cases same
  | cons item row ih =>
    cases others with
    | nil => cases item <;> cases same
    | cons other others =>
      obtain ⟨rfl, rest⟩ := append_inj (head?_flatMap_tokens_ne row) (head?_flatMap_tokens_ne others) same
      rw [ih rest]

end SetItem

end Grammar

/-! ## Names behind lines -/

open Grammar

/-- The line defines the set of a name. -/
def Line.DefinesSet (name : String) (line : Line) : Prop := ∃ body, line.words = .setName name :: .equals :: body

/-- The set that a name has when lines have been read. -/
def setBehind (source : String) (scope : Scope) (lines : List Line) (name : String) : Option CharSet :=
  ((Step.sequence (lines.map Line.read)).sessionBehind (.start source scope)).scope.sets.find? name

variable {source : String} {scope : Scope} {session last : Session} {lines : List Line} {line : Line}
  {outcomes : List (Option Rule)} {name : String}

theorem setBehind_eq (reads : ReadsLines (.start source scope) lines outcomes last) (name : String) :
    setBehind source scope lines name = last.scope.sets.find? name := by
  unfold setBehind Step.sessionBehind
  rw [sequence_eq_ok_iff.2 reads]

/-- Lines that do not define the set of a name leave it as it was. -/
theorem ReadsLines.find?_eq (reads : ReadsLines session lines outcomes last)
    (others : ∀ line ∈ lines, ¬ line.DefinesSet name) :
    last.scope.sets.find? name = session.scope.sets.find? name := by
  induction reads with
  | nil => rfl
  | cons stated _ ih =>
    obtain ⟨first, rest⟩ := List.forall_mem_cons.1 others
    exact (ih rest).trans ((find?_scopeAfter stated).1 name fun body words => first ⟨body, words⟩)

theorem statement_eq_setDefinition {statement : Statement} {body : List Token}
    (stated : line.statement scope = .ok statement) (words : line.words = .setName name :: .equals :: body) :
    ∃ (items : List SetItem) (set : CharSet), items.flatMap SetItem.tokens = body ∧
      SetItem.union scope items = some set ∧ statement = .setDefinition name set := by
  obtain ⟨reads, -⟩ := Line.statement_eq_ok_iff.1 stated
  obtain ⟨tree, written, meaning⟩ := exists_tree_of_statement_ofTokens reads
  have written := written.trans words
  cases tree with
  | setDefinition other items =>
    cases written
    obtain ⟨set, union, rfl⟩ := Option.map_eq_some_iff.1 meaning
    exact ⟨items, set, rfl, union, rfl⟩
  | _ => cases written

/-- A line that defines a set gives it the union of its items. There is one way only to cut the line into items.
    A name in them stands for the set that it has in front of the line: that of the latest line there that
    defines the name or, if there is none, the one that was known beforehand. -/
theorem contains_of_readWith {specification : Specification} {before after : List Line} {body : List Token}
    (reads : Specification.readWith source scope = .ok specification)
    (cut : (TokenStream.of (.ofString source)).lines = before ++ line :: after)
    (words : line.words = .setName name :: .equals :: body) :
    (∃! items : List SetItem, items.flatMap SetItem.tokens = body) ∧
      (∃ set, setBehind source scope (before ++ [line]) name = some set ∧
        ∀ items : List SetItem, items.flatMap SetItem.tokens = body → ∀ c,
          set.contains c = true ↔ ∃ item ∈ items, item.Has (setBehind source scope before) c) ∧
      (∀ other, (∀ earlier ∈ before, ¬ earlier.DefinesSet other) →
        setBehind source scope before other = scope.sets.find? other) ∧
      ∀ other front definition back, before = front ++ definition :: back → definition.DefinesSet other →
        (∀ later ∈ back, ¬ later.DefinesSet other) →
        setBehind source scope before other = setBehind source scope (front ++ [definition]) other := by
  obtain ⟨outcomes, last, run, -⟩ := readWith_eq_ok_iff.1 reads
  rw [cut] at run
  obtain ⟨rules, session, others, first, rest, -⟩ := run.split
  cases rest with
  | @cons _ _ _ _ _ statement stated _ =>
    obtain ⟨items, set, written, union, rfl⟩ := statement_eq_setDefinition stated words
    have current : setBehind source scope before = session.scope.sets.find? :=
      funext (setBehind_eq first)
    refine ⟨⟨items, written, fun _ same => SetItem.tokens_injective (same.trans written.symm)⟩,
      ⟨set, ?_, fun others same c => ?_⟩, fun other undefined => ?_, ?_⟩
    · rw [setBehind_eq (first.append (.cons stated .nil))]
      simp [Session.afterLine, Statement.after, Statement.scopeAfter, Scope.defineSet]
    · obtain rfl := SetItem.tokens_injective (same.trans written.symm)
      rw [current]
      exact SetItem.contains_union_iff union
    · rw [current]
      exact first.find?_eq undefined
    · rintro other front definition back rfl - undefined
      rw [List.append_cons] at first
      obtain ⟨_, middle, _, front, back, -⟩ := first.split
      rw [current, setBehind_eq front]
      exact back.find?_eq undefined

theorem contains_of_readWith_range :
    ∃ specification first line, Specification.readWith "$a = x\n$a = $a \\n\\t b - \\d" ∅ = .ok specification ∧
      (TokenStream.of (.ofString "$a = x\n$a = $a \\n\\t b - \\d")).lines = [first, line] ∧
      first.words = [.setName "a", .equals, .word "x"] ∧
      line.words = [.setName "a", .equals, .setName "a", .escape 'n', .escape 't', .word "b", .dash, .escape 'd'] ∧
      ∃ set, setBehind "$a = x\n$a = $a \\n\\t b - \\d" ∅ [first, line] "a" = some set ∧
        ∀ c, set.contains c = true ↔ c = 'x' ∨ c = '\n' ∨ c = '\t' ∨ 'b' ≤ c ∧ c ≤ 'd' := by
  have accepted : (Specification.readWith "$a = x\n$a = $a \\n\\t b - \\d" ∅).isOk = true := by decide +kernel
  have words : (TokenStream.of (.ofString "$a = x\n$a = $a \\n\\t b - \\d")).lines.map Line.words =
      [[.setName "a", .equals, .word "x"],
        [.setName "a", .equals, .setName "a", .escape 'n', .escape 't', .word "b", .dash, .escape 'd']] := by
    decide +kernel
  cases reads : Specification.readWith "$a = x\n$a = $a \\n\\t b - \\d" ∅ with
  | error stop =>
    rw [reads] at accepted
    cases accepted
  | ok specification =>
    obtain ⟨first, others, cut, word, rest⟩ := List.map_eq_cons_iff.1 words
    obtain ⟨line, after, rfl, spelled, none⟩ := List.map_eq_cons_iff.1 rest
    obtain rfl := List.map_eq_nil_iff.1 none
    -- the name in the second line has the set of the first one
    obtain ⟨-, ⟨before, known, union⟩, -⟩ := @contains_of_readWith _ _ first "a" _ [] _ _ reads cut word
    rw [List.nil_append] at known
    obtain ⟨-, ⟨set, defined, union'⟩, -⟩ := @contains_of_readWith _ _ line "a" _ [first] [] _ reads cut spelled
    refine ⟨specification, first, line, rfl, cut, word, spelled, set, defined, fun c => ?_⟩
    have x : before.contains c = true ↔ c = 'x' := by
      rw [union [.word "x"] rfl c]
      simp [SetItem.Has]
    rw [union' [.named "a", .escape 'n', .escape 't', .range (.letter 'b') (.escape 'd')] rfl c]
    simp [SetItem.Has, known, x, Literal.means_iff, Literal.char, Token.unescape]

end LexSpec
