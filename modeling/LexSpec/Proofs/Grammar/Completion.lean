import LexSpec.Line.Statement
import LexSpec.Proofs.Agreement
import LexSpec.Proofs.Grammar.ExpressionReading

/-! # Lines that can still be completed

The readers of tokens look at no token before they have to, and they go on as long as there is a way to go on.
So where a reader does not expect a token, the tokens before it can be completed, and where it needs another
one, there is one to be had: `ViableAt`. A line needs few tokens to be completed (`closers`): a word where an
item is missing, a parenthesis for each open group and the sign behind the name that it begins with.

* `viableAt_foldlM`: a reader that folds over its tokens, if all its states can be completed.
* `viableAt_statement`: the tokens of a line.
-/

namespace LexSpec

/-- The refusal is about a token. If it misses a definition, the token is the name of that. -/
def Refusal.IsAbout (found : PlacedToken) : Refusal → Prop
  | unexpected other => other = found
  | incomplete => False
  | unknownSet other name => other = found ∧ found.token = .setName name
  | unknownRegex other name => other = found ∧ found.token = .regexName name

namespace Grammar

variable {α β : Type} {scope : Scope}

/-- The tokens that lines are completed with. -/
def closers : List Token := [.word "a", .closeParen, .equals, .turnstile]

/-- Tokens are accepted when they are followed by certain others, of which not many are needed. -/
def Completable (read : List PlacedToken → Except Refusal α) (front : List PlacedToken) : Prop :=
  ∃ words : List Token, words ⊆ closers ∧ words.length ≤ front.length + 2 ∧
    ∀ more : List PlacedToken, more.map (·.token) = words → ∃ value, read (front ++ more) = .ok value

/-- If a reader does not expect a token, what comes before it can be completed and what comes behind it does
    not matter. If it needs another token, there is a way to go on. -/
structure ViableAt (read : List PlacedToken → Except Refusal α) (tokens : List PlacedToken) : Prop where
  unexpected : ∀ {found}, read tokens = .error (.unexpected found) → ∃ front back,
    tokens = front ++ found :: back ∧ Completable read front ∧
      ∀ more, read (front ++ found :: more) = .error (.unexpected found)
  incomplete : read tokens = .error .incomplete → Completable read tokens

section Readers

variable {read : List PlacedToken → Except Refusal α} {read' : List PlacedToken → Except Refusal β}
  {front tokens : List PlacedToken}

theorem completable_of_eq_ok {value : α} (reads : read front = .ok value) : Completable read front := by
  refine ⟨[], List.nil_subset _, Nat.zero_le _, fun more none => ⟨value, ?_⟩⟩
  rw [List.map_eq_nil_iff.1 none, List.append_nil]
  exact reads

theorem viableAt_of_eq_ok {value : α} (reads : read tokens = .ok value) : ViableAt read tokens := by
  constructor
  · intro found refused
    rw [reads] at refused
    cases refused
  · intro refused
    rw [reads] at refused
    cases refused

theorem viableAt_of_unexpected {found : PlacedToken} (completable : Completable read front)
    (refuses : ∀ more, read (front ++ found :: more) = .error (.unexpected found))
    (back : List PlacedToken) : ViableAt read (front ++ found :: back) := by
  constructor
  · intro other refused
    rw [refuses] at refused
    cases refused
    exact ⟨front, back, rfl, completable, refuses⟩
  · intro refused
    rw [refuses] at refused
    cases refused

theorem Completable.map (completable : Completable read tokens)
    (maps : ∀ more, ∃ f : α → β, read' more = f <$> read more) : Completable read' tokens := by
  obtain ⟨words, known, few, accepts⟩ := completable
  refine ⟨words, known, few, fun more written => ?_⟩
  obtain ⟨value, reads⟩ := accepts more written
  obtain ⟨f, same⟩ := maps (tokens ++ more)
  exact ⟨f value, by rw [same, reads]; rfl⟩

theorem map_eq_error_iff {f : α → β} {result : Except Refusal α} {refusal : Refusal} :
    f <$> result = .error refusal ↔ result = .error refusal := by
  cases result <;> simp [Functor.map, Except.map]

/-- What is made of the value does not matter. -/
theorem ViableAt.map (viable : ViableAt read tokens)
    (maps : ∀ more, ∃ f : α → β, read' more = f <$> read more) : ViableAt read' tokens := by
  have same : ∀ {more : List PlacedToken} {refusal : Refusal},
      read' more = .error refusal ↔ read more = .error refusal := by
    intro more refusal
    obtain ⟨f, same⟩ := maps more
    rw [same, map_eq_error_iff]
  constructor
  · intro found refused
    obtain ⟨front, back, cut, completable, refuses⟩ := viable.unexpected (same.1 refused)
    exact ⟨front, back, cut, completable.map maps, fun more => same.2 (refuses more)⟩
  · exact fun refused => (viable.incomplete (same.1 refused)).map maps

theorem Completable.append {read' : List PlacedToken → Except Refusal α}
    (completable : Completable read tokens) (reads : ∀ more, read' (front ++ more) = read more) :
    Completable read' (front ++ tokens) := by
  obtain ⟨words, known, few, accepts⟩ := completable
  refine ⟨words, known, by rw [List.length_append]; omega, fun more written => ?_⟩
  rw [List.append_assoc, reads]
  exact accepts more written

theorem ViableAt.append {read' : List PlacedToken → Except Refusal α} (viable : ViableAt read tokens)
    (reads : ∀ more, read' (front ++ more) = read more) : ViableAt read' (front ++ tokens) := by
  constructor
  · intro found refused
    rw [reads] at refused
    obtain ⟨before, back, rfl, completable, refuses⟩ := viable.unexpected refused
    refine ⟨front ++ before, back, (List.append_assoc ..).symm, completable.append reads, fun more => ?_⟩
    rw [List.append_assoc, reads]
    exact refuses more
  · intro refused
    rw [reads] at refused
    exact (viable.incomplete refused).append reads

/-- A reader that folds over its tokens refuses a token on its own account, and at the end only what is
    incomplete. So it is enough that all its states can be completed. -/
theorem viableAt_foldlM {σ : Type} {next : σ → PlacedToken → Except Refusal σ} {start : σ}
    {finish : σ → Except Refusal α}
    (refuses : ∀ {state found refusal}, next state found = .error refusal → refusal.IsAbout found)
    (finishes : ∀ {state refusal}, finish state = .error refusal → refusal = .incomplete)
    (completes : ∀ {front state}, front.foldlM next start = .ok state →
      Completable (fun tokens => tokens.foldlM next start >>= finish) front)
    (tokens : List PlacedToken) : ViableAt (fun tokens => tokens.foldlM next start >>= finish) tokens := by
  constructor
  · intro found refused
    rcases bind_eq_error_iff.1 refused with broken | ⟨state, -, broken⟩
    · obtain ⟨front, other, back, state, rfl, reached, broken⟩ := foldlM_eq_error_iff.1 broken
      obtain rfl : found = other := refuses broken
      refine ⟨front, back, rfl, completes reached, fun more => ?_⟩
      exact bind_eq_error_iff.2 (.inl (foldlM_eq_error_iff.2 ⟨_, _, more, state, rfl, reached, broken⟩))
    · cases finishes broken
  · intro refused
    rcases bind_eq_error_iff.1 refused with broken | ⟨state, reached, -⟩
    · obtain ⟨front, other, back, state, -, -, broken⟩ := foldlM_eq_error_iff.1 broken
      exact (refuses broken).elim
    · exact completes reached

end Readers

/-! ## Expressions -/

theorem OpenGroups.isAbout_of_next {groups : OpenGroups} {found : PlacedToken} {refusal : Refusal}
    (refused : groups.next scope found = .error refusal) : refusal.IsAbout found := by
  have unexpected : ∀ {groups? : Option OpenGroups},
      OpenGroups.next.orUnexpected found groups? = .error refusal → refusal.IsAbout found := by
    intro groups? refused
    cases groups? <;> cases refused
    rfl
  unfold OpenGroups.next at refused
  cases token : found.token with
  | setName name | regexName name =>
    simp only [token] at refused
    split at refused <;> cases refused
    exact ⟨rfl, token⟩
  | closeParen | bar | star | plus | question =>
    simp only [token] at refused
    exact unexpected refused
  | word | escape | dot | openParen =>
    simp only [token] at refused
    cases refused
  | startCode | equals | turnstile | dash | newline =>
    simp only [token] at refused
    cases refused
    rfl

theorem length_le_of_outerSpelled {outer : List OpenGroup} {tokens : List Token}
    (spelled : OuterSpelled scope outer tokens) : outer.length ≤ tokens.length := by
  induction outer generalizing tokens with
  | nil => exact Nat.zero_le _
  | cons group outer ih =>
    obtain ⟨before, inside, rest, -, rfl⟩ := spelled
    have shorter := ih rest
    simp only [List.length_cons, List.length_append]
    omega

/-- Groups with an item in the innermost one need nothing but to be closed. -/
theorem exists_value_of_closeParens {groups : OpenGroups} (nonempty : groups.inner.items ≠ [])
    {more : List PlacedToken}
    (written : more.map (·.token) = List.replicate groups.outer.length .closeParen) :
    ∃ regex, (more.foldlM (OpenGroups.next scope) groups >>= OpenGroups.finish) = .ok regex := by
  obtain ⟨inner, outer⟩ := groups
  obtain ⟨value, complete⟩ : ∃ value, inner.value? = some value :=
    ⟨_, OpenGroup.value?_eq_some_iff.2 ⟨nonempty, rfl⟩⟩
  induction outer generalizing inner more value with
  | nil =>
    obtain rfl := List.map_eq_nil_iff.1 written
    refine ⟨value, ?_⟩
    change OpenGroups.finish ⟨inner, []⟩ = _
    simp only [OpenGroups.finish, complete]
  | cons around outer ih =>
    obtain ⟨first, rest, rfl, token, written⟩ := List.map_eq_cons_iff.1 written
    have notStart : inner ≠ .start := fun start => nonempty (by rw [start]; rfl)
    have step : OpenGroups.next scope ⟨inner, around :: outer⟩ first = .ok ⟨around.push value, outer⟩ := by
      simp only [OpenGroups.next, token, OpenGroups.close?, notStart, if_false, complete]
      rfl
    rw [List.foldlM_cons, step]
    exact ih _ (List.cons_ne_nil _ _) written _
      (OpenGroup.value?_eq_some_iff.2 ⟨List.cons_ne_nil _ _, rfl⟩)

theorem completable_expression {front : List PlacedToken} {groups : OpenGroups}
    (reads : front.foldlM (OpenGroups.next scope) .start = .ok groups) :
    Completable (Regex.ofTokens scope) front := by
  obtain ⟨before, inside, outer, -, written⟩ := groupsSpelled_of_foldlM reads
  have few := length_le_of_outerSpelled outer
  have total : front.length = before.length + inside.length := by
    simpa using congrArg List.length written
  refine ⟨.word "a" :: List.replicate groups.outer.length .closeParen, ?_, ?_, fun more written => ?_⟩
  · refine List.cons_subset.2 ⟨by simp [closers], fun token member => ?_⟩
    rw [List.eq_of_mem_replicate member]
    simp [closers]
  · simp only [List.length_cons, List.length_replicate]
    omega
  · obtain ⟨first, rest, rfl, token, written⟩ := List.map_eq_cons_iff.1 written
    have step : OpenGroups.next scope groups first = .ok (groups.push (.ofString "a")) := by
      simp only [OpenGroups.next, token]
    change ∃ value, ((front ++ first :: rest).foldlM (OpenGroups.next scope) .start >>= OpenGroups.finish) = _
    rw [List.foldlM_append, reads]
    change ∃ value, (List.foldlM (OpenGroups.next scope) groups (first :: rest) >>= _) = _
    rw [List.foldlM_cons, step]
    exact exists_value_of_closeParens (List.cons_ne_nil _ _) written

/-- At its end an expression can only be incomplete. -/
theorem OpenGroups.eq_incomplete_of_finish {groups : OpenGroups} {refusal : Refusal}
    (refused : groups.finish = .error refusal) : refusal = .incomplete := by
  unfold OpenGroups.finish at refused
  split at refused <;> cases refused
  rfl

theorem viableAt_expression (tokens : List PlacedToken) : ViableAt (Regex.ofTokens scope) tokens :=
  viableAt_foldlM OpenGroups.isAbout_of_next OpenGroups.eq_incomplete_of_finish completable_expression tokens

/-! ## Sets -/

theorem SetItems.isAbout_of_beginItem {set : CharSet} {found : PlacedToken} {refusal : Refusal}
    (refused : SetItems.beginItem scope set found = .error refusal) : refusal.IsAbout found := by
  unfold SetItems.beginItem at refused
  cases token : found.token with
  | setName name =>
    simp only [token] at refused
    split at refused <;> cases refused
    exact ⟨rfl, token⟩
  | word text =>
    simp only [token] at refused
    split at refused <;> cases refused
  | escape | dot =>
    simp only [token] at refused
    cases refused
  | _ =>
    simp only [token] at refused
    cases refused
    rfl

theorem SetItems.isAbout_of_next {items : SetItems} {found : PlacedToken} {refusal : Refusal}
    (refused : items.next scope found = .error refusal) : refusal.IsAbout found := by
  unfold SetItems.next at refused
  split at refused
  · exact isAbout_of_beginItem refused
  · split at refused
    · cases refused
    · exact isAbout_of_beginItem refused
  · split at refused <;> cases refused
    rfl

theorem completable_set {front : List PlacedToken} {items : SetItems}
    (reads : front.foldlM (SetItems.next scope) .start = .ok items) :
    Completable (CharSet.ofTokens scope) front := by
  have whole : ∀ more, CharSet.ofTokens scope (front ++ more) =
      (more.foldlM (SetItems.next scope) items >>= SetItems.finish) := by
    intro more
    change ((front ++ more).foldlM (SetItems.next scope) .start >>= SetItems.finish) = _
    rw [List.foldlM_append, reads]
    rfl
  obtain ⟨set, item⟩ := items
  cases item with
  | none | single c =>
    have accepted := whole []
    rw [List.append_nil] at accepted
    exact completable_of_eq_ok accepted
  | rangeFrom low =>
    refine ⟨[.word "a"], by simp [closers], by simp, fun more written => ?_⟩
    obtain ⟨last, rfl, token⟩ := List.map_eq_singleton_iff.1 written
    have step : SetItems.next scope ⟨set, .rangeFrom low⟩ last = .ok ⟨set.union (.range low 'a'), .none⟩ := by
      simp only [SetItems.next, token]
      rfl
    refine ⟨set.union (.range low 'a'), ?_⟩
    rw [whole, List.foldlM_cons, step]
    rfl

/-- At its end a row of items can only be incomplete. -/
theorem SetItems.eq_incomplete_of_finish {items : SetItems} {refusal : Refusal}
    (refused : items.finish = .error refusal) : refusal = .incomplete := by
  unfold SetItems.finish at refused
  split at refused <;> cases refused
  rfl

theorem viableAt_set (tokens : List PlacedToken) : ViableAt (CharSet.ofTokens scope) tokens :=
  viableAt_foldlM SetItems.isAbout_of_next SetItems.eq_incomplete_of_finish completable_set tokens

/-! ## Lines -/

/-- A first token with an expected one behind it and a rest that is read from there. -/
theorem viableAt_expect {read read' : List PlacedToken → Except Refusal α} {first : PlacedToken}
    {expected : Token} (known : expected ∈ closers)
    (reads : ∀ rest, read' (first :: rest) = Statement.expect expected rest >>= read)
    (begins : Completable read []) (viable : ∀ tokens, ViableAt read tokens) (rest : List PlacedToken) :
    ViableAt read' (first :: rest) := by
  have behind : ∀ {second : PlacedToken}, second.token = expected →
      ∀ more, read' ([first, second] ++ more) = read more := by
    intro second token more
    change read' (first :: second :: more) = _
    rw [reads, Statement.expect, if_pos token]
    rfl
  -- the expected token comes first, and then what completes an empty rest
  have completable : Completable read' [first] := by
    obtain ⟨words, closing, few, accepts⟩ := begins
    refine ⟨expected :: words, List.cons_subset.2 ⟨known, closing⟩, ?_, fun more written => ?_⟩
    · simp only [List.length_cons, List.length_nil] at few ⊢
      omega
    · obtain ⟨second, more, rfl, token, written⟩ := List.map_eq_cons_iff.1 written
      obtain ⟨value, accepted⟩ := accepts more written
      exact ⟨value, (behind token more).trans accepted⟩
  cases rest with
  | nil =>
    refine ⟨fun refused => ?_, fun _ => completable⟩
    rw [reads] at refused
    cases refused
  | cons second rest =>
    by_cases token : second.token = expected
    · exact (viable rest).append (behind token)
    · refine @viableAt_of_unexpected _ _ [first] second completable (fun more => ?_) rest
      change read' (first :: second :: more) = _
      rw [reads, Statement.expect, if_neg token]
      rfl

theorem exists_map_ruleOfTokens (name : String) (position : Position) (tokens : List PlacedToken) :
    ∃ f : Regex → Statement,
      Statement.ruleOfTokens scope name position tokens = f <$> Regex.ofTokens scope tokens := by
  cases tokens with
  | nil => exact ⟨fun _ => .blank, rfl⟩
  | cons first rest => exact ⟨(.rule name position · first.position), rfl⟩

theorem viableAt_statement (tokens : List PlacedToken) : ViableAt (Statement.ofTokens scope) tokens := by
  cases tokens with
  | nil => exact viableAt_of_eq_ok rfl
  | cons first rest =>
    have blank : Statement.ofTokens scope [] = .ok .blank := rfl
    have unexpected (refuses : ∀ more, Statement.ofTokens scope (first :: more) = .error (.unexpected first)) :
        ViableAt (Statement.ofTokens scope) (first :: rest) :=
      @viableAt_of_unexpected _ _ [] first (completable_of_eq_ok blank) refuses rest
    have reads (more : List PlacedToken) := Statement.ofTokens.eq_2 scope first more
    cases token : first.token with
    | setName name =>
      simp only [token] at reads
      have maps (more : List PlacedToken) : ∃ f : CharSet → Statement,
          (do return .setDefinition name (← CharSet.ofTokens scope more)) =
            f <$> CharSet.ofTokens scope more := ⟨_, rfl⟩
      exact viableAt_expect (by simp [closers]) reads ((completable_set rfl).map maps)
        (fun tokens => (viableAt_set tokens).map maps) rest
    | regexName name =>
      simp only [token] at reads
      have maps (more : List PlacedToken) : ∃ f : Regex → Statement,
          (do return .regexDefinition name (← Regex.ofTokens scope more)) =
            f <$> Regex.ofTokens scope more := ⟨_, rfl⟩
      exact viableAt_expect (by simp [closers]) reads ((completable_expression rfl).map maps)
        (fun tokens => (viableAt_expression tokens).map maps) rest
    | word name =>
      simp only [token] at reads
      have maps := @exists_map_ruleOfTokens scope name first.position
      exact viableAt_expect (by simp [closers]) reads ((completable_expression rfl).map maps)
        (fun tokens => (viableAt_expression tokens).map maps) rest
    | startCode number =>
      simp only [token] at reads
      cases rest with
      | nil => exact viableAt_of_eq_ok (reads [])
      | cons second rest =>
        exact @viableAt_of_unexpected _ _ [first] second (completable_of_eq_ok (reads []))
          (fun more => reads (second :: more)) rest
    | _ =>
      simp only [token] at reads
      exact unexpected reads

end Grammar

end LexSpec
