import Mathlib.Data.List.ReduceOption
import Mathlib.Data.Option.Basic
import LexSpec.Proofs.Agreement
import LexSpec.Proofs.Line.Reading

/-! # The same in other places

Tokens, lines, rules and messages of two texts are alike under a relation of positions when they differ in
nothing but where they are. Reading does not look at places, so lines that are alike are read alike from
sessions that are: `sequence_agree`.
-/

namespace LexSpec

variable (related : Position → Position → Prop)

structure PlacedToken.Like (found other : PlacedToken) : Prop where
  token : found.token = other.token
  text : found.text = other.text
  position : related found.position other.position
  behind : related found.behind.position other.behind.position

inductive Refusal.Like : Refusal → Refusal → Prop where
  | unexpected {found other : PlacedToken} (alike : found.Like related other) :
      Like (.unexpected found) (.unexpected other)
  | incomplete : Like .incomplete .incomplete
  | unknownSet {found other : PlacedToken} {name : String} (alike : found.Like related other) :
      Like (.unknownSet found name) (.unknownSet other name)
  | unknownRegex {found other : PlacedToken} {name : String} (alike : found.Like related other) :
      Like (.unknownRegex found name) (.unknownRegex other name)

structure TextError.Like (e f : TextError) : Prop where
  kind : e.kind = f.kind
  position : Option.Rel related e.position f.position
  message : e.message = f.message

inductive Stop.Like : Stop → Stop → Prop where
  | error {e f : TextError} (alike : e.Like related f) : Like (.error e) (.error f)
  | fault {fault : Fault} : Like (.fault fault) (.fault fault)

inductive Warning.Like : Warning → Warning → Prop where
  | nullableRegex {p q : Position} {regex : String} (position : related p q) :
      Like (.nullableRegex p regex) (.nullableRegex q regex)

structure Rule.Like (rule other : Rule) : Prop where
  startCode : rule.startCode = other.startCode
  name : rule.name = other.name
  regex : rule.regex = other.regex
  position : related rule.position other.position

inductive Statement.Like : Statement → Statement → Prop where
  | blank : Like .blank .blank
  | setDefinition {name : String} {set : CharSet} : Like (.setDefinition name set) (.setDefinition name set)
  | regexDefinition {name : String} {regex : Regex} :
      Like (.regexDefinition name regex) (.regexDefinition name regex)
  | startCode {number : Nat} : Like (.startCode number) (.startCode number)
  | rule {name : String} {regex : Regex} {p q body body' : Position} (position : related p q)
      (start : related body body') : Like (.rule name p regex body) (.rule name q regex body')

inductive LineEnd.Like : LineEnd → LineEnd → Prop where
  | newline {behind other : Cursor} (position : related behind.position other.position) :
      Like (.newline behind) (.newline other)
  | endOfFile {final other : Cursor} (position : related final.position other.position) :
      Like (.endOfFile final) (.endOfFile other)
  | stopped {stop stop' : Stop} {final other : Cursor} (alike : stop.Like related stop') :
      Like (.stopped stop final) (.stopped stop' other)

structure Line.Like (line other : Line) : Prop where
  tokens : List.Forall₂ (PlacedToken.Like related) line.tokens other.tokens
  ending : line.ending.Like related other.ending

/-- Sessions that agree in what has been defined. The other session may have been given warnings
    earlier. -/
structure Session.Like (earlier : List Warning) (session other : Session) : Prop where
  scope : session.scope = other.scope
  startCode : session.startCode = other.startCode
  warnings : ∃ given, other.warnings = earlier ++ given ∧
    List.Forall₂ (Warning.Like related) session.warnings given

/-- Results of steps that give values related by `given`, or stop for reasons that are alike. -/
inductive ResultLike {α : Type} (earlier : List Warning) (given : α → α → Prop) :
    EStateM.Result Stop Session α → EStateM.Result Stop Session α → Prop where
  | ok {value other : α} {last last' : Session} (values : given value other)
      (sessions : last.Like related earlier last') : ResultLike earlier given (.ok value last) (.ok other last')
  | error {stop stop' : Stop} {last last' : Session} (stops : stop.Like related stop')
      (sessions : last.Like related earlier last') :
      ResultLike earlier given (.error stop last) (.error stop' last')

/-! ## Everything is like itself -/

section Itself

variable {related} (itself : ∀ p, related p p)

include itself

theorem PlacedToken.like_itself (found : PlacedToken) : found.Like related found :=
  ⟨rfl, rfl, itself _, itself _⟩

theorem Stop.like_itself (stop : Stop) : stop.Like related stop := by
  cases stop with
  | fault => exact .fault
  | error e =>
    refine .error ⟨rfl, ?_, rfl⟩
    cases e.position with
    | none => exact .none
    | some position => exact .some (itself position)

theorem LineEnd.like_itself (ending : LineEnd) : ending.Like related ending := by
  cases ending with
  | newline => exact .newline (itself _)
  | endOfFile => exact .endOfFile (itself _)
  | stopped => exact .stopped (Stop.like_itself itself _)

end Itself

/-! ## What the tokens of a line say -/

section Tokens

variable {related} {scope : Scope} {found other : PlacedToken} {tokens others : List PlacedToken}

theorem OpenGroups.orUnexpected_agree (alike : found.Like related other) (groups? : Option OpenGroups) :
    Agree (Refusal.Like related) Eq (next.orUnexpected found groups?)
      (next.orUnexpected other groups?) := by
  cases groups? with
  | none => exact .error (.unexpected alike)
  | some groups => exact .ok rfl

theorem OpenGroups.next_agree (alike : found.Like related other) (groups : OpenGroups) :
    Agree (Refusal.Like related) Eq (groups.next scope found) (groups.next scope other) := by
  unfold OpenGroups.next
  rw [← alike.token]
  cases found.token with
  | setName name =>
    dsimp only
    cases scope.sets.find? name with
    | none => exact .error (.unknownSet alike)
    | some set => exact .ok rfl
  | regexName name =>
    dsimp only
    cases scope.regexes.find? name with
    | none => exact .error (.unknownRegex alike)
    | some regex => exact .ok rfl
  | word | escape | dot | openParen => exact .ok rfl
  | closeParen | bar | star | plus | question => exact orUnexpected_agree alike _
  | startCode | equals | turnstile | dash | newline => exact .error (.unexpected alike)

theorem Regex.ofTokens_agree (alike : List.Forall₂ (PlacedToken.Like related) tokens others) :
    Agree (Refusal.Like related) Eq (Regex.ofTokens scope tokens) (Regex.ofTokens scope others) := by
  -- the groups stay equal all along, only a refusal tells the two apart
  apply (Agree.foldlM alike ?_ rfl).bind
  · intro groups groups' same
    subst same
    unfold OpenGroups.finish
    split
    · exact .ok rfl
    · exact .error .incomplete
  · intro groups groups' found other same like
    subst same
    exact OpenGroups.next_agree like groups

theorem SetItems.beginItem_agree (alike : found.Like related other) (set : CharSet) :
    Agree (Refusal.Like related) Eq (beginItem scope set found) (beginItem scope set other) := by
  unfold SetItems.beginItem
  rw [← alike.token]
  cases found.token with
  | setName name =>
    dsimp only
    cases scope.sets.find? name with
    | none => exact .error (.unknownSet alike)
    | some set => exact .ok rfl
  | word text =>
    dsimp only
    split
    · exact .ok rfl
    · exact .ok rfl
  | escape | dot => exact .ok rfl
  | _ => exact .error (.unexpected alike)

theorem SetItems.next_agree (alike : found.Like related other) (items : SetItems) :
    Agree (Refusal.Like related) Eq (items.next scope found) (items.next scope other) := by
  unfold SetItems.next
  rw [← alike.token]
  split
  · exact beginItem_agree alike _
  · split
    · exact .ok rfl
    · exact beginItem_agree alike _
  · split
    · exact .ok rfl
    · exact .error (.unexpected alike)

theorem CharSet.ofTokens_agree (alike : List.Forall₂ (PlacedToken.Like related) tokens others) :
    Agree (Refusal.Like related) Eq (CharSet.ofTokens scope tokens) (CharSet.ofTokens scope others) := by
  apply (Agree.foldlM alike ?_ rfl).bind
  · intro items items' same
    subst same
    unfold SetItems.finish
    split
    · exact .error .incomplete
    · exact .ok rfl
  · intro items items' found other same like
    subst same
    exact SetItems.next_agree like items

namespace Statement

theorem expect_agree {token : Token}
    (alike : List.Forall₂ (PlacedToken.Like related) tokens others) :
    Agree (Refusal.Like related) (List.Forall₂ (PlacedToken.Like related)) (expect token tokens)
      (expect token others) := by
  cases alike with
  | nil => exact .error .incomplete
  | cons head rest =>
    simp only [expect, head.token]
    split
    · exact .ok rest
    · exact .error (.unexpected head)

theorem ruleOfTokens_agree {name : String} {p q : Position} (position : related p q)
    (alike : List.Forall₂ (PlacedToken.Like related) tokens others) :
    Agree (Refusal.Like related) (Statement.Like related) (ruleOfTokens scope name p tokens)
      (ruleOfTokens scope name q others) := by
  cases alike with
  | nil => exact .error .incomplete
  | cons head rest =>
    apply (Regex.ofTokens_agree (.cons head rest)).bind
    intro regex regex' same
    subst same
    exact .ok (.rule position head.position)

theorem ofTokens_agree (alike : List.Forall₂ (PlacedToken.Like related) tokens others) :
    Agree (Refusal.Like related) (Statement.Like related) (ofTokens scope tokens)
      (ofTokens scope others) := by
  cases alike with
  | nil => exact .ok .blank
  | @cons first first' rest rest' head tail =>
    simp only [Statement.ofTokens, ← head.token]
    cases first.token with
    | setName name =>
      apply (expect_agree tail).bind
      intro body body' like
      apply (CharSet.ofTokens_agree like).bind
      intro set set' same
      subst same
      exact .ok .setDefinition
    | regexName name =>
      apply (expect_agree tail).bind
      intro body body' like
      apply (Regex.ofTokens_agree like).bind
      intro regex regex' same
      subst same
      exact .ok .regexDefinition
    | startCode number =>
      cases tail with
      | nil => exact .ok .startCode
      | cons next _ => exact .error (.unexpected next)
    | word name =>
      exact (expect_agree tail).bind fun body body' like => ruleOfTokens_agree head.position like
    | _ => exact .error (.unexpected head)

end Statement

end Tokens

/-! ## What is read -/

section Reading

variable {related} {earlier : List Warning} {session other : Session}

theorem stopLike_unexpectedToken {text : String} {behind behind' : Cursor}
    (position : related behind.position behind'.position) :
    (unexpectedToken text behind).Like related (unexpectedToken text behind') :=
  .error ⟨rfl, .some position, rfl⟩

theorem LineEnd.earlyEnd_like {ending ending' : LineEnd} (alike : ending.Like related ending') :
    (Line.earlyEnd ending).Like related (Line.earlyEnd ending') := by
  cases alike with
  | newline position => exact stopLike_unexpectedToken position
  | endOfFile position => exact .error ⟨rfl, .some position, rfl⟩
  | stopped alike => exact alike

theorem Line.refuse_like {line line' : Line} {refusal refusal' : Refusal}
    (lines : line.Like related line') (refusals : refusal.Like related refusal') :
    (line.refuse refusal).1.Like related (line'.refuse refusal').1 := by
  cases refusals with
  | unexpected alike =>
    simp only [Line.refuse, alike.text]
    exact stopLike_unexpectedToken alike.behind
  | incomplete => exact LineEnd.earlyEnd_like lines.ending
  | unknownSet alike => exact .error ⟨rfl, .some alike.position, rfl⟩
  | unknownRegex alike => exact .error ⟨rfl, .none, rfl⟩

theorem Line.Like.statement_agree {line line' : Line} (alike : line.Like related line') (scope : Scope) :
    Agree (fun stop stop' => stop.1.Like related stop'.1) (Statement.Like related) (line.statement scope)
      (line'.statement scope) := by
  have statements : Agree (Refusal.Like related) (Statement.Like related)
      (Statement.ofTokens scope line.tokens) (Statement.ofTokens scope line'.tokens) :=
    Statement.ofTokens_agree alike.tokens
  unfold Line.statement
  generalize Statement.ofTokens scope line.tokens = result at statements ⊢
  generalize Statement.ofTokens scope line'.tokens = result' at statements ⊢
  cases statements with
  | error refusals => exact .error (Line.refuse_like alike refusals)
  | ok values =>
    have endings := alike.ending
    generalize line.ending = ending at endings ⊢
    generalize line'.ending = ending' at endings ⊢
    cases endings with
    | newline | endOfFile => exact .ok values
    | stopped stops => exact .error stops

theorem Statement.Like.warnings {statement statement' : Statement}
    (alike : statement.Like related statement') :
    List.Forall₂ (Warning.Like related) statement.warnings statement'.warnings := by
  cases alike with
  | rule position start =>
    simp only [Statement.warnings]
    split
    · exact .cons (.nullableRegex start) .nil
    · exact .nil
  | _ => exact .nil

theorem Session.Like.setInput (alike : session.Like related earlier other) (input input' : Cursor) :
    Session.Like related earlier { session with input } { other with input := input' } :=
  ⟨alike.scope, alike.startCode, alike.warnings⟩

theorem Statement.Like.rule? {statement statement' : Statement}
    (alike : statement.Like related statement') {startCode startCode' : Nat}
    (same : startCode = startCode') :
    Option.Rel (Rule.Like related) (statement.rule? startCode) (statement'.rule? startCode') := by
  cases alike with
  | rule position => exact .some ⟨same, rfl, rfl, position⟩
  | _ => exact .none

theorem Statement.Like.after {statement statement' : Statement}
    (statements : statement.Like related statement') (sessions : session.Like related earlier other) :
    (statement.after session).Like related earlier (statement'.after other) := by
  obtain ⟨given, shape, warnings⟩ := sessions.warnings
  have scope : statement.scopeAfter session.scope = statement'.scopeAfter other.scope := by
    rw [sessions.scope]
    cases statements <;> rfl
  have startCode :
      statement.startCodeAfter session.startCode = statement'.startCodeAfter other.startCode := by
    rw [sessions.startCode]
    cases statements <;> rfl
  refine ⟨scope, startCode, given ++ statement'.warnings, ?_, ?_⟩
  · simp only [Statement.after, shape, List.append_assoc]
  · exact List.rel_append warnings statements.warnings

theorem Line.Like.read_agree {line line' : Line} (lines : line.Like related line')
    (sessions : session.Like related earlier other) :
    ResultLike related earlier (Option.Rel (Rule.Like related)) (line.read session)
      (line'.read other) := by
  have statements := lines.statement_agree session.scope
  generalize stated : line.statement session.scope = result at statements
  rw [sessions.scope] at statements
  generalize stated' : line'.statement other.scope = result' at statements
  cases statements with
  | error stops =>
    rw [Line.read_eq_of_error stated, Line.read_eq_of_error stated']
    exact .error stops (sessions.setInput _ _)
  | @ok statement statement' alike =>
    rw [Line.read_eq_of_statement stated, Line.read_eq_of_statement stated']
    exact .ok (alike.rule? sessions.startCode) (alike.after (sessions.setInput _ _))

/-- Lines that are alike are read alike. -/
theorem sequence_agree {lines lines' : List Line} (alike : List.Forall₂ (Line.Like related) lines lines')
    (sessions : session.Like related earlier other) :
    ResultLike related earlier (List.Forall₂ (Option.Rel (Rule.Like related)))
      (Step.sequence (lines.map Line.read) session) (Step.sequence (lines'.map Line.read) other) := by
  induction alike generalizing session other with
  | nil => exact .ok .nil sessions
  | @cons line line' lines lines' head _ ih =>
    simp only [List.map_cons]
    have first := head.read_agree sessions
    generalize read : line.read session = result at first
    generalize read' : line'.read other = result' at first
    cases first with
    | error stops last =>
      rw [Step.sequence_cons_of_error read, Step.sequence_cons_of_error read']
      exact .error stops last
    | @ok value value' middle middle' values middles =>
      rw [Step.sequence_cons_of_ok read, Step.sequence_cons_of_ok read']
      have rest := ih middles
      generalize Step.sequence (lines.map Line.read) middle = others at rest ⊢
      generalize Step.sequence (lines'.map Line.read) middle' = others' at rest ⊢
      cases rest with
      | error stops last => exact .error stops last
      | ok rules last => exact .ok (.cons values rules) last

end Reading

/-! ## Moved by a function

Where the place in the one text fixes the place in the other, what is alike is the same with every place
moved. -/

def TextError.move (place : Position → Position) (e : TextError) : TextError :=
  { e with position := e.position.map place }

def Stop.move (place : Position → Position) : Stop → Stop
  | .error e => .error (e.move place)
  | .fault reason => .fault reason

def Warning.move (place : Position → Position) : Warning → Warning
  | nullableRegex position regex => .nullableRegex (place position) regex

def Rule.move (place : Position → Position) (rule : Rule) : Rule :=
  { rule with position := place rule.position }

theorem Stop.move_id (stop : Stop) : stop.move (fun position => position) = stop := by
  cases stop with
  | fault => rfl
  | error e => rw [move, TextError.move, Option.map_id']

theorem Warning.move_id (warning : Warning) : warning.move (fun position => position) = warning := by
  cases warning
  rfl

theorem Rule.move_id (rule : Rule) : rule.move (fun position => position) = rule := rfl

section Moved

variable {place : Position → Position}

theorem Stop.Like.eq_move {stop stop' : Stop} (alike : stop.Like (fun p q => q = place p) stop') :
    stop' = stop.move place := by
  cases alike with
  | fault => rfl
  | @error e f alike =>
    obtain ⟨kind, position, message⟩ := e
    obtain ⟨kind', position', message'⟩ := f
    obtain ⟨sameKind, places, sameMessage⟩ := alike
    cases sameKind
    cases sameMessage
    cases places with
    | none => rfl
    | some moved => rw [moved]; rfl

theorem Warning.Like.eq_move {warning warning' : Warning}
    (alike : warning.Like (fun p q => q = place p) warning') : warning' = warning.move place := by
  cases alike with
  | nullableRegex moved => rw [moved]; rfl

theorem Rule.Like.eq_move {rule rule' : Rule} (alike : rule.Like (fun p q => q = place p) rule') :
    rule' = rule.move place := by
  obtain ⟨startCode, name, regex, position⟩ := rule
  obtain ⟨startCode', name', regex', position'⟩ := rule'
  obtain ⟨sameCode, sameName, sameRegex, moved⟩ := alike
  cases sameCode
  cases sameName
  cases sameRegex
  cases moved
  rfl

theorem warnings_eq_map_move {warnings warnings' : List Warning}
    (alike : List.Forall₂ (Warning.Like fun p q => q = place p) warnings warnings') :
    warnings' = warnings.map (·.move place) := by
  induction alike with
  | nil => rfl
  | cons head _ ih => rw [head.eq_move, ih, List.map_cons]

theorem reduceOption_eq_map_move {rules rules' : List (Option Rule)}
    (alike : List.Forall₂ (Option.Rel (Rule.Like fun p q => q = place p)) rules rules') :
    rules'.reduceOption = rules.reduceOption.map (·.move place) := by
  induction alike with
  | nil => rfl
  | cons head _ ih =>
    cases head with
    | none => exact ih
    | some rule =>
      rw [List.reduceOption_cons_of_some, List.reduceOption_cons_of_some, ih, rule.eq_move, List.map_cons]

theorem Session.Like.eq_move {earlier : List Warning} {session other : Session}
    (alike : session.Like (fun p q => q = place p) earlier other) :
    other = ⟨earlier ++ session.warnings.map (·.move place), session.scope, session.startCode,
      other.input⟩ := by
  obtain ⟨scope, startCode, given, warnings, moved⟩ := alike
  rw [← warnings_eq_map_move moved, ← warnings, scope, startCode]

/-- Lines that are the same at moved places are read as before, and what is told of them is moved. -/
theorem sequence_move {lines lines' : List Line} {earlier : List Warning} {session other : Session}
    (alike : List.Forall₂ (Line.Like fun p q => q = place p) lines lines')
    (sessions : session.Like (fun p q => q = place p) earlier other) :
    (∀ stop last, Step.sequence (lines.map Line.read) session = .error stop last →
      ∃ last', Step.sequence (lines'.map Line.read) other = .error (stop.move place) last') ∧
    ∀ rules last, Step.sequence (lines.map Line.read) session = .ok rules last →
      ∃ rules' input, Step.sequence (lines'.map Line.read) other =
          .ok rules' ⟨earlier ++ last.warnings.map (·.move place), last.scope, last.startCode, input⟩ ∧
        rules'.reduceOption = rules.reduceOption.map (·.move place) := by
  have results := sequence_agree alike sessions
  generalize Step.sequence (lines.map Line.read) session = result at results ⊢
  generalize Step.sequence (lines'.map Line.read) other = result' at results ⊢
  cases results with
  | @error stop stop' last last' stops _ =>
    constructor
    · intro _ _ fails
      cases fails
      exact ⟨last', by rw [stops.eq_move]⟩
    · intro _ _ reads
      cases reads
  | @ok rules rules' last last' values sessions =>
    constructor
    · intro _ _ fails
      cases fails
    · intro _ _ reads
      cases reads
      exact ⟨rules', last'.input, by rw [← sessions.eq_move], reduceOption_eq_map_move values⟩

end Moved

end LexSpec
