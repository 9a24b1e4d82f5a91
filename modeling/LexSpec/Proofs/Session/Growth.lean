import Mathlib.Order.Defs.Unbundled
import LexSpec.Proofs.Definitions
import LexSpec.Proofs.Session.Reachable

/-! # What a computation does to the definitions and the warnings

Computations on a session are composed of primitive steps. Some primitives only look at the session or move its
cursor (`Reading`), the others define, warn or choose a start code (`Writing`). Whatever is composed of them, in
whatever order and with whatever choices on the way: no warning is lost and no name is forgotten, and without
writing primitives nothing but the cursor changes. This holds where a computation comes to its end and where it
stops: `environment_of_composed`.

A reflexive and transitive relation of sessions is respected by all that is composed of primitives that respect
it (`Composed.respects`). So it is enough to look at the primitives, and at the lines of a specification.
-/

namespace LexSpec

variable {α β : Type}

/-! ## Composed computations -/

/-- The primitive steps that leave definitions, start code and warnings alone. -/
inductive Reading : {α : Type} → Step α → Prop where
  | pure {α : Type} (value : α) : Reading (pure value)
  | fail {α : Type} (message : String) : Reading (Step.fail message : Step α)
  | lexError {α : Type} (message : String) : Reading (Step.lexError message : Step α)
  | lookupSet (position : Position) (name : String) : Reading (Step.lookupSet position name)
  | lookupRegex (name : String) : Reading (Step.lookupRegex name)
  | getStartCode : Reading Step.getStartCode
  | getInput : Reading Step.getInput
  | setInput (input : Cursor) : Reading (Step.setInput input)
  /-- Looks for the next lexeme, with any scan whatever. -/
  | lex {α : Type} {scan : Cursor → Nat → Except Fault (Scan α)} {step : Step (Lexeme α)}
      (lexes : Step.LexesBy scan step) : Reading step
  | tokens : Reading Step.tokens

/-- The primitive steps that can change definitions, start code or warnings. -/
inductive Writing : {α : Type} → Step α → Prop where
  | defineSet (name : String) (set : CharSet) : Writing (Step.defineSet name set)
  | defineRegex (name : String) (regex : Regex) : Writing (Step.defineRegex name regex)
  | setStartCode (startCode : Nat) : Writing (Step.setStartCode startCode)
  | warnIfNullable (regex : Regex) (position : Position) : Writing (Step.warnIfNullable regex position)
  | specification : Writing Step.specification

/-- What is composed of primitive steps. A later part can be chosen by the value of an earlier one. -/
inductive Composed (primitive : (α : Type) → Step α → Prop) : {α : Type} → Step α → Prop where
  | primitive {α : Type} {step : Step α} (known : primitive α step) : Composed primitive step
  | andThen {α β : Type} {step : Step α} {next : α → Step β} (first : Composed primitive step)
      (rest : ∀ value, Composed primitive (next value)) : Composed primitive (step >>= next)
  | followedBy {α β : Type} {step : Step α} {next : Step β} (first : Composed primitive step)
      (rest : Composed primitive next) : Composed primitive (step *> next)
  | map {α β : Type} {step : Step α} (f : α → β) (body : Composed primitive step) :
      Composed primitive (f <$> step)
  | sequence {α : Type} {steps : List (Step α)} (parts : ∀ step ∈ steps, Composed primitive step) :
      Composed primitive (Step.sequence steps)

namespace Step

/-- The session behind a run, whether it comes to its end or stops. -/
def sessionBehind (step : Step α) (session : Session) : Session :=
  match step session with
  | .ok _ last => last
  | .error _ last => last

/-- Each run leads from a session to a related one. -/
def Respects (relation : Session → Session → Prop) (step : Step α) : Prop :=
  ∀ session, relation session (step.sessionBehind session)

end Step

/-! ## Relations that runs respect -/

section Respects

variable {relation : Session → Session → Prop} [IsPreorder Session relation] {step : Step α}

namespace Step

theorem respects_pure (value : α) : Respects relation (pure value) := fun session => refl session

theorem Respects.bind {next : α → Step β} (first : Respects relation step)
    (rest : ∀ value, Respects relation (next value)) : Respects relation (step >>= next) := by
  intro session
  have related := first session
  unfold sessionBehind at *
  rw [bind_eq]
  cases run : step session with
  | ok value middle =>
    rw [run] at related
    exact IsTrans.trans _ _ _ related (rest value middle)
  | error stop last =>
    rw [run] at related
    exact related

theorem Respects.map (body : Respects relation step) (f : α → β) : Respects relation (f <$> step) := by
  rw [map_eq_pure_bind]
  exact body.bind fun _ => respects_pure _

theorem respects_sequence {steps : List (Step α)} (parts : ∀ step ∈ steps, Respects relation step) :
    Respects relation (sequence steps) := by
  induction steps with
  | nil => exact respects_pure _
  | cons step steps ih =>
    obtain ⟨first, rest⟩ := List.forall_mem_cons.1 parts
    exact first.bind fun _ => (ih rest).bind fun _ => respects_pure _

end Step

/-- What the primitives respect is respected by all that is composed of them. -/
theorem Composed.respects {primitive : (α : Type) → Step α → Prop} (composed : Composed primitive step)
    (known : ∀ {α : Type} {step : Step α}, primitive α step → step.Respects relation) :
    step.Respects relation := by
  induction composed with
  | primitive holds => exact known holds
  | andThen _ _ first rest => exact first.bind rest
  | followedBy _ _ first rest =>
    rw [seqRight_eq_bind]
    exact first.bind fun _ => rest
  | map f _ body => exact body.map f
  | sequence _ parts => exact Step.respects_sequence parts

end Respects

/-! ## The two relations -/

namespace Session

/-- Warnings are only added, behind those that were there, and no name loses its definition. -/
structure Grows (before after : Session) : Prop where
  warnings : before.warnings <+: after.warnings
  sets : ∀ name, before.scope.sets.contains name → after.scope.sets.contains name
  regexes : ∀ name, before.scope.regexes.contains name → after.scope.regexes.contains name

/-- Only the cursor may differ. -/
structure SameEnvironment (before after : Session) : Prop where
  warnings : after.warnings = before.warnings
  scope : after.scope = before.scope
  startCode : after.startCode = before.startCode

instance : IsPreorder Session Grows where
  refl _ := ⟨List.prefix_refl _, fun _ => id, fun _ => id⟩
  trans _ _ _ first rest := ⟨first.warnings.trans rest.warnings,
    fun name known => rest.sets name (first.sets name known),
    fun name known => rest.regexes name (first.regexes name known)⟩

instance : IsPreorder Session SameEnvironment where
  refl _ := ⟨rfl, rfl, rfl⟩
  trans _ _ _ first rest := ⟨rest.warnings.trans first.warnings, rest.scope.trans first.scope,
    rest.startCode.trans first.startCode⟩

theorem SameEnvironment.grows {before after : Session} (same : SameEnvironment before after) :
    Grows before after := by
  obtain ⟨warnings, scope, -⟩ := same
  exact ⟨warnings ▸ List.prefix_refl _, scope ▸ fun _ => id, scope ▸ fun _ => id⟩

theorem grows_setInput (session : Session) (input : Cursor) : session.Grows { session with input } :=
  ⟨List.prefix_refl _, fun _ => id, fun _ => id⟩

end Session

/-! ## Primitives -/

/-- A reading primitive can move the cursor, and that is all. -/
theorem Reading.respects {step : Step α} (reading : Reading step) : step.Respects Session.SameEnvironment := by
  intro session
  cases reading with
  | pure | fail | lexError | getStartCode | getInput | setInput => exact ⟨rfl, rfl, rfl⟩
  | lookupSet position name =>
    change Session.SameEnvironment session
      ((Step.ofError (session.scope.sets.resolveSet position name)).sessionBehind session)
    cases session.scope.sets.resolveSet position name <;> exact ⟨rfl, rfl, rfl⟩
  | lookupRegex name =>
    change Session.SameEnvironment session
      ((Step.ofError (session.scope.regexes.resolveRegex name)).sessionBehind session)
    cases session.scope.regexes.resolveRegex name <;> exact ⟨rfl, rfl, rfl⟩
  | lex lexes =>
    unfold Step.sessionBehind
    rcases lexes session with ⟨lexeme, final, -, run⟩ | ⟨stop, final, -, run⟩ | ⟨-, run⟩
    all_goals
      rw [run]
      exact ⟨rfl, rfl, rfl⟩
  | tokens =>
    unfold Step.sessionBehind
    simp only [Step.tokens]
    cases (TokenStream.of session.input).stop? <;> exact ⟨rfl, rfl, rfl⟩

theorem Statement.grows_after (statement : Statement) (session : Session) :
    session.Grows (statement.after session) := by
  refine ⟨List.prefix_append _ _, fun name known => ?_, fun name known => ?_⟩
  · cases statement with
    | setDefinition => exact (Definitions.contains_insert ..).2 (.inr known)
    | _ => exact known
  · cases statement with
    | regexDefinition => exact (Definitions.contains_insert ..).2 (.inr known)
    | _ => exact known

/-- A line that cannot be read moves the cursor only. -/
theorem Line.respects_read (line : Line) : line.read.Respects Session.Grows := by
  intro session
  unfold Step.sessionBehind
  cases stated : line.statement session.scope with
  | error refused =>
    rw [Line.read_eq_of_error stated]
    exact session.grows_setInput _
  | ok statement =>
    rw [Line.read_eq_of_statement stated]
    exact IsTrans.trans _ _ _ (session.grows_setInput _) (statement.grows_after _)

theorem Writing.respects {step : Step α} (writing : Writing step) : step.Respects Session.Grows := by
  cases writing with
  | defineSet =>
    exact fun session =>
      ⟨List.prefix_refl _, fun name known => (Definitions.contains_insert ..).2 (.inr known), fun _ => id⟩
  | defineRegex =>
    exact fun session =>
      ⟨List.prefix_refl _, fun _ => id, fun name known => (Definitions.contains_insert ..).2 (.inr known)⟩
  | setStartCode => exact fun session => ⟨List.prefix_refl _, fun _ => id, fun _ => id⟩
  | warnIfNullable regex position =>
    intro session
    unfold Step.warnIfNullable
    split
    · exact ⟨List.prefix_append _ _, fun _ => id, fun _ => id⟩
    · exact refl session
  | specification =>
    have lines (input : Cursor) : ∀ step ∈ (TokenStream.of input).lines.map Line.read,
        step.Respects Session.Grows :=
      List.forall_mem_map.2 fun line _ => line.respects_read
    have getInput : Step.getInput.Respects Session.Grows := fun session => refl session
    exact getInput.bind fun input =>
      (Step.respects_sequence (lines input)).bind fun _ => Step.respects_pure _

/-- Whatever is composed of primitive steps, whether it comes to its end or stops: the warnings before are the
    first of those behind, and each name that was defined is still defined. If nothing in it defines, warns,
    chooses a start code or reads a specification, then definitions, start code and warnings are what they
    were. -/
theorem environment_of_composed {step : Step α} :
    (Composed (fun _ step => Reading step ∨ Writing step) step →
      ∀ session : Session, session.Grows (step.sessionBehind session)) ∧
    (Composed (fun _ step => Reading step) step →
      ∀ session : Session, session.SameEnvironment (step.sessionBehind session)) := by
  constructor
  · intro composed
    exact composed.respects fun primitive =>
      primitive.elim (fun reading session => (reading.respects session).grows) Writing.respects
  · exact fun composed => composed.respects Reading.respects

/-- The second line of the text cannot be read. The warning of the first one stays. -/
theorem environment_of_composed_stopped :
    (∃ step : Step (List Rule), Composed (fun _ step => Reading step ∨ Writing step) step ∧
      (Session.start "x :- %m\n%m" ∅).Grows (step.sessionBehind (.start "x :- %m\n%m" ∅)) ∧
      (step.sessionBehind (.start "x :- %m\n%m" ∅)).warnings = [.nullableRegex ⟨5, 1, 6⟩ "a*"]) ∧
    ∃ step : Step Unit, Composed (fun _ step => Reading step) step ∧
      (Session.start "x :- %m\n%m" ∅).SameEnvironment (step.sessionBehind (.start "x :- %m\n%m" ∅)) :=
  have writes : Composed (fun _ step => Reading step ∨ Writing step)
      (Step.defineRegex "m" (.star (.char 'a')) *> Step.specification) :=
    .followedBy (.primitive (.inr (.defineRegex ..))) (.primitive (.inr .specification))
  have reads : Composed (fun _ step => Reading step)
      (Step.getInput >>= fun input => Step.lexToken Token.scanner >>= fun _ => Step.setInput input) :=
    .andThen (.primitive .getInput) fun _ =>
      .andThen (.primitive (.lex (Step.lexesBy_lexToken _))) fun _ => .primitive (.setInput _)
  ⟨⟨_, writes, environment_of_composed.1 writes _, by decide +kernel⟩, _, reads,
    environment_of_composed.2 reads _⟩

end LexSpec
