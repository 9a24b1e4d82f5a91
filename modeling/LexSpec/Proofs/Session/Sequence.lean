import LexSpec.Session

/-! # Steps one after the other

`Step.sequence` runs the steps of a list, and to run the steps of two lists is to run the one list behind the other.
The first step that stops is the end of it. What this step and those before it have done stays, and the steps behind
it make no difference: `Step.sequence_homomorphism`.

* `Step.Runs`: the steps of a list all come to their end.
* `Step.StopsAt`: the first step that stops, by its place in the list.
* `Step.collect`: the values of the steps asked for one at a time. A step runs only when its value is asked for, and
  nothing is asked for behind a step that stops. This comes to the same as `Step.sequence` (`Step.collect_eq`).
-/

namespace LexSpec

namespace Step

variable {α β : Type}

theorem bind_eq (step : Step α) (next : α → Step β) (session : Session) :
    (step >>= next) session =
      match step session with
      | .ok value middle => next value middle
      | .error stop last => .error stop last := by
  change EStateM.bind step next session = _
  unfold EStateM.bind
  cases step session <;> rfl

theorem map_eq (f : α → β) (step : Step α) (session : Session) :
    (f <$> step) session =
      match step session with
      | .ok value last => .ok (f value) last
      | .error stop last => .error stop last := by
  change EStateM.map f step session = _
  unfold EStateM.map
  cases step session <;> rfl

section Sequence

variable {step : Step α} {steps before after others : List (Step α)} {session middle last : Session} {value : α}
  {values : List α} {stop : Stop} {k : Nat}

theorem sequence_cons_of_ok (first : step session = .ok value middle) :
    sequence (step :: steps) session =
      match sequence steps middle with
      | .ok values last => .ok (value :: values) last
      | .error stop last => .error stop last := by
  rw [sequence, bind_eq, first]
  dsimp only
  rw [bind_eq]
  cases sequence steps middle <;> rfl

theorem sequence_cons_of_error (first : step session = .error stop last) :
    sequence (step :: steps) session = .error stop last := by
  rw [sequence, bind_eq, first]

/-- The steps of two lists, the one behind the other. -/
theorem sequence_append (steps others : List (Step α)) (session : Session) :
    sequence (steps ++ others) session =
      match sequence steps session with
      | .error stop last => .error stop last
      | .ok values middle =>
        match sequence others middle with
        | .error stop last => .error stop last
        | .ok more last => .ok (values ++ more) last := by
  induction steps generalizing session with
  | nil =>
    have nothing : sequence ([] : List (Step α)) session = .ok [] session := rfl
    rw [nothing, List.nil_append]
    dsimp only
    cases sequence others session <;> rfl
  | cons step steps ih =>
    rw [List.cons_append]
    cases first : step session with
    | error stop last => rw [sequence_cons_of_error first, sequence_cons_of_error first]
    | ok value middle =>
      rw [sequence_cons_of_ok first, sequence_cons_of_ok first, ih]
      cases sequence steps middle with
      | error stop last => rfl
      | ok values middle =>
        dsimp only
        cases sequence others middle <;> rfl

theorem sequence_append_eq_bind (steps others : List (Step α)) :
    sequence (steps ++ others) =
      sequence steps >>= fun values => (values ++ ·) <$> sequence others := by
  funext session
  rw [sequence_append, bind_eq]
  cases sequence steps session with
  | error stop last => rfl
  | ok values middle =>
    dsimp only
    rw [map_eq]
    cases sequence others middle <;> rfl

/-! ## Where a list of steps ends -/

/-- The steps of a list all come to their end, each on the session that the one before it has left. -/
inductive Runs : List (Step α) → Session → List α → Session → Prop where
  | nil {session : Session} : Runs [] session [] session
  | cons {step : Step α} {steps : List (Step α)} {session middle last : Session} {value : α} {values : List α}
      (first : step session = .ok value middle) (rest : Runs steps middle values last) :
      Runs (step :: steps) session (value :: values) last

/-- The first step that stops is the one behind the first `k` of the list. Those come to their end, and it stops on
    the session that they leave. -/
def StopsAt (steps : List (Step α)) (session : Session) (k : Nat) (stop : Stop) (last : Session) : Prop :=
  ∃ before step after values middle, steps = before ++ step :: after ∧ before.length = k ∧
    Runs before session values middle ∧ step middle = .error stop last

theorem Runs.sequence_eq (runs : Runs steps session values last) :
    sequence steps session = .ok values last := by
  induction runs with
  | nil => rfl
  | cons first _ ih => rw [sequence_cons_of_ok first, ih]

/-- Behind steps that come to their end, a step that stops is the end of it, whatever comes behind. -/
theorem Runs.sequence_append_cons_eq (runs : Runs before session values middle)
    (stopped : step middle = .error stop last) (after : List (Step α)) :
    sequence (before ++ step :: after) session = .error stop last := by
  have rest : sequence (step :: after) middle = .error stop last := sequence_cons_of_error stopped
  rw [sequence_append, runs.sequence_eq]
  dsimp only
  rw [rest]

theorem StopsAt.sequence_eq (stops : StopsAt steps session k stop last) :
    sequence steps session = .error stop last := by
  obtain ⟨before, step, after, values, middle, rfl, -, runs, stopped⟩ := stops
  exact runs.sequence_append_cons_eq stopped after

theorem StopsAt.replace (stops : StopsAt steps session k stop last) (others : List (Step α)) :
    StopsAt (steps.take (k + 1) ++ others) session k stop last := by
  obtain ⟨before, step, after, values, middle, rfl, rfl, runs, stopped⟩ := stops
  refine ⟨before, step, others, values, middle, ?_, rfl, runs, stopped⟩
  rw [List.take_length_add_append, List.take_one, List.head?_cons, Option.toList_some, List.append_assoc,
    List.singleton_append]

theorem StopsAt.cons (first : step session = .ok value middle) (stops : StopsAt steps middle k stop last) :
    StopsAt (step :: steps) session (k + 1) stop last := by
  obtain ⟨before, stopping, after, values, behind, rfl, rfl, runs, stopped⟩ := stops
  exact ⟨step :: before, stopping, after, value :: values, behind, rfl, rfl, .cons first runs, stopped⟩

/-- Either all steps come to their end or one of them is the first to stop. -/
theorem exists_runs_or_stopsAt (steps : List (Step α)) (session : Session) :
    (∃ values last, Runs steps session values last) ∨ ∃ k stop last, StopsAt steps session k stop last := by
  induction steps generalizing session with
  | nil => exact .inl ⟨[], session, .nil⟩
  | cons step steps ih =>
    cases first : step session with
    | error stop last =>
      exact .inr ⟨0, stop, last, [], step, steps, [], session, rfl, rfl, .nil, first⟩
    | ok value middle =>
      rcases ih middle with ⟨values, last, runs⟩ | ⟨k, stop, last, stops⟩
      · exact .inl ⟨value :: values, last, .cons first runs⟩
      · exact .inr ⟨k + 1, stop, last, stops.cons first⟩

theorem sequence_eq_ok_iff_runs : sequence steps session = .ok values last ↔ Runs steps session values last := by
  refine ⟨fun run => ?_, Runs.sequence_eq⟩
  rcases exists_runs_or_stopsAt steps session with ⟨others, final, runs⟩ | ⟨k, stop, final, stops⟩
  · rw [runs.sequence_eq] at run
    cases run
    exact runs
  · rw [stops.sequence_eq] at run
    cases run

theorem sequence_eq_error_iff_stopsAt :
    sequence steps session = .error stop last ↔ ∃ k, StopsAt steps session k stop last := by
  refine ⟨fun run => ?_, fun ⟨_, stops⟩ => stops.sequence_eq⟩
  rcases exists_runs_or_stopsAt steps session with ⟨values, final, runs⟩ | ⟨k, reason, final, stops⟩
  · rw [runs.sequence_eq] at run
    cases run
  · rw [stops.sequence_eq] at run
    cases run
    exact ⟨k, stops⟩

end Sequence

/-! ## Values on demand -/

/-- Steps that are run one at a time, each when its value is asked for. -/
structure Feed (α : Type) where
  steps : List (Step α)
  session : Session

/-- Runs the next step, if there is one. -/
def Feed.next : Feed α → Option (Except Stop α × Feed α)
  | ⟨[], _⟩ => none
  | ⟨step :: steps, session⟩ =>
    match step session with
    | .ok value last => some (.ok value, ⟨steps, last⟩)
    | .error stop last => some (.error stop, ⟨steps, last⟩)

/-- A feed that gives its values and, where a step stops, keeps the reason aside. -/
structure Tap (α : Type) where
  feed : Feed α
  stop? : Option Stop

/-- The next value. There is none behind the last step, and none where a step stops. -/
def Tap.next (tap : Tap α) : Option α × Tap α :=
  match tap.feed.next with
  | none => (none, tap)
  | some (.ok value, feed) => (some value, { tap with feed })
  | some (.error stop, feed) => (none, ⟨feed, some stop⟩)

theorem Tap.length_lt_of_next {tap rest : Tap α} {value : α} (found : tap.next = (some value, rest)) :
    rest.feed.steps.length < tap.feed.steps.length := by
  obtain ⟨⟨steps, session⟩, stop?⟩ := tap
  cases steps with
  | nil => cases found
  | cons step steps =>
    simp only [next, Feed.next] at found
    cases first : step session with
    | error stop last =>
      rw [first] at found
      cases found
    | ok value last =>
      rw [first] at found
      cases found
      exact Nat.lt_succ_self _

/-- Asks for values until there is none, and puts them behind those that were there. -/
def Tap.gather (tap : Tap α) (values : Array α) : Array α × Tap α :=
  match _found : tap.next with
  | (none, last) => (values, last)
  | (some value, rest) => rest.gather (values.push value)
termination_by tap.feed.steps.length
decreasing_by exact Tap.length_lt_of_next _found

/-- The values of a list of steps, each asked for behind the one before it, or the reason why one of them stops. -/
def collect (steps : List (Step α)) : Step (Array α) := fun session =>
  let (values, tap) := Tap.gather ⟨⟨steps, session⟩, none⟩ #[]
  match tap.stop? with
  | none => .ok values tap.feed.session
  | some stop => .error stop tap.feed.session

section Collect

variable {step : Step α} {steps before : List (Step α)} {session middle last : Session} {value : α}
  {values : List α} {stop : Stop} {k : Nat}

theorem Tap.gather_of_none {tap rest : Tap α} {values : Array α} (ended : tap.next = (none, rest)) :
    tap.gather values = (values, rest) := by
  rw [gather]
  split <;> simp_all

theorem Tap.gather_of_some {tap rest : Tap α} {values : Array α} (found : tap.next = (some value, rest)) :
    tap.gather values = rest.gather (values.push value) := by
  rw [gather]
  split <;> simp_all

/-- Steps that come to their end are all asked for, and then what comes behind them is. -/
theorem Runs.gather_eq (runs : Runs before session values middle) (after : List (Step α)) (found : Array α) :
    Tap.gather ⟨⟨before ++ after, session⟩, none⟩ found =
      Tap.gather ⟨⟨after, middle⟩, none⟩ (found ++ values.toArray) := by
  induction runs generalizing found with
  | nil => simp
  | @cons step steps session middle last value values first _ ih =>
    have given : Tap.next ⟨⟨step :: steps ++ after, session⟩, none⟩ =
        (some value, ⟨⟨steps ++ after, middle⟩, none⟩) := by
      simp only [Tap.next, Feed.next, List.cons_append, first]
    rw [Tap.gather_of_some given, ih]
    simp

/-- The steps behind the one that stops are never asked for. -/
theorem StopsAt.exists_gather_eq (stops : StopsAt steps session k stop last) :
    ∃ values, Tap.gather ⟨⟨steps, session⟩, none⟩ #[] = (values, ⟨⟨steps.drop (k + 1), last⟩, some stop⟩) := by
  obtain ⟨before, step, after, values, middle, rfl, rfl, runs, stopped⟩ := stops
  have ended : Tap.next ⟨⟨step :: after, middle⟩, none⟩ = (none, ⟨⟨after, last⟩, some stop⟩) := by
    simp only [Tap.next, Feed.next, stopped]
  have behind : (before ++ step :: after).drop (before.length + 1) = after := by
    rw [List.drop_length_add_append, List.drop_one, List.tail_cons]
  exact ⟨_, by rw [runs.gather_eq, Tap.gather_of_none ended, behind]⟩

theorem collect_eq (steps : List (Step α)) : collect steps = List.toArray <$> sequence steps := by
  funext session
  rw [map_eq, collect]
  rcases exists_runs_or_stopsAt steps session with ⟨values, last, runs⟩ | ⟨k, stop, last, stops⟩
  · have ended : Tap.next ⟨⟨([] : List (Step α)), last⟩, none⟩ = (none, ⟨⟨[], last⟩, none⟩) := rfl
    have gathered := runs.gather_eq [] #[]
    rw [List.append_nil, Tap.gather_of_none ended, Array.empty_append] at gathered
    rw [gathered, runs.sequence_eq]
  · obtain ⟨values, gathered⟩ := stops.exists_gather_eq
    rw [gathered, stops.sequence_eq]

end Collect

/-! ## The laws -/

/-- Two lists of steps are run the one behind the other. All steps come to their end or one of them is the first to
    stop; then its reason and the session that it leaves are those of the whole list, whatever steps come behind
    it, and if values are asked for one at a time these steps are still there, not run. -/
theorem sequence_homomorphism :
    (∀ steps others : List (Step α),
      sequence (steps ++ others) = sequence steps >>= fun values => (values ++ ·) <$> sequence others) ∧
    (∀ (steps : List (Step α)) (session : Session),
      (∀ values last, sequence steps session = .ok values last ↔ Runs steps session values last) ∧
      (∀ stop last, sequence steps session = .error stop last ↔ ∃ k, StopsAt steps session k stop last) ∧
      ∀ k stop last, StopsAt steps session k stop last →
        (∀ others, sequence (steps.take (k + 1) ++ others) session = .error stop last) ∧
        ∃ values, Tap.gather ⟨⟨steps, session⟩, none⟩ #[] = (values, ⟨⟨steps.drop (k + 1), last⟩, some stop⟩)) ∧
    ∀ steps : List (Step α), collect steps = List.toArray <$> sequence steps :=
  ⟨sequence_append_eq_bind,
    fun _ _ => ⟨fun _ _ => sequence_eq_ok_iff_runs, fun _ _ => sequence_eq_error_iff_stopsAt,
      fun _ _ _ stops => ⟨fun others => (stops.replace others).sequence_eq, stops.exists_gather_eq⟩⟩,
    collect_eq⟩

/-- The second step stops when it has done a part of its work, which stays. -/
theorem sequence_homomorphism_interrupted :
    StopsAt [setStartCode 1, setStartCode 2 *> fail "no", setStartCode 3] (.start "x" ∅) 1
        (.error ⟨.user, some .start, "no"⟩) ⟨[], ∅, 2, .ofString "x"⟩ ∧
      sequence [setStartCode 1, setStartCode 2 *> fail "no", setStartCode 4, setStartCode 5] (.start "x" ∅) =
        .error (.error ⟨.user, some .start, "no"⟩) ⟨[], ∅, 2, .ofString "x"⟩ :=
  have stops : StopsAt [setStartCode 1, setStartCode 2 *> fail "no", setStartCode 3] (.start "x" ∅) 1
      (.error ⟨.user, some .start, "no"⟩) ⟨[], ∅, 2, .ofString "x"⟩ :=
    ⟨[setStartCode 1], setStartCode 2 *> fail "no", [setStartCode 3], [()], ⟨[], ∅, 1, .ofString "x"⟩, rfl, rfl,
      .cons rfl .nil, rfl⟩
  ⟨stops, ((sequence_homomorphism.2.1 _ _).2.2 1 _ _ stops).1 [setStartCode 4, setStartCode 5]⟩

end Step

end LexSpec
