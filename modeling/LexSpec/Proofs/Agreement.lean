import Mathlib.Data.List.Forall2
import Mathlib.Data.List.Induction

/-! # Computations that agree

A sequence gives a value when its steps do (`bind_eq_ok_iff`), and it breaks off at the first step that does
(`foldlM_eq_error_iff`). What its steps keep holds at its end (`foldlM_induction`).

Two computations agree when both break off or both give a value, and what they break off with or give is
related. Agreement is kept by sequencing, so two runs of one program on different data are compared step
by step.
-/

namespace LexSpec

variable {ε α β : Type}

theorem bind_eq_ok_iff {x : Except ε α} {f : α → Except ε β} {b : β} :
    (x >>= f) = .ok b ↔ ∃ a, x = .ok a ∧ f a = .ok b := by
  cases x with
  | error reason => simp [bind, Except.bind]
  | ok a => simp [bind, Except.bind]

theorem exists_bind_eq_ok {x : Except ε α} {f : α → Except ε β} (first : ∃ a, x = .ok a)
    (rest : ∀ a, x = .ok a → ∃ b, f a = .ok b) : ∃ b, (x >>= f) = .ok b := by
  obtain ⟨a, given⟩ := first
  obtain ⟨b, result⟩ := rest a given
  exact ⟨b, bind_eq_ok_iff.2 ⟨a, given, result⟩⟩

theorem bind_eq_error_iff {x : Except ε α} {f : α → Except ε β} {reason : ε} :
    (x >>= f) = .error reason ↔ x = .error reason ∨ ∃ a, x = .ok a ∧ f a = .error reason := by
  cases x with
  | error other => simp [bind, Except.bind]
  | ok a => simp [bind, Except.bind]

theorem foldlM_eq_error_iff {step : α → β → Except ε α} {start : α} {inputs : List β} {reason : ε} :
    inputs.foldlM step start = .error reason ↔ ∃ front input back state,
      inputs = front ++ input :: back ∧ front.foldlM step start = .ok state ∧
        step state input = .error reason := by
  constructor
  · intro breaks
    induction inputs generalizing start with
    | nil => cases breaks
    | cons first rest ih =>
      rw [List.foldlM_cons] at breaks
      cases taken : step start first with
      | error other =>
        rw [taken] at breaks
        cases breaks
        exact ⟨[], first, rest, start, rfl, rfl, taken⟩
      | ok next =>
        rw [taken] at breaks
        obtain ⟨front, input, back, state, rfl, reached, failed⟩ := ih breaks
        refine ⟨first :: front, input, back, state, rfl, ?_, failed⟩
        rw [List.foldlM_cons, taken]
        exact reached
  · rintro ⟨front, input, back, state, rfl, reached, failed⟩
    rw [List.foldlM_append, reached]
    change List.foldlM step state (input :: back) = _
    rw [List.foldlM_cons, failed]
    rfl

/-- What every step keeps of the inputs so far holds at the end of all of them. -/
theorem foldlM_induction (kept : α → List β → Prop) {step : α → β → Except ε α} {start final : α}
    {inputs : List β} (begins : kept start [])
    (keeps : ∀ {state next seen input}, kept state seen → step state input = .ok next →
      kept next (seen ++ [input]))
    (runs : inputs.foldlM step start = .ok final) : kept final inputs := by
  induction inputs using List.reverseRecOn generalizing final with
  | nil =>
    cases runs
    exact begins
  | append_singleton front last ih =>
    rw [List.foldlM_append] at runs
    obtain ⟨middle, first, rest⟩ := bind_eq_ok_iff.1 runs
    obtain ⟨next, taken, done⟩ := bind_eq_ok_iff.1 rest
    cases done
    exact keeps (ih first) taken

/-- Both break off with related reasons, or both give related values. -/
inductive Agree (broken : ε → ε → Prop) (given : α → α → Prop) : Except ε α → Except ε α → Prop where
  | error {reason other : ε} (related : broken reason other) :
      Agree broken given (.error reason) (.error other)
  | ok {value other : α} (related : given value other) : Agree broken given (.ok value) (.ok other)

namespace Agree

variable {broken : ε → ε → Prop} {given : α → α → Prop} {later : β → β → Prop} {x y : Except ε α}

theorem bind {f g : α → Except ε β} (first : Agree broken given x y)
    (rest : ∀ a b, given a b → Agree broken later (f a) (g b)) :
    Agree broken later (x >>= f) (y >>= g) := by
  cases first with
  | error related => exact .error related
  | ok related => exact rest _ _ related

/-- Agreeing steps over related lists agree as a whole. -/
theorem foldlM {γ : Type} {alike : γ → γ → Prop} {step : α → γ → Except ε α} {xs ys : List γ}
    (lists : List.Forall₂ alike xs ys)
    (steps : ∀ a b x y, given a b → alike x y → Agree broken given (step a x) (step b y)) {a b : α}
    (start : given a b) : Agree broken given (xs.foldlM step a) (ys.foldlM step b) := by
  induction lists generalizing a b with
  | nil => exact .ok start
  | cons head _ ih =>
    simp only [List.foldlM_cons]
    exact (steps _ _ _ _ start head).bind fun _ _ next => ih next

end Agree

end LexSpec
