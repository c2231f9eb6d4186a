set_option autoImplicit false

/-! Repeated steps of a function that may have no next state. -/

namespace Lox

variable {State : Type}

/-- The state a number of steps later, if there is one. -/
def afterSteps (next : State → Option State) : (steps : Nat) → State → Option State
  | 0, state => some state
  | steps + 1, state => (next state).bind (afterSteps next steps)

theorem afterSteps_add (next : State → Option State) (first second : Nat) (state : State) :
    afterSteps next (first + second) state
      = (afterSteps next first state).bind (afterSteps next second) := by
  induction first generalizing state with
  | zero =>
      rw [Nat.zero_add]
      rfl
  | succ first ih =>
      rw [Nat.succ_add, afterSteps, afterSteps]
      cases next state with
      | none => rfl
      | some later => exact ih later

theorem afterSteps_last (next : State → Option State) (steps : Nat) (state : State) :
    afterSteps next (steps + 1) state = (afterSteps next steps state).bind next := by
  rw [afterSteps_add]
  congr 1
  funext later
  rw [afterSteps]
  cases next later <;> rfl

/-- What holds at first and is kept by every step holds ever after. -/
theorem afterSteps_keeps {next : State → Option State} {good : State → Prop}
    (keeps : ∀ state later, good state → next state = some later → good later)
    {steps : Nat} {state later : State} (start : good state)
    (arrived : afterSteps next steps state = some later) : good later := by
  induction steps generalizing state with
  | zero =>
      cases arrived
      exact start
  | succ steps ih =>
      obtain ⟨middle, stepped, rest⟩ := Option.bind_eq_some_iff.mp arrived
      exact ih (keeps state middle start stepped) rest

theorem rel_cases {First Second : Type} {related : First → Second → Prop} {first : Option First}
    {second : Option Second} (both : Option.Rel related first second) :
    (first = none ∧ second = none) ∨
      ∃ left right, first = some left ∧ second = some right ∧ related left right := by
  cases both with
  | none => exact Or.inl ⟨rfl, rfl⟩
  | some holds => exact Or.inr ⟨_, _, rfl, rfl, holds⟩

/-- Two runs whose steps keep them related end together and are related all the way. -/
theorem afterSteps_related {Other : Type} {next : State → Option State}
    {otherNext : Other → Option Other} {related : State → Other → Prop}
    (follows : ∀ state other, related state other →
      Option.Rel related (next state) (otherNext other))
    (steps : Nat) {state : State} {other : Other} (start : related state other) :
    Option.Rel related (afterSteps next steps state) (afterSteps otherNext steps other) := by
  induction steps generalizing state other with
  | zero => exact .some start
  | succ steps ih =>
      rw [afterSteps, afterSteps]
      rcases rel_cases (follows state other start) with
        ⟨ended, otherEnded⟩ | ⟨later, otherLater, stepped, otherStepped, holds⟩
      · rw [ended, otherEnded]
        exact .none
      · rw [stepped, otherStepped]
        exact ih holds

end Lox
