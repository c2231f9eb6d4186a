import Lox.Proofs.Run.Moment
set_option autoImplicit false

/-! The evaluator and the run by moments agree. What the evaluator comes to within some number of
steps is what the moments come to; and when it is given too few steps, the moments go on for at
least as many. So the two end together and with the same outcome. -/

namespace Lox

namespace Moment

variable {settings : Settings} {start middle finish : Moment}

theorem after_succ (steps : Nat) (moment : Moment) :
    moment.after settings (steps + 1) = (moment.next settings).bind (after settings steps) :=
  rfl

theorem after_add (first second : Nat) (moment : Moment) :
    moment.after settings (first + second)
      = (moment.after settings first).bind (after settings second) :=
  afterSteps_add (next settings) first second moment

def Reaches (settings : Settings) (start finish : Moment) : Prop :=
  ∃ steps, start.after settings steps = some finish

/-- The run does not end within the given number of steps. -/
def Lasts (settings : Settings) (steps : Nat) (start : Moment) : Prop :=
  (start.after settings steps).isSome

theorem Reaches.refl (moment : Moment) : Reaches settings moment moment :=
  ⟨0, rfl⟩

theorem Reaches.step (stepped : start.next settings = some middle)
    (reached : Reaches settings middle finish) : Reaches settings start finish := by
  obtain ⟨steps, arrived⟩ := reached
  refine ⟨steps + 1, ?_⟩
  rw [after_succ, stepped]
  exact arrived

theorem Reaches.trans (first : Reaches settings start middle)
    (second : Reaches settings middle finish) : Reaches settings start finish := by
  obtain ⟨firstSteps, toMiddle⟩ := first
  obtain ⟨secondSteps, toFinish⟩ := second
  refine ⟨firstSteps + secondSteps, ?_⟩
  rw [after_add, toMiddle]
  exact toFinish

theorem Lasts.mono {fewer more : Nat} (bound : fewer ≤ more)
    (lasting : Lasts settings more start) : Lasts settings fewer start := by
  obtain ⟨rest, rfl⟩ := Nat.exists_eq_add_of_le bound
  unfold Lasts at lasting ⊢
  rw [after_add] at lasting
  cases reached : start.after settings fewer with
  | none =>
      rw [reached] at lasting
      cases lasting
  | some later => rfl

theorem Lasts.of_reaches {steps : Nat} (reached : Reaches settings start middle)
    (lasting : Lasts settings steps middle) : Lasts settings steps start := by
  obtain ⟨earlier, arrived⟩ := reached
  refine Lasts.mono (Nat.le_add_left steps earlier) ?_
  unfold Lasts
  rw [after_add, arrived]
  exact lasting

theorem Lasts.step {steps : Nat} (stepped : start.next settings = some middle)
    (lasting : Lasts settings steps middle) : Lasts settings (steps + 1) start := by
  unfold Lasts
  rw [after_succ, stepped]
  exact lasting

/-- A run that ends does not last longer than up to its end. -/
theorem after_le_of_ended {steps : Nat} (arrived : start.after settings steps = some finish)
    (ended : finish.next settings = none) {later : Nat} {moment : Moment}
    (alsoArrived : start.after settings later = some moment) : later ≤ steps := by
  by_cases within : later ≤ steps
  · exact within
  · obtain ⟨rest, rfl⟩ := Nat.exists_eq_add_of_lt (Nat.lt_of_not_le within)
    rw [Nat.add_assoc, after_add, arrived, Option.bind_some, after_succ, ended] at alsoArrived
    cases alsoArrived

theorem Reaches.eq_of_ended (first : Reaches settings start middle)
    (second : Reaches settings start finish) (middleEnded : middle.next settings = none)
    (finishEnded : finish.next settings = none) : middle = finish := by
  obtain ⟨firstSteps, toMiddle⟩ := first
  obtain ⟨secondSteps, toFinish⟩ := second
  have same : firstSteps = secondSteps :=
    Nat.le_antisymm (after_le_of_ended toFinish finishEnded toMiddle)
      (after_le_of_ended toMiddle middleEnded toFinish)
  rw [same, toFinish] at toMiddle
  exact (Option.some.inj toMiddle).symm

end Moment

open Moment

/-- The run that starts at a moment comes to the given outcome with the given frames left; or it
lasts, when the outcome is that there were too few steps. -/
def Meets (settings : Settings) (bound : Nat) (start : Moment) (frames : List Frame) {α : Type}
    (finish : α → Control) : EStateM.Result Interrupt Machine α → Prop
  | .ok result machine => Reaches settings start ⟨finish result, frames, machine⟩
  | .error .exhausted _ => Lasts settings bound start
  | .error interrupt machine => Reaches settings start ⟨.interrupted interrupt, frames, machine⟩

namespace Meets

variable {settings : Settings} {bound : Nat} {start middle : Moment} {frames : List Frame}
variable {α : Type} {finish : α → Control} {outcome : EStateM.Result Interrupt Machine α}

theorem interrupted {interrupt : Interrupt} {machine : Machine}
    (reached : Reaches settings start ⟨.interrupted interrupt, frames, machine⟩)
    (ends : interrupt ≠ .exhausted) :
    Meets settings bound start frames finish (.error interrupt machine) := by
  cases interrupt with
  | exhausted => exact absurd rfl ends
  | failure | callDepth | returning | output | stuck => exact reached

theorem mono {fewer : Nat} (less : fewer ≤ bound)
    (meets : Meets settings bound start frames finish outcome) :
    Meets settings fewer start frames finish outcome := by
  cases outcome with
  | ok result machine => exact meets
  | error interrupt machine =>
      cases interrupt with
      | exhausted => exact Lasts.mono less meets
      | failure | callDepth | returning | output | stuck => exact meets

theorem of_reaches (reached : Reaches settings start middle)
    (meets : Meets settings bound middle frames finish outcome) :
    Meets settings bound start frames finish outcome := by
  cases outcome with
  | ok result machine => exact reached.trans meets
  | error interrupt machine =>
      cases interrupt with
      | exhausted => exact Lasts.of_reaches reached meets
      | failure | callDepth | returning | output | stuck => exact reached.trans meets

theorem step (stepped : start.next settings = some middle)
    (meets : Meets settings bound middle frames finish outcome) :
    Meets settings (bound + 1) start frames finish outcome := by
  cases outcome with
  | ok result machine => exact Reaches.step stepped meets
  | error interrupt machine =>
      cases interrupt with
      | exhausted => exact Lasts.step stepped meets
      | failure | callDepth | returning | output | stuck => exact Reaches.step stepped meets

end Meets

/-- An action that is done whatever number of steps is allowed. -/
def Run.Settles {α : Type} (action : Run α) : Prop :=
  ∀ machine later, action machine ≠ .error .exhausted later

/-- Work agrees with the moments from a start on, whatever frames wait below. -/
def Carries (settings : Settings) (bound : Nat) {α : Type} (work : Run α)
    (start : List Frame → Machine → Moment) (finish : α → Control) : Prop :=
  ∀ frames machine, Meets settings bound (start frames machine) frames finish (work machine)

/-- A frame that lets every interrupt through. -/
def Frame.Passes (settings : Settings) (frame : Frame) : Prop :=
  ∀ interrupt frames machine,
    interruptNext settings interrupt frames machine frame
      = ⟨.interrupted interrupt, frames, machine⟩

namespace Carries

variable {settings : Settings} {bound : Nat} {α β : Type}
variable {start middle : List Frame → Machine → Moment} {finish : α → Control}

theorem mono {fewer : Nat} {work : Run α} (less : fewer ≤ bound)
    (carries : Carries settings bound work start finish) :
    Carries settings fewer work start finish :=
  fun frames machine => (carries frames machine).mono less

theorem pure (result : α) :
    Carries settings bound (Pure.pure result)
      (fun frames machine => ⟨finish result, frames, machine⟩) finish :=
  fun _frames _machine => Reaches.refl _

theorem done :
    Carries settings bound (Pure.pure ()) (fun frames machine => ⟨.done, frames, machine⟩)
      fun _ => .done :=
  fun _frames _machine => Reaches.refl _

theorem throw (interrupt : Interrupt) (ends : interrupt ≠ .exhausted) :
    Carries settings bound (MonadExcept.throw interrupt : Run α)
      (fun frames machine => ⟨.interrupted interrupt, frames, machine⟩) finish :=
  fun _frames _machine => Meets.interrupted (Reaches.refl _) ends

theorem step {work : Run α}
    (stepped : ∀ frames machine,
      (start frames machine).next settings = some (middle frames machine))
    (carries : Carries settings bound work middle finish) :
    Carries settings (bound + 1) work start finish :=
  fun frames machine => (carries frames machine).step (stepped frames machine)

theorem stepped {work : Run α}
    (stepped : ∀ frames machine,
      (start frames machine).next settings = some (middle frames machine))
    (carries : Carries settings bound work middle finish) :
    Carries settings bound work start finish :=
  (step stepped carries).mono (Nat.le_succ bound)

theorem perform {work : Run α}
    (stepped : ∀ frames machine,
      (start frames machine).next settings
        = some (Moment.perform work frames machine
            fun result machine => ⟨finish result, frames, machine⟩))
    (settles : work.Settles) : Carries settings bound work start finish := by
  intro frames machine
  have taken := stepped frames machine
  unfold Moment.perform at taken
  cases outcome : work machine with
  | ok result later =>
      rw [outcome] at taken
      exact Reaches.step taken (Reaches.refl _)
  | error interrupt later =>
      rw [outcome] at taken
      apply Meets.interrupted (Reaches.step taken (Reaches.refl _))
      intro short
      rw [short] at outcome
      exact settles machine later outcome

/-- A frame waits for the first part of the work and goes on with the second. -/
theorem bindFrom {first : Run α} {second : α → Run β} {frame : Frame} {finishAll : β → Control}
    (passes : frame.Passes settings) (carriesFirst : Carries settings bound first start finish)
    (carriesSecond : ∀ result,
      Carries settings bound (second result)
        (fun frames machine => ⟨finish result, frame :: frames, machine⟩) finishAll) :
    Carries settings bound (first >>= second)
      (fun frames machine => start (frame :: frames) machine) finishAll := by
  intro frames machine
  have outcome := carriesFirst (frame :: frames) machine
  change Meets settings bound _ frames finishAll (EStateM.bind first second machine)
  unfold EStateM.bind
  cases ran : first machine with
  | ok result later =>
      rw [ran] at outcome
      exact Meets.of_reaches outcome (carriesSecond result frames later)
  | error interrupt later =>
      rw [ran] at outcome
      have through : next settings ⟨.interrupted interrupt, frame :: frames, later⟩
          = some ⟨.interrupted interrupt, frames, later⟩ :=
        congrArg some (passes interrupt frames later)
      cases interrupt with
      | exhausted => exact outcome
      | failure | callDepth | returning | output | stuck =>
          exact outcome.trans (Reaches.step through (Reaches.refl _))

theorem bind {first : Run α} {second : α → Run β} {control : Control} {frame : Frame}
    {finishAll : β → Control} (passes : frame.Passes settings)
    (carriesFirst :
      Carries settings bound first (fun frames machine => ⟨control, frames, machine⟩) finish)
    (carriesSecond : ∀ result,
      Carries settings bound (second result)
        (fun frames machine => ⟨finish result, frame :: frames, machine⟩) finishAll) :
    Carries settings bound (first >>= second)
      (fun frames machine => ⟨control, frame :: frames, machine⟩) finishAll :=
  bindFrom passes carriesFirst carriesSecond

theorem thenPure {work : Run Unit} {result : α}
    (carries : Carries settings bound work start fun _ => finish result) :
    Carries settings bound (work >>= fun _ => Pure.pure result) start finish := by
  intro frames machine
  have outcome := carries frames machine
  change Meets settings bound _ frames finish
    (EStateM.bind work (fun _ => EStateM.pure result) machine)
  unfold EStateM.bind
  cases ran : work machine with
  | ok done later =>
      rw [ran] at outcome
      exact outcome
  | error interrupt later =>
      rw [ran] at outcome
      cases interrupt with
      | exhausted => exact outcome
      | failure | callDepth | returning | output | stuck => exact outcome

theorem releasing {work : Run Unit} {control : Control} (above : List Frame) {scope : ScopeId}
    (carries : Carries settings bound work
      (fun frames machine => ⟨control, above ++ frames, machine⟩) fun _ => .done) :
    Carries settings bound (Run.releasing settings scope work)
      (fun frames machine => ⟨control, above ++ .body scope :: frames, machine⟩)
      fun _ => .done := by
  intro frames machine
  have outcome := carries (.body scope :: frames) machine
  unfold Run.releasing
  cases ran : work machine with
  | ok result later =>
      rw [ran] at outcome
      exact outcome.trans (Reaches.step rfl (Reaches.refl _))
  | error interrupt later =>
      rw [ran] at outcome
      cases interrupt with
      | exhausted => exact outcome
      | failure | callDepth | returning | output | stuck =>
          exact outcome.trans (Reaches.step rfl (Reaches.refl _))

theorem returned {work : Run Unit} {control : Control} (above : List Frame)
    (carries : Carries settings bound work
      (fun frames machine => ⟨control, above ++ frames, machine⟩) fun _ => .done) :
    Carries settings bound (Run.returned work)
      (fun frames machine => ⟨control, above ++ .result :: frames, machine⟩) .value := by
  intro frames machine
  have outcome := carries (.result :: frames) machine
  unfold Run.returned
  cases ran : work machine with
  | ok result later =>
      rw [ran] at outcome
      exact outcome.trans (Reaches.step rfl (Reaches.refl _))
  | error interrupt later =>
      rw [ran] at outcome
      cases interrupt with
      | exhausted => exact outcome
      | failure | callDepth | returning | output | stuck =>
          exact outcome.trans (Reaches.step rfl (Reaches.refl _))

theorem counted {call : Run Value} (carries : Carries settings bound call start .value) :
    Carries settings bound (Run.counted settings call)
      (fun frames machine =>
        if settings.maxCallDepth ≤ machine.callDepth then
          ⟨.interrupted (.callDepth settings.maxCallDepth), frames, machine⟩
        else start (.call :: frames) machine.enterCall) .value := by
  intro frames machine
  dsimp only
  unfold Run.counted
  by_cases full : settings.maxCallDepth ≤ machine.callDepth
  · rw [if_pos full, if_pos full]
    exact Reaches.refl _
  · rw [if_neg full, if_neg full]
    have outcome := carries (.call :: frames) machine.enterCall
    unfold Machine.enterCall at outcome ⊢
    cases ran : call { machine with callDepth := machine.callDepth + 1 } with
    | ok result later =>
        rw [ran] at outcome
        exact outcome.trans (Reaches.step rfl (Reaches.refl _))
    | error interrupt later =>
        rw [ran] at outcome
        cases interrupt with
        | exhausted => exact outcome
        | failure | callDepth | returning | output | stuck =>
            exact outcome.trans (Reaches.step rfl (Reaches.refl _))

end Carries

namespace Run

theorem lookup_settles (scope : ScopeId) (name : Token) : (lookup scope name).Settles := by
  intro machine later short
  unfold lookup at short
  split at short <;> cases short

theorem assign_settles (scope : ScopeId) (name : Token) (value : Value) :
    (assign scope name value).Settles := by
  intro machine later short
  unfold assign at short
  split at short <;> cases short

theorem print_settles (value : Value) : (print value).Settles := by
  intro machine later short
  unfold print at short
  split at short <;> cases short

theorem flush_settles : flush.Settles := by
  intro machine later short
  unfold flush at short
  split at short <;> cases short

theorem ofOperation_settles {α : Type} (line : Nat) (outcome : Except RuntimeError α) :
    (ofOperation line outcome).Settles := by
  intro machine later short
  cases outcome <;> cases short

theorem applyUnary_settles (operator : Token) (operand : Value) :
    (Evaluator.applyUnary operator operand).Settles := by
  unfold Evaluator.applyUnary
  split
  · intro machine later short
    cases short
  · exact ofOperation_settles _ _

theorem applyBinary_settles (operator : Token) (left right : Value) :
    (Evaluator.applyBinary operator left right).Settles := by
  unfold Evaluator.applyBinary
  split
  · intro machine later short
    cases short
  · exact ofOperation_settles _ _

end Run

end Lox
