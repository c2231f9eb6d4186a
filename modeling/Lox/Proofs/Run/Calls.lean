import Lox.Proofs.Run.Moment
set_option autoImplicit false

/-! The calls in progress. The frames tell how many there are and the machine counts them. A step
begins a call while fewer than the limit are in progress, or ends one, or has nothing to do with
calls; so the count is exact all the way, whatever a run comes to. -/

namespace Lox

/-- The calls are the same and what was written is still there; more may have followed. -/
structure Machine.Continues (before after : Machine) : Prop where
  depth : after.callDepth = before.callDepth
  written : ∃ bytes, after.output.written = before.output.written ++ bytes

theorem Machine.Continues.of_output {before after : Machine}
    (depth : after.callDepth = before.callDepth) (output : after.output = before.output) :
    before.Continues after :=
  ⟨depth, .empty, by rw [output, ByteArray.append_empty]⟩

theorem Machine.Continues.refl (machine : Machine) : machine.Continues machine :=
  of_output rfl rfl

theorem Output.write_written (output : Output) (bytes : ByteArray) :
    ∃ taken, (output.write bytes).1.written = output.written ++ taken := by
  unfold write
  split
  · exact ⟨bytes, rfl⟩
  · split
    · exact ⟨bytes, rfl⟩
    · exact ⟨_, rfl⟩

namespace Run

variable {α : Type}

/-- An action that makes no calls, and so does not meet their limit. -/
def Callless (action : Run α) : Prop :=
  ∀ machine,
    match action machine with
    | .ok _ later => machine.Continues later
    | .error interrupt later => machine.Continues later ∧ ∀ limit, interrupt ≠ .callDepth limit

theorem lookup_callless (scope : ScopeId) (name : Token) : (lookup scope name).Callless := by
  intro machine
  unfold lookup
  cases machine.arena.get? scope name.lexeme with
  | some value => exact .refl machine
  | none => exact ⟨.refl machine, by simp⟩

theorem assign_callless (scope : ScopeId) (name : Token) (value : Value) :
    (assign scope name value).Callless := by
  intro machine
  unfold assign
  rcases machine.arena.assign scope name.lexeme value with ⟨known, arena⟩
  cases known with
  | true => exact .of_output rfl rfl
  | false => exact ⟨.of_output rfl rfl, by simp⟩

theorem define_callless (scope : ScopeId) (name : Token) (value : Value) :
    (define scope name value).Callless :=
  fun _machine => .of_output rfl rfl

theorem declare_callless (scope : ScopeId) (name : Token) (value : Value) :
    (do
      capture scope
      define scope name value : Run Unit).Callless :=
  fun _machine => .of_output rfl rfl

theorem push_callless (enclosing : ScopeId) : (push enclosing).Callless :=
  fun _machine => .of_output rfl rfl

theorem print_callless (value : Value) : (print value).Callless := by
  intro machine
  have taken := machine.output.write_written (value.text ++ "\n").toUTF8
  unfold print
  cases wrote : machine.output.write (value.text ++ "\n").toUTF8 with
  | mk output error =>
      rw [wrote] at taken
      cases error with
      | none => exact ⟨rfl, taken⟩
      | some error => exact ⟨⟨rfl, taken⟩, by simp⟩

theorem flush_callless : flush.Callless := by
  intro machine
  unfold flush
  cases machine.output.flushError? with
  | none => exact .refl machine
  | some error => exact ⟨.refl machine, by simp⟩

theorem ofOperation_callless (line : Nat) (outcome : Except RuntimeError α) :
    (ofOperation line outcome).Callless := by
  intro machine
  cases outcome with
  | ok value => exact .refl machine
  | error error => exact ⟨.refl machine, by simp⟩

theorem applyUnary_callless (operator : Token) (operand : Value) :
    (Evaluator.applyUnary operator operand).Callless := by
  unfold Evaluator.applyUnary
  split
  · exact fun machine => ⟨.refl machine, by simp⟩
  · exact ofOperation_callless _ _

theorem applyBinary_callless (operator : Token) (left right : Value) :
    (Evaluator.applyBinary operator left right).Callless := by
  unfold Evaluator.applyBinary
  split
  · exact fun machine => ⟨.refl machine, by simp⟩
  · exact ofOperation_callless _ _

end Run

/-! ### One step -/

/-- How many of the frames are calls in progress. -/
def Frame.calls : List Frame → Nat
  | [] => 0
  | .call :: frames => calls frames + 1
  | _ :: frames => calls frames

def Moment.calls (moment : Moment) : Nat :=
  Frame.calls moment.frames

/-- The work has been interrupted because too many calls were in progress. -/
def Control.isOverflow : Control → Prop
  | .interrupted (.callDepth _) => True
  | _ => False

namespace Moment

/-- What a step does to the calls in progress. -/
inductive CallStep (settings : Settings) (before after : Moment) : Prop
  /-- The work goes on in the same call. -/
  | stays (calls : after.calls = before.calls)
      (continues : before.machine.Continues after.machine)
      (overflow : after.control.isOverflow → after.control = before.control)
  | enters (fits : before.machine.callDepth < settings.maxCallDepth)
      (calls : after.calls = before.calls + 1)
      (depth : after.machine.callDepth = before.machine.callDepth + 1)
      (output : after.machine.output = before.machine.output)
      (control : ¬ after.control.isOverflow)
  | leaves (calls : before.calls = after.calls + 1)
      (depth : after.machine.callDepth = before.machine.callDepth - 1)
      (output : after.machine.output = before.machine.output)
      (control : after.control = before.control)
  | overflows (full : settings.maxCallDepth ≤ before.machine.callDepth)
      (calls : after.calls = before.calls) (machine : after.machine = before.machine)
      (control : after.control = .interrupted (.callDepth settings.maxCallDepth))

variable {settings : Settings} {before later : Moment}

namespace CallStep

/-- A step that only looks at the machine. -/
theorem looks (machine : later.machine = before.machine) (calls : later.calls = before.calls)
    (overflow : later.control.isOverflow → later.control = before.control) :
    CallStep settings before later :=
  .stays calls (by rw [machine]; exact .refl _) overflow

theorem perform {α : Type} {action : Run α} (callless : action.Callless) {frames : List Frame}
    {machine : Machine} {proceed : α → Machine → Moment} (same : before.machine = machine)
    (calls : Frame.calls frames = before.calls)
    (goes : ∀ result later, (proceed result later).machine = later)
    (kept : ∀ result later, (proceed result later).calls = before.calls)
    (free : ∀ result later, ¬ (proceed result later).control.isOverflow) :
    CallStep settings before (Moment.perform action frames machine proceed) := by
  subst same
  have continues := callless before.machine
  unfold Moment.perform
  cases outcome : action before.machine with
  | ok result later =>
      rw [outcome] at continues
      refine .stays (kept result later) ?_ fun overflow => absurd overflow (free result later)
      rw [goes]
      exact continues
  | error interrupt later =>
      rw [outcome] at continues
      refine .stays calls continues.1 ?_
      intro overflow
      cases interrupt with
      | callDepth limit => exact absurd rfl (continues.2 limit)
      | failure | returning | output | stuck | exhausted => exact absurd overflow id

theorem giving {action : Run Value} (callless : action.Callless) {frames : List Frame}
    {machine : Machine} (same : before.machine = machine)
    (calls : Frame.calls frames = before.calls) :
    CallStep settings before (Moment.giving action frames machine) :=
  perform callless same calls (fun _ _ => rfl) (fun _ _ => calls) fun _ _ => id

theorem completing {action : Run Unit} (callless : action.Callless) {frames : List Frame}
    {machine : Machine} (same : before.machine = machine)
    (calls : Frame.calls frames = before.calls) :
    CallStep settings before (Moment.completing action frames machine) :=
  perform callless same calls (fun _ _ => rfl) (fun _ _ => calls) fun _ _ => id

theorem evaluate (scope : ScopeId) (expression : Expr) (frames : List Frame) (machine : Machine) :
    CallStep settings ⟨.evaluate scope expression, frames, machine⟩
      (evaluateNext scope frames machine expression) := by
  cases expression with
  | «variable» name => exact giving (Run.lookup_callless scope name) rfl rfl
  | _ => exact looks rfl rfl (absurd · id)

theorem execute (scope : ScopeId) (statement : Stmt) (frames : List Frame) (machine : Machine) :
    CallStep settings ⟨.execute scope statement, frames, machine⟩
      (executeNext scope frames machine statement) := by
  cases statement with
  | returning keyword value => cases value <;> exact looks rfl rfl (absurd · id)
  | «variable» name initializer => cases initializer <;> exact looks rfl rfl (absurd · id)
  | function label name parameters body =>
      exact completing (Run.declare_callless scope name _) rfl rfl
  | block statements =>
      unfold executeNext
      exact perform (Run.push_callless scope) rfl rfl (fun _ _ => rfl) (fun _ _ => rfl)
        fun _ _ => id
  | expression | print | branch | loop => exact looks rfl rfl (absurd · id)

theorem bind (scope : ScopeId) (parameters : List Token) (arguments : List Value)
    (frames : List Frame) (machine : Machine) :
    CallStep settings ⟨.bind scope parameters arguments, frames, machine⟩
      (bindNext scope frames machine parameters arguments) := by
  unfold bindNext
  split
  · exact perform (Run.define_callless _ _ _) rfl rfl (fun _ _ => rfl) (fun _ _ => rfl)
      fun _ _ => id
  · exact looks rfl rfl (absurd · id)

/-- The only step that begins a call, and the only one that looks at the limit. -/
theorem argument (scope : ScopeId) (paren : Token) (function : Callable) (given : List Value)
    (others : List Expr) {frames : List Frame} {machine : Machine}
    (same : before.machine = machine) (calls : Frame.calls frames = before.calls) :
    CallStep settings before
      (argumentNext settings scope paren function given frames machine others) := by
  subst same
  unfold argumentNext
  split
  · exact looks rfl calls (absurd · id)
  · split
    · split
      · next full => exact .overflows full calls rfl rfl
      · next free =>
          have fits := Nat.lt_of_not_le free
          have entered := congrArg (· + 1) calls
          cases function with
          | clock => exact .enters fits entered rfl rfl id
          | closure declaration closure => exact .enters fits entered rfl rfl id
    · exact looks rfl calls (absurd · id)

theorem value {value : Value} {frame : Frame} {frames : List Frame} {machine : Machine}
    (stepped : valueNext settings value frames machine frame = some later) :
    CallStep settings ⟨.value value, frame :: frames, machine⟩ later := by
  unfold valueNext at stepped
  split at stepped
  case h_1 scope name =>
    cases stepped
    exact perform (Run.assign_callless scope name value) rfl rfl (fun _ _ => rfl)
      (fun _ _ => rfl) fun _ _ => id
  case h_2 operator =>
    cases stepped
    exact giving (Run.applyUnary_callless operator value) rfl rfl
  case h_4 operator left =>
    cases stepped
    exact giving (Run.applyBinary_callless operator left value) rfl rfl
  case h_7 scope paren arguments =>
    split at stepped <;> cases stepped
    · exact looks rfl rfl (absurd · id)
    · exact argument scope paren _ [] arguments rfl rfl
  case h_8 scope paren function given others =>
    cases stepped
    exact argument scope paren function _ others rfl rfl
  case h_9 =>
    cases stepped
    exact .leaves rfl rfl rfl rfl
  case h_11 =>
    cases stepped
    exact completing (Run.print_callless value) rfl rfl
  case h_13 scope name =>
    cases stepped
    exact completing (Run.define_callless scope name value) rfl rfl
  all_goals (repeat' split at stepped) <;> cases stepped <;> exact looks rfl rfl (absurd · id)

theorem leaving (scope : ScopeId) {machine : Machine} (same : before.machine = machine)
    (machines : later.machine = machine.leave settings scope)
    (calls : later.calls = before.calls)
    (overflow : later.control.isOverflow → later.control = before.control) :
    CallStep settings before later := by
  subst same
  refine .stays calls ?_ overflow
  rw [machines]
  unfold Machine.leave
  split
  · exact .of_output rfl rfl
  · exact .refl _

theorem done {frame : Frame} {frames : List Frame} {machine : Machine}
    (stepped : doneNext settings frames machine frame = some later) :
    CallStep settings ⟨.done, frame :: frames, machine⟩ later := by
  unfold doneNext at stepped
  split at stepped <;> cases stepped
  case h_2 scope => exact leaving scope rfl rfl rfl (absurd · id)
  case h_3 => exact completing Run.flush_callless rfl rfl
  all_goals exact looks rfl rfl (absurd · id)

theorem interrupt (interrupt : Interrupt) (frame : Frame) (frames : List Frame)
    (machine : Machine) :
    CallStep settings ⟨.interrupted interrupt, frame :: frames, machine⟩
      (interruptNext settings interrupt frames machine frame) := by
  cases frame with
  | call => exact .leaves rfl rfl rfl rfl
  | body scope => exact leaving scope rfl rfl rfl fun _ => rfl
  | result =>
      cases interrupt with
      | returning value => exact looks rfl rfl (absurd · id)
      | failure | callDepth | output | stuck | exhausted => exact looks rfl rfl fun _ => rfl
  | _ => exact looks rfl rfl fun _ => rfl

end CallStep

theorem next_callStep (stepped : before.next settings = some later) :
    CallStep settings before later := by
  unfold next at stepped
  split at stepped
  case h_1 => cases stepped; exact .evaluate _ _ _ _
  case h_2 => cases stepped; exact .execute _ _ _ _
  case h_3 => cases stepped; exact .bind _ _ _ _ _
  case h_4 => exact .value stepped
  case h_5 => exact .done stepped
  case h_6 => cases stepped; exact .interrupt _ _ _ _
  case h_7 => cases stepped

end Moment

end Lox
