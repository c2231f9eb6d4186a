import Lox.Proofs.Run.CallLimit
set_option autoImplicit false

/-! Two runs of which one prints to an output that is soon full. They have the same moments until a
print does not fit; that print writes what fits, and from there the run only leaves what it is
in. -/

namespace Lox

/-! ### Other outputs -/

def Machine.redirect (output : Output) (machine : Machine) : Machine :=
  { machine with output }

def Moment.redirect (output : Output) (moment : Moment) : Moment :=
  { moment with machine := moment.machine.redirect output }

/-- The bytes that printing a value writes. -/
def Value.line (value : Value) : ByteArray :=
  (value.text ++ "\n").toUTF8

namespace Run

variable {α : Type}

/-- What an action came to, on a machine with another output. -/
def redirected (output : Output) :
    EStateM.Result Interrupt Machine α → EStateM.Result Interrupt Machine α
  | .ok result machine => .ok result (machine.redirect output)
  | .error interrupt machine => .error interrupt (machine.redirect output)

/-- An action that neither writes to the output nor looks at it. -/
def Silent (action : Run α) : Prop :=
  ∀ machine output, action (machine.redirect output) = redirected output (action machine)

theorem lookup_silent (scope : ScopeId) (name : Token) : (lookup scope name).Silent := by
  intro machine output
  unfold lookup Machine.redirect
  cases machine.arena.get? scope name.lexeme <;> rfl

theorem assign_silent (scope : ScopeId) (name : Token) (value : Value) :
    (assign scope name value).Silent := by
  intro machine output
  unfold assign Machine.redirect
  rcases machine.arena.assign scope name.lexeme value with ⟨known, arena⟩
  cases known <;> rfl

theorem define_silent (scope : ScopeId) (name : Token) (value : Value) :
    (define scope name value).Silent :=
  fun _machine _output => rfl

theorem ofOperation_silent (line : Nat) (outcome : Except RuntimeError α) :
    (ofOperation line outcome).Silent := by
  intro machine output
  cases outcome <;> rfl

theorem applyUnary_silent (operator : Token) (operand : Value) :
    (Evaluator.applyUnary operator operand).Silent := by
  unfold Evaluator.applyUnary
  split
  · exact fun _machine _output => rfl
  · exact ofOperation_silent _ _

theorem applyBinary_silent (operator : Token) (left right : Value) :
    (Evaluator.applyBinary operator left right).Silent := by
  unfold Evaluator.applyBinary
  split
  · exact fun _machine _output => rfl
  · exact ofOperation_silent _ _

end Run

/-! ### One step -/

namespace Moment

variable {settings : Settings} {output : Output}

/-- The value that is printed by the next step. -/
def printed? : Moment → Option Value
  | ⟨.value value, .print :: _, _⟩ => some value
  | _ => none

theorem perform_redirect {α : Type} {action : Run α} (silent : action.Silent)
    {proceed : α → Machine → Moment}
    (goes : ∀ result later,
      proceed result (later.redirect output) = (proceed result later).redirect output)
    (frames : List Frame) (machine : Machine) :
    perform action frames (machine.redirect output) proceed
      = (perform action frames machine proceed).redirect output := by
  unfold perform
  rw [silent machine output]
  cases action machine with
  | ok result later => exact goes result later
  | error interrupt later => rfl

theorem giving_redirect {action : Run Value} (silent : action.Silent) (frames : List Frame)
    (machine : Machine) :
    giving action frames (machine.redirect output)
      = (giving action frames machine).redirect output :=
  perform_redirect silent (fun _ _ => rfl) frames machine

theorem completing_redirect {action : Run Unit} (silent : action.Silent) (frames : List Frame)
    (machine : Machine) :
    completing action frames (machine.redirect output)
      = (completing action frames machine).redirect output :=
  perform_redirect silent (fun _ _ => rfl) frames machine

theorem leave_redirect (settings : Settings) (scope : ScopeId) (machine : Machine) :
    (machine.redirect output).leave settings scope
      = (machine.leave settings scope).redirect output := by
  unfold Machine.leave Machine.redirect
  split <;> rfl

theorem evaluateNext_redirect (scope : ScopeId) (frames : List Frame) (machine : Machine)
    (expression : Expr) :
    evaluateNext scope frames (machine.redirect output) expression
      = (evaluateNext scope frames machine expression).redirect output := by
  cases expression with
  | «variable» name => exact giving_redirect (Run.lookup_silent scope name) frames machine
  | _ => rfl

theorem executeNext_redirect (scope : ScopeId) (frames : List Frame) (machine : Machine)
    (statement : Stmt) :
    executeNext scope frames (machine.redirect output) statement
      = (executeNext scope frames machine statement).redirect output := by
  cases statement with
  | returning keyword value => cases value <;> rfl
  | «variable» name initializer => cases initializer <;> rfl
  | _ => rfl

theorem bindNext_redirect (scope : ScopeId) (frames : List Frame) (machine : Machine)
    (parameters : List Token) (arguments : List Value) :
    bindNext scope frames (machine.redirect output) parameters arguments
      = (bindNext scope frames machine parameters arguments).redirect output := by
  unfold bindNext
  split
  · exact perform_redirect (Run.define_silent _ _ _) (fun _ _ => rfl) frames machine
  · rfl

theorem argumentNext_redirect (scope : ScopeId) (paren : Token) (function : Callable)
    (given : List Value) (frames : List Frame) (machine : Machine) (others : List Expr) :
    argumentNext settings scope paren function given frames (machine.redirect output) others
      = (argumentNext settings scope paren function given frames machine others).redirect
          output := by
  cases others with
  | cons argument others => rfl
  | nil =>
      by_cases fits : given.length = function.arity
      · by_cases full : settings.maxCallDepth ≤ machine.callDepth
        · have alsoFull : settings.maxCallDepth ≤ (machine.redirect output).callDepth := full
          simp only [argumentNext, if_pos fits, if_pos full, if_pos alsoFull]
          rfl
        · have alsoFree : ¬ settings.maxCallDepth ≤ (machine.redirect output).callDepth := full
          simp only [argumentNext, if_pos fits, if_neg full, if_neg alsoFree]
          cases function <;> rfl
      · simp only [argumentNext, if_neg fits]
        rfl

theorem valueNext_redirect (value : Value) (frames : List Frame) (machine : Machine)
    {frame : Frame} (quiet : frame ≠ .print) :
    valueNext settings value frames (machine.redirect output) frame
      = (valueNext settings value frames machine frame).map (redirect output) := by
  cases frame with
  | print => exact absurd rfl quiet
  | assign scope name =>
      exact congrArg some
        (perform_redirect (Run.assign_silent scope name value) (fun _ _ => rfl) frames machine)
  | unary operator =>
      exact congrArg some (giving_redirect (Run.applyUnary_silent operator value) frames machine)
  | binaryRight operator left =>
      exact congrArg some
        (giving_redirect (Run.applyBinary_silent operator left value) frames machine)
  | callee scope paren arguments =>
      cases value with
      | literal value => rfl
      | callable function =>
          exact congrArg some
            (argumentNext_redirect scope paren function [] frames machine arguments)
  | argument scope paren function given others =>
      exact congrArg some
        (argumentNext_redirect scope paren function (given ++ [value]) frames machine others)
  | «variable» scope name =>
      exact congrArg some
        (completing_redirect (Run.define_silent scope name value) frames machine)
  | logical scope operator right =>
      by_cases settled :
          (if operator.kind == .orWord then value.isTruthy else !value.isTruthy) = true
      · simp only [valueNext, if_pos settled]
        rfl
      · simp only [valueNext, if_neg settled]
        rfl
  | conditional scope question thenBranch elseBranch =>
      cases value with
      | callable function => rfl
      | literal value =>
          cases value with
          | bool value => cases value <;> rfl
          | nil | number | string => rfl
  | branch scope thenBranch elseBranch =>
      by_cases holds : value.isTruthy = true
      · simp only [valueNext, if_pos holds]
        rfl
      · simp only [valueNext, if_neg holds]
        cases elseBranch <;> rfl
  | condition scope condition body =>
      by_cases holds : value.isTruthy = true
      · simp only [valueNext, if_pos holds]
        rfl
      · simp only [valueNext, if_neg holds]
        rfl
  | binaryLeft | call | result | body | discard | flush | returning | sequence | round => rfl

theorem doneNext_redirect (frames : List Frame) (machine : Machine)
    (flushes : output.flushFails = machine.output.flushFails) (frame : Frame) :
    doneNext settings frames (machine.redirect output) frame
      = (doneNext settings frames machine frame).map (redirect output) := by
  cases frame with
  | body scope =>
      exact congrArg some
        (congrArg (Moment.mk .done frames) (leave_redirect settings scope machine))
  | flush =>
      have same : output.flushError? = machine.output.flushError? := by
        unfold Output.flushError?
        rw [flushes]
      unfold doneNext completing perform Run.flush Machine.redirect
      simp only [same]
      cases machine.output.flushError? <;> rfl
  | sequence scope others => cases others <;> rfl
  | _ => rfl

theorem interruptNext_redirect (interrupt : Interrupt) (frames : List Frame) (machine : Machine)
    (frame : Frame) :
    interruptNext settings interrupt frames (machine.redirect output) frame
      = (interruptNext settings interrupt frames machine frame).redirect output := by
  cases frame with
  | body scope =>
      exact congrArg (Moment.mk (.interrupted interrupt) frames)
        (leave_redirect settings scope machine)
  | result => cases interrupt <;> rfl
  | _ => rfl

/-- Steps that do not print are the same with any output, which they leave as it is. -/
theorem next_redirect (moment : Moment) (quiet : moment.printed? = none)
    (flushes : output.flushFails = moment.machine.output.flushFails) :
    (moment.redirect output).next settings = (moment.next settings).map (redirect output) := by
  rcases moment with ⟨control, frames, machine⟩
  cases control with
  | evaluate scope expression =>
      exact congrArg some (evaluateNext_redirect scope frames machine expression)
  | execute scope statement =>
      exact congrArg some (executeNext_redirect scope frames machine statement)
  | bind scope parameters arguments =>
      exact congrArg some (bindNext_redirect scope frames machine parameters arguments)
  | value value =>
      cases frames with
      | nil => rfl
      | cons frame frames =>
          refine valueNext_redirect value frames machine fun same => ?_
          rw [same] at quiet
          cases quiet
  | done =>
      cases frames with
      | nil => rfl
      | cons frame frames => exact doneNext_redirect frames machine flushes frame
  | interrupted interrupt =>
      cases frames with
      | nil => rfl
      | cons frame frames =>
          exact congrArg some (interruptNext_redirect interrupt frames machine frame)

theorem output_next {moment later : Moment} (quiet : moment.printed? = none)
    (stepped : moment.next settings = some later) :
    later.machine.output = moment.machine.output := by
  have same : (moment.redirect moment.machine.output).next settings
      = (moment.next settings).map (redirect moment.machine.output) :=
    next_redirect moment quiet rfl
  have alike : moment.redirect moment.machine.output = moment := rfl
  rw [alike, stepped] at same
  exact congrArg (·.machine.output) (Option.some.inj same)

theorem eq_of_printed? {moment : Moment} {value : Value} (prints : moment.printed? = some value) :
    ∃ frames machine, moment = ⟨.value value, .print :: frames, machine⟩ := by
  unfold printed? at prints
  split at prints
  · cases prints
    exact ⟨_, _, rfl⟩
  · cases prints

end Moment

/-! ### Outputs that hold no more than so many bytes -/

/-- Every byte is taken, and flushing succeeds. -/
structure Output.Unfailing (output : Output) : Prop where
  unlimited : output.room = none
  flushes : output.flushFails = false

/-- The same output, which takes bytes only as long as they are no more than the capacity in all. -/
def Output.capped (capacity : Nat) (output : Output) : Output :=
  { output with room := some (capacity - output.written.size) }

/-- The output behind a write of which not all fits. -/
def Output.filled (capacity : Nat) (output : Output) (bytes : ByteArray) : Output :=
  { output with written := (output.written ++ bytes).extract 0 capacity, room := some 0 }

/-- The same session, on an output that takes so many more bytes. -/
def Session.limited (session : Session) (room : Nat) : Session :=
  { session with
    machine := session.machine.redirect { session.machine.output with room := some room } }

namespace Output

variable {capacity : Nat} {output : Output} {bytes : ByteArray}

theorem extract_of_size_le (within : bytes.size ≤ capacity) : bytes.extract 0 capacity = bytes := by
  rw [← Nat.max_eq_left within]
  exact ByteArray.extract_zero_max_size

theorem extract_min : bytes.extract 0 (min capacity bytes.size) = bytes.extract 0 capacity := by
  rcases Nat.le_total capacity bytes.size with less | more
  · rw [Nat.min_eq_left less]
  · rw [Nat.min_eq_right more, ByteArray.extract_zero_size, extract_of_size_le more]

theorem extract_append_of_le (within : capacity ≤ bytes.size) (more : ByteArray) :
    (bytes ++ more).extract 0 capacity = bytes.extract 0 capacity := by
  have none : more.extract 0 0 = .empty := ByteArray.extract_eq_empty_iff.mpr (Nat.min_le_left _ _)
  rw [ByteArray.extract_append, Nat.zero_sub, Nat.sub_eq_zero_of_le within, none,
    ByteArray.append_empty]

theorem write_of_unlimited (unlimited : output.room = none) :
    output.write bytes = ({ output with written := output.written ++ bytes }, none) := by
  unfold write
  rw [unlimited]

theorem write_capped (unlimited : output.room = none)
    (fits : output.written.size + bytes.size ≤ capacity) :
    (output.capped capacity).write bytes = ((output.write bytes).1.capped capacity, none) := by
  have room : bytes.size ≤ capacity - output.written.size := by omega
  rw [write_of_unlimited unlimited]
  unfold write capped
  simp only [if_pos room, ByteArray.size_append, Nat.sub_sub]

theorem write_overfills (exceeds : capacity < output.written.size + bytes.size)
    (within : output.written.size ≤ capacity) :
    (output.capped capacity).write bytes
      = (output.filled capacity bytes, some .full) := by
  have less : ¬ bytes.size ≤ capacity - output.written.size := by omega
  have taken : (output.written ++ bytes).extract 0 capacity
      = output.written ++ bytes.extract 0 (capacity - output.written.size) := by
    rw [ByteArray.extract_append, Nat.zero_sub, extract_of_size_le within]
  unfold write capped filled
  simp only [if_neg less, taken]

end Output

/-! ### Runs -/

def Moment.capped (capacity : Nat) (moment : Moment) : Moment :=
  moment.redirect (moment.machine.output.capped capacity)

/-- The machine behind an error that has passed through all the frames. -/
def Frame.unwind (settings : Settings) : List Frame → Machine → Machine
  | [], machine => machine
  | .call :: frames, machine => unwind settings frames machine.leaveCall
  | .body scope :: frames, machine => unwind settings frames (machine.leave settings scope)
  | _ :: frames, machine => unwind settings frames machine

theorem Frame.unwind_redirect (settings : Settings) (frames : List Frame) (machine : Machine)
    (output : Output) :
    unwind settings frames (machine.redirect output)
      = (unwind settings frames machine).redirect output := by
  induction frames generalizing machine with
  | nil => rfl
  | cons frame frames ih =>
      cases frame with
      | call => exact ih machine.leaveCall
      | body scope =>
          unfold unwind
          rw [Moment.leave_redirect]
          exact ih _
      | _ => exact ih machine

namespace Moment

variable {settings : Settings} {capacity : Nat} {start moment last : Moment}

/-- No frame stops what is not a `return`. -/
theorem reaches_unwound {interrupt : Interrupt} (error : ∀ value, interrupt ≠ .returning value)
    (frames : List Frame) (machine : Machine) :
    Reaches settings ⟨.interrupted interrupt, frames, machine⟩
      ⟨.interrupted interrupt, [], Frame.unwind settings frames machine⟩ := by
  induction frames generalizing machine with
  | nil => exact Reaches.refl _
  | cons frame frames ih =>
      cases frame with
      | call => exact Reaches.step rfl (ih machine.leaveCall)
      | body scope => exact Reaches.step rfl (ih (machine.leave settings scope))
      | result =>
          refine Reaches.step ?_ (ih machine)
          cases interrupt with
          | returning value => exact absurd rfl (error value)
          | failure | callDepth | output | stuck | exhausted => rfl
      | _ => exact Reaches.step rfl (ih machine)

theorem next_print {value : Value} {machine : Machine} {output : Output}
    {error? : Option OutputError} (frames : List Frame)
    (wrote : machine.output.write value.line = (output, error?)) :
    next settings ⟨.value value, .print :: frames, machine⟩
      = some ⟨error?.elim .done (.interrupted ∘ .output), frames, machine.redirect output⟩ := by
  unfold Value.line at wrote
  change some (completing (Run.print value) frames machine) = _
  unfold completing perform Run.print
  rw [wrote]
  cases error? <;> rfl

/-- A step is the same with an output that what it prints fits into. -/
theorem next_capped (unfailing : moment.machine.output.Unfailing)
    (fits : ∀ value, moment.printed? = some value →
      moment.machine.output.written.size + value.line.size ≤ capacity) :
    (moment.capped capacity).next settings = (moment.next settings).map (capped capacity) := by
  cases prints : moment.printed? with
  | none =>
      have same : (moment.capped capacity).next settings
          = (moment.next settings).map (redirect (moment.machine.output.capped capacity)) :=
        next_redirect moment prints rfl
      rw [same]
      cases stepped : moment.next settings with
      | none => rfl
      | some later =>
          unfold capped
          rw [Option.map_some, Option.map_some, output_next prints stepped]
  | some value =>
      have room := fits value prints
      obtain ⟨frames, machine, rfl⟩ := eq_of_printed? prints
      rw [next_print frames (Output.write_of_unlimited unfailing.unlimited)]
      refine (next_print frames (Output.write_capped unfailing.unlimited room)).trans ?_
      rw [Output.write_of_unlimited unfailing.unlimited]
      rfl

/-- An output that does not fail stays within a capacity that the next print fits into. -/
theorem next_within (unfailing : moment.machine.output.Unfailing)
    (within : moment.machine.output.written.size ≤ capacity)
    (fits : ∀ value, moment.printed? = some value →
      moment.machine.output.written.size + value.line.size ≤ capacity)
    (stepped : moment.next settings = some last) :
    last.machine.output.Unfailing ∧ last.machine.output.written.size ≤ capacity := by
  cases prints : moment.printed? with
  | none =>
      rw [output_next prints stepped]
      exact ⟨unfailing, within⟩
  | some value =>
      have room := fits value prints
      obtain ⟨frames, machine, rfl⟩ := eq_of_printed? prints
      rw [next_print frames (Output.write_of_unlimited unfailing.unlimited)] at stepped
      cases stepped
      refine ⟨⟨unfailing.unlimited, unfailing.flushes⟩, ?_⟩
      change (machine.output.written ++ value.line).size ≤ capacity
      rw [ByteArray.size_append]
      exact room

/-- The value is printed at some moment of the run, and of its line not all bytes fit into an output
that holds no more than so many; everything before it fits. -/
structure Overfills (settings : Settings) (start : Moment) (capacity : Nat) (value : Value)
    (frames : List Frame) (machine : Machine) : Prop where
  reached : Reaches settings start ⟨.value value, .print :: frames, machine⟩
  unfailing : machine.output.Unfailing
  within : machine.output.written.size ≤ capacity
  exceeds : capacity < machine.output.written.size + value.line.size

/-- A run is the same with an output that all fits into, or up to a print that overfills it. -/
theorem Reaches.capped (unfailing : start.machine.output.Unfailing)
    (within : start.machine.output.written.size ≤ capacity)
    (reached : Reaches settings start last) :
    Reaches settings (start.capped capacity) (last.capped capacity) ∧
        last.machine.output.written.size ≤ capacity ∨
      ∃ value frames machine, Overfills settings start capacity value frames machine ∧
        Reaches settings (start.capped capacity)
          (Moment.capped capacity ⟨.value value, .print :: frames, machine⟩) := by
  obtain ⟨steps, arrived⟩ := reached
  induction steps generalizing start with
  | zero =>
      cases arrived
      exact Or.inl ⟨Reaches.refl _, within⟩
  | succ steps ih =>
      obtain ⟨middle, stepped, rest⟩ := Option.bind_eq_some_iff.mp arrived
      by_cases fits : ∀ value, start.printed? = some value →
        start.machine.output.written.size + value.line.size ≤ capacity
      · have alsoStepped :
            (start.capped capacity).next settings = some (middle.capped capacity) := by
          rw [next_capped unfailing fits, stepped, Option.map_some]
        obtain ⟨still, stillWithin⟩ := next_within unfailing within fits stepped
        rcases ih still stillWithin rest with
          ⟨all, total⟩ | ⟨value, frames, machine, exceeding, toCut⟩
        · exact Or.inl ⟨Reaches.step alsoStepped all, total⟩
        · exact Or.inr ⟨value, frames, machine,
            { exceeding with reached := Reaches.step stepped exceeding.reached },
            Reaches.step alsoStepped toCut⟩
      · obtain ⟨value, fails⟩ := Classical.not_forall.mp fits
        obtain ⟨prints, exceeds⟩ := Classical.not_imp.mp fails
        obtain ⟨frames, machine, rfl⟩ := eq_of_printed? prints
        exact Or.inr ⟨value, frames, machine,
          ⟨Reaches.refl _, unfailing, within, Nat.lt_of_not_le exceeds⟩, Reaches.refl _⟩

/-- Whatever ends the run that is not cut short, the line that overfills was printed by then. -/
theorem Overfills.written {value : Value} {frames : List Frame} {machine : Machine}
    (exceeding : Overfills settings start capacity value frames machine)
    (reached : Reaches settings start last) (ended : last.next settings = none) :
    ∃ rest, last.machine.output.written = machine.output.written ++ value.line ++ rest := by
  have behind : Reaches settings start ⟨.done, frames,
      machine.redirect { machine.output with written := machine.output.written ++ value.line }⟩ :=
    exceeding.reached.trans
      (Reaches.step (next_print frames (Output.write_of_unlimited exceeding.unfailing.unlimited))
        (Reaches.refl _))
  exact (behind.to_end reached ended).written

/-- The run that is cut short ends with the error of the output. -/
theorem Overfills.cut {value : Value} {frames : List Frame} {machine : Machine}
    (exceeding : Overfills settings start capacity value frames machine)
    (toCut : Reaches settings (start.capped capacity)
      (Moment.capped capacity ⟨.value value, .print :: frames, machine⟩)) :
    Reaches settings (start.capped capacity)
      ⟨.interrupted (.output .full), [],
        (Frame.unwind settings frames machine).redirect
          (machine.output.filled capacity value.line)⟩ := by
  have wrote : (machine.redirect (machine.output.capped capacity)).output.write value.line
      = (machine.output.filled capacity value.line, some .full) :=
    Output.write_overfills exceeding.exceeds exceeding.within
  refine toCut.trans (Reaches.step (next_print frames wrote) ?_)
  rw [← Frame.unwind_redirect]
  exact reaches_unwound (by simp) frames _

theorem printed?_of_ended (ended : last.next settings = none) : last.printed? = none := by
  cases prints : last.printed? with
  | none => rfl
  | some value =>
      obtain ⟨frames, machine, rfl⟩ := eq_of_printed? prints
      cases ended

theorem capped_ended (ended : last.next settings = none) (capacity : Nat) :
    (last.capped capacity).next settings = none := by
  have same : (last.capped capacity).next settings
      = (last.next settings).map (redirect (last.machine.output.capped capacity)) :=
    next_redirect last (printed?_of_ended ended) rfl
  rw [same, ended, Option.map_none]

theorem Reaches.depth (reached : Reaches settings start last) {outer : Nat}
    (depth : start.machine.callDepth = outer + start.calls) :
    last.machine.callDepth = outer + last.calls := by
  have keeps : ∀ moment later : Moment, moment.machine.callDepth = outer + moment.calls →
      moment.next settings = some later → later.machine.callDepth = outer + later.calls := by
    intro moment later exact stepped
    cases next_callStep stepped with
    | stays calls continues overflow =>
        have same := continues.depth
        omega
    | enters fits calls depth output control => omega
    | leaves calls depth output control => omega
    | overflows full calls machine control =>
        rw [machine, calls]
        exact exact
  obtain ⟨steps, arrived⟩ := reached
  exact afterSteps_keeps keeps depth arrived

end Moment

open Moment

theorem Submission.begin_machine (submission : Submission) (machine : Machine) :
    (submission.begin machine).machine = machine := by
  cases submission <;> rfl

theorem Submission.begin_calls (submission : Submission) (machine : Machine) :
    (submission.begin machine).calls = 0 := by
  cases submission <;> rfl

theorem Submission.begin_redirect (submission : Submission) (machine : Machine) (output : Output) :
    submission.begin (machine.redirect output) = (submission.begin machine).redirect output := by
  cases submission <;> rfl

theorem Submission.verdict_full (submission : Submission) {last : Moment}
    (failed : last.control = .interrupted (.output .full))
    (flushes : last.machine.output.flushFails = false) :
    submission.verdict last = .ok [.output .full] := by
  rcases last with ⟨control, frames, machine⟩
  cases failed
  cases submission with
  | expression value => rfl
  | program statements =>
      have flushed : machine.output.flushError? = none := if_neg (ne_true_of_eq_false flushes)
      unfold verdict
      rw [flushed]
      rfl

theorem Submission.verdict_capped (submission : Submission) (capacity : Nat) (last : Moment) :
    submission.verdict (last.capped capacity) = submission.verdict last := by
  cases submission <;> rfl

/-- What the output takes, in order: all that is printed as long as it fits, and of the print that
overfills it the front part. For any submission to any session that ends when every byte is taken,
and whatever the output has room for: the submission ends there too, and exactly as many bytes of
what was printed are taken as there is room for. If all fit then the diagnostics are the same and
the machine is, but for its output. If not then the error of the output is the only diagnostic; the
machine is the one at the print that did not fit, left by way of all that was in progress as any
other error from there would leave it. -/
theorem output_cut_exactly (session later : Session)
    (unfailing : session.machine.output.Unfailing) (submission : Submission) (steps : Nat)
    (diagnostics : List Diagnostic)
    (answered : session.submit steps submission = .ok (diagnostics, later)) :
    ∃ printed, later.machine.output.written = session.machine.output.written ++ printed ∧
      ∀ room, ∃ enough others cut,
        (session.limited room).submit enough submission = .ok (others, cut) ∧
        cut.machine.output.written
          = session.machine.output.written ++ printed.extract 0 (min room printed.size) ∧
        (printed.size ≤ room →
          others = diagnostics ∧ cut.machine = later.machine.redirect cut.machine.output) ∧
        (room < printed.size →
          others = [.output .full] ∧ cut.machine.callDepth = session.machine.callDepth ∧
          ∃ value frames machine,
            Overfills session.settings (submission.begin session.machine)
              (session.machine.output.written.size + room) value frames machine ∧
            cut.machine = (Frame.unwind session.settings frames machine).redirect
              cut.machine.output ∧
            ∀ interrupt : Interrupt, (∀ value, interrupt ≠ .returning value) →
              Reaches session.settings ⟨.interrupted interrupt, frames, machine⟩
                ⟨.interrupted interrupt, [], Frame.unwind session.settings frames machine⟩) := by
  obtain ⟨last, reached, ended, judged, rfl⟩ :=
    (session.submit_iff later submission diagnostics).mp ⟨steps, answered⟩
  obtain ⟨printed, written⟩ := reached.written
  rw [submission.begin_machine] at written
  have total := congrArg ByteArray.size written
  rw [ByteArray.size_append] at total
  refine ⟨printed, written, fun room => ?_⟩
  rw [Output.extract_min]
  have began : (submission.begin session.machine).capped
      (session.machine.output.written.size + room)
        = submission.begin (session.limited room).machine := by
    unfold Moment.capped Output.capped Session.limited
    rw [submission.begin_machine, Nat.add_sub_cancel_left, submission.begin_redirect]
  have within : (submission.begin session.machine).machine.output.written.size
      ≤ session.machine.output.written.size + room := by
    rw [submission.begin_machine]
    exact Nat.le_add_right _ _
  have alsoUnfailing : (submission.begin session.machine).machine.output.Unfailing := by
    rw [submission.begin_machine]
    exact unfailing
  rcases reached.capped alsoUnfailing within with
    ⟨all, fits⟩ | ⟨value, frames, machine, exceeding, toCut⟩
  · rw [began] at all
    obtain ⟨enough, ran⟩ := ((session.limited room).submit_iff _ submission diagnostics).mpr
      ⟨_, all, capped_ended ended _, (submission.verdict_capped _ last).trans judged, rfl⟩
    have small : printed.size ≤ room := by omega
    refine ⟨enough, diagnostics, _, ran, ?_, fun _ => ⟨rfl, rfl⟩, fun large => ?_⟩
    · rw [Output.extract_of_size_le small]
      exact written
    · omega
  · have cut := exceeding.cut toCut
    rw [began] at cut
    obtain ⟨rest, whole⟩ := exceeding.written reached ended
    have exceeds := exceeding.exceeds
    rw [← ByteArray.size_append] at exceeds
    have large := congrArg ByteArray.size whole
    rw [ByteArray.size_append] at large
    have front : (machine.output.written ++ value.line).extract 0
        (session.machine.output.written.size + room)
          = session.machine.output.written ++ printed.extract 0 room := by
      have same := Output.extract_append_of_le (Nat.le_of_lt exceeds) rest
      rw [← same, ← whole, written, ByteArray.extract_append, Nat.zero_sub,
        Nat.add_sub_cancel_left, Output.extract_of_size_le (Nat.le_add_right _ _)]
    have depth : ((Frame.unwind session.settings frames machine).redirect
        (machine.output.filled (session.machine.output.written.size + room) value.line)).callDepth
          = session.machine.callDepth :=
      cut.depth (by rw [submission.begin_machine, submission.begin_calls]; rfl)
    obtain ⟨enough, ran⟩ := ((session.limited room).submit_iff _ submission [.output .full]).mpr
      ⟨_, cut, rfl, submission.verdict_full rfl exceeding.unfailing.flushes, rfl⟩
    refine ⟨enough, _, _, ran, front, fun small => ?_, fun _ => ⟨rfl, depth, value, frames,
      machine, exceeding, rfl, fun interrupt error => reaches_unwound error frames machine⟩⟩
    omega

/-- A function that prints is called in the middle of a `print` in a block. -/
def Runaway.interposed : List Stmt :=
  [.function 0 name [] [.print (.literal (.string "a"))], .block [.print call],
    .print (.literal (.string "b"))]

/-- Three lines are printed; where there is room for one byte, only that byte of the first line. -/
theorem interposed_cut_exactly :
    ∃ (later cut : Session) (enough : Nat),
      (Session.start {} .unlimited).submit 9 (.program Runaway.interposed) = .ok ([], later) ∧
      later.machine.output.written.size = 8 ∧
      ((Session.start {} .unlimited).limited 1).submit enough (.program Runaway.interposed)
        = .ok ([.output .full], cut) ∧
      cut.machine.output.written.size = 1 := by
  obtain ⟨later, answered, size⟩ :
      ∃ later : Session,
        (Session.start {} .unlimited).submit 9 (.program Runaway.interposed) = .ok ([], later) ∧
        later.machine.output.written.size = 8 :=
    ⟨_, rfl, by decide +kernel⟩
  obtain ⟨printed, whole, cuts⟩ :=
    output_cut_exactly (.start {} .unlimited) later ⟨rfl, rfl⟩ _ 9 _ answered
  have empty : (Session.start {} .unlimited).machine.output.written = .empty := rfl
  rw [empty, ByteArray.empty_append] at whole
  obtain ⟨enough, others, cut, ran, front, -, short⟩ := cuts 1
  rw [empty, ByteArray.empty_append] at front
  obtain ⟨rfl, -⟩ := short (by rw [← whole, size]; decide)
  refine ⟨later, cut, enough, answered, size, ran, ?_⟩
  rw [front, ByteArray.size_extract, ← whole, size]
  rfl

end Lox
