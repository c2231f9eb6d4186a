import Lox.Proofs.Run.Moment
import Lox.Proofs.Scope.Rooted
set_option autoImplicit false

/-! What one step of a run can do to the arena: nothing, or one of five operations, of which none
takes away a captured scope. -/

namespace Lox

namespace Arena

variable {α : Type}

inductive Moves : Arena α → Arena α → Prop
  | stay (arena : Arena α) : Moves arena arena
  | define (arena : Arena α) (owner : ScopeId) (name : String) (value : α) :
      Moves arena (arena.define owner name value)
  | declare (arena : Arena α) (scope : ScopeId) (name : String) (value : α) :
      Moves arena ((arena.capture scope).define scope name value)
  | push (arena : Arena α) (enclosing : ScopeId) : Moves arena (arena.push enclosing).2
  | release (arena : Arena α) (scope : ScopeId) : Moves arena (arena.release scope)

namespace Moves

variable {before after : Arena α}

theorem captures (moves : before.Moves after) {id : ScopeId} (captured : before.Captures id) :
    after.Captures id := by
  cases moves with
  | stay => exact captured
  | define owner name value => exact captured.define owner name value
  | declare scope name value => exact (captured.capture scope).define scope name value
  | push enclosing => exact captured.push enclosing
  | release scope => exact captured.release scope

theorem assign (arena : Arena α) (scope : ScopeId) (name : String) (value : α) :
    arena.Moves (arena.assign scope name value).2 := by
  unfold Arena.assign
  split
  · exact .define _ _ _ _
  · exact .stay arena

end Moves

end Arena

namespace Run

variable {α : Type}

/-- The machine behind an action, also after an interrupt. -/
def behind : EStateM.Result Interrupt Machine α → Machine
  | .ok _ later => later
  | .error _ later => later

def Moves (action : Run α) : Prop :=
  ∀ machine : Machine, machine.arena.Moves (behind (action machine)).arena

theorem lookup_moves (scope : ScopeId) (name : Token) : (lookup scope name).Moves := by
  intro machine
  unfold lookup
  split <;> exact .stay _

theorem assign_moves (scope : ScopeId) (name : Token) (value : Value) :
    (assign scope name value).Moves := by
  intro machine
  have moves := Arena.Moves.assign machine.arena scope name.lexeme value
  unfold assign
  cases assigned : machine.arena.assign scope name.lexeme value with
  | mk known arena =>
      rw [assigned] at moves
      cases known <;> exact moves

theorem define_moves (scope : ScopeId) (name : Token) (value : Value) :
    (define scope name value).Moves :=
  fun machine => .define machine.arena scope name.lexeme value

theorem declare_moves (scope : ScopeId) (name : Token) (value : Value) :
    (do
      capture scope
      define scope name value : Run Unit).Moves :=
  fun machine => .declare machine.arena scope name.lexeme value

theorem push_moves (enclosing : ScopeId) : (push enclosing).Moves :=
  fun machine => .push machine.arena enclosing

theorem print_moves (value : Value) : (print value).Moves := by
  intro machine
  unfold print
  cases machine.output.write (value.text ++ "\n").toUTF8 with
  | mk output error => cases error <;> exact .stay _

theorem flush_moves : flush.Moves := by
  intro machine
  unfold flush
  split <;> exact .stay _

theorem ofOperation_moves (line : Nat) (outcome : Except RuntimeError α) :
    (ofOperation line outcome).Moves := by
  intro machine
  cases outcome <;> exact .stay _

theorem applyUnary_moves (operator : Token) (operand : Value) :
    (Evaluator.applyUnary operator operand).Moves := by
  unfold Evaluator.applyUnary
  split
  · exact fun machine => .stay _
  · exact ofOperation_moves _ _

theorem applyBinary_moves (operator : Token) (left right : Value) :
    (Evaluator.applyBinary operator left right).Moves := by
  unfold Evaluator.applyBinary
  split
  · exact fun machine => .stay _
  · exact ofOperation_moves _ _

end Run

theorem Machine.leave_moves (settings : Settings) (scope : ScopeId) (machine : Machine) :
    machine.arena.Moves (machine.leave settings scope).arena := by
  unfold Machine.leave
  split
  · exact .release machine.arena scope
  · exact .stay _

namespace Moment

variable {settings : Settings} {later : Moment}

theorem perform_moves {α : Type} {action : Run α} (moves : action.Moves) (frames : List Frame)
    (machine : Machine) {proceed : α → Machine → Moment}
    (goes : ∀ result later, (proceed result later).machine = later) :
    machine.arena.Moves (perform action frames machine proceed).machine.arena := by
  have moved := moves machine
  unfold perform
  cases outcome : action machine with
  | ok result later =>
      rw [outcome] at moved
      dsimp only
      rw [goes]
      exact moved
  | error interrupt later =>
      rw [outcome] at moved
      exact moved

theorem giving_moves {action : Run Value} (moves : action.Moves) (frames : List Frame)
    (machine : Machine) : machine.arena.Moves (giving action frames machine).machine.arena :=
  perform_moves moves frames machine fun _ _ => rfl

theorem completing_moves {action : Run Unit} (moves : action.Moves) (frames : List Frame)
    (machine : Machine) : machine.arena.Moves (completing action frames machine).machine.arena :=
  perform_moves moves frames machine fun _ _ => rfl

theorem evaluateNext_moves (scope : ScopeId) (frames : List Frame) (machine : Machine)
    (expression : Expr) :
    machine.arena.Moves (evaluateNext scope frames machine expression).machine.arena := by
  cases expression with
  | «variable» name => exact giving_moves (Run.lookup_moves scope name) frames machine
  | _ => exact .stay _

theorem optionalNext_moves (scope : ScopeId) (frames : List Frame) (machine : Machine)
    (value : Option Expr) :
    machine.arena.Moves (optionalNext scope frames machine value).machine.arena := by
  cases value <;> exact .stay _

theorem executeNext_moves (scope : ScopeId) (frames : List Frame) (machine : Machine)
    (statement : Stmt) :
    machine.arena.Moves (executeNext scope frames machine statement).machine.arena := by
  cases statement with
  | returning keyword value => exact optionalNext_moves scope _ machine value
  | «variable» name initializer => exact optionalNext_moves scope _ machine initializer
  | function label name parameters body =>
      exact completing_moves (Run.declare_moves scope name _) frames machine
  | block statements =>
      exact perform_moves (Run.push_moves scope) frames machine fun _ _ => rfl
  | expression | print | branch | loop => exact .stay _

theorem bindNext_moves (scope : ScopeId) (frames : List Frame) (machine : Machine)
    (parameters : List Token) (arguments : List Value) :
    machine.arena.Moves
      (bindNext scope frames machine parameters arguments).machine.arena := by
  unfold bindNext
  split
  · exact perform_moves (Run.define_moves _ _ _) frames machine fun _ _ => rfl
  · exact .stay _

theorem argumentNext_moves (scope : ScopeId) (paren : Token) (function : Callable)
    (given : List Value) (frames : List Frame) (machine : Machine) (others : List Expr) :
    machine.arena.Moves
      (argumentNext settings scope paren function given frames machine others).machine.arena := by
  unfold argumentNext
  split
  · exact .stay _
  · split
    · split
      · exact .stay _
      · cases function with
        | clock => exact .stay _
        | closure declaration closure =>
            exact perform_moves (Run.push_moves closure) _ machine.enterCall fun _ _ => rfl
    · exact .stay _

theorem valueNext_moves {value : Value} {frames : List Frame} {machine : Machine} {frame : Frame}
    (stepped : valueNext settings value frames machine frame = some later) :
    machine.arena.Moves later.machine.arena := by
  unfold valueNext at stepped
  split at stepped
  case h_1 scope name =>
    cases stepped
    exact perform_moves (Run.assign_moves scope name value) frames machine fun _ _ => rfl
  case h_2 operator =>
    cases stepped
    exact giving_moves (Run.applyUnary_moves operator value) frames machine
  case h_4 operator left =>
    cases stepped
    exact giving_moves (Run.applyBinary_moves operator left value) frames machine
  case h_7 scope paren arguments =>
    split at stepped <;> cases stepped
    · exact .stay _
    · exact argumentNext_moves scope paren _ [] frames machine arguments
  case h_8 scope paren function given others =>
    cases stepped
    exact argumentNext_moves scope paren function _ frames machine others
  case h_11 =>
    cases stepped
    exact completing_moves (Run.print_moves value) frames machine
  case h_13 scope name =>
    cases stepped
    exact completing_moves (Run.define_moves scope name value) frames machine
  all_goals (repeat' split at stepped) <;> cases stepped <;> exact .stay _

theorem doneNext_moves {frames : List Frame} {machine : Machine} {frame : Frame}
    (stepped : doneNext settings frames machine frame = some later) :
    machine.arena.Moves later.machine.arena := by
  unfold doneNext at stepped
  split at stepped <;> cases stepped
  case h_2 scope => exact machine.leave_moves settings scope
  case h_3 => exact completing_moves Run.flush_moves frames machine
  all_goals exact .stay _

theorem interruptNext_moves (interrupt : Interrupt) (frames : List Frame) (machine : Machine)
    (frame : Frame) :
    machine.arena.Moves (interruptNext settings interrupt frames machine frame).machine.arena := by
  cases frame with
  | body scope => exact machine.leave_moves settings scope
  | result => cases interrupt <;> exact .stay _
  | _ => exact .stay _

theorem next_moves {moment : Moment} (stepped : moment.next settings = some later) :
    moment.machine.arena.Moves later.machine.arena := by
  unfold next at stepped
  split at stepped
  case h_1 => cases stepped; exact evaluateNext_moves _ _ _ _
  case h_2 => cases stepped; exact executeNext_moves _ _ _ _
  case h_3 => cases stepped; exact bindNext_moves _ _ _ _ _
  case h_4 => exact valueNext_moves stepped
  case h_5 => exact doneNext_moves stepped
  case h_6 => cases stepped; exact interruptNext_moves _ _ _ _
  case h_7 => cases stepped

/-- What is captured at one moment of a run is captured at every later one. -/
theorem after_captures {moment : Moment} {steps : Nat} {id : ScopeId}
    (captured : moment.machine.arena.Captures id)
    (arrived : moment.after settings steps = some later) : later.machine.arena.Captures id :=
  afterSteps_keeps (fun _ _ captured stepped => (next_moves stepped).captures captured) captured arrived

end Moment

end Lox
