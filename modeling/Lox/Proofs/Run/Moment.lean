import Lox.Proofs.Run.Steps
import Lox.Run.Evaluator
set_option autoImplicit false

/-! Runs moment by moment. A moment keeps everything that is in progress as data: the work at hand,
the frames that wait for it, and the machine. One step goes from a moment to the next; a run is the
sequence of its moments, whether it ends or not. -/

namespace Lox

/-- The work at hand, or what it has just come to. -/
inductive Control where
  | evaluate (scope : ScopeId) (expression : Expr)
  | execute (scope : ScopeId) (statement : Stmt)
  /-- Parameters are about to be bound to the arguments of a call. -/
  | bind (scope : ScopeId) (parameters : List Token) (arguments : List Value)
  | value (value : Value)
  | done
  | interrupted (interrupt : Interrupt)

/-- Work that waits for other work, with all that it still needs. -/
inductive Frame where
  | assign (scope : ScopeId) (name : Token)
  | unary (operator : Token)
  | binaryLeft (scope : ScopeId) (operator : Token) (right : Expr)
  | binaryRight (operator : Token) (left : Value)
  | logical (scope : ScopeId) (operator : Token) (right : Expr)
  | conditional (scope : ScopeId) (question : Token) (thenBranch elseBranch : Expr)
  | callee (scope : ScopeId) (paren : Token) (arguments : List Expr)
  /-- An argument is evaluated; those before it are given, those behind it are not. -/
  | argument (scope : ScopeId) (paren : Token) (function : Callable) (given : List Value)
      (others : List Expr)
  /-- A call in progress. -/
  | call
  /-- The body of a function is to give a value back. -/
  | result
  /-- A scope is left behind the statements above. -/
  | body (scope : ScopeId)
  | discard
  | print
  | flush
  | returning
  | variable (scope : ScopeId) (name : Token)
  | sequence (scope : ScopeId) (others : List Stmt)
  | branch (scope : ScopeId) (thenBranch : Stmt) (elseBranch : Option Stmt)
  /-- The condition of a loop is evaluated. -/
  | condition (scope : ScopeId) (condition : Expr) (body : Stmt)
  /-- The body of a loop is executed. -/
  | round (scope : ScopeId) (condition : Expr) (body : Stmt)

structure Moment where
  control : Control
  /-- The innermost frame comes first. -/
  frames : List Frame
  machine : Machine

/-- Leaves a scope, which may take it away. -/
def Machine.leave (settings : Settings) (scope : ScopeId) (machine : Machine) : Machine :=
  if settings.reclaim then { machine with arena := machine.arena.release scope } else machine

namespace Machine

def enterCall (machine : Machine) : Machine :=
  { machine with callDepth := machine.callDepth + 1 }

def leaveCall (machine : Machine) : Machine :=
  { machine with callDepth := machine.callDepth - 1 }

end Machine

namespace Moment

def perform {α : Type} (action : Run α) (frames : List Frame) (machine : Machine)
    (proceed : α → Machine → Moment) : Moment :=
  match action machine with
  | .ok result machine => proceed result machine
  | .error interrupt machine => ⟨.interrupted interrupt, frames, machine⟩

def giving (action : Run Value) (frames : List Frame) (machine : Machine) : Moment :=
  perform action frames machine fun value machine => ⟨.value value, frames, machine⟩

def completing (action : Run Unit) (frames : List Frame) (machine : Machine) : Moment :=
  perform action frames machine fun _ machine => ⟨.done, frames, machine⟩

def evaluateNext (scope : ScopeId) (frames : List Frame) (machine : Machine) : Expr → Moment
  | .literal value => ⟨.value (.literal value), frames, machine⟩
  | .variable name => giving (Run.lookup scope name) frames machine
  | .assign name value => ⟨.evaluate scope value, .assign scope name :: frames, machine⟩
  | .unary operator operand => ⟨.evaluate scope operand, .unary operator :: frames, machine⟩
  | .binary left operator right =>
    ⟨.evaluate scope left, .binaryLeft scope operator right :: frames, machine⟩
  | .logical left operator right =>
    ⟨.evaluate scope left, .logical scope operator right :: frames, machine⟩
  | .conditional condition question thenBranch elseBranch =>
    ⟨.evaluate scope condition, .conditional scope question thenBranch elseBranch :: frames,
      machine⟩
  | .call callee paren arguments =>
    ⟨.evaluate scope callee, .callee scope paren arguments :: frames, machine⟩
  | .grouping inner => ⟨.evaluate scope inner, frames, machine⟩

def optionalNext (scope : ScopeId) (frames : List Frame) (machine : Machine) :
    Option Expr → Moment
  | none => ⟨.value .nil, frames, machine⟩
  | some value => ⟨.evaluate scope value, frames, machine⟩

def executeNext (scope : ScopeId) (frames : List Frame) (machine : Machine) : Stmt → Moment
  | .expression value => ⟨.evaluate scope value, .discard :: frames, machine⟩
  | .print value => ⟨.evaluate scope value, .print :: frames, machine⟩
  | .returning _ value => optionalNext scope (.returning :: frames) machine value
  | .variable name initializer =>
    optionalNext scope (.variable scope name :: frames) machine initializer
  | .function label name parameters body =>
    completing
      (do
        Run.capture scope
        Run.define scope name (.callable (.closure ⟨label, name, parameters, body⟩ scope)))
      frames machine
  | .block statements =>
    perform (Run.push scope) frames machine fun inner machine =>
      ⟨.done, .sequence inner statements :: .body inner :: frames, machine⟩
  | .branch condition thenBranch elseBranch =>
    ⟨.evaluate scope condition, .branch scope thenBranch elseBranch :: frames, machine⟩
  | .loop condition body =>
    ⟨.evaluate scope condition, .condition scope condition body :: frames, machine⟩

def bindNext (scope : ScopeId) (frames : List Frame) (machine : Machine) :
    List Token → List Value → Moment
  | parameter :: parameters, argument :: arguments =>
    perform (Run.define scope parameter argument) frames machine fun _ machine =>
      ⟨.bind scope parameters arguments, frames, machine⟩
  | _, _ => ⟨.done, frames, machine⟩

/-- A call that is counted runs the body of the function in a scope of its own. -/
def invokeNext (settings : Settings) (arguments : List Value) (frames : List Frame)
    (machine : Machine) : Callable → Moment
  | .clock => ⟨.value (.number settings.time), frames, machine⟩
  | .closure declaration closure =>
    perform (Run.push closure) frames machine fun scope machine =>
      ⟨.bind scope declaration.parameters arguments,
        .sequence scope declaration.body :: .body scope :: .result :: frames, machine⟩

/-- Evaluates the next argument, or makes the call if all are given. -/
def argumentNext (settings : Settings) (scope : ScopeId) (paren : Token) (function : Callable)
    (given : List Value) (frames : List Frame) (machine : Machine) : List Expr → Moment
  | argument :: others =>
    ⟨.evaluate scope argument, .argument scope paren function given others :: frames, machine⟩
  | [] =>
    if given.length = function.arity then
      if settings.maxCallDepth ≤ machine.callDepth then
        ⟨.interrupted (.callDepth settings.maxCallDepth), frames, machine⟩
      else invokeNext settings given (.call :: frames) machine.enterCall function
    else
      ⟨.interrupted (.failure ⟨paren.line, .wrongArity function.arity given.length⟩), frames,
        machine⟩

/-- What a frame does with the value that it waited for. -/
def valueNext (settings : Settings) (value : Value) (frames : List Frame) (machine : Machine) :
    Frame → Option Moment
  | .assign scope name =>
    some (perform (Run.assign scope name value) frames machine fun _ machine =>
      ⟨.value value, frames, machine⟩)
  | .unary operator => some (giving (Evaluator.applyUnary operator value) frames machine)
  | .binaryLeft scope operator right =>
    some ⟨.evaluate scope right, .binaryRight operator value :: frames, machine⟩
  | .binaryRight operator left =>
    some (giving (Evaluator.applyBinary operator left value) frames machine)
  | .logical scope operator right =>
    if (if operator.kind == .orWord then value.isTruthy else !value.isTruthy) then
      some ⟨.value value, frames, machine⟩
    else some ⟨.evaluate scope right, frames, machine⟩
  | .conditional scope question thenBranch elseBranch =>
    match value with
    | .literal (.bool true) => some ⟨.evaluate scope thenBranch, frames, machine⟩
    | .literal (.bool false) => some ⟨.evaluate scope elseBranch, frames, machine⟩
    | _ => some ⟨.interrupted (.failure ⟨question.line, .notBoolean⟩), frames, machine⟩
  | .callee scope paren arguments =>
    match value with
    | .literal _ => some ⟨.interrupted (.failure ⟨paren.line, .notCallable⟩), frames, machine⟩
    | .callable function =>
      some (argumentNext settings scope paren function [] frames machine arguments)
  | .argument scope paren function given others =>
    some (argumentNext settings scope paren function (given ++ [value]) frames machine others)
  | .call => some ⟨.value value, frames, machine.leaveCall⟩
  | .discard => some ⟨.done, frames, machine⟩
  | .print => some (completing (Run.print value) frames machine)
  | .returning => some ⟨.interrupted (.returning value), frames, machine⟩
  | .variable scope name => some (completing (Run.define scope name value) frames machine)
  | .branch scope thenBranch elseBranch =>
    if value.isTruthy then some ⟨.execute scope thenBranch, frames, machine⟩
    else
      match elseBranch with
      | none => some ⟨.done, frames, machine⟩
      | some elseBranch => some ⟨.execute scope elseBranch, frames, machine⟩
  | .condition scope condition body =>
    if value.isTruthy then
      some ⟨.execute scope body, .round scope condition body :: frames, machine⟩
    else some ⟨.done, frames, machine⟩
  | _ => none

/-- What a frame does when the statement that it waited for is complete. -/
def doneNext (settings : Settings) (frames : List Frame) (machine : Machine) :
    Frame → Option Moment
  | .result => some ⟨.value .nil, frames, machine⟩
  | .body scope => some ⟨.done, frames, machine.leave settings scope⟩
  | .flush => some (completing Run.flush frames machine)
  | .sequence scope (first :: others) =>
    some ⟨.execute scope first, .sequence scope others :: frames, machine⟩
  | .sequence _ [] => some ⟨.done, frames, machine⟩
  | .round scope condition body =>
    some ⟨.evaluate scope condition, .condition scope condition body :: frames, machine⟩
  | _ => none

/-- An interrupt passes through every frame. Scopes and calls are left on its way, and a function
body turns a `return` into a value. -/
def interruptNext (settings : Settings) (interrupt : Interrupt) (frames : List Frame)
    (machine : Machine) : Frame → Moment
  | .call => ⟨.interrupted interrupt, frames, machine.leaveCall⟩
  | .body scope => ⟨.interrupted interrupt, frames, machine.leave settings scope⟩
  | .result =>
    match interrupt with
    | .returning value => ⟨.value value, frames, machine⟩
    | _ => ⟨.interrupted interrupt, frames, machine⟩
  | _ => ⟨.interrupted interrupt, frames, machine⟩

/-- The next moment; there is none when nothing waits for what the work has come to. -/
def next (settings : Settings) : Moment → Option Moment
  | ⟨.evaluate scope expression, frames, machine⟩ =>
    some (evaluateNext scope frames machine expression)
  | ⟨.execute scope statement, frames, machine⟩ =>
    some (executeNext scope frames machine statement)
  | ⟨.bind scope parameters arguments, frames, machine⟩ =>
    some (bindNext scope frames machine parameters arguments)
  | ⟨.value value, frame :: frames, machine⟩ => valueNext settings value frames machine frame
  | ⟨.done, frame :: frames, machine⟩ => doneNext settings frames machine frame
  | ⟨.interrupted interrupt, frame :: frames, machine⟩ =>
    some (interruptNext settings interrupt frames machine frame)
  | ⟨_, [], _⟩ => none

/-- The moment a number of steps later, if the run lasts so long. -/
def after (settings : Settings) (steps : Nat) (moment : Moment) : Option Moment :=
  afterSteps (next settings) steps moment

end Moment

end Lox
