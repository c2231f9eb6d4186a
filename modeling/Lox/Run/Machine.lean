import Lox.Run.Operation
import Lox.Run.Output
set_option autoImplicit false

/-! The state of a run and what can interrupt it. An interrupt passes through everything that is in
progress; scopes and calls that it leaves are given back by `releasing` and `counted`. -/

namespace Lox

structure Settings where
  /-- How many calls may be in progress at once. -/
  maxCallDepth : Nat := 4096
  /-- What the built-in function `clock` tells. -/
  time : Float := 0
  /-- Whether scopes that are left and not captured are taken away. -/
  reclaim : Bool := true

structure Machine where
  arena : Arena Value
  /-- How many calls are in progress. -/
  callDepth : Nat
  output : Output

inductive Interrupt where
  | failure (failure : RuntimeFailure)
  | callDepth (limit : Nat)
  /-- A `return` on its way to the call it ends. -/
  | returning (value : Value)
  | output (error : OutputError)
  /-- An operator names no operation. -/
  | stuck
  /-- The run was given too few steps to end. -/
  | exhausted

abbrev Run := EStateM Interrupt Machine

/-- The global scope knows nothing but the clock. -/
def Machine.initial (output : Output) : Machine where
  arena := Arena.initial.define Arena.globalScope "clock" (.callable .clock)
  callDepth := 0
  output

namespace Run

variable {α : Type}

def fail (line : Nat) (error : RuntimeError) : Run α :=
  throw (.failure ⟨line, error⟩)

/-- An operation's result, or its error on the operator's line. -/
def ofOperation (line : Nat) : Except RuntimeError α → Run α
  | .ok value => pure value
  | .error error => fail line error

/-- What a name stands for in a scope. -/
def lookup (scope : ScopeId) (name : Token) : Run Value := fun machine =>
  match machine.arena.get? scope name.lexeme with
  | some value => .ok value machine
  | none => .error (.failure (.undefined name)) machine

def assign (scope : ScopeId) (name : Token) (value : Value) : Run Unit := fun machine =>
  match machine.arena.assign scope name.lexeme value with
  | (true, arena) => .ok () { machine with arena }
  | (false, arena) => .error (.failure (.undefined name)) { machine with arena }

def define (scope : ScopeId) (name : Token) (value : Value) : Run Unit :=
  modify fun machine => { machine with arena := machine.arena.define scope name.lexeme value }

def capture (scope : ScopeId) : Run Unit :=
  modify fun machine => { machine with arena := machine.arena.capture scope }

/-- Opens a scope inside another one. -/
def push (enclosing : ScopeId) : Run ScopeId := fun machine =>
  let (id, arena) := machine.arena.push enclosing
  .ok id { machine with arena }

/-- Runs something in a scope and leaves the scope, also when interrupted. -/
@[inline] def releasing (settings : Settings) (scope : ScopeId) (body : Run α) : Run α :=
  fun machine =>
    let leave (machine : Machine) : Machine :=
      if settings.reclaim then { machine with arena := machine.arena.release scope } else machine
    match body machine with
    | .ok value machine => .ok value (leave machine)
    | .error interrupt machine => .error interrupt (leave machine)

/-- Runs a call, which counts as in progress until it is over, also when interrupted. -/
@[inline] def counted (settings : Settings) (call : Run α) : Run α := fun machine =>
  if settings.maxCallDepth ≤ machine.callDepth then
    .error (.callDepth settings.maxCallDepth) machine
  else
    match call { machine with callDepth := machine.callDepth + 1 } with
    | .ok value machine => .ok value { machine with callDepth := machine.callDepth - 1 }
    | .error interrupt machine =>
      .error interrupt { machine with callDepth := machine.callDepth - 1 }

/-- The value that a function body gives back, which is `nil` if it comes to its end. -/
@[inline] def returned (body : Run Unit) : Run Value := fun machine =>
  match body machine with
  | .ok () machine => .ok .nil machine
  | .error (.returning value) machine => .ok value machine
  | .error interrupt machine => .error interrupt machine

/-- Writes a value on a line of its own. -/
def print (value : Value) : Run Unit := fun machine =>
  match machine.output.write (value.text ++ "\n").toUTF8 with
  | (output, none) => .ok () { machine with output }
  | (output, some error) => .error (.output error) { machine with output }

def flush : Run Unit := fun machine =>
  match machine.output.flushError? with
  | none => .ok () machine
  | some error => .error (.output error) machine

/-- Runs a body as long as a condition holds, for at most the given number of rounds. -/
def loop (condition : Run Bool) (body : Run Unit) : (rounds : Nat) → Run Unit
  | 0 => throw .exhausted
  | rounds + 1 => do
    if ← condition then
      body
      loop condition body rounds

/-- Every so many levels, the levels below run on a stack of their own. -/
def levelsPerStack : Nat := 65536

/-- Runs the work of one level, maybe on a fresh stack. The outcome is the same. -/
@[inline] def onLevel (level : Nat) (work : Run α) : Run α := fun machine =>
  if level % levelsPerStack = 0 then (Task.spawn (fun _ => work machine) .dedicated).get
  else work machine

theorem onLevel_eq (level : Nat) (work : Run α) : onLevel level work = work := by
  funext machine
  unfold onLevel
  split <;> rfl

end Run

end Lox
