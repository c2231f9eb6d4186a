import Lox.Run.Machine
set_option autoImplicit false

/-! How statements run and expressions evaluate. One level of a tree is worked on by `evaluateNode`
and `executeNode`, which leave the trees below to an `Evaluator`; `evaluator` ties the two together
to any depth. Depth and loop rounds are bounded by a number of steps, which only decides whether
there is an answer (`Interrupt.exhausted`) and not which. -/

namespace Lox

structure Evaluator where
  evaluate : ScopeId → Expr → Run Value
  execute : ScopeId → Stmt → Run Unit
  /-- How many rounds a loop may take. -/
  rounds : Nat

namespace Evaluator

open Run

/-- Runs statements one after the other, until one is interrupted. -/
def executeAll (self : Evaluator) (scope : ScopeId) : List Stmt → Run Unit
  | [] => pure ()
  | first :: others => do
    self.execute scope first
    self.executeAll scope others

/-- Evaluates expressions from left to right. -/
def evaluateAll (self : Evaluator) (scope : ScopeId) : List Expr → Run (List Value)
  | [] => pure []
  | first :: others => do
    let first ← self.evaluate scope first
    let others ← self.evaluateAll scope others
    return first :: others

/-- Runs statements in a scope that was opened for them. -/
def executeBlock (settings : Settings) (self : Evaluator) (scope : ScopeId)
    (statements : List Stmt) : Run Unit :=
  releasing settings scope (self.executeAll scope statements)

/-- Binds parameters to arguments, in order. -/
def defineAll (scope : ScopeId) : List Token → List Value → Run Unit
  | parameter :: parameters, argument :: arguments => do
    define scope parameter argument
    defineAll scope parameters arguments
  | _, _ => pure ()

/-- The body of a function runs in a scope inside the one that the function closes over, which need
not be related to the scope of the caller. -/
def invoke (settings : Settings) (self : Evaluator) (arguments : List Value) :
    Callable → Run Value
  | .clock => return .number settings.time
  | .closure declaration closure => do
    let scope ← push closure
    defineAll scope declaration.parameters arguments
    returned (self.executeBlock settings scope declaration.body)

def applyUnary (operator : Token) (operand : Value) : Run Value :=
  match UnaryOperation.ofKind? operator.kind with
  | none => throw .stuck
  | some operation => ofOperation operator.line (operation.apply operand)

def applyBinary (operator : Token) (left right : Value) : Run Value :=
  match BinaryOperation.ofKind? operator.kind with
  | none => throw .stuck
  | some operation => ofOperation operator.line (operation.apply left right)

/-- One level of evaluation. What is called is settled before the arguments are evaluated, and
their number before the depth of calls. -/
def evaluateNode (settings : Settings) (self : Evaluator) (scope : ScopeId) : Expr → Run Value
  | .literal value => return .literal value
  | .variable name => lookup scope name
  | .assign name value => do
    let value ← self.evaluate scope value
    assign scope name value
    return value
  | .unary operator operand => do
    let operand ← self.evaluate scope operand
    applyUnary operator operand
  | .binary left operator right => do
    let left ← self.evaluate scope left
    let right ← self.evaluate scope right
    applyBinary operator left right
  | .logical left operator right => do
    let left ← self.evaluate scope left
    let settled := if operator.kind == .orWord then left.isTruthy else !left.isTruthy
    if settled then return left else self.evaluate scope right
  | .conditional condition question thenBranch elseBranch => do
    match ← self.evaluate scope condition with
    | .literal (.bool true) => self.evaluate scope thenBranch
    | .literal (.bool false) => self.evaluate scope elseBranch
    | _ => fail question.line .notBoolean
  | .call callee paren arguments => do
    match ← self.evaluate scope callee with
    | .literal _ => fail paren.line .notCallable
    | .callable function =>
      let arguments ← self.evaluateAll scope arguments
      if arguments.length = function.arity then
        counted settings (self.invoke settings arguments function)
      else fail paren.line (.wrongArity function.arity arguments.length)
  | .grouping inner => self.evaluate scope inner

/-- The value of an expression that may be left out. -/
def evaluateOptional (self : Evaluator) (scope : ScopeId) : Option Expr → Run Value
  | none => return .nil
  | some value => self.evaluate scope value

def isTrue (self : Evaluator) (scope : ScopeId) (condition : Expr) : Run Bool := do
  return (← self.evaluate scope condition).isTruthy

/-- One level of execution. -/
def executeNode (settings : Settings) (self : Evaluator) (scope : ScopeId) : Stmt → Run Unit
  | .expression value => do
    let _ ← self.evaluate scope value
  | .print value => do
    let value ← self.evaluate scope value
    print value
  | .returning _ value => do
    let value ← self.evaluateOptional scope value
    throw (.returning value)
  | .variable name initializer => do
    let value ← self.evaluateOptional scope initializer
    define scope name value
  | .function label name parameters body => do
    capture scope
    define scope name (.callable (.closure ⟨label, name, parameters, body⟩ scope))
  | .block statements => do
    let inner ← push scope
    self.executeBlock settings inner statements
  | .branch condition thenBranch elseBranch => do
    if ← self.isTrue scope condition then self.execute scope thenBranch
    else
      match elseBranch with
      | none => pure ()
      | some elseBranch => self.execute scope elseBranch
  | .loop condition body =>
    loop (self.isTrue scope condition) (self.execute scope body) self.rounds

mutual

/-- Evaluates in at most `steps` levels. -/
def evaluateWithin (settings : Settings) : (steps : Nat) → ScopeId → Expr → Run Value
  | 0, _, _ => throw .exhausted
  | steps + 1, scope, expression =>
    let self : Evaluator :=
      ⟨evaluateWithin settings steps, executeWithin settings steps, steps⟩
    onLevel steps (self.evaluateNode settings scope expression)

/-- Executes in at most `steps` levels. -/
def executeWithin (settings : Settings) : (steps : Nat) → ScopeId → Stmt → Run Unit
  | 0, _, _ => throw .exhausted
  | steps + 1, scope, statement =>
    let self : Evaluator :=
      ⟨evaluateWithin settings steps, executeWithin settings steps, steps⟩
    onLevel steps (self.executeNode settings scope statement)

end

end Evaluator

/-- Works in at most `steps` levels. -/
def evaluator (settings : Settings) (steps : Nat) : Evaluator :=
  ⟨Evaluator.evaluateWithin settings steps, Evaluator.executeWithin settings steps, steps⟩

theorem evaluator_zero (settings : Settings) :
    evaluator settings 0 = ⟨fun _ _ => throw .exhausted, fun _ _ => throw .exhausted, 0⟩ := by
  rfl

/-- With one more step, one more level is worked on. -/
theorem evaluator_succ (settings : Settings) (steps : Nat) :
    evaluator settings (steps + 1)
      = ⟨(evaluator settings steps).evaluateNode settings,
          (evaluator settings steps).executeNode settings, steps + 1⟩ := by
  simp only [evaluator, Evaluator.mk.injEq, and_true]
  constructor <;> funext scope node
  · simp only [Evaluator.evaluateWithin, Run.onLevel_eq]
  · simp only [Evaluator.executeWithin, Run.onLevel_eq]

end Lox
