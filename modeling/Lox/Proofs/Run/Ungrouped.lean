import Lox.Proofs.Expr.Ungrouped
import Lox.Proofs.Run.Moment
import Lox.Proofs.Scope.Mapped
set_option autoImplicit false

/-! Values and machines without groupings. A function value carries the body of its declaration, so the
groupings of trees are also in the values that a machine holds. No operation on values and no action
of a machine sees a difference. -/

namespace Lox

/-! ### Values -/

def FunctionDeclaration.ungrouped (declaration : FunctionDeclaration) : FunctionDeclaration :=
  { declaration with body := Stmt.ungroupedAll declaration.body }

def Callable.ungrouped : Callable → Callable
  | closure declaration scope => closure declaration.ungrouped scope
  | clock => clock

def Value.ungrouped : Value → Value
  | literal value => literal value
  | callable function => callable function.ungrouped

namespace Callable

@[simp] theorem arity_ungrouped (function : Callable) :
    function.ungrouped.arity = function.arity := by
  cases function <;> rfl

@[simp] theorem text_ungrouped (function : Callable) : function.ungrouped.text = function.text := by
  cases function <;> rfl

/-- Functions are compared by their labels, which stay. -/
@[simp] theorem same_ungrouped (left right : Callable) :
    left.ungrouped.same right.ungrouped = left.same right := by
  cases left <;> cases right <;> rfl

end Callable

namespace Value

@[simp] theorem isTruthy_ungrouped (value : Value) :
    value.ungrouped.isTruthy = value.isTruthy := by
  cases value <;> rfl

@[simp] theorem text_ungrouped (value : Value) : value.ungrouped.text = value.text := by
  cases value with
  | literal value => rfl
  | callable function => exact function.text_ungrouped

@[simp] theorem same_ungrouped (left right : Value) :
    left.ungrouped.same right.ungrouped = left.same right := by
  cases left with
  | literal left => cases right <;> rfl
  | callable left =>
      cases right with
      | literal right => rfl
      | callable right => exact left.same_ungrouped right

end Value

theorem UnaryOperation.apply_ungrouped (operation : UnaryOperation) (operand : Value) :
    operation.apply operand.ungrouped = (operation.apply operand).map Value.ungrouped := by
  cases operation with
  | negate =>
      cases operand with
      | callable function => rfl
      | literal value => cases value <;> rfl
  | not =>
      change Except.ok (Value.bool !operand.ungrouped.isTruthy) = _
      rw [Value.isTruthy_ungrouped]
      rfl

namespace BinaryOperation

theorem sum_ungrouped (left right : Value) :
    sum left.ungrouped right.ungrouped = (sum left right).map Value.ungrouped := by
  cases left with
  | literal left =>
      cases right with
      | literal right => cases left <;> cases right <;> rfl
      | callable right =>
          cases left with
          | string left =>
              change Except.ok (Value.string (left ++ right.ungrouped.text)) = _
              rw [Callable.text_ungrouped]
              rfl
          | nil | bool | number => rfl
  | callable left =>
      cases right with
      | callable right => rfl
      | literal right =>
          cases right with
          | string right =>
              change Except.ok (Value.string (left.ungrouped.text ++ right)) = _
              rw [Callable.text_ungrouped]
              rfl
          | nil | bool | number => rfl

theorem apply_ungrouped (operation : BinaryOperation) (left right : Value) :
    operation.apply left.ungrouped right.ungrouped
      = (operation.apply left right).map Value.ungrouped := by
  cases operation with
  | add => exact sum_ungrouped left right
  | equal =>
      change Except.ok (Value.bool (left.ungrouped.same right.ungrouped)) = _
      rw [Value.same_ungrouped]
      rfl
  | notEqual =>
      change Except.ok (Value.bool !left.ungrouped.same right.ungrouped) = _
      rw [Value.same_ungrouped]
      rfl
  | arithmetic operation =>
      cases left with
      | callable left => rfl
      | literal left =>
          cases right with
          | callable right => cases left <;> rfl
          | literal right =>
              cases left with
              | number left =>
                  cases right with
                  | number right =>
                      change Value.number <$> operation.apply left right
                        = (Value.number <$> operation.apply left right).map Value.ungrouped
                      cases operation.apply left right <;> rfl
                  | nil | bool | string => rfl
              | nil | bool | string => rfl
  | comparison relation =>
      cases left with
      | callable left => rfl
      | literal left =>
          cases right with
          | callable right => cases left <;> rfl
          | literal right => cases left <;> cases right <;> rfl

end BinaryOperation

/-! ### Machines -/

def Interrupt.ungrouped : Interrupt → Interrupt
  | returning value => returning value.ungrouped
  | interrupt => interrupt

def Machine.ungrouped (machine : Machine) : Machine :=
  { machine with arena := machine.arena.mapValues Value.ungrouped }

namespace Machine

theorem size_ungrouped (machine : Machine) : machine.ungrouped.arena.size = machine.arena.size :=
  machine.arena.size_mapValues Value.ungrouped

theorem initial_ungrouped (output : Output) : (initial output).ungrouped = initial output := by
  change Machine.mk (Arena.mapValues Value.ungrouped (Arena.define _ _ _ _)) 0 output = _
  rw [Arena.mapValues_define, Arena.mapValues_initial]
  rfl

theorem leave_ungrouped (settings : Settings) (scope : ScopeId) (machine : Machine) :
    machine.ungrouped.leave settings scope = (machine.leave settings scope).ungrouped := by
  unfold leave
  split
  · exact congrArg (fun arena => Machine.mk arena machine.callDepth machine.output)
      (machine.arena.mapValues_release Value.ungrouped scope).symm
  · rfl

end Machine

namespace Run

variable {α : Type}

/-- What an action came to, without groupings. -/
def ungroupedResult (image : α → α) :
    EStateM.Result Interrupt Machine α → EStateM.Result Interrupt Machine α
  | .ok result machine => .ok (image result) machine.ungrouped
  | .error interrupt machine => .error interrupt.ungrouped machine.ungrouped

/-- On a machine without groupings one action comes to the same as the other, without groupings. -/
def Ungroups (image : α → α) (bare action : Run α) : Prop :=
  ∀ machine : Machine, bare machine.ungrouped = ungroupedResult image (action machine)

theorem lookup_ungroups (scope : ScopeId) (name : Token) :
    Ungroups Value.ungrouped (lookup scope name) (lookup scope name) := by
  intro machine
  have found : machine.ungrouped.arena.get? scope name.lexeme
      = (machine.arena.get? scope name.lexeme).map Value.ungrouped :=
    machine.arena.get?_mapValues Value.ungrouped scope name.lexeme
  unfold lookup
  rw [found]
  cases machine.arena.get? scope name.lexeme <;> rfl

theorem assign_ungroups (scope : ScopeId) (name : Token) (value : Value) :
    Ungroups id (assign scope name value.ungrouped) (assign scope name value) := by
  intro machine
  have assigned : machine.ungrouped.arena.assign scope name.lexeme value.ungrouped
      = ((machine.arena.assign scope name.lexeme value).1,
          (machine.arena.assign scope name.lexeme value).2.mapValues Value.ungrouped) :=
    machine.arena.assign_mapValues Value.ungrouped scope name.lexeme value
  unfold assign
  rw [assigned]
  rcases machine.arena.assign scope name.lexeme value with ⟨known, arena⟩
  cases known <;> rfl

theorem define_ungroups (scope : ScopeId) (name : Token) (value : Value) :
    Ungroups id (define scope name value.ungrouped) (define scope name value) := by
  intro machine
  change EStateM.Result.ok () (Machine.mk
    ((machine.arena.mapValues Value.ungrouped).define scope name.lexeme value.ungrouped) _ _) = _
  rw [← Arena.mapValues_define]
  rfl

theorem push_ungroups (enclosing : ScopeId) : Ungroups id (push enclosing) (push enclosing) := by
  intro machine
  change EStateM.Result.ok machine.ungrouped.arena.size (Machine.mk
    ((machine.arena.mapValues Value.ungrouped).push enclosing).2 _ _) = _
  rw [machine.size_ungrouped, ← Arena.mapValues_push]
  rfl

/-- A declaration captures its scope and defines its name there. -/
theorem declare_ungroups (scope : ScopeId) (name : Token) (value : Value) :
    Ungroups id
      (do
        capture scope
        define scope name value.ungrouped)
      (do
        capture scope
        define scope name value) := by
  intro machine
  change EStateM.Result.ok () (Machine.mk
    (((machine.arena.mapValues Value.ungrouped).capture scope).define scope name.lexeme
      value.ungrouped) _ _) = _
  rw [← Arena.mapValues_capture, ← Arena.mapValues_define]
  rfl

theorem print_ungroups (value : Value) : Ungroups id (print value.ungrouped) (print value) := by
  intro machine
  unfold print Machine.ungrouped
  rw [Value.text_ungrouped]
  rcases machine.output.write (value.text ++ "\n").toUTF8 with ⟨output, error?⟩
  cases error? <;> rfl

theorem flush_ungroups : Ungroups id flush flush := by
  intro machine
  unfold flush Machine.ungrouped
  cases machine.output.flushError? <;> rfl

theorem ofOperation_ungroups (line : Nat) (outcome : Except RuntimeError Value) :
    Ungroups Value.ungrouped (ofOperation line (outcome.map Value.ungrouped))
      (ofOperation line outcome) := by
  intro machine
  cases outcome <;> rfl

theorem applyUnary_ungroups (operator : Token) (operand : Value) :
    Ungroups Value.ungrouped (Evaluator.applyUnary operator operand.ungrouped)
      (Evaluator.applyUnary operator operand) := by
  unfold Evaluator.applyUnary
  cases UnaryOperation.ofKind? operator.kind with
  | none => exact fun machine => rfl
  | some operation =>
      dsimp only
      rw [operation.apply_ungrouped]
      exact ofOperation_ungroups operator.line (operation.apply operand)

theorem applyBinary_ungroups (operator : Token) (left right : Value) :
    Ungroups Value.ungrouped (Evaluator.applyBinary operator left.ungrouped right.ungrouped)
      (Evaluator.applyBinary operator left right) := by
  unfold Evaluator.applyBinary
  cases BinaryOperation.ofKind? operator.kind with
  | none => exact fun machine => rfl
  | some operation =>
      dsimp only
      rw [operation.apply_ungrouped]
      exact ofOperation_ungroups operator.line (operation.apply left right)

end Run

end Lox
