import Lox.Run.Error
import Lox.Run.Value
set_option autoImplicit false

/-! The operations that operators name. -/

namespace Lox

inductive UnaryOperation where
  | negate
  | not
  deriving DecidableEq, Repr

inductive Arithmetic where
  | subtract
  | multiply
  | divide
  deriving DecidableEq, Repr

inductive Comparison where
  | greater
  | greaterEqual
  | less
  | lessEqual
  deriving DecidableEq, Repr

inductive BinaryOperation where
  | add
  | arithmetic (operation : Arithmetic)
  | comparison (relation : Comparison)
  | equal
  | notEqual
  deriving DecidableEq, Repr

def UnaryOperation.ofKind? : TokenKind → Option UnaryOperation
  | .minus => some .negate
  | .bang => some .not
  | _ => none

def BinaryOperation.ofKind? : TokenKind → Option BinaryOperation
  | .plus => some .add
  | .minus => some (.arithmetic .subtract)
  | .star => some (.arithmetic .multiply)
  | .slash => some (.arithmetic .divide)
  | .greater => some (.comparison .greater)
  | .greaterEqual => some (.comparison .greaterEqual)
  | .less => some (.comparison .less)
  | .lessEqual => some (.comparison .lessEqual)
  | .equalEqual => some .equal
  | .bangEqual => some .notEqual
  | _ => none

namespace UnaryOperation

def apply : UnaryOperation → Value → Except RuntimeError Value
  | negate, .literal (.number operand) => .ok (.number (-operand))
  | negate, _ => .error .notNumber
  | not, operand => .ok (.bool !operand.isTruthy)

/-- No operation gives a function. -/
theorem apply_literal {operation : UnaryOperation} {operand value : Value}
    (applied : operation.apply operand = .ok value) : ∃ literal, value = .literal literal := by
  unfold apply at applied
  split at applied <;> cases applied <;> exact ⟨_, rfl⟩

end UnaryOperation

/-- There is no quotient by either zero. -/
def Arithmetic.apply (operation : Arithmetic) (left right : Float) : Except RuntimeError Float :=
  match operation with
  | subtract => .ok (left - right)
  | multiply => .ok (left * right)
  | divide => if right == 0 then .error .divisionByZero else .ok (left / right)

/-- No relation holds of `NaN`. -/
def Comparison.holds (relation : Comparison) (left right : Float) : Bool :=
  match relation with
  | greater => right < left
  | greaterEqual => right ≤ left
  | less => left < right
  | lessEqual => left ≤ right

namespace BinaryOperation

/-- Two numbers have a sum; a string on either side makes the sum the text of both. -/
def sum : Value → Value → Except RuntimeError Value
  | .literal (.number left), .literal (.number right) => .ok (.number (left + right))
  | .literal (.string left), right => .ok (.string (left ++ right.text))
  | left, .literal (.string right) => .ok (.string (left.text ++ right))
  | _, _ => .error .notNumbers

def apply : BinaryOperation → Value → Value → Except RuntimeError Value
  | add, left, right => sum left right
  | arithmetic operation, .literal (.number left), .literal (.number right) =>
    .number <$> operation.apply left right
  | comparison relation, .literal (.number left), .literal (.number right) =>
    .ok (.bool (relation.holds left right))
  | equal, left, right => .ok (.bool (left.same right))
  | notEqual, left, right => .ok (.bool !left.same right)
  | _, _, _ => .error .notNumbers

theorem sum_literal {left right value : Value} (applied : sum left right = .ok value) :
    ∃ literal, value = .literal literal := by
  unfold sum at applied
  split at applied <;> cases applied <;> exact ⟨_, rfl⟩

theorem apply_literal {operation : BinaryOperation} {left right value : Value}
    (applied : operation.apply left right = .ok value) : ∃ literal, value = .literal literal := by
  unfold apply at applied
  split at applied
  · exact sum_literal applied
  · next operation left right =>
      cases outcome : operation.apply left right with
      | error error =>
          rw [outcome] at applied
          cases applied
      | ok number =>
          rw [outcome] at applied
          cases applied
          exact ⟨_, rfl⟩
  all_goals cases applied <;> exact ⟨_, rfl⟩

end BinaryOperation

end Lox
