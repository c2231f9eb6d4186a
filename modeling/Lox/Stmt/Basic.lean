import Lox.Expr.Basic
set_option autoImplicit false

/-! Statements. A `for` loop is no statement of its own: `Stmt.forLoop` says which statement it
stands for. -/

namespace Lox

/-- The label of a function declaration tells it from every other one. It is 0 until a program is
loaded for a run. -/
inductive Stmt where
  | expression (value : Expr)
  | print (value : Expr)
  | returning (keyword : Token) (value : Option Expr)
  | variable (name : Token) (initializer : Option Expr)
  | function (label : Nat) (name : Token) (parameters : List Token) (body : List Stmt)
  | block (statements : List Stmt)
  | branch (condition : Expr) (thenBranch : Stmt) (elseBranch : Option Stmt)
  | loop (condition : Expr) (body : Stmt)

namespace Stmt

/-- A loop with an increment runs it behind the body, in a scope with the body. -/
def withIncrement (body : Stmt) : Option Expr → Stmt
  | none => body
  | some increment => .block [body, .expression increment]

/-- A loop with an initializer runs it once, in a scope around the loop. -/
def withInitializer (loop : Stmt) : Option Stmt → Stmt
  | none => loop
  | some initializer => .block [initializer, loop]

/-- What a `for` loop stands for. Without a condition it runs for ever. -/
def forLoop (initializer : Option Stmt) (condition increment : Option Expr) (body : Stmt) : Stmt :=
  let condition := condition.getD (.literal (.bool true))
  ((loop condition (body.withIncrement increment)).withInitializer initializer)

end Stmt

end Lox
