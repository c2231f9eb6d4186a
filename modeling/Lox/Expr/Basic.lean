import Lox.Token.Basic
set_option autoImplicit false

/-! Expressions. A node keeps the token that a message about it points to, which for operators and
names also carries their spelling. -/

namespace Lox

inductive Expr where
  | literal (value : Literal)
  | variable (name : Token)
  | assign (name : Token) (value : Expr)
  | unary (operator : Token) (operand : Expr)
  | binary (left : Expr) (operator : Token) (right : Expr)
  | logical (left : Expr) (operator : Token) (right : Expr)
  | conditional (condition : Expr) (question : Token) (thenBranch elseBranch : Expr)
  | call (callee : Expr) (paren : Token) (arguments : List Expr)
  | grouping (inner : Expr)

end Lox
