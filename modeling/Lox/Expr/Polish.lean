import Lox.Expr.Basic
set_option autoImplicit false

/-! The Polish form of an expression: every operation in parentheses, its operator first. -/

namespace Lox

/-- Items in parentheses, divided by single blanks. -/
def parenthesized (items : List String) : String :=
  "(" ++ " ".intercalate items ++ ")"

mutual

def Expr.polish : Expr → String
  | .literal value => value.text
  | .variable name => name.lexeme
  | .assign name value => parenthesized ["=", name.lexeme, value.polish]
  | .unary operator operand => parenthesized [operator.lexeme, operand.polish]
  | .binary left operator right => parenthesized [operator.lexeme, left.polish, right.polish]
  | .logical left operator right => parenthesized [operator.lexeme, left.polish, right.polish]
  | .conditional condition _ thenBranch elseBranch =>
    parenthesized ["?:", condition.polish, thenBranch.polish, elseBranch.polish]
  | .call callee _ arguments => parenthesized ("call" :: callee.polish :: Expr.polishAll arguments)
  | .grouping inner => parenthesized ["group", inner.polish]

def Expr.polishAll : List Expr → List String
  | [] => []
  | first :: others => first.polish :: Expr.polishAll others

end

end Lox
