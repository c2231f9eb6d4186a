import Lox.Expr.Basic
set_option autoImplicit false

/-! The reverse Polish form of an expression: operands first, the operator behind them, and no
parentheses. A negation is written `~`, so that it is no subtraction, and a call tells how many
arguments it takes. -/

namespace Lox

/-- How a unary operator is written behind its operand. -/
def unaryWord (operator : Token) : String :=
  if operator.lexeme == "-" then "~" else operator.lexeme

mutual

/-- The words of the form, in order. -/
def Expr.reversePolishWords : Expr → List String
  | .literal value => [value.text]
  | .variable name => [name.lexeme]
  | .assign name value => name.lexeme :: value.reversePolishWords ++ ["="]
  | .unary operator operand => operand.reversePolishWords ++ [unaryWord operator]
  | .binary left operator right =>
    left.reversePolishWords ++ right.reversePolishWords ++ [operator.lexeme]
  | .logical left operator right =>
    left.reversePolishWords ++ right.reversePolishWords ++ [operator.lexeme]
  | .conditional condition _ thenBranch elseBranch =>
    condition.reversePolishWords ++ thenBranch.reversePolishWords
      ++ elseBranch.reversePolishWords ++ ["?:"]
  | .call callee _ arguments =>
    callee.reversePolishWords ++ Expr.reversePolishWordsAll arguments
      ++ ["call/" ++ toString arguments.length]
  | .grouping inner => inner.reversePolishWords

def Expr.reversePolishWordsAll : List Expr → List String
  | [] => []
  | first :: others => first.reversePolishWords ++ Expr.reversePolishWordsAll others

end

def Expr.reversePolish (expression : Expr) : String :=
  " ".intercalate expression.reversePolishWords

end Lox
