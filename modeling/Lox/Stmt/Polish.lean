import Lox.Expr.Polish
import Lox.Stmt.Basic
set_option autoImplicit false

/-! The Polish form of a statement: its name and its parts in parentheses. -/

namespace Lox

mutual

def Stmt.polish : Stmt → String
  | .expression value => parenthesized ["expr", value.polish]
  | .print value => parenthesized ["print", value.polish]
  | .returning _ none => parenthesized ["return"]
  | .returning _ (some value) => parenthesized ["return", value.polish]
  | .variable name none => parenthesized ["var", name.lexeme]
  | .variable name (some initializer) => parenthesized ["var", name.lexeme, initializer.polish]
  | .function _ name parameters body =>
    parenthesized ("fun" :: name.lexeme :: parenthesized (parameters.map (·.lexeme))
      :: Stmt.polishAll body)
  | .block statements => parenthesized ("block" :: Stmt.polishAll statements)
  | .branch condition thenBranch none =>
    parenthesized ["if", condition.polish, thenBranch.polish]
  | .branch condition thenBranch (some elseBranch) =>
    parenthesized ["if", condition.polish, thenBranch.polish, elseBranch.polish]
  | .loop condition body => parenthesized ["while", condition.polish, body.polish]

def Stmt.polishAll : List Stmt → List String
  | [] => []
  | first :: others => first.polish :: Stmt.polishAll others

end

end Lox
