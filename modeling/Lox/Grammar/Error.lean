import Lox.Token.Basic
set_option autoImplicit false

/-! What can be wrong with a sequence of tokens, and at which token. -/

namespace Lox

/-- What the grammar asks for at a place where only one thing may stand. -/
inductive Expected where
  | expression
  | endOfExpression
  | groupClose
  | argumentsClose
  | conditionalColon
  | valueEnd
  | returnEnd
  | expressionEnd
  | variableName
  | variableEnd
  | functionName
  | functionOpen
  | parameterName
  | parametersClose
  | bodyOpen
  | blockClose
  | ifOpen
  | ifClose
  | whileOpen
  | whileClose
  | forOpen
  | loopConditionEnd
  | forClose
  deriving DecidableEq, Repr

def Expected.phrase : Expected → String
  | expression => "expression"
  | endOfExpression => "end of expression"
  | groupClose => "')' after expression"
  | argumentsClose => "')' after arguments"
  | conditionalColon => "':' after then branch of conditional expression"
  | valueEnd => "';' after value"
  | returnEnd => "';' after return value"
  | expressionEnd => "';' after expression"
  | variableName => "variable name"
  | variableEnd => "';' after variable declaration"
  | functionName => "function name"
  | functionOpen => "'(' after function name"
  | parameterName => "parameter name"
  | parametersClose => "')' after parameters"
  | bodyOpen => "'\x7b' before function body"
  | blockClose => "'\x7d' after block"
  | ifOpen => "'(' after 'if'"
  | ifClose => "')' after if condition"
  | whileOpen => "'(' after 'while'"
  | whileClose => "')' after condition"
  | forOpen => "'(' after 'for'"
  | loopConditionEnd => "';' after loop condition"
  | forClose => "')' after for clauses"

/-- The first two give up the declaration they stand in; the others are noted and parsing goes
on. -/
inductive SyntaxError where
  | missing (item : Expected)
  | tooMuchNesting
  | invalidAssignmentTarget
  | tooManyArguments
  | tooManyParameters
  | returnOutsideFunction
  deriving DecidableEq, Repr

def SyntaxError.message : SyntaxError → String
  | missing item => "Expect " ++ item.phrase ++ "."
  | tooMuchNesting => "Too much nesting."
  | invalidAssignmentTarget => "Invalid assignment target."
  | tooManyArguments => "Can't have more than 255 arguments."
  | tooManyParameters => "Can't have more than 255 parameters."
  | returnOutsideFunction => "Can't return from top-level code."

/-- A syntax error and the token it points to. -/
structure SyntaxReport where
  token : Token
  error : SyntaxError

end Lox
