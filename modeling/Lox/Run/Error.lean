import Lox.Token.Basic
set_option autoImplicit false

/-! What can go wrong while a program runs. -/

namespace Lox

inductive RuntimeError where
  | undefinedVariable (name : String)
  | notCallable
  | wrongArity (expected given : Nat)
  | notBoolean
  | notNumber
  | notNumbers
  | divisionByZero
  deriving DecidableEq, Repr

def RuntimeError.message : RuntimeError → String
  | undefinedVariable name => "Undefined variable '" ++ name ++ "'."
  | notCallable => "Can only call functions and classes."
  | wrongArity expected given =>
    "Expected " ++ toString expected ++ " arguments but got " ++ toString given ++ "."
  | notBoolean => "Operand must be a boolean."
  | notNumber => "Operand must be a number."
  | notNumbers => "Operands must be numbers."
  | divisionByZero => "Divided by the /0"

/-- A run-time error and the line of the token to blame. -/
structure RuntimeFailure where
  line : Nat
  error : RuntimeError
  deriving DecidableEq, Repr

/-- An undefined name is to blame itself. -/
def RuntimeFailure.undefined (name : Token) : RuntimeFailure :=
  ⟨name.line, .undefinedVariable name.lexeme⟩

inductive OutputError where
  | full
  | flushFailed
  deriving DecidableEq, Repr

def OutputError.message : OutputError → String
  | full => "output full"
  | flushFailed => "flush failed"

end Lox
