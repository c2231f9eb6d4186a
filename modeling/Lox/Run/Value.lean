import Lox.Scope.Arena
import Lox.Stmt.Basic
set_option autoImplicit false

/-! What expressions evaluate to. -/

namespace Lox

/-- A declared function, told from others by its label. -/
structure FunctionDeclaration where
  label : Nat
  name : Token
  parameters : List Token
  body : List Stmt

inductive Callable where
  /-- A declaration together with the scope in which it was met. -/
  | closure (declaration : FunctionDeclaration) (scope : ScopeId)
  /-- The built-in function that tells the time. -/
  | clock

inductive Value where
  | literal (value : Literal)
  | callable (function : Callable)

/-- Values of different types are never the same. Numbers are compared as numbers, so zero has two
signs and `NaN` differs from itself. -/
def Literal.same : Literal → Literal → Bool
  | .nil, .nil => true
  | .bool left, .bool right => left == right
  | .number left, .number right => left == right
  | .string left, .string right => left == right
  | _, _ => false

namespace Callable

def arity : Callable → Nat
  | closure declaration _ => declaration.parameters.length
  | clock => 0

def text : Callable → String
  | closure declaration _ => "<fn " ++ declaration.name.lexeme ++ ">"
  | clock => "<native fn>"

/-- Two closures are the same when one declaration was met in one scope. -/
def same : Callable → Callable → Bool
  | closure left leftScope, closure right rightScope =>
    left.label == right.label && leftScope == rightScope
  | clock, clock => true
  | _, _ => false

end Callable

namespace Value

def nil : Value := literal .nil

def bool (truth : Bool) : Value := literal (.bool truth)

def number (number : Float) : Value := literal (.number number)

def string (text : String) : Value := literal (.string text)

/-- All values but `nil` and `false` count as true. -/
def isTruthy : Value → Bool
  | literal .nil => false
  | literal (.bool truth) => truth
  | _ => true

def text : Value → String
  | literal value => value.text
  | callable function => function.text

def same : Value → Value → Bool
  | literal left, literal right => left.same right
  | callable left, callable right => left.same right
  | _, _ => false

end Value

end Lox
