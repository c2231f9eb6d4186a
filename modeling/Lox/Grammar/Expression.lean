import Lox.Expr.Basic
import Lox.Grammar.Parser
set_option autoImplicit false

/-! The grammar of expressions, one rule per level of precedence, from the loosest to the tightest:
assignment, `or`, `and`, the conditional, equality, comparison, terms, factors, unary operators,
calls, primaries. The binary operators group to the left, assignment and the conditional to the
right. Rules that open a nesting level are reached through `InnerExpr`, so no rule here is
recursive. -/

namespace Lox

/-- The rules one nesting level deeper. -/
structure InnerExpr where
  expression : Parser Expr
  /-- The operand of a unary operator. -/
  operand : Parser Expr

namespace Grammar

open Lox.Parser

/-- How many arguments a call, or parameters a function, can have. -/
def maxItems : Nat := 255

/-- Items divided by commas, at least one. An item beyond the greatest number is noted where it
starts. -/
def commaSeparated {α : Type} (excess : SyntaxError) (item : Parser α) : Parser (List α) := do
  let first ← item
  let items ← repeating (fun items => do
    match ← accept (· == .comma) with
    | none => return none
    | some _ =>
      if maxItems ≤ items.length then noteHere excess
      return some ((← item) :: items)) [first]
  return items.reverse

/-- Operands divided by operators of one level, grouped to the left. -/
def leftChain (operand : Parser Expr) (wanted : TokenKind → Bool)
    (node : Expr → Token → Expr → Expr) : Parser Expr := do
  let first ← operand
  repeating (fun left => do
    match ← accept wanted with
    | none => return none
    | some operator => return some (node left operator (← operand))) first

def isLiteral (kind : TokenKind) : Bool :=
  kind == .number || kind == .string

/-- A literal, a name, or an expression in parentheses. -/
def primary (inner : InnerExpr) : Parser Expr := do
  if let some _ ← accept (· == .falseWord) then
    return .literal (.bool false)
  if let some _ ← accept (· == .trueWord) then
    return .literal (.bool true)
  if let some _ ← accept (· == .nilWord) then
    return .literal .nil
  if let some token ← accept isLiteral then
    return .literal token.literal
  if let some name ← accept (· == .identifier) then
    return .variable name
  if let some _ ← accept (· == .leftParen) then
    let value ← inner.expression
    let _ ← expect .rightParen .groupClose
    return .grouping value
  failHere (.missing .expression)

/-- The arguments of a call, up to the closing parenthesis. -/
def arguments (inner : InnerExpr) : Parser (List Expr) := do
  if ← nextIs (· == .rightParen) then return []
  commaSeparated .tooManyArguments inner.expression

/-- A primary with any number of argument lists behind it. -/
def call (inner : InnerExpr) : Parser Expr := do
  let callee ← primary inner
  repeating (fun callee => do
    match ← accept (· == .leftParen) with
    | none => return none
    | some _ =>
      let items ← arguments inner
      let paren ← expect .rightParen .argumentsClose
      return some (.call callee paren items)) callee

def isUnary (kind : TokenKind) : Bool :=
  kind == .bang || kind == .minus

def unary (inner : InnerExpr) : Parser Expr := do
  match ← accept isUnary with
  | some operator => return .unary operator (← inner.operand)
  | none => call inner

def isFactor (kind : TokenKind) : Bool :=
  kind == .slash || kind == .star

def factor (inner : InnerExpr) : Parser Expr :=
  leftChain (unary inner) isFactor .binary

def isTerm (kind : TokenKind) : Bool :=
  kind == .minus || kind == .plus

def term (inner : InnerExpr) : Parser Expr :=
  leftChain (factor inner) isTerm .binary

def isComparison (kind : TokenKind) : Bool :=
  kind == .greater || kind == .greaterEqual || kind == .less || kind == .lessEqual

def comparison (inner : InnerExpr) : Parser Expr :=
  leftChain (term inner) isComparison .binary

def isEquality (kind : TokenKind) : Bool :=
  kind == .bangEqual || kind == .equalEqual

def equality (inner : InnerExpr) : Parser Expr :=
  leftChain (comparison inner) isEquality .binary

/-- Both branches of a conditional are whole expressions. -/
def conditional (inner : InnerExpr) : Parser Expr := do
  let condition ← equality inner
  match ← accept (· == .question) with
  | none => return condition
  | some question =>
    let thenBranch ← inner.expression
    let _ ← expect .colon .conditionalColon
    let elseBranch ← inner.expression
    return .conditional condition question thenBranch elseBranch

def conjunction (inner : InnerExpr) : Parser Expr :=
  leftChain (conditional inner) (· == .andWord) .logical

def disjunction (inner : InnerExpr) : Parser Expr :=
  leftChain (conjunction inner) (· == .orWord) .logical

/-- Only a bare name can be assigned to. Any other target is noted once the right side has been
read, and stands for the whole. -/
def assignment (inner : InnerExpr) : Parser Expr := do
  let target ← disjunction inner
  match ← accept (· == .equal) with
  | none => return target
  | some equals =>
    let value ← inner.expression
    match target with
    | .variable name => return .assign name value
    | other =>
      note ⟨equals, .invalidAssignmentTarget⟩
      return other

end Grammar

end Lox
