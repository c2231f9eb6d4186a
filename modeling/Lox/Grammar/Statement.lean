import Lox.Grammar.Expression
import Lox.Stmt.Basic
set_option autoImplicit false

/-! The grammar of statements and declarations. A rule is entered behind the word or brace that
tells it from the others. -/

namespace Lox

/-- The rules one nesting level deeper. -/
structure Inner extends InnerExpr where
  statement : Parser Stmt
  declaration : Parser Stmt

namespace Grammar

open Lox.Parser

def expressionStatement (inner : Inner) : Parser Stmt := do
  let value ← inner.expression
  let _ ← expect .semicolon .expressionEnd
  return .expression value

def printStatement (inner : Inner) : Parser Stmt := do
  let value ← inner.expression
  let _ ← expect .semicolon .valueEnd
  return .print value

/-- An expression that is left out where a token of the given kind follows. -/
def optionalBefore (kind : TokenKind) (inner : Inner) : Parser (Option Expr) := do
  if ← nextIs (· == kind) then return none
  return some (← inner.expression)

/-- Outside every function body the word itself is noted. -/
def returnStatement (keyword : Token) (inner : Inner) : Parser Stmt := do
  if (← get).functionDepth = 0 then note ⟨keyword, .returnOutsideFunction⟩
  let value ← optionalBefore .semicolon inner
  let _ ← expect .semicolon .returnEnd
  return .returning keyword value

def variableDeclaration (inner : Inner) : Parser Stmt := do
  let name ← expect .identifier .variableName
  let initializer ← do
    match ← accept (· == .equal) with
    | none => pure none
    | some _ => some <$> inner.expression
  let _ ← expect .semicolon .variableEnd
  return .variable name initializer

/-- Declarations up to the closing brace. -/
def block (inner : Inner) : Parser (List Stmt) := do
  let statements ← many do
    if ← nextIs (· != .rightBrace) then some <$> inner.declaration else return none
  let _ ← expect .rightBrace .blockClose
  return statements

/-- The parameters of a function, up to the closing parenthesis. -/
def parameters : Parser (List Token) := do
  if ← nextIs (· == .rightParen) then return []
  commaSeparated .tooManyParameters (expect .identifier .parameterName)

def functionDeclaration (inner : Inner) : Parser Stmt := do
  let name ← expect .identifier .functionName
  let _ ← expect .leftParen .functionOpen
  let items ← parameters
  let _ ← expect .rightParen .parametersClose
  let _ ← expect .leftBrace .bodyOpen
  return .function 0 name items (← insideFunction (block inner))

/-- An `else` belongs to the nearest `if`. -/
def ifStatement (inner : Inner) : Parser Stmt := do
  let _ ← expect .leftParen .ifOpen
  let condition ← inner.expression
  let _ ← expect .rightParen .ifClose
  let thenBranch ← inner.statement
  match ← accept (· == .elseWord) with
  | none => return .branch condition thenBranch none
  | some _ => return .branch condition thenBranch (some (← inner.statement))

def whileStatement (inner : Inner) : Parser Stmt := do
  let _ ← expect .leftParen .whileOpen
  let condition ← inner.expression
  let _ ← expect .rightParen .whileClose
  return .loop condition (← inner.statement)

/-- The first clause of a `for` loop, with its semicolon. -/
def forInitializer (inner : Inner) : Parser (Option Stmt) := do
  if let some _ ← accept (· == .semicolon) then
    return none
  if let some _ ← accept (· == .varWord) then
    return some (← variableDeclaration inner)
  return some (← expressionStatement inner)

def forStatement (inner : Inner) : Parser Stmt := do
  let _ ← expect .leftParen .forOpen
  let initializer ← forInitializer inner
  let condition ← optionalBefore .semicolon inner
  let _ ← expect .semicolon .loopConditionEnd
  let increment ← optionalBefore .rightParen inner
  let _ ← expect .rightParen .forClose
  let body ← inner.statement
  return .forLoop initializer condition increment body

def statement (inner : Inner) : Parser Stmt := do
  if let some _ ← accept (· == .forWord) then
    return ← forStatement inner
  if let some _ ← accept (· == .ifWord) then
    return ← ifStatement inner
  if let some _ ← accept (· == .printWord) then
    return ← printStatement inner
  if let some keyword ← accept (· == .returnWord) then
    return ← returnStatement keyword inner
  if let some _ ← accept (· == .whileWord) then
    return ← whileStatement inner
  if let some _ ← accept (· == .leftBrace) then
    return .block (← block inner)
  expressionStatement inner

/-- A statement that is no declaration stands one level deeper than the declaration it fills. -/
def declaration (inner : Inner) : Parser Stmt := do
  if let some _ ← accept (· == .funWord) then
    return ← functionDeclaration inner
  if let some _ ← accept (· == .varWord) then
    return ← variableDeclaration inner
  inner.statement

end Grammar

end Lox
