import Lox.Grammar.Program
set_option autoImplicit false

/-! The grammar once more, over a row of tokens and a cursor that only `advance` moves. Nothing holds
by construction here: a token may be read outside the row or before its start, and neither loops nor
recursion are bounded by what is left to read. Loops and recursion run on fuel instead, whose end is
an outcome of its own. -/

namespace Lox

structure Cursor where
  tokens : List Token
  /-- The place of the token that is read next. -/
  current : Nat
  functionDepth : Nat
  nesting : Nat
  hadError : Bool
  /-- The errors reported so far, in order. -/
  reports : List SyntaxReport
  /-- Every place at which the cursor has stood, the latest first. -/
  trail : List Nat

/-- Why there is no outcome. -/
inductive Fault where
  /-- A token was read outside the row. -/
  | outside
  /-- The token before the first one was read. -/
  | beforeStart
  | exhausted
  deriving DecidableEq, Repr

def CursorParser (α : Type) : Type :=
  Cursor → Except Fault (EStateM.Result SyntaxReport Cursor α)

instance : Monad CursorParser where
  pure value := fun cursor => .ok (.ok value cursor)
  bind rule next := fun cursor =>
    match rule cursor with
    | .ok (.ok value after) => next value after
    | .ok (.error report after) => .ok (.error report after)
    | .error fault => .error fault

namespace Cursor

/-- The tokens, with an end of input behind them if none stands there. -/
def closed (tokens : List Token) : List Token :=
  if tokens.getLast?.any (·.kind == .endOfInput) then tokens
  else tokens ++ [.endOfInput ((tokens.getLast?.map (·.line)).getD 1)]

def ofTokens (tokens : List Token) : Cursor where
  tokens := closed tokens
  current := 0
  functionDepth := 0
  nesting := 0
  hadError := false
  reports := []
  trail := [0]

def forward (cursor : Cursor) : Cursor :=
  { cursor with
    current := cursor.current + 1
    trail := (cursor.current + 1) :: cursor.trail }

def noting (report : SyntaxReport) (cursor : Cursor) : Cursor :=
  { cursor with hadError := true, reports := cursor.reports ++ [report] }

end Cursor

instance : LawfulMonad CursorParser :=
  have idMap : ∀ {α : Type} (rule : CursorParser α), id <$> rule = rule := by
    intro α rule
    funext cursor
    change (match rule cursor with
      | .ok (.ok value after) => .ok (.ok value after)
      | .ok (.error report after) => .ok (.error report after)
      | .error fault => .error fault) = rule cursor
    cases rule cursor with
    | error fault => rfl
    | ok outcome => cases outcome <;> rfl
  have bindAssoc : ∀ {α β γ : Type} (rule : CursorParser α) (next : α → CursorParser β)
      (last : β → CursorParser γ),
      rule >>= next >>= last = rule >>= fun value => next value >>= last := by
    intro α β γ rule next last
    funext cursor
    simp only [Bind.bind]
    cases rule cursor with
    | error fault => rfl
    | ok outcome => cases outcome <;> rfl
  LawfulMonad.mk' CursorParser idMap (fun _ _ => rfl) bindAssoc

namespace CursorParser

variable {α β : Type}

theorem bind_eq {rule : CursorParser α} {next : α → CursorParser β} {before after : Cursor}
    {value : α} (ran : rule before = .ok (.ok value after)) :
    (rule >>= next) before = next value after := by
  simp only [Bind.bind, ran]

theorem bind_error {rule : CursorParser α} {next : α → CursorParser β} {before after : Cursor}
    {report : SyntaxReport} (ran : rule before = .ok (.error report after)) :
    (rule >>= next) before = .ok (.error report after) := by
  simp only [Bind.bind, ran]

def cursor : CursorParser Cursor := fun cursor =>
  .ok (.ok cursor cursor)

def update (change : Cursor → Cursor) : CursorParser Unit := fun cursor =>
  .ok (.ok () (change cursor))

def fail (report : SyntaxReport) : CursorParser α := fun cursor =>
  .ok (.error report cursor)

def exhausted : CursorParser α := fun _ =>
  .error .exhausted

/-! ### Tokens -/

def peek : CursorParser Token := fun cursor =>
  match cursor.tokens[cursor.current]? with
  | some token => .ok (.ok token cursor)
  | none => .error .outside

def previous : CursorParser Token := fun cursor =>
  match cursor.current with
  | 0 => .error .beforeStart
  | place + 1 =>
    match cursor.tokens[place]? with
    | some token => .ok (.ok token cursor)
    | none => .error .outside

def isAtEnd : CursorParser Bool := do
  return (← peek).kind == .endOfInput

/-- Moves on, but not beyond an end of input, and gives back the token before the cursor. -/
def advance : CursorParser Token := do
  if ← isAtEnd then previous
  else
    update .forward
    previous

def check (wanted : TokenKind → Bool) : CursorParser Bool := do
  if ← isAtEnd then return false
  else return wanted (← peek).kind

def matching (wanted : TokenKind → Bool) : CursorParser Bool := do
  if ← check wanted then
    let _ ← advance
    return true
  else return false

def failHere (error : SyntaxError) : CursorParser α := do
  fail ⟨← peek, error⟩

def consume (kind : TokenKind) (item : Expected) : CursorParser Token := do
  if ← check (· == kind) then advance else failHere (.missing item)

def report (report : SyntaxReport) : CursorParser Unit :=
  update (.noting report)

/-! ### Levels and loops -/

/-- Runs a rule between two changes of state. The second one takes place also after a failure. -/
def between (enter leave : Cursor → Cursor) (rule : CursorParser α) : CursorParser α :=
  fun cursor =>
    match rule (enter cursor) with
    | .ok (.ok value after) => .ok (.ok value (leave after))
    | .ok (.error report after) => .ok (.error report (leave after))
    | .error fault => .error fault

def nested (limit : Nat) (rule : CursorParser α) : CursorParser α := do
  if limit ≤ (← cursor).nesting then failHere .tooMuchNesting
  else
    between (fun cursor => { cursor with nesting := cursor.nesting + 1 })
      (fun cursor => { cursor with nesting := cursor.nesting - 1 }) rule

def insideFunction (rule : CursorParser α) : CursorParser α :=
  between (fun cursor => { cursor with functionDepth := cursor.functionDepth + 1 })
    (fun cursor => { cursor with functionDepth := cursor.functionDepth - 1 }) rule

/-- Repeats a step until it has no more to give. -/
def repeating (step : α → CursorParser (Option α)) : (fuel : Nat) → α → CursorParser α
  | 0, _ => exhausted
  | fuel + 1, value => do
    match ← step value with
    | none => return value
    | some value => repeating step fuel value

/-- Puts one more item behind the others. -/
def pushItem (excess : SyntaxError) (item : CursorParser α) (items : List α) :
    CursorParser (List α) := do
  if Grammar.maxItems ≤ items.length then report ⟨← peek, excess⟩
  return items ++ [← item]

/-- Items up to the first that no comma follows. -/
def separated (fuel : Nat) (excess : SyntaxError) (item : CursorParser α) :
    CursorParser (List α) := do
  let first ← pushItem excess item []
  repeating (fun items => do
    if ← matching (· == .comma) then some <$> pushItem excess item items
    else return none) fuel first

/-- The items before a closing parenthesis. -/
def listed (fuel : Nat) (excess : SyntaxError) (item : CursorParser α) :
    CursorParser (List α) := do
  if ← check (· == .rightParen) then return []
  else separated fuel excess item

/-- Moves on until behind a semicolon or before a word that starts a declaration. -/
def skipping : (fuel : Nat) → CursorParser Unit
  | 0 => exhausted
  | fuel + 1 => do
    if ← isAtEnd then return ()
    else if (← previous).kind == .semicolon then return ()
    else if Grammar.startsDeclaration (← peek).kind then return ()
    else
      let _ ← advance
      skipping fuel

def synchronize (fuel : Nat) : CursorParser Unit := do
  let _ ← advance
  skipping fuel

/-- The outcome of a rule as a value. -/
def attempt (rule : CursorParser α) : CursorParser (Except SyntaxReport α) := fun cursor =>
  match rule cursor with
  | .ok (.ok value after) => .ok (.ok (.ok value) after)
  | .ok (.error report after) => .ok (.ok (.error report) after)
  | .error fault => .error fault

theorem attempt_eq {rule : CursorParser α} {before after : Cursor} {value : α}
    (ran : rule before = .ok (.ok value after)) :
    attempt rule before = .ok (.ok (.ok value) after) := by
  simp only [attempt, ran]

theorem attempt_error {rule : CursorParser α} {before after : Cursor} {report : SyntaxReport}
    (ran : rule before = .ok (.error report after)) :
    attempt rule before = .ok (.ok (.error report) after) := by
  simp only [attempt, ran]

end CursorParser

/-! ### Rules -/

/-- The rules that open a level. -/
structure CursorRules where
  expression : CursorParser Expr
  operand : CursorParser Expr
  statement : CursorParser Stmt
  declaration : CursorParser Stmt

namespace CursorRules

open CursorParser Grammar

section Expressions

variable (fuel : Nat) (inner : CursorRules)

def leftChain (operand : CursorParser Expr) (wanted : TokenKind → Bool)
    (node : Expr → Token → Expr → Expr) : CursorParser Expr := do
  let first ← operand
  repeating (fun left => do
    if ← matching wanted then
      let operator ← previous
      let right ← operand
      return some (node left operator right)
    else return none) fuel first

def primary : CursorParser Expr := do
  if ← matching (· == .falseWord) then return .literal (.bool false)
  else if ← matching (· == .trueWord) then return .literal (.bool true)
  else if ← matching (· == .nilWord) then return .literal .nil
  else if ← matching isLiteral then
    let token ← previous
    return .literal token.literal
  else if ← matching (· == .identifier) then
    let name ← previous
    return .variable name
  else if ← matching (· == .leftParen) then
    let value ← inner.expression
    let _ ← consume .rightParen .groupClose
    return .grouping value
  else failHere (.missing .expression)

def finishCall (callee : Expr) : CursorParser Expr := do
  let items ← listed fuel .tooManyArguments inner.expression
  let paren ← consume .rightParen .argumentsClose
  return .call callee paren items

def call : CursorParser Expr := do
  let callee ← primary inner
  repeating (fun callee => do
    if ← matching (· == .leftParen) then
      return some (← finishCall fuel inner callee)
    else return none) fuel callee

def unary : CursorParser Expr := do
  if ← matching isUnary then
    let operator ← previous
    let right ← inner.operand
    return .unary operator right
  else call fuel inner

def factor : CursorParser Expr :=
  leftChain fuel (unary fuel inner) isFactor .binary

def term : CursorParser Expr :=
  leftChain fuel (factor fuel inner) isTerm .binary

def comparison : CursorParser Expr :=
  leftChain fuel (term fuel inner) isComparison .binary

def equality : CursorParser Expr :=
  leftChain fuel (comparison fuel inner) isEquality .binary

def ternary : CursorParser Expr := do
  let condition ← equality fuel inner
  if ← matching (· == .question) then
    let question ← previous
    let thenBranch ← inner.expression
    let _ ← consume .colon .conditionalColon
    let elseBranch ← inner.expression
    return .conditional condition question thenBranch elseBranch
  else return condition

def conjunction : CursorParser Expr :=
  leftChain fuel (ternary fuel inner) (· == .andWord) .logical

def disjunction : CursorParser Expr :=
  leftChain fuel (conjunction fuel inner) (· == .orWord) .logical

def assignment : CursorParser Expr := do
  let target ← disjunction fuel inner
  if ← matching (· == .equal) then
    let equals ← previous
    let value ← inner.expression
    match target with
    | .variable name => return .assign name value
    | other =>
      report ⟨equals, .invalidAssignmentTarget⟩
      return other
  else return target

end Expressions

section Statements

variable (fuel : Nat) (inner : CursorRules)

def expressionStatement : CursorParser Stmt := do
  let value ← inner.expression
  let _ ← consume .semicolon .expressionEnd
  return .expression value

def printStatement : CursorParser Stmt := do
  let value ← inner.expression
  let _ ← consume .semicolon .valueEnd
  return .print value

def optionalBefore (kind : TokenKind) : CursorParser (Option Expr) := do
  if ← check (· == kind) then return none
  else return some (← inner.expression)

def returnStatement : CursorParser Stmt := do
  let keyword ← previous
  if (← cursor).functionDepth = 0 then report ⟨keyword, .returnOutsideFunction⟩
  let value ← optionalBefore inner .semicolon
  let _ ← consume .semicolon .returnEnd
  return .returning keyword value

def variableDeclaration : CursorParser Stmt := do
  let name ← consume .identifier .variableName
  let initializer ← do
    if ← matching (· == .equal) then some <$> inner.expression else pure none
  let _ ← consume .semicolon .variableEnd
  return .variable name initializer

/-- One statement more, unless the brace or the end is reached. -/
def blockStep (statements : List Stmt) : CursorParser (Option (List Stmt)) := do
  if ← check (· == .rightBrace) then return none
  else if ← isAtEnd then return none
  else return some (statements ++ [← inner.declaration])

def block : CursorParser (List Stmt) := do
  let statements ← repeating (blockStep inner) fuel []
  let _ ← consume .rightBrace .blockClose
  return statements

def function : CursorParser Stmt := do
  let name ← consume .identifier .functionName
  let _ ← consume .leftParen .functionOpen
  let items ← listed fuel .tooManyParameters (consume .identifier .parameterName)
  let _ ← consume .rightParen .parametersClose
  let _ ← consume .leftBrace .bodyOpen
  let body ← insideFunction (block fuel inner)
  return .function 0 name items body

def ifStatement : CursorParser Stmt := do
  let _ ← consume .leftParen .ifOpen
  let condition ← inner.expression
  let _ ← consume .rightParen .ifClose
  let thenBranch ← inner.statement
  if ← matching (· == .elseWord) then
    return .branch condition thenBranch (some (← inner.statement))
  else return .branch condition thenBranch none

def whileStatement : CursorParser Stmt := do
  let _ ← consume .leftParen .whileOpen
  let condition ← inner.expression
  let _ ← consume .rightParen .whileClose
  let body ← inner.statement
  return .loop condition body

def forInitializer : CursorParser (Option Stmt) := do
  if ← matching (· == .semicolon) then return none
  else if ← matching (· == .varWord) then return some (← variableDeclaration inner)
  else return some (← expressionStatement inner)

def forStatement : CursorParser Stmt := do
  let _ ← consume .leftParen .forOpen
  let initializer ← forInitializer inner
  let condition ← optionalBefore inner .semicolon
  let _ ← consume .semicolon .loopConditionEnd
  let increment ← optionalBefore inner .rightParen
  let _ ← consume .rightParen .forClose
  let body ← inner.statement
  return .forLoop initializer condition increment body

def statementRule : CursorParser Stmt := do
  if ← matching (· == .forWord) then forStatement inner
  else if ← matching (· == .ifWord) then ifStatement inner
  else if ← matching (· == .printWord) then printStatement inner
  else if ← matching (· == .returnWord) then returnStatement inner
  else if ← matching (· == .whileWord) then whileStatement inner
  else if ← matching (· == .leftBrace) then return .block (← block fuel inner)
  else expressionStatement inner

def declarationRule : CursorParser Stmt := do
  if ← matching (· == .funWord) then function fuel inner
  else if ← matching (· == .varWord) then variableDeclaration inner
  else inner.statement

end Statements

/-- The rules that open a level, down to as many levels as there is fuel. -/
def ofFuel (limit rounds : Nat) : (fuel : Nat) → CursorRules
  | 0 => ⟨exhausted, exhausted, exhausted, exhausted⟩
  | fuel + 1 =>
    let inner := ofFuel limit rounds fuel
    { expression := nested limit (assignment rounds inner)
      operand := nested limit (unary rounds inner)
      statement := nested limit (statementRule rounds inner)
      declaration := nested limit (declarationRule rounds inner) }

/-! ### Whole inputs -/

section Inputs

variable (fuel : Nat) (inner : CursorRules)

/-- One turn of the loop over the declarations of a program, which gives a statement or notes a
failure and goes on behind it. -/
def turn : CursorParser (Option Stmt) := do
  match ← attempt inner.declaration with
  | .ok statement => return some statement
  | .error failure =>
    report failure
    synchronize fuel
    return none

/-- The statements of one turn more, unless the end is reached. -/
def programStep (statements : List Stmt) : CursorParser (Option (List Stmt)) := do
  if ← isAtEnd then return none
  else return some (statements ++ (← turn fuel inner).toList)

def program : CursorParser (List Stmt) :=
  repeating (programStep fuel inner) fuel []

def comma : CursorParser Expr := do
  let first ← inner.expression
  repeating (fun _ => do
    if ← matching (· == .comma) then some <$> inner.expression else return none) fuel first

def expressions : CursorParser Expr := do
  let value ← comma fuel inner
  if ← isAtEnd then return value
  else failHere (.missing .endOfExpression)

/-- What is parsed, unless an error was reported. -/
def withheld {α : Type} (rule : CursorParser α) : CursorParser (Option α) := do
  match ← attempt rule with
  | .ok value => return if (← cursor).hadError then none else some value
  | .error failure =>
    report failure
    return none

end Inputs

end CursorRules

namespace Cursor

def parse (fuel : Nat) (tokens : List Token) :
    Except Fault (EStateM.Result SyntaxReport Cursor (Option (List Stmt))) :=
  CursorRules.withheld (CursorRules.program fuel (.ofFuel maxNesting fuel fuel)) (.ofTokens tokens)

def parseExpression (fuel : Nat) (tokens : List Token) :
    Except Fault (EStateM.Result SyntaxReport Cursor (Option Expr)) :=
  CursorRules.withheld (CursorRules.expressions fuel (.ofFuel maxNesting fuel fuel))
    (.ofTokens tokens)

/-- The cursors at which a turn of the loop over declarations is considered. -/
inductive AtTurn (fuel : Nat) (tokens : List Token) : Cursor → Prop
  | start : AtTurn fuel tokens (.ofTokens tokens)
  | next {cursor later : Cursor} {statement : Option Stmt} (before : AtTurn fuel tokens cursor)
      (more : CursorParser.isAtEnd cursor = .ok (.ok false cursor))
      (turned : CursorRules.turn fuel (.ofFuel maxNesting fuel fuel) cursor
        = .ok (.ok statement later)) : AtTurn fuel tokens later

/-- What is parsed, or what was reported. -/
def answer {α : Type} (result : Option α) (cursor : Cursor) : Except (List SyntaxReport) α :=
  match result with
  | some value => .ok value
  | none => .error cursor.reports

end Cursor

end Lox
