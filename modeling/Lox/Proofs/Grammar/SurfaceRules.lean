import Lox.Proofs.Grammar.Surface
set_option autoImplicit false

/-! The grammar of statements again, with rules that build surface trees. To desugar what they build is
what the rules for statements do, and the reading of surface trees tells more: which tree it was. -/

namespace Lox

/-! ### Rules and what is made of their results -/

namespace Parser

variable {α β : Type} (transform : α → β)

theorem map_apply (rule : Parser α) (state : ParserState) :
    (transform <$> rule) state =
      match rule state with
      | .ok result after => .ok (transform result) after
      | .error report after => .error report after := by
  change EStateM.map transform rule state = _
  unfold EStateM.map
  cases rule state <;> rfl

theorem between_map (enter leave : ParserState → ParserState) (rule : Parser α) :
    between enter leave (transform <$> rule) = transform <$> between enter leave rule := by
  funext state
  have inside := map_apply transform rule (enter state)
  rw [map_apply]
  unfold between
  cases outcome : rule (enter state) with
  | ok result after =>
      rw [outcome] at inside
      simp only [inside]
  | error report after =>
      rw [outcome] at inside
      simp only [inside]

theorem insideFunction_map (rule : Parser α) :
    insideFunction (transform <$> rule) = transform <$> insideFunction rule :=
  between_map transform _ _ rule

theorem nested_map (limit : Nat) (rule : Parser α) :
    nested limit (transform <$> rule) = transform <$> nested limit rule := by
  unfold nested
  rw [map_bind]
  refine bind_congr fun state => ?_
  split
  · rfl
  · exact between_map transform _ _ rule

theorem recovering_map (rule : Parser α) :
    Grammar.recovering (transform <$> rule) =
      Option.map transform <$> Grammar.recovering rule := by
  funext state
  have inside := map_apply transform rule state
  rw [map_apply]
  unfold Grammar.recovering
  cases outcome : rule state with
  | ok result after =>
      rw [outcome] at inside
      simp only [inside, Option.map_some]
  | error report after =>
      rw [outcome] at inside
      simp only [inside, Option.map_none]

theorem repeatFor_map (step : α → Parser (Option α)) (other : β → Parser (Option β))
    (same : ∀ value, other (transform value) = Option.map transform <$> step value)
    (rounds : List Token) (value : α) :
    repeatFor other rounds (transform value) = transform <$> repeatFor step rounds value := by
  induction rounds generalizing value with
  | nil => simp only [repeatFor, map_pure]
  | cons round rounds ih =>
      simp only [repeatFor, same, bind_map_left, map_bind]
      refine bind_congr fun given => ?_
      cases given with
      | none => simp only [Option.map_none, map_pure]
      | some middle => exact ih middle

theorem many_map {item : Parser (Option α)} {other : Parser (Option β)}
    (same : other = Option.map transform <$> item) :
    many other = List.map transform <$> many item := by
  let step : List α → Parser (Option (List α)) := fun found => do
    return (← item).map (· :: found)
  let otherStep : List β → Parser (Option (List β)) := fun found => do
    return (← other).map (· :: found)
  have steps : ∀ found,
      otherStep (found.map transform) = Option.map (List.map transform) <$> step found := by
    intro found
    simp only [step, otherStep, same, bind_map_left, map_bind]
    refine bind_congr fun given => ?_
    cases given <;> rfl
  unfold many repeating
  simp only [bind_assoc, map_bind, map_pure]
  refine bind_congr fun state => ?_
  have rounds := repeatFor_map (List.map transform) step otherStep steps state.rest []
  rw [List.map_nil] at rounds
  change repeatFor otherStep state.rest [] >>= _ = repeatFor step state.rest [] >>= _
  rw [rounds, bind_map_left]
  simp only [List.map_reverse]

variable {transform}

theorem accept_bind_map {wanted : TokenKind → Bool} {next : Option Token → Parser α}
    {other : Option Token → Parser β}
    (some : ∀ token, other (some token) = transform <$> next (some token))
    (none : other none = transform <$> next none) :
    accept wanted >>= other = transform <$> (accept wanted >>= next) := by
  rw [map_bind]
  refine bind_congr fun found => ?_
  cases found with
  | some token => exact some token
  | none => exact none

end Parser

/-! ### Rules that build surface trees -/

/-- The rules one nesting level deeper. -/
structure SurfaceInner extends InnerExpr where
  statement : Parser Surface
  declaration : Parser Surface

/-- The same rules for statements. -/
def SurfaceInner.desugared (inner : SurfaceInner) : Inner where
  toInnerExpr := inner.toInnerExpr
  statement := Surface.desugar <$> inner.statement
  declaration := Surface.desugar <$> inner.declaration

namespace SurfaceGrammar

open Lox.Parser

def expressionClause (inner : SurfaceInner) : Parser Clause := do
  let value ← inner.expression
  let _ ← expect .semicolon .expressionEnd
  return .expression value

def variableClause (inner : SurfaceInner) : Parser Clause := do
  let name ← expect .identifier .variableName
  let initializer ← do
    match ← accept (· == .equal) with
    | none => pure none
    | some _ => some <$> inner.expression
  let _ ← expect .semicolon .variableEnd
  return .variable name initializer

def printStatement (inner : SurfaceInner) : Parser Surface := do
  let value ← inner.expression
  let _ ← expect .semicolon .valueEnd
  return .print value

def returnStatement (keyword : Token) (inner : SurfaceInner) : Parser Surface := do
  if (← get).functionDepth = 0 then note ⟨keyword, .returnOutsideFunction⟩
  let value ← Grammar.optionalBefore .semicolon inner.desugared
  let _ ← expect .semicolon .returnEnd
  return .returning keyword value

def block (inner : SurfaceInner) : Parser (List Surface) := do
  let statements ← many do
    if ← nextIs (· != .rightBrace) then some <$> inner.declaration else return none
  let _ ← expect .rightBrace .blockClose
  return statements

def functionDeclaration (inner : SurfaceInner) : Parser Surface := do
  let name ← expect .identifier .functionName
  let _ ← expect .leftParen .functionOpen
  let items ← Grammar.parameters
  let _ ← expect .rightParen .parametersClose
  let _ ← expect .leftBrace .bodyOpen
  return .function name items (← insideFunction (block inner))

def ifStatement (inner : SurfaceInner) : Parser Surface := do
  let _ ← expect .leftParen .ifOpen
  let condition ← inner.expression
  let _ ← expect .rightParen .ifClose
  let thenBranch ← inner.statement
  match ← accept (· == .elseWord) with
  | none => return .branch condition thenBranch
  | some _ => return .choice condition thenBranch (← inner.statement)

def whileStatement (inner : SurfaceInner) : Parser Surface := do
  let _ ← expect .leftParen .whileOpen
  let condition ← inner.expression
  let _ ← expect .rightParen .whileClose
  return .loop condition (← inner.statement)

def forInitializer (inner : SurfaceInner) : Parser (Option Clause) := do
  if let some _ ← accept (· == .semicolon) then
    return none
  if let some _ ← accept (· == .varWord) then
    return some (← variableClause inner)
  return some (← expressionClause inner)

def forStatement (inner : SurfaceInner) : Parser Surface := do
  let _ ← expect .leftParen .forOpen
  let initializer ← forInitializer inner
  let condition ← Grammar.optionalBefore .semicolon inner.desugared
  let _ ← expect .semicolon .loopConditionEnd
  let increment ← Grammar.optionalBefore .rightParen inner.desugared
  let _ ← expect .rightParen .forClose
  return .forLoop initializer condition increment (← inner.statement)

def statement (inner : SurfaceInner) : Parser Surface := do
  if let some _ ← accept (· == .forWord) then
    return ← forStatement inner
  if let some _ ← accept (· == .ifWord) then
    return ← ifStatement inner
  if let some _ ← accept (· == .printWord) then
    return ← printStatement inner
  if let some keyword ← accept (· == .returnWord) then
    return ← returnStatement keyword inner
  if let some _ ← accept (· == .whileWord) then
    return ← whileStatement inner
  if let some _ ← accept (· == .leftBrace) then
    return .block (← block inner)
  return .clause (← expressionClause inner)

def declaration (inner : SurfaceInner) : Parser Surface := do
  if let some _ ← accept (· == .funWord) then
    return ← functionDeclaration inner
  if let some _ ← accept (· == .varWord) then
    return .clause (← variableClause inner)
  inner.statement

/-- The expressions are read by the same rules as in statements. -/
def rules (limit : Nat) : (room : Nat) → SurfaceInner
  | 0 =>
    { toInnerExpr := (Grammar.rules limit 0).toInnerExpr
      statement := failHere .tooMuchNesting
      declaration := failHere .tooMuchNesting }
  | room + 1 =>
    let inner := rules limit room
    { toInnerExpr := (Grammar.rules limit (room + 1)).toInnerExpr
      statement := nested limit (statement inner)
      declaration := nested limit (declaration inner) }

def program (inner : SurfaceInner) : Parser (List Surface) := do
  let found ← many do
    if ← atEnd then return none
    return some (← Grammar.recovering inner.declaration)
  return found.filterMap id

/-! ### Each rule desugars to its like -/

variable (inner : SurfaceInner)

theorem expressionClause_desugars :
    Grammar.expressionStatement inner.desugared = Clause.desugar <$> expressionClause inner := by
  simp only [Grammar.expressionStatement, expressionClause, map_bind, map_pure]
  rfl

theorem variableClause_desugars :
    Grammar.variableDeclaration inner.desugared = Clause.desugar <$> variableClause inner := by
  simp only [Grammar.variableDeclaration, variableClause, map_bind]
  refine bind_congr fun name => bind_congr fun found => ?_
  cases found with
  | none => simp only [map_bind, map_pure, Clause.desugar]
  | some equals =>
      simp only [map_bind, map_pure, Clause.desugar]
      rfl

theorem printStatement_desugars :
    Grammar.printStatement inner.desugared = Surface.desugar <$> printStatement inner := by
  simp only [Grammar.printStatement, printStatement, map_bind, map_pure, Surface.desugar]
  rfl

theorem returnStatement_desugars (keyword : Token) :
    Grammar.returnStatement keyword inner.desugared =
      Surface.desugar <$> returnStatement keyword inner := by
  simp only [Grammar.returnStatement, returnStatement, map_bind]
  refine bind_congr fun state => ?_
  split <;> simp only [map_bind, map_pure, Surface.desugar]

theorem ifStatement_desugars :
    Grammar.ifStatement inner.desugared = Surface.desugar <$> ifStatement inner := by
  simp only [Grammar.ifStatement, ifStatement, map_bind, SurfaceInner.desugared, bind_map_left]
  refine bind_congr fun opening => bind_congr fun condition => bind_congr fun closing =>
    bind_congr fun thenBranch => bind_congr fun found => ?_
  cases found with
  | none => simp only [map_pure, Surface.desugar]
  | some word => simp only [map_bind, map_pure, Surface.desugar]

theorem whileStatement_desugars :
    Grammar.whileStatement inner.desugared = Surface.desugar <$> whileStatement inner := by
  simp only [Grammar.whileStatement, whileStatement, map_bind, map_pure, bind_map_left,
    SurfaceInner.desugared, Surface.desugar]

theorem forInitializer_desugars :
    Grammar.forInitializer inner.desugared =
      Option.map Clause.desugar <$> forInitializer inner := by
  simp only [Grammar.forInitializer, forInitializer, map_bind]
  refine bind_congr fun found => ?_
  cases found with
  | some semicolon => simp only [map_pure, Option.map_none]
  | none =>
      simp only [map_bind]
      refine bind_congr fun found => ?_
      cases found with
      | some word => simp only [variableClause_desugars, map_bind, map_pure, bind_map_left,
          Option.map_some]
      | none => simp only [expressionClause_desugars, map_bind, map_pure, bind_map_left,
          Option.map_some]

theorem forStatement_desugars :
    Grammar.forStatement inner.desugared = Surface.desugar <$> forStatement inner := by
  simp only [Grammar.forStatement, forStatement, forInitializer_desugars, map_bind, map_pure,
    bind_map_left, Surface.desugar]
  simp only [SurfaceInner.desugared, bind_map_left]

theorem block_desugars :
    Grammar.block inner.desugared = Surface.desugarAll <$> block inner := by
  have items : (do
      if ← nextIs (· != .rightBrace) then some <$> inner.desugared.declaration else return none :
        Parser (Option Stmt)) = Option.map Surface.desugar <$> (do
      if ← nextIs (· != .rightBrace) then some <$> inner.declaration else return none) := by
    rw [map_bind]
    refine bind_congr fun isNext => ?_
    cases isNext with
    | false => rfl
    | true =>
        simp only [if_true, SurfaceInner.desugared, Functor.map_map]
        rfl
  unfold Grammar.block block
  rw [many_map _ items]
  simp only [map_bind, map_pure, bind_map_left, Surface.desugarAll_eq_map]

theorem functionDeclaration_desugars :
    Grammar.functionDeclaration inner.desugared = Surface.desugar <$> functionDeclaration inner := by
  simp only [Grammar.functionDeclaration, functionDeclaration, block_desugars, insideFunction_map,
    map_bind, map_pure, bind_map_left, Surface.desugar]

theorem statement_desugars :
    Grammar.statement inner.desugared = Surface.desugar <$> statement inner := by
  refine accept_bind_map (fun _ => forStatement_desugars inner) <|
    accept_bind_map (fun _ => ifStatement_desugars inner) <|
    accept_bind_map (fun _ => printStatement_desugars inner) <|
    accept_bind_map (fun keyword => returnStatement_desugars inner keyword) <|
    accept_bind_map (fun _ => whileStatement_desugars inner) <|
    accept_bind_map (fun _ => ?_) ?_
  · simp only [block_desugars, map_bind, map_pure, bind_map_left, Surface.desugar]
  · simp only [expressionClause_desugars, map_bind, map_pure, Surface.desugar]
    rw [map_eq_pure_bind]

theorem declaration_desugars :
    Grammar.declaration inner.desugared = Surface.desugar <$> declaration inner := by
  refine accept_bind_map (fun _ => functionDeclaration_desugars inner) <|
    accept_bind_map (fun _ => ?_) rfl
  simp only [variableClause_desugars, map_bind, map_pure, Surface.desugar]
  rw [map_eq_pure_bind]

/-- The induction is on the levels that are left. -/
theorem rules_desugared (limit room : Nat) :
    (rules limit room).desugared = Grammar.rules limit room := by
  induction room with
  | zero => rfl
  | succ room ih =>
      have statements := statement_desugars (rules limit room)
      have declarations := declaration_desugars (rules limit room)
      rw [ih] at statements declarations
      simp only [rules, Grammar.rules, SurfaceInner.desugared, statements, declarations, nested_map]

theorem program_desugars :
    Grammar.program inner.desugared = Surface.desugarAll <$> program inner := by
  have items : (do
      if ← atEnd then return none
      return some (← Grammar.recovering inner.desugared.declaration) :
        Parser (Option (Option Stmt))) = Option.map (Option.map Surface.desugar) <$> (do
      if ← atEnd then return none
      return some (← Grammar.recovering inner.declaration)) := by
    rw [map_bind]
    refine bind_congr fun isOver => ?_
    cases isOver with
    | true => rfl
    | false =>
        simp only [Bool.false_eq_true, if_false, SurfaceInner.desugared, recovering_map,
          bind_map_left, map_bind, map_pure, Option.map_some]
  unfold Grammar.program program
  rw [many_map _ items]
  simp only [map_bind, map_pure, bind_map_left, Surface.desugarAll_eq_map, List.filterMap_map,
    List.map_filterMap]
  rfl

end SurfaceGrammar

end Lox
