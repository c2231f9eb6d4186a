import Lox.Grammar.Statement
set_option autoImplicit false

/-! Whole programs and whole expressions. Each rule is closed over the rules one nesting level
deeper; at the limit every deeper rule fails. An error in a declaration is noted, the tokens up to
the next likely start of a declaration are left out, and parsing goes on, so that one run tells all
errors. Whenever anything was noted there is no tree. -/

namespace Lox

/-- How many levels of statements and expressions may be open at once. -/
def maxNesting : Nat := 1000

namespace Grammar

open Lox.Parser

/-- The rules that open a level, with `room` levels left below the limit. -/
def rules (limit : Nat) : (room : Nat) → Inner
  | 0 =>
    { expression := failHere .tooMuchNesting
      operand := failHere .tooMuchNesting
      statement := failHere .tooMuchNesting
      declaration := failHere .tooMuchNesting }
  | room + 1 =>
    let inner := rules limit room
    { expression := nested limit (assignment inner.toInnerExpr)
      operand := nested limit (unary inner.toInnerExpr)
      statement := nested limit (statement inner)
      declaration := nested limit (declaration inner) }

/-- Words that start a declaration. -/
def startsDeclaration (kind : TokenKind) : Bool :=
  kind == .classWord || kind == .funWord || kind == .varWord || kind == .forWord
    || kind == .ifWord || kind == .whileWord || kind == .printWord || kind == .returnWord

/-- What is left of the tokens once those up to the next semicolon, or those before the next word
that starts a declaration, are left out. -/
def skipTo (previous : Token) : List Token → List Token
  | [] => []
  | token :: rest =>
    if previous.kind == .semicolon || startsDeclaration token.kind then token :: rest
    else skipTo token rest

/-- Where parsing goes on after a failure; at least one token is left out. -/
def resumption : List Token → List Token
  | [] => []
  | token :: rest => skipTo token rest

/-- Notes the failure of a rule and skips to where parsing goes on. -/
def recovering {α : Type} (rule : Parser α) : Parser (Option α) := fun state =>
  match rule state with
  | .ok result after => .ok (some result) after
  | .error report after =>
    .ok none { after with rest := resumption after.rest, reports := after.reports ++ [report] }

/-- The declarations up to the end of input, without those that failed. -/
def program (inner : Inner) : Parser (List Stmt) := do
  let found ← many do
    if ← atEnd then return none
    return some (← recovering inner.declaration)
  return found.filterMap id

/-- Expressions divided by commas up to the end of input. Only the last one counts. -/
def expressions (inner : InnerExpr) : Parser Expr := do
  let first ← inner.expression
  let last ← repeating (fun _ => do
    match ← accept (· == .comma) with
    | none => return none
    | some _ => some <$> inner.expression) first
  if ← atEnd then return last
  failHere (.missing .endOfExpression)

/-- The outcome of a rule that read a whole input: all reports, and the tree if there are none. -/
def conclude {α : Type} :
    EStateM.Result SyntaxReport ParserState α → Except (List SyntaxReport) α
  | .ok result after => if after.reports.isEmpty then .ok result else .error after.reports
  | .error report after => .error (after.reports ++ [report])

/-- Parses with a limit of one's own. -/
def parseProgramWithin (limit : Nat) (tokens : List Token) :
    Except (List SyntaxReport) (List Stmt) :=
  conclude (program (rules limit limit) (.ofTokens tokens))

def parseExpressionWithin (limit : Nat) (tokens : List Token) : Except (List SyntaxReport) Expr :=
  conclude (expressions (rules limit limit).toInnerExpr (.ofTokens tokens))

end Grammar

/-- A program, or all that is wrong with it. -/
def parseProgram (tokens : List Token) : Except (List SyntaxReport) (List Stmt) :=
  Grammar.parseProgramWithin maxNesting tokens

/-- A comma sequence of expressions, of which the last one is kept, or all that is wrong with it. -/
def parseExpression (tokens : List Token) : Except (List SyntaxReport) Expr :=
  Grammar.parseExpressionWithin maxNesting tokens

end Lox
