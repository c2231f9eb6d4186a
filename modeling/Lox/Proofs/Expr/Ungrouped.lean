import Lox.Expr.Basic
import Lox.Stmt.Label
set_option autoImplicit false

/-! Trees without groupings. Where a tree is grouped the tree inside takes the place of the grouping;
declarations stay as many and keep their labels. -/

namespace Lox

namespace Expr

mutual

/-- The expression without its groupings. -/
def ungrouped : Expr → Expr
  | literal value => literal value
  | «variable» name => «variable» name
  | assign name value => assign name value.ungrouped
  | unary operator operand => unary operator operand.ungrouped
  | binary left operator right => binary left.ungrouped operator right.ungrouped
  | logical left operator right => logical left.ungrouped operator right.ungrouped
  | conditional condition question thenBranch elseBranch =>
    conditional condition.ungrouped question thenBranch.ungrouped elseBranch.ungrouped
  | call callee paren arguments => call callee.ungrouped paren (Expr.ungroupedAll arguments)
  | grouping inner => inner.ungrouped

def ungroupedAll : List Expr → List Expr
  | [] => []
  | first :: others => first.ungrouped :: Expr.ungroupedAll others

end

theorem ungroupedAll_eq (arguments : List Expr) :
    Expr.ungroupedAll arguments = arguments.map ungrouped := by
  induction arguments with
  | nil => rfl
  | cons first others ih => rw [ungroupedAll, ih, List.map_cons]

end Expr

mutual

/-- The statement without groupings, in the bodies of its declarations too. Each of these stays a
declaration with the same label. -/
def Stmt.ungrouped : Stmt → Stmt
  | .expression value => .expression value.ungrouped
  | .print value => .print value.ungrouped
  | .returning keyword value => .returning keyword (value.map Expr.ungrouped)
  | .variable name initializer => .variable name (initializer.map Expr.ungrouped)
  | .function label name parameters body =>
    .function label name parameters (Stmt.ungroupedAll body)
  | .block statements => .block (Stmt.ungroupedAll statements)
  | .branch condition thenBranch none =>
    .branch condition.ungrouped thenBranch.ungrouped none
  | .branch condition thenBranch (some elseBranch) =>
    .branch condition.ungrouped thenBranch.ungrouped (some elseBranch.ungrouped)
  | .loop condition body => .loop condition.ungrouped body.ungrouped

def Stmt.ungroupedAll : List Stmt → List Stmt
  | [] => []
  | first :: others => first.ungrouped :: Stmt.ungroupedAll others

end

mutual

/-- How many groupings there are in an expression. -/
def Expr.groupings : Expr → Nat
  | .literal _ | .variable _ => 0
  | .assign _ value => value.groupings
  | .unary _ operand => operand.groupings
  | .binary left _ right | .logical left _ right => left.groupings + right.groupings
  | .conditional condition _ thenBranch elseBranch =>
    condition.groupings + thenBranch.groupings + elseBranch.groupings
  | .call callee _ arguments => callee.groupings + Expr.groupingsAll arguments
  | .grouping inner => inner.groupings + 1

def Expr.groupingsAll : List Expr → Nat
  | [] => 0
  | first :: others => first.groupings + Expr.groupingsAll others

end

mutual

/-- How many groupings there are in a statement, with the bodies of its declarations. -/
def Stmt.groupings : Stmt → Nat
  | .expression value | .print value => value.groupings
  | .returning _ value | .variable _ value => (value.map Expr.groupings).getD 0
  | .function _ _ _ body => Stmt.groupingsAll body
  | .block statements => Stmt.groupingsAll statements
  | .branch condition thenBranch none => condition.groupings + thenBranch.groupings
  | .branch condition thenBranch (some elseBranch) =>
    condition.groupings + thenBranch.groupings + elseBranch.groupings
  | .loop condition body => condition.groupings + body.groupings

def Stmt.groupingsAll : List Stmt → Nat
  | [] => 0
  | first :: others => first.groupings + Stmt.groupingsAll others

end

namespace Expr

mutual

theorem groupings_ungrouped : (expression : Expr) → expression.ungrouped.groupings = 0
  | literal value => rfl
  | «variable» name => rfl
  | assign name value => groupings_ungrouped value
  | unary operator operand => groupings_ungrouped operand
  | binary left operator right => by
    simp [ungrouped, groupings, groupings_ungrouped left, groupings_ungrouped right]
  | logical left operator right => by
    simp [ungrouped, groupings, groupings_ungrouped left, groupings_ungrouped right]
  | conditional condition question thenBranch elseBranch => by
    simp [ungrouped, groupings, groupings_ungrouped condition, groupings_ungrouped thenBranch,
      groupings_ungrouped elseBranch]
  | call callee paren arguments => by
    simp [ungrouped, groupings, groupings_ungrouped callee, groupingsAll_ungroupedAll arguments]
  | grouping inner => groupings_ungrouped inner

theorem groupingsAll_ungroupedAll : (arguments : List Expr) →
    Expr.groupingsAll (Expr.ungroupedAll arguments) = 0
  | [] => rfl
  | first :: others => by
    simp [ungroupedAll, groupingsAll, groupings_ungrouped first, groupingsAll_ungroupedAll others]

end

theorem groupings_ungrouped? (value : Option Expr) :
    ((value.map ungrouped).map groupings).getD 0 = 0 := by
  cases value with
  | none => rfl
  | some value => exact groupings_ungrouped value

end Expr

namespace Stmt

mutual

theorem groupings_ungrouped : (statement : Stmt) → statement.ungrouped.groupings = 0
  | expression value => value.groupings_ungrouped
  | print value => value.groupings_ungrouped
  | returning keyword value => Expr.groupings_ungrouped? value
  | «variable» name initializer => Expr.groupings_ungrouped? initializer
  | function label name parameters body => groupingsAll_ungroupedAll body
  | block statements => groupingsAll_ungroupedAll statements
  | branch condition thenBranch none => by
    simp [ungrouped, groupings, condition.groupings_ungrouped, groupings_ungrouped thenBranch]
  | branch condition thenBranch (some elseBranch) => by
    simp [ungrouped, groupings, condition.groupings_ungrouped, groupings_ungrouped thenBranch,
      groupings_ungrouped elseBranch]
  | loop condition body => by
    simp [ungrouped, groupings, condition.groupings_ungrouped, groupings_ungrouped body]

theorem groupingsAll_ungroupedAll : (statements : List Stmt) →
    Stmt.groupingsAll (Stmt.ungroupedAll statements) = 0
  | [] => rfl
  | first :: others => by
    simp [ungroupedAll, groupingsAll, groupings_ungrouped first, groupingsAll_ungroupedAll others]

end

theorem ungrouped_branch (condition : Expr) (thenBranch : Stmt) (elseBranch : Option Stmt) :
    (branch condition thenBranch elseBranch).ungrouped
      = .branch condition.ungrouped thenBranch.ungrouped (elseBranch.map ungrouped) := by
  cases elseBranch <;> rfl

mutual

/-- The same labels are given, to the same declarations. -/
theorem labelled_ungrouped : (statement : Stmt) → (next : Nat) →
    statement.ungrouped.labelled next
      = ((statement.labelled next).1.ungrouped, (statement.labelled next).2)
  | expression value, next => rfl
  | print value, next => rfl
  | returning keyword value, next => rfl
  | «variable» name initializer, next => rfl
  | function label name parameters body, next => by
    simp [ungrouped, labelled, labelledAll_ungroupedAll body (next + 1)]
  | block statements, next => by
    simp [ungrouped, labelled, labelledAll_ungroupedAll statements next]
  | branch condition thenBranch none, next => by
    simp [ungrouped, labelled, labelled_ungrouped thenBranch next]
  | branch condition thenBranch (some elseBranch), next => by
    simp [ungrouped, labelled, labelled_ungrouped thenBranch next,
      labelled_ungrouped elseBranch (thenBranch.labelled next).2]
  | loop condition body, next => by
    simp [ungrouped, labelled, labelled_ungrouped body next]

theorem labelledAll_ungroupedAll : (statements : List Stmt) → (next : Nat) →
    Stmt.labelledAll next (Stmt.ungroupedAll statements)
      = (Stmt.ungroupedAll (Stmt.labelledAll next statements).1,
          (Stmt.labelledAll next statements).2)
  | [], next => rfl
  | first :: others, next => by
    simp [ungroupedAll, labelledAll, labelled_ungrouped first next,
      labelledAll_ungroupedAll others (first.labelled next).2]

end

end Stmt

end Lox
