import Lox.Proofs.Grammar.Canonical
set_option autoImplicit false

/-! Programs as they are written. In a surface tree a `for` loop is a form of its own, and an `if`
without an `else` differs from one that has it; desugaring gives the statements that a tree stands
for. -/

namespace Lox

/-- What may stand as a statement and also in front of a `for` loop. -/
inductive Clause where
  | variable (name : Token) (initializer : Option Expr)
  | expression (value : Expr)

inductive Surface where
  | clause (only : Clause)
  | print (value : Expr)
  | returning (keyword : Token) (value : Option Expr)
  | function (name : Token) (parameters : List Token) (statements : List Surface)
  | block (statements : List Surface)
  | branch (condition : Expr) (thenBranch : Surface)
  | choice (condition : Expr) (thenBranch elseBranch : Surface)
  | loop (condition : Expr) (statement : Surface)
  | forLoop (initializer : Option Clause) (condition increment : Option Expr) (statement : Surface)

def Clause.desugar : Clause → Stmt
  | «variable» name initializer => .variable name initializer
  | expression value => .expression value

namespace Surface

mutual

def desugar : Surface → Stmt
  | clause only => only.desugar
  | print value => .print value
  | returning keyword value => .returning keyword value
  | function name parameters statements =>
    .function 0 name parameters (Surface.desugarAll statements)
  | block statements => .block (Surface.desugarAll statements)
  | branch condition thenBranch => .branch condition thenBranch.desugar none
  | choice condition thenBranch elseBranch =>
    .branch condition thenBranch.desugar (some elseBranch.desugar)
  | loop condition statement => .loop condition statement.desugar
  | forLoop initializer condition increment statement =>
    .forLoop (initializer.map Clause.desugar) condition increment statement.desugar

def desugarAll : List Surface → List Stmt
  | [] => []
  | first :: others => first.desugar :: Surface.desugarAll others

end

theorem desugarAll_eq_map (statements : List Surface) :
    desugarAll statements = statements.map desugar := by
  induction statements with
  | nil => rfl
  | cons first others ih => rw [desugarAll, ih, List.map_cons]

/-- Whether it may be a branch or the body of a loop. -/
def isStatement : Surface → Bool
  | clause (.variable _ _) => false
  | function _ _ _ => false
  | _ => true

/-- Whether an `else` behind it would still belong to it. -/
def opensElse : Surface → Bool
  | branch _ _ => true
  | choice _ _ elseBranch => elseBranch.opensElse
  | loop _ statement => statement.opensElse
  | forLoop _ _ _ statement => statement.opensElse
  | _ => false

end Surface

/-! ### Written programs -/

namespace Expr

/-- An expression that may be missing opens a level where it is not. -/
def levels? : Option Expr → Nat
  | none => 0
  | some value => value.levels + 1

def marks? : Option Expr → List Mark
  | none => []
  | some value => value.marks

end Expr

namespace Clause

def Canonical : Clause → Prop
  | «variable» name initializer =>
    name.kind = .identifier ∧ ∀ value ∈ initializer, value.Canonical
  | expression value => value.Canonical

def levels : Clause → Nat
  | «variable» _ initializer => Expr.levels? initializer
  | expression value => value.levels + 1

/-- The value of a variable stands behind an equals sign. -/
def initializerMarks : Option Expr → List Mark
  | none => []
  | some value => .kind .equal :: value.marks

def marks : Clause → List Mark
  | «variable» name initializer =>
    .kind .varWord :: .token name :: (initializerMarks initializer ++ [.kind .semicolon])
  | expression value => value.marks ++ [.kind .semicolon]

/-- Without a clause, there is still its semicolon. -/
def marks? : Option Clause → List Mark
  | none => [.kind .semicolon]
  | some only => only.marks

end Clause

namespace Surface

mutual

/-- How many nesting levels are opened inside of the rule that is entered behind the first word. -/
def levels : Surface → Nat
  | clause only => only.levels
  | print value => value.levels + 1
  | returning _ value => Expr.levels? value
  | function _ _ statements => Surface.levelsAll statements
  | block statements => Surface.levelsAll statements
  | branch condition thenBranch => max (condition.levels + 1) (thenBranch.levels + 1)
  | choice condition thenBranch elseBranch =>
    max (condition.levels + 1) (max (thenBranch.levels + 1) (elseBranch.levels + 1))
  | loop condition statement => max (condition.levels + 1) (statement.levels + 1)
  | forLoop initializer condition increment statement =>
    max ((initializer.map Clause.levels).getD 0)
      (max (Expr.levels? condition) (max (Expr.levels? increment) (statement.levels + 1)))

/-- Each declaration opens a level, and one more if it is a statement. -/
def levelsAll : List Surface → Nat
  | [] => 0
  | first :: others =>
    max ((if first.isStatement then first.levels + 1 else first.levels) + 1)
      (Surface.levelsAll others)

end

/-- How many nesting levels are opened inside of the rule for declarations. -/
def declared (statement : Surface) : Nat :=
  if statement.isStatement then statement.levels + 1 else statement.levels

mutual

def marks : Surface → List Mark
  | clause only => only.marks
  | print value => .kind .printWord :: (value.marks ++ [.kind .semicolon])
  | returning keyword value => .token keyword :: (Expr.marks? value ++ [.kind .semicolon])
  | function name parameters statements =>
    .kind .funWord :: .token name :: .kind .leftParen ::
      (divided (parameters.map ([.token ·])) ++ .kind .rightParen :: .kind .leftBrace ::
        (Surface.marksAll statements ++ [.kind .rightBrace]))
  | block statements => .kind .leftBrace :: (Surface.marksAll statements ++ [.kind .rightBrace])
  | branch condition thenBranch =>
    .kind .ifWord :: .kind .leftParen ::
      (condition.marks ++ .kind .rightParen :: thenBranch.marks)
  | choice condition thenBranch elseBranch =>
    .kind .ifWord :: .kind .leftParen ::
      (condition.marks ++ .kind .rightParen ::
        (thenBranch.marks ++ .kind .elseWord :: elseBranch.marks))
  | loop condition statement =>
    .kind .whileWord :: .kind .leftParen ::
      (condition.marks ++ .kind .rightParen :: statement.marks)
  | forLoop initializer condition increment statement =>
    .kind .forWord :: .kind .leftParen :: (Clause.marks? initializer ++
      (Expr.marks? condition ++ .kind .semicolon ::
        (Expr.marks? increment ++ .kind .rightParen :: statement.marks)))

def marksAll : List Surface → List Mark
  | [] => []
  | first :: others => first.marks ++ Surface.marksAll others

end

/-- What the grammar allows inside some number of function bodies. Branches and the bodies of loops
are statements, and a then branch with an `else` behind it must not take that for itself. -/
inductive Formed : (functions : Nat) → Surface → Prop
  | clause {functions : Nat} {only : Clause} (canonical : only.Canonical) :
      Formed functions (.clause only)
  | print {functions : Nat} {value : Expr} (canonical : value.Canonical) :
      Formed functions (.print value)
  | returning {functions : Nat} {keyword : Token} {value : Option Expr} (inside : 0 < functions)
      (returns : keyword.kind = .returnWord) (canonical : ∀ given ∈ value, given.Canonical) :
      Formed functions (.returning keyword value)
  | function {functions : Nat} {name : Token} {parameters : List Token}
      {statements : List Surface} (named : name.kind = .identifier)
      (few : parameters.length ≤ Grammar.maxItems)
      (allNamed : ∀ parameter ∈ parameters, parameter.kind = .identifier)
      (formed : ∀ statement ∈ statements, Formed (functions + 1) statement) :
      Formed functions (.function name parameters statements)
  | block {functions : Nat} {statements : List Surface}
      (formed : ∀ statement ∈ statements, Formed functions statement) :
      Formed functions (.block statements)
  | branch {functions : Nat} {condition : Expr} {thenBranch : Surface}
      (canonical : condition.Canonical) (states : thenBranch.isStatement = true)
      (formed : Formed functions thenBranch) : Formed functions (.branch condition thenBranch)
  | choice {functions : Nat} {condition : Expr} {thenBranch elseBranch : Surface}
      (canonical : condition.Canonical) (states : thenBranch.isStatement = true)
      (closed : thenBranch.opensElse = false) (formed : Formed functions thenBranch)
      (statesElse : elseBranch.isStatement = true) (formedElse : Formed functions elseBranch) :
      Formed functions (.choice condition thenBranch elseBranch)
  | loop {functions : Nat} {condition : Expr} {statement : Surface}
      (canonical : condition.Canonical) (states : statement.isStatement = true)
      (formed : Formed functions statement) : Formed functions (.loop condition statement)
  | forLoop {functions : Nat} {initializer : Option Clause} {condition increment : Option Expr}
      {statement : Surface} (first : ∀ only ∈ initializer, only.Canonical)
      (canonical : ∀ given ∈ condition, given.Canonical)
      (last : ∀ given ∈ increment, given.Canonical) (states : statement.isStatement = true)
      (formed : Formed functions statement) :
      Formed functions (.forLoop initializer condition increment statement)

theorem levelsAll_le_iff {statements : List Surface} {room : Nat} :
    levelsAll statements ≤ room ↔ ∀ statement ∈ statements, statement.declared < room := by
  induction statements with
  | nil => simp [levelsAll]
  | cons first others ih =>
      rw [levelsAll, Nat.max_le, ih, List.forall_mem_cons, Nat.succ_le_iff, declared]

end Surface

end Lox
