import Lox.Proofs.Grammar.Program
import Lox.Proofs.Grammar.Segments
import Lox.Run.Operation
import Lox.Stmt.Label
set_option autoImplicit false

/-! Trees that are safe to run. In a runnable tree every operator names an operation, no list of
arguments or parameters is too long, and every `return` stands inside of a function body. Whatever
parses is runnable. -/

namespace Lox

namespace TokenKind

def unaryOperators : List TokenKind :=
  [bang, minus]

def binaryOperators : List TokenKind :=
  [greater, greaterEqual, less, lessEqual, bangEqual, equalEqual, minus, star, slash, plus]

def logicalOperators : List TokenKind :=
  [andWord, orWord]

end TokenKind

/-- The unary operators are those that name an operation. -/
theorem UnaryOperation.ofKind?_isSome_iff (kind : TokenKind) :
    (ofKind? kind).isSome = true ↔ kind ∈ TokenKind.unaryOperators := by
  cases kind <;> decide

/-- The operators between two operands are those that name an operation. -/
theorem BinaryOperation.ofKind?_isSome_iff (kind : TokenKind) :
    (ofKind? kind).isSome = true ↔ kind ∈ TokenKind.binaryOperators := by
  cases kind <;> decide

inductive Expr.Runnable : Expr → Prop
  | literal (value : Literal) : Runnable (.literal value)
  | variable (name : Token) : Runnable (.variable name)
  | assign {name : Token} {value : Expr} (assigned : Runnable value) :
      Runnable (.assign name value)
  | unary {operator : Token} {operand : Expr}
      (operates : operator.kind ∈ TokenKind.unaryOperators) (only : Runnable operand) :
      Runnable (.unary operator operand)
  | binary {left right : Expr} {operator : Token}
      (operates : operator.kind ∈ TokenKind.binaryOperators) (first : Runnable left)
      (second : Runnable right) : Runnable (.binary left operator right)
  | logical {left right : Expr} {operator : Token}
      (operates : operator.kind ∈ TokenKind.logicalOperators) (first : Runnable left)
      (second : Runnable right) : Runnable (.logical left operator right)
  | conditional {condition thenBranch elseBranch : Expr} {question : Token}
      (decides : Runnable condition) (first : Runnable thenBranch)
      (second : Runnable elseBranch) :
      Runnable (.conditional condition question thenBranch elseBranch)
  | call {callee : Expr} {paren : Token} {arguments : List Expr} (calls : Runnable callee)
      (few : arguments.length ≤ Grammar.maxItems)
      (given : ∀ argument ∈ arguments, Runnable argument) :
      Runnable (.call callee paren arguments)
  | grouping {inner : Expr} (only : Runnable inner) : Runnable (.grouping inner)

/-- The flag tells whether the statement stands inside of a function body. -/
inductive Stmt.Runnable : (inside : Bool) → Stmt → Prop
  | expression {inside : Bool} {value : Expr} (evaluates : value.Runnable) :
      Runnable inside (.expression value)
  | print {inside : Bool} {value : Expr} (evaluates : value.Runnable) :
      Runnable inside (.print value)
  | returning {keyword : Token} {value : Option Expr}
      (evaluates : ∀ given ∈ value, given.Runnable) : Runnable true (.returning keyword value)
  | variable {inside : Bool} {name : Token} {initializer : Option Expr}
      (evaluates : ∀ given ∈ initializer, given.Runnable) :
      Runnable inside (.variable name initializer)
  | function {inside : Bool} {label : Nat} {name : Token} {parameters : List Token}
      {body : List Stmt} (few : parameters.length ≤ Grammar.maxItems)
      (runs : ∀ statement ∈ body, Runnable true statement) :
      Runnable inside (.function label name parameters body)
  | block {inside : Bool} {statements : List Stmt}
      (runs : ∀ statement ∈ statements, Runnable inside statement) :
      Runnable inside (.block statements)
  | branch {inside : Bool} {condition : Expr} {thenBranch : Stmt} {elseBranch : Option Stmt}
      (decides : condition.Runnable) (first : Runnable inside thenBranch)
      (second : ∀ other ∈ elseBranch, Runnable inside other) :
      Runnable inside (.branch condition thenBranch elseBranch)
  | loop {inside : Bool} {condition : Expr} {body : Stmt} (decides : condition.Runnable)
      (runs : Runnable inside body) : Runnable inside (.loop condition body)

/-! ### What the grammar gives -/

theorem TokenKind.mem_binaryOperators {kind : TokenKind} {level : Nat}
    (grips : kind.grip? = some level) (lowest : 4 ≤ level) (highest : level ≤ 7) :
    kind ∈ binaryOperators := by
  cases kind <;> simp [grip?] at grips <;> first | decide | omega

theorem TokenKind.mem_logicalOperators {kind : TokenKind} {level : Nat}
    (grips : kind.grip? = some level) (lowest : 1 ≤ level) (highest : level ≤ 2) :
    kind ∈ logicalOperators := by
  cases kind <;> simp [grip?] at grips <;> first | decide | omega

theorem Expr.Canonical.runnable {expression : Expr} (canonical : expression.Canonical) :
    expression.Runnable := by
  induction canonical with
  | literal value => exact .literal value
  | «variable» named => exact .variable _
  | grouping _ ih => exact .grouping ih
  | assign _ _ ih => exact .assign ih
  | call _ _ _ few _ ih given => exact .call ih few given
  | unary operates _ _ ih =>
      simp only [Grammar.isUnary, Bool.or_eq_true, beq_iff_eq] at operates
      exact .unary (by simpa [TokenKind.unaryOperators] using operates) ih
  | binary operates lowest highest _ _ _ _ ih second =>
      exact .binary (TokenKind.mem_binaryOperators operates lowest highest) ih second
  | logical operates lowest highest _ _ _ _ _ ih second =>
      exact .logical (TokenKind.mem_logicalOperators operates lowest highest) ih second
  | conditional _ _ _ _ _ ih first second => exact .conditional ih first second

theorem Clause.Canonical.runnable {only : Clause} (canonical : only.Canonical) (inside : Bool) :
    only.desugar.Runnable inside := by
  cases only with
  | «variable» name initializer =>
      exact .variable fun value given => (canonical.2 value given).runnable
  | expression value => exact .expression (Expr.Canonical.runnable canonical)

namespace Stmt.Runnable

variable {inside : Bool} {statement : Stmt}

theorem withIncrement {increment : Option Expr} (runs : statement.Runnable inside)
    (last : ∀ value ∈ increment, value.Runnable) :
    (statement.withIncrement increment).Runnable inside := by
  cases increment with
  | none => exact runs
  | some value =>
      refine .block ?_
      simp [Stmt.Runnable.expression (last value rfl), runs]

theorem withInitializer {initializer : Option Stmt} (runs : statement.Runnable inside)
    (first : ∀ given ∈ initializer, given.Runnable inside) :
    (statement.withInitializer initializer).Runnable inside := by
  cases initializer with
  | none => exact runs
  | some given =>
      refine .block ?_
      simp [first given rfl, runs]

end Stmt.Runnable

/-- What is formed inside of some function bodies stands for something runnable there. -/
theorem Surface.Formed.runnable {functions : Nat} {statement : Surface}
    (formed : statement.Formed functions) :
    statement.desugar.Runnable (decide (0 < functions)) := by
  induction formed with
  | clause canonical =>
      rw [desugar]
      exact Clause.Canonical.runnable canonical _
  | print canonical =>
      rw [desugar]
      exact .print canonical.runnable
  | returning inside _ canonical =>
      rw [desugar, decide_eq_true inside]
      exact .returning fun value given => (canonical value given).runnable
  | function _ few _ _ ih =>
      rw [desugar, desugarAll_eq_map]
      refine .function few ?_
      simpa using ih
  | block _ ih =>
      rw [desugar, desugarAll_eq_map]
      refine .block ?_
      simpa using ih
  | branch canonical _ _ ih =>
      rw [desugar]
      exact .branch canonical.runnable ih (by simp)
  | choice canonical _ _ _ _ _ ih ihElse =>
      rw [desugar]
      refine .branch canonical.runnable ih ?_
      simpa using ihElse
  | loop canonical _ _ ih =>
      rw [desugar]
      exact .loop canonical.runnable ih
  | @forLoop functions initializer condition increment statement first canonical last _ _ ih =>
      rw [desugar, Stmt.forLoop]
      have decides : (condition.getD (.literal (.bool true))).Runnable := by
        cases condition with
        | none => exact .literal _
        | some value => exact (canonical value rfl).runnable
      refine .withInitializer (.loop decides (.withIncrement ih ?_)) ?_
      · exact fun value given => (last value given).runnable
      · intro given member
        obtain ⟨only, isFirst, rfl⟩ := Option.map_eq_some_iff.mp member
        exact Clause.Canonical.runnable (first only isFirst) _

theorem parseProgram_runnable {tokens : List Token} {statements : List Stmt}
    (parsed : parseProgram tokens = .ok statements) :
    ∀ statement ∈ statements, statement.Runnable false := by
  obtain ⟨program, holds, _spells, rfl⟩ :=
    (parseProgramWithin_iff maxNesting tokens statements).mp parsed
  rw [Surface.desugarAll_eq_map]
  intro statement member
  obtain ⟨surface, inProgram, rfl⟩ := List.mem_map.mp member
  exact (holds surface inProgram).1.runnable

theorem parseExpression_runnable {tokens : List Token} {expression : Expr}
    (parsed : parseExpression tokens = .ok expression) : expression.Runnable := by
  obtain ⟨first, front, back, whole, stands, rounds⟩ :=
    (parseExpressionWithin_iff maxNesting tokens expression).mp parsed
  obtain ⟨dropped, fine, _spelled⟩ := divides_of_rounds rounds rfl front stands
  exact (fine expression (by simp)).1.runnable

/-! ### Labels -/

namespace Stmt

theorem runnable_labelledAll {inside : Bool} {statements : List Stmt}
    (each : ∀ statement ∈ statements, ∀ next, (statement.labelled next).1.Runnable inside)
    (next : Nat) :
    ∀ statement ∈ (Stmt.labelledAll next statements).1, statement.Runnable inside := by
  induction statements generalizing next with
  | nil => simp [Stmt.labelledAll]
  | cons first others ih =>
      obtain ⟨here, there⟩ := List.forall_mem_cons.mp each
      rw [Stmt.labelledAll]
      exact List.forall_mem_cons.mpr ⟨here next, ih there _⟩

/-- Labels do not matter. -/
theorem Runnable.labelled {inside : Bool} {statement : Stmt} (runs : statement.Runnable inside)
    (next : Nat) : (statement.labelled next).1.Runnable inside := by
  induction runs generalizing next with
  | expression evaluates => exact .expression evaluates
  | print evaluates => exact .print evaluates
  | returning evaluates => exact .returning evaluates
  | «variable» evaluates => exact .variable evaluates
  | function few _ ih =>
      rw [Stmt.labelled]
      exact .function few (runnable_labelledAll ih _)
  | block _ ih =>
      rw [Stmt.labelled]
      exact .block (runnable_labelledAll ih _)
  | @branch inside condition thenBranch elseBranch decides _ _ ih ihElse =>
      cases elseBranch with
      | none =>
          rw [Stmt.labelled]
          exact .branch decides (ih next) (by simp)
      | some other =>
          rw [Stmt.labelled]
          refine .branch decides (ih next) ?_
          simpa using ihElse other rfl _
  | loop decides _ ih =>
      rw [Stmt.labelled]
      exact .loop decides (ih next)

end Stmt

end Lox
