import Lox.Proofs.Grammar.Program
import Lox.Proofs.Run.Composed
import Lox.Stmt.Label
set_option autoImplicit false

/-! Where declarations stand. In what parses, the branches of an `if` and the bodies of loops are no
declarations; so a statement declares a name in its own scope only if it is a declaration itself. -/

namespace Lox

namespace Stmt

/-- The name that a declaration declares. -/
def declaration? : Stmt → Option String
  | .variable name _ => some name.lexeme
  | .function _ name _ _ => some name.lexeme
  | _ => none

/-- A statement and all that stand inside of it. -/
inductive Part (part : Stmt) : Stmt → Prop
  | self : Part part part
  | function {label : Nat} {name : Token} {parameters : List Token} {body : List Stmt}
      {statement : Stmt} (member : statement ∈ body) (within : Part part statement) :
      Part part (.function label name parameters body)
  | block {statements : List Stmt} {statement : Stmt} (member : statement ∈ statements)
      (within : Part part statement) : Part part (.block statements)
  | thenBranch {condition : Expr} {thenBranch : Stmt} {elseBranch : Option Stmt}
      (within : Part part thenBranch) : Part part (.branch condition thenBranch elseBranch)
  | elseBranch {condition : Expr} {thenBranch elseBranch : Stmt}
      (within : Part part elseBranch) : Part part (.branch condition thenBranch (some elseBranch))
  | loop {condition : Expr} {body : Stmt} (within : Part part body) :
      Part part (.loop condition body)

/-- No branch and no body of a loop is a declaration. -/
inductive Placed : Stmt → Prop
  | expression (value : Expr) : Placed (.expression value)
  | print (value : Expr) : Placed (.print value)
  | returning (keyword : Token) (value : Option Expr) : Placed (.returning keyword value)
  | variable (name : Token) (initializer : Option Expr) : Placed (.variable name initializer)
  | function {label : Nat} {name : Token} {parameters : List Token} {body : List Stmt}
      (placed : ∀ statement ∈ body, Placed statement) :
      Placed (.function label name parameters body)
  | block {statements : List Stmt} (placed : ∀ statement ∈ statements, Placed statement) :
      Placed (.block statements)
  | branch {condition : Expr} {thenBranch : Stmt} {elseBranch : Option Stmt}
      (first : thenBranch.declaration? = none) (placed : Placed thenBranch)
      (second : ∀ other ∈ elseBranch, other.declaration? = none)
      (placedElse : ∀ other ∈ elseBranch, Placed other) :
      Placed (.branch condition thenBranch elseBranch)
  | loop {condition : Expr} {body : Stmt} (plain : body.declaration? = none)
      (placed : Placed body) : Placed (.loop condition body)

variable {statement inner : Stmt}

theorem Placed.part (placed : statement.Placed) (within : Part inner statement) :
    inner.Placed := by
  induction within with
  | self => exact placed
  | function member _ ih =>
      cases placed with
      | function placed => exact ih (placed _ member)
  | block member _ ih =>
      cases placed with
      | block placed => exact ih (placed _ member)
  | thenBranch _ ih =>
      cases placed with
      | branch _ placed => exact ih placed
  | elseBranch _ ih =>
      cases placed with
      | branch _ _ _ placed => exact ih (placed _ rfl)
  | loop _ ih =>
      cases placed with
      | loop _ placed => exact ih placed

theorem Placed.declaredNames (placed : statement.Placed) :
    statement.declaredNames = statement.declaration?.toList := by
  induction placed with
  | expression | print | returning | «variable» | function | block => rfl
  | @branch condition thenBranch elseBranch first _ second _ ih ihElse =>
      cases elseBranch with
      | none =>
          rw [Stmt.declaredNames, ih, first]
          rfl
      | some other =>
          rw [Stmt.declaredNames, ih, first, ihElse other rfl, second other rfl]
          rfl
  | loop plain _ ih =>
      rw [Stmt.declaredNames, ih, plain]
      rfl

/-- Behind a body an increment stands in a block with it. -/
theorem Placed.withIncrement (placed : statement.Placed) (plain : statement.declaration? = none)
    (increment : Option Expr) : (statement.withIncrement increment).Placed ∧
      (statement.withIncrement increment).declaration? = none := by
  cases increment with
  | none => exact ⟨placed, plain⟩
  | some value =>
      refine ⟨.block ?_, rfl⟩
      simp [Placed.expression value, placed]

theorem Placed.forLoop (placed : statement.Placed) (plain : statement.declaration? = none)
    {initializer : Option Stmt} (first : ∀ given ∈ initializer, given.Placed)
    (condition increment : Option Expr) :
    (Stmt.forLoop initializer condition increment statement).Placed := by
  obtain ⟨body, bodyPlain⟩ := placed.withIncrement plain increment
  rw [Stmt.forLoop]
  cases initializer with
  | none => exact .loop bodyPlain body
  | some given =>
      refine .block ?_
      simp [first given rfl, Placed.loop bodyPlain body]

/-! ### Labels -/

theorem declaration?_labelled (statement : Stmt) (next : Nat) :
    (statement.labelled next).1.declaration? = statement.declaration? := by
  cases statement with
  | branch condition thenBranch elseBranch => cases elseBranch <;> rfl
  | _ => rfl

theorem placed_labelledAll {statements : List Stmt}
    (each : ∀ statement ∈ statements, ∀ next, (statement.labelled next).1.Placed) (next : Nat) :
    ∀ statement ∈ (Stmt.labelledAll next statements).1, statement.Placed := by
  induction statements generalizing next with
  | nil => simp [Stmt.labelledAll]
  | cons first others ih =>
      obtain ⟨here, there⟩ := List.forall_mem_cons.mp each
      rw [Stmt.labelledAll]
      exact List.forall_mem_cons.mpr ⟨here next, ih there _⟩

theorem Placed.labelled (placed : statement.Placed) (next : Nat) :
    (statement.labelled next).1.Placed := by
  induction placed generalizing next with
  | expression value => exact .expression value
  | print value => exact .print value
  | returning keyword value => exact .returning keyword value
  | «variable» name initializer => exact .variable name initializer
  | function _ ih =>
      rw [Stmt.labelled]
      exact .function (placed_labelledAll ih _)
  | block _ ih =>
      rw [Stmt.labelled]
      exact .block (placed_labelledAll ih _)
  | @branch condition thenBranch elseBranch first _ second _ ih ihElse =>
      cases elseBranch with
      | none =>
          rw [Stmt.labelled]
          exact .branch ((declaration?_labelled _ _).trans first) (ih next) (by simp) (by simp)
      | some other =>
          rw [Stmt.labelled]
          refine .branch ((declaration?_labelled _ _).trans first) (ih next) ?_ ?_
          · simpa [declaration?_labelled] using second other rfl
          · simpa using ihElse other rfl _
  | loop plain _ ih =>
      rw [Stmt.labelled]
      exact .loop ((declaration?_labelled _ _).trans plain) (ih next)

end Stmt

/-! ### What the grammar gives -/

theorem Surface.declaration?_desugar {statement : Surface} (states : statement.isStatement = true) :
    statement.desugar.declaration? = none := by
  cases statement with
  | clause only =>
      cases only with
      | «variable» => cases states
      | expression => simp [desugar, Clause.desugar, Stmt.declaration?]
  | function => cases states
  | forLoop initializer =>
      cases initializer <;> simp [desugar, Stmt.forLoop, Stmt.withInitializer, Stmt.declaration?]
  | print | returning | block | branch | choice | loop => simp [desugar, Stmt.declaration?]

theorem Clause.desugar_placed (only : Clause) : only.desugar.Placed := by
  cases only with
  | «variable» name initializer => exact .variable name initializer
  | expression value => exact .expression value

theorem Surface.Formed.placed {functions : Nat} {statement : Surface}
    (formed : statement.Formed functions) : statement.desugar.Placed := by
  induction formed with
  | @clause _ only =>
      rw [desugar]
      exact only.desugar_placed
  | print =>
      rw [desugar]
      exact .print _
  | returning =>
      rw [desugar]
      exact .returning _ _
  | function _ _ _ _ ih =>
      rw [desugar, desugarAll_eq_map]
      refine .function ?_
      simpa using ih
  | block _ ih =>
      rw [desugar, desugarAll_eq_map]
      refine .block ?_
      simpa using ih
  | branch _ states _ ih =>
      rw [desugar]
      exact .branch (declaration?_desugar states) ih (by simp) (by simp)
  | choice _ states _ _ statesElse _ ih ihElse =>
      rw [desugar]
      refine .branch (declaration?_desugar states) ih ?_ ?_
      · simpa using declaration?_desugar statesElse
      · simpa using ihElse
  | loop _ states _ ih =>
      rw [desugar]
      exact .loop (declaration?_desugar states) ih
  | forLoop _ _ _ states _ ih =>
      rw [desugar]
      refine ih.forLoop (declaration?_desugar states) ?_ _ _
      intro given member
      obtain ⟨only, _isFirst, rfl⟩ := Option.map_eq_some_iff.mp member
      exact only.desugar_placed

/-- Of what parses, every part is placed. -/
theorem parseProgram_placed {tokens : List Token} {statements : List Stmt}
    (parsed : parseProgram tokens = .ok statements) (next : Nat) :
    ∀ whole ∈ (Stmt.labelledAll next statements).1, whole.Placed := by
  obtain ⟨program, holds, _spells, rfl⟩ :=
    (parseProgramWithin_iff maxNesting tokens statements).mp parsed
  apply Stmt.placed_labelledAll
  intro statement member
  rw [Surface.desugarAll_eq_map] at member
  obtain ⟨surface, inProgram, rfl⟩ := List.mem_map.mp member
  exact (holds surface inProgram).1.placed.labelled

end Lox
