import Lox.Proofs.Grammar.PerformingProgram
set_option autoImplicit false

/-! Errors behind which parsing goes on. A program within the levels that may be open is read to its
end, whatever stands left of an equals sign, however many items there are and wherever a `return`
stands. What is noted on the way is what the derivation of the program tells, in the same order. -/

namespace Lox

open Grammar

/-- What is noted for a program that derives within the levels that may be open is what its derivation
tells and nothing else. There is a tree just when that is nothing, and it is the one derived. -/
theorem soft_errors_exact (tokens : List Token) (reading : Reading (List Stmt))
    (derives : DerivesProgram reading)
    (reads : tokens.takeWhile (·.kind != .endOfInput) = reading.course.tokens)
    (shallow : reading.course.levels ≤ maxNesting) :
    diagnostics tokens = reading.course.reports ∧
      parseProgram tokens = if reading.course.reports.isEmpty then .ok reading.value
        else .error reading.course.reports := by
  cases derives with
  | program given =>
      have within := Course.beyond?_eq_none_iff.mpr shallow
      have turns : Turns (rules maxNesting maxNesting) (.ofTokens tokens) _ _ :=
        turns_within given within reads rfl rfl
      exact ⟨diagnostics_of_turns turns, parseProgram_of_turns turns⟩

/-! ### A return of two assignments -/

namespace StrayReturn

def word : Token := ⟨.returnWord, "return", .nil, 1⟩

def semicolon : Token := ⟨.semicolon, ";", .nil, 1⟩

def name : Token := ⟨.identifier, "a", .nil, 1⟩

/-- An equals sign on some line. -/
def equals (line : Nat) : Token := ⟨.equal, "=", .nil, line⟩

/-- `(a)` -/
def target : Reading Expr :=
  ⟨.token ⟨.leftParen, "(", .nil, 1⟩ ++ ((Course.token name).deeper ++
    .token ⟨.rightParen, ")", .nil, 1⟩), .grouping (.variable name), false⟩

/-- `(a) = value` -/
def assignment (line : Nat) (value : Reading Expr) : Reading Expr :=
  ⟨target.course ++ (.token (equals line) ++ (value.course.deeper ++
    target.value.misplaced (equals line))), target.value.assigned value.value, true⟩

/-- `return (a) = (a) = a;`, with the equals signs on lines of their own. -/
def statement : Reading Stmt :=
  let value := assignment 1 (assignment 2 ⟨.token name, .variable name, false⟩)
  ⟨.token word ++ (.stray word 0 ++ (value.course.deeper ++ .token semicolon)),
    .returning word (some value.value), false⟩

theorem name_derives {level : Nat} (loose : level ≤ 10) :
    DerivesExpression level ⟨.token name, .variable name, false⟩ :=
  (DerivesExpression.variable rfl).loosen loose (Nat.le_refl 10)

theorem target_derives : DerivesExpression 1 target :=
  (DerivesExpression.grouping rfl (name_derives (by decide)) rfl).loosen (by decide) (by decide)

theorem assignment_derives (line : Nat) {value : Reading Expr} (derives : DerivesExpression 0 value) :
    DerivesExpression 0 (assignment line value) :=
  .assign target_derives rfl rfl derives

theorem statement_derives : DerivesStatement 0 .statement statement :=
  .returning rfl (.some (assignment_derives 1 (assignment_derives 2 (name_derives (by decide))))) rfl

theorem program_derives : DerivesProgram
    ⟨.declarations [statement.deeper], [statement.value], false⟩ := by
  refine .program ?_
  intro item member
  rw [List.mem_singleton.mp member]
  exact .stated statement_derives

end StrayReturn

/-- The `return` is told before the assignments in its value, and the inner assignment before the one
that it is assigned in. -/
theorem strayReturn_noted :
    diagnostics StrayReturn.statement.course.tokens =
        [⟨StrayReturn.word, .returnOutsideFunction⟩,
          ⟨StrayReturn.equals 2, .invalidAssignmentTarget⟩,
          ⟨StrayReturn.equals 1, .invalidAssignmentTarget⟩] ∧
      parseProgram StrayReturn.statement.course.tokens =
        .error (diagnostics StrayReturn.statement.course.tokens) := by
  obtain ⟨noted, parsed⟩ := soft_errors_exact StrayReturn.statement.course.tokens _
    StrayReturn.program_derives rfl (by decide)
  rw [parsed, noted]
  exact ⟨rfl, rfl⟩

end Lox
