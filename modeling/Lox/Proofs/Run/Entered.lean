import Lox.Proofs.Run.Course
set_option autoImplicit false

/-! Sessions to which parsed trees are given. What a tree comes to is what is submitted for it comes
to, once its declarations are labelled: a program that is run twice is submitted twice. -/

namespace Lox

/-- A program with the manner in which it is run, or an expression. -/
inductive Tree where
  | program (manner : Session.Manner) (statements : List Stmt)
  | expression (value : Expr)

/-- What is submitted for a tree, whose declarations are labelled from a number on, and the next
label to give. -/
def Tree.submitted (next : Nat) : Tree → List Submission × Nat
  | program manner statements =>
    let (loaded, after) := Stmt.labelledAll next statements
    match manner with
    | .programTwice => ([.program loaded, .program loaded], after)
    | .body => ([.program (Session.firstBody loaded)], after)
    | .program | .expression => ([.program loaded], after)
  | expression value => ([.expression value], next)

namespace Session

def enter (steps : Nat) (session : Session) : Tree → Outcome
  | .program manner statements => session.runProgram steps manner statements
  | .expression value => session.runExpression steps value

/-- Trees are entered one after another, and each of them comes to an end; on record is what each
of them reported and the session behind it. -/
inductive Entered : Session → List Tree → List (List Diagnostic × Session) → Prop
  | nil (session : Session) : Entered session [] []
  | cons {session middle : Session} {tree : Tree} {others : List Tree}
      {diagnostics : List Diagnostic} {records : List (List Diagnostic × Session)} (steps : Nat)
      (first : session.enter steps tree = .ok (diagnostics, middle))
      (rest : Entered middle others records) :
      Entered session (tree :: others) ((diagnostics, middle) :: records)

/-- The session as it is once the tree is loaded. -/
def labelled (session : Session) (tree : Tree) : Session :=
  { session with nextLabel := (tree.submitted session.nextLabel).2 }

/-- A submission that ends with some number of steps ends the same with any greater one. -/
theorem submit_enough {session later : Session} {submission : Submission}
    {diagnostics : List Diagnostic} {steps : Nat}
    (answered : session.submit steps submission = .ok (diagnostics, later)) :
    ∃ enough, ∀ steps, enough ≤ steps →
      session.submit steps submission = .ok (diagnostics, later) := by
  obtain ⟨last, reached, ended, judged, rfl⟩ :=
    (submit_iff session later submission diagnostics).mp ⟨steps, answered⟩
  obtain ⟨enough, settled⟩ := Submission.work_settles reached ended
  refine ⟨enough, fun steps more => ?_⟩
  rw [submit_eq, ← (settled steps more).1, judged]
  rfl

theorem submit_iff_ran (session later : Session) (submission : Submission)
    (diagnostics : List Diagnostic) :
    (∃ steps, session.submit steps submission = .ok (diagnostics, later)) ↔
      ∃ reports, session.Ran [submission] reports later ∧ reports.flatten = diagnostics := by
  constructor
  · intro holds
    obtain ⟨steps, answered⟩ := holds
    exact ⟨[diagnostics], .cons steps answered (.nil later), by simp⟩
  · intro holds
    obtain ⟨reports, ran, rfl⟩ := holds
    cases ran with
    | cons steps answered rest =>
        cases rest
        exact ⟨steps, by simpa using answered⟩

/-- Two submissions of which the second is given to the session behind the first. -/
theorem submit_both_iff_ran (session later : Session) (first second : Submission)
    (diagnostics : List Diagnostic) :
    (∃ steps, (do
        let (errors, middle) ← session.submit steps first
        let (others, later) ← middle.submit steps second
        return (errors ++ others, later) : Outcome) = .ok (diagnostics, later)) ↔
      ∃ reports, session.Ran [first, second] reports later ∧ reports.flatten = diagnostics := by
  constructor
  · intro holds
    obtain ⟨steps, answered⟩ := holds
    cases one : session.submit steps first with
    | error halt =>
        rw [one] at answered
        cases answered
    | ok outcome =>
        obtain ⟨errors, middle⟩ := outcome
        rw [one] at answered
        change (middle.submit steps second).bind _ = _ at answered
        cases two : middle.submit steps second with
        | error halt =>
            rw [two] at answered
            cases answered
        | ok outcome =>
            rw [two] at answered
            cases answered
            exact ⟨[errors, _], .cons steps one (.cons steps two (.nil _)), by simp⟩
  · intro holds
    obtain ⟨reports, ran, rfl⟩ := holds
    cases ran with
    | cons steps one rest =>
        cases rest with
        | cons others two rest =>
            cases rest
            -- The two may have been given different numbers of steps.
            obtain ⟨enough, firstSettled⟩ := submit_enough one
            obtain ⟨alsoEnough, secondSettled⟩ := submit_enough two
            refine ⟨max enough alsoEnough, ?_⟩
            rw [firstSettled _ (Nat.le_max_left _ _)]
            change (Session.submit _ _ second).bind _ = _
            rw [secondSettled _ (Nat.le_max_right _ _)]
            simp [Except.bind, pure, Except.pure]

theorem enter_iff (session later : Session) (tree : Tree) (diagnostics : List Diagnostic) :
    (∃ steps, session.enter steps tree = .ok (diagnostics, later)) ↔
      ∃ reports, (session.labelled tree).Ran (tree.submitted session.nextLabel).1 reports later ∧
        reports.flatten = diagnostics := by
  cases tree with
  | expression value => exact session.submit_iff_ran later (.expression value) diagnostics
  | program manner statements =>
      let loaded := (Stmt.labelledAll session.nextLabel statements).1
      let behind := session.labelled (.program manner statements)
      cases manner with
      | programTwice =>
          exact behind.submit_both_iff_ran later (.program loaded) (.program loaded) diagnostics
      | body => exact behind.submit_iff_ran later (.program (firstBody loaded)) diagnostics
      | program | expression => exact behind.submit_iff_ran later (.program loaded) diagnostics

end Session

end Lox
