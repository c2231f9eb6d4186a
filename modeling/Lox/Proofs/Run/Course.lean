import Lox.Proofs.Run.Evaluation
import Lox.Session
set_option autoImplicit false

/-! Sessions moment by moment. Trees are submitted one after another to one machine; a stage is one
moment in the course of the whole session, while a submission runs or between two of them. -/

namespace Lox

open Moment

/-- A tree that is run as a program, or evaluated and printed as an expression. Declarations in a
program bear their labels already, and the same program can be submitted again. -/
inductive Submission where
  | program (statements : List Stmt)
  | expression (expression : Expr)

def Control.errors : Control → Except Halt (List Diagnostic)
  | .interrupted interrupt => return [← interrupt.diagnostic]
  | _ => return []

namespace Submission

def begin (machine : Machine) : Submission → Moment
  | program statements => ⟨.done, [.sequence Arena.globalScope statements], machine⟩
  | expression value => ⟨.evaluate Arena.globalScope value, [.print, .flush], machine⟩

/-- What is reported once a submission has come to its last moment. A program flushes its output
also after an error. -/
def verdict (last : Moment) : Submission → Except Halt (List Diagnostic)
  | program _ => do
    let errors ← last.control.errors
    return errors ++ last.machine.output.flushError?.toList.map Diagnostic.output
  | expression _ => last.control.errors

def work (settings : Settings) (steps : Nat) : Submission → Run Unit
  | program statements => (evaluator settings steps).executeAll Arena.globalScope statements
  | expression value => do
    let value ← (evaluator settings steps).evaluate Arena.globalScope value
    Run.print value
    Run.flush

end Submission

namespace Session

def submit (steps : Nat) (session : Session) : Submission → Outcome
  | .program statements => session.runStatements steps statements
  | .expression expression => session.runExpression steps expression

/-- A session in which every submission ended: what each of them reported, and the session behind
the last. -/
inductive Ran : Session → List Submission → List (List Diagnostic) → Session → Prop
  | nil (session : Session) : Ran session [] [] session
  | cons {session middle later : Session} {submission : Submission}
      {others : List Submission} {diagnostics : List Diagnostic}
      {reports : List (List Diagnostic)} (steps : Nat)
      (first : session.submit steps submission = .ok (diagnostics, middle))
      (rest : Ran middle others reports later) :
      Ran session (submission :: others) (diagnostics :: reports) later

end Session

structure Stage where
  /-- The submission that is being run, if there is one. -/
  active : Option Submission
  moment : Moment
  pending : List Submission
  /-- What the submissions behind reported, in order. -/
  reported : List (List Diagnostic)

namespace Stage

def start (machine : Machine) (submissions : List Submission) : Stage where
  active := none
  moment := ⟨.done, [], machine⟩
  pending := submissions
  reported := []

/-- What follows on a moment that ends a submission. -/
def close (stage : Stage) (submission : Submission) : Option Stage :=
  match submission.verdict stage.moment with
  | .ok diagnostics =>
    some
      { stage with
        active := none
        moment := ⟨.done, [], stage.moment.machine⟩
        reported := stage.reported ++ [diagnostics] }
  | .error _ => none

def next (settings : Settings) (stage : Stage) : Option Stage :=
  match stage.active, stage.pending with
  | none, [] => none
  | none, submission :: pending =>
    some
      { stage with
        active := some submission
        moment := submission.begin stage.moment.machine
        pending }
  | some submission, _ =>
    match stage.moment.next settings with
    | some moment => some { stage with moment }
    | none => stage.close submission

def after (settings : Settings) (steps : Nat) (stage : Stage) : Option Stage :=
  afterSteps (next settings) steps stage

end Stage

/-- The last moment of work that came to an outcome. -/
def Moment.ofOutcome : EStateM.Result Interrupt Machine Unit → Moment
  | .ok () machine => ⟨.done, [], machine⟩
  | .error interrupt machine => ⟨.interrupted interrupt, [], machine⟩

theorem Meets.reaches_outcome {settings : Settings} {bound : Nat} {start : Moment}
    {outcome : EStateM.Result Interrupt Machine Unit}
    (meets : Meets settings bound start [] (fun _ => .done) outcome)
    (enough : ∀ later, outcome ≠ .error .exhausted later) :
    Reaches settings start (.ofOutcome outcome) := by
  cases outcome with
  | ok done later => exact meets
  | error interrupt later =>
      cases interrupt with
      | exhausted => exact absurd rfl (enough later)
      | failure | callDepth | returning | output | stuck => exact meets

theorem Moment.ofOutcome_ended (settings : Settings)
    (outcome : EStateM.Result Interrupt Machine Unit) :
    (ofOutcome outcome).next settings = none := by
  cases outcome <;> rfl

namespace Submission

theorem work_carries (settings : Settings) (steps : Nat) (submission : Submission) :
    Carries settings steps (submission.work settings steps)
      (fun frames machine =>
        ⟨(submission.begin machine).control, (submission.begin machine).frames ++ frames, machine⟩)
      fun _ => .done := by
  have agrees := evaluator_agrees settings steps
  cases submission with
  | program statements => exact agrees.executeAll Arena.globalScope statements
  | expression value =>
      have regrouped : work settings steps (.expression value)
          = ((evaluator settings steps).evaluate Arena.globalScope value >>= Run.print)
            >>= fun _ => Run.flush :=
        (bind_assoc _ _ _).symm
      rw [regrouped]
      have printed : Carries settings steps
          ((evaluator settings steps).evaluate Arena.globalScope value >>= Run.print)
          (fun frames machine =>
            ⟨.evaluate Arena.globalScope value, .print :: frames, machine⟩) fun _ => .done := by
        refine Carries.bind (fun _ _ _ => rfl) (agrees.evaluate Arena.globalScope value) ?_
        intro value
        exact Carries.perform (fun _frames _machine => rfl) (Run.print_settles value)
      refine Carries.bindFrom (fun _ _ _ => rfl) printed ?_
      intro _done
      exact Carries.perform (fun _frames _machine => rfl) Run.flush_settles

theorem work_meets (settings : Settings) (steps : Nat) (submission : Submission)
    (machine : Machine) :
    Meets settings steps (submission.begin machine) [] (fun _ => .done)
      (submission.work settings steps machine) := by
  have meets := submission.work_carries settings steps [] machine
  cases submission <;> exact meets

/-- One step more than its moments are is enough for the evaluator. -/
theorem work_settles {settings : Settings} {submission : Submission} {machine : Machine}
    {last : Moment} (reached : Reaches settings (submission.begin machine) last)
    (ended : last.next settings = none) :
    ∃ enough, ∀ steps, enough ≤ steps →
      last = .ofOutcome (submission.work settings steps machine) ∧
        ∀ later, submission.work settings steps machine ≠ .error .exhausted later := by
  obtain ⟨length, arrived⟩ := reached
  refine ⟨length + 1, fun steps more => ?_⟩
  have meets := submission.work_meets settings steps machine
  have enough : ∀ later, submission.work settings steps machine ≠ .error .exhausted later := by
    intro later short
    rw [short] at meets
    obtain ⟨beyond, further⟩ := Option.isSome_iff_exists.mp meets
    have bounded := after_le_of_ended arrived ended further
    omega
  refine ⟨?_, enough⟩
  exact Reaches.eq_of_ended ⟨length, arrived⟩ (meets.reaches_outcome enough) ended
    (ofOutcome_ended settings _)

/-- The moments of a submission end when the evaluator does, with the same outcome. -/
theorem reaches_end_iff (settings : Settings) (submission : Submission) (machine : Machine)
    (last : Moment) :
    Reaches settings (submission.begin machine) last ∧ last.next settings = none ↔
      ∃ steps, last = .ofOutcome (submission.work settings steps machine) ∧
        ∀ later, submission.work settings steps machine ≠ .error .exhausted later := by
  constructor
  · intro holds
    rcases holds with ⟨reached, ended⟩
    obtain ⟨enough, settled⟩ := work_settles reached ended
    exact ⟨enough, settled enough (Nat.le_refl enough)⟩
  · intro whole
    rcases whole with ⟨steps, rfl, enough⟩
    exact ⟨(submission.work_meets settings steps machine).reaches_outcome enough,
      ofOutcome_ended settings _⟩

end Submission

namespace Session

theorem submit_eq (session : Session) (steps : Nat) (submission : Submission) :
    let last := Moment.ofOutcome (submission.work session.settings steps session.machine)
    session.submit steps submission
      = (submission.verdict last).map fun diagnostics =>
          (diagnostics, { session with machine := last.machine }) := by
  cases submission with
  | program statements =>
      dsimp only [submit, runStatements, Submission.work, Submission.verdict]
      cases (evaluator session.settings steps).executeAll Arena.globalScope statements
          session.machine with
      | ok done later => rfl
      | error interrupt later => cases interrupt <;> rfl
  | expression value =>
      dsimp only [submit, runExpression, Submission.work, Submission.verdict]
      cases (do
          let value ← (evaluator session.settings steps).evaluate Arena.globalScope value
          Run.print value
          Run.flush : Run Unit) session.machine with
      | ok done later => rfl
      | error interrupt later => cases interrupt <;> rfl

theorem submit_iff (session later : Session) (submission : Submission)
    (diagnostics : List Diagnostic) :
    (∃ steps, session.submit steps submission = .ok (diagnostics, later)) ↔
      ∃ last, Reaches session.settings (submission.begin session.machine) last ∧
        last.next session.settings = none ∧ submission.verdict last = .ok diagnostics ∧
        later = { session with machine := last.machine } := by
  constructor
  · intro holds
    rcases holds with ⟨steps, answered⟩
    rw [submit_eq] at answered
    cases judged : submission.verdict
        (.ofOutcome (submission.work session.settings steps session.machine)) with
    | error halt =>
        rw [judged] at answered
        cases answered
    | ok diagnostics =>
        rw [judged] at answered
        cases answered
        have enough : ∀ later,
            submission.work session.settings steps session.machine
              ≠ .error .exhausted later := by
          intro later short
          rw [short] at judged
          cases submission <;> cases judged
        have ends :=
          (submission.reaches_end_iff session.settings session.machine _).mpr
            ⟨steps, rfl, enough⟩
        exact ⟨_, ends.1, ends.2, judged, rfl⟩
  · intro whole
    rcases whole with ⟨last, reached, ended, judged, rfl⟩
    obtain ⟨steps, rfl, _enough⟩ :=
      (submission.reaches_end_iff session.settings session.machine last).mp ⟨reached, ended⟩
    refine ⟨steps, ?_⟩
    rw [submit_eq, judged]
    rfl

end Session

namespace Stage

variable {settings : Settings}

theorem after_succ (steps : Nat) (stage : Stage) :
    stage.after settings (steps + 1) = (stage.next settings).bind (after settings steps) :=
  rfl

theorem after_add (first second : Nat) (stage : Stage) :
    stage.after settings (first + second)
      = (stage.after settings first).bind (after settings second) :=
  afterSteps_add (next settings) first second stage

/-- The last stage of a session in which every submission ended. -/
def finished (machine : Machine) (reports : List (List Diagnostic)) : Stage where
  active := none
  moment := ⟨.done, [], machine⟩
  pending := []
  reported := reports

/-- While a submission runs, the stages follow its moments. -/
theorem after_active {submission : Submission} {moment later : Moment} {steps : Nat}
    (pending : List Submission) (reported : List (List Diagnostic))
    (arrived : moment.after settings steps = some later) :
    (⟨some submission, moment, pending, reported⟩ : Stage).after settings steps
      = some ⟨some submission, later, pending, reported⟩ := by
  induction steps generalizing moment with
  | zero =>
      cases arrived
      rfl
  | succ steps ih =>
      rw [Moment.after_succ] at arrived
      cases stepped : moment.next settings with
      | none =>
          rw [stepped] at arrived
          cases arrived
      | some middle =>
          rw [stepped] at arrived
          have taken : (⟨some submission, moment, pending, reported⟩ : Stage).next settings
              = some ⟨some submission, middle, pending, reported⟩ := by
            unfold next
            simp only [stepped]
          rw [after_succ, taken]
          exact ih arrived

theorem next_ended {submission : Submission} {last : Moment} {diagnostics : List Diagnostic}
    (pending : List Submission) (reported : List (List Diagnostic))
    (ended : last.next settings = none) (judged : submission.verdict last = .ok diagnostics) :
    (⟨some submission, last, pending, reported⟩ : Stage).next settings
      = some ⟨none, ⟨.done, [], last.machine⟩, pending, reported ++ [diagnostics]⟩ := by
  unfold next
  simp only [ended]
  unfold close
  simp only [judged]

/-- A session does not finish before the submission that runs has ended in a verdict. -/
theorem ended_of_finished {submission : Submission} {moment : Moment} {steps : Nat}
    {pending : List Submission} {reported reports : List (List Diagnostic)} {machine : Machine}
    (arrived : (⟨some submission, moment, pending, reported⟩ : Stage).after settings steps
      = some (finished machine reports)) :
    ∃ last diagnostics fewer, Reaches settings moment last ∧ last.next settings = none ∧
      submission.verdict last = .ok diagnostics ∧ fewer < steps ∧
      (⟨none, ⟨.done, [], last.machine⟩, pending, reported ++ [diagnostics]⟩ : Stage).after
        settings fewer = some (finished machine reports) := by
  induction steps generalizing moment with
  | zero => cases arrived
  | succ steps ih =>
      rw [after_succ] at arrived
      cases stepped : moment.next settings with
      | some middle =>
          have taken : (⟨some submission, moment, pending, reported⟩ : Stage).next settings
              = some ⟨some submission, middle, pending, reported⟩ := by
            unfold next
            simp only [stepped]
          rw [taken] at arrived
          obtain ⟨last, diagnostics, fewer, reached, ended, judged, less, rest⟩ := ih arrived
          exact ⟨last, diagnostics, fewer, Reaches.step stepped reached, ended, judged,
            Nat.lt_succ_of_lt less, rest⟩
      | none =>
          cases judged : submission.verdict moment with
          | ok diagnostics =>
              rw [next_ended pending reported stepped judged] at arrived
              exact ⟨moment, diagnostics, steps, Reaches.refl moment, stepped, judged,
                Nat.lt_succ_self steps, arrived⟩
          | error halt =>
              have halted : (⟨some submission, moment, pending, reported⟩ : Stage).next settings
                  = none := by
                unfold next
                simp only [stepped]
                unfold close
                simp only [judged]
              rw [halted] at arrived
              cases arrived

end Stage

namespace Session

theorem finishes_of_ran {session later : Session} {submissions : List Submission}
    {reports : List (List Diagnostic)} (ran : session.Ran submissions reports later)
    (reported : List (List Diagnostic)) :
    (∃ steps,
      (⟨none, ⟨.done, [], session.machine⟩, submissions, reported⟩ : Stage).after
        session.settings steps = some (Stage.finished later.machine (reported ++ reports))) ∧
      later = { session with machine := later.machine } := by
  induction ran generalizing reported with
  | nil session =>
      rw [List.append_nil]
      exact ⟨⟨0, rfl⟩, rfl⟩
  | @cons session middle later submission others diagnostics reports steps first rest ih =>
      obtain ⟨last, ⟨length, arrived⟩, ended, judged, rfl⟩ :=
        (submit_iff session middle submission diagnostics).mp ⟨steps, first⟩
      obtain ⟨⟨further, finishes⟩, same⟩ := ih (reported ++ [diagnostics])
      refine ⟨⟨length + (further + 1) + 1, ?_⟩, same⟩
      rw [Stage.after_succ]
      change Stage.after session.settings (length + (further + 1))
        ⟨some submission, submission.begin session.machine, others, reported⟩ = _
      rw [Stage.after_add, Stage.after_active others reported arrived, Option.bind_some,
        Stage.after_succ, Stage.next_ended others reported ended judged, Option.bind_some,
        finishes, List.append_assoc, List.singleton_append]

/-- The induction is on the number of stages, of which each submission takes some. -/
theorem ran_of_finishes (session : Session) (submissions : List Submission)
    (reported total : List (List Diagnostic)) (machine : Machine) (steps : Nat)
    (arrived : (⟨none, ⟨.done, [], session.machine⟩, submissions, reported⟩ : Stage).after
      session.settings steps = some (Stage.finished machine total)) :
    ∃ reports, total = reported ++ reports ∧
      session.Ran submissions reports { session with machine } := by
  induction steps using Nat.strongRecOn generalizing session submissions reported with
  | ind steps ih =>
      cases steps with
      | zero =>
          cases arrived
          exact ⟨[], (List.append_nil total).symm, .nil session⟩
      | succ steps =>
          rw [Stage.after_succ] at arrived
          cases submissions with
          | nil => cases arrived
          | cons submission others =>
              change Stage.after session.settings steps
                ⟨some submission, submission.begin session.machine, others, reported⟩
                = _ at arrived
              obtain ⟨last, diagnostics, fewer, reached, ended, judged, less, rest⟩ :=
                Stage.ended_of_finished arrived
              obtain ⟨enough, answered⟩ :=
                (submit_iff session { session with machine := last.machine } submission
                  diagnostics).mpr ⟨last, reached, ended, judged, rfl⟩
              obtain ⟨reports, totalEq, ran⟩ :=
                ih fewer (Nat.lt_succ_of_lt less) { session with machine := last.machine } others
                  (reported ++ [diagnostics]) rest
              refine ⟨diagnostics :: reports, ?_, .cons enough answered ran⟩
              rw [totalEq, List.append_assoc, List.singleton_append]

/-- A session runs to its end exactly when its stages finish. -/
theorem ran_iff (session : Session) (submissions : List Submission)
    (reports : List (List Diagnostic)) (machine : Machine) :
    session.Ran submissions reports { session with machine } ↔
      ∃ steps, (Stage.start session.machine submissions).after session.settings steps
        = some (Stage.finished machine reports) := by
  constructor
  · intro ran
    exact (finishes_of_ran ran []).1
  · intro holds
    rcases holds with ⟨steps, arrived⟩
    obtain ⟨others, same, ran⟩ :=
      ran_of_finishes session submissions [] reports machine steps arrived
    rw [List.nil_append] at same
    rw [same]
    exact ran

end Session

end Lox
