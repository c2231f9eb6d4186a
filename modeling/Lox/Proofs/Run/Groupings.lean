import Lox.Proofs.Run.Entered
import Lox.Proofs.Run.Ungrouped
set_option autoImplicit false

/-! Groupings have no meaning at run time. A run and the run of the same trees without groupings go
from moment to moment together, but for the steps into a grouping, at which only the first one
moves. -/

namespace Lox

/-! ### Moments -/

def Control.ungrouped : Control → Control
  | evaluate scope expression => evaluate scope expression.ungrouped
  | execute scope statement => execute scope statement.ungrouped
  | bind scope parameters arguments => bind scope parameters (arguments.map Value.ungrouped)
  | value result => value result.ungrouped
  | done => done
  | interrupted interrupt => interrupted interrupt.ungrouped

def Frame.ungrouped : Frame → Frame
  | binaryLeft scope operator right => binaryLeft scope operator right.ungrouped
  | binaryRight operator left => binaryRight operator left.ungrouped
  | logical scope operator right => logical scope operator right.ungrouped
  | conditional scope question thenBranch elseBranch =>
    conditional scope question thenBranch.ungrouped elseBranch.ungrouped
  | callee scope paren arguments => callee scope paren (Expr.ungroupedAll arguments)
  | argument scope paren function given others =>
    argument scope paren function.ungrouped (given.map Value.ungrouped) (Expr.ungroupedAll others)
  | sequence scope others => sequence scope (Stmt.ungroupedAll others)
  | branch scope thenBranch elseBranch =>
    branch scope thenBranch.ungrouped (elseBranch.map Stmt.ungrouped)
  | condition scope loopCondition statement =>
    condition scope loopCondition.ungrouped statement.ungrouped
  | round scope loopCondition statement => round scope loopCondition.ungrouped statement.ungrouped
  | other => other

/-- The expression inside of all groupings around it. -/
def Expr.inner : Expr → Expr
  | grouping inner => inner.inner
  | other => other

namespace Moment

def ungrouped (moment : Moment) : Moment where
  control := moment.control.ungrouped
  frames := moment.frames.map Frame.ungrouped
  machine := moment.machine.ungrouped

/-- The moment at which all groupings around the work at hand are entered. -/
def unwrapped : Moment → Moment
  | ⟨.evaluate scope expression, frames, machine⟩ =>
    ⟨.evaluate scope expression.inner, frames, machine⟩
  | moment => moment

/-! ### One step -/

variable {settings : Settings}

theorem perform_ungrouped {α : Type} {image : α → α} {bare action : Run α}
    (ungroups : Run.Ungroups image bare action) {proceed bareProceed : α → Machine → Moment}
    (goes : ∀ result later,
      bareProceed (image result) later.ungrouped = (proceed result later).ungrouped)
    (frames : List Frame) (machine : Machine) :
    perform bare (frames.map Frame.ungrouped) machine.ungrouped bareProceed
      = (perform action frames machine proceed).ungrouped := by
  unfold perform
  rw [ungroups machine]
  cases action machine with
  | ok result later => exact goes result later
  | error interrupt later => rfl

theorem giving_ungrouped {bare action : Run Value}
    (ungroups : Run.Ungroups Value.ungrouped bare action) (frames : List Frame)
    (machine : Machine) :
    giving bare (frames.map Frame.ungrouped) machine.ungrouped
      = (giving action frames machine).ungrouped :=
  perform_ungrouped ungroups (fun _ _ => rfl) frames machine

theorem completing_ungrouped {bare action : Run Unit} (ungroups : Run.Ungroups id bare action)
    (frames : List Frame) (machine : Machine) :
    completing bare (frames.map Frame.ungrouped) machine.ungrouped
      = (completing action frames machine).ungrouped :=
  perform_ungrouped ungroups (fun _ _ => rfl) frames machine

theorem evaluateNext_ungrouped (scope : ScopeId) (frames : List Frame) (machine : Machine) :
    (expression : Expr) →
      evaluateNext scope (frames.map Frame.ungrouped) machine.ungrouped expression.ungrouped
        = (evaluateNext scope frames machine expression.inner).ungrouped
  | .variable name => giving_ungrouped (Run.lookup_ungroups scope name) frames machine
  | .grouping inner => evaluateNext_ungrouped scope frames machine inner
  | .literal _ | .assign _ _ | .unary _ _ | .binary _ _ _ | .logical _ _ _
  | .conditional _ _ _ _ | .call _ _ _ => rfl

theorem optionalNext_ungrouped (scope : ScopeId) (frames : List Frame) (machine : Machine)
    (value : Option Expr) :
    optionalNext scope (frames.map Frame.ungrouped) machine.ungrouped (value.map Expr.ungrouped)
      = (optionalNext scope frames machine value).ungrouped := by
  cases value <;> rfl

theorem executeNext_ungrouped (scope : ScopeId) (frames : List Frame) (machine : Machine)
    (statement : Stmt) :
    executeNext scope (frames.map Frame.ungrouped) machine.ungrouped statement.ungrouped
      = (executeNext scope frames machine statement).ungrouped := by
  cases statement with
  | returning keyword value => exact optionalNext_ungrouped scope (.returning :: frames) machine value
  | «variable» name initializer =>
      exact optionalNext_ungrouped scope (.variable scope name :: frames) machine initializer
  | function label name parameters body =>
      let declared : Value := .callable (.closure ⟨label, name, parameters, body⟩ scope)
      exact completing_ungrouped (Run.declare_ungroups scope name declared) frames machine
  | block statements =>
      simp only [Stmt.ungrouped, executeNext]
      exact perform_ungrouped (Run.push_ungroups scope) (fun _ _ => rfl) frames machine
  | branch condition thenBranch elseBranch =>
      rw [Stmt.ungrouped_branch]
      rfl
  | expression | print | loop => rfl

theorem bindNext_ungrouped (scope : ScopeId) (frames : List Frame) (machine : Machine)
    (parameters : List Token) (arguments : List Value) :
    bindNext scope (frames.map Frame.ungrouped) machine.ungrouped parameters
        (arguments.map Value.ungrouped)
      = (bindNext scope frames machine parameters arguments).ungrouped := by
  cases parameters with
  | nil => rfl
  | cons parameter parameters =>
      cases arguments with
      | nil => rfl
      | cons argument arguments =>
          simp only [List.map_cons, bindNext]
          exact perform_ungrouped (Run.define_ungroups scope parameter argument) (fun _ _ => rfl)
            frames machine

theorem invokeNext_ungrouped (arguments : List Value) (frames : List Frame) (machine : Machine)
    (function : Callable) :
    invokeNext settings (arguments.map Value.ungrouped) (frames.map Frame.ungrouped)
        machine.ungrouped function.ungrouped
      = (invokeNext settings arguments frames machine function).ungrouped := by
  cases function with
  | clock => rfl
  | closure declaration scope =>
      simp only [Callable.ungrouped, invokeNext]
      exact perform_ungrouped (Run.push_ungroups scope) (fun _ _ => rfl) frames machine

theorem argumentNext_ungrouped (scope : ScopeId) (paren : Token) (function : Callable)
    (given : List Value) (frames : List Frame) (machine : Machine) (others : List Expr) :
    argumentNext settings scope paren function.ungrouped (given.map Value.ungrouped)
        (frames.map Frame.ungrouped) machine.ungrouped (Expr.ungroupedAll others)
      = (argumentNext settings scope paren function given frames machine others).ungrouped := by
  cases others with
  | cons argument others => rfl
  | nil =>
      simp only [argumentNext, Expr.ungroupedAll, List.length_map, Callable.arity_ungrouped]
      by_cases fits : given.length = function.arity
      · rw [if_pos fits, if_pos fits]
        by_cases full : settings.maxCallDepth ≤ machine.callDepth
        · have alsoFull : settings.maxCallDepth ≤ machine.ungrouped.callDepth := full
          rw [if_pos full, if_pos alsoFull]
          rfl
        · have alsoFree : ¬ settings.maxCallDepth ≤ machine.ungrouped.callDepth := full
          rw [if_neg full, if_neg alsoFree]
          exact invokeNext_ungrouped given (.call :: frames) machine.enterCall function
      · rw [if_neg fits, if_neg fits]
        rfl

theorem valueNext_ungrouped (value : Value) (frames : List Frame) (machine : Machine)
    (frame : Frame) :
    valueNext settings value.ungrouped (frames.map Frame.ungrouped) machine.ungrouped
        frame.ungrouped
      = (valueNext settings value frames machine frame).map ungrouped := by
  cases frame with
  | assign scope name =>
      exact congrArg some
        (perform_ungrouped (Run.assign_ungroups scope name value) (fun _ _ => rfl) frames machine)
  | unary operator =>
      exact congrArg some (giving_ungrouped (Run.applyUnary_ungroups operator value) frames machine)
  | binaryRight operator left =>
      exact congrArg some
        (giving_ungrouped (Run.applyBinary_ungroups operator left value) frames machine)
  | callee scope paren arguments =>
      cases value with
      | literal value => rfl
      | callable function =>
          exact congrArg some
            (argumentNext_ungrouped scope paren function [] frames machine arguments)
  | argument scope paren function given others =>
      have appended : given.map Value.ungrouped ++ [value.ungrouped]
          = (given ++ [value]).map Value.ungrouped := by
        simp
      change some (argumentNext _ _ _ _ (given.map Value.ungrouped ++ [value.ungrouped]) _ _ _) = _
      rw [appended]
      exact congrArg some
        (argumentNext_ungrouped scope paren function (given ++ [value]) frames machine others)
  | print => exact congrArg some (completing_ungrouped (Run.print_ungroups value) frames machine)
  | «variable» scope name =>
      exact congrArg some
        (completing_ungrouped (Run.define_ungroups scope name value) frames machine)
  | logical scope operator right =>
      simp only [valueNext, Frame.ungrouped, Value.isTruthy_ungrouped]
      by_cases settled :
          (if operator.kind == .orWord then value.isTruthy else !value.isTruthy) = true
      · simp only [if_pos settled]
        rfl
      · simp only [if_neg settled]
        rfl
  | conditional scope question thenBranch elseBranch =>
      cases value with
      | callable function => rfl
      | literal value =>
          cases value with
          | bool value => cases value <;> rfl
          | nil | number | string => rfl
  | branch scope thenBranch elseBranch =>
      simp only [valueNext, Frame.ungrouped, Value.isTruthy_ungrouped]
      by_cases holds : value.isTruthy = true
      · simp only [if_pos holds]
        rfl
      · simp only [if_neg holds]
        cases elseBranch <;> rfl
  | condition scope condition body =>
      simp only [valueNext, Frame.ungrouped, Value.isTruthy_ungrouped]
      by_cases holds : value.isTruthy = true
      · simp only [if_pos holds]
        rfl
      · simp only [if_neg holds]
        rfl
  | binaryLeft | call | result | body | discard | flush | returning | sequence | round => rfl

theorem doneNext_ungrouped (frames : List Frame) (machine : Machine) (frame : Frame) :
    doneNext settings (frames.map Frame.ungrouped) machine.ungrouped frame.ungrouped
      = (doneNext settings frames machine frame).map ungrouped := by
  cases frame with
  | body scope =>
      exact congrArg some
        (congrArg (Moment.mk .done _) (machine.leave_ungrouped settings scope))
  | flush => exact congrArg some (completing_ungrouped Run.flush_ungroups frames machine)
  | sequence scope others => cases others <;> rfl
  | _ => rfl

theorem interruptNext_ungrouped (interrupt : Interrupt) (frames : List Frame) (machine : Machine)
    (frame : Frame) :
    interruptNext settings interrupt.ungrouped (frames.map Frame.ungrouped) machine.ungrouped
        frame.ungrouped
      = (interruptNext settings interrupt frames machine frame).ungrouped := by
  cases frame with
  | body scope =>
      exact congrArg (Moment.mk (.interrupted interrupt.ungrouped) _)
        (machine.leave_ungrouped settings scope)
  | result => cases interrupt <;> rfl
  | _ => rfl

/-- A step without groupings is the step behind the groupings that are entered here. -/
theorem next_ungrouped (moment : Moment) :
    moment.ungrouped.next settings = (moment.unwrapped.next settings).map ungrouped := by
  rcases moment with ⟨control, frames, machine⟩
  cases control with
  | evaluate scope expression =>
      exact congrArg some (evaluateNext_ungrouped scope frames machine expression)
  | execute scope statement =>
      exact congrArg some (executeNext_ungrouped scope frames machine statement)
  | bind scope parameters arguments =>
      exact congrArg some (bindNext_ungrouped scope frames machine parameters arguments)
  | value value =>
      cases frames with
      | nil => rfl
      | cons frame frames => exact valueNext_ungrouped value frames machine frame
  | done =>
      cases frames with
      | nil => rfl
      | cons frame frames => exact doneNext_ungrouped frames machine frame
  | interrupted interrupt =>
      cases frames with
      | nil => rfl
      | cons frame frames =>
          exact congrArg some (interruptNext_ungrouped interrupt frames machine frame)

end Moment

/-! ### Runs -/

theorem Expr.inner_ungrouped : (expression : Expr) →
    expression.inner.ungrouped = expression.ungrouped
  | .grouping inner => inner.inner_ungrouped
  | .literal _ | .variable _ | .assign _ _ | .unary _ _ | .binary _ _ _ | .logical _ _ _
  | .conditional _ _ _ _ | .call _ _ _ => rfl

namespace Moment

variable {settings : Settings} {start moment later last other : Moment}

theorem unwrapped_ungrouped (moment : Moment) :
    moment.unwrapped.ungrouped = moment.ungrouped := by
  rcases moment with ⟨control, frames, machine⟩
  cases control with
  | evaluate scope expression =>
      change Moment.mk (.evaluate scope expression.inner.ungrouped) _ _ = _
      rw [expression.inner_ungrouped]
      rfl
  | execute | bind | value | done | interrupted => rfl

theorem reaches_inner (scope : ScopeId) (frames : List Frame) (machine : Machine) :
    (expression : Expr) →
      Reaches settings ⟨.evaluate scope expression, frames, machine⟩
        ⟨.evaluate scope expression.inner, frames, machine⟩
  | .grouping inner => Reaches.step rfl (reaches_inner scope frames machine inner)
  | .literal _ | .variable _ | .assign _ _ | .unary _ _ | .binary _ _ _ | .logical _ _ _
  | .conditional _ _ _ _ | .call _ _ _ => Reaches.refl _

theorem reaches_unwrapped (moment : Moment) : Reaches settings moment moment.unwrapped := by
  rcases moment with ⟨control, frames, machine⟩
  cases control with
  | evaluate scope expression => exact reaches_inner scope frames machine expression
  | execute | bind | value | done | interrupted => exact Reaches.refl _

/-- A step goes into a grouping, or is a step without groupings too. -/
theorem next_cases (stepped : moment.next settings = some later) :
    later.ungrouped = moment.ungrouped ∨
      moment.ungrouped.next settings = some later.ungrouped := by
  have alsoStepped (bare : moment.unwrapped = moment) :
      moment.ungrouped.next settings = some later.ungrouped := by
    rw [next_ungrouped, bare, stepped, Option.map_some]
  rcases moment with ⟨control, frames, machine⟩
  cases control with
  | evaluate scope expression =>
      cases expression with
      | grouping inner =>
          cases stepped
          exact Or.inl rfl
      | _ => exact Or.inr (alsoStepped rfl)
  | execute | bind | value | done | interrupted => exact Or.inr (alsoStepped rfl)

theorem ungrouped_ended (ended : moment.next settings = none) :
    moment.ungrouped.next settings = none := by
  have bare : moment.unwrapped = moment := by
    rcases moment with ⟨control, frames, machine⟩
    cases control with
    | evaluate scope expression => cases ended
    | execute | bind | value | done | interrupted => rfl
  rw [next_ungrouped, bare, ended, Option.map_none]

theorem Reaches.ungrouped (reached : Reaches settings start last) :
    Reaches settings start.ungrouped last.ungrouped := by
  obtain ⟨steps, arrived⟩ := reached
  induction steps generalizing start with
  | zero =>
      cases arrived
      exact Reaches.refl _
  | succ steps ih =>
      obtain ⟨middle, stepped, rest⟩ := Option.bind_eq_some_iff.mp arrived
      rcases next_cases stepped with same | alsoStepped
      · -- The other run stays where it is.
        rw [← same]
        exact ih rest
      · exact Reaches.step alsoStepped (ih rest)

/-- A run without groupings ends where the run with them ends. -/
theorem Reaches.of_ungrouped (reached : Reaches settings start.ungrouped other)
    (ended : other.next settings = none) :
    ∃ last, Reaches settings start last ∧ last.next settings = none ∧ last.ungrouped = other := by
  obtain ⟨steps, arrived⟩ := reached
  -- On the steps without groupings: before each of them all groupings around the work are entered.
  induction steps generalizing start with
  | zero =>
      cases arrived
      rw [next_ungrouped, Option.map_eq_none_iff] at ended
      exact ⟨start.unwrapped, reaches_unwrapped start, ended, unwrapped_ungrouped start⟩
  | succ steps ih =>
      obtain ⟨middle, stepped, rest⟩ := Option.bind_eq_some_iff.mp arrived
      rw [next_ungrouped] at stepped
      obtain ⟨later, alsoStepped, rfl⟩ := Option.map_eq_some_iff.mp stepped
      obtain ⟨last, toLast, lastEnded, same⟩ := ih rest
      have toLater : Reaches settings start later :=
        (reaches_unwrapped start).trans (Reaches.step alsoStepped (Reaches.refl later))
      exact ⟨last, toLater.trans toLast, lastEnded, same⟩

end Moment

open Moment

/-! ### Submissions -/

def Submission.ungrouped : Submission → Submission
  | program statements => program (Stmt.ungroupedAll statements)
  | expression value => expression value.ungrouped

def Session.ungrouped (session : Session) : Session :=
  { session with machine := session.machine.ungrouped }

theorem Submission.begin_ungrouped (submission : Submission) (machine : Machine) :
    submission.ungrouped.begin machine.ungrouped = (submission.begin machine).ungrouped := by
  cases submission <;> rfl

theorem Control.errors_ungrouped (control : Control) :
    control.ungrouped.errors = control.errors := by
  cases control with
  | interrupted interrupt => cases interrupt <;> rfl
  | evaluate | execute | bind | value | done => rfl

theorem Submission.verdict_ungrouped (submission : Submission) (last : Moment) :
    submission.ungrouped.verdict last.ungrouped = submission.verdict last := by
  cases submission with
  | expression value => exact last.control.errors_ungrouped
  | program statements =>
      unfold verdict
      change (do
        let errors ← last.control.ungrouped.errors
        return errors ++ last.machine.output.flushError?.toList.map Diagnostic.output) = _
      rw [last.control.errors_ungrouped]

namespace Session

/-- A submission ends exactly if it ends without groupings, and then it reports the same and leaves
the same session but for the groupings. -/
theorem submit_ungrouped_iff (session other : Session) (submission : Submission)
    (diagnostics : List Diagnostic) :
    (∃ steps, session.ungrouped.submit steps submission.ungrouped = .ok (diagnostics, other)) ↔
      ∃ later, (∃ steps, session.submit steps submission = .ok (diagnostics, later)) ∧
        later.ungrouped = other := by
  constructor
  · intro answered
    obtain ⟨bare, toBare, bareEnded, judged, rfl⟩ :=
      (submit_iff session.ungrouped other submission.ungrouped diagnostics).mp answered
    change Reaches session.settings (submission.ungrouped.begin session.machine.ungrouped) bare
      at toBare
    rw [submission.begin_ungrouped] at toBare
    obtain ⟨last, reached, ended, rfl⟩ := toBare.of_ungrouped bareEnded
    rw [submission.verdict_ungrouped] at judged
    exact ⟨_, (submit_iff session _ submission diagnostics).mpr
      ⟨last, reached, ended, judged, rfl⟩, rfl⟩
  · intro holds
    obtain ⟨later, answered, rfl⟩ := holds
    obtain ⟨last, reached, ended, judged, rfl⟩ :=
      (submit_iff session later submission diagnostics).mp answered
    refine (submit_iff session.ungrouped _ submission.ungrouped diagnostics).mpr
      ⟨last.ungrouped, ?_, ungrouped_ended ended, ?_, rfl⟩
    · change Reaches session.settings (submission.ungrouped.begin session.machine.ungrouped) _
      rw [submission.begin_ungrouped]
      exact reached.ungrouped
    · rw [submission.verdict_ungrouped]
      exact judged

variable {session later other : Session} {submissions : List Submission}
variable {reports : List (List Diagnostic)}

theorem Ran.ungrouped (ran : session.Ran submissions reports later) :
    session.ungrouped.Ran (submissions.map Submission.ungrouped) reports later.ungrouped := by
  induction ran with
  | nil session => exact .nil session.ungrouped
  | @cons session middle later submission others diagnostics reports steps first rest ih =>
      obtain ⟨enough, answered⟩ :=
        (session.submit_ungrouped_iff middle.ungrouped submission diagnostics).mpr
          ⟨middle, ⟨steps, first⟩, rfl⟩
      exact .cons enough answered ih

theorem Ran.of_ungrouped
    (ran : session.ungrouped.Ran (submissions.map Submission.ungrouped) reports other) :
    ∃ later, session.Ran submissions reports later ∧ later.ungrouped = other := by
  induction submissions generalizing session reports with
  | nil =>
      cases ran
      exact ⟨session, .nil session, rfl⟩
  | cons submission others ih =>
      rcases ran with - | @⟨_, middle, _, _, _, diagnostics, reports, steps, first, rest⟩
      obtain ⟨later, ⟨enough, answered⟩, rfl⟩ :=
        (session.submit_ungrouped_iff middle submission diagnostics).mp ⟨steps, first⟩
      obtain ⟨last, ranToo, same⟩ := ih rest
      exact ⟨last, .cons enough answered ranToo, same⟩

end Session

/-! ### Sessions -/

def Tree.ungrouped : Tree → Tree
  | program manner statements => program manner (Stmt.ungroupedAll statements)
  | expression value => expression value.ungrouped

def Tree.groupings : Tree → Nat
  | program _ statements => Stmt.groupingsAll statements
  | expression value => value.groupings

theorem Tree.groupings_ungrouped (tree : Tree) : tree.ungrouped.groupings = 0 := by
  cases tree with
  | program manner statements => exact Stmt.groupingsAll_ungroupedAll statements
  | expression value => exact value.groupings_ungrouped

theorem Session.firstBody_ungroupedAll (statements : List Stmt) :
    firstBody (Stmt.ungroupedAll statements) = Stmt.ungroupedAll (firstBody statements) := by
  cases statements with
  | nil => rfl
  | cons first others =>
      cases first with
      | branch condition thenBranch elseBranch => cases elseBranch <;> rfl
      | _ => rfl

/-- Without groupings as many labels are given, and to the same declarations. -/
theorem Tree.submitted_ungrouped (tree : Tree) (next : Nat) :
    tree.ungrouped.submitted next
      = ((tree.submitted next).1.map Submission.ungrouped, (tree.submitted next).2) := by
  cases tree with
  | expression value => rfl
  | program manner statements =>
      simp only [Tree.ungrouped, Tree.submitted, Stmt.labelledAll_ungroupedAll]
      cases manner with
      | body => rw [Session.firstBody_ungroupedAll]; rfl
      | program | programTwice | expression => rfl

/-- What is seen of a session behind a tree that was entered. -/
structure Sight where
  reported : List Diagnostic
  /-- All that was printed up to here. -/
  written : ByteArray
  scopes : Nat
  calls : Nat

def Sight.of (record : List Diagnostic × Session) : Sight where
  reported := record.1
  written := record.2.machine.output.written
  scopes := record.2.machine.arena.size
  calls := record.2.machine.callDepth

theorem Sight.of_ungrouped (diagnostics : List Diagnostic) (session : Session) :
    Sight.of (diagnostics, session.ungrouped) = Sight.of (diagnostics, session) := by
  unfold Sight.of Session.ungrouped
  rw [session.machine.size_ungrouped]
  rfl

namespace Session

theorem start_ungrouped (settings : Settings) (output : Output) :
    (start settings output).ungrouped = start settings output := by
  unfold start ungrouped
  rw [Machine.initial_ungrouped]

theorem enter_ungrouped_iff (session other : Session) (tree : Tree)
    (diagnostics : List Diagnostic) :
    (∃ steps, session.ungrouped.enter steps tree.ungrouped = .ok (diagnostics, other)) ↔
      ∃ later, (∃ steps, session.enter steps tree = .ok (diagnostics, later)) ∧
        later.ungrouped = other := by
  have same := tree.submitted_ungrouped session.nextLabel
  have labelled :
      session.ungrouped.labelled tree.ungrouped = (session.labelled tree).ungrouped := by
    change Session.mk _ _ (tree.ungrouped.submitted session.nextLabel).2 = _
    rw [same]
    rfl
  have submitted : (tree.ungrouped.submitted session.ungrouped.nextLabel).1
      = (tree.submitted session.nextLabel).1.map Submission.ungrouped := by
    change (tree.ungrouped.submitted session.nextLabel).1 = _
    rw [same]
  rw [enter_iff, labelled, submitted]
  constructor
  · intro holds
    obtain ⟨reports, ran, total⟩ := holds
    obtain ⟨later, ranToo, same⟩ := ran.of_ungrouped
    exact ⟨later, (session.enter_iff later tree diagnostics).mpr ⟨reports, ranToo, total⟩, same⟩
  · intro holds
    obtain ⟨later, entered, rfl⟩ := holds
    obtain ⟨reports, ran, total⟩ := (session.enter_iff later tree diagnostics).mp entered
    exact ⟨reports, ran.ungrouped, total⟩

/-- The record of a session without groupings. -/
theorem entered_ungrouped_iff (session : Session) (trees : List Tree)
    (others : List (List Diagnostic × Session)) :
    session.ungrouped.Entered (trees.map Tree.ungrouped) others ↔
      ∃ records, session.Entered trees records ∧
        records.map (fun record => (record.1, record.2.ungrouped)) = others := by
  induction trees generalizing session others with
  | nil =>
      constructor
      · intro entered
        cases entered
        exact ⟨[], .nil session, rfl⟩
      · intro holds
        obtain ⟨records, entered, rfl⟩ := holds
        cases entered
        exact .nil session.ungrouped
  | cons tree trees ih =>
      constructor
      · intro entered
        rcases entered with - | @⟨_, middle, _, _, diagnostics, rest, steps, first, enteredRest⟩
        obtain ⟨later, ⟨enough, firstToo⟩, rfl⟩ :=
          (session.enter_ungrouped_iff middle tree diagnostics).mp ⟨steps, first⟩
        obtain ⟨records, restToo, rfl⟩ := (ih later rest).mp enteredRest
        exact ⟨(diagnostics, later) :: records, .cons enough firstToo restToo, rfl⟩
      · intro holds
        obtain ⟨records, entered, rfl⟩ := holds
        rcases entered with - | @⟨_, middle, _, _, diagnostics, rest, steps, first, enteredRest⟩
        obtain ⟨enough, firstToo⟩ :=
          (session.enter_ungrouped_iff middle.ungrouped tree diagnostics).mpr
            ⟨middle, ⟨steps, first⟩, rfl⟩
        exact .cons enough firstToo ((ih middle _).mpr ⟨rest, enteredRest, rfl⟩)

end Session

/-- Parentheses have no meaning at run time. Take from every tree that is given to a session all of
its groupings, in the bodies of its declarations too, of which there stay as many: the trees come to
an end as before, one after another, and behind each of them as much has been printed and reported,
and as many scopes and calls are there. -/
theorem groupings_without_meaning (settings : Settings) (output : Output) (trees : List Tree) :
    (∀ (tree : Tree) (next : Nat), tree.ungrouped.groupings = 0 ∧
      (tree.ungrouped.submitted next).2 = (tree.submitted next).2) ∧
    ∀ sights : List Sight,
      (∃ records, (Session.start settings output).Entered trees records ∧
        records.map Sight.of = sights) ↔
      ∃ records, (Session.start settings output).Entered (trees.map Tree.ungrouped) records ∧
        records.map Sight.of = sights := by
  refine ⟨fun tree next => ⟨tree.groupings_ungrouped, ?_⟩, fun sights => ?_⟩
  · rw [tree.submitted_ungrouped]
  have agree : ∀ records : List (List Diagnostic × Session),
      (records.map fun record => (record.1, record.2.ungrouped)).map Sight.of
        = records.map Sight.of := by
    intro records
    rw [List.map_map]
    exact List.map_congr_left fun record _ => Sight.of_ungrouped record.1 record.2
  have both := (Session.start settings output).entered_ungrouped_iff trees
  rw [Session.start_ungrouped] at both
  constructor
  · intro holds
    obtain ⟨records, entered, rfl⟩ := holds
    exact ⟨_, (both _).mpr ⟨records, entered, rfl⟩, agree records⟩
  · intro holds
    obtain ⟨others, entered, rfl⟩ := holds
    obtain ⟨records, enteredToo, rfl⟩ := (both others).mp entered
    exact ⟨records, enteredToo, (agree records).symm⟩

end Lox
