import Lox.Proofs.Run.OutputLimit
import Lox.Proofs.Run.Phases
set_option autoImplicit false

/-! What a session printed before makes no difference to a run. It stands in front of what the run
prints, and all else is as if nothing had been printed; so what a source prints can be told from a
session with the same scopes that has printed nothing yet. -/

namespace Lox

/-- The same output if the bytes had been written before all others. -/
def Output.prefaced (front : ByteArray) (output : Output) : Output :=
  { output with written := front ++ output.written }

def Machine.prefaced (front : ByteArray) (machine : Machine) : Machine :=
  { machine with output := machine.output.prefaced front }

/-- Behind what was written all along. -/
theorem Machine.redirect_prefaced {machine : Machine} {output : Output}
    (unchanged : machine = machine.redirect output) (front : ByteArray) :
    machine.redirect (output.prefaced front) = machine.prefaced front := by
  conv_rhs => rw [unchanged]
  rfl

def Moment.prefaced (front : ByteArray) (moment : Moment) : Moment :=
  { moment with machine := moment.machine.prefaced front }

theorem Output.write_prefaced (front bytes : ByteArray) (output : Output) :
    (output.prefaced front).write bytes
      = ((output.write bytes).1.prefaced front, (output.write bytes).2) := by
  unfold Output.write prefaced
  cases output.room with
  | none => simp only [ByteArray.append_assoc]
  | some room =>
      dsimp only
      split <;> simp only [ByteArray.append_assoc]

namespace Run

variable {α β : Type}

/-- The second outcome is the first with more written before, and a result is as expected. -/
inductive PrefacedBy (front : ByteArray) (post : α → Prop) :
    EStateM.Result Interrupt Machine α → EStateM.Result Interrupt Machine α → Prop
  | ok {result : α} {later : Machine} (holds : post result) :
      PrefacedBy front post (.ok result later) (.ok result (later.prefaced front))
  | error {interrupt : Interrupt} {later : Machine} :
      PrefacedBy front post (.error interrupt later) (.error interrupt (later.prefaced front))

/-- An action to which it makes no difference what was written before. -/
def Prefaces (post : α → Prop) (action : Run α) : Prop :=
  ∀ front machine, PrefacedBy front post (action machine) (action (machine.prefaced front))

theorem bind_prefaces {middle : α → Prop} {post : β → Prop} {first : Run α} {second : α → Run β}
    (prefaces : first.Prefaces middle)
    (others : ∀ result, middle result → (second result).Prefaces post) :
    (first >>= second).Prefaces post := by
  intro front machine
  have same := prefaces front machine
  change PrefacedBy front post (EStateM.bind first second machine)
    (EStateM.bind first second (machine.prefaced front))
  unfold EStateM.bind
  generalize first machine = outcome, first (machine.prefaced front) = other at same ⊢
  cases same with
  | ok holds => exact others _ holds front _
  | error => exact .error

/-- An action that leaves the output alone. -/
theorem Silent.prefaces {post : α → Prop} {action : Run α} (silent : action.Silent)
    (holds : ∀ result, post result) : action.Prefaces post := by
  intro front machine
  have same : action machine = redirected machine.output (action machine) :=
    silent machine machine.output
  have moved : action (machine.prefaced front)
      = redirected (machine.output.prefaced front) (action machine) :=
    silent machine (machine.output.prefaced front)
  rw [moved]
  cases ran : action machine with
  | ok result later =>
      rw [ran] at same
      injection same with _ unchanged
      rw [redirected, Machine.redirect_prefaced unchanged front]
      exact .ok (holds result)
  | error interrupt later =>
      rw [ran] at same
      injection same with _ unchanged
      rw [redirected, Machine.redirect_prefaced unchanged front]
      exact .error

theorem print_prefaces (value : Value) : (print value).Prefaces fun _ => True := by
  intro front machine
  have written := machine.output.write_prefaced front (value.text ++ "\n").toUTF8
  unfold print Machine.prefaced
  dsimp only
  rw [written]
  rcases machine.output.write (value.text ++ "\n").toUTF8 with ⟨output, failure⟩
  cases failure with
  | none => exact .ok trivial
  | some failure => exact .error

theorem flush_prefaces : flush.Prefaces fun _ => True := by
  intro front machine
  have same : (machine.prefaced front).output.flushError? = machine.output.flushError? := rfl
  unfold flush
  rw [same]
  cases machine.output.flushError? with
  | none => exact .ok trivial
  | some failure => exact .error

theorem leave_prefaced (settings : Settings) (scope : ScopeId) (front : ByteArray)
    (machine : Machine) :
    (machine.prefaced front).leave settings scope
      = (machine.leave settings scope).prefaced front := by
  unfold Machine.leave
  split <;> rfl

theorem releasing_prefaces {post : α → Prop} {body : Run α} (settings : Settings) (scope : ScopeId)
    (prefaces : body.Prefaces post) : (releasing settings scope body).Prefaces post := by
  intro front machine
  have same := prefaces front machine
  have left := leave_prefaced settings scope front
  unfold releasing
  generalize body machine = outcome, body (machine.prefaced front) = other at same ⊢
  cases same with
  | @ok result later holds =>
      have behind : PrefacedBy front post (.ok result (later.leave settings scope))
          (.ok result ((later.leave settings scope).prefaced front)) := .ok holds
      rwa [← left later] at behind
  | @error interrupt later =>
      have behind : PrefacedBy front post (.error interrupt (later.leave settings scope))
          (.error interrupt ((later.leave settings scope).prefaced front)) := .error
      rwa [← left later] at behind

theorem counted_prefaces {post : α → Prop} {call : Run α} (settings : Settings)
    (prefaces : call.Prefaces post) : (counted settings call).Prefaces post := by
  intro front machine
  have same := prefaces front { machine with callDepth := machine.callDepth + 1 }
  have depth : (machine.prefaced front).callDepth = machine.callDepth := rfl
  have deeper : { machine.prefaced front with callDepth := machine.callDepth + 1 }
      = Machine.prefaced front { machine with callDepth := machine.callDepth + 1 } := rfl
  unfold counted
  rw [depth, deeper]
  split
  · exact .error
  · generalize call { machine with callDepth := machine.callDepth + 1 } = outcome,
      call (Machine.prefaced front { machine with callDepth := machine.callDepth + 1 }) = other
      at same ⊢
    cases same with
    | ok holds => exact .ok holds
    | error => exact .error

theorem returned_prefaces {body : Run Unit} (prefaces : body.Prefaces fun _ => True) :
    (returned body).Prefaces fun _ => True := by
  intro front machine
  have same := prefaces front machine
  unfold returned
  generalize body machine = outcome, body (machine.prefaced front) = other at same ⊢
  cases same with
  | ok => exact .ok trivial
  | @error interrupt =>
      cases interrupt with
      | returning value => exact .ok trivial
      | failure | callDepth | output | stuck | exhausted => exact .error

theorem prefaces_composes : Composes .any Prefaces where
  pure _ holds _ _ := .ok holds
  throw _ _ _ _ _ := .error
  bind := bind_prefaces
  lookup scope name _ := (lookup_silent scope name).prefaces fun _ => trivial
  assign scope name value _ _ := (assign_silent scope name value).prefaces fun _ => trivial
  define _ _ _ _ _ _ _ _ := .ok trivial
  capture _ _ _ _ := .ok trivial
  push _ _ _ _ := .ok trivial
  print := print_prefaces
  releasing settings scope _ prefaces := releasing_prefaces settings scope prefaces
  counted settings prefaces := counted_prefaces settings prefaces
  returned := returned_prefaces

end Run

namespace Submission

theorem work_prefaces (settings : Settings) (steps : Nat) (submission : Submission) :
    (submission.work settings steps).Prefaces fun _ => True := by
  have all := Run.prefaces_composes.evaluator_all settings steps
  cases submission with
  | program statements =>
      exact Run.prefaces_composes.executeAll all trivial fun _ _ _ _ => trivial
  | expression value =>
      refine Run.bind_prefaces (all.evaluate Arena.globalScope value trivial) fun result _ => ?_
      exact Run.bind_prefaces (Run.print_prefaces result) fun _ _ => Run.flush_prefaces

theorem work_writes (settings : Settings) (steps : Nat) (submission : Submission) :
    (submission.work settings steps).Writes fun _ => True := by
  have all := Run.writes_composes.evaluator_all settings steps
  cases submission with
  | program statements =>
      exact Run.writes_composes.executeAll all trivial fun _ _ _ _ => trivial
  | expression value =>
      refine Run.bind_writes (all.evaluate Arena.globalScope value trivial) fun result _ => ?_
      refine Run.bind_writes (Run.print_writes result) fun _ _ => ?_
      intro machine accepts
      unfold Run.flush
      rw [accepts.flushError?]
      exact ⟨accepts, trivial⟩

end Submission

/-- The same session if the bytes had been printed before. -/
def Session.prefaced (front : ByteArray) (session : Session) : Session :=
  { session with machine := session.machine.prefaced front }

/-- An answer in a session that printed something before. -/
def Session.Outcome.prefaced (front : ByteArray) (outcome : Session.Outcome) : Session.Outcome :=
  outcome.map fun answer => (answer.1, answer.2.prefaced front)

/-! ### Submissions -/

namespace Session

variable {session later loaded : Session} {submission : Submission} {steps : Nat}

theorem submit_prefaced (front : ByteArray) (session : Session) (steps : Nat)
    (submission : Submission) :
    (session.prefaced front).submit steps submission
      = (session.submit steps submission).prefaced front := by
  have same := submission.work_prefaces session.settings steps front session.machine
  have last : Moment.ofOutcome
        (submission.work session.settings steps (session.machine.prefaced front))
      = (Moment.ofOutcome (submission.work session.settings steps session.machine)).prefaced
          front := by
    generalize submission.work session.settings steps session.machine = outcome,
      submission.work session.settings steps (session.machine.prefaced front) = other at same ⊢
    cases same <;> rfl
  have judged : ∀ moment : Moment,
      submission.verdict (moment.prefaced front) = submission.verdict moment := by
    cases submission <;> exact fun _ => rfl
  rw [submit_eq, submit_eq]
  change (submission.verdict (.ofOutcome (submission.work session.settings steps
    (session.machine.prefaced front)))).map (fun diagnostics => (diagnostics,
      { session.prefaced front with
        machine := (Moment.ofOutcome (submission.work session.settings steps
          (session.machine.prefaced front))).machine })) = _
  rw [last, judged]
  dsimp only
  cases submission.verdict
    (.ofOutcome (submission.work session.settings steps session.machine)) <;> rfl

/-- Given enough steps, what was parsed comes to an end, behind which the session can go on. -/
theorem submit_ends (accepts : session.machine.output.Accepts) (runnable : session.machine.Runnable)
    (parsed : submission.Parsed) (steps : Nat) :
    session.submit steps submission = .error .exhausted ∧
        Moment.Lasts session.settings steps (submission.begin session.machine) ∨
      ∃ diagnostics later, session.submit steps submission = .ok (diagnostics, later) ∧
        later.machine.output.Accepts ∧ later.machine.Runnable := by
  have wrote := submission.work_writes session.settings steps session.machine accepts
  have meets := submission.work_meets session.settings steps session.machine
  have answered := session.submit_eq steps submission
  dsimp only at answered
  generalize submission.work session.settings steps session.machine = outcome at *
  cases judged : submission.verdict (.ofOutcome outcome) with
  | ok diagnostics =>
      rw [judged] at answered
      refine Or.inr ⟨diagnostics, _, answered, ?_, (submit_runs runnable parsed.runnable answered).1⟩
      cases outcome <;> exact wrote.1
  | error halt =>
      rw [judged] at answered
      cases halt with
      | stuck => exact absurd answered (submit_ne_stuck runnable parsed.runnable steps)
      | exhausted =>
          refine Or.inl ⟨answered, ?_⟩
          cases outcome with
          | ok done machine => cases submission <;> cases judged
          | error interrupt machine =>
              cases interrupt with
              | exhausted => exact meets
              | failure | callDepth | returning | output | stuck =>
                  cases submission <;> cases judged

/-! ### Sources -/

/-- What is submitted for a source, and the session with its declarations loaded; or what is wrong
with its text. -/
def submitted (session : Session) (source : String) (manner : Manner) :
    Except (List Diagnostic) (Submission × Session) :=
  match Token.scan source with
  | .error failure => .error [.lexical failure]
  | .ok tokens =>
    match manner with
    | .expression =>
      match parseExpression tokens with
      | .error reports => .error (reports.map .syntactic)
      | .ok expression => .ok (.expression expression, session)
    | _ =>
      match parseProgram tokens with
      | .error reports => .error (reports.map .syntactic)
      | .ok program => .ok (.program (session.load program).1, (session.load program).2)

/-- The session has more to do for the source than so many steps. -/
def Outlasts (session : Session) (source : String) (manner : Manner) (steps : Nat) : Prop :=
  ∃ submission loaded, session.submitted source manner = .ok (submission, loaded) ∧
    Moment.Lasts loaded.settings steps (submission.begin loaded.machine)

variable {source : String} {manner : Manner}

/-- A source is run once, as a program or as an expression. -/
def Manner.Once (manner : Manner) : Prop :=
  manner = .program ∨ manner = .expression

theorem run_eq (once : manner.Once) :
    session.run steps manner source
      = match session.submitted source manner with
        | .error diagnostics => .ok (diagnostics, session)
        | .ok (submission, loaded) => loaded.submit steps submission := by
  unfold run submitted
  cases Token.scan source with
  | error failure => rfl
  | ok tokens =>
      rcases once with rfl | rfl
      · dsimp only
        cases parseProgram tokens <;> rfl
      · dsimp only
        cases parseExpression tokens <;> rfl

theorem submitted_prefaced (front : ByteArray) (session : Session) (source : String)
    (manner : Manner) :
    (session.prefaced front).submitted source manner
      = (session.submitted source manner).map fun given => (given.1, given.2.prefaced front) := by
  unfold submitted
  cases Token.scan source with
  | error failure => rfl
  | ok tokens =>
      cases manner with
      | expression =>
          dsimp only
          cases parseExpression tokens <;> rfl
      | program | programTwice | body =>
          dsimp only
          cases parseProgram tokens <;> rfl

theorem submitted_parsed (given : session.submitted source manner = .ok (submission, loaded)) :
    submission.Parsed ∧ loaded.machine = session.machine := by
  unfold submitted at given
  split at given
  · cases given
  · rename_i tokens _scanned
    split at given
    · split at given
      · cases given
      · rename_i parsed
        cases given
        exact ⟨.expression parsed, rfl⟩
    · split at given
      · cases given
      · rename_i parsed
        cases given
        exact ⟨.program session.nextLabel parsed, rfl⟩

theorem run_prefaced (once : manner.Once) (front : ByteArray) (session : Session) (steps : Nat)
    (source : String) :
    (session.prefaced front).run steps manner source
      = (session.run steps manner source).prefaced front := by
  rw [run_eq once, run_eq once, submitted_prefaced]
  cases session.submitted source manner with
  | error diagnostics => rfl
  | ok given => exact submit_prefaced front given.2 steps given.1

/-- Given enough steps, a source comes to an end, behind which the session can go on. -/
theorem run_ends (once : manner.Once) (accepts : session.machine.output.Accepts)
    (runnable : session.machine.Runnable) (steps : Nat) (source : String) :
    session.run steps manner source = .error .exhausted ∧ session.Outlasts source manner steps ∨
      ∃ diagnostics later, session.run steps manner source = .ok (diagnostics, later) ∧
        later.machine.output.Accepts ∧ later.machine.Runnable := by
  rw [run_eq once]
  cases given : session.submitted source manner with
  | error diagnostics => exact Or.inr ⟨diagnostics, session, rfl, accepts, runnable⟩
  | ok submitted =>
      obtain ⟨submission, loaded⟩ := submitted
      obtain ⟨parsed, same⟩ := submitted_parsed given
      rw [← same] at accepts runnable
      rcases submit_ends accepts runnable parsed steps with ⟨short, lasts⟩ | ended
      · exact Or.inl ⟨short, submission, loaded, given, lasts⟩
      · exact Or.inr ended

/-- The session as it goes on, with nothing printed yet. -/
def afresh (session : Session) : Session :=
  { session with machine := { session.machine with output := .unlimited } }

/-- What was printed so far can be put in front of all that is still to come. -/
theorem prefaced_afresh (accepts : session.machine.output.Accepts) :
    session.afresh.prefaced session.machine.output.written = session := by
  obtain ⟨settings, ⟨arena, callDepth, ⟨written, room, flushFails⟩⟩, nextLabel⟩ := session
  obtain ⟨unlimited, flushes⟩ := accepts
  dsimp only at unlimited flushes
  subst unlimited flushes
  simp only [afresh, prefaced, Machine.prefaced, Output.prefaced, Output.unlimited,
    ByteArray.append_empty]

end Session

end Lox
