import Lox.Proofs.Run.CallDepth
set_option autoImplicit false

/-! Two runs that differ in how many calls may be in progress. They have the same moments until the
lower limit is met; from there the run with the lower limit only leaves what it is in, and prints
nothing more. -/

namespace Lox

/-- The same settings, with another limit of calls. -/
def Settings.allowing (settings : Settings) (calls : Nat) : Settings :=
  { settings with maxCallDepth := calls }

def Session.allowing (session : Session) (calls : Nat) : Session :=
  { session with settings := session.settings.allowing calls }

namespace Moment

variable {settings : Settings} {raised : Nat} {start moment last later : Moment}

theorem argumentNext_allowing (bound : settings.maxCallDepth ≤ raised) (scope : ScopeId)
    (paren : Token) (function : Callable) (given : List Value) (frames : List Frame)
    (machine : Machine) (others : List Expr) :
    argumentNext (settings.allowing raised) scope paren function given frames machine others
        = argumentNext settings scope paren function given frames machine others ∨
      argumentNext settings scope paren function given frames machine others
        = ⟨.interrupted (.callDepth settings.maxCallDepth), frames, machine⟩ := by
  cases others with
  | cons argument others => exact Or.inl rfl
  | nil =>
      unfold argumentNext
      by_cases fits : given.length = function.arity
      · simp only [if_pos fits]
        by_cases full : settings.maxCallDepth ≤ machine.callDepth
        · exact Or.inr (if_pos full)
        · have free : ¬ raised ≤ machine.callDepth := by omega
          left
          change (if raised ≤ machine.callDepth then _ else _) = _
          rw [if_neg full, if_neg free]
          rfl
      · left
        simp only [if_neg fits]

/-- A step is the same with a higher limit, unless it meets the lower one. -/
theorem next_allowing (bound : settings.maxCallDepth ≤ raised) (moment : Moment) :
    moment.next (settings.allowing raised) = moment.next settings ∨
      ∃ frames, moment.next settings
        = some ⟨.interrupted (.callDepth settings.maxCallDepth), frames, moment.machine⟩ := by
  rcases moment with ⟨control, frames, machine⟩
  cases frames with
  | nil => cases control <;> exact Or.inl rfl
  | cons frame frames =>
      cases control with
      | value value =>
          cases frame with
          | callee scope paren arguments =>
              cases value with
              | literal value => exact Or.inl rfl
              | callable function =>
                  refine (argumentNext_allowing bound scope paren function [] frames machine
                    arguments).imp (congrArg some) ?_
                  exact fun met => ⟨frames, congrArg some met⟩
          | argument scope paren function given others =>
              refine (argumentNext_allowing bound scope paren function (given ++ [value]) frames
                machine others).imp (congrArg some) ?_
              exact fun met => ⟨frames, congrArg some met⟩
          | _ => exact Or.inl rfl
      | _ => cases frame <;> exact Or.inl rfl

/-- A run is the same with a higher limit, or there is a moment up to which it is and at which it
meets the lower limit. -/
theorem Reaches.allowing (bound : settings.maxCallDepth ≤ raised)
    (reached : Reaches settings start last) :
    Reaches (settings.allowing raised) start last ∨
      ∃ cut frames, Reaches (settings.allowing raised) start cut ∧
        Reaches settings
          ⟨.interrupted (.callDepth settings.maxCallDepth), frames, cut.machine⟩ last := by
  obtain ⟨steps, arrived⟩ := reached
  induction steps generalizing start with
  | zero =>
      cases arrived
      exact Or.inl (Reaches.refl _)
  | succ steps ih =>
      obtain ⟨middle, stepped, rest⟩ := Option.bind_eq_some_iff.mp arrived
      rcases next_allowing bound start with same | ⟨frames, met⟩
      · have alsoStepped := same.trans stepped
        rcases ih rest with all | ⟨cut, frames, toCut, left⟩
        · exact Or.inl (Reaches.step alsoStepped all)
        · exact Or.inr ⟨cut, frames, Reaches.step alsoStepped toCut, left⟩
      · rw [stepped] at met
        cases met
        exact Or.inr ⟨start, frames, Reaches.refl _, steps, rest⟩

/-- No frame stops an overflow, and none prints on the way. -/
theorem Reaches.overflow {limit : Nat} (reached : Reaches settings start last)
    (overflow : start.control = .interrupted (.callDepth limit)) :
    last.control = .interrupted (.callDepth limit) ∧
      last.machine.output = start.machine.output := by
  have keeps : ∀ moment later : Moment,
      (moment.control = .interrupted (.callDepth limit) ∧
        moment.machine.output = start.machine.output) →
      moment.next settings = some later →
      later.control = .interrupted (.callDepth limit) ∧
        later.machine.output = start.machine.output := by
    intro moment later holds stepped
    rcases moment with ⟨control, frames, machine⟩
    obtain ⟨rfl, output⟩ := holds
    cases frames with
    | nil => cases stepped
    | cons frame frames =>
        cases stepped
        cases frame with
        | body scope =>
            refine ⟨rfl, Eq.trans ?_ output⟩
            change (machine.leave settings scope).output = _
            unfold Machine.leave
            split <;> rfl
        | _ => exact ⟨rfl, output⟩
  obtain ⟨steps, arrived⟩ := reached
  exact afterSteps_keeps keeps ⟨overflow, rfl⟩ arrived

/-- Output is never taken back. -/
theorem Reaches.written (reached : Reaches settings start last) :
    ∃ bytes, last.machine.output.written = start.machine.output.written ++ bytes := by
  have keeps : ∀ moment later : Moment,
      (∃ bytes, moment.machine.output.written = start.machine.output.written ++ bytes) →
      moment.next settings = some later →
      ∃ bytes, later.machine.output.written = start.machine.output.written ++ bytes := by
    intro moment later holds stepped
    obtain ⟨bytes, behind⟩ := holds
    cases next_callStep stepped with
    | stays calls continues overflow =>
        obtain ⟨more, further⟩ := continues.written
        exact ⟨bytes ++ more, by rw [further, behind, ByteArray.append_assoc]⟩
    | enters fits calls depth output control => exact ⟨bytes, by rw [output, behind]⟩
    | leaves calls depth output control => exact ⟨bytes, by rw [output, behind]⟩
    | overflows full calls machine control => exact ⟨bytes, by rw [machine, behind]⟩
  obtain ⟨steps, arrived⟩ := reached
  exact afterSteps_keeps keeps ⟨.empty, by rw [ByteArray.append_empty]⟩ arrived

/-- Every overflow tells the limit that was set. -/
theorem Reaches.limit (reached : Reaches settings start last)
    (fresh : ¬ start.control.isOverflow) (overflow : last.control.isOverflow) :
    last.control = .interrupted (.callDepth settings.maxCallDepth) := by
  have keeps : ∀ moment later : Moment,
      (moment.control.isOverflow →
        moment.control = .interrupted (.callDepth settings.maxCallDepth)) →
      moment.next settings = some later → later.control.isOverflow →
      later.control = .interrupted (.callDepth settings.maxCallDepth) := by
    intro moment later holds stepped overflow
    cases next_callStep stepped with
    | stays calls continues old =>
        have same := old overflow
        rw [same] at overflow ⊢
        exact holds overflow
    | enters fits calls depth output control => exact absurd overflow control
    | leaves calls depth output control =>
        rw [control] at overflow ⊢
        exact holds overflow
    | overflows full calls machine control => exact control
  obtain ⟨steps, arrived⟩ := reached
  exact afterSteps_keeps keeps (fun overflow => absurd overflow fresh) arrived overflow

end Moment

open Moment

theorem Control.errors_callDepth {control : Control} {diagnostics : List Diagnostic}
    (told : control.errors = .ok diagnostics) (limit : Nat) :
    .callDepth limit ∈ diagnostics ↔ control = .interrupted (.callDepth limit) := by
  cases control with
  | interrupted interrupt => cases interrupt <;> cases told <;> simp [eq_comm]
  | evaluate | execute | bind | value | done =>
      cases told
      simp

/-- An overflow is reported exactly when it is what the run came to. -/
theorem Submission.verdict_callDepth {submission : Submission} {last : Moment}
    {diagnostics : List Diagnostic} (judged : submission.verdict last = .ok diagnostics)
    (limit : Nat) :
    .callDepth limit ∈ diagnostics ↔ last.control = .interrupted (.callDepth limit) := by
  cases submission with
  | expression value => exact last.control.errors_callDepth judged limit
  | program statements =>
      unfold verdict at judged
      cases told : last.control.errors with
      | error halt =>
          rw [told] at judged
          cases judged
      | ok errors =>
          rw [told] at judged
          cases judged
          simp [last.control.errors_callDepth told limit]

theorem Submission.begin_fresh (submission : Submission) (machine : Machine) :
    ¬ (submission.begin machine).control.isOverflow := by
  cases submission <;> exact id

/-- A higher limit of calls never changes a run that fits, and a lower one only cuts it short. For any
submission that ends in a session, an overflow that is reported tells the limit. If none is, the
submission ends with a higher limit as well, in the same diagnostics and with the same machine. In
any case what it prints with the higher limit begins with what it prints with the lower one. -/
theorem raising_call_limit (session later : Session) (raised : Nat)
    (bound : session.settings.maxCallDepth ≤ raised) (submission : Submission) (steps : Nat)
    (diagnostics : List Diagnostic)
    (answered : session.submit steps submission = .ok (diagnostics, later)) :
    (∀ limit, .callDepth limit ∈ diagnostics → limit = session.settings.maxCallDepth) ∧
    (.callDepth session.settings.maxCallDepth ∉ diagnostics →
      ∃ enough, (session.allowing raised).submit enough submission
        = .ok (diagnostics, later.allowing raised)) ∧
    ∀ (enough : Nat) (others : List Diagnostic) (beyond : Session),
      (session.allowing raised).submit enough submission = .ok (others, beyond) →
      ∃ printed rest,
        later.machine.output.written = session.machine.output.written ++ printed ∧
        beyond.machine.output.written = session.machine.output.written ++ printed ++ rest := by
  obtain ⟨last, reached, ended, judged, rfl⟩ :=
    (session.submit_iff later submission diagnostics).mp ⟨steps, answered⟩
  have output : (submission.begin session.machine).machine = session.machine := by
    cases submission <;> rfl
  obtain ⟨printed, written⟩ := reached.written
  rw [output] at written
  refine ⟨?_, ?_, ?_⟩
  · intro limit told
    have overflow := (Submission.verdict_callDepth judged limit).mp told
    have exact := reached.limit (submission.begin_fresh session.machine) (by rw [overflow]; trivial)
    rw [overflow] at exact
    cases exact
    rfl
  · intro fits
    rcases reached.allowing bound with same | ⟨cut, frames, _toCut, left⟩
    · refine ((session.allowing raised).submit_iff _ submission diagnostics).mpr
        ⟨last, same, ?_, judged, rfl⟩
      rcases next_allowing bound last with alike | ⟨frames, met⟩
      · exact alike.trans ended
      · rw [ended] at met
        cases met
    · have overflow := (left.overflow rfl).1
      exact absurd ((Submission.verdict_callDepth judged _).mpr overflow) fits
  · intro enough others beyond answeredToo
    obtain ⟨beyondLast, reachedToo, endedToo, _judged, rfl⟩ :=
      ((session.allowing raised).submit_iff beyond submission others).mp ⟨enough, answeredToo⟩
    refine ⟨printed, ?_⟩
    change ∃ rest, last.machine.output.written = session.machine.output.written ++ printed ∧
      beyondLast.machine.output.written = session.machine.output.written ++ printed ++ rest
    rw [← written]
    rcases reached.allowing bound with same | ⟨cut, frames, toCut, left⟩
    · obtain ⟨rest, further⟩ := (same.to_end reachedToo endedToo).written
      exact ⟨rest, rfl, further⟩
    · obtain ⟨rest, further⟩ := (toCut.to_end reachedToo endedToo).written
      refine ⟨rest, rfl, ?_⟩
      rw [(left.overflow rfl).2]
      exact further

/-- A function that prints before it calls itself. -/
def Runaway.announced : List Stmt :=
  [.function 0 name [] [.print (.literal (.string "a")), .expression call], .expression call]

/-- Where one call is allowed it prints once, and where two are twice. -/
theorem announced_cut_short :
    ∃ later beyond : Session,
      (Session.start { maxCallDepth := 1 } .unlimited).submit 9 (.program Runaway.announced)
        = .ok ([.callDepth 1], later) ∧
      ((Session.start { maxCallDepth := 1 } .unlimited).allowing 2).submit 9
        (.program Runaway.announced) = .ok ([.callDepth 2], beyond) ∧
      later.machine.output.written.size = 2 ∧
      ∃ rest, beyond.machine.output.written = later.machine.output.written ++ rest ∧
        rest.size = 2 := by
  obtain ⟨later, beyond, answered, answeredToo, short, long⟩ :
      ∃ later beyond : Session,
        (Session.start { maxCallDepth := 1 } .unlimited).submit 9 (.program Runaway.announced)
          = .ok ([.callDepth 1], later) ∧
        ((Session.start { maxCallDepth := 1 } .unlimited).allowing 2).submit 9
          (.program Runaway.announced) = .ok ([.callDepth 2], beyond) ∧
        later.machine.output.written.size = 2 ∧ beyond.machine.output.written.size = 4 :=
    ⟨_, _, rfl, rfl, by decide +kernel, by decide +kernel⟩
  obtain ⟨printed, rest, front, whole⟩ :=
    (raising_call_limit (.start { maxCallDepth := 1 } .unlimited) later 2 (by decide) _ 9 _
      answered).2.2 9 _ beyond answeredToo
  rw [← front] at whole
  refine ⟨later, beyond, answered, answeredToo, short, rest, whole, ?_⟩
  rw [whole, ByteArray.size_append, short] at long
  omega

end Lox
