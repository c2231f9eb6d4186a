import Lox.Proofs.Scope.Moves
import Lox.Proofs.Scope.Watch
set_option autoImplicit false

/-! What a run leaves behind in the arena. Scopes are left in the reverse order in which they were
opened, on every way out of a block or a call; so behind any work the scopes that were there before
are there again, and above them at most those up to the last one that a closure has captured. -/

namespace Lox

namespace Arena

variable {α : Type} {scope : ScopeId} {before middle after : Arena α}

/-- The scopes are still there, and of their flags only that of the given scope was set. -/
def Keeps (scope : ScopeId) (before after : Arena α) : Prop :=
  ∀ (id : ScopeId) (old : Scope α), before.scopes[id]? = some old →
    ∃ new, after.scopes[id]? = some new ∧ new.enclosing = old.enclosing ∧
      (id ≠ scope → new.captured = old.captured) ∧ (old.captured = true → new.captured = true)

/-- Behind some work in a scope no scope is left above those before, unless the last is captured. -/
structure Rests (scope : ScopeId) (before after : Arena α) : Prop where
  keeps : before.Keeps scope after
  tight : after.size = before.size ∨ before.size < after.size ∧ after.Captures (after.size - 1)

namespace Keeps

theorem refl (arena : Arena α) : arena.Keeps scope arena := by
  intro id old found
  simp [found]

theorem trans (first : before.Keeps scope middle) (second : middle.Keeps scope after) :
    before.Keeps scope after := by
  intro id old found
  obtain ⟨between, here, link, flag, stays⟩ := first id old found
  obtain ⟨new, there, nextLink, nextFlag, nextStays⟩ := second id between here
  refine ⟨new, there, nextLink.trans link, ?_, fun captured => nextStays (stays captured)⟩
  intro other
  rw [nextFlag other, flag other]

theorem captures (keeps : before.Keeps scope after) {id : ScopeId}
    (captured : before.Captures id) : after.Captures id := by
  obtain ⟨old, found, marked⟩ := captured
  obtain ⟨new, there, _link, _flag, stays⟩ := keeps id old found
  exact ⟨new, there, stays marked⟩

theorem define (arena : Arena α) (owner : ScopeId) (name : String) (value : α) :
    arena.Keeps scope (arena.define owner name value) := by
  intro id old found
  rw [scopes_define, found]
  split <;> simp

theorem capture (arena : Arena α) : arena.Keeps scope (arena.capture scope) := by
  intro id old found
  rw [scopes_capture, found]
  split
  · next same => simp [same]
  · simp

/-- The scopes below a scope that was opened are not affected by the work in it. -/
theorem of_push {enclosing : ScopeId}
    (keeps : (before.push enclosing).2.Keeps before.size after) : before.Keeps scope after := by
  intro id old found
  have below : id ≠ before.size := Nat.ne_of_lt (lt_size_of_getElem? found)
  have there : (before.push enclosing).2.scopes[id]? = some old := by
    rw [scopes_push, if_neg below, found]
  obtain ⟨new, here, link, flag, _stays⟩ := keeps id old there
  have same := flag below
  exact ⟨new, here, link, fun _other => same, fun captured => same.trans captured⟩

theorem release {arena : Arena α} (keeps : before.Keeps scope arena) :
    before.Keeps scope (arena.release before.size) := by
  intro id old found
  have below : id ≠ before.size := Nat.ne_of_lt (lt_size_of_getElem? found)
  rw [scopes_release, if_neg fun both => below both.2]
  exact keeps id old found

end Keeps

namespace Rests

theorem of_keeps (keeps : before.Keeps scope after) (same : after.size = before.size) :
    before.Rests scope after :=
  ⟨keeps, Or.inl same⟩

theorem refl (arena : Arena α) : arena.Rests scope arena :=
  of_keeps (.refl arena) rfl

theorem size_le (rests : before.Rests scope after) : before.size ≤ after.size := by
  have tight := rests.tight
  omega

theorem trans (first : before.Rests scope middle) (second : middle.Rests scope after) :
    before.Rests scope after := by
  refine ⟨first.keeps.trans second.keeps, ?_⟩
  rcases second.tight with same | ⟨grown, last⟩
  · rw [same]
    rcases first.tight with unchanged | ⟨grown, last⟩
    · exact Or.inl unchanged
    · exact Or.inr ⟨grown, second.keeps.captures last⟩
  · exact Or.inr ⟨Nat.lt_of_le_of_lt first.size_le grown, last⟩

theorem define (arena : Arena α) (owner : ScopeId) (name : String) (value : α) :
    arena.Rests scope (arena.define owner name value) :=
  of_keeps (.define arena owner name value) (size_define _ _ _ _)

theorem assign (arena : Arena α) (start : ScopeId) (name : String) (value : α) :
    arena.Rests scope (arena.assign start name value).2 := by
  unfold Arena.assign
  split
  · exact define _ _ _ _
  · exact refl arena

theorem capture (arena : Arena α) : arena.Rests scope (arena.capture scope) :=
  of_keeps (.capture arena) (size_capture _ _)

/-- Leaving a scope that is not the global one undoes opening it, unless it or a scope above it is
captured. -/
theorem opened {enclosing : ScopeId} (inner : (before.push enclosing).2.Rests before.size after)
    (positive : 0 < before.size) : before.Rests scope (after.release before.size) := by
  refine ⟨inner.keeps.of_push.release, ?_⟩
  have tight := inner.tight
  rw [size_push] at tight
  by_cases taken : after.isReleasable before.size = true
  · have last : before.size + 1 = after.size :=
      ((isReleasable_iff after before.size).mp taken).2.1
    have shrunk := size_release after before.size
    rw [if_pos taken] at shrunk
    left
    omega
  · have unchanged : after.release before.size = after := if_neg taken
    rw [unchanged]
    right
    rcases tight with single | ⟨grown, last⟩
    · have inside : before.size < after.size := by omega
      refine ⟨inside, ?_⟩
      obtain ⟨opened, found⟩ := exists_of_lt_size inside
      have there : after.scopes[after.size - 1]? = some opened := by
        rw [single]
        exact found
      cases flag : opened.captured with
      | true => exact ⟨opened, there, flag⟩
      | false =>
          refine absurd ((isReleasable_iff after before.size).mpr ?_) taken
          exact ⟨Nat.ne_of_gt positive, single.symm, opened, found, flag⟩
    · exact ⟨Nat.lt_of_succ_lt grown, last⟩

end Rests

end Arena

/-! ### Actions -/

namespace Run

variable {α β : Type} {settings : Settings} {scope : ScopeId}

/-- Behind the action, also when it is interrupted, the arena is at rest. -/
def Leaves (scope : ScopeId) (action : Run α) : Prop :=
  ∀ machine : Machine, 0 < machine.arena.size →
    machine.arena.Rests scope (behind (action machine)).arena

/-- The action leaves the scope in the end. -/
def Quits (scope : ScopeId) (action : Run α) : Prop :=
  ∀ machine : Machine, 0 < machine.arena.size →
    ∃ arena, machine.arena.Rests scope arena ∧
      (behind (action machine)).arena = arena.release scope

namespace Leaves

theorem of_arena {action : Run α}
    (same : ∀ machine, (behind (action machine)).arena = machine.arena) :
    action.Leaves scope := by
  intro machine _positive
  rw [same]
  exact .refl _

theorem pure (result : α) : (Pure.pure result : Run α).Leaves scope :=
  of_arena fun _ => rfl

theorem throw (interrupt : Interrupt) : (MonadExcept.throw interrupt : Run α).Leaves scope :=
  of_arena fun _ => rfl

theorem bind {first : Run α} {second : α → Run β} (leaves : first.Leaves scope)
    (others : ∀ result, (second result).Leaves scope) : (first >>= second).Leaves scope := by
  intro machine positive
  have rests := leaves machine positive
  change machine.arena.Rests scope (behind (EStateM.bind first second machine)).arena
  unfold EStateM.bind
  cases ran : first machine with
  | ok result later =>
      rw [ran] at rests
      exact rests.trans (others result later (Nat.lt_of_lt_of_le positive rests.size_le))
  | error interrupt later =>
      rw [ran] at rests
      exact rests

end Leaves

theorem lookup_leaves (name : Token) : (lookup scope name).Leaves scope := by
  apply Leaves.of_arena
  intro machine
  unfold lookup
  split <;> rfl

theorem assign_leaves (name : Token) (value : Value) : (assign scope name value).Leaves scope := by
  intro machine _positive
  have rests : machine.arena.Rests scope (machine.arena.assign scope name.lexeme value).2 :=
    .assign machine.arena scope name.lexeme value
  unfold assign
  cases assigned : machine.arena.assign scope name.lexeme value with
  | mk known arena =>
      rw [assigned] at rests
      cases known <;> exact rests

theorem define_leaves (owner : ScopeId) (name : Token) (value : Value) :
    (define owner name value).Leaves scope :=
  fun machine _positive => .define machine.arena owner name.lexeme value

theorem capture_leaves : (capture scope).Leaves scope :=
  fun machine _positive => .capture machine.arena

theorem print_leaves (value : Value) : (print value).Leaves scope := by
  apply Leaves.of_arena
  intro machine
  unfold print
  cases machine.output.write (value.text ++ "\n").toUTF8 with
  | mk output error => cases error <;> rfl

theorem flush_leaves : flush.Leaves scope := by
  apply Leaves.of_arena
  intro machine
  unfold flush
  split <;> rfl

theorem ofOperation_leaves (line : Nat) (outcome : Except RuntimeError α) :
    (ofOperation line outcome).Leaves scope := by
  cases outcome <;> exact Leaves.of_arena fun _ => rfl

theorem applyUnary_leaves (operator : Token) (operand : Value) :
    (Evaluator.applyUnary operator operand).Leaves scope := by
  unfold Evaluator.applyUnary
  split
  · exact .throw .stuck
  · exact ofOperation_leaves _ _

theorem applyBinary_leaves (operator : Token) (left right : Value) :
    (Evaluator.applyBinary operator left right).Leaves scope := by
  unfold Evaluator.applyBinary
  split
  · exact .throw .stuck
  · exact ofOperation_leaves _ _

theorem counted_leaves {call : Run α} (leaves : call.Leaves scope) :
    (counted settings call).Leaves scope := by
  intro machine positive
  have rests := leaves machine.enterCall positive
  unfold counted
  split
  · exact .refl _
  · unfold Machine.enterCall at rests
    cases ran : call { machine with callDepth := machine.callDepth + 1 } with
    | ok value later =>
        rw [ran] at rests
        exact rests
    | error interrupt later =>
        rw [ran] at rests
        exact rests

theorem loop_leaves {condition : Run Bool} {body : Run Unit}
    (conditionLeaves : condition.Leaves scope) (bodyLeaves : body.Leaves scope) (rounds : Nat) :
    (loop condition body rounds).Leaves scope := by
  induction rounds with
  | zero => exact .throw .exhausted
  | succ rounds ih =>
      unfold loop
      refine conditionLeaves.bind ?_
      intro holds
      cases holds with
      | true => exact bodyLeaves.bind fun _ => ih
      | false => exact .pure ()

/-! ### Scopes that are opened and left -/

namespace Quits

theorem releasing (reclaims : settings.reclaim = true) {body : Run α}
    (leaves : body.Leaves scope) : (Run.releasing settings scope body).Quits scope := by
  intro machine positive
  have rests := leaves machine positive
  refine ⟨_, rests, ?_⟩
  unfold Run.releasing
  simp only [reclaims, if_true]
  cases body machine <;> rfl

theorem returned {body : Run Unit} (quits : body.Quits scope) :
    (Run.returned body).Quits scope := by
  intro machine positive
  obtain ⟨arena, rests, left⟩ := quits machine positive
  refine ⟨arena, rests, ?_⟩
  rw [← left]
  unfold Run.returned
  cases body machine with
  | ok result later => rfl
  | error interrupt later => cases interrupt <;> rfl

/-- Parameters are bound before, which cannot fail. -/
theorem defineAll {body : Run α} (quits : body.Quits scope) (parameters : List Token)
    (arguments : List Value) :
    (Evaluator.defineAll scope parameters arguments >>= fun _ => body).Quits scope := by
  induction parameters generalizing arguments with
  | nil => exact quits
  | cons parameter parameters ih =>
      cases arguments with
      | nil => exact quits
      | cons argument arguments =>
          intro machine positive
          have defined : machine.arena.Rests scope
              (machine.arena.define scope parameter.lexeme argument) :=
            .define machine.arena scope parameter.lexeme argument
          obtain ⟨arena, rests, left⟩ :=
            ih arguments { machine with
              arena := machine.arena.define scope parameter.lexeme argument }
              (Nat.lt_of_lt_of_le positive defined.size_le)
          exact ⟨arena, defined.trans rests, left⟩

/-- Work that runs in a scope of its own is at rest for any other scope. -/
theorem leaves {body : ScopeId → Run α} (quits : ∀ inner, (body inner).Quits inner)
    (enclosing : ScopeId) : (push enclosing >>= body).Leaves scope := by
  intro machine positive
  have opened : 0 < (machine.arena.push enclosing).2.size := by
    rw [Arena.size_push]
    exact Nat.succ_pos _
  obtain ⟨arena, rests, left⟩ :=
    quits machine.arena.size { machine with arena := (machine.arena.push enclosing).2 } opened
  change machine.arena.Rests scope (behind (body machine.arena.size
    { machine with arena := (machine.arena.push enclosing).2 })).arena
  rw [left]
  exact rests.opened positive

end Quits

end Run

/-! ### Trees -/

namespace Evaluator

open Run

variable {settings : Settings} {worker : Evaluator}

structure Leaves (worker : Evaluator) : Prop where
  evaluate : ∀ scope expression, (worker.evaluate scope expression).Leaves scope
  execute : ∀ scope statement, (worker.execute scope statement).Leaves scope

namespace Leaves

theorem executeAll (leaves : worker.Leaves) (scope : ScopeId) (statements : List Stmt) :
    (worker.executeAll scope statements).Leaves scope := by
  induction statements with
  | nil => exact .pure ()
  | cons first others ih => exact (leaves.execute scope first).bind fun _ => ih

theorem evaluateAll (leaves : worker.Leaves) (scope : ScopeId) (expressions : List Expr) :
    (worker.evaluateAll scope expressions).Leaves scope := by
  induction expressions with
  | nil => exact .pure []
  | cons first others ih =>
      refine (leaves.evaluate scope first).bind ?_
      intro value
      exact ih.bind fun values => .pure (value :: values)

theorem executeBlock (leaves : worker.Leaves) (reclaims : settings.reclaim = true)
    (scope : ScopeId) (statements : List Stmt) :
    (worker.executeBlock settings scope statements).Quits scope :=
  .releasing reclaims (leaves.executeAll scope statements)

theorem invoke (leaves : worker.Leaves) (reclaims : settings.reclaim = true) (scope : ScopeId)
    (arguments : List Value) (function : Callable) :
    (worker.invoke settings arguments function).Leaves scope := by
  cases function with
  | clock => exact .pure _
  | closure declaration closure =>
      apply Quits.leaves
      intro inner
      exact (leaves.executeBlock reclaims inner declaration.body).returned.defineAll
        declaration.parameters arguments

theorem evaluateOptional (leaves : worker.Leaves) (scope : ScopeId) (value : Option Expr) :
    (worker.evaluateOptional scope value).Leaves scope := by
  cases value with
  | none => exact .pure _
  | some value => exact leaves.evaluate scope value

theorem isTrue (leaves : worker.Leaves) (scope : ScopeId) (condition : Expr) :
    (worker.isTrue scope condition).Leaves scope :=
  (leaves.evaluate scope condition).bind fun value => .pure value.isTruthy

theorem evaluateNode (leaves : worker.Leaves) (reclaims : settings.reclaim = true)
    (scope : ScopeId) (expression : Expr) :
    (worker.evaluateNode settings scope expression).Leaves scope := by
  cases expression with
  | literal value => exact .pure _
  | «variable» name => exact lookup_leaves name
  | assign name value =>
      refine (leaves.evaluate scope value).bind ?_
      intro result
      exact (assign_leaves name result).bind fun _ => .pure result
  | unary operator operand =>
      exact (leaves.evaluate scope operand).bind (applyUnary_leaves operator)
  | binary left operator right =>
      refine (leaves.evaluate scope left).bind ?_
      intro first
      exact (leaves.evaluate scope right).bind (applyBinary_leaves operator first)
  | logical left operator right =>
      refine (leaves.evaluate scope left).bind ?_
      intro first
      cases settled : if operator.kind == .orWord then first.isTruthy else !first.isTruthy with
      | true => exact .pure first
      | false => exact leaves.evaluate scope right
  | conditional condition question thenBranch elseBranch =>
      refine (leaves.evaluate scope condition).bind ?_
      intro chosen
      split
      · exact leaves.evaluate scope thenBranch
      · exact leaves.evaluate scope elseBranch
      · exact .throw _
  | call callee paren arguments =>
      refine (leaves.evaluate scope callee).bind ?_
      intro function
      split
      · exact .throw _
      · refine (leaves.evaluateAll scope arguments).bind ?_
        intro values
        split
        · exact counted_leaves (leaves.invoke reclaims scope values _)
        · exact .throw _
  | grouping inner => exact leaves.evaluate scope inner

theorem executeNode (leaves : worker.Leaves) (reclaims : settings.reclaim = true)
    (scope : ScopeId) (statement : Stmt) :
    (worker.executeNode settings scope statement).Leaves scope := by
  cases statement with
  | expression value => exact (leaves.evaluate scope value).bind fun _ => .pure ()
  | print value => exact (leaves.evaluate scope value).bind print_leaves
  | returning keyword value =>
      exact (leaves.evaluateOptional scope value).bind fun result => .throw (.returning result)
  | «variable» name initializer =>
      exact (leaves.evaluateOptional scope initializer).bind (define_leaves scope name)
  | function label name parameters body =>
      exact capture_leaves.bind fun _ => define_leaves scope name _
  | block statements =>
      exact Quits.leaves (fun inner => leaves.executeBlock reclaims inner statements) scope
  | branch condition thenBranch elseBranch =>
      refine (leaves.isTrue scope condition).bind ?_
      intro holds
      cases holds with
      | true => exact leaves.execute scope thenBranch
      | false =>
          cases elseBranch with
          | none => exact .pure ()
          | some elseBranch => exact leaves.execute scope elseBranch
  | loop condition body =>
      exact loop_leaves (leaves.isTrue scope condition) (leaves.execute scope body) worker.rounds

end Leaves

end Evaluator

theorem evaluator_leaves {settings : Settings} (reclaims : settings.reclaim = true)
    (steps : Nat) : (evaluator settings steps).Leaves := by
  induction steps with
  | zero =>
      rw [evaluator_zero]
      exact ⟨fun _ _ => .throw .exhausted, fun _ _ => .throw .exhausted⟩
  | succ steps ih =>
      rw [evaluator_succ]
      exact ⟨ih.evaluateNode reclaims, ih.executeNode reclaims⟩

/-! ### What can be run in a scope -/

open Moment

inductive Work where
  | expression (expression : Expr)
  | statement (statement : Stmt)
  | statements (statements : List Stmt)

/-- The machine behind whatever an action came to, unless it was given too few steps. -/
def Run.machine? {α : Type} : EStateM.Result Interrupt Machine α → Option Machine
  | .error .exhausted _ => none
  | outcome => some (behind outcome)

namespace Work

def begin (scope : ScopeId) (machine : Machine) : Work → Moment
  | expression value => ⟨.evaluate scope value, [], machine⟩
  | statement single => ⟨.execute scope single, [], machine⟩
  | statements all => ⟨.done, [.sequence scope all], machine⟩

/-- The machine behind the work, if it comes to an end within the steps. -/
def machine? (settings : Settings) (steps : Nat) (scope : ScopeId) (machine : Machine) :
    Work → Option Machine
  | expression value =>
    Run.machine? ((evaluator settings steps).evaluate scope value machine)
  | statement single =>
    Run.machine? ((evaluator settings steps).execute scope single machine)
  | statements all =>
    Run.machine? ((evaluator settings steps).executeAll scope all machine)

/-- At some moment of the work a scope is captured that was not there before. -/
def Captures (settings : Settings) (scope : ScopeId) (machine : Machine) (work : Work)
    (id : ScopeId) : Prop :=
  machine.arena.size ≤ id ∧
    ∃ moment, Reaches settings (work.begin scope machine) moment ∧
      moment.machine.arena.Captures id

end Work

namespace Moment

variable {settings : Settings} {start middle last : Moment}

theorem Reaches.captures (reached : Reaches settings start last) {id : ScopeId}
    (captured : start.machine.arena.Captures id) : last.machine.arena.Captures id := by
  obtain ⟨steps, arrived⟩ := reached
  exact after_captures captured arrived

/-- Every moment of a run that ends comes before its end. -/
theorem Reaches.to_end (reached : Reaches settings start middle)
    (ends : Reaches settings start last) (ended : last.next settings = none) :
    Reaches settings middle last := by
  obtain ⟨steps, arrived⟩ := reached
  obtain ⟨length, finished⟩ := ends
  obtain ⟨rest, rfl⟩ := Nat.exists_eq_add_of_le (after_le_of_ended finished ended arrived)
  refine ⟨rest, ?_⟩
  rw [after_add, arrived] at finished
  exact finished

end Moment

/-- The run by moments ends with the machine behind the action. -/
theorem Meets.reaches_machine {settings : Settings} {bound : Nat} {start : Moment} {α : Type}
    {finish : α → Control} {outcome : EStateM.Result Interrupt Machine α} {later : Machine}
    (meets : Meets settings bound start [] finish outcome)
    (final : ∀ result, (⟨finish result, [], later⟩ : Moment).next settings = none)
    (behind : Run.machine? outcome = some later) :
    ∃ last, Reaches settings start last ∧ last.frames = [] ∧ last.next settings = none ∧
      last.machine = later := by
  cases outcome with
  | ok result machine =>
      cases behind
      exact ⟨_, meets, rfl, final result, rfl⟩
  | error interrupt machine =>
      cases interrupt <;> cases behind <;> exact ⟨_, meets, rfl, rfl, rfl⟩

theorem Run.Leaves.machine? {α : Type} {scope : ScopeId} {action : Run α}
    (leaves : action.Leaves scope) {machine later : Machine} (positive : 0 < machine.arena.size)
    (behind : Run.machine? (action machine) = some later) :
    machine.arena.Rests scope later.arena := by
  have rests := leaves machine positive
  unfold Run.machine? at behind
  split at behind
  · cases behind
  · cases behind
    exact rests

namespace Work

variable {settings : Settings} {steps : Nat} {scope : ScopeId} {machine later : Machine}
  {work : Work}

theorem rests (reclaims : settings.reclaim = true) (positive : 0 < machine.arena.size)
    (behind : work.machine? settings steps scope machine = some later) :
    machine.arena.Rests scope later.arena := by
  have leaves := evaluator_leaves reclaims steps
  cases work with
  | expression value => exact (leaves.evaluate scope value).machine? positive behind
  | statement single => exact (leaves.execute scope single).machine? positive behind
  | statements all => exact (leaves.executeAll scope all).machine? positive behind

theorem reaches_end (behind : work.machine? settings steps scope machine = some later) :
    ∃ last, Reaches settings (work.begin scope machine) last ∧ last.frames = [] ∧
      last.next settings = none ∧ last.machine = later := by
  have agrees := evaluator_agrees settings steps
  cases work with
  | expression value =>
      exact (agrees.evaluate scope value [] machine).reaches_machine (fun _ => rfl) behind
  | statement single =>
      exact (agrees.execute scope single [] machine).reaches_machine (fun _ => rfl) behind
  | statements all =>
      exact (agrees.executeAll scope all [] machine).reaches_machine (fun _ => rfl) behind

/-- What the work captured is captured behind it. -/
theorem Captures.behind {id : ScopeId} (captures : work.Captures settings scope machine id)
    (behind : work.machine? settings steps scope machine = some later) :
    later.arena.Captures id := by
  obtain ⟨last, ends, _frames, ended, rfl⟩ := reaches_end behind
  obtain ⟨_new, moment, reached, captured⟩ := captures
  exact (reached.to_end ends ended).captures captured

/-- The arena is as long as before, or just long enough for the last scope that was captured. -/
theorem size_behind (reclaims : settings.reclaim = true) (positive : 0 < machine.arena.size)
    (behind : work.machine? settings steps scope machine = some later) :
    (∀ id, ¬ work.Captures settings scope machine id) ∧
        later.arena.size = machine.arena.size ∨
      ∃ last, work.Captures settings scope machine last ∧
        (∀ id, work.Captures settings scope machine id → id ≤ last) ∧
        later.arena.size = last + 1 := by
  have inside : ∀ id, work.Captures settings scope machine id → id < later.arena.size :=
    fun id captures => (captures.behind behind).lt_size
  rcases (rests reclaims positive behind).tight with same | ⟨grown, marked⟩
  · left
    refine ⟨?_, same⟩
    intro id captures
    have within := inside id captures
    rw [same] at within
    exact Nat.not_lt_of_le captures.1 within
  · right
    obtain ⟨last, reached, _frames, _ended, rfl⟩ := reaches_end behind
    refine ⟨last.machine.arena.size - 1, ⟨by omega, last, reached, marked⟩, ?_, by omega⟩
    intro id captures
    exact Nat.le_sub_one_of_lt (inside id captures)

end Work

/-! ### Between submissions -/

/-- There is only the global scope, or the last scope is captured. -/
def Arena.Tidy {α : Type} (arena : Arena α) : Prop :=
  arena.size = 1 ∨ arena.Captures (arena.size - 1)

namespace Arena.Tidy

variable {α : Type} {before after : Arena α}

theorem positive (tidy : before.Tidy) : 0 < before.size := by
  rcases tidy with single | captured
  · omega
  · exact Nat.zero_lt_of_lt captured.lt_size

theorem rests {scope : ScopeId} (tidy : before.Tidy) (rests : before.Rests scope after) :
    after.Tidy := by
  rcases rests.tight with same | ⟨_grown, last⟩
  · unfold Tidy
    rw [same]
    exact tidy.imp_right rests.keeps.captures
  · exact Or.inr last

end Arena.Tidy

theorem Submission.work_leaves {settings : Settings} (reclaims : settings.reclaim = true)
    (steps : Nat) (submission : Submission) :
    (submission.work settings steps).Leaves Arena.globalScope := by
  have leaves := evaluator_leaves reclaims steps
  cases submission with
  | program statements => exact leaves.executeAll Arena.globalScope statements
  | expression value =>
      refine (leaves.evaluate Arena.globalScope value).bind ?_
      intro result
      exact (Run.print_leaves result).bind fun _ => Run.flush_leaves

namespace Stage

variable {settings : Settings} {stage later : Stage}

/-- Between submissions the arena is tidy, and each of them started when it was. -/
def Tidy (settings : Settings) (stage : Stage) : Prop :=
  match stage.active with
  | none => stage.moment.machine.arena.Tidy
  | some submission =>
    ∃ machine : Machine, machine.arena.Tidy ∧
      Reaches settings (submission.begin machine) stage.moment

theorem close_tidy (reclaims : settings.reclaim = true) {submission : Submission}
    (active : stage.active = some submission) (tidy : stage.Tidy settings)
    (ended : stage.moment.next settings = none) (closed : stage.close submission = some later) :
    later.Tidy settings := by
  unfold Tidy at tidy
  rw [active] at tidy
  obtain ⟨machine, tidy, reached⟩ := tidy
  obtain ⟨steps, last, _enough⟩ :=
    (submission.reaches_end_iff settings machine stage.moment).mp ⟨reached, ended⟩
  have rests := submission.work_leaves reclaims steps machine tidy.positive
  have same : stage.moment.machine = Run.behind (submission.work settings steps machine) := by
    rw [last]
    cases submission.work settings steps machine <;> rfl
  rw [← same] at rests
  unfold close at closed
  split at closed
  · cases closed
    exact tidy.rests rests
  · cases closed

theorem next_tidy (reclaims : settings.reclaim = true) (tidy : stage.Tidy settings)
    (stepped : stage.next settings = some later) : later.Tidy settings := by
  unfold next at stepped
  split at stepped
  · cases stepped
  · next idle _pending =>
      unfold Tidy at tidy
      rw [idle] at tidy
      cases stepped
      exact ⟨stage.moment.machine, tidy, Reaches.refl _⟩
  · next submission active =>
      split at stepped
      · next moved =>
          unfold Tidy at tidy ⊢
          rw [active] at tidy
          obtain ⟨machine, tidy, reached⟩ := tidy
          cases stepped
          rw [active]
          exact ⟨machine, tidy, reached.trans (Reaches.step moved (Reaches.refl _))⟩
      · next ended => exact close_tidy reclaims active tidy ended stepped

end Stage

/-- A function is declared in a block, which captures the scope of the block. -/
def declareInBlock : Stmt :=
  .block [.function 0 ⟨.identifier, "f", .nil, 1⟩ [] []]

end Lox
