import Lox.Proofs.Run.Calls
import Lox.Proofs.Scope.Leaving
set_option autoImplicit false

/-! The count of calls is the number of calls in progress, at every moment of every session. It comes
back to where it was behind whatever is run, so after any failure the next submission has the whole
limit to itself; a function that calls itself without end shows that it can use it up. -/

namespace Lox

namespace Moment

variable {settings : Settings} {outer : Nat} {start moment later : Moment}

/-- The machine counts the calls of this run on top of those around it, which are within the
limit. -/
structure Counts (settings : Settings) (outer : Nat) (moment : Moment) : Prop where
  depth : moment.machine.callDepth = outer + moment.calls
  within : moment.machine.callDepth ≤ settings.maxCallDepth

theorem CallStep.counts (step : CallStep settings moment later)
    (counts : moment.Counts settings outer) : later.Counts settings outer := by
  obtain ⟨exact, within⟩ := counts
  cases step with
  | stays calls continues overflow =>
      have same := continues.depth
      constructor <;> omega
  | enters fits calls depth output control => constructor <;> omega
  | leaves calls depth output control => constructor <;> omega
  | overflows full calls machine control =>
      constructor
      · rw [machine, calls]
        exact exact
      · rw [machine]
        exact within

theorem Reaches.counts (counts : start.Counts settings outer)
    (reached : Reaches settings start later) : later.Counts settings outer := by
  obtain ⟨steps, arrived⟩ := reached
  exact afterSteps_keeps (fun _ _ counts stepped => (next_callStep stepped).counts counts) counts
    arrived

/-- The limit is met with exactly as many calls in progress as it allows. -/
theorem Counts.full (counts : moment.Counts settings outer)
    (stepped : moment.next settings = some later) {limit : Nat}
    (overflow : later.control = .interrupted (.callDepth limit))
    (arises : later.control ≠ moment.control) :
    limit = settings.maxCallDepth ∧ outer + moment.calls = settings.maxCallDepth := by
  obtain ⟨exact, within⟩ := counts
  have exceeds : later.control.isOverflow := by
    rw [overflow]
    trivial
  cases next_callStep stepped with
  | stays calls continues old => exact absurd (old exceeds) arises
  | enters fits calls depth output control => exact absurd exceeds control
  | leaves calls depth output control => exact absurd control arises
  | overflows full calls machine control =>
      rw [overflow] at control
      cases control
      exact ⟨rfl, by omega⟩

end Moment

open Moment

theorem Submission.begin_counts {settings : Settings} {machine : Machine}
    (within : machine.callDepth ≤ settings.maxCallDepth) (submission : Submission) :
    (submission.begin machine).Counts settings machine.callDepth := by
  cases submission <;> exact ⟨rfl, within⟩

theorem Work.begin_counts {settings : Settings} {machine : Machine}
    (within : machine.callDepth ≤ settings.maxCallDepth) (scope : ScopeId) (work : Work) :
    (work.begin scope machine).Counts settings machine.callDepth := by
  cases work <;> exact ⟨rfl, within⟩

theorem Work.depth_behind {settings : Settings} {machine later : Machine} {steps : Nat}
    {scope : ScopeId} {work : Work} (within : machine.callDepth ≤ settings.maxCallDepth)
    (behind : work.machine? settings steps scope machine = some later) :
    later.callDepth = machine.callDepth := by
  obtain ⟨last, reached, empty, _ended, rfl⟩ := reaches_end behind
  have counted := (Reaches.counts (work.begin_counts within scope) reached).depth
  rw [Moment.calls, empty] at counted
  exact counted

/-! ### Sessions -/

namespace Stage

variable {settings : Settings} {stage later : Stage}

/-- No call is in progress between submissions, nor was one when the submission that runs began. -/
def Settled (settings : Settings) (stage : Stage) : Prop :=
  match stage.active with
  | none => stage.moment.calls = 0 ∧ stage.moment.machine.callDepth = 0
  | some submission =>
    ∃ machine : Machine, machine.callDepth = 0 ∧
      Reaches settings (submission.begin machine) stage.moment

theorem Settled.counts (settled : stage.Settled settings) : stage.moment.Counts settings 0 := by
  unfold Settled at settled
  split at settled
  · obtain ⟨none, zero⟩ := settled
    exact ⟨by omega, by omega⟩
  · next submission _active =>
      obtain ⟨machine, zero, reached⟩ := settled
      have counts : (submission.begin machine).Counts settings machine.callDepth :=
        submission.begin_counts (by omega)
      rw [zero] at counts
      exact Reaches.counts counts reached

theorem close_settled {submission : Submission} (active : stage.active = some submission)
    (settled : stage.Settled settings) (ended : stage.moment.next settings = none)
    (closed : stage.close submission = some later) : later.Settled settings := by
  have exact := settled.counts.depth
  unfold Settled at settled
  rw [active] at settled
  obtain ⟨machine, _zero, reached⟩ := settled
  obtain ⟨steps, last, _enough⟩ :=
    (submission.reaches_end_iff settings machine stage.moment).mp ⟨reached, ended⟩
  have empty : stage.moment.calls = 0 := by
    rw [last]
    cases submission.work settings steps machine <;> rfl
  rw [empty] at exact
  unfold close at closed
  split at closed
  · cases closed
    exact ⟨rfl, exact⟩
  · cases closed

theorem next_settled (settled : stage.Settled settings) (stepped : stage.next settings = some later) :
    later.Settled settings := by
  unfold next at stepped
  split at stepped
  · cases stepped
  · next idle _pending =>
      unfold Settled at settled
      rw [idle] at settled
      cases stepped
      exact ⟨stage.moment.machine, settled.2, Reaches.refl _⟩
  · next submission active =>
      split at stepped
      · next moved =>
          unfold Settled at settled ⊢
          rw [active] at settled
          obtain ⟨machine, zero, reached⟩ := settled
          cases stepped
          rw [active]
          exact ⟨machine, zero, reached.trans (Reaches.step moved (Reaches.refl _))⟩
      · next ended => exact close_settled active settled ended stepped

theorem after_settled {submissions : List Submission} {output : Output} {length : Nat}
    (arrived : (start (.initial output) submissions).after settings length = some stage) :
    stage.Settled settings :=
  afterSteps_keeps (fun _ _ settled stepped => next_settled settled stepped)
    (show (start (.initial output) submissions).Settled settings from ⟨rfl, rfl⟩) arrived

end Stage

/-! ### A function that calls itself without end -/

namespace Arena

variable {α : Type} {arena : Arena α} {id : ScopeId} {scope : Scope α} {name : String} {value : α}

/-- A scope binds a name to a value itself. -/
def Binds (arena : Arena α) (id : ScopeId) (name : String) (value : α) : Prop :=
  ∃ scope, arena.scopes[id]? = some scope ∧ scope.bindings.get? name = some value

namespace Binds

theorem define (inside : id < arena.size) : (arena.define id name value).Binds id name value := by
  obtain ⟨scope, found⟩ := exists_of_lt_size inside
  refine ⟨{ scope with bindings := scope.bindings.insert name value }, ?_, ?_⟩
  · rw [scopes_define, if_pos rfl, found]
    rfl
  · rw [Bindings.get?_insert, if_pos rfl]

theorem push (binds : arena.Binds id name value) (enclosing : ScopeId) :
    (arena.push enclosing).2.Binds id name value := by
  obtain ⟨scope, found, bound⟩ := binds
  have below : id ≠ arena.size := Nat.ne_of_lt (lt_size_of_getElem? found)
  exact ⟨scope, by rw [scopes_push, if_neg below, found], bound⟩

theorem ownerWithin (binds : arena.Binds id name value) (reach : Nat) :
    arena.ownerWithin name (reach + 1) id = some id := by
  obtain ⟨scope, found, bound⟩ := binds
  have known : scope.bindings.binds name = true := by
    rw [Bindings.binds, bound]
    rfl
  simp only [Arena.ownerWithin, found, known, if_true]

theorem get? (binds : arena.Binds id name value) : arena.get? id name = some value := by
  have owned : arena.owner? id name = some id := binds.ownerWithin id
  obtain ⟨scope, found, bound⟩ := binds
  unfold Arena.get?
  rw [owned, Option.bind_eq_bind, Option.bind_some, found]
  exact bound

/-- From a scope that has just been opened a name is looked up outside it. -/
theorem get?_push (binds : arena.Binds id name value) :
    (arena.push id).2.get? arena.size name = some value := by
  have outer := binds.push id
  have owned : (arena.push id).2.owner? arena.size name = some id := by
    obtain ⟨scope, found, _bound⟩ := binds
    obtain ⟨below, grown⟩ := Nat.exists_eq_add_of_lt (lt_size_of_getElem? found)
    unfold Arena.owner? Arena.ownerWithin
    rw [scopes_push, if_pos rfl]
    change (arena.push id).2.ownerWithin name arena.size id = some id
    rw [grown]
    exact outer.ownerWithin _
  obtain ⟨scope, found, bound⟩ := outer
  unfold Arena.get?
  rw [owned, Option.bind_eq_bind, Option.bind_some, found]
  exact bound

end Binds

end Arena

namespace Runaway

def name : Token := ⟨.identifier, "f", .nil, 1⟩

def paren : Token := ⟨.rightParen, ")", .nil, 1⟩

def call : Expr := .call (.variable name) paren []

def declaration : FunctionDeclaration := ⟨0, name, [], [.expression call]⟩

def program : List Stmt := [.function 0 name [] [.expression call], .expression call]

def closure : Value := .callable (.closure declaration Arena.globalScope)

variable {settings : Settings}

/-- The call meets the limit or enters the function. -/
theorem call_met {scope : ScopeId} (frames : List Frame) {machine : Machine}
    (here : machine.arena.get? scope name.lexeme = some closure) :
    Reaches settings ⟨.evaluate scope call, frames, machine⟩
      (if settings.maxCallDepth ≤ machine.callDepth then
        ⟨.interrupted (.callDepth settings.maxCallDepth), frames, machine⟩
      else
        invokeNext settings [] (.call :: frames) machine.enterCall
          (.closure declaration Arena.globalScope)) := by
  have found : next settings
      ⟨.evaluate scope (.variable name), .callee scope paren [] :: frames, machine⟩
      = some ⟨.value closure, .callee scope paren [] :: frames, machine⟩ := by
    change some (giving (Run.lookup scope name) _ machine) = _
    unfold giving perform Run.lookup
    rw [here]
  exact Reaches.step rfl (Reaches.step found (Reaches.step rfl (Reaches.refl _)))

/-- The induction is on how many more calls the limit allows. Each of them opens a scope inside the
global one and makes the next call there. -/
theorem call_descends (more : Nat) (scope : ScopeId) (frames : List Frame) (machine : Machine)
    (known : machine.arena.Binds Arena.globalScope name.lexeme closure)
    (here : machine.arena.get? scope name.lexeme = some closure)
    (exact : machine.callDepth = Frame.calls frames)
    (left : Frame.calls frames + more = settings.maxCallDepth) :
    ∃ deepest, Reaches settings ⟨.evaluate scope call, frames, machine⟩ deepest ∧
      deepest.control = .interrupted (.callDepth settings.maxCallDepth) ∧
      deepest.calls = settings.maxCallDepth := by
  have met := @call_met settings scope frames machine here
  induction more generalizing scope frames machine with
  | zero =>
      have full : settings.maxCallDepth ≤ machine.callDepth := by omega
      rw [if_pos full] at met
      exact ⟨_, met, rfl, left⟩
  | succ more ih =>
      have free : ¬ settings.maxCallDepth ≤ machine.callDepth := by omega
      rw [if_neg free] at met
      let inner := machine.arena.size
      let entered : Machine :=
        { machine.enterCall with arena := (machine.arena.push Arena.globalScope).2 }
      let waiting : List Frame :=
        .discard :: .sequence inner [] :: .body inner :: .result :: .call :: frames
      have again : Reaches settings ⟨.evaluate scope call, frames, machine⟩
          ⟨.evaluate inner call, waiting, entered⟩ :=
        met.trans (Reaches.step rfl (Reaches.step rfl (Reaches.step rfl (Reaches.refl _))))
      have hereToo : entered.arena.get? inner name.lexeme = some closure := known.get?_push
      have counted : entered.callDepth = Frame.calls waiting := congrArg (· + 1) exact
      have leftThen : Frame.calls waiting + more = settings.maxCallDepth := by
        change Frame.calls frames + 1 + more = settings.maxCallDepth
        omega
      obtain ⟨deepest, reached, overflow, calls⟩ :=
        ih inner waiting entered (known.push _) hereToo counted leftThen
          (call_met waiting hereToo)
      exact ⟨deepest, again.trans reached, overflow, calls⟩

/-- On a machine with no call in progress the program uses up the whole limit. -/
theorem program_descends {machine : Machine} (inside : Arena.globalScope < machine.arena.size)
    (idle : machine.callDepth = 0) :
    ∃ deepest, Reaches settings ((Submission.program program).begin machine) deepest ∧
      deepest.control = .interrupted (.callDepth settings.maxCallDepth) ∧
      deepest.calls = settings.maxCallDepth := by
  let declared : Machine :=
    { machine with
      arena := (machine.arena.capture Arena.globalScope).define Arena.globalScope name.lexeme
        closure }
  have toCall : Reaches settings ((Submission.program program).begin machine)
      ⟨.evaluate Arena.globalScope call, [.discard, .sequence Arena.globalScope []], declared⟩ :=
    Reaches.step rfl (Reaches.step rfl (Reaches.step rfl (Reaches.step rfl (Reaches.refl _))))
  have known : declared.arena.Binds Arena.globalScope name.lexeme closure :=
    Arena.Binds.define (by rw [Arena.size_capture]; exact inside)
  obtain ⟨deepest, reached, overflow, calls⟩ :=
    call_descends settings.maxCallDepth Arena.globalScope
      [.discard, .sequence Arena.globalScope []] declared known known.get? idle (Nat.zero_add _)
  exact ⟨deepest, toCall.trans reached, overflow, calls⟩

end Runaway

end Lox
