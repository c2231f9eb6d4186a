import Lox.Proofs.Run.Moment
import Lox.Proofs.Scope.Rooted
set_option autoImplicit false

/-! No scope id dangles. At every moment of a run the frames work in scopes that are there, those
above in later scopes than those below, and every closure, bound or on its way, has captured the
scope that it closes over. One step keeps all of this, so a run does. -/

namespace Lox

/-- A closure has captured its scope. -/
def Value.Anchored (arena : Arena Value) : Value → Prop
  | .callable (.closure _ scope) => arena.Captures scope
  | _ => True

namespace Interrupt

def values : Interrupt → List Value
  | returning value => [value]
  | _ => []

end Interrupt

namespace Control

def scope? : Control → Option ScopeId
  | evaluate scope _ => some scope
  | execute scope _ => some scope
  | bind scope _ _ => some scope
  | _ => none

def values : Control → List Value
  | bind _ _ arguments => arguments
  | value result => [result]
  | interrupted interrupt => interrupt.values
  | _ => []

end Control

namespace Frame

/-- The scope in which the frame goes on, or which it leaves. -/
def scope? : Frame → Option ScopeId
  | assign scope _ => some scope
  | binaryLeft scope _ _ => some scope
  | logical scope _ _ => some scope
  | conditional scope _ _ _ => some scope
  | callee scope _ _ => some scope
  | argument scope _ _ _ _ => some scope
  | body scope => some scope
  | «variable» scope _ => some scope
  | sequence scope _ => some scope
  | branch scope _ _ => some scope
  | condition scope _ _ => some scope
  | round scope _ _ => some scope
  | _ => none

def values : Frame → List Value
  | binaryRight _ left => [left]
  | argument _ _ function given _ => .callable function :: given
  | _ => []

end Frame

/-- All frames above the one that leaves a scope work in that scope, and those below it in earlier
ones, down to the global scope. -/
def Stands : ScopeId → List Frame → Prop
  | scope, [] => scope = Arena.globalScope
  | scope, .body inner :: frames => scope = inner ∧ ∃ outer, outer < inner ∧ Stands outer frames
  | scope, frame :: frames => (∀ id, frame.scope? = some id → id = scope) ∧ Stands scope frames

structure Machine.Grounded (machine : Machine) : Prop where
  rooted : machine.arena.Rooted
  anchored : ∀ value, machine.arena.Holds value → value.Anchored machine.arena

/-- Frames over a machine whose innermost work is in a scope. -/
structure Ground (scope : ScopeId) (frames : List Frame) (machine : Machine) : Prop where
  grounded : machine.Grounded
  inside : scope < machine.arena.size
  stands : Stands scope frames
  values : ∀ frame ∈ frames, ∀ value ∈ frame.values, value.Anchored machine.arena

structure Moment.GroundedIn (scope : ScopeId) (moment : Moment) : Prop where
  ground : Ground scope moment.frames moment.machine
  here : ∀ id, moment.control.scope? = some id → id = scope
  values : ∀ value ∈ moment.control.values, value.Anchored moment.machine.arena

def Moment.Grounded (moment : Moment) : Prop :=
  ∃ scope, moment.GroundedIn scope

/-- A later machine: what was there is still there, and what was captured still is. -/
structure Machine.Leads (before after : Machine) : Prop where
  grounded : after.Grounded
  grows : before.arena.size ≤ after.arena.size
  captures : ∀ id, before.arena.Captures id → after.arena.Captures id

theorem Value.Anchored.mono {before after : Arena Value} {value : Value}
    (captures : ∀ id, before.Captures id → after.Captures id) (anchored : value.Anchored before) :
    value.Anchored after := by
  cases value with
  | literal => trivial
  | callable function =>
      cases function with
      | clock => trivial
      | closure declaration scope => exact captures scope anchored

namespace Machine

theorem Grounded.leads {machine : Machine} (grounded : machine.Grounded) :
    machine.Leads machine :=
  ⟨grounded, Nat.le_refl _, fun _id captured => captured⟩

theorem Grounded.of_arena {machine other : Machine} (grounded : machine.Grounded)
    (same : other.arena = machine.arena) : other.Grounded := by
  constructor
  · rw [same]
    exact grounded.rooted
  · rw [same]
    exact grounded.anchored

theorem Grounded.leads_of_arena {machine other : Machine} (grounded : machine.Grounded)
    (same : other.arena = machine.arena) : machine.Leads other := by
  refine ⟨grounded.of_arena same, Nat.le_of_eq (by rw [same]), ?_⟩
  · rw [same]
    exact fun _id captured => captured

theorem Grounded.define {machine : Machine} (grounded : machine.Grounded) (scope : ScopeId)
    (name : String) {value : Value} (anchored : value.Anchored machine.arena) :
    machine.Leads { machine with arena := machine.arena.define scope name value } := by
  have captures : ∀ id, machine.arena.Captures id →
      (machine.arena.define scope name value).Captures id :=
    fun _id captured => captured.define scope name value
  refine ⟨⟨grounded.rooted.define scope name value, ?_⟩, ?_, captures⟩
  · intro meaning holds
    rcases Arena.holds_of_define holds with same | kept
    · rw [same]
      exact anchored.mono captures
    · exact (grounded.anchored meaning kept).mono captures
  · exact Nat.le_of_eq (Arena.size_define _ _ _ _).symm

theorem Grounded.assign {machine : Machine} (grounded : machine.Grounded) (scope : ScopeId)
    (name : String) {value : Value} (anchored : value.Anchored machine.arena) :
    machine.Leads { machine with arena := (machine.arena.assign scope name value).2 } := by
  have captures : ∀ id, machine.arena.Captures id →
      (machine.arena.assign scope name value).2.Captures id :=
    fun _id captured => captured.assign scope name value
  refine ⟨⟨grounded.rooted.assign scope name value, ?_⟩, ?_, captures⟩
  · intro meaning holds
    rcases Arena.holds_of_assign holds with same | kept
    · rw [same]
      exact anchored.mono captures
    · exact (grounded.anchored meaning kept).mono captures
  · exact Nat.le_of_eq (Arena.size_assign _ _ _ _).symm

theorem Grounded.capture {machine : Machine} (grounded : machine.Grounded) (scope : ScopeId) :
    machine.Leads { machine with arena := machine.arena.capture scope } := by
  have captures : ∀ id, machine.arena.Captures id → (machine.arena.capture scope).Captures id :=
    fun _id captured => captured.capture scope
  refine ⟨⟨grounded.rooted.capture scope, ?_⟩, ?_, captures⟩
  · intro meaning holds
    exact (grounded.anchored meaning (Arena.holds_of_capture holds)).mono captures
  · exact Nat.le_of_eq (Arena.size_capture _ _).symm

theorem Grounded.push {machine : Machine} (grounded : machine.Grounded) {enclosing : ScopeId}
    (inside : enclosing < machine.arena.size) :
    machine.Leads { machine with arena := (machine.arena.push enclosing).2 } := by
  have captures : ∀ id, machine.arena.Captures id →
      (machine.arena.push enclosing).2.Captures id :=
    fun _id captured => captured.push enclosing
  refine ⟨⟨grounded.rooted.push inside, ?_⟩, ?_, captures⟩
  · intro meaning holds
    exact (grounded.anchored meaning (Arena.holds_of_push holds)).mono captures
  · rw [Arena.size_push]
    exact Nat.le_succ _

theorem Grounded.leave {machine : Machine} (grounded : machine.Grounded) (settings : Settings)
    (scope : ScopeId) : (machine.leave settings scope).Grounded := by
  unfold Machine.leave
  split
  · refine ⟨grounded.rooted.release scope, ?_⟩
    intro meaning holds
    exact (grounded.anchored meaning (Arena.holds_of_release holds)).mono
      fun _id captured => captured.release scope
  · exact grounded

theorem captures_leave {machine : Machine} (settings : Settings) (scope : ScopeId)
    {id : ScopeId} (captured : machine.arena.Captures id) :
    (machine.leave settings scope).arena.Captures id := by
  unfold Machine.leave
  split
  · exact captured.release scope
  · exact captured

theorem lt_size_leave {machine : Machine} (settings : Settings) {scope outer : ScopeId}
    (inside : scope < machine.arena.size) (before : outer < scope) :
    outer < (machine.leave settings scope).arena.size := by
  unfold Machine.leave
  split
  · obtain ⟨found, here⟩ := Arena.exists_of_lt_size (Nat.lt_trans before inside)
    have still : (machine.arena.release scope).scopes[outer]? = some found := by
      rw [Arena.scopes_release, if_neg]
      · exact here
      · intro both
        exact Nat.ne_of_lt before both.2
    exact Arena.lt_size_of_getElem? still
  · exact Nat.lt_trans before inside

end Machine

namespace Ground

variable {scope outer : ScopeId} {frame : Frame} {frames : List Frame}
variable {machine later : Machine}

theorem leads (ground : Ground scope frames machine) (leads : machine.Leads later) :
    Ground scope frames later where
  grounded := leads.grounded
  inside := Nat.lt_of_lt_of_le ground.inside leads.grows
  stands := ground.stands
  values := fun frame member value held =>
    (ground.values frame member value held).mono leads.captures

/-- A frame that works in the scope at hand, and holds anchored values, can be put on top. -/
theorem cons (ground : Ground scope frames machine) (inner : ∀ id, frame ≠ .body id)
    (here : ∀ id, frame.scope? = some id → id = scope)
    (anchored : ∀ value ∈ frame.values, value.Anchored machine.arena) :
    Ground scope (frame :: frames) machine where
  grounded := ground.grounded
  inside := ground.inside
  stands := by
    cases frame
    case body id => exact absurd rfl (inner id)
    all_goals exact ⟨here, ground.stands⟩
  values := by
    intro other member
    rcases List.mem_cons.mp member with same | below
    · rw [same]
      exact anchored
    · exact ground.values other below

theorem tail (ground : Ground scope (frame :: frames) machine) (inner : ∀ id, frame ≠ .body id) :
    Ground scope frames machine where
  grounded := ground.grounded
  inside := ground.inside
  stands := by
    have stands := ground.stands
    cases frame
    case body id => exact absurd rfl (inner id)
    all_goals exact stands.2
  values := fun other member => ground.values other (List.mem_cons_of_mem _ member)

/-- The frames of a body that is about to run in a scope opened for it. -/
theorem body (ground : Ground scope frames machine) (leads : machine.Leads later)
    (opened : later.arena.size = machine.arena.size + 1) (statements : List Stmt) :
    Ground machine.arena.size
      (.sequence machine.arena.size statements :: .body machine.arena.size :: frames) later where
  grounded := leads.grounded
  inside := by
    rw [opened]
    exact Nat.lt_succ_self _
  stands := by
    refine ⟨fun id same => ?_, rfl, scope, ground.inside, ground.stands⟩
    cases same
    rfl
  values := by
    intro frame member
    rcases List.mem_cons.mp member with same | below
    · rw [same]
      exact fun value held => nomatch held
    · rcases List.mem_cons.mp below with same | below
      · rw [same]
        exact fun value held => nomatch held
      · exact (ground.leads leads).values frame below

theorem leave (ground : Ground scope (.body outer :: frames) machine) (settings : Settings) :
    ∃ below, Ground below frames (machine.leave settings outer) := by
  obtain ⟨rfl, below, before, stands⟩ := ground.stands
  refine ⟨below, ground.grounded.leave settings scope,
    Machine.lt_size_leave settings ground.inside before, stands, ?_⟩
  intro frame member value held
  exact (ground.values frame (List.mem_cons_of_mem _ member) value held).mono
    fun _id captured => Machine.captures_leave settings scope captured

end Ground

/-! ### Actions -/

/-- An action leads on from a machine, with a good result or an anchored interrupt. -/
def Run.Keeps {α : Type} (action : Run α) (machine : Machine) (good : α → Machine → Prop) :
    Prop :=
  match action machine with
  | .ok result later => machine.Leads later ∧ good result later
  | .error interrupt later =>
    machine.Leads later ∧ ∀ value ∈ interrupt.values, value.Anchored later.arena

namespace Run

variable {machine : Machine}

theorem lookup_keeps (grounded : machine.Grounded) (scope : ScopeId) (name : Token) :
    (lookup scope name).Keeps machine fun value later => value.Anchored later.arena := by
  unfold Keeps lookup
  cases found : machine.arena.get? scope name.lexeme with
  | none => exact ⟨grounded.leads, fun value held => nomatch held⟩
  | some value =>
      exact ⟨grounded.leads, grounded.anchored value (Arena.holds_of_get? found)⟩

theorem assign_keeps (grounded : machine.Grounded) (scope : ScopeId) (name : Token)
    {value : Value} (anchored : value.Anchored machine.arena) :
    (assign scope name value).Keeps machine fun _ _ => True := by
  have leads := grounded.assign scope name.lexeme anchored
  unfold Keeps assign
  cases assigned : machine.arena.assign scope name.lexeme value with
  | mk known arena =>
      rw [assigned] at leads
      cases known with
      | true => exact ⟨leads, trivial⟩
      | false => exact ⟨leads, fun value held => nomatch held⟩

theorem define_keeps (grounded : machine.Grounded) (scope : ScopeId) (name : Token)
    {value : Value} (anchored : value.Anchored machine.arena) :
    (define scope name value).Keeps machine fun _ _ => True :=
  ⟨grounded.define scope name.lexeme anchored, trivial⟩

theorem push_keeps (grounded : machine.Grounded) {enclosing : ScopeId}
    (inside : enclosing < machine.arena.size) :
    (push enclosing).Keeps machine fun scope later =>
      scope = machine.arena.size ∧ later.arena.size = machine.arena.size + 1 :=
  ⟨grounded.push inside, rfl, Arena.size_push _ _⟩

/-- A declaration captures the scope that its function closes over. -/
theorem declare_keeps (grounded : machine.Grounded) {scope : ScopeId}
    (inside : scope < machine.arena.size) (name : Token) (declaration : FunctionDeclaration) :
    (do
      capture scope
      define scope name (.callable (.closure declaration scope)) : Run Unit).Keeps machine
        fun _ _ => True := by
  have captured := grounded.capture scope
  have anchored : (Value.callable (.closure declaration scope)).Anchored
      (machine.arena.capture scope) := Arena.captures_capture inside
  have defined := captured.grounded.define scope name.lexeme anchored
  exact ⟨⟨defined.grounded, Nat.le_trans captured.grows defined.grows,
    fun id kept => defined.captures id (captured.captures id kept)⟩, trivial⟩

theorem print_keeps (grounded : machine.Grounded) (value : Value) :
    (print value).Keeps machine fun _ _ => True := by
  unfold Keeps print
  cases machine.output.write (value.text ++ "\n").toUTF8 with
  | mk output error =>
      cases error with
      | none => exact ⟨grounded.leads_of_arena rfl, trivial⟩
      | some error => exact ⟨grounded.leads_of_arena rfl, fun value held => nomatch held⟩

theorem flush_keeps (grounded : machine.Grounded) : flush.Keeps machine fun _ _ => True := by
  unfold Keeps flush
  cases machine.output.flushError? with
  | none => exact ⟨grounded.leads, trivial⟩
  | some error => exact ⟨grounded.leads, fun value held => nomatch held⟩

theorem fail_keeps {α : Type} (grounded : machine.Grounded) (line : Nat) (error : RuntimeError)
    (good : α → Machine → Prop) : (fail line error : Run α).Keeps machine good :=
  ⟨grounded.leads, fun _value held => nomatch held⟩

theorem stuck_keeps {α : Type} (grounded : machine.Grounded) (good : α → Machine → Prop) :
    (throw .stuck : Run α).Keeps machine good :=
  ⟨grounded.leads, fun _value held => nomatch held⟩

end Run

theorem UnaryOperation.apply_anchored {operation : UnaryOperation} {operand value : Value}
    (applied : operation.apply operand = .ok value) (arena : Arena Value) :
    value.Anchored arena := by
  obtain ⟨literal, rfl⟩ := apply_literal applied
  trivial

theorem BinaryOperation.apply_anchored {operation : BinaryOperation} {left right value : Value}
    (applied : operation.apply left right = .ok value) (arena : Arena Value) :
    value.Anchored arena := by
  obtain ⟨literal, rfl⟩ := apply_literal applied
  trivial

namespace Run

variable {machine : Machine}

theorem ofOperation_keeps (grounded : machine.Grounded) (line : Nat)
    {outcome : Except RuntimeError Value}
    (anchored : ∀ value, outcome = .ok value → value.Anchored machine.arena) :
    (ofOperation line outcome).Keeps machine fun value later => value.Anchored later.arena := by
  cases outcome with
  | ok value => exact ⟨grounded.leads, anchored value rfl⟩
  | error error => exact fail_keeps grounded line error _

theorem applyUnary_keeps (grounded : machine.Grounded) (operator : Token) (operand : Value) :
    (Evaluator.applyUnary operator operand).Keeps machine
      fun value later => value.Anchored later.arena := by
  unfold Evaluator.applyUnary
  split
  · exact stuck_keeps grounded _
  · exact ofOperation_keeps grounded _
      fun _value applied => UnaryOperation.apply_anchored applied _

theorem applyBinary_keeps (grounded : machine.Grounded) (operator : Token)
    (left right : Value) :
    (Evaluator.applyBinary operator left right).Keeps machine
      fun value later => value.Anchored later.arena := by
  unfold Evaluator.applyBinary
  split
  · exact stuck_keeps grounded _
  · exact ofOperation_keeps grounded _
      fun _value applied => BinaryOperation.apply_anchored applied _

end Run

/-! ### Steps -/

namespace Moment

variable {scope : ScopeId} {frames : List Frame} {machine : Machine}

theorem perform_grounded {α : Type} {action : Run α} {good : α → Machine → Prop}
    {proceed : α → Machine → Moment} (ground : Ground scope frames machine)
    (keeps : action.Keeps machine good)
    (goes : ∀ result later, machine.Leads later → good result later →
      (proceed result later).Grounded) :
    (perform action frames machine proceed).Grounded := by
  unfold Run.Keeps at keeps
  unfold perform
  cases outcome : action machine with
  | ok result later =>
      rw [outcome] at keeps
      exact goes result later keeps.1 keeps.2
  | error interrupt later =>
      rw [outcome] at keeps
      exact ⟨scope, ground.leads keeps.1, (fun id nothing => nomatch nothing), keeps.2⟩

theorem giving_grounded {action : Run Value} (ground : Ground scope frames machine)
    (keeps : action.Keeps machine fun value later => value.Anchored later.arena) :
    (giving action frames machine).Grounded := by
  apply perform_grounded ground keeps
  intro value later leads anchored
  refine ⟨scope, ground.leads leads, (fun id nothing => nomatch nothing), ?_⟩
  intro other held
  rw [List.mem_singleton.mp held]
  exact anchored

theorem completing_grounded {action : Run Unit} (ground : Ground scope frames machine)
    (keeps : action.Keeps machine fun _ _ => True) :
    (completing action frames machine).Grounded := by
  apply perform_grounded ground keeps
  intro done later leads _good
  exact ⟨scope, ground.leads leads, (fun id nothing => nomatch nothing), fun value held => nomatch held⟩

theorem evaluate_grounded (ground : Ground scope frames machine) (expression : Expr) :
    (⟨.evaluate scope expression, frames, machine⟩ : Moment).Grounded :=
  ⟨scope, ground, fun _id same => (Option.some.inj same).symm, fun _value held => nomatch held⟩

theorem execute_grounded (ground : Ground scope frames machine) (statement : Stmt) :
    (⟨.execute scope statement, frames, machine⟩ : Moment).Grounded :=
  ⟨scope, ground, fun _id same => (Option.some.inj same).symm, fun _value held => nomatch held⟩

theorem value_grounded (ground : Ground scope frames machine) {value : Value}
    (anchored : value.Anchored machine.arena) :
    (⟨.value value, frames, machine⟩ : Moment).Grounded := by
  refine ⟨scope, ground, (fun id nothing => nomatch nothing), ?_⟩
  intro other held
  rw [List.mem_singleton.mp held]
  exact anchored

theorem done_grounded (ground : Ground scope frames machine) :
    (⟨.done, frames, machine⟩ : Moment).Grounded :=
  ⟨scope, ground, (fun _id nothing => nomatch nothing), fun _value held => nomatch held⟩

theorem interrupted_grounded (ground : Ground scope frames machine) {interrupt : Interrupt}
    (anchored : ∀ value ∈ interrupt.values, value.Anchored machine.arena) :
    (⟨.interrupted interrupt, frames, machine⟩ : Moment).Grounded :=
  ⟨scope, ground, (fun _id nothing => nomatch nothing), anchored⟩

end Moment

end Lox
