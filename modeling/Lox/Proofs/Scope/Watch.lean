import Lox.Proofs.Run.Course
import Lox.Proofs.Scope.Safety
set_option autoImplicit false

/-! Sessions under watch. Places in the arena are used again after their scopes were taken away; a
watch numbers the scopes in the order in which they are opened, and so tells one scope from a later
one in the same place. A watched session is grounded at every stage, and no work in progress ever
finds another scope in the place of its own. -/

namespace Lox

namespace Moment

/-- The scopes in which work in progress goes on. A frame that names no scope goes on in the scope
of a frame below it, and the session as a whole in the global one. -/
def active (moment : Moment) : List ScopeId :=
  Arena.globalScope ::
    (moment.control.scope?.toList ++ moment.frames.filterMap Frame.scope?)

/-- A value that is bound in some scope, or held or brought by work in progress. -/
def Has (moment : Moment) (value : Value) : Prop :=
  moment.machine.arena.Holds value ∨ value ∈ moment.control.values ∨
    ∃ frame ∈ moment.frames, value ∈ frame.values

/-- Nothing leads out of the arena. -/
structure Sound (moment : Moment) : Prop where
  root : ∃ scope, moment.machine.arena.scopes[Arena.globalScope]? = some scope ∧
    scope.enclosing = none
  inward : ∀ id scope, moment.machine.arena.scopes[id]? = some scope →
    id ≠ Arena.globalScope → ∃ outer, scope.enclosing = some outer ∧ outer < id
  active : ∀ id ∈ moment.active, ∀ far, moment.machine.arena.Outward id far →
    far < moment.machine.arena.size
  closures : ∀ declaration id, moment.Has (.callable (.closure declaration id)) →
    moment.machine.arena.Captures id ∧
      ∀ far, moment.machine.arena.Outward id far → far < moment.machine.arena.size

end Moment

/-- A stage and the numbers of the scopes in its arena. -/
structure Watched where
  stage : Stage
  serials : List Nat
  /-- How many scopes were opened so far. -/
  opened : Nat

namespace Watched

def size (watched : Watched) : Nat :=
  watched.stage.moment.machine.arena.size

def start (machine : Machine) (submissions : List Submission) : Watched where
  stage := .start machine submissions
  serials := List.range machine.arena.size
  opened := machine.arena.size

/-- Scopes that went lose their numbers, and scopes that came get new ones. -/
def observe (watched : Watched) (stage : Stage) : Watched where
  stage
  serials :=
    watched.serials.take stage.moment.machine.arena.size
      ++ List.range' watched.opened (stage.moment.machine.arena.size - watched.size)
  opened := watched.opened + (stage.moment.machine.arena.size - watched.size)

def next (settings : Settings) (watched : Watched) : Option Watched :=
  (watched.stage.next settings).map watched.observe

def after (settings : Settings) (steps : Nat) (watched : Watched) : Option Watched :=
  afterSteps (next settings) steps watched

end Watched

/-! ### Stages are grounded -/

theorem Stands.le {scope : ScopeId} {frames : List Frame} (stands : Stands scope frames) :
    ∀ frame ∈ frames, ∀ id, frame.scope? = some id → id ≤ scope := by
  induction frames generalizing scope with
  | nil => exact fun frame member => nomatch member
  | cons first frames ih =>
      intro frame member id works
      cases first
      case body inner =>
        obtain ⟨rfl, outer, before, below⟩ := stands
        rcases List.mem_cons.mp member with same | member
        · rw [same] at works
          cases works
          exact Nat.le_refl scope
        · exact Nat.le_trans (ih below frame member id works) (Nat.le_of_lt before)
      all_goals
        obtain ⟨here, below⟩ := stands
        rcases List.mem_cons.mp member with same | member
        · rw [same] at works
          exact Nat.le_of_eq (here id works)
        · exact ih below frame member id works

namespace Moment

variable {moment : Moment}

theorem mem_active {id : ScopeId} :
    id ∈ moment.active ↔
      id = Arena.globalScope ∨ moment.control.scope? = some id ∨
        ∃ frame ∈ moment.frames, frame.scope? = some id := by
  unfold active
  rw [List.mem_cons, List.mem_append, Option.mem_toList, List.mem_filterMap]

theorem Grounded.active_lt (grounded : moment.Grounded) {id : ScopeId}
    (works : id ∈ moment.active) : id < moment.machine.arena.size := by
  obtain ⟨scope, ground, here, _values⟩ := grounded
  have below : id ≤ scope := by
    rcases mem_active.mp works with rfl | control | ⟨frame, member, works⟩
    · exact Nat.zero_le scope
    · exact Nat.le_of_eq (here id control)
    · exact ground.stands.le frame member id works
  exact Nat.lt_of_le_of_lt below ground.inside

theorem Grounded.anchored (grounded : moment.Grounded) {value : Value} (has : moment.Has value) :
    value.Anchored moment.machine.arena := by
  obtain ⟨scope, ground, _here, values⟩ := grounded
  rcases has with bound | control | ⟨frame, member, held⟩
  · exact ground.grounded.anchored value bound
  · exact values value control
  · exact ground.values frame member value held

theorem Grounded.sound (grounded : moment.Grounded) : moment.Sound := by
  have rooted : moment.machine.arena.Rooted := by
    obtain ⟨scope, ground, _here, _values⟩ := grounded
    exact ground.grounded.rooted
  refine ⟨rooted.root, rooted.inward, ?_, ?_⟩
  · intro id works far outward
    exact Nat.lt_of_le_of_lt (rooted.outward_le outward) (grounded.active_lt works)
  · intro declaration id has
    have captured : moment.machine.arena.Captures id := grounded.anchored has
    refine ⟨captured, ?_⟩
    intro far outward
    exact Nat.lt_of_le_of_lt (rooted.outward_le outward) captured.lt_size

end Moment

theorem Machine.initial_grounded (output : Output) : (Machine.initial output).Grounded := by
  refine ⟨Arena.rooted_initial.define _ _ _, ?_⟩
  intro value holds
  rcases Arena.holds_of_define holds with clock | ⟨id, scope, name, found, member⟩
  · rw [clock]
    trivial
  · have atRoot : id < 1 := Arena.lt_size_of_getElem? found
    rw [Nat.lt_one_iff.mp atRoot] at found
    cases found
    cases member

theorem Machine.Grounded.ground {machine : Machine} (grounded : machine.Grounded) :
    Ground Arena.globalScope [] machine where
  grounded
  inside := grounded.rooted.size_pos
  stands := rfl
  values := fun _frame member => nomatch member

theorem Submission.begin_grounded {machine : Machine} (grounded : machine.Grounded)
    (submission : Submission) : (submission.begin machine).Grounded := by
  have ground := grounded.ground
  cases submission with
  | program statements =>
      exact Moment.done_grounded
        (ground.waiting (.sequence _ statements) (fun _ same => nomatch same) rfl rfl)
  | expression value =>
      have flushing := ground.waiting .flush (fun _ same => nomatch same) rfl rfl
      have printing := flushing.waiting .print (fun _ same => nomatch same) rfl rfl
      exact Moment.evaluate_grounded printing value

namespace Stage

theorem close_grounded {stage later : Stage} {submission : Submission}
    (grounded : stage.moment.Grounded) (closed : stage.close submission = some later) :
    later.moment.Grounded := by
  unfold close at closed
  obtain ⟨scope, ground, _here, _values⟩ := grounded
  split at closed
  · cases closed
    exact Moment.done_grounded ground.grounded.ground
  · cases closed

theorem next_grounded {settings : Settings} {stage later : Stage}
    (grounded : stage.moment.Grounded) (stepped : stage.next settings = some later) :
    later.moment.Grounded := by
  unfold next at stepped
  split at stepped
  · cases stepped
  · cases stepped
    obtain ⟨scope, ground, _here, _values⟩ := grounded
    exact Submission.begin_grounded ground.grounded _
  · split at stepped
    · next moved =>
        cases stepped
        exact grounded.next moved
    · exact close_grounded grounded stepped

end Stage

/-! ### What the watch sees -/

namespace Watched

variable {settings : Settings} {watched later : Watched}

/-- There is a number for every scope, and only for those. -/
structure Good (watched : Watched) : Prop where
  grounded : watched.stage.moment.Grounded
  numbered : watched.serials.length = watched.size

theorem good_start (output : Output) (submissions : List Submission) :
    (start (.initial output) submissions).Good where
  grounded := Moment.done_grounded (Machine.initial_grounded output).ground
  numbered := List.length_range

theorem observe_of_le {stage : Stage}
    (fewer : stage.moment.machine.arena.size ≤ watched.size) :
    watched.observe stage
      = ⟨stage, watched.serials.take stage.moment.machine.arena.size, watched.opened⟩ := by
  unfold observe
  rw [Nat.sub_eq_zero_of_le fewer, List.range'_zero, List.append_nil, Nat.add_zero]

theorem observe_of_succ (numbered : watched.serials.length = watched.size) {stage : Stage}
    (more : stage.moment.machine.arena.size = watched.size + 1) :
    watched.observe stage
      = ⟨stage, watched.serials ++ [watched.opened], watched.opened + 1⟩ := by
  have all : watched.serials.length ≤ watched.size + 1 := by
    rw [numbered]
    exact Nat.le_succ _
  unfold observe
  rw [more, Nat.add_sub_cancel_left, List.range'_one, List.take_of_length_le all]

theorem Good.next (good : watched.Good) (stepped : watched.next settings = some later) :
    later.Good := by
  obtain ⟨stage, moved, rfl⟩ := Option.map_eq_some_iff.mp stepped
  refine ⟨Stage.next_grounded good.grounded moved, ?_⟩
  change (watched.serials.take stage.moment.machine.arena.size
    ++ List.range' watched.opened (stage.moment.machine.arena.size - watched.size)).length
    = stage.moment.machine.arena.size
  rw [List.length_append, List.length_take, List.length_range', good.numbered]
  omega

theorem Good.after {steps : Nat} (good : watched.Good)
    (arrived : watched.after settings steps = some later) : later.Good :=
  afterSteps_keeps (fun _ _ good stepped => good.next stepped) good arrived

theorem serials_next (good : watched.Good) (stepped : watched.next settings = some later)
    {id : ScopeId} (before : id < watched.size) (behind : id < later.size) :
    later.serials[id]? = watched.serials[id]? := by
  obtain ⟨stage, moved, rfl⟩ := Option.map_eq_some_iff.mp stepped
  change (watched.serials.take stage.moment.machine.arena.size
    ++ List.range' watched.opened (stage.moment.machine.arena.size - watched.size))[id]? = _
  have inside : id < (watched.serials.take stage.moment.machine.arena.size).length := by
    rw [List.length_take, good.numbered]
    exact Nat.lt_min.mpr ⟨behind, before⟩
  rw [List.getElem?_append_left inside]
  exact List.getElem?_take_of_lt behind

/-- While some work goes on in a scope, the scope keeps its number. -/
theorem serials_after (good : watched.Good) {steps : Nat} {id : ScopeId}
    (works : ∀ between ≤ steps, ∀ middle, watched.after settings between = some middle →
      id ∈ middle.stage.moment.active)
    (arrived : watched.after settings steps = some later) :
    later.serials[id]? = watched.serials[id]? := by
  induction steps generalizing later with
  | zero =>
      cases arrived
      rfl
  | succ steps ih =>
      have last := arrived
      rw [after, afterSteps_last] at last
      obtain ⟨middle, toMiddle, stepped⟩ := Option.bind_eq_some_iff.mp last
      have middleGood := good.after toMiddle
      have before := middleGood.grounded.active_lt
        (works steps (Nat.le_succ steps) middle toMiddle)
      have behind := (good.after arrived).grounded.active_lt
        (works (steps + 1) (Nat.le_refl _) later arrived)
      rw [serials_next middleGood stepped before behind]
      exact ih (fun between bound => works between (Nat.le_succ_of_le bound)) toMiddle

/-- A function is declared, and called from a block. -/
def callFromBlock : Submission :=
  let name : Token := ⟨.identifier, "f", .nil, 1⟩
  let paren : Token := ⟨.rightParen, ")", .nil, 2⟩
  .program
    [.function 0 name [] [.expression (.variable name)],
      .block [.expression (.call (.variable name) paren [])]]

end Watched

end Lox
