import Lox.Proofs.Run.Course
import Lox.Proofs.Scope.Grounded
set_option autoImplicit false

/-! Each step of a run keeps it grounded, and so every stage of every session is. -/

namespace Lox

namespace Ground

variable {scope id : ScopeId} {frame : Frame} {frames : List Frame} {machine : Machine}

theorem here (ground : Ground scope (frame :: frames) machine) (works : frame.scope? = some id) :
    id = scope := by
  have stands := ground.stands
  cases frame
  case body inner =>
    cases works
    exact stands.1.symm
  all_goals exact stands.1 id works

theorem held (ground : Ground scope (frame :: frames) machine) :
    ∀ value ∈ frame.values, value.Anchored machine.arena :=
  ground.values frame List.mem_cons_self

/-- A frame without values, to be put on top of the frames in the scope at hand. -/
theorem waiting (ground : Ground scope frames machine) (frame : Frame)
    (inner : ∀ id, frame ≠ .body id) (works : frame.scope?.getD scope = scope)
    (free : frame.values = []) : Ground scope (frame :: frames) machine := by
  apply ground.cons inner
  · intro id same
    rw [same] at works
    exact works
  · intro value held
    rw [free] at held
    cases held

theorem enterCall (ground : Ground scope frames machine) :
    Ground scope (.call :: frames) machine.enterCall := by
  have entered : Ground scope frames machine.enterCall :=
    ground.leads (ground.grounded.leads_of_arena rfl)
  exact entered.waiting .call (fun _ same => nomatch same) rfl rfl

theorem leaveCall (ground : Ground scope frames machine) : Ground scope frames machine.leaveCall :=
  ground.leads (ground.grounded.leads_of_arena rfl)

end Ground

namespace Moment

variable {scope : ScopeId} {frame : Frame} {frames : List Frame} {machine : Machine}
variable {settings : Settings} {later : Moment}

theorem evaluateNext_grounded (ground : Ground scope frames machine) (expression : Expr) :
    (evaluateNext scope frames machine expression).Grounded := by
  cases expression with
  | literal value => exact value_grounded ground trivial
  | «variable» name => exact giving_grounded ground (Run.lookup_keeps ground.grounded scope name)
  | grouping inner => exact evaluate_grounded ground inner
  | assign name value =>
      exact evaluate_grounded
        (ground.waiting (.assign scope name) (fun _ same => nomatch same) rfl rfl) _
  | unary operator operand =>
      exact evaluate_grounded
        (ground.waiting (.unary operator) (fun _ same => nomatch same) rfl rfl) _
  | binary left operator right =>
      exact evaluate_grounded
        (ground.waiting (.binaryLeft scope operator right) (fun _ same => nomatch same) rfl rfl) _
  | logical left operator right =>
      exact evaluate_grounded
        (ground.waiting (.logical scope operator right) (fun _ same => nomatch same) rfl rfl) _
  | conditional condition question thenBranch elseBranch =>
      exact evaluate_grounded
        (ground.waiting (.conditional scope question thenBranch elseBranch)
          (fun _ same => nomatch same) rfl rfl) _
  | call callee paren arguments =>
      exact evaluate_grounded
        (ground.waiting (.callee scope paren arguments) (fun _ same => nomatch same) rfl rfl) _

theorem optionalNext_grounded (ground : Ground scope frames machine) (value : Option Expr) :
    (optionalNext scope frames machine value).Grounded := by
  cases value with
  | none => exact value_grounded ground trivial
  | some value => exact evaluate_grounded ground value

theorem executeNext_grounded (ground : Ground scope frames machine) (statement : Stmt) :
    (executeNext scope frames machine statement).Grounded := by
  cases statement with
  | expression value =>
      exact evaluate_grounded (ground.waiting .discard (fun _ same => nomatch same) rfl rfl) _
  | print value =>
      exact evaluate_grounded (ground.waiting .print (fun _ same => nomatch same) rfl rfl) _
  | returning keyword value =>
      exact optionalNext_grounded
        (ground.waiting .returning (fun _ same => nomatch same) rfl rfl) value
  | «variable» name initializer =>
      exact optionalNext_grounded
        (ground.waiting (.variable scope name) (fun _ same => nomatch same) rfl rfl) initializer
  | function label name parameters body =>
      exact completing_grounded ground
        (Run.declare_keeps ground.grounded ground.inside name ⟨label, name, parameters, body⟩)
  | block statements =>
      rw [executeNext]
      apply perform_grounded ground (Run.push_keeps ground.grounded ground.inside)
      intro inner later leads holds
      rcases holds with ⟨rfl, opened⟩
      exact done_grounded (ground.body leads opened statements)
  | branch condition thenBranch elseBranch =>
      exact evaluate_grounded
        (ground.waiting (.branch scope thenBranch elseBranch) (fun _ same => nomatch same)
          rfl rfl) _
  | loop condition body =>
      exact evaluate_grounded
        (ground.waiting (.condition scope condition body) (fun _ same => nomatch same) rfl rfl) _

theorem bindNext_grounded (ground : Ground scope frames machine) (parameters : List Token)
    {arguments : List Value} (anchored : ∀ value ∈ arguments, value.Anchored machine.arena) :
    (bindNext scope frames machine parameters arguments).Grounded := by
  cases parameters with
  | nil => exact done_grounded ground
  | cons parameter parameters =>
      cases arguments with
      | nil => exact done_grounded ground
      | cons argument arguments =>
          have first := anchored argument List.mem_cons_self
          rw [bindNext]
          apply perform_grounded ground
            (Run.define_keeps ground.grounded scope parameter first)
          intro done later leads _good
          refine ⟨scope, ground.leads leads, fun id same => (Option.some.inj same).symm, ?_⟩
          intro value held
          exact (anchored value (List.mem_cons_of_mem _ held)).mono leads.captures

/-- The body of a function works in a scope inside the one that the function has captured. -/
theorem invokeNext_grounded (ground : Ground scope frames machine) {function : Callable}
    (captured : (Value.callable function).Anchored machine.arena) {arguments : List Value}
    (anchored : ∀ value ∈ arguments, value.Anchored machine.arena) :
    (invokeNext settings arguments frames machine function).Grounded := by
  cases function with
  | clock => exact value_grounded ground trivial
  | closure declaration closure =>
      rw [invokeNext]
      apply perform_grounded ground (Run.push_keeps ground.grounded captured.lt_size)
      intro inner later leads holds
      rcases holds with ⟨rfl, opened⟩
      have below := ground.waiting .result (fun _ same => nomatch same) rfl rfl
      refine ⟨_, below.body leads opened declaration.body,
        fun id same => (Option.some.inj same).symm, ?_⟩
      exact fun value held => (anchored value held).mono leads.captures

theorem argumentNext_grounded (ground : Ground scope frames machine) (paren : Token)
    {function : Callable} (captured : (Value.callable function).Anchored machine.arena)
    {given : List Value} (anchored : ∀ value ∈ given, value.Anchored machine.arena)
    (others : List Expr) :
    (argumentNext settings scope paren function given frames machine others).Grounded := by
  cases others with
  | cons argument others =>
      have waiting : Ground scope (.argument scope paren function given others :: frames)
          machine := by
        refine ground.cons (fun _ same => nomatch same) ?_ ?_
        · exact fun _id same => (Option.some.inj same).symm
        intro value held
        rcases List.mem_cons.mp held with same | inGiven
        · rw [same]
          exact captured
        · exact anchored value inGiven
      exact evaluate_grounded waiting argument
  | nil =>
      rw [argumentNext]
      split
      · split
        · exact interrupted_grounded ground fun _value held => nomatch held
        · exact invokeNext_grounded ground.enterCall captured anchored
      · exact interrupted_grounded ground fun _value held => nomatch held

theorem valueNext_grounded (ground : Ground scope (frame :: frames) machine) {value : Value}
    (anchored : value.Anchored machine.arena)
    (stepped : valueNext settings value frames machine frame = some later) : later.Grounded := by
  cases frame with
  | assign works name =>
      cases stepped
      have below := ground.tail (fun _ same => nomatch same)
      apply perform_grounded below (Run.assign_keeps ground.grounded works name anchored)
      intro done later leads _good
      exact value_grounded (below.leads leads) (anchored.mono leads.captures)
  | unary operator =>
      cases stepped
      exact giving_grounded (ground.tail (fun _ same => nomatch same))
        (Run.applyUnary_keeps ground.grounded operator value)
  | binaryLeft works operator right =>
      cases stepped
      obtain rfl := ground.here rfl
      have below := ground.tail (fun _ same => nomatch same)
      have waiting : Ground works (.binaryRight operator value :: frames) machine := by
        refine below.cons (fun _ same => nomatch same) (fun _ nothing => nomatch nothing) ?_
        intro other held
        rw [List.mem_singleton.mp held]
        exact anchored
      exact evaluate_grounded waiting right
  | binaryRight operator left =>
      cases stepped
      exact giving_grounded (ground.tail (fun _ same => nomatch same))
        (Run.applyBinary_keeps ground.grounded operator left value)
  | logical works operator right =>
      obtain rfl := ground.here rfl
      have below := ground.tail (fun _ same => nomatch same)
      by_cases settled :
          (if operator.kind == .orWord then value.isTruthy else !value.isTruthy) = true
      · simp only [valueNext, if_pos settled] at stepped
        cases stepped
        exact value_grounded below anchored
      · simp only [valueNext, if_neg settled] at stepped
        cases stepped
        exact evaluate_grounded below right
  | conditional works question thenBranch elseBranch =>
      obtain rfl := ground.here rfl
      have below := ground.tail (fun _ same => nomatch same)
      have refused : (⟨.interrupted (.failure ⟨question.line, .notBoolean⟩), frames, machine⟩ :
          Moment).Grounded := interrupted_grounded below fun _value held => nomatch held
      cases value with
      | callable function =>
          cases stepped
          exact refused
      | literal literal =>
          cases literal with
          | bool truth =>
              cases truth <;> cases stepped
              · exact evaluate_grounded below elseBranch
              · exact evaluate_grounded below thenBranch
          | nil | number | string =>
              cases stepped
              exact refused
  | callee works paren arguments =>
      obtain rfl := ground.here rfl
      have below := ground.tail (fun _ same => nomatch same)
      cases value with
      | literal literal =>
          cases stepped
          apply interrupted_grounded below
          exact fun _value held => nomatch held
      | callable function =>
          cases stepped
          have none : ∀ value ∈ ([] : List Value), value.Anchored machine.arena :=
            fun _value held => nomatch held
          exact argumentNext_grounded below paren anchored none arguments
  | argument works paren function given others =>
      cases stepped
      obtain rfl := ground.here rfl
      have below := ground.tail (fun _ same => nomatch same)
      have captured := ground.held (.callable function) List.mem_cons_self
      refine argumentNext_grounded below paren captured ?_ others
      intro other held
      rcases List.mem_append.mp held with inGiven | last
      · exact ground.held other (List.mem_cons_of_mem _ inGiven)
      · rw [List.mem_singleton.mp last]
        exact anchored
  | call =>
      cases stepped
      exact value_grounded (ground.tail (fun _ same => nomatch same)).leaveCall anchored
  | discard =>
      cases stepped
      exact done_grounded (ground.tail (fun _ same => nomatch same))
  | print =>
      cases stepped
      exact completing_grounded (ground.tail (fun _ same => nomatch same))
        (Run.print_keeps ground.grounded value)
  | returning =>
      cases stepped
      apply interrupted_grounded (ground.tail (fun _ same => nomatch same))
      intro other held
      rw [List.mem_singleton.mp held]
      exact anchored
  | «variable» works name =>
      cases stepped
      exact completing_grounded (ground.tail (fun _ same => nomatch same))
        (Run.define_keeps ground.grounded works name anchored)
  | branch works thenBranch elseBranch =>
      obtain rfl := ground.here rfl
      have below := ground.tail (fun _ same => nomatch same)
      by_cases holds : value.isTruthy = true
      · simp only [valueNext, if_pos holds] at stepped
        cases stepped
        exact execute_grounded below thenBranch
      · simp only [valueNext, if_neg holds] at stepped
        cases elseBranch with
        | none =>
            cases stepped
            exact done_grounded below
        | some elseBranch =>
            cases stepped
            exact execute_grounded below elseBranch
  | condition works condition body =>
      obtain rfl := ground.here rfl
      have below := ground.tail (fun _ same => nomatch same)
      by_cases holds : value.isTruthy = true
      · simp only [valueNext, if_pos holds] at stepped
        cases stepped
        exact execute_grounded
          (below.waiting (.round _ condition body) (fun _ same => nomatch same) rfl rfl) body
      · simp only [valueNext, if_neg holds] at stepped
        cases stepped
        exact done_grounded below
  | result | body | flush | sequence | round => cases stepped

theorem doneNext_grounded (ground : Ground scope (frame :: frames) machine)
    (stepped : doneNext settings frames machine frame = some later) : later.Grounded := by
  cases frame with
  | result =>
      cases stepped
      exact value_grounded (ground.tail (fun _ same => nomatch same)) trivial
  | body works =>
      cases stepped
      obtain ⟨below, rest⟩ := ground.leave settings
      exact done_grounded rest
  | flush =>
      cases stepped
      exact completing_grounded (ground.tail (fun _ same => nomatch same))
        (Run.flush_keeps ground.grounded)
  | sequence works others =>
      obtain rfl := ground.here rfl
      have below := ground.tail (fun _ same => nomatch same)
      cases others with
      | nil =>
          cases stepped
          exact done_grounded below
      | cons first others =>
          cases stepped
          exact execute_grounded
            (below.waiting (.sequence _ others) (fun _ same => nomatch same) rfl rfl) first
  | round works condition body =>
      cases stepped
      obtain rfl := ground.here rfl
      exact evaluate_grounded
        ((ground.tail (fun _ same => nomatch same)).waiting (.condition _ condition body)
          (fun _ same => nomatch same) rfl rfl) condition
  | assign | unary | binaryLeft | binaryRight | logical | conditional | callee | argument | call
  | discard | print | returning | «variable» | branch | condition => cases stepped

theorem interruptNext_grounded (ground : Ground scope (frame :: frames) machine)
    {interrupt : Interrupt}
    (anchored : ∀ value ∈ interrupt.values, value.Anchored machine.arena) :
    (interruptNext settings interrupt frames machine frame).Grounded := by
  cases frame with
  | call =>
      exact interrupted_grounded (ground.tail (fun _ same => nomatch same)).leaveCall anchored
  | body works =>
      obtain ⟨below, rest⟩ := ground.leave settings
      apply interrupted_grounded rest
      intro value held
      exact (anchored value held).mono
        fun _id captured => Machine.captures_leave settings works captured
  | result =>
      have below := ground.tail (fun _ same => nomatch same)
      cases interrupt with
      | returning value => exact value_grounded below (anchored value List.mem_cons_self)
      | failure | callDepth | output | stuck | exhausted =>
          exact interrupted_grounded below anchored
  | assign | unary | binaryLeft | binaryRight | logical | conditional | callee | argument
  | discard | print | flush | returning | «variable» | sequence | branch | condition | round =>
      exact interrupted_grounded (ground.tail (fun _ same => nomatch same)) anchored

theorem Grounded.next {moment : Moment} (grounded : moment.Grounded)
    (stepped : moment.next settings = some later) : later.Grounded := by
  obtain ⟨scope, ground, here, values⟩ := grounded
  obtain ⟨control, frames, machine⟩ := moment
  cases control with
  | evaluate works expression =>
      obtain rfl := here works rfl
      cases stepped
      exact evaluateNext_grounded ground expression
  | execute works statement =>
      obtain rfl := here works rfl
      cases stepped
      exact executeNext_grounded ground statement
  | bind works parameters arguments =>
      obtain rfl := here works rfl
      cases stepped
      exact bindNext_grounded ground parameters values
  | value value =>
      cases frames with
      | nil => cases stepped
      | cons frame frames =>
          exact valueNext_grounded ground (values value List.mem_cons_self) stepped
  | done =>
      cases frames with
      | nil => cases stepped
      | cons frame frames => exact doneNext_grounded ground stepped
  | interrupted interrupt =>
      cases frames with
      | nil => cases stepped
      | cons frame frames =>
          cases stepped
          exact interruptNext_grounded ground values

end Moment

end Lox
