import Lox.Proofs.Scope.Keeping
import Lox.Proofs.Scope.Watch
set_option autoImplicit false

/-! A run in which scopes are taken away and one in which none is go step by step together: where the
one ends the other ends, and otherwise a step of the one is a step of the other. -/

namespace Lox

/-! ### Relocated moments -/

def Control.relocate (place : ScopeId → ScopeId) : Control → Control
  | evaluate scope expression => evaluate (place scope) expression
  | execute scope statement => execute (place scope) statement
  | bind scope parameters arguments =>
    bind (place scope) parameters (arguments.map (Value.relocate place))
  | value result => value (result.relocate place)
  | done => done
  | interrupted interrupt => interrupted (interrupt.relocate place)

def Frame.relocate (place : ScopeId → ScopeId) : Frame → Frame
  | assign scope name => assign (place scope) name
  | unary operator => unary operator
  | binaryLeft scope operator right => binaryLeft (place scope) operator right
  | binaryRight operator left => binaryRight operator (left.relocate place)
  | logical scope operator right => logical (place scope) operator right
  | conditional scope question thenBranch elseBranch =>
    conditional (place scope) question thenBranch elseBranch
  | callee scope paren arguments => callee (place scope) paren arguments
  | argument scope paren function given others =>
    argument (place scope) paren (function.relocate place) (given.map (Value.relocate place)) others
  | call => call
  | result => result
  | body scope => body (place scope)
  | discard => discard
  | print => print
  | flush => flush
  | returning => returning
  | «variable» scope name => «variable» (place scope) name
  | sequence scope others => sequence (place scope) others
  | branch scope thenBranch elseBranch => branch (place scope) thenBranch elseBranch
  | condition scope loopCondition statement => condition (place scope) loopCondition statement
  | round scope loopCondition statement => round (place scope) loopCondition statement

/-- The settings of a run in which nothing is taken away. -/
def Settings.keeping (settings : Settings) : Settings :=
  { settings with reclaim := false }

structure Moment.Embeds (place : ScopeId → ScopeId) (moment larger : Moment) : Prop where
  control : larger.control = moment.control.relocate place
  frames : larger.frames = moment.frames.map (Frame.relocate place)
  machine : moment.machine.Embeds place larger.machine

/-- What one step makes of the places: they stay, or a scope is opened behind all others. -/
def Moment.Follows (place : ScopeId → ScopeId) (machine larger : Machine)
    (later largerLater : Moment) : Prop :=
  (later.Embeds place largerLater ∧
    later.machine.arena.size ≤ machine.arena.size ∧
    largerLater.machine.arena.size = larger.arena.size) ∨
  (later.Embeds (Arena.placeOpened place machine.arena larger.arena) largerLater ∧
    later.machine.arena.size = machine.arena.size + 1 ∧
    largerLater.machine.arena.size = larger.arena.size + 1)

theorem Frame.relocate_congr {arena : Arena Value} {place other : ScopeId → ScopeId}
    (agree : ∀ id < arena.size, place id = other id) {frame : Frame}
    (inside : ∀ id, frame.scope? = some id → id < arena.size)
    (anchored : ∀ value ∈ frame.values, value.Anchored arena) :
    frame.relocate place = frame.relocate other := by
  cases frame with
  | call | result | discard | print | flush | returning | unary => rfl
  | binaryRight operator left =>
      have same := Value.relocate_congr agree (anchored left List.mem_cons_self)
      rw [relocate, relocate, same]
  | argument scope paren function given others =>
      have sameFunction := Value.relocate_congr agree (anchored _ List.mem_cons_self)
      rw [Value.relocate, Value.relocate, Value.callable.injEq] at sameFunction
      have sameGiven : given.map (Value.relocate place) = given.map (Value.relocate other) := by
        apply List.map_congr_left
        exact fun value member =>
          Value.relocate_congr agree (anchored value (List.mem_cons_of_mem _ member))
      rw [relocate, relocate, agree scope (inside scope rfl), sameFunction, sameGiven]
  | assign scope | binaryLeft scope | logical scope | conditional scope | callee scope
  | body scope | «variable» scope | sequence scope | branch scope | condition scope
  | round scope =>
      rw [relocate, relocate, agree scope (inside scope rfl)]

/-- A scope that is opened does not move what was there. -/
theorem Ground.frames_relocate {scope : ScopeId} {frames : List Frame} {machine : Machine}
    (ground : Ground scope frames machine) (place : ScopeId → ScopeId) (larger : Arena Value) :
    frames.map (Frame.relocate place)
      = frames.map (Frame.relocate (Arena.placeOpened place machine.arena larger)) := by
  apply List.map_congr_left
  intro frame member
  have agree : ∀ id < machine.arena.size,
      place id = Arena.placeOpened place machine.arena larger id :=
    fun _id inside => (Arena.placeOpened_of_lt place larger inside).symm
  apply Frame.relocate_congr agree
  · intro id works
    exact Nat.lt_of_le_of_lt (ground.stands.le frame member id works) ground.inside
  · exact ground.values frame member

theorem Machine.Embeds.push {place : ScopeId → ScopeId} {machine larger : Machine}
    (embeds : machine.Embeds place larger) (grounded : machine.Grounded) {enclosing : ScopeId}
    (inside : enclosing < machine.arena.size) :
    Embeds (Arena.placeOpened place machine.arena larger.arena)
      { machine with arena := (machine.arena.push enclosing).2 }
      { larger with arena := (larger.arena.push (place enclosing)).2 } :=
  ⟨grounded.embeds_push embeds.arena inside, embeds.callDepth, embeds.output⟩

namespace Moment

variable {place : ScopeId → ScopeId} {machine larger : Machine} {scope : ScopeId}
variable {frame : Frame} {frames : List Frame} {settings : Settings}

namespace Follows

theorem still (control : Control) (frames : List Frame) {later largerLater : Machine}
    (tracks : machine.Tracks place larger later largerLater) :
    Follows place machine larger ⟨control, frames, later⟩
      ⟨control.relocate place, frames.map (Frame.relocate place), largerLater⟩ :=
  Or.inl ⟨⟨rfl, rfl, tracks.embeds⟩, Nat.le_of_eq tracks.size, tracks.largerSize⟩

theorem perform {α : Type} {relocate : α → α} {action copy : Run α}
    {proceed largerProceed : α → Machine → Moment}
    (mirrors : action.Mirrors place relocate copy machine larger)
    (goes : ∀ result later largerLater, machine.Tracks place larger later largerLater →
      Follows place machine larger (proceed result later)
        (largerProceed (relocate result) largerLater)) :
    Follows place machine larger (Moment.perform action frames machine proceed)
      (Moment.perform copy (frames.map (Frame.relocate place)) larger largerProceed) := by
  unfold Run.Mirrors at mirrors
  unfold Moment.perform
  cases outcome : action machine with
  | ok result later =>
      rw [outcome] at mirrors
      obtain ⟨largerLater, copied, tracks⟩ := mirrors
      rw [copied]
      exact goes result later largerLater tracks
  | error interrupt later =>
      rw [outcome] at mirrors
      obtain ⟨largerLater, copied, tracks⟩ := mirrors
      rw [copied]
      exact still (.interrupted interrupt) frames tracks

theorem giving {action copy : Run Value}
    (mirrors : action.Mirrors place (Value.relocate place) copy machine larger) :
    Follows place machine larger (Moment.giving action frames machine)
      (Moment.giving copy (frames.map (Frame.relocate place)) larger) := by
  apply perform mirrors
  exact fun value _later _largerLater tracks => still (.value value) frames tracks

theorem completing {action copy : Run Unit}
    (mirrors : action.Mirrors place id copy machine larger) :
    Follows place machine larger (Moment.completing action frames machine)
      (Moment.completing copy (frames.map (Frame.relocate place)) larger) := by
  apply perform mirrors
  exact fun _done _later _largerLater tracks => still .done frames tracks

end Follows

theorem evaluateNext_follows (ground : Ground scope frames machine)
    (embeds : machine.Embeds place larger) (expression : Expr) :
    Follows place machine larger (evaluateNext scope frames machine expression)
      (evaluateNext (place scope) (frames.map (Frame.relocate place)) larger expression) := by
  cases expression with
  | «variable» name =>
      exact Follows.giving (Run.lookup_mirrors ground.grounded embeds ground.inside name)
  | literal | grouping | assign | unary | binary | logical | conditional | call =>
      exact Follows.still _ _ embeds.tracks

theorem optionalNext_follows (embeds : machine.Embeds place larger) (scope : ScopeId)
    (frames : List Frame) (value : Option Expr) :
    Follows place machine larger (optionalNext scope frames machine value)
      (optionalNext (place scope) (frames.map (Frame.relocate place)) larger value) := by
  cases value <;> exact Follows.still _ _ embeds.tracks

theorem executeNext_follows (ground : Ground scope frames machine)
    (embeds : machine.Embeds place larger) (statement : Stmt) :
    Follows place machine larger (executeNext scope frames machine statement)
      (executeNext (place scope) (frames.map (Frame.relocate place)) larger statement) := by
  cases statement with
  | returning keyword value =>
      exact optionalNext_follows embeds scope (.returning :: frames) value
  | «variable» name initializer =>
      exact optionalNext_follows embeds scope (.variable scope name :: frames) initializer
  | function label name parameters body =>
      exact Follows.completing
        (Run.declare_mirrors embeds ground.inside name ⟨label, name, parameters, body⟩)
  | block statements =>
      refine Or.inr ⟨⟨rfl, ?_, embeds.push ground.grounded ground.inside⟩, ?_, ?_⟩
      · have opened := Arena.placeOpened_size place machine.arena larger.arena
        change .sequence larger.arena.size statements :: .body larger.arena.size
            :: frames.map (Frame.relocate place)
          = .sequence (Arena.placeOpened place _ _ machine.arena.size) statements
            :: .body (Arena.placeOpened place _ _ machine.arena.size)
            :: frames.map (Frame.relocate (Arena.placeOpened place _ _))
        rw [opened, ground.frames_relocate place larger.arena]
      · exact Arena.size_push _ _
      · exact Arena.size_push _ _
  | expression | print | branch | loop => exact Follows.still _ _ embeds.tracks

theorem bindNext_follows (ground : Ground scope frames machine)
    (embeds : machine.Embeds place larger) (parameters : List Token) (arguments : List Value) :
    Follows place machine larger (bindNext scope frames machine parameters arguments)
      (bindNext (place scope) (frames.map (Frame.relocate place)) larger parameters
        (arguments.map (Value.relocate place))) := by
  cases parameters with
  | nil => exact Follows.still _ _ embeds.tracks
  | cons parameter parameters =>
      cases arguments with
      | nil => exact Follows.still _ _ embeds.tracks
      | cons argument arguments =>
          rw [List.map_cons, bindNext, bindNext]
          apply Follows.perform (Run.define_mirrors embeds ground.inside parameter argument)
          exact fun _done _later _largerLater tracks =>
            Follows.still (.bind scope parameters arguments) frames tracks

theorem invokeNext_follows (ground : Ground scope frames machine)
    (embeds : machine.Embeds place larger) {function : Callable}
    (captured : (Value.callable function).Anchored machine.arena) {arguments : List Value}
    (anchored : ∀ value ∈ arguments, value.Anchored machine.arena) :
    Follows place machine larger (invokeNext settings arguments frames machine function)
      (invokeNext settings.keeping (arguments.map (Value.relocate place))
        (frames.map (Frame.relocate place)) larger (function.relocate place)) := by
  cases function with
  | clock => exact Follows.still (.value (.number settings.time)) frames embeds.tracks
  | closure declaration closure =>
      refine Or.inr ⟨⟨?_, ?_, embeds.push ground.grounded captured.lt_size⟩, ?_, ?_⟩
      · have opened := Arena.placeOpened_size place machine.arena larger.arena
        have same : arguments.map (Value.relocate place)
            = arguments.map
                (Value.relocate (Arena.placeOpened place machine.arena larger.arena)) := by
          apply List.map_congr_left
          intro value member
          apply Value.relocate_congr _ (anchored value member)
          exact fun _id inside => (Arena.placeOpened_of_lt place larger.arena inside).symm
        change Control.bind larger.arena.size declaration.parameters
            (arguments.map (Value.relocate place))
          = .bind (Arena.placeOpened place _ _ machine.arena.size) declaration.parameters
            (arguments.map (Value.relocate (Arena.placeOpened place _ _)))
        rw [opened, same]
      · have opened := Arena.placeOpened_size place machine.arena larger.arena
        change .sequence larger.arena.size declaration.body :: .body larger.arena.size :: .result
            :: frames.map (Frame.relocate place)
          = .sequence (Arena.placeOpened place _ _ machine.arena.size) declaration.body
            :: .body (Arena.placeOpened place _ _ machine.arena.size) :: .result
            :: frames.map (Frame.relocate (Arena.placeOpened place _ _))
        rw [opened, ground.frames_relocate place larger.arena]
      · exact Arena.size_push _ _
      · exact Arena.size_push _ _

theorem argumentNext_follows (settings : Settings) (ground : Ground scope frames machine)
    (embeds : machine.Embeds place larger) (paren : Token) {function : Callable}
    (captured : (Value.callable function).Anchored machine.arena) {given : List Value}
    (anchored : ∀ value ∈ given, value.Anchored machine.arena) (others : List Expr) :
    Follows place machine larger
      (argumentNext settings scope paren function given frames machine others)
      (argumentNext settings.keeping (place scope) paren (function.relocate place)
        (given.map (Value.relocate place)) (frames.map (Frame.relocate place)) larger others) := by
  cases others with
  | cons argument others =>
      exact Follows.still (.evaluate scope argument)
        (.argument scope paren function given others :: frames) embeds.tracks
  | nil =>
      rw [argumentNext, argumentNext, List.length_map, Callable.arity_relocate, embeds.callDepth]
      by_cases right : given.length = function.arity
      · rw [if_pos right, if_pos right]
        by_cases full : settings.maxCallDepth ≤ machine.callDepth
        · have largerFull : settings.keeping.maxCallDepth ≤ machine.callDepth := full
          rw [if_pos full, if_pos largerFull]
          exact Follows.still (.interrupted (.callDepth settings.maxCallDepth)) frames
            embeds.tracks
        · have largerFree : ¬ settings.keeping.maxCallDepth ≤ machine.callDepth := full
          rw [if_neg full, if_neg largerFree]
          exact invokeNext_follows ground.enterCall embeds.enterCall captured anchored
      · rw [if_neg right, if_neg right]
        exact Follows.still
          (.interrupted (.failure ⟨paren.line, .wrongArity function.arity given.length⟩)) frames
          embeds.tracks

theorem valueNext_follows (ground : Ground scope (frame :: frames) machine)
    (embeds : machine.Embeds place larger) {value : Value}
    (anchored : value.Anchored machine.arena) :
    Option.Rel (Follows place machine larger) (valueNext settings value frames machine frame)
      (valueNext settings.keeping (value.relocate place) (frames.map (Frame.relocate place)) larger
        (frame.relocate place)) := by
  cases frame with
  | assign works name =>
      obtain rfl := ground.here rfl
      constructor
      apply Follows.perform (Run.assign_mirrors ground.grounded embeds ground.inside name value)
      exact fun _done _later _largerLater tracks => Follows.still (.value value) frames tracks
  | unary operator =>
      exact .some (Follows.giving (Run.applyUnary_mirrors embeds operator value))
  | binaryRight operator left =>
      have leftAnchored := ground.held left List.mem_cons_self
      exact .some
        (Follows.giving (Run.applyBinary_mirrors embeds operator leftAnchored anchored))
  | binaryLeft works operator right =>
      exact .some
        (Follows.still (.evaluate works right) (.binaryRight operator value :: frames)
          embeds.tracks)
  | logical works operator right =>
      rw [Frame.relocate]
      simp only [valueNext, Value.isTruthy_relocate]
      by_cases settled :
          (if operator.kind == .orWord then value.isTruthy else !value.isTruthy) = true
      · rw [if_pos settled, if_pos settled]
        exact .some (Follows.still (.value value) frames embeds.tracks)
      · rw [if_neg settled, if_neg settled]
        exact .some (Follows.still (.evaluate works right) frames embeds.tracks)
  | conditional works question thenBranch elseBranch =>
      have refused : Follows place machine larger
          ⟨.interrupted (.failure ⟨question.line, .notBoolean⟩), frames, machine⟩
          ⟨.interrupted (.failure ⟨question.line, .notBoolean⟩),
            frames.map (Frame.relocate place), larger⟩ :=
        Follows.still (.interrupted _) frames embeds.tracks
      cases value with
      | callable function => exact .some refused
      | literal literal =>
          cases literal with
          | bool truth =>
              cases truth with
              | true => exact .some (Follows.still (.evaluate works thenBranch) frames embeds.tracks)
              | false => exact .some (Follows.still (.evaluate works elseBranch) frames embeds.tracks)
          | nil | number | string => exact .some refused
  | callee works paren arguments =>
      obtain rfl := ground.here rfl
      cases value with
      | literal literal =>
          exact .some (Follows.still (.interrupted (.failure ⟨paren.line, .notCallable⟩)) frames
            embeds.tracks)
      | callable function =>
          have below := ground.tail (fun _ same => by cases same)
          have none : ∀ value ∈ ([] : List Value), value.Anchored machine.arena :=
            List.forall_mem_nil _
          exact .some (argumentNext_follows settings below embeds paren anchored none arguments)
  | argument works paren function given others =>
      obtain rfl := ground.here rfl
      have below := ground.tail (fun _ same => by cases same)
      have captured := ground.held (.callable function) List.mem_cons_self
      have all : ∀ other ∈ given ++ [value], other.Anchored machine.arena := by
        intro other held
        rcases List.mem_append.mp held with inGiven | last
        · exact ground.held other (List.mem_cons_of_mem _ inGiven)
        · rw [List.mem_singleton.mp last]
          exact anchored
      have follows := argumentNext_follows settings below embeds paren captured all others
      rw [List.map_append] at follows
      exact .some follows
  | call => exact .some (Follows.still (.value value) frames ⟨embeds.leaveCall, rfl, rfl⟩)
  | discard => exact .some (Follows.still .done frames embeds.tracks)
  | print => exact .some (Follows.completing (Run.print_mirrors embeds value))
  | returning => exact .some (Follows.still (.interrupted (.returning value)) frames embeds.tracks)
  | «variable» works name =>
      obtain rfl := ground.here rfl
      exact .some (Follows.completing (Run.define_mirrors embeds ground.inside name value))
  | branch works thenBranch elseBranch =>
      rw [Frame.relocate]
      simp only [valueNext, Value.isTruthy_relocate]
      by_cases holds : value.isTruthy = true
      · rw [if_pos holds, if_pos holds]
        exact .some (Follows.still (.execute works thenBranch) frames embeds.tracks)
      · rw [if_neg holds, if_neg holds]
        cases elseBranch with
        | none => exact .some (Follows.still .done frames embeds.tracks)
        | some elseBranch =>
            exact .some (Follows.still (.execute works elseBranch) frames embeds.tracks)
  | condition works condition body =>
      rw [Frame.relocate]
      simp only [valueNext, Value.isTruthy_relocate]
      by_cases holds : value.isTruthy = true
      · rw [if_pos holds, if_pos holds]
        exact .some (Follows.still (.execute works body) (.round works condition body :: frames)
          embeds.tracks)
      · rw [if_neg holds, if_neg holds]
        exact .some (Follows.still .done frames embeds.tracks)
  | result | body | flush | sequence | round => exact .none

theorem Follows.leaving (embeds : machine.Embeds place larger) (control : Control)
    (left : ScopeId) :
    Follows place machine larger ⟨control, frames, machine.leave settings left⟩
      ⟨control.relocate place, frames.map (Frame.relocate place), larger⟩ := by
  have released : (machine.leave settings left).Embeds place larger ∧
      (machine.leave settings left).arena.size ≤ machine.arena.size := by
    unfold Machine.leave
    split
    · refine ⟨⟨embeds.arena.release left, embeds.callDepth, embeds.output⟩, ?_⟩
      change (machine.arena.release left).size ≤ machine.arena.size
      rw [Arena.size_release]
      split
      · exact Nat.sub_le _ _
      · exact Nat.le_refl _
    · exact ⟨embeds, Nat.le_refl _⟩
  exact Or.inl ⟨⟨rfl, rfl, released.1⟩, released.2, rfl⟩

theorem doneNext_follows (embeds : machine.Embeds place larger) (frame : Frame)
    (frames : List Frame) :
    Option.Rel (Follows place machine larger) (doneNext settings frames machine frame)
      (doneNext settings.keeping (frames.map (Frame.relocate place)) larger
        (frame.relocate place)) := by
  cases frame with
  | result => exact .some (Follows.still (.value .nil) frames embeds.tracks)
  | body works => exact .some (Follows.leaving embeds .done works)
  | flush => exact .some (Follows.completing (Run.flush_mirrors embeds))
  | sequence works others =>
      cases others with
      | nil => exact .some (Follows.still .done frames embeds.tracks)
      | cons first others =>
          exact .some (Follows.still (.execute works first) (.sequence works others :: frames)
            embeds.tracks)
  | round works condition body =>
      exact .some (Follows.still (.evaluate works condition)
        (.condition works condition body :: frames) embeds.tracks)
  | assign | unary | binaryLeft | binaryRight | logical | conditional | callee | argument | call
  | discard | print | returning | «variable» | branch | condition => exact .none

theorem interruptNext_follows (embeds : machine.Embeds place larger) (interrupt : Interrupt)
    (frame : Frame) (frames : List Frame) :
    Follows place machine larger (interruptNext settings interrupt frames machine frame)
      (interruptNext settings.keeping (interrupt.relocate place)
        (frames.map (Frame.relocate place)) larger (frame.relocate place)) := by
  cases frame with
  | call => exact Follows.still (.interrupted interrupt) frames ⟨embeds.leaveCall, rfl, rfl⟩
  | body works => exact Follows.leaving embeds (.interrupted interrupt) works
  | result =>
      cases interrupt with
      | returning value => exact Follows.still (.value value) frames embeds.tracks
      | failure | callDepth | output | stuck | exhausted =>
          exact Follows.still (.interrupted _) frames embeds.tracks
  | assign | unary | binaryLeft | binaryRight | logical | conditional | callee | argument
  | discard | print | flush | returning | «variable» | sequence | branch | condition | round =>
      exact Follows.still (.interrupted interrupt) frames embeds.tracks

/-- The two runs end together, and as long as they go on, the one follows the other. -/
theorem next_follows (settings : Settings) {moment larger : Moment} (grounded : moment.Grounded)
    (embeds : moment.Embeds place larger) :
    Option.Rel (Follows place moment.machine larger.machine) (moment.next settings)
      (larger.next settings.keeping) := by
  obtain ⟨scope, ground, here, values⟩ := grounded
  obtain ⟨control, frames, machine⟩ := moment
  obtain ⟨largerControl, largerFrames, largerMachine⟩ := larger
  obtain ⟨sameControl, sameFrames, machines⟩ := embeds
  dsimp only at sameControl sameFrames machines ground values
  subst sameControl sameFrames
  cases control with
  | evaluate works expression =>
      obtain rfl := here works rfl
      exact .some (evaluateNext_follows ground machines expression)
  | execute works statement =>
      obtain rfl := here works rfl
      exact .some (executeNext_follows ground machines statement)
  | bind works parameters arguments =>
      obtain rfl := here works rfl
      exact .some (bindNext_follows ground machines parameters arguments)
  | value value =>
      cases frames with
      | nil => exact .none
      | cons frame frames =>
          exact valueNext_follows ground machines (values value List.mem_cons_self)
  | done =>
      cases frames with
      | nil => exact .none
      | cons frame frames => exact doneNext_follows machines frame frames
  | interrupted interrupt =>
      cases frames with
      | nil => exact .none
      | cons frame frames => exact .some (interruptNext_follows machines interrupt frame frames)

end Moment

end Lox
