import Lox.Proofs.Scope.Lockstep
set_option autoImplicit false

/-! Taking scopes away cannot be observed. A session that takes scopes away and one that keeps them
all print and report the same, and find every name in the same scope. Where nothing is taken away,
the place of a scope is the number under which it was opened. -/

namespace Lox

/-! ### What can be seen -/

namespace Moment

/-- The scope to which the name belongs that the next step looks up or assigns. -/
def owner? : Moment → Option (Option ScopeId)
  | ⟨.evaluate scope (.variable name), _, machine⟩ =>
    some (machine.arena.owner? scope name.lexeme)
  | ⟨.value _, .assign scope name :: _, machine⟩ => some (machine.arena.owner? scope name.lexeme)
  | _ => none

/-- Whether the two operands that the next step takes are the same. -/
def same? : Moment → Option Bool
  | ⟨.value right, .binaryRight _ left :: _, _⟩ => some (left.same right)
  | _ => none

end Moment

structure View where
  reported : List (List Diagnostic)
  output : Output
  /-- The number of the scope to which a name belongs. -/
  owner : Option (Option Nat)
  same : Option Bool

def Watched.view (watched : Watched) : View where
  reported := watched.stage.reported
  output := watched.stage.moment.machine.output
  owner := watched.stage.moment.owner?.map (·.bind (watched.serials[·]?))
  same := watched.stage.moment.same?

namespace Moment

variable {place : ScopeId → ScopeId} {moment larger : Moment}

theorem owner?_inside {owner : ScopeId} (owned : moment.owner? = some (some owner)) :
    owner < moment.machine.arena.size := by
  unfold owner? at owned
  split at owned
  · exact Arena.ownerWithin_inside (Option.some.inj owned)
  · exact Arena.ownerWithin_inside (Option.some.inj owned)
  · cases owned

theorem Embeds.owner?_eq (embeds : moment.Embeds place larger) (grounded : moment.Grounded) :
    larger.owner? = moment.owner?.map (Option.map place) := by
  obtain ⟨scope, ground, here, _values⟩ := grounded
  obtain ⟨control, frames, machine⟩ := moment
  obtain ⟨largerControl, largerFrames, largerMachine⟩ := larger
  obtain ⟨sameControl, sameFrames, machines⟩ := embeds
  dsimp only at sameControl sameFrames machines ground
  subst sameControl sameFrames
  have owned : ∀ name, largerMachine.arena.owner? (place scope) name
      = (machine.arena.owner? scope name).map place :=
    fun name => machines.arena.owner?_eq ground.grounded.rooted name ground.inside
  cases control with
  | evaluate works expression =>
      cases expression with
      | «variable» name =>
          obtain rfl := here works rfl
          exact congrArg some (owned name.lexeme)
      | literal | assign | unary | binary | logical | conditional | call | grouping => rfl
  | value result =>
      cases frames with
      | nil => rfl
      | cons frame frames =>
          cases frame with
          | assign works name =>
              obtain rfl := ground.here rfl
              exact congrArg some (owned name.lexeme)
          | _ => rfl
  | execute | bind | done | interrupted => rfl

theorem Embeds.same?_eq (embeds : moment.Embeds place larger) (grounded : moment.Grounded) :
    larger.same? = moment.same? := by
  obtain ⟨scope, ground, _here, values⟩ := grounded
  obtain ⟨control, frames, machine⟩ := moment
  obtain ⟨largerControl, largerFrames, largerMachine⟩ := larger
  obtain ⟨sameControl, sameFrames, machines⟩ := embeds
  dsimp only at sameControl sameFrames machines ground
  subst sameControl sameFrames
  cases control with
  | value right =>
      cases frames with
      | nil => rfl
      | cons frame frames =>
          cases frame with
          | binaryRight operator left =>
              have leftAnchored := ground.held left List.mem_cons_self
              have rightAnchored := values right List.mem_cons_self
              exact congrArg some (machines.same_relocate leftAnchored rightAnchored)
          | _ => rfl
  | evaluate | execute | bind | done | interrupted => rfl

end Moment

/-! ### Stages -/

structure Stage.Embeds (place : ScopeId → ScopeId) (stage larger : Stage) : Prop where
  active : larger.active = stage.active
  pending : larger.pending = stage.pending
  reported : larger.reported = stage.reported
  moment : stage.moment.Embeds place larger.moment

structure Stage.Follows (place : ScopeId → ScopeId) (machine larger : Machine)
    (later largerLater : Stage) : Prop where
  active : largerLater.active = later.active
  pending : largerLater.pending = later.pending
  reported : largerLater.reported = later.reported
  moment : later.moment.Follows place machine larger largerLater.moment

theorem Interrupt.diagnostic_relocate (place : ScopeId → ScopeId) (interrupt : Interrupt) :
    (interrupt.relocate place).diagnostic = interrupt.diagnostic := by
  cases interrupt <;> rfl

theorem Submission.verdict_relocate {place : ScopeId → ScopeId} {last larger : Moment}
    (embeds : last.Embeds place larger) (submission : Submission) :
    submission.verdict larger = submission.verdict last := by
  have errors : larger.control.errors = last.control.errors := by
    rw [embeds.control]
    cases last.control with
    | interrupted interrupt =>
        rw [Control.relocate, Control.errors, Control.errors, Interrupt.diagnostic_relocate]
    | evaluate | execute | bind | value | done => rfl
  cases submission with
  | program statements =>
      rw [verdict, verdict, errors, embeds.machine.output]
  | expression expression => exact errors

namespace Stage

variable {place : ScopeId → ScopeId} {stage larger : Stage} {settings : Settings}

theorem close_follows (embeds : stage.Embeds place larger) (submission : Submission) :
    Option.Rel (Follows place stage.moment.machine larger.moment.machine)
      (stage.close submission) (larger.close submission) := by
  unfold close
  rw [Submission.verdict_relocate embeds.moment]
  cases submission.verdict stage.moment with
  | error halt => exact .none
  | ok diagnostics =>
      have machines := embeds.moment.machine
      refine .some ⟨rfl, embeds.pending, ?_, Moment.Follows.still .done [] machines.tracks⟩
      exact congrArg (· ++ [diagnostics]) embeds.reported

theorem begin_follows {machine largerMachine : Machine}
    (embeds : machine.Embeds place largerMachine) (submission : Submission) :
    Moment.Follows place machine largerMachine (submission.begin machine)
      (submission.begin largerMachine) := by
  have root : place Arena.globalScope = Arena.globalScope := embeds.arena.root
  cases submission with
  | program statements =>
      have follows := Moment.Follows.still .done [.sequence Arena.globalScope statements]
        embeds.tracks
      rw [List.map_cons, Frame.relocate, root] at follows
      exact follows
  | expression value =>
      have follows := Moment.Follows.still (.evaluate Arena.globalScope value) [.print, .flush]
        embeds.tracks
      rw [Control.relocate, root] at follows
      exact follows

theorem next_follows (settings : Settings) (grounded : stage.moment.Grounded) (embeds : stage.Embeds place larger) :
    Option.Rel (Follows place stage.moment.machine larger.moment.machine) (stage.next settings)
      (larger.next settings.keeping) := by
  obtain ⟨active, moment, pending, reported⟩ := stage
  obtain ⟨largerActive, largerMoment, largerPending, largerReported⟩ := larger
  have moments := embeds.moment
  obtain rfl : largerActive = active := embeds.active
  obtain rfl : largerPending = pending := embeds.pending
  obtain rfl : largerReported = reported := embeds.reported
  cases largerActive with
  | none =>
      cases largerPending with
      | nil => exact .none
      | cons submission pending =>
          exact .some ⟨rfl, rfl, rfl, begin_follows moments.machine submission⟩
  | some submission =>
      have follows := Moment.next_follows settings grounded moments
      unfold next
      dsimp only
      rcases rel_cases follows with
        ⟨ended, largerEnded⟩ | ⟨later, largerLater, stepped, largerStepped, holds⟩
      · rw [ended, largerEnded]
        exact close_follows embeds submission
      · rw [stepped, largerStepped]
        exact .some ⟨rfl, rfl, rfl, holds⟩

end Stage

/-! ### Watched sessions -/

namespace Watched

variable {place : ScopeId → ScopeId} {watched larger : Watched} {settings : Settings}

/-- The place of each scope is its number. -/
structure Mirrors (place : ScopeId → ScopeId) (watched larger : Watched) : Prop where
  good : watched.Good
  stage : watched.stage.Embeds place larger.stage
  serials : ∀ id < watched.size, watched.serials[id]? = some (place id)
  opened : watched.opened = larger.size
  largerSerials : larger.serials = List.range larger.size
  largerOpened : larger.opened = larger.size

/-- There is a place for every scope under which it mirrors the larger session. -/
def Mirrored (watched larger : Watched) : Prop :=
  ∃ place, watched.Mirrors place larger

theorem mirrored_start (output : Output) (submissions : List Submission) :
    (start (.initial output) submissions).Mirrored (start (.initial output) submissions) := by
  have anchored : ∀ value, Value.relocate id value = value := by
    intro value
    cases value with
    | literal => rfl
    | callable function => cases function <;> rfl
  have relocated : ∀ scope, Scope.relocate id scope = scope := by
    intro scope
    obtain ⟨enclosing, bindings, captured⟩ := scope
    have links : enclosing.map id = enclosing := Option.map_id_apply
    have bound : Bindings.relocate id bindings = bindings := by
      unfold Bindings.relocate
      simp only [anchored]
      exact List.map_id' bindings
    rw [Scope.relocate, links, bound]
  refine ⟨id, good_start output submissions, ⟨rfl, rfl, rfl, rfl, rfl, ⟨?_, rfl, rfl⟩⟩, ?_, rfl,
    rfl, rfl⟩
  · refine ⟨rfl, fun _id _other before _behind => before, ?_⟩
    intro id scope found
    rw [relocated]
    exact found
  · intro id inside
    have bound : id < (Machine.initial output).arena.size := inside
    exact List.getElem?_range bound

theorem Mirrors.still (mirrors : watched.Mirrors place larger) {later largerLater : Stage}
    (good : (watched.observe later).Good) (embeds : later.Embeds place largerLater)
    (fewer : later.moment.machine.arena.size ≤ watched.size)
    (asMany : largerLater.moment.machine.arena.size = larger.size) :
    (watched.observe later).Mirrors place (larger.observe largerLater) := by
  rw [observe_of_le (Nat.le_of_eq asMany)]
  refine ⟨good, embeds, ?_, ?_, ?_, ?_⟩
  · intro id inside
    have behind : id < later.moment.machine.arena.size := inside
    rw [observe_of_le fewer]
    exact (List.getElem?_take_of_lt behind).trans
      (mirrors.serials id (Nat.lt_of_lt_of_le behind fewer))
  · rw [observe_of_le fewer]
    exact mirrors.opened.trans asMany.symm
  · have length : larger.serials.length = larger.size := by
      rw [mirrors.largerSerials, List.length_range]
    change larger.serials.take largerLater.moment.machine.arena.size
      = List.range largerLater.moment.machine.arena.size
    rw [asMany, List.take_of_length_le (Nat.le_of_eq length)]
    exact mirrors.largerSerials
  · exact mirrors.largerOpened.trans asMany.symm

theorem Mirrors.opening (mirrors : watched.Mirrors place larger) {later largerLater : Stage}
    (good : (watched.observe later).Good)
    (embeds : later.Embeds
      (Arena.placeOpened place watched.stage.moment.machine.arena
        larger.stage.moment.machine.arena) largerLater)
    (more : later.moment.machine.arena.size = watched.size + 1)
    (largerMore : largerLater.moment.machine.arena.size = larger.size + 1) :
    (watched.observe later).Mirrors
      (Arena.placeOpened place watched.stage.moment.machine.arena
        larger.stage.moment.machine.arena) (larger.observe largerLater) := by
  have numbered := mirrors.good.numbered
  have largerNumbered : larger.serials.length = larger.size := by
    rw [mirrors.largerSerials, List.length_range]
  rw [observe_of_succ largerNumbered largerMore]
  refine ⟨good, embeds, ?_, ?_, ?_, ?_⟩
  · intro id inside
    have bound : id < watched.size + 1 := Nat.lt_of_lt_of_eq inside more
    rw [observe_of_succ numbered more]
    by_cases new : id = watched.size
    · rw [new, ← numbered, List.getElem?_concat_length, mirrors.opened, numbered]
      exact congrArg some (Arena.placeOpened_size place _ _).symm
    · have before : id < watched.size := Nat.lt_of_le_of_ne (Nat.le_of_lt_succ bound) new
      rw [List.getElem?_append_left (Nat.lt_of_lt_of_eq before numbered.symm),
        mirrors.serials id before, Arena.placeOpened_of_lt place _ before]
  · rw [observe_of_succ numbered more]
    exact (congrArg (· + 1) mirrors.opened).trans largerMore.symm
  · change larger.serials ++ [larger.opened] = List.range largerLater.moment.machine.arena.size
    rw [mirrors.largerSerials, mirrors.largerOpened, largerMore, List.range_succ]
  · exact (congrArg (· + 1) mirrors.largerOpened).trans largerMore.symm

theorem Mirrored.next (mirrored : watched.Mirrored larger) :
    Option.Rel Mirrored (watched.next settings) (larger.next settings.keeping) := by
  obtain ⟨place, mirrors⟩ := mirrored
  have follows := Stage.next_follows settings mirrors.good.grounded mirrors.stage
  rcases rel_cases follows with
    ⟨ended, largerEnded⟩ | ⟨later, largerLater, stepped, largerStepped, stages⟩
  · rw [Watched.next, Watched.next, ended, largerEnded]
    exact .none
  · have observed : watched.next settings = some (watched.observe later) := by
      rw [Watched.next, stepped]
      rfl
    have good := mirrors.good.next observed
    rw [observed, Watched.next, largerStepped]
    refine .some ?_
    rcases stages.moment with ⟨embeds, fewer, asMany⟩ | ⟨embeds, more, largerMore⟩
    · exact ⟨_, mirrors.still good
        ⟨stages.active, stages.pending, stages.reported, embeds⟩ fewer asMany⟩
    · exact ⟨_, mirrors.opening good
        ⟨stages.active, stages.pending, stages.reported, embeds⟩ more largerMore⟩

theorem Mirrored.after (mirrored : watched.Mirrored larger) (steps : Nat) :
    Option.Rel Mirrored (watched.after settings steps) (larger.after settings.keeping steps) :=
  afterSteps_related (fun _ _ mirrored => mirrored.next) steps mirrored

theorem Mirrored.view_eq (mirrored : watched.Mirrored larger) : larger.view = watched.view := by
  obtain ⟨place, mirrors⟩ := mirrored
  have moments := mirrors.stage.moment
  have grounded := mirrors.good.grounded
  have numbers : larger.stage.moment.owner?.map (·.bind (larger.serials[·]?))
      = watched.stage.moment.owner?.map (·.bind (watched.serials[·]?)) := by
    rw [moments.owner?_eq grounded]
    cases owned : watched.stage.moment.owner? with
    | none => rfl
    | some found =>
        cases found with
        | none => rfl
        | some owner =>
            have inside : owner < watched.size := Moment.owner?_inside owned
            have placed : place owner < larger.size := moments.machine.arena.place_lt inside
            have larger : larger.serials[place owner]? = some (place owner) := by
              rw [mirrors.largerSerials]
              exact List.getElem?_range placed
            exact congrArg some (larger.trans (mirrors.serials owner inside).symm)
  unfold view
  rw [mirrors.stage.reported, moments.machine.output, moments.same?_eq grounded, numbers]

theorem after_stage (settings : Settings) (steps : Nat) (watched : Watched) :
    (watched.after settings steps).map Watched.stage = watched.stage.after settings steps := by
  induction steps generalizing watched with
  | zero => rfl
  | succ steps ih =>
      unfold after Stage.after at ih ⊢
      rw [afterSteps, afterSteps, next]
      cases watched.stage.next settings with
      | none => rfl
      | some later => exact ih (watched.observe later)

end Watched

/-! ### Sessions -/

namespace Stage

variable {place : ScopeId → ScopeId} {stage larger : Stage}

theorem Embeds.finished_iff (embeds : stage.Embeds place larger)
    (reports : List (List Diagnostic)) :
    stage = finished stage.moment.machine reports ↔
      larger = finished larger.moment.machine reports := by
  obtain ⟨active, ⟨control, frames, machine⟩, pending, reported⟩ := stage
  obtain ⟨largerActive, ⟨largerControl, largerFrames, largerMachine⟩, largerPending,
    largerReported⟩ := larger
  obtain ⟨sameActive, samePending, sameReported, sameControl, sameFrames, machines⟩ := embeds
  dsimp only at sameActive samePending sameReported sameControl sameFrames
  subst sameActive samePending sameReported sameControl sameFrames
  constructor
  · intro ends
    cases ends
    rfl
  · intro ends
    unfold finished at ends
    rw [Stage.mk.injEq, Moment.mk.injEq, List.map_eq_nil_iff] at ends
    obtain ⟨rfl, ⟨atEnd, rfl, _machine⟩, rfl, rfl⟩ := ends
    cases control with
    | done => rfl
    | evaluate | execute | bind | value | interrupted => cases atEnd

end Stage

namespace Session

/-- The session, with its machine, in which nothing is taken away. -/
theorem ran_output_iff (session : Session) (submissions : List Submission)
    (reports : List (List Diagnostic)) (output : Output) :
    (∃ later, session.Ran submissions reports later ∧ later.machine.output = output) ↔
      ∃ steps stage, (Stage.start session.machine submissions).after session.settings steps
        = some stage ∧ stage = .finished stage.moment.machine reports ∧
          stage.moment.machine.output = output := by
  constructor
  · intro holds
    rcases holds with ⟨later, ran, printed⟩
    obtain ⟨⟨steps, arrived⟩, _same⟩ := finishes_of_ran ran []
    exact ⟨steps, _, arrived, rfl, printed⟩
  · intro whole
    rcases whole with ⟨steps, stage, arrived, ends, printed⟩
    rw [ends] at arrived
    exact ⟨_, (ran_iff session submissions reports stage.moment.machine).mpr ⟨steps, arrived⟩,
      printed⟩

end Session

/-- Taking scopes away is unobservable. At every stage of every session, the session in which nothing
is taken away has reported and printed the same, finds the name at hand in the same scope, and
compares the operands at hand alike; and the one session ends with some reports and some output
exactly when the other does. -/
theorem reclaiming_unobservable (settings : Settings) (output : Output)
    (submissions : List Submission) :
    (∀ steps,
      ((Watched.start (.initial output) submissions).after settings steps).map Watched.view
        = ((Watched.start (.initial output) submissions).after settings.keeping steps).map
            Watched.view) ∧
    ∀ reports printed,
      (∃ later, (Session.start settings output).Ran submissions reports later ∧
        later.machine.output = printed) ↔
      (∃ later, (Session.start settings.keeping output).Ran submissions reports later ∧
        later.machine.output = printed) := by
  have mirrored := Watched.mirrored_start output submissions
  have follows : ∀ steps, Option.Rel Watched.Mirrored
      ((Watched.start (.initial output) submissions).after settings steps)
      ((Watched.start (.initial output) submissions).after settings.keeping steps) :=
    fun steps => mirrored.after steps
  constructor
  · intro steps
    rcases rel_cases (follows steps) with
      ⟨ended, keptEnded⟩ | ⟨later, keptLater, arrived, keptArrived, mirrors⟩
    · rw [ended, keptEnded]
    · rw [arrived, keptArrived]
      exact congrArg some mirrors.view_eq.symm
  · intro reports printed
    rw [Session.ran_output_iff, Session.ran_output_iff]
    refine exists_congr fun steps => ?_
    have stages := Watched.after_stage settings steps
      (Watched.start (.initial output) submissions)
    have keptStages := Watched.after_stage settings.keeping steps
      (Watched.start (.initial output) submissions)
    change _ = (Stage.start (.initial output) submissions).after settings steps at stages
    change _ = (Stage.start (.initial output) submissions).after settings.keeping steps
      at keptStages
    change (∃ stage, (Stage.start (.initial output) submissions).after settings steps
        = some stage ∧ _) ↔ ∃ stage,
      (Stage.start (.initial output) submissions).after settings.keeping steps = some stage ∧ _
    rw [← stages, ← keptStages]
    rcases rel_cases (follows steps) with
      ⟨ended, keptEnded⟩ | ⟨later, keptLater, arrived, keptArrived, mirrors⟩
    · rw [ended, keptEnded]
    · rw [arrived, keptArrived]
      obtain ⟨place, mirrors⟩ := mirrors
      have printedSame := mirrors.stage.moment.machine.output
      constructor
      · intro holds
        rcases holds with ⟨stage, same, ends, prints⟩
        cases same
        exact ⟨keptLater.stage, rfl, (mirrors.stage.finished_iff reports).mp ends,
          printedSame.trans prints⟩
      · intro whole
        rcases whole with ⟨stage, same, ends, prints⟩
        cases same
        exact ⟨later.stage, rfl, (mirrors.stage.finished_iff reports).mpr ends,
          printedSame.symm.trans prints⟩

end Lox
