import Lox.Proofs.Grammar.Runnable
import Lox.Proofs.Run.Course
import Lox.Proofs.Scope.Rooted
set_option autoImplicit false

/-! Runs of runnable trees. Every function in reach has a runnable body, so no operator is met that
names no operation, and a `return` on its way passes through statements only until it comes to the
body of a function. One step keeps this, and so does a whole session. -/

namespace Lox

/-- A function that can be called without getting stuck. -/
def Value.Runnable : Value → Prop
  | .callable (.closure declaration _) =>
    declaration.parameters.length ≤ Grammar.maxItems ∧
      ∀ statement ∈ declaration.body, statement.Runnable true
  | _ => True

/-- Every value that some scope binds is runnable. -/
def Machine.Runnable (machine : Machine) : Prop :=
  ∀ value, machine.arena.Holds value → value.Runnable

/-- Whether a `return` from the work above would end a function body before it comes to an
expression. -/
def catches : List Frame → Bool
  | .result :: _ => true
  | .body _ :: frames => catches frames
  | .sequence _ _ :: frames => catches frames
  | .round _ _ _ :: frames => catches frames
  | _ => false

/-- What a frame still has to do can be done over the frames below. -/
def Frame.Fits (below : List Frame) : Frame → Prop
  | .unary operator => operator.kind ∈ TokenKind.unaryOperators
  | .binaryLeft _ operator right =>
    operator.kind ∈ TokenKind.binaryOperators ∧ right.Runnable
  | .binaryRight operator _ => operator.kind ∈ TokenKind.binaryOperators
  | .logical _ _ right => right.Runnable ∧ catches below = false
  | .conditional _ _ thenBranch elseBranch =>
    thenBranch.Runnable ∧ elseBranch.Runnable ∧ catches below = false
  | .callee _ _ arguments => ∀ argument ∈ arguments, argument.Runnable
  | .argument _ _ function given others =>
    (Value.callable function).Runnable ∧ (∀ value ∈ given, value.Runnable) ∧
      ∀ argument ∈ others, argument.Runnable
  | .returning => catches below = true
  | .sequence _ others => ∀ statement ∈ others, statement.Runnable (catches below)
  | .branch _ thenBranch elseBranch =>
    thenBranch.Runnable (catches below) ∧
      ∀ other ∈ elseBranch, other.Runnable (catches below)
  | .condition _ decides repeats => decides.Runnable ∧ repeats.Runnable (catches below)
  | .round _ decides repeats => decides.Runnable ∧ repeats.Runnable (catches below)
  | _ => True

def Fitting : List Frame → Prop
  | [] => True
  | frame :: below => frame.Fits below ∧ Fitting below

/-- An evaluation waits in no statement, and a `return` goes to the end of a function body. -/
def Control.Fits (frames : List Frame) : Control → Prop
  | .evaluate _ expression => expression.Runnable ∧ catches frames = false
  | .execute _ statement => statement.Runnable (catches frames)
  | .bind _ _ arguments => ∀ value ∈ arguments, value.Runnable
  | .value result => result.Runnable
  | .done => True
  | .interrupted (.returning result) => result.Runnable ∧ catches frames = true
  | .interrupted .stuck => False
  | .interrupted _ => True

structure Moment.Runs (moment : Moment) : Prop where
  machine : moment.machine.Runnable
  control : moment.control.Fits moment.frames
  frames : Fitting moment.frames

namespace Machine.Runnable

variable {machine : Machine}

theorem of_arena {other : Machine} (runnable : machine.Runnable)
    (same : other.arena = machine.arena) : other.Runnable := by
  intro value holds
  rw [same] at holds
  exact runnable value holds

theorem define (runnable : machine.Runnable) (scope : ScopeId) (name : String) {value : Value}
    (new : value.Runnable) :
    Machine.Runnable { machine with arena := machine.arena.define scope name value } := by
  intro meaning holds
  rcases Arena.holds_of_define holds with same | kept
  · rw [same]
    exact new
  · exact runnable meaning kept

theorem leave (runnable : machine.Runnable) (settings : Settings) (scope : ScopeId) :
    (machine.leave settings scope).Runnable := by
  unfold Machine.leave
  split
  · exact fun value holds => runnable value (Arena.holds_of_release holds)
  · exact runnable

end Machine.Runnable

/-! ### Actions -/

/-- An action keeps the machine runnable. It has a good result, or fails in a way that is neither
being stuck nor a `return`. -/
def Run.Succeeds {α : Type} (action : Run α) (machine : Machine) (good : α → Machine → Prop) :
    Prop :=
  match action machine with
  | .ok result later => later.Runnable ∧ good result later
  | .error interrupt later => later.Runnable ∧ ∀ frames, (Control.interrupted interrupt).Fits frames

namespace Run

variable {machine : Machine}

theorem lookup_succeeds (runnable : machine.Runnable) (scope : ScopeId) (name : Token) :
    (lookup scope name).Succeeds machine fun value _ => value.Runnable := by
  unfold Succeeds lookup
  cases found : machine.arena.get? scope name.lexeme with
  | none => exact ⟨runnable, fun _ => trivial⟩
  | some value => exact ⟨runnable, runnable value (Arena.holds_of_get? found)⟩

theorem assign_succeeds (runnable : machine.Runnable) (scope : ScopeId) (name : Token)
    {value : Value} (new : value.Runnable) :
    (assign scope name value).Succeeds machine fun _ _ => True := by
  have kept : ∀ meaning, (machine.arena.assign scope name.lexeme value).2.Holds meaning →
      meaning.Runnable := by
    intro meaning holds
    rcases Arena.holds_of_assign holds with same | kept
    · rw [same]
      exact new
    · exact runnable meaning kept
  unfold Succeeds assign
  cases assigned : machine.arena.assign scope name.lexeme value with
  | mk known arena =>
      rw [assigned] at kept
      cases known with
      | true => exact ⟨kept, trivial⟩
      | false => exact ⟨kept, fun _ => trivial⟩

theorem define_succeeds (runnable : machine.Runnable) (scope : ScopeId) (name : Token)
    {value : Value} (new : value.Runnable) :
    (define scope name value).Succeeds machine fun _ _ => True :=
  ⟨runnable.define scope name.lexeme new, trivial⟩

theorem push_succeeds (runnable : machine.Runnable) (enclosing : ScopeId) :
    (push enclosing).Succeeds machine fun _ _ => True :=
  ⟨fun value holds => runnable value (Arena.holds_of_push holds), trivial⟩

theorem declare_succeeds (runnable : machine.Runnable) (scope : ScopeId) (name : Token)
    {declaration : FunctionDeclaration}
    (new : (Value.callable (.closure declaration scope)).Runnable) :
    (do
      capture scope
      define scope name (.callable (.closure declaration scope)) : Run Unit).Succeeds machine
        fun _ _ => True := by
  have captured : Machine.Runnable { machine with arena := machine.arena.capture scope } :=
    fun value holds => runnable value (Arena.holds_of_capture holds)
  exact ⟨captured.define scope name.lexeme new, trivial⟩

theorem print_succeeds (runnable : machine.Runnable) (value : Value) :
    (print value).Succeeds machine fun _ _ => True := by
  unfold Succeeds print
  cases machine.output.write (value.text ++ "\n").toUTF8 with
  | mk output error =>
      cases error with
      | none => exact ⟨runnable.of_arena rfl, trivial⟩
      | some error => exact ⟨runnable.of_arena rfl, fun _ => trivial⟩

theorem flush_succeeds (runnable : machine.Runnable) :
    flush.Succeeds machine fun _ _ => True := by
  unfold Succeeds flush
  cases machine.output.flushError? with
  | none => exact ⟨runnable, trivial⟩
  | some error => exact ⟨runnable, fun _ => trivial⟩

end Run

theorem UnaryOperation.apply_runnable {operation : UnaryOperation} {operand value : Value}
    (applied : operation.apply operand = .ok value) : value.Runnable := by
  obtain ⟨literal, rfl⟩ := apply_literal applied
  trivial

theorem BinaryOperation.apply_runnable {operation : BinaryOperation} {left right value : Value}
    (applied : operation.apply left right = .ok value) : value.Runnable := by
  obtain ⟨literal, rfl⟩ := apply_literal applied
  trivial

namespace Run

variable {machine : Machine}

theorem ofOperation_succeeds (runnable : machine.Runnable) (line : Nat)
    {outcome : Except RuntimeError Value}
    (good : ∀ value, outcome = .ok value → value.Runnable) :
    (ofOperation line outcome).Succeeds machine fun value _ => value.Runnable := by
  cases outcome with
  | ok value => exact ⟨runnable, good value rfl⟩
  | error error => exact ⟨runnable, fun _ => trivial⟩

theorem applyUnary_succeeds (runnable : machine.Runnable) {operator : Token}
    (operates : operator.kind ∈ TokenKind.unaryOperators) (operand : Value) :
    (Evaluator.applyUnary operator operand).Succeeds machine fun value _ => value.Runnable := by
  obtain ⟨operation, named⟩ :=
    Option.isSome_iff_exists.mp ((UnaryOperation.ofKind?_isSome_iff _).mpr operates)
  unfold Evaluator.applyUnary
  rw [named]
  exact ofOperation_succeeds runnable _ fun _ applied => UnaryOperation.apply_runnable applied

theorem applyBinary_succeeds (runnable : machine.Runnable) {operator : Token}
    (operates : operator.kind ∈ TokenKind.binaryOperators) (left right : Value) :
    (Evaluator.applyBinary operator left right).Succeeds machine
      fun value _ => value.Runnable := by
  obtain ⟨operation, named⟩ :=
    Option.isSome_iff_exists.mp ((BinaryOperation.ofKind?_isSome_iff _).mpr operates)
  unfold Evaluator.applyBinary
  rw [named]
  exact ofOperation_succeeds runnable _ fun _ applied => BinaryOperation.apply_runnable applied

end Run

/-! ### Steps -/

namespace Moment

variable {settings : Settings} {scope : ScopeId} {frame : Frame} {frames : List Frame}
variable {machine : Machine} {later : Moment}

theorem perform_runs {α : Type} {action : Run α} {good : α → Machine → Prop}
    {proceed : α → Machine → Moment} (succeeds : action.Succeeds machine good)
    (fitting : Fitting frames)
    (goes : ∀ result later, later.Runnable → good result later → (proceed result later).Runs) :
    (perform action frames machine proceed).Runs := by
  unfold Run.Succeeds at succeeds
  unfold perform
  cases outcome : action machine with
  | ok result later =>
      rw [outcome] at succeeds
      exact goes result later succeeds.1 succeeds.2
  | error interrupt later =>
      rw [outcome] at succeeds
      exact ⟨succeeds.1, succeeds.2 frames, fitting⟩

theorem giving_runs {action : Run Value} (fitting : Fitting frames)
    (succeeds : action.Succeeds machine fun value _ => value.Runnable) :
    (giving action frames machine).Runs :=
  perform_runs succeeds fitting fun _ _ runnable good => ⟨runnable, good, fitting⟩

theorem completing_runs {action : Run Unit} (fitting : Fitting frames)
    (succeeds : action.Succeeds machine fun _ _ => True) :
    (completing action frames machine).Runs :=
  perform_runs succeeds fitting fun _ _ runnable _ => ⟨runnable, trivial, fitting⟩

theorem evaluateNext_runs (runnable : machine.Runnable) {expression : Expr}
    (evaluates : expression.Runnable) (apart : catches frames = false)
    (fitting : Fitting frames) : (evaluateNext scope frames machine expression).Runs := by
  cases evaluates with
  | literal value => exact ⟨runnable, trivial, fitting⟩
  | «variable» name => exact giving_runs fitting (Run.lookup_succeeds runnable scope name)
  | grouping only => exact ⟨runnable, ⟨only, apart⟩, fitting⟩
  | assign assigned => exact ⟨runnable, ⟨assigned, rfl⟩, trivial, fitting⟩
  | unary operates only => exact ⟨runnable, ⟨only, rfl⟩, operates, fitting⟩
  | binary operates first second =>
      exact ⟨runnable, ⟨first, rfl⟩, ⟨operates, second⟩, fitting⟩
  | logical _ first second => exact ⟨runnable, ⟨first, rfl⟩, ⟨second, apart⟩, fitting⟩
  | conditional decides first second =>
      exact ⟨runnable, ⟨decides, rfl⟩, ⟨first, second, apart⟩, fitting⟩
  | call calls _ given => exact ⟨runnable, ⟨calls, rfl⟩, given, fitting⟩

theorem optionalNext_runs (runnable : machine.Runnable) {value : Option Expr}
    (evaluates : ∀ given ∈ value, given.Runnable) (apart : catches frames = false)
    (fitting : Fitting frames) : (optionalNext scope frames machine value).Runs := by
  cases value with
  | none => exact ⟨runnable, trivial, fitting⟩
  | some given => exact ⟨runnable, ⟨evaluates given rfl, apart⟩, fitting⟩

theorem executeNext_runs (runnable : machine.Runnable) {statement : Stmt}
    (executes : statement.Runnable (catches frames)) (fitting : Fitting frames) :
    (executeNext scope frames machine statement).Runs := by
  generalize inside : catches frames = flag at executes
  cases executes with
  | expression evaluates => exact ⟨runnable, ⟨evaluates, rfl⟩, trivial, fitting⟩
  | print evaluates => exact ⟨runnable, ⟨evaluates, rfl⟩, trivial, fitting⟩
  | returning evaluates => exact optionalNext_runs runnable evaluates rfl ⟨inside, fitting⟩
  | «variable» evaluates => exact optionalNext_runs runnable evaluates rfl ⟨trivial, fitting⟩
  | function few runs =>
      exact completing_runs fitting (Run.declare_succeeds runnable scope _ ⟨few, runs⟩)
  | block runs =>
      subst inside
      rw [executeNext]
      apply perform_runs (Run.push_succeeds runnable scope) fitting
      exact fun inner later runnable _ => ⟨runnable, trivial, runs, trivial, fitting⟩
  | branch decides first second =>
      subst inside
      exact ⟨runnable, ⟨decides, rfl⟩, ⟨first, second⟩, fitting⟩
  | loop decides runs =>
      subst inside
      exact ⟨runnable, ⟨decides, rfl⟩, ⟨decides, runs⟩, fitting⟩

theorem bindNext_runs (runnable : machine.Runnable) (parameters : List Token)
    {arguments : List Value} (given : ∀ value ∈ arguments, value.Runnable)
    (fitting : Fitting frames) : (bindNext scope frames machine parameters arguments).Runs := by
  cases parameters with
  | nil => exact ⟨runnable, trivial, fitting⟩
  | cons parameter parameters =>
      cases arguments with
      | nil => exact ⟨runnable, trivial, fitting⟩
      | cons argument arguments =>
          obtain ⟨first, others⟩ := List.forall_mem_cons.mp given
          rw [bindNext]
          apply perform_runs (Run.define_succeeds runnable scope parameter first) fitting
          exact fun _ later runnable _ => ⟨runnable, others, fitting⟩

/-- The body of a function runs over a frame that ends it. -/
theorem invokeNext_runs (runnable : machine.Runnable) {function : Callable}
    (callable : (Value.callable function).Runnable) {arguments : List Value}
    (given : ∀ value ∈ arguments, value.Runnable) (fitting : Fitting frames) :
    (invokeNext settings arguments frames machine function).Runs := by
  cases function with
  | clock => exact ⟨runnable, trivial, fitting⟩
  | closure declaration closure =>
      rw [invokeNext]
      apply perform_runs (Run.push_succeeds runnable closure) fitting
      exact fun inner later runnable _ => ⟨runnable, given, callable.2, trivial, trivial, fitting⟩

theorem argumentNext_runs (runnable : machine.Runnable) (paren : Token) {function : Callable}
    (callable : (Value.callable function).Runnable) {given : List Value}
    (values : ∀ value ∈ given, value.Runnable) {others : List Expr}
    (evaluates : ∀ argument ∈ others, argument.Runnable) (fitting : Fitting frames) :
    (argumentNext settings scope paren function given frames machine others).Runs := by
  cases others with
  | cons argument others =>
      obtain ⟨first, rest⟩ := List.forall_mem_cons.mp evaluates
      exact ⟨runnable, ⟨first, rfl⟩, ⟨callable, values, rest⟩, fitting⟩
  | nil =>
      have waiting : Fitting (.call :: frames) := ⟨trivial, fitting⟩
      have entered : machine.enterCall.Runnable := runnable.of_arena rfl
      rw [argumentNext]
      split
      · split
        · exact ⟨runnable, trivial, fitting⟩
        · exact invokeNext_runs entered callable values waiting
      · exact ⟨runnable, trivial, fitting⟩

theorem valueNext_runs (runnable : machine.Runnable) {value : Value} (good : value.Runnable)
    (fits : frame.Fits frames) (fitting : Fitting frames)
    (stepped : valueNext settings value frames machine frame = some later) : later.Runs := by
  cases frame with
  | assign works name =>
      cases stepped
      apply perform_runs (Run.assign_succeeds runnable works name good) fitting
      exact fun _ later runnable _ => ⟨runnable, good, fitting⟩
  | unary operator =>
      cases stepped
      exact giving_runs fitting (Run.applyUnary_succeeds runnable fits value)
  | binaryLeft works operator right =>
      cases stepped
      exact ⟨runnable, ⟨fits.2, rfl⟩, fits.1, fitting⟩
  | binaryRight operator left =>
      cases stepped
      exact giving_runs fitting (Run.applyBinary_succeeds runnable fits left value)
  | logical works operator right =>
      by_cases settled :
          (if operator.kind == .orWord then value.isTruthy else !value.isTruthy) = true
      · simp only [valueNext, if_pos settled] at stepped
        cases stepped
        exact ⟨runnable, good, fitting⟩
      · simp only [valueNext, if_neg settled] at stepped
        cases stepped
        exact ⟨runnable, fits, fitting⟩
  | conditional works question thenBranch elseBranch =>
      obtain ⟨first, second, apart⟩ := fits
      simp only [valueNext] at stepped
      split at stepped <;> cases stepped
      · exact ⟨runnable, ⟨first, apart⟩, fitting⟩
      · exact ⟨runnable, ⟨second, apart⟩, fitting⟩
      · exact ⟨runnable, trivial, fitting⟩
  | callee works paren arguments =>
      cases value with
      | literal value =>
          cases stepped
          exact ⟨runnable, trivial, fitting⟩
      | callable function =>
          cases stepped
          exact argumentNext_runs runnable paren good (by simp) fits fitting
  | argument works paren function given others =>
      cases stepped
      obtain ⟨callable, values, evaluates⟩ := fits
      have all : ∀ other ∈ given ++ [value], other.Runnable := by
        simpa [or_imp, forall_and] using ⟨values, good⟩
      exact argumentNext_runs runnable paren callable all evaluates fitting
  | call =>
      cases stepped
      exact ⟨runnable.of_arena rfl, good, fitting⟩
  | discard =>
      cases stepped
      exact ⟨runnable, trivial, fitting⟩
  | print =>
      cases stepped
      exact completing_runs fitting (Run.print_succeeds runnable value)
  | returning =>
      cases stepped
      exact ⟨runnable, ⟨good, fits⟩, fitting⟩
  | «variable» works name =>
      cases stepped
      exact completing_runs fitting (Run.define_succeeds runnable works name good)
  | branch works thenBranch elseBranch =>
      simp only [valueNext] at stepped
      split at stepped
      · cases stepped
        exact ⟨runnable, fits.1, fitting⟩
      · cases elseBranch with
        | none =>
            cases stepped
            exact ⟨runnable, trivial, fitting⟩
        | some other =>
            cases stepped
            exact ⟨runnable, fits.2 other rfl, fitting⟩
  | condition works decides body =>
      simp only [valueNext] at stepped
      split at stepped
      · cases stepped
        exact ⟨runnable, fits.2, fits, fitting⟩
      · cases stepped
        exact ⟨runnable, trivial, fitting⟩
  | result | body | flush | sequence | round => cases stepped

theorem doneNext_runs (runnable : machine.Runnable) (fits : frame.Fits frames)
    (fitting : Fitting frames) (stepped : doneNext settings frames machine frame = some later) :
    later.Runs := by
  cases frame with
  | result =>
      cases stepped
      exact ⟨runnable, trivial, fitting⟩
  | body works =>
      cases stepped
      exact ⟨runnable.leave settings works, trivial, fitting⟩
  | flush =>
      cases stepped
      exact completing_runs fitting (Run.flush_succeeds runnable)
  | sequence works others =>
      cases others with
      | nil =>
          cases stepped
          exact ⟨runnable, trivial, fitting⟩
      | cons first others =>
          cases stepped
          obtain ⟨here, there⟩ := List.forall_mem_cons.mp fits
          exact ⟨runnable, here, there, fitting⟩
  | round works decides body =>
      cases stepped
      exact ⟨runnable, ⟨fits.1, rfl⟩, fits, fitting⟩
  | assign | unary | binaryLeft | binaryRight | logical | conditional | callee | argument | call
  | discard | print | returning | «variable» | branch | condition => cases stepped

/-- A `return` that some frame lets through is caught below. -/
theorem interruptNext_runs (runnable : machine.Runnable) {interrupt : Interrupt}
    (control : (Control.interrupted interrupt).Fits (frame :: frames))
    (fitting : Fitting frames) :
    (interruptNext settings interrupt frames machine frame).Runs := by
  cases interrupt with
  | stuck => exact control.elim
  | failure | callDepth | output | exhausted =>
      cases frame with
      | body works => exact ⟨runnable.leave settings works, trivial, fitting⟩
      | call => exact ⟨runnable.of_arena rfl, trivial, fitting⟩
      | _ => exact ⟨runnable, trivial, fitting⟩
  | returning value =>
      obtain ⟨good, caught⟩ := control
      cases frame with
      | result => exact ⟨runnable, good, fitting⟩
      | body works => exact ⟨runnable.leave settings works, ⟨good, caught⟩, fitting⟩
      | sequence | round => exact ⟨runnable, ⟨good, caught⟩, fitting⟩
      | assign | unary | binaryLeft | binaryRight | logical | conditional | callee | argument
      | call | discard | print | flush | returning | «variable» | branch | condition =>
          cases caught

theorem Runs.next {moment : Moment} (runs : moment.Runs)
    (stepped : moment.next settings = some later) : later.Runs := by
  obtain ⟨runnable, control, fitting⟩ := runs
  obtain ⟨work, frames, machine⟩ := moment
  cases work with
  | evaluate works expression =>
      cases stepped
      exact evaluateNext_runs runnable control.1 control.2 fitting
  | execute works statement =>
      cases stepped
      exact executeNext_runs runnable control fitting
  | bind works parameters arguments =>
      cases stepped
      exact bindNext_runs runnable parameters control fitting
  | value value =>
      cases frames with
      | nil => cases stepped
      | cons frame frames =>
          exact valueNext_runs runnable control fitting.1 fitting.2 stepped
  | done =>
      cases frames with
      | nil => cases stepped
      | cons frame frames => exact doneNext_runs runnable fitting.1 fitting.2 stepped
  | interrupted interrupt =>
      cases frames with
      | nil => cases stepped
      | cons frame frames =>
          cases stepped
          exact interruptNext_runs runnable control fitting.2

theorem Runs.reaches {moment : Moment} (runs : moment.Runs)
    (reached : Reaches settings moment later) : later.Runs := by
  obtain ⟨steps, arrived⟩ := reached
  exact afterSteps_keeps (fun _ _ runs stepped => Runs.next runs stepped) runs arrived

end Moment

/-! ### Sessions -/

namespace Submission

/-- What parsing gave, with the declarations of a program labelled from some number on. -/
inductive Parsed : Submission → Prop
  | program {tokens : List Token} {statements : List Stmt} (next : Nat)
      (parsed : parseProgram tokens = .ok statements) :
      Parsed (.program (Stmt.labelledAll next statements).1)
  | expression {tokens : List Token} {value : Expr} (parsed : parseExpression tokens = .ok value) :
      Parsed (.expression value)

def Runnable : Submission → Prop
  | program statements => ∀ statement ∈ statements, statement.Runnable false
  | expression value => value.Runnable

theorem Parsed.runnable {submission : Submission} (parsed : submission.Parsed) :
    submission.Runnable := by
  cases parsed with
  | program next parsed =>
      have runs := parseProgram_runnable parsed
      exact Stmt.runnable_labelledAll (fun statement member => (runs statement member).labelled) next
  | expression parsed => exact parseExpression_runnable parsed

theorem Runnable.begin {submission : Submission} (runs : submission.Runnable) {machine : Machine}
    (runnable : machine.Runnable) : (submission.begin machine).Runs := by
  cases submission with
  | program statements => exact ⟨runnable, trivial, runs, trivial⟩
  | expression value => exact ⟨runnable, ⟨runs, rfl⟩, trivial, trivial, trivial⟩

end Submission

theorem Machine.initial_runnable (output : Output) : (Machine.initial output).Runnable := by
  intro value holds
  rcases Arena.holds_of_define holds with clock | ⟨id, scope, name, found, member⟩
  · rw [clock]
    trivial
  · have atRoot : id < 1 := Arena.lt_size_of_getElem? found
    rw [Nat.lt_one_iff.mp atRoot] at found
    cases found
    cases member

namespace Moment

variable {settings : Settings} {moment : Moment}

theorem Runs.not_stuck (runs : moment.Runs) : moment.control ≠ .interrupted .stuck := by
  intro stuck
  have control := runs.control
  rw [stuck] at control
  exact control

/-- Where nothing waits any more, no `return` is on its way. -/
theorem Runs.errors_of_ended (runs : moment.Runs) (ended : moment.next settings = none)
    {errors : List Diagnostic} (told : moment.control.errors = .ok errors) :
    .strayReturn ∉ errors := by
  obtain ⟨_runnable, control, _fitting⟩ := runs
  obtain ⟨work, frames, machine⟩ := moment
  cases work with
  | interrupted interrupt =>
      cases frames with
      | cons frame frames => cases ended
      | nil =>
          cases interrupt with
          | stuck => exact control.elim
          | returning value => cases control.2
          | failure | callDepth | output =>
              cases told
              simp
          | exhausted => cases told
  | evaluate | execute | bind | value | done =>
      cases told
      simp

theorem Runs.verdict_of_ended (runs : moment.Runs) (ended : moment.next settings = none)
    {submission : Submission} {diagnostics : List Diagnostic}
    (judged : submission.verdict moment = .ok diagnostics) : .strayReturn ∉ diagnostics := by
  cases submission with
  | expression value => exact runs.errors_of_ended ended judged
  | program statements =>
      cases told : moment.control.errors with
      | error halt =>
          rw [Submission.verdict, told] at judged
          cases judged
      | ok errors =>
          rw [Submission.verdict, told] at judged
          cases judged
          simp [runs.errors_of_ended ended told]

/-- An evaluation that is about to begin does not end in a `return`. -/
theorem Runs.evaluate_ne_returning (runs : moment.Runs) {scope : ScopeId} {expression : Expr}
    (begins : moment.control = .evaluate scope expression) (steps : Nat) (value : Value)
    (later : Machine) :
    (evaluator settings steps).evaluate scope expression moment.machine
      ≠ .error (.returning value) later := by
  intro returned
  obtain ⟨control, frames, machine⟩ := moment
  subst begins
  have meets := (evaluator_agrees settings steps).evaluate scope expression frames machine
  rw [returned] at meets
  have caught := (runs.reaches meets).control.2
  rw [runs.control.2] at caught
  cases caught

end Moment

namespace Stage

structure Runs (stage : Stage) : Prop where
  moment : stage.moment.Runs
  pending : ∀ submission ∈ stage.pending, submission.Runnable

theorem Runs.next {settings : Settings} {stage later : Stage} (runs : stage.Runs)
    (stepped : stage.next settings = some later) : later.Runs := by
  obtain ⟨moment, pending⟩ := runs
  unfold Stage.next at stepped
  split at stepped
  · cases stepped
  · next submission others _none more =>
      cases stepped
      rw [more] at pending
      obtain ⟨first, rest⟩ := List.forall_mem_cons.mp pending
      exact ⟨first.begin moment.machine, rest⟩
  · split at stepped
    · next moved =>
        cases stepped
        exact ⟨moment.next moved, pending⟩
    · unfold close at stepped
      split at stepped
      · cases stepped
        exact ⟨⟨moment.machine, trivial, trivial⟩, pending⟩
      · cases stepped

end Stage

namespace Session

variable {session later : Session} {submission : Submission} {diagnostics : List Diagnostic}

theorem submit_runs (runnable : session.machine.Runnable) (runs : submission.Runnable) {steps : Nat}
    (answered : session.submit steps submission = .ok (diagnostics, later)) :
    later.machine.Runnable ∧ .strayReturn ∉ diagnostics := by
  obtain ⟨last, reached, ended, judged, rfl⟩ :=
    (submit_iff session later submission diagnostics).mp ⟨steps, answered⟩
  have lastRuns := (runs.begin runnable).reaches reached
  exact ⟨lastRuns.machine, lastRuns.verdict_of_ended ended judged⟩

theorem submit_ne_stuck (runnable : session.machine.Runnable) (runs : submission.Runnable)
    (steps : Nat) : session.submit steps submission ≠ .error .stuck := by
  have meets := submission.work_meets session.settings steps session.machine
  intro stuck
  rw [submit_eq] at stuck
  cases outcome : submission.work session.settings steps session.machine with
  | ok done machine =>
      rw [outcome] at stuck
      cases submission <;> cases stuck
  | error interrupt machine =>
      rw [outcome] at stuck meets
      cases interrupt with
      | stuck => exact ((runs.begin runnable).reaches meets).not_stuck rfl
      | failure | callDepth | returning | output | exhausted => cases submission <;> cases stuck

theorem Ran.runnable {submissions : List Submission} {reports : List (List Diagnostic)}
    (ran : session.Ran submissions reports later) (runnable : session.machine.Runnable)
    (runs : ∀ submission ∈ submissions, submission.Runnable) : later.machine.Runnable := by
  induction ran with
  | nil session => exact runnable
  | cons steps first _ ih =>
      obtain ⟨here, there⟩ := List.forall_mem_cons.mp runs
      exact ih (submit_runs runnable here first).1 there

end Session

end Lox
