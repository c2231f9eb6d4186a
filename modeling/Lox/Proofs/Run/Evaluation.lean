import Lox.Proofs.Run.Agreement
set_option autoImplicit false

/-! The evaluator agrees with the moments at every node of a tree, and so as a whole. -/

namespace Lox

open Moment

/-- An evaluator whose work at one level agrees with the moments. -/
structure Evaluator.Agrees (settings : Settings) (bound : Nat) (worker : Evaluator) : Prop where
  evaluate : ∀ scope expression,
    Carries settings bound (worker.evaluate scope expression)
      (fun frames machine => ⟨.evaluate scope expression, frames, machine⟩) .value
  execute : ∀ scope statement,
    Carries settings bound (worker.execute scope statement)
      (fun frames machine => ⟨.execute scope statement, frames, machine⟩) fun _ => .done
  rounds : worker.rounds = bound

namespace Evaluator.Agrees

variable {settings : Settings} {bound : Nat} {worker : Evaluator}

theorem executeAll (agrees : worker.Agrees settings bound) (scope : ScopeId)
    (statements : List Stmt) :
    Carries settings bound (worker.executeAll scope statements)
      (fun frames machine => ⟨.done, .sequence scope statements :: frames, machine⟩)
      fun _ => .done := by
  induction statements with
  | nil =>
      exact Carries.stepped (fun _frames _machine => rfl)
        Carries.done
  | cons first others ih =>
      refine Carries.stepped (fun _frames _machine => rfl) ?_
      refine Carries.bind (fun _ _ _ => rfl) (agrees.execute scope first) ?_
      intro _done
      exact ih

theorem executeBlock (agrees : worker.Agrees settings bound) (scope : ScopeId)
    (statements : List Stmt) :
    Carries settings bound (worker.executeBlock settings scope statements)
      (fun frames machine =>
        ⟨.done, .sequence scope statements :: .body scope :: frames, machine⟩)
      fun _ => .done :=
  Carries.releasing [.sequence scope statements] (agrees.executeAll scope statements)

theorem defineAll (settings : Settings) (scope : ScopeId) (parameters : List Token) (arguments : List Value)
    (frames : List Frame) (machine : Machine) :
    ∃ later, Evaluator.defineAll scope parameters arguments machine = .ok () later ∧
      Reaches settings ⟨.bind scope parameters arguments, frames, machine⟩
        ⟨.done, frames, later⟩ := by
  induction parameters generalizing arguments machine with
  | nil => exact ⟨machine, rfl, Reaches.step rfl (Reaches.refl _)⟩
  | cons parameter parameters ih =>
      cases arguments with
      | nil => exact ⟨machine, rfl, Reaches.step rfl (Reaches.refl _)⟩
      | cons argument arguments =>
          obtain ⟨later, bound, reached⟩ :=
            ih arguments
              { machine with
                arena := machine.arena.define scope parameter.lexeme argument }
          exact ⟨later, bound, Reaches.step rfl reached⟩

theorem invoke (agrees : worker.Agrees settings bound) (arguments : List Value)
    (function : Callable) :
    Carries settings bound (worker.invoke settings arguments function)
      (fun frames machine => invokeNext settings arguments frames machine function) .value := by
  cases function with
  | clock => exact Carries.pure (Value.number settings.time)
  | closure declaration closure =>
      intro frames machine
      let scope := machine.arena.size
      let opened : Machine := { machine with arena := (machine.arena.push closure).2 }
      have body : Carries settings bound
          (Run.returned (worker.executeBlock settings scope declaration.body))
          (fun frames machine =>
            ⟨.done, .sequence scope declaration.body :: .body scope :: .result :: frames,
              machine⟩) .value :=
        Carries.returned [.sequence scope declaration.body, .body scope]
          (agrees.executeBlock scope declaration.body)
      obtain ⟨later, bound, reached⟩ :=
        defineAll settings scope declaration.parameters arguments
          (.sequence scope declaration.body :: .body scope :: .result :: frames) opened
      have outcome := Meets.of_reaches reached (body frames later)
      change Meets settings _ _ frames .value
        (EStateM.bind (Evaluator.defineAll scope declaration.parameters arguments)
          (fun _ => Run.returned (worker.executeBlock settings scope declaration.body)) opened)
      unfold EStateM.bind
      rw [bound]
      exact outcome

/-- A call behind its arguments: their number is checked, then the depth of calls. -/
def called (worker : Evaluator) (settings : Settings) (paren : Token) (function : Callable)
    (arguments : List Value) : Run Value :=
  if arguments.length = function.arity then
    Run.counted settings (worker.invoke settings arguments function)
  else Run.fail paren.line (.wrongArity function.arity arguments.length)

theorem called_carries (agrees : worker.Agrees settings bound) (scope : ScopeId) (paren : Token)
    (function : Callable) (given : List Value) :
    Carries settings bound (called worker settings paren function given)
      (fun frames machine => argumentNext settings scope paren function given frames machine [])
      .value := by
  unfold called argumentNext
  by_cases fits : given.length = function.arity
  · simp only [if_pos fits]
    exact Carries.counted (agrees.invoke given function)
  · simp only [if_neg fits]
    exact Carries.throw _ (fun short => nomatch short)

/-- The induction is on the arguments still to be evaluated; those already given are kept by the
frame. -/
theorem arguments (agrees : worker.Agrees settings bound) (scope : ScopeId) (paren : Token)
    (function : Callable) (given : List Value) (others : List Expr) :
    Carries settings bound
      (worker.evaluateAll scope others >>= fun rest =>
        called worker settings paren function (given ++ rest))
      (fun frames machine =>
        argumentNext settings scope paren function given frames machine others)
      .value := by
  induction others generalizing given with
  | nil =>
      have all := agrees.called_carries scope paren function given
      simpa only [Evaluator.evaluateAll, pure_bind, List.append_nil] using all
  | cons argument others ih =>
      simp only [Evaluator.evaluateAll, bind_assoc, pure_bind]
      refine Carries.bind (fun _ _ _ => rfl) (agrees.evaluate scope argument) ?_
      intro value
      refine Carries.stepped (fun _frames _machine => rfl) ?_
      simpa only [List.append_assoc, List.singleton_append] using ih (given ++ [value])

theorem call (agrees : worker.Agrees settings bound) (scope : ScopeId) (callee : Expr)
    (paren : Token) (arguments : List Expr) :
    Carries settings (bound + 1)
      (worker.evaluateNode settings scope (.call callee paren arguments))
      (fun frames machine => ⟨.evaluate scope (.call callee paren arguments), frames, machine⟩)
      .value := by
  refine Carries.step (fun _frames _machine => rfl) ?_
  refine Carries.bind (fun _ _ _ => rfl) (agrees.evaluate scope callee) ?_
  intro value
  cases value with
  | literal value =>
      exact Carries.stepped (fun _frames _machine => rfl)
        (Carries.throw _ (fun short => nomatch short))
  | callable function =>
      refine Carries.stepped (fun _frames _machine => rfl) ?_
      exact agrees.arguments scope paren function [] arguments

theorem evaluateNode (agrees : worker.Agrees settings bound) (scope : ScopeId)
    (expression : Expr) :
    Carries settings (bound + 1) (worker.evaluateNode settings scope expression)
      (fun frames machine => ⟨.evaluate scope expression, frames, machine⟩) .value := by
  cases expression with
  | literal value =>
      exact Carries.step (fun _frames _machine => rfl) (Carries.pure (Value.literal value))
  | «variable» name =>
      exact Carries.perform (fun _frames _machine => rfl) (Run.lookup_settles scope name)
  | assign name value =>
      refine Carries.step (fun _frames _machine => rfl) ?_
      refine Carries.bind (fun _ _ _ => rfl) (agrees.evaluate scope value) ?_
      intro value
      apply Carries.thenPure
      exact Carries.perform (fun _frames _machine => rfl) (Run.assign_settles scope name value)
  | unary operator operand =>
      refine Carries.step (fun _frames _machine => rfl) ?_
      refine Carries.bind (fun _ _ _ => rfl) (agrees.evaluate scope operand) ?_
      intro value
      exact Carries.perform (fun _frames _machine => rfl) (Run.applyUnary_settles operator value)
  | binary left operator right =>
      refine Carries.step (fun _frames _machine => rfl) ?_
      refine Carries.bind (fun _ _ _ => rfl) (agrees.evaluate scope left) ?_
      intro leftValue
      refine Carries.stepped (fun _frames _machine => rfl) ?_
      refine Carries.bind (fun _ _ _ => rfl) (agrees.evaluate scope right) ?_
      intro rightValue
      exact Carries.perform (fun _frames _machine => rfl)
        (Run.applyBinary_settles operator leftValue rightValue)
  | logical left operator right =>
      refine Carries.step (fun _frames _machine => rfl) ?_
      refine Carries.bind (fun _ _ _ => rfl) (agrees.evaluate scope left) ?_
      intro value
      dsimp only
      by_cases settled :
          (if operator.kind == .orWord then value.isTruthy else !value.isTruthy) = true
      · rw [if_pos settled]
        refine Carries.stepped (fun _frames _machine => ?_) (Carries.pure value)
        exact if_pos settled
      · rw [if_neg settled]
        refine Carries.stepped (fun _frames _machine => ?_) (agrees.evaluate scope right)
        exact if_neg settled
  | conditional condition question thenBranch elseBranch =>
      refine Carries.step (fun _frames _machine => rfl) ?_
      refine Carries.bind (fun _ _ _ => rfl) (agrees.evaluate scope condition) ?_
      intro value
      have refused : ∀ start : List Frame → Machine → Moment,
          (∀ frames machine, (start frames machine).next settings
            = some ⟨.interrupted (.failure ⟨question.line, .notBoolean⟩), frames, machine⟩) →
          Carries settings bound (Run.fail question.line .notBoolean) start .value :=
        fun start stepped =>
          Carries.stepped stepped (Carries.throw _ (fun short => nomatch short))
      cases value with
      | callable function => exact refused _ (fun _frames _machine => rfl)
      | literal value =>
          cases value with
          | nil | number | string => exact refused _ (fun _frames _machine => rfl)
          | bool truth =>
              cases truth with
              | true =>
                  exact Carries.stepped (fun _frames _machine => rfl)
                    (agrees.evaluate scope thenBranch)
              | false =>
                  exact Carries.stepped (fun _frames _machine => rfl)
                    (agrees.evaluate scope elseBranch)
  | call callee paren arguments => exact agrees.call scope callee paren arguments
  | grouping inner =>
      exact Carries.step (fun _frames _machine => rfl) (agrees.evaluate scope inner)

theorem evaluateOptional (agrees : worker.Agrees settings bound) (scope : ScopeId)
    (value : Option Expr) :
    Carries settings bound (worker.evaluateOptional scope value)
      (fun frames machine => optionalNext scope frames machine value) .value := by
  cases value with
  | none => exact Carries.pure Value.nil
  | some value => exact agrees.evaluate scope value

/-- A loop that is cut short has gone at least as many rounds as it was allowed. -/
theorem loop (agrees : worker.Agrees settings bound) (scope : ScopeId) (condition : Expr)
    (body : Stmt) (rounds : Nat) (within : rounds ≤ bound) :
    Carries settings rounds
      (Run.loop (worker.isTrue scope condition) (worker.execute scope body) rounds)
      (fun frames machine =>
        ⟨.evaluate scope condition, .condition scope condition body :: frames, machine⟩)
      fun _ => .done := by
  induction rounds with
  | zero => exact fun _frames _machine => rfl
  | succ rounds ih =>
      unfold Run.loop Evaluator.isTrue
      simp only [bind_assoc, pure_bind]
      refine Carries.bind (fun _ _ _ => rfl) ((agrees.evaluate scope condition).mono within) ?_
      intro value
      by_cases holds : value.isTruthy = true
      · simp only [if_pos holds]
        have round : Carries settings rounds
            (do
              worker.execute scope body
              Run.loop (worker.isTrue scope condition) (worker.execute scope body) rounds)
            (fun frames machine =>
              ⟨.execute scope body, .round scope condition body :: frames, machine⟩)
            fun _ => .done := by
          refine Carries.bind (fun _ _ _ => rfl)
            ((agrees.execute scope body).mono (Nat.le_of_succ_le within)) ?_
          intro _done
          exact Carries.stepped (fun _frames _machine => rfl) (ih (Nat.le_of_succ_le within))
        exact Carries.step (fun _frames _machine => if_pos holds) round
      · simp only [if_neg holds]
        exact Carries.stepped (fun _frames _machine => if_neg holds)
          Carries.done

theorem executeNode (agrees : worker.Agrees settings bound) (scope : ScopeId)
    (statement : Stmt) :
    Carries settings (bound + 1) (worker.executeNode settings scope statement)
      (fun frames machine => ⟨.execute scope statement, frames, machine⟩) fun _ => .done := by
  cases statement with
  | expression value =>
      refine Carries.step (fun _frames _machine => rfl) ?_
      refine Carries.bind (fun _ _ _ => rfl) (agrees.evaluate scope value) ?_
      intro value
      exact Carries.stepped (fun _frames _machine => rfl)
        Carries.done
  | print value =>
      refine Carries.step (fun _frames _machine => rfl) ?_
      refine Carries.bind (fun _ _ _ => rfl) (agrees.evaluate scope value) ?_
      intro value
      exact Carries.perform (fun _frames _machine => rfl) (Run.print_settles value)
  | returning keyword value =>
      refine Carries.step (fun _frames _machine => rfl) ?_
      refine Carries.bindFrom (fun _ _ _ => rfl) (agrees.evaluateOptional scope value) ?_
      intro value
      exact Carries.stepped (fun _frames _machine => rfl)
        (Carries.throw _ (fun short => nomatch short))
  | «variable» name initializer =>
      refine Carries.step (fun _frames _machine => rfl) ?_
      refine Carries.bindFrom (fun _ _ _ => rfl) (agrees.evaluateOptional scope initializer) ?_
      intro value
      exact Carries.perform (fun _frames _machine => rfl) (fun _ _ short => nomatch short)
  | function label name parameters body =>
      exact Carries.perform (fun _frames _machine => rfl) (fun _ _ short => nomatch short)
  | block statements =>
      intro frames machine
      exact Meets.step rfl (agrees.executeBlock machine.arena.size statements frames
        { machine with arena := (machine.arena.push scope).2 })
  | branch condition thenBranch elseBranch =>
      unfold Evaluator.executeNode Evaluator.isTrue
      simp only [bind_assoc, pure_bind]
      refine Carries.step (fun _frames _machine => rfl) ?_
      refine Carries.bind (fun _ _ _ => rfl) (agrees.evaluate scope condition) ?_
      intro value
      by_cases holds : value.isTruthy = true
      · simp only [if_pos holds]
        exact Carries.stepped (fun _frames _machine => if_pos holds)
          (agrees.execute scope thenBranch)
      · simp only [if_neg holds]
        cases elseBranch with
        | none =>
            exact Carries.stepped (fun _frames _machine => if_neg holds)
              Carries.done
        | some elseBranch =>
            exact Carries.stepped (fun _frames _machine => if_neg holds)
              (agrees.execute scope elseBranch)
  | loop condition body =>
      refine Carries.step (fun _frames _machine => rfl) ?_
      unfold Evaluator.executeNode
      rw [agrees.rounds]
      exact agrees.loop scope condition body bound (Nat.le_refl bound)

end Evaluator.Agrees

/-- Every level of evaluation is matched by at least one step. -/
theorem evaluator_agrees (settings : Settings) (steps : Nat) :
    (evaluator settings steps).Agrees settings steps := by
  induction steps with
  | zero =>
      rw [evaluator_zero]
      exact ⟨fun _ _ _ _ => rfl, fun _ _ _ _ => rfl, rfl⟩
  | succ steps ih =>
      rw [evaluator_succ]
      exact ⟨ih.evaluateNode, ih.executeNode, rfl⟩

end Lox
