import Lox.Proofs.Run.Course
set_option autoImplicit false

/-! What holds of every run. A property that the single actions have, and that actions keep when
they are put together, is one of all that the evaluator does. Such a property may be one of runs that
keep to some scopes and values. -/

namespace Lox

namespace Stmt

/-- The names that a statement declares in the scope that it is executed in. -/
def declaredNames : Stmt → List String
  | .variable name _ => [name.lexeme]
  | .function _ name _ _ => [name.lexeme]
  | .branch _ thenBranch none => thenBranch.declaredNames
  | .branch _ thenBranch (some elseBranch) => thenBranch.declaredNames ++ elseBranch.declaredNames
  | .loop _ body => body.declaredNames
  | _ => []

end Stmt

/-- What runs keep to: the values that they meet, the scopes that they use, the scopes that they
open themselves, and the names that they declare. -/
structure Terms where
  value : Value → Prop
  scope : ScopeId → Prop
  opened : ScopeId → Prop
  declares : ScopeId → String → Prop
  literal : ∀ literal, value (.literal literal)
  closure : ∀ declaration id, value (.callable (.closure declaration id)) ↔ scope id
  scope_of_opened : ∀ id, opened id → scope id
  declares_of_opened : ∀ id name, opened id → declares id name

/-- Runs that keep to nothing. -/
def Terms.any : Terms where
  value _ := True
  scope _ := True
  opened _ := True
  declares _ _ := True
  literal _ := trivial
  closure _ _ := Iff.rfl
  scope_of_opened _ _ := trivial
  declares_of_opened _ _ _ := trivial

namespace Run

/-- The primitive actions have the property and composition keeps it. The property also tells
something about the result. -/
structure Composes (terms : Terms) (good : {α : Type} → (α → Prop) → Run α → Prop) : Prop where
  pure : ∀ {α : Type} {post : α → Prop} (result : α), post result →
    good post (Pure.pure result : Run α)
  throw : ∀ {α : Type} {post : α → Prop} (interrupt : Interrupt),
    (∀ error, interrupt ≠ .output error) →
    (∀ value, interrupt = .returning value → terms.value value) →
    good post (MonadExcept.throw interrupt : Run α)
  bind : ∀ {α β : Type} {middle : α → Prop} {post : β → Prop} {first : Run α}
    {second : α → Run β}, good middle first →
    (∀ result, middle result → good post (second result)) → good post (first >>= second)
  lookup : ∀ scope name, terms.scope scope → good terms.value (lookup scope name)
  assign : ∀ scope name value, terms.scope scope → terms.value value →
    good (fun _ => True) (assign scope name value)
  define : ∀ scope name value, terms.scope scope → terms.declares scope name.lexeme →
    terms.value value → good (fun _ => True) (define scope name value)
  capture : ∀ scope, terms.scope scope → good (fun _ => True) (capture scope)
  push : ∀ enclosing, terms.scope enclosing → good terms.opened (push enclosing)
  print : ∀ value, good (fun _ => True) (print value)
  releasing : ∀ {α : Type} {post : α → Prop} {body : Run α} settings scope, terms.opened scope →
    good post body → good post (releasing settings scope body)
  counted : ∀ {α : Type} {post : α → Prop} {call : Run α} settings, good post call →
    good post (counted settings call)
  returned : ∀ {body : Run Unit}, good (fun _ => True) body → good terms.value (returned body)

end Run

/-- All that the evaluator does has the property. -/
structure Evaluator.All (terms : Terms) (good : {α : Type} → (α → Prop) → Run α → Prop)
    (worker : Evaluator) : Prop where
  evaluate : ∀ scope expression, terms.scope scope →
    good terms.value (worker.evaluate scope expression)
  execute : ∀ scope statement, terms.scope scope →
    (∀ name ∈ statement.declaredNames, terms.declares scope name) →
    good (fun _ => True) (worker.execute scope statement)

namespace Run.Composes

open Evaluator

variable {terms : Terms} {good : {α : Type} → (α → Prop) → Run α → Prop}
variable {worker : Evaluator} {settings : Settings}

theorem fail {α : Type} {post : α → Prop} (composes : Composes terms @good) (line : Nat)
    (error : RuntimeError) : good post (Run.fail line error : Run α) :=
  composes.throw _ (fun _ same => nomatch same) fun _ same => nomatch same

theorem stuck {α : Type} {post : α → Prop} (composes : Composes terms @good) :
    good post (MonadExcept.throw .stuck : Run α) :=
  composes.throw _ (fun _ same => nomatch same) fun _ same => nomatch same

theorem exhausted {α : Type} {post : α → Prop} (composes : Composes terms @good) :
    good post (MonadExcept.throw .exhausted : Run α) :=
  composes.throw _ (fun _ same => nomatch same) fun _ same => nomatch same

theorem ofOperation {α : Type} {post : α → Prop} (composes : Composes terms @good) (line : Nat)
    {outcome : Except RuntimeError α} (holds : ∀ result, outcome = .ok result → post result) :
    good post (Run.ofOperation line outcome) := by
  cases outcome with
  | ok result => exact composes.pure result (holds result rfl)
  | error error => exact composes.fail line error

theorem applyUnary (composes : Composes terms @good) (operator : Token) (operand : Value) :
    good terms.value (Evaluator.applyUnary operator operand) := by
  unfold Evaluator.applyUnary
  split
  · exact composes.stuck
  · refine composes.ofOperation _ fun result applied => ?_
    obtain ⟨literal, rfl⟩ := UnaryOperation.apply_literal applied
    exact terms.literal literal

theorem applyBinary (composes : Composes terms @good) (operator : Token) (left right : Value) :
    good terms.value (Evaluator.applyBinary operator left right) := by
  unfold Evaluator.applyBinary
  split
  · exact composes.stuck
  · refine composes.ofOperation _ fun result applied => ?_
    obtain ⟨literal, rfl⟩ := BinaryOperation.apply_literal applied
    exact terms.literal literal

theorem loop (composes : Composes terms @good) {condition : Run Bool} {body : Run Unit}
    (conditionGood : good (fun _ => True) condition) (bodyGood : good (fun _ => True) body)
    (rounds : Nat) : good (fun _ => True) (Run.loop condition body rounds) := by
  induction rounds with
  | zero => exact composes.exhausted
  | succ rounds ih =>
      unfold Run.loop
      refine composes.bind conditionGood fun holds _ => ?_
      cases holds with
      | true => exact composes.bind bodyGood fun _ _ => ih
      | false => exact composes.pure () trivial

/-! ### Trees -/

section Trees

variable (composes : Composes terms @good) (all : worker.All terms @good)
include composes all

theorem executeAll {scope : ScopeId} (inside : terms.scope scope) {statements : List Stmt}
    (declares : ∀ statement ∈ statements, ∀ name ∈ statement.declaredNames,
      terms.declares scope name) :
    good (fun _ => True) (worker.executeAll scope statements) := by
  induction statements with
  | nil => exact composes.pure () trivial
  | cons first others ih =>
      obtain ⟨here, there⟩ := List.forall_mem_cons.mp declares
      exact composes.bind (all.execute scope first inside here) fun _ _ => ih there

theorem evaluateAll {scope : ScopeId} (inside : terms.scope scope) (expressions : List Expr) :
    good (fun values => ∀ value ∈ values, terms.value value)
      (worker.evaluateAll scope expressions) := by
  induction expressions with
  | nil => exact composes.pure [] fun _ member => nomatch member
  | cons first others ih =>
      refine composes.bind (all.evaluate scope first inside) fun value holds => ?_
      refine composes.bind ih fun values holdsAll => ?_
      exact composes.pure (value :: values) (List.forall_mem_cons.mpr ⟨holds, holdsAll⟩)

/-- In a scope that the run itself opened everything may be declared. -/
theorem executeBlock {scope : ScopeId} (opened : terms.opened scope) (statements : List Stmt) :
    good (fun _ => True) (worker.executeBlock settings scope statements) := by
  refine composes.releasing settings scope opened ?_
  exact composes.executeAll all (terms.scope_of_opened scope opened)
    fun _ _ name _ => terms.declares_of_opened scope name opened

omit all in
theorem defineAll {scope : ScopeId} (opened : terms.opened scope) (parameters : List Token)
    {arguments : List Value} (holds : ∀ argument ∈ arguments, terms.value argument) :
    good (fun _ => True) (Evaluator.defineAll scope parameters arguments) := by
  induction parameters generalizing arguments with
  | nil => exact composes.pure () trivial
  | cons parameter parameters ih =>
      cases arguments with
      | nil => exact composes.pure () trivial
      | cons argument arguments =>
          obtain ⟨here, there⟩ := List.forall_mem_cons.mp holds
          refine composes.bind (composes.define scope parameter argument
            (terms.scope_of_opened scope opened) (terms.declares_of_opened scope _ opened) here) ?_
          exact fun _ _ => ih there

theorem invoke {arguments : List Value} (holds : ∀ argument ∈ arguments, terms.value argument)
    {function : Callable} (called : terms.value (.callable function)) :
    good terms.value (worker.invoke settings arguments function) := by
  cases function with
  | clock => exact composes.pure _ (terms.literal _)
  | closure declaration closure =>
      have inside := (terms.closure declaration closure).mp called
      refine composes.bind (composes.push closure inside) fun scope opened => ?_
      refine composes.bind (composes.defineAll opened declaration.parameters holds) fun _ _ => ?_
      exact composes.returned (composes.executeBlock all opened declaration.body)

theorem evaluateOptional {scope : ScopeId} (inside : terms.scope scope) (value : Option Expr) :
    good terms.value (worker.evaluateOptional scope value) := by
  cases value with
  | none => exact composes.pure _ (terms.literal _)
  | some value => exact all.evaluate scope value inside

theorem isTrue {scope : ScopeId} (inside : terms.scope scope) (condition : Expr) :
    good (fun _ => True) (worker.isTrue scope condition) :=
  composes.bind (all.evaluate scope condition inside) fun value _ =>
    composes.pure value.isTruthy trivial

theorem evaluateNode (scope : ScopeId) (expression : Expr) (inside : terms.scope scope) :
    good terms.value (worker.evaluateNode settings scope expression) := by
  cases expression with
  | literal value => exact composes.pure _ (terms.literal value)
  | «variable» name => exact composes.lookup scope name inside
  | assign name value =>
      refine composes.bind (all.evaluate scope value inside) fun result holds => ?_
      exact composes.bind (composes.assign scope name result inside holds) fun _ _ =>
        composes.pure result holds
  | unary operator operand =>
      exact composes.bind (all.evaluate scope operand inside) fun value _ =>
        composes.applyUnary operator value
  | binary left operator right =>
      refine composes.bind (all.evaluate scope left inside) fun first _ => ?_
      exact composes.bind (all.evaluate scope right inside) fun second _ =>
        composes.applyBinary operator first second
  | logical left operator right =>
      refine composes.bind (all.evaluate scope left inside) fun first holds => ?_
      cases settled : if operator.kind == .orWord then first.isTruthy else !first.isTruthy with
      | true => exact composes.pure first holds
      | false => exact all.evaluate scope right inside
  | conditional condition question thenBranch elseBranch =>
      refine composes.bind (all.evaluate scope condition inside) fun chosen _ => ?_
      split
      · exact all.evaluate scope thenBranch inside
      · exact all.evaluate scope elseBranch inside
      · exact composes.fail _ _
  | call callee paren arguments =>
      refine composes.bind (all.evaluate scope callee inside) fun function called => ?_
      split
      · exact composes.fail _ _
      · refine composes.bind (composes.evaluateAll all inside arguments) fun values holds => ?_
        split
        · exact composes.counted settings (composes.invoke all holds called)
        · exact composes.fail _ _
  | grouping inner => exact all.evaluate scope inner inside

theorem executeNode (scope : ScopeId) (statement : Stmt) (inside : terms.scope scope)
    (declares : ∀ name ∈ statement.declaredNames, terms.declares scope name) :
    good (fun _ => True) (worker.executeNode settings scope statement) := by
  cases statement with
  | expression value =>
      exact composes.bind (all.evaluate scope value inside) fun _ _ => composes.pure () trivial
  | print value =>
      exact composes.bind (all.evaluate scope value inside) fun result _ => composes.print result
  | returning keyword value =>
      refine composes.bind (composes.evaluateOptional all inside value) fun result holds => ?_
      exact composes.throw (.returning result) (fun _ same => nomatch same) fun _ same => by
        cases same
        exact holds
  | «variable» name initializer =>
      refine composes.bind (composes.evaluateOptional all inside initializer) fun result holds => ?_
      exact composes.define scope name result inside (declares _ List.mem_cons_self) holds
  | function label name parameters body =>
      refine composes.bind (composes.capture scope inside) fun _ _ => ?_
      exact composes.define scope name _ inside (declares _ List.mem_cons_self)
        ((terms.closure _ scope).mpr inside)
  | block statements =>
      exact composes.bind (composes.push scope inside) fun inner opened =>
        composes.executeBlock all opened statements
  | branch condition thenBranch elseBranch =>
      refine composes.bind (composes.isTrue all inside condition) fun holds _ => ?_
      cases elseBranch with
      | none =>
          cases holds with
          | true => exact all.execute scope thenBranch inside declares
          | false => exact composes.pure () trivial
      | some elseBranch =>
          obtain ⟨first, second⟩ := List.forall_mem_append.mp declares
          cases holds with
          | true => exact all.execute scope thenBranch inside first
          | false => exact all.execute scope elseBranch inside second
  | loop condition body =>
      exact composes.loop (composes.isTrue all inside condition)
        (all.execute scope body inside declares) worker.rounds

end Trees

/-- By induction on the levels that may be worked on. -/
theorem evaluator_all (composes : Composes terms @good) (settings : Settings) (steps : Nat) :
    (evaluator settings steps).All terms @good := by
  induction steps with
  | zero =>
      rw [evaluator_zero]
      exact ⟨fun _ _ _ => composes.exhausted, fun _ _ _ _ => composes.exhausted⟩
  | succ steps ih =>
      rw [evaluator_succ]
      exact ⟨composes.evaluateNode ih, composes.executeNode ih⟩

end Run.Composes

end Lox
