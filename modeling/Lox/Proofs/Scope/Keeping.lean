import Lox.Proofs.Scope.Relocation
set_option autoImplicit false

/-! Runs in which nothing is ever taken away. Such a run follows a run in which scopes are taken away
step by step: at every moment it does the same work on the same values, at the places that the
scopes have in the larger arena. -/

namespace Lox

structure Machine.Embeds (place : ScopeId → ScopeId) (machine larger : Machine) : Prop where
  arena : machine.arena.Embeds place larger.arena
  callDepth : larger.callDepth = machine.callDepth
  output : larger.output = machine.output

/-- The machines have as many scopes as before. -/
structure Machine.Tracks (place : ScopeId → ScopeId) (machine larger later largerLater : Machine) :
    Prop where
  embeds : later.Embeds place largerLater
  size : later.arena.size = machine.arena.size
  largerSize : largerLater.arena.size = larger.arena.size

/-- An action and its copy, done on the two machines, have the same outcome. -/
def Run.Mirrors {α : Type} (place : ScopeId → ScopeId) (relocate : α → α) (action copy : Run α)
    (machine larger : Machine) : Prop :=
  match action machine with
  | .ok result later =>
    ∃ largerLater, copy larger = .ok (relocate result) largerLater ∧
      machine.Tracks place larger later largerLater
  | .error interrupt later =>
    ∃ largerLater, copy larger = .error (interrupt.relocate place) largerLater ∧
      machine.Tracks place larger later largerLater

namespace Machine

variable {place : ScopeId → ScopeId} {machine larger : Machine}

theorem Embeds.tracks (embeds : machine.Embeds place larger) :
    machine.Tracks place larger machine larger :=
  ⟨embeds, rfl, rfl⟩

theorem Embeds.with_arena (embeds : machine.Embeds place larger) {arena largerArena : Arena Value}
    (arenas : arena.Embeds place largerArena) :
    Embeds place { machine with arena } { larger with arena := largerArena } :=
  ⟨arenas, embeds.callDepth, embeds.output⟩

theorem Embeds.enterCall (embeds : machine.Embeds place larger) :
    machine.enterCall.Embeds place larger.enterCall :=
  ⟨embeds.arena, congrArg (· + 1) embeds.callDepth, embeds.output⟩

theorem Embeds.leaveCall (embeds : machine.Embeds place larger) :
    machine.leaveCall.Embeds place larger.leaveCall :=
  ⟨embeds.arena, congrArg (· - 1) embeds.callDepth, embeds.output⟩

/-- Whether two functions are the same does not depend on where their scopes are. -/
theorem Embeds.same_relocate (embeds : machine.Embeds place larger) {left right : Value}
    (leftAnchored : left.Anchored machine.arena) (rightAnchored : right.Anchored machine.arena) :
    (left.relocate place).same (right.relocate place) = left.same right := by
  cases left with
  | literal left => cases right <;> rfl
  | callable left =>
      cases right with
      | literal => rfl
      | callable right =>
          cases left with
          | clock => cases right <;> rfl
          | closure leftDeclaration leftScope =>
              cases right with
              | clock => rfl
              | closure rightDeclaration rightScope =>
                  have places := embeds.arena.place_injective
                    (Arena.Captures.lt_size leftAnchored) (Arena.Captures.lt_size rightAnchored)
                  have scopes : (place leftScope == place rightScope)
                      = (leftScope == rightScope) := by
                    rw [Bool.eq_iff_iff, beq_iff_eq, beq_iff_eq]
                    exact places
                  change (leftDeclaration.label == rightDeclaration.label
                    && place leftScope == place rightScope) = _
                  rw [scopes]
                  rfl

end Machine

/-! ### Operations -/

theorem UnaryOperation.apply_relocate (operation : UnaryOperation) (place : ScopeId → ScopeId)
    (operand : Value) :
    operation.apply (operand.relocate place)
      = (operation.apply operand).map (Value.relocate place) := by
  cases operation with
  | negate =>
      cases operand with
      | callable => rfl
      | literal literal => cases literal <;> rfl
  | not =>
      rw [apply, apply, Value.isTruthy_relocate]
      rfl

namespace BinaryOperation

variable (place : ScopeId → ScopeId)

theorem sum_relocate (left right : Value) :
    sum (left.relocate place) (right.relocate place)
      = (sum left right).map (Value.relocate place) := by
  cases left with
  | literal left =>
      cases right with
      | literal right => cases left <;> cases right <;> rfl
      | callable right =>
          cases left with
          | string text =>
              change Except.ok (Value.string (text ++ (right.relocate place).text)) = _
              rw [Callable.text_relocate]
              rfl
          | nil | bool | number => rfl
  | callable left =>
      cases right with
      | callable right => rfl
      | literal right =>
          cases right with
          | string text =>
              change Except.ok (Value.string ((left.relocate place).text ++ text)) = _
              rw [Callable.text_relocate]
              rfl
          | nil | bool | number => rfl

theorem apply_relocate (operation : BinaryOperation) {machine larger : Machine}
    (embeds : machine.Embeds place larger) {left right : Value}
    (leftAnchored : left.Anchored machine.arena) (rightAnchored : right.Anchored machine.arena) :
    operation.apply (left.relocate place) (right.relocate place)
      = (operation.apply left right).map (Value.relocate place) := by
  cases operation with
  | add => exact sum_relocate place left right
  | equal =>
      change Except.ok (Value.bool ((left.relocate place).same (right.relocate place))) = _
      rw [embeds.same_relocate leftAnchored rightAnchored]
      cases left <;> cases right <;> rfl
  | notEqual =>
      change Except.ok (Value.bool !((left.relocate place).same (right.relocate place))) = _
      rw [embeds.same_relocate leftAnchored rightAnchored]
      cases left <;> cases right <;> rfl
  | arithmetic operation =>
      cases left with
      | callable => cases right <;> rfl
      | literal left =>
          cases right with
          | callable => cases left <;> rfl
          | literal right =>
              cases left with
              | number left =>
                  cases right with
                  | number right =>
                      change Value.number <$> operation.apply left right
                        = (Value.number <$> operation.apply left right).map _
                      cases operation.apply left right <;> rfl
                  | nil | bool | string => rfl
              | nil | bool | string => cases right <;> rfl
  | comparison relation =>
      cases left with
      | callable => cases right <;> rfl
      | literal left =>
          cases right with
          | callable => cases left <;> rfl
          | literal right => cases left <;> cases right <;> rfl

end BinaryOperation

/-! ### Actions -/

namespace Run

variable {place : ScopeId → ScopeId} {machine larger : Machine}

theorem fail_mirrors {α : Type} (relocate : α → α) (embeds : machine.Embeds place larger)
    (line : Nat) (error : RuntimeError) :
    Mirrors place relocate (fail line error) (fail line error) machine larger :=
  ⟨larger, rfl, embeds.tracks⟩

theorem stuck_mirrors {α : Type} (relocate : α → α) (embeds : machine.Embeds place larger) :
    Mirrors place relocate (throw .stuck) (throw .stuck) machine larger :=
  ⟨larger, rfl, embeds.tracks⟩

theorem ofOperation_mirrors (embeds : machine.Embeds place larger) (line : Nat)
    (outcome : Except RuntimeError Value) :
    Mirrors place (Value.relocate place) (ofOperation line outcome)
      (ofOperation line (outcome.map (Value.relocate place))) machine larger := by
  cases outcome with
  | error error => exact fail_mirrors _ embeds line error
  | ok value => exact ⟨larger, rfl, embeds.tracks⟩

theorem applyUnary_mirrors (embeds : machine.Embeds place larger) (operator : Token)
    (operand : Value) :
    Mirrors place (Value.relocate place) (Evaluator.applyUnary operator operand)
      (Evaluator.applyUnary operator (operand.relocate place)) machine larger := by
  unfold Evaluator.applyUnary
  cases UnaryOperation.ofKind? operator.kind with
  | none => exact stuck_mirrors _ embeds
  | some operation =>
      dsimp only
      rw [operation.apply_relocate]
      exact ofOperation_mirrors embeds operator.line _

theorem applyBinary_mirrors (embeds : machine.Embeds place larger) (operator : Token)
    {left right : Value} (leftAnchored : left.Anchored machine.arena)
    (rightAnchored : right.Anchored machine.arena) :
    Mirrors place (Value.relocate place) (Evaluator.applyBinary operator left right)
      (Evaluator.applyBinary operator (left.relocate place) (right.relocate place))
      machine larger := by
  unfold Evaluator.applyBinary
  cases BinaryOperation.ofKind? operator.kind with
  | none => exact stuck_mirrors _ embeds
  | some operation =>
      dsimp only
      rw [operation.apply_relocate place embeds leftAnchored rightAnchored]
      exact ofOperation_mirrors embeds operator.line _

theorem lookup_mirrors (grounded : machine.Grounded) (embeds : machine.Embeds place larger)
    {scope : ScopeId} (inside : scope < machine.arena.size) (name : Token) :
    Mirrors place (Value.relocate place) (lookup scope name) (lookup (place scope) name)
      machine larger := by
  unfold Mirrors lookup
  rw [embeds.arena.get?_eq grounded.rooted name.lexeme inside]
  cases machine.arena.get? scope name.lexeme with
  | none => exact ⟨larger, rfl, embeds.tracks⟩
  | some value => exact ⟨larger, rfl, embeds.tracks⟩

theorem assign_mirrors (grounded : machine.Grounded) (embeds : machine.Embeds place larger)
    {scope : ScopeId} (inside : scope < machine.arena.size) (name : Token) (value : Value) :
    Mirrors place id (assign scope name value) (assign (place scope) name (value.relocate place))
      machine larger := by
  obtain ⟨known, arenas⟩ := embeds.arena.assign grounded.rooted inside name.lexeme value
  have size := machine.arena.size_assign scope name.lexeme value
  have largerSize :=
    larger.arena.size_assign (place scope) name.lexeme (value.relocate place)
  unfold Mirrors assign
  cases assigned : machine.arena.assign scope name.lexeme value with
  | mk found arena =>
      cases largerAssigned :
          larger.arena.assign (place scope) name.lexeme (value.relocate place) with
      | mk largerFound largerArena =>
          rw [assigned, largerAssigned] at known arenas
          rw [assigned] at size
          rw [largerAssigned] at largerSize
          cases known
          cases found with
          | true => exact ⟨_, rfl, embeds.with_arena arenas, size, largerSize⟩
          | false => exact ⟨_, rfl, embeds.with_arena arenas, size, largerSize⟩

theorem define_mirrors (embeds : machine.Embeds place larger) {scope : ScopeId}
    (inside : scope < machine.arena.size) (name : Token) (value : Value) :
    Mirrors place id (define scope name value) (define (place scope) name (value.relocate place))
      machine larger :=
  ⟨_, rfl, embeds.with_arena (embeds.arena.define inside name.lexeme value),
    Arena.size_define _ _ _ _, Arena.size_define _ _ _ _⟩

theorem declare_mirrors (embeds : machine.Embeds place larger) {scope : ScopeId}
    (inside : scope < machine.arena.size) (name : Token) (declaration : FunctionDeclaration) :
    Mirrors place id
      (do
        capture scope
        define scope name (.callable (.closure declaration scope)))
      (do
        capture (place scope)
        define (place scope) name (.callable (.closure declaration (place scope))))
      machine larger := by
  have captured := embeds.arena.capture inside
  have stillInside : scope < (machine.arena.capture scope).size := by
    rw [Arena.size_capture]
    exact inside
  have defined := captured.define stillInside name.lexeme (.callable (.closure declaration scope))
  refine ⟨_, rfl, embeds.with_arena defined, ?_, ?_⟩
  · exact (Arena.size_define _ _ _ _).trans (Arena.size_capture _ _)
  · exact (Arena.size_define _ _ _ _).trans (Arena.size_capture _ _)

theorem print_mirrors (embeds : machine.Embeds place larger) (value : Value) :
    Mirrors place id (print value) (print (value.relocate place)) machine larger := by
  unfold Mirrors print
  rw [Value.text_relocate, embeds.output]
  cases machine.output.write (value.text ++ "\n").toUTF8 with
  | mk output error =>
      cases error with
      | none => exact ⟨_, rfl, ⟨embeds.arena, embeds.callDepth, rfl⟩, rfl, rfl⟩
      | some error => exact ⟨_, rfl, ⟨embeds.arena, embeds.callDepth, rfl⟩, rfl, rfl⟩

theorem flush_mirrors (embeds : machine.Embeds place larger) :
    Mirrors place id flush flush machine larger := by
  unfold Mirrors flush
  rw [embeds.output]
  cases machine.output.flushError? with
  | none => exact ⟨larger, rfl, embeds.tracks⟩
  | some error => exact ⟨larger, rfl, embeds.tracks⟩

end Run

end Lox
