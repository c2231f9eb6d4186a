import Lox.Proofs.Grammar.Placement
import Lox.Proofs.Scope.Confinement
set_option autoImplicit false

/-! Scoping is lexical. What is run touches only scopes that it can reach, over enclosing links and
over closures, and those that it opens; it cannot tell what the other scopes hold. -/

namespace Lox

/-- What can be reached from some scopes: the scopes around them, the scopes that functions bound in
them close over, and so on. -/
inductive Arena.Reachable (arena : Arena Value) (root : ScopeId → Prop) : ScopeId → Prop
  | root {id : ScopeId} (here : root id) : Reachable arena root id
  | outward {id outer : ScopeId} {scope : Scope Value} (reached : Reachable arena root id)
      (there : arena.scopes[id]? = some scope) (link : scope.enclosing = some outer) :
      Reachable arena root outer
  | closure {id closure : ScopeId} {scope : Scope Value} {name : String} {value : Value}
      (reached : Reachable arena root id) (there : arena.scopes[id]? = some scope)
      (bound : scope.bindings.get? name = some value) (closes : value.closure? = some closure) :
      Reachable arena root closure

/-- What a reached scope leads to is reached. -/
theorem Arena.Reachable.within {arena : Arena Value} {root : ScopeId → Prop} {id : ScopeId}
    {scope : Scope Value} (reached : arena.Reachable root id)
    (there : arena.scopes[id]? = some scope) : scope.Within (arena.Reachable root) where
  outward _ := .outward reached there
  bound _ _ bound _ := .closure reached there bound

/-- Nothing less is closed and has the roots in it. -/
theorem Arena.Reachable.least {arena : Arena Value} {root inside : ScopeId → Prop}
    (roots : ∀ id, root id → inside id)
    (closed : ∀ (id : ScopeId) (scope : Scope Value), inside id →
      arena.scopes[id]? = some scope → scope.Within inside)
    {id : ScopeId} (reached : arena.Reachable root id) : inside id := by
  induction reached with
  | root here => exact roots _ here
  | outward _ there link ih => exact (closed _ _ ih there).outward _ link
  | closure _ there bound closes ih => exact (closed _ _ ih there).bound _ _ bound _ closes

/-- Two machines of which the program can tell a difference only outside of some scopes. -/
structure Machine.Alike (inside : ScopeId → Prop) (machine other : Machine) : Prop where
  size : other.arena.size = machine.arena.size
  depth : other.callDepth = machine.callDepth
  room : other.output.room = machine.output.room
  agree : ∀ id, inside id → other.arena.scopes[id]? = machine.arena.scopes[id]?

theorem Machine.Alike.refl (inside : ScopeId → Prop) (machine : Machine) :
    machine.Alike inside machine :=
  ⟨rfl, rfl, rfl, fun _ _ => rfl⟩

/-- What an action came to. -/
def Run.answer {α : Type} : EStateM.Result Interrupt Machine α → Except Interrupt α
  | .ok result _ => .ok result
  | .error interrupt _ => .error interrupt

/-- Something that is run: an expression or a statement in a scope, or a call. -/
inductive Portion where
  | expression (scope : ScopeId) (value : Expr)
  | statement (scope : ScopeId) (single : Stmt)
  | call (function : Callable) (arguments : List Value)

namespace Portion

/-- Statements have no value. -/
def run (settings : Settings) (steps : Nat) : Portion → Run (Option Value)
  | expression scope value => do
    let result ← (evaluator settings steps).evaluate scope value
    return some result
  | statement scope single => do
    (evaluator settings steps).execute scope single
    return none
  | call function arguments => do
    let result ← Run.counted settings
      ((evaluator settings steps).invoke settings arguments function)
    return some result

/-- Where it starts. A call does not start in the scope of the caller. -/
def Starts : Portion → ScopeId → Prop
  | expression scope _, id => id = scope
  | statement scope _, id => id = scope
  | call function arguments, id =>
    ∃ value ∈ Value.callable function :: arguments, value.closure? = some id

def Reaches (portion : Portion) (machine : Machine) : ScopeId → Prop :=
  machine.arena.Reachable portion.Starts

/-- It is a declaration of the name in the scope. -/
def Declares : Portion → ScopeId → String → Prop
  | statement scope single, id, name => id = scope ∧ single.declaration? = some name
  | _, _, _ => False

/-- A statement is a part of a program that was parsed and loaded. Of expressions and calls nothing
is asked. -/
def Parsed : Portion → Prop
  | statement _ single => ∃ tokens program next, parseProgram tokens = .ok program ∧
      ∃ whole ∈ (Stmt.labelledAll next program).1, Stmt.Part single whole
  | _ => True

/-- The region of a portion: what it reaches at first and what it opens. -/
def region (portion : Portion) (machine other : Machine) : Region where
  base := machine.arena
  inside id := portion.Reaches machine id ∨ machine.arena.size ≤ id
  declares id name := portion.Declares id name ∨ machine.arena.size ≤ id
  inside_of_opened _ := Or.inr
  declares_of_opened _ _ := Or.inr
  printed := machine.output.written
  printedOther := other.output.written

variable {portion : Portion} {machine other : Machine}

/-- A machine and one that is alike are twins at first. -/
theorem twins (alike : machine.Alike (portion.Reaches machine) other) :
    (portion.region machine other).Twins machine other := by
  have unopened : ∀ {id : ScopeId} {scope : Scope Value}, machine.arena.scopes[id]? = some scope →
      ¬ machine.arena.size ≤ id :=
    fun there => Nat.not_le_of_lt (Arena.lt_size_of_getElem? there)
  refine ⟨?_, alike.depth, alike.room, .empty, ?_, ?_⟩
  · constructor
    · exact Nat.le_refl _
    · exact alike.size
    · intro id scope inside there
      have reached := inside.resolve_right (unopened there)
      have within := reached.within there
      refine ⟨fun outer link => Or.inl (within.outward outer link), ?_⟩
      intro name value bound closure closes
      exact Or.inl (within.bound name value bound closure closes)
    · rintro id (reached | opened)
      · exact alike.agree id reached
      · have absent : other.arena.size ≤ id := alike.size ▸ opened
        rw [Array.getElem?_eq_none opened, Array.getElem?_eq_none absent]
    · exact fun _ _ => rfl
    · exact fun _ old there => ⟨old, there, fun _ => ⟨id, Or.inl⟩⟩
  · exact ByteArray.append_empty.symm
  · exact ByteArray.append_empty.symm

/-- No portion leaves its region, nor does its value. -/
theorem run_confines (settings : Settings) (steps : Nat) (parsed : portion.Parsed) :
    (portion.region machine other).Confines
      (fun result => ∀ value ∈ result, (portion.region machine other).terms.value value)
      (portion.run settings steps) := by
  have composes := (portion.region machine other).confines_composes
  have all := composes.evaluator_all settings steps
  cases portion with
  | expression scope value =>
      refine composes.bind (all.evaluate scope value (Or.inl (.root rfl))) fun result given => ?_
      exact composes.pure (some result) fun _ same => Option.mem_some.mp same ▸ given
  | statement scope single =>
      obtain ⟨tokens, program, next, ran, whole, member, part⟩ := parsed
      have placed := (parseProgram_placed ran next whole member).part part
      refine composes.bind (all.execute scope single (Or.inl (.root rfl)) ?_) fun _ _ => ?_
      · rw [placed.declaredNames]
        intro name declared
        exact Or.inl ⟨rfl, Option.mem_toList.mp declared⟩
      · exact composes.pure none fun _ none => absurd none (Option.not_mem_none _)
  | call function arguments =>
      have started : ∀ value ∈ Value.callable function :: arguments,
          ((Portion.call function arguments).region machine other).terms.value value :=
        fun value member closure closes => Or.inl (.root ⟨value, member, closes⟩)
      obtain ⟨called, passed⟩ := List.forall_mem_cons.mp started
      refine composes.bind (composes.counted settings (composes.invoke all passed called)) ?_
      exact fun result given =>
        composes.pure (some result) fun _ same => Option.mem_some.mp same ▸ given

/-- On both machines the portion comes to the same, and twins are behind it. What it gives closes
over nothing outside of the region. -/
theorem run_twins (settings : Settings) (steps : Nat) (parsed : portion.Parsed)
    (alike : machine.Alike (portion.Reaches machine) other) :
    Run.answer (portion.run settings steps other)
        = Run.answer (portion.run settings steps machine) ∧
      (portion.region machine other).Twins (Run.behind (portion.run settings steps machine))
        (Run.behind (portion.run settings steps other)) ∧
      ∀ value, Run.answer (portion.run settings steps machine) = .ok (some value) →
        (portion.region machine other).terms.value value := by
  have same := run_confines settings steps parsed machine other (twins alike)
  generalize portion.run settings steps machine = outcome,
    portion.run settings steps other = outcomeOther at same ⊢
  cases same with
  | ok twins given =>
      refine ⟨rfl, twins, fun value answered => ?_⟩
      cases answered
      exact given value rfl
  | error twins _ => exact ⟨rfl, twins, fun _ answered => nomatch answered⟩

end Portion

/-- A machine with a scope inside the global one, to which nothing leads. -/
def aside (value : Value) : Machine where
  arena := ⟨#[⟨none, [("a", .nil)], false⟩, ⟨some Arena.globalScope, [("a", value)], false⟩]⟩
  callDepth := 0
  output := .unlimited

/-- `var b = a;` -/
def copyName : Surface :=
  let name (text : String) : Token := ⟨.identifier, text, .nil, 1⟩
  .clause (.variable (name "b") (some (.variable (name "a"))))

theorem aside_reaches {id : ScopeId}
    (reached : (Portion.statement Arena.globalScope copyName.desugar).Reaches (aside .nil) id) :
    id = Arena.globalScope := by
  induction reached with
  | root here => exact here
  | outward _ there link ih =>
      rw [ih] at there
      cases there
      cases link
  | @closure _ _ _ name value _ there bound closes ih =>
      rw [ih] at there
      cases there
      change (if "a" = name then some Value.nil else none) = some value at bound
      split at bound
      · cases bound
        cases closes
      · cases bound

end Lox
